import Daimonos.Framework.Keyed
import Daimonos.Providers.AnthropicStream

namespace Daimonos.Providers

open Framework List

def Value.asU64? : Value → Option Nat
  | number n => if 0≤n ∧ n < 2 ^ 64 then some n.toNat else none
  | _ => none

def Value.at (value : Value) (key : String) : Value := (value.get? key).getD .null

namespace OpenRouter

structure WireToolCall where
  id : Option String
  name : Option String
  arguments : Option String

structure Body where
  finishReason : Option String
  usage : Value
  reasoning : Option String
  reasoningDetails : Option (List Value)
  content : Option String
  toolCalls : Option (List WireToolCall)
  refusal : Option String

def mapFinishReason : Option String → StopReason
  | some "stop" | some "end_turn" => .endTurn
  | some "tool_calls" => .toolUse
  | some "max_tokens" => .maxTokens
  | some "content_filter" | some "refusal" => .refusal
  | _ => .error

def parseUsage (usage : Value) : Usage :=
  let prompt := (usage.at "prompt_tokens").asU64?.getD 0
  let details := usage.at "prompt_tokens_details"
  let cacheRead := (details.at "cached_tokens").asU64?.getD 0
  let cacheWrite := (details.at "cache_write_tokens").asU64?.getD 0
  { input := prompt-cacheRead-cacheWrite
    output := (usage.at "completion_tokens").asU64?.getD 0
    reasoningOutput := ((usage.at "completion_tokens_details").at "reasoning_tokens").asU64?
    cacheRead := cacheRead
    cacheWrite := cacheWrite }

def reasoningBlocks (thinking : String) (details : List Value) : List ContentBlock :=
  (if thinking = "" then [] else [.thinking thinking]) ++
    if details = [] then [] else [.providerState providerState (.array details)]

def textBlocks (text : String) : List ContentBlock := if text = "" then [] else [.text text]

def WireToolCall.toContent (json : JsonText) (tc : WireToolCall) : ContentBlock :=
  .toolCall (tc.id.getD "") (tc.name.getD "") (json.arguments (tc.arguments.getD "\x7b\x7d"))

def parseResponse (json : JsonText) (body : Body) : LlmResponse where
  content := reasoningBlocks (body.reasoning.getD "") (body.reasoningDetails.getD []) ++
    textBlocks (body.content.getD "") ++
    (body.toolCalls.getD []).map (WireToolCall.toContent json)
  stopReason := mapFinishReason body.finishReason
  errorMessage :=
    if mapFinishReason body.finishReason = .refusal then
      some (body.refusal.getD "provider content policy refusal")
    else none
  usage := parseUsage body.usage

structure ToolCallDelta where
  id : Option String
  name : Option String
  arguments : Option String

/-- The fields of a chunk that are read; `delta` is that of the first choice. -/
structure Chunk where
  usage : Option Value := none
  finishReason : Option String := none
  reasoning : Option String := none
  reasoningDetails : List Value := []
  content : Option String := none
  toolCalls : List (Nat × ToolCallDelta) := []

structure PartialToolCall where
  id : String := ""
  name : String := ""
  arguments : String := ""

structure StreamState where
  text : String := ""
  thinking : String := ""
  reasoningDetails : List Value := []
  toolCalls : List PartialToolCall := []
  finishReason : Option String := none
  usage : Value := .null

def index? (detail : Value) : Option Nat := (detail.at "index").asU64?

/-- The fields whose texts come in pieces. -/
def isPayload (key : String) : Bool := key ∈ ["text", "summary", "data"]

def mergeField (target : List (String × Value)) (field : String × Value) : List (String × Value) :=
  match field.2 with
  | .null => target
  | .string piece =>
    match isPayload field.1, lookupKey field.1 target with
    | true, some (.string accumulated) => storeKey field.1 (.string (accumulated++piece)) target
    | _, _ => storeKey field.1 (.string piece) target
  | value => storeKey field.1 value target

def mergeInto (fields : List (String × Value)) : Value → Value
  | .object target => .object (fields.foldl mergeField target)
  | other => other

/-- A fragment goes into the first detail with its index, or becomes a new one. -/
def mergeReasoningDetail (details : List Value) (fragment : Value) : List Value :=
  match fragment with
  | .object fields =>
    match index? fragment with
    | none => details ++ [fragment]
    | some index =>
      match details.findIdx? fun detail => index? detail == some index with
      | none => details ++ [fragment]
      | some k => details.modify k (mergeInto fields)
  | _ => details

def PartialToolCall.add (tc : ToolCallDelta) (slot : PartialToolCall) : PartialToolCall where
  id := tc.id.getD slot.id
  name := tc.name.getD slot.name
  arguments := slot.arguments ++ tc.arguments.getD ""

namespace StreamState

def onChunk (s : StreamState) (chunk : Chunk) : StreamState × List StreamEvent :=
  let piece := chunk.reasoning.getD ""
  let text := chunk.content.getD ""
  ({ text := s.text++text
     thinking := s.thinking++piece
     reasoningDetails := chunk.reasoningDetails.foldl mergeReasoningDetail s.reasoningDetails
     toolCalls := chunk.toolCalls.foldl (fun l tc => touch {} tc.1 (PartialToolCall.add tc.2) l)
      s.toolCalls
     finishReason := chunk.finishReason.orElse fun _ => s.finishReason
     usage :=
      match chunk.usage with
      | none | some .null => s.usage
      | some usage => usage },
    (if piece = "" then [] else [.thinkingDelta piece]) ++
      if text = "" then [] else [.textDelta text])

def feed (s : StreamState) : List Chunk → StreamState × List StreamEvent
  | [] => (s, [])
  | chunk::rest =>
    let (s', events) := s.onChunk chunk
    let (s'', more) := s'.feed rest
    (s'', events++more)

def finish (json : JsonText) (s : StreamState) : LlmResponse where
  content := reasoningBlocks s.thinking s.reasoningDetails ++ textBlocks s.text ++
    s.toolCalls.map fun tc => .toolCall tc.id tc.name (json.arguments tc.arguments)
  stopReason := mapFinishReason s.finishReason
  usage := parseUsage s.usage

end StreamState

/-- The pieces of a call: its id and name as the last that is given, its arguments bit by bit. -/
def StreamsCall (call : WireToolCall) (deltas : List ToolCallDelta) : Prop :=
  deltas ≠ [] ∧ (deltas.filterMap ToolCallDelta.id).getLast? = call.id ∧
    (deltas.filterMap ToolCallDelta.name).getLast? = call.name ∧
    String.join (deltas.filterMap ToolCallDelta.arguments) = call.arguments.getD ""

/-- The values of a field in fragments: pieces of the text, the value itself, or nulls. -/
def SplitsField (key : String) (value : Option Value) (first : Option Value) (values : List Value) :
    Prop :=
  match isPayload key, value with
  | true, some (.string s) => ∃ pieces : List String, pieces ≠ [] ∧
      values.filter (· ≠ .null) = pieces.map Value.string ∧ String.join pieces = s
  | _, none => values.filter (· ≠ .null) = [] ∧ first=none
  | _, some .null => values.filter (· ≠ .null) = [] ∧ first = some .null
  | _, some v => values.filter (· ≠ .null) ≠ [] ∧ ∀ w ∈ values.filter (· ≠ .null), w=v

/-- The fragments of a detail, each with its index; without an index it is its only fragment. -/
def SplitsDetail (detail : Value) (fragments : List Value) : Prop :=
  (index? detail = none → fragments = [detail]) ∧
  ∃ fields : List (String × Value), detail = .object fields ∧
    ∃ parts : List (List (String × Value)), fragments = parts.map Value.object ∧
      (∀ part∈parts, (part.map Prod.fst).Nodup ∧ index? (.object part) = index? detail) ∧
      ∃ part rest, parts=part::rest ∧ ∀ key,
        SplitsField key (lookupKey key fields) (lookupKey key part) (parts.filterMap (lookupKey key))

/-- Fragments with the number of their detail, in any mixture: details begin in their order, and have
indices of their own. -/
structure Tagging (details : List Value) (tagged : List (Nat × Value)) : Prop where
  distinct : (details.filterMap index?).Nodup
  inside : ∀ e∈tagged, e.1<details.length
  split : ∀ i detail, details[i]? = some detail → SplitsDetail detail (ofSlot tagged i)
  ordered : ∀ before e after, tagged=before++e::after → ∀ j<e.1, ofSlot before j ≠ []

def SplitsDetails (details fragments : List Value) : Prop :=
  ∃ tagged, tagged.map Prod.snd = fragments ∧ Tagging details tagged

/-- The chunks stream the body. -/
structure Streams (body : Body) (chunks : List Chunk) : Prop where
  content : String.join (chunks.filterMap Chunk.content) = body.content.getD ""
  reasoning : String.join (chunks.filterMap Chunk.reasoning) = body.reasoning.getD ""
  finish : (chunks.filterMap Chunk.finishReason).getLast? = body.finishReason
  usage : (((chunks.filterMap Chunk.usage).filter (· ≠ .null)).getLast?).getD .null = body.usage
  inside : ∀ tc ∈ chunks.flatMap Chunk.toolCalls, tc.1 < (body.toolCalls.getD []).length
  calls : ∀ i call, (body.toolCalls.getD [])[i]? = some call →
    StreamsCall call (ofSlot (chunks.flatMap Chunk.toolCalls) i)
  details : SplitsDetails (body.reasoningDetails.getD []) (chunks.flatMap Chunk.reasoningDetails)

variable (s : StreamState)

theorem feed_cons (chunk : Chunk) (rest : List Chunk) :
    (s.feed (chunk::rest)).1 = ((s.onChunk chunk).1.feed rest).1 := rfl

open StreamState

theorem feed_eq (chunks : List Chunk) :
    (s.feed chunks).1 =
      { text := s.text ++ String.join (chunks.filterMap Chunk.content)
        thinking := s.thinking ++ String.join (chunks.filterMap Chunk.reasoning)
        reasoningDetails :=
          (chunks.flatMap Chunk.reasoningDetails).foldl mergeReasoningDetail s.reasoningDetails
        toolCalls := (chunks.flatMap Chunk.toolCalls).foldl
          (fun l tc => touch {} tc.1 (PartialToolCall.add tc.2) l) s.toolCalls
        finishReason := ((chunks.filterMap Chunk.finishReason).getLast?).orElse fun _ => s.finishReason
        usage := (((chunks.filterMap Chunk.usage).filter (· ≠ .null)).getLast?).getD s.usage } := by
  induction chunks generalizing s with
  | nil => simp [feed]
  | cons chunk rest ih =>
    rw [feed_cons,ih,StreamState.mk.injEq]
    refine ⟨?_,?_,?_,?_,?_,?_⟩
    · cases h : chunk.content <;> simp [onChunk,h,String.append_assoc]
    · cases h : chunk.reasoning <;> simp [onChunk,h,String.append_assoc]
    · rw [flatMap_cons,foldl_append]
      rfl
    · rw [flatMap_cons,foldl_append]
      rfl
    · cases h : chunk.finishReason with
      | none => simp [onChunk,h]
      | some reason =>
        rw [filterMap_cons_some h,getLast?_cons]
        simp only [onChunk,h]
        cases (rest.filterMap Chunk.finishReason).getLast? <;> rfl
    · cases h : chunk.usage with
      | none => simp [onChunk,h]
      | some usage =>
        by_cases hnull : usage=.null
        · simp [onChunk,h,hnull]
        · have hkept : (s.onChunk chunk).1.usage = usage := by
            simp only [onChunk,h]
          rw [hkept,filterMap_cons_some h,filter_cons_of_pos (by simpa using hnull),
            getLast?_cons]
          rfl

theorem feed_texts (chunks : List Chunk) :
    String.join ((s.feed chunks).2.filterMap StreamEvent.text?) =
      String.join (chunks.filterMap Chunk.content) := by
  induction chunks generalizing s with
  | nil => rfl
  | cons chunk rest ih =>
    have hchunk : String.join ((s.onChunk chunk).2.filterMap StreamEvent.text?) =
        chunk.content.getD "" := by
      simp only [onChunk]
      split_ifs with hreasoning hcontent hcontent <;>
        simp_all [StreamEvent.text?,filterMap_cons]
    simp only [feed,filterMap_append,String.join_append,ih,hchunk,filterMap_cons]
    cases chunk.content <;> simp

theorem foldl_add (deltas : List ToolCallDelta) (slot : PartialToolCall) :
    deltas.foldl (fun slot tc => PartialToolCall.add tc slot) slot =
      ⟨((deltas.filterMap ToolCallDelta.id).getLast?).getD slot.id,
        ((deltas.filterMap ToolCallDelta.name).getLast?).getD slot.name,
        slot.arguments ++ String.join (deltas.filterMap ToolCallDelta.arguments)⟩ := by
  induction deltas generalizing slot with
  | nil => simp
  | cons tc rest ih =>
    rw [foldl_cons,ih]
    cases hid : tc.id <;> cases hname : tc.name <;> cases hargs : tc.arguments <;>
      simp [PartialToolCall.add,hid,hname,hargs,getLast?_cons,String.append_assoc]

variable (json : JsonText)

theorem arguments_default :
    json.arguments "\x7b\x7d" = json.arguments "" := by
  simp [JsonText.arguments,json.fromStr_empty,json.fromStr_braces]

theorem Streams.calls_eq {body : Body} {chunks : List Chunk} (h : Streams body chunks)
    (json : JsonText) :
    ((({} : StreamState).feed chunks).1.toolCalls.map fun tc =>
        ContentBlock.toolCall tc.id tc.name (json.arguments tc.arguments)) =
      (body.toolCalls.getD []).map (WireToolCall.toContent json) := by
  have hall : ∀ i < (body.toolCalls.getD []).length,
      ofSlot (chunks.flatMap Chunk.toolCalls) i ≠ [] :=
    fun i hi => (h.calls i _ (getElem?_eq_getElem hi)).1
  have hslots := foldl_touch_eq ({} : PartialToolCall) PartialToolCall.add hall h.inside
  rw [feed_eq]
  rw [hslots,map_map]
  apply ext_getElem
  · simp
  · intro i hi hi'
    have hlt : i < (body.toolCalls.getD []).length := by simpa using hi'
    obtain ⟨-,hid,hname,harguments⟩ := h.calls i _ (getElem?_eq_getElem hlt)
    rw [getElem_map,getElem_map,getElem_range,Function.comp_apply]
    simp only [foldl_add,hid,hname,harguments,String.empty_append,WireToolCall.toContent]
    congr 1
    cases ((body.toolCalls.getD [])[i]).arguments with
    | none => exact (arguments_default json).symm
    | some arguments => rfl

def mergeValue (key : String) (old : Option Value) : Value → Option Value
  | .null => old
  | .string piece =>
    match isPayload key, old with
    | true, some (.string accumulated) => some (.string (accumulated++piece))
    | _, _ => some (.string piece)
  | value => some value

variable (key : String)

theorem lookupKey_mergeField (target : List (String × Value)) (field : String × Value) :
    lookupKey key (mergeField target field) =
      if key=field.1 then mergeValue key (lookupKey key target) field.2
      else lookupKey key target := by
  obtain ⟨k,v⟩ := field
  cases v with
  | null => exact (ite_self _).symm
  | string =>
    by_cases hk : key=k
    · subst hk
      simp only [mergeField,mergeValue]
      split <;> simp [lookupKey_storeKey]
    · simp only [mergeField]
      split <;> simp [lookupKey_storeKey,hk]
  | _ => exact lookupKey_storeKey ..

theorem lookupKey_cons (field : String × Value) (rest : List (String × Value)) :
    lookupKey key (field::rest) = if field.1=key then some field.2 else lookupKey key rest := by
  by_cases h : field.1=key <;> simp [lookupKey,h]

theorem lookupKey_eq_none {key : String} {fields : List (String × Value)}
    (h : key ∉ fields.map Prod.fst) : lookupKey key fields = none := by
  rw [lookupKey,Option.map_eq_none_iff,find?_eq_none]
  intro field hfield
  have hne : field.1≠key := fun heq => h (heq ▸ mem_map_of_mem hfield)
  simpa using hne

theorem lookupKey_foldl_mergeField {part : List (String × Value)}
    (hnodup : (part.map Prod.fst).Nodup) (target : List (String × Value)) :
    lookupKey key (part.foldl mergeField target) =
      ((lookupKey key part).toList).foldl (mergeValue key) (lookupKey key target) := by
  induction part generalizing target with
  | nil => rfl
  | cons field rest ih =>
    obtain ⟨hfirst,hrest⟩ := nodup_cons.mp hnodup
    rw [foldl_cons,ih hrest,lookupKey_mergeField,lookupKey_cons]
    by_cases hkey : field.1=key
    · subst hkey
      rw [lookupKey_eq_none hfirst]
      simp
    · simp [hkey,Ne.symm hkey]

def gather (part : List (String × Value)) (rest : List (List (String × Value))) :
    List (String × Value) :=
  rest.foldl (fun target part => part.foldl mergeField target) part

theorem lookupKey_gather (part : List (String × Value))
    {rest : List (List (String × Value))} (hnodup : ∀ p∈rest, (p.map Prod.fst).Nodup) :
    lookupKey key (gather part rest) =
      (rest.filterMap (lookupKey key)).foldl (mergeValue key) (lookupKey key part) := by
  induction rest generalizing part with
  | nil => rfl
  | cons p rest ih =>
    have hstep : gather part (p::rest) = gather (p.foldl mergeField part) rest := rfl
    rw [hstep,ih _ fun q hq => hnodup q (mem_cons_of_mem _ hq),
      lookupKey_foldl_mergeField key (hnodup p mem_cons_self),filterMap_cons]
    cases lookupKey key p <;> rfl

theorem foldl_mergeValue_filter (old : Option Value) (values : List Value) :
    values.foldl (mergeValue key) old =
      (values.filter (· ≠ .null)).foldl (mergeValue key) old := by
  induction values generalizing old with
  | nil => rfl
  | cons v rest ih =>
    by_cases hnull : v=.null
    · subst hnull
      simpa [mergeValue] using ih old
    · rw [filter_cons_of_pos (by simpa using hnull)]
      exact ih _

theorem foldl_mergeValue_first (first : Option Value) (rest : List Value)
    (hne : (first.toList++rest).filter (· ≠ .null) ≠ []) :
    rest.foldl (mergeValue key) first =
      ((first.toList++rest).filter (· ≠ .null)).foldl (mergeValue key) none := by
  rw [foldl_mergeValue_filter]
  cases first with
  | none => rfl
  | some v =>
    by_cases hnull : v=.null
    · subst hnull
      have hskip : ((some Value.null).toList ++ rest).filter (· ≠ .null) =
          rest.filter (· ≠ .null) := by simp
      rw [hskip] at hne ⊢
      obtain ⟨w,others,hw⟩ := exists_cons_of_ne_nil hne
      have hwnull : w≠.null := by
        have := (mem_filter.mp (hw ▸ mem_cons_self : w ∈ rest.filter (· ≠ .null))).2
        simpa using this
      rw [hw,foldl_cons,foldl_cons]
      congr 1
      cases w <;> simp [mergeValue] at hwnull ⊢
    · have hkeep : ((some v).toList ++ rest).filter (· ≠ .null) =
          v :: rest.filter (· ≠ .null) := by simp [hnull]
      rw [hkeep,foldl_cons]
      congr 1
      cases v <;> simp [mergeValue] at hnull ⊢

theorem foldl_mergeValue_pieces {key : String} (hkey : isPayload key = true) (acc : String)
    (pieces : List String) :
    (pieces.map Value.string).foldl (mergeValue key) (some (.string acc)) =
      some (.string (acc ++ String.join pieces)) := by
  induction pieces generalizing acc with
  | nil => simp
  | cons piece rest ih =>
    rw [map_cons,foldl_cons]
    simp only [mergeValue,hkey]
    rw [ih,String.join_cons,String.append_assoc]

theorem foldl_mergeValue_const {key : String} {v : Value} (hv : v≠.null)
    (hother : isPayload key = true → ∀ s, v ≠ .string s) {values : List Value}
    (hall : ∀ w∈values, w=v) (hne : values ≠ []) (old : Option Value) :
    values.foldl (mergeValue key) old = some v := by
  have hmerge : ∀ old, mergeValue key old v = some v := by
    intro old
    cases v with
    | null => exact (hv rfl).elim
    | string s =>
      cases hkey : isPayload key with
      | true => exact (hother hkey s rfl).elim
      | false => simp [mergeValue,hkey]
    | _ => rfl
  induction values generalizing old with
  | nil => exact (hne rfl).elim
  | cons w rest ih =>
    rw [foldl_cons,hall w mem_cons_self,hmerge]
    by_cases hrest : rest = []
    · rw [hrest]
      rfl
    · exact ih (fun u hu => hall u (mem_cons_of_mem _ hu)) hrest _

theorem foldl_mergeValue_of_splitsField {key : String} {value first : Option Value}
    {rest : List Value} (h : SplitsField key value first (first.toList++rest)) :
    rest.foldl (mergeValue key) first = value := by
  unfold SplitsField at h
  split at h
  next s hkey =>
    obtain ⟨pieces,hne,hpieces,rfl⟩ := h
    rw [foldl_mergeValue_first key first rest (by rw [hpieces]; simpa using hne),hpieces]
    obtain ⟨piece,others,rfl⟩ := exists_cons_of_ne_nil hne
    rw [map_cons,foldl_cons,String.join_cons]
    have hfirst : mergeValue key none (.string piece) = some (.string piece) := by
      simp [mergeValue]
    rw [hfirst]
    exact foldl_mergeValue_pieces hkey piece others
  next =>
    obtain ⟨hnone,rfl⟩ := h
    rw [foldl_mergeValue_filter]
    rw [Option.toList_none,nil_append] at hnone
    rw [hnone]
    rfl
  next =>
    obtain ⟨hnone,rfl⟩ := h
    rw [filter_append,append_eq_nil_iff] at hnone
    rw [foldl_mergeValue_filter,hnone.2]
    rfl
  next v hnull hpayload =>
    obtain ⟨hne,hall⟩ := h
    rw [foldl_mergeValue_first key first rest hne]
    exact foldl_mergeValue_const hnull (fun hkey s heq => hpayload s hkey heq) hall hne none

theorem index?_object (fields : List (String × Value)) :
    index? (.object fields) = (lookupKey "index" fields).bind Value.asU64? := by
  have hget : (Value.object fields).get? "index" = lookupKey "index" fields := rfl
  rw [index?,Value.at,hget]
  cases lookupKey "index" fields <;> rfl

theorem index?_gather {part : List (String × Value)} {rest : List (List (String × Value))}
    {index : Option Nat} (hpart : index? (.object part) = index)
    (hrest : ∀ p∈rest, (p.map Prod.fst).Nodup ∧ index? (.object p) = index) :
    index? (.object (gather part rest)) = index := by
  induction rest generalizing part with
  | nil => exact hpart
  | cons p rest ih =>
    obtain ⟨hnodup,hp⟩ := hrest p mem_cons_self
    refine ih ?_ fun q hq => hrest q (mem_cons_of_mem _ hq)
    rw [index?_object] at hp hpart ⊢
    rw [lookupKey_foldl_mergeField _ hnodup]
    cases hlookup : lookupKey "index" p with
    | none => exact hpart
    | some v =>
      rw [hlookup,Option.bind_some] at hp
      rw [Option.toList_some,foldl_cons,foldl_nil]
      by_cases hnull : v=.null
      · subst hnull
        exact hpart
      · have hmerge : mergeValue "index" (lookupKey "index" part) v = some v := by
          cases v <;> first | rfl | exact (hnull rfl).elim
        rw [hmerge,Option.bind_some,hp]

/-- What a fragment makes of the place of its detail. -/
def place (fragment : Value) (old : Option Value) : Option Value :=
  some (match old, fragment with
    | some detail, .object fields => mergeInto fields detail
    | some detail, _ => detail
    | none, _ => fragment)

theorem foldl_place (part : List (String × Value)) (rest : List (List (String × Value))) :
    ((part::rest).map Value.object).foldl (fun old fragment => place fragment old) none =
      some (.object (gather part rest)) := by
  induction rest generalizing part with
  | nil => rfl
  | cons p rest ih => exact ih (p.foldl mergeField part)

theorem index?_ne {details : List Value} (h : (details.filterMap index?).Nodup) {i k : Nat}
    (hki : k < i) {a b : Value} (ha : details[k]? = some a) (hb : details[i]? = some b) {index : Nat}
    (hindex : index? b = some index) : index? a ≠ some index := by
  intro heq
  obtain ⟨hk,rfl⟩ := List.getElem?_eq_some_iff.mp ha
  obtain ⟨hi,rfl⟩ := List.getElem?_eq_some_iff.mp hb
  have hpairs := List.pairwise_iff_getElem.mp (List.pairwise_filterMap.mp h) k i hk hi hki
  exact hpairs index heq index hindex rfl

section Tagged

variable {details : List Value} {tagged : List (Nat × Value)}

theorem Tagging.parts (h : Tagging details tagged) {before after : List (Nat × Value)}
    (htagged : tagged=before++after) {k : Nat} (hne : ofSlot before k ≠ []) :
    ∃ detail part rest, details[k]? = some detail ∧
      ofSlot before k = (part::rest).map Value.object ∧
      ∀ p∈part::rest, (p.map Prod.fst).Nodup ∧ index? (.object p) = index? detail := by
  obtain ⟨e,he,rfl⟩ := ofSlot_ne_nil_iff.mp hne
  have hlt := h.inside e (by rw [htagged]; exact mem_append_left _ he)
  have hdetail := getElem?_eq_getElem hlt
  obtain ⟨-,fields,-,parts,hparts,hall,-⟩ := h.split e.1 _ hdetail
  rw [htagged,ofSlot_append] at hparts
  obtain ⟨parts₁,parts₂,rfl,hbefore,-⟩ := append_eq_map_iff.mp hparts
  rw [← hbefore] at hne ⊢
  have hparts₁ : parts₁ ≠ [] := by simpa using hne
  obtain ⟨part,rest,rfl⟩ := exists_cons_of_ne_nil hparts₁
  exact ⟨_,part,rest,hdetail,rfl,fun p hp => hall p (mem_append_left _ hp)⟩

theorem Tagging.fragment (h : Tagging details tagged) {before after : List (Nat × Value)} {i : Nat}
    {fragment : Value} (htagged : tagged = before ++ (i, fragment) :: after) :
    ∃ detail p, details[i]? = some detail ∧ fragment = .object p ∧
      index? (.object p) = index? detail ∧ (index? detail = none → ofSlot before i = []) := by
  obtain ⟨detail,hdetail⟩ : ∃ detail, details[i]? = some detail :=
    ⟨_,getElem?_eq_getElem (h.inside (i, fragment) (by simp [htagged]))⟩
  obtain ⟨hsingle,fields,-,parts,hall,hfragments,-⟩ := h.split i detail hdetail
  rw [htagged,ofSlot_append,ofSlot_cons_self] at hsingle hall
  obtain ⟨parts₁,tail,rfl,-,htail⟩ := append_eq_map_iff.mp hall
  obtain ⟨p,others,rfl,rfl,-⟩ := map_eq_cons_iff.mp htail
  refine ⟨detail,p,hdetail,rfl,(hfragments p (by simp)).2,fun hnone => ?_⟩
  have hlength := congrArg List.length (hsingle hnone)
  rw [length_append,length_cons,length_singleton] at hlength
  exact eq_nil_of_length_eq_zero (by omega)

structure Placed (details : List Value) (before : List (Nat × Value)) (merged : List Value) :
    Prop where
  eq : merged.map some = before.foldl (fun l e => touch none e.1 (place e.2) l) []
  begun : ∀ k < merged.length, ofSlot before k ≠ []

variable {merged : List Value}

theorem Placed.at (h : Tagging details tagged) {before after : List (Nat × Value)}
    (hplaced : Placed details before merged) (htagged : tagged=before++after) {k : Nat}
    (hk : k < merged.length) :
    ∃ detail part rest, details[k]? = some detail ∧
      ofSlot before k = (part::rest).map Value.object ∧
      merged[k]? = some (.object (gather part rest)) ∧
      index? (.object (gather part rest)) = index? detail := by
  obtain ⟨detail,part,rest,hdetail,hparts,hall⟩ := h.parts htagged (hplaced.begun k hk)
  refine ⟨detail,part,rest,hdetail,hparts,?_,?_⟩
  · have hget := getD_foldl_touch none place before [] k
    rw [← hplaced.eq,hparts,getD_nil,foldl_place,getD_eq_getElem?_getD,
      getElem?_map,getElem?_eq_getElem hk] at hget
    rw [getElem?_eq_getElem hk]
    simpa using hget
  · exact index?_gather (hall part mem_cons_self).2 fun p hp =>
      hall p (mem_cons_of_mem _ hp)

theorem Placed.index_ne (h : Tagging details tagged) {before after : List (Nat × Value)}
    (hplaced : Placed details before merged) (htagged : tagged=before++after) {i k index : Nat}
    {detail : Value} (hk : k < merged.length) (hki : k < i) (hdetail : details[i]? = some detail)
    (hindex : index? detail = some index) :
    ¬ (index? merged[k] == some index) = true := by
  obtain ⟨other,part,rest,hother,-,hat,hsame⟩ := hplaced.at h htagged hk
  obtain ⟨_,hget⟩ := List.getElem?_eq_some_iff.mp hat
  rw [hget,hsame]
  simpa using index?_ne h.distinct hki hother hdetail hindex

theorem Placed.later (h : Tagging details tagged) {before after : List (Nat × Value)} {i : Nat}
    {fragment : Value} (hplaced : Placed details before merged)
    (htagged : tagged = before ++ (i, fragment) :: after) (hi : i < merged.length) :
    Placed details (before ++ [(i, fragment)]) (mergeReasoningDetail merged fragment) := by
  obtain ⟨detail,part,rest,hdetail,hparts,hat,hindex⟩ := hplaced.at h htagged hi
  obtain ⟨detail',p,hdetail',rfl,hp,hsingle⟩ := h.fragment htagged
  obtain rfl : detail=detail' := Option.some.inj (hdetail.symm.trans hdetail')
  -- the fragment is not the first, so it has an index
  obtain ⟨index,hsome⟩ : ∃ index, index? detail = some index :=
    Option.ne_none_iff_exists'.mp fun hnone => hplaced.begun i hi (hsingle hnone)
  have hfind : merged.findIdx? (fun d => index? d == some index) = some i := by
    rw [List.findIdx?_eq_some_iff_getElem]
    obtain ⟨hlt,hget⟩ := List.getElem?_eq_some_iff.mp hat
    exact ⟨hlt,by rw [hget,hindex,hsome]; simp,fun j hji =>
      hplaced.index_ne h htagged (hji.trans hi) hji hdetail hsome⟩
  have hmerge : mergeReasoningDetail merged (.object p) = merged.modify i (mergeInto p) := by
    simp only [mergeReasoningDetail]
    rw [hp,hsome]
    simp only [hfind]
  rw [hmerge]
  constructor
  · rw [foldl_append,foldl_cons,foldl_nil,← hplaced.eq,touch_of_lt none _ (by simpa using hi)]
    apply ext_getElem?
    intro j
    simp only [getElem?_map,getElem?_modify]
    by_cases hij : i=j
    · subst hij
      rw [hat]
      simp [place]
    · simp [hij]
  · intro k hk
    rw [length_modify] at hk
    simp [hplaced.begun k hk]

theorem Placed.first (h : Tagging details tagged) {before after : List (Nat × Value)} {i : Nat}
    {fragment : Value} (hplaced : Placed details before merged)
    (htagged : tagged = before ++ (i, fragment) :: after) (hi : i=merged.length) :
    Placed details (before ++ [(i, fragment)]) (mergeReasoningDetail merged fragment) := by
  obtain ⟨detail,p,hdetail,rfl,hp,-⟩ := h.fragment htagged
  have hmerge : mergeReasoningDetail merged (.object p) = merged ++ [.object p] := by
    simp only [mergeReasoningDetail]
    cases hindex : index? (.object p) with
    | none => rfl
    | some index =>
      have hfind : merged.findIdx? (fun d => index? d == some index) = none := by
        rw [findIdx?_eq_none_iff]
        intro d hd
        obtain ⟨k,hk,rfl⟩ := mem_iff_getElem.mp hd
        exact Bool.eq_false_of_not_eq_true
          (hplaced.index_ne h htagged hk (hi ▸ hk) hdetail (hp.symm.trans hindex))
      simp only [hfind]
  rw [hmerge]
  constructor
  · have hlength : i = (merged.map some).length := by simpa using hi
    rw [foldl_append,foldl_cons,foldl_nil,← hplaced.eq,hlength,touch_length]
    simp [place]
  · intro k hk
    rw [length_append,length_singleton] at hk
    by_cases hki : k=i
    · subst hki
      simp
    · simp [hplaced.begun k (by omega)]

theorem Tagging.placed (h : Tagging details tagged) (before : List (Nat × Value)) :
    ∀ after, tagged=before++after →
      Placed details before ((before.map Prod.snd).foldl mergeReasoningDetail []) := by
  induction before using List.reverseRecOn with
  | nil => exact fun after _ => ⟨rfl,by simp⟩
  | append_singleton before e ih =>
    intro after htagged
    obtain ⟨i,fragment⟩ := e
    rw [append_assoc,singleton_append] at htagged
    have hplaced := ih _ htagged
    rw [map_append,foldl_append]
    obtain hlt | heq | hgt := lt_trichotomy i
      ((before.map Prod.snd).foldl mergeReasoningDetail []).length
    · exact hplaced.later h htagged hlt
    · exact hplaced.first h htagged heq
    · -- a detail before it would not have begun
      obtain ⟨e,he,hei⟩ := ofSlot_ne_nil_iff.mp (h.ordered before (i, fragment) after htagged _ hgt)
      have hlt := (lt_length_foldl_touch none place before []).1 e he
      rw [← hplaced.eq,length_map,hei] at hlt
      omega

def SameDetail (a b : Value) : Prop :=
  ∃ fields fields', a = .object fields ∧ b = .object fields' ∧
    ∀ key, lookupKey key fields = lookupKey key fields'

theorem Tagging.sameDetails (h : Tagging details tagged) :
    List.Forall₂ SameDetail details ((tagged.map Prod.snd).foldl mergeReasoningDetail []) := by
  have hplaced := h.placed tagged [] (append_nil _).symm
  have hbegun : ∀ i<details.length, ofSlot tagged i ≠ [] := by
    intro i hi
    obtain ⟨-,-,-,parts,hparts,-,part,rest,rfl,-⟩ :=
      h.split i _ (getElem?_eq_getElem hi)
    rw [hparts]
    simp
  have hslots := foldl_touch_eq (none : Option Value) place hbegun h.inside
  rw [← hplaced.eq] at hslots
  have hlength : ((tagged.map Prod.snd).foldl mergeReasoningDetail []).length = details.length := by
    simpa using congrArg List.length hslots
  rw [forall₂_iff_get]
  refine ⟨hlength.symm,fun i hi hi' => ?_⟩
  obtain ⟨-,fields,hfields,parts,hparts,hall,part,rest,rfl,hsplit⟩ :=
    h.split i _ (getElem?_eq_getElem hi)
  have hget := congrArg (fun l => l[i]?) hslots
  simp only [getElem?_map,getElem?_range hi,Option.map_some,hparts,foldl_place,
    getElem?_eq_getElem hi',Option.some.injEq] at hget
  refine ⟨fields,gather part rest,by simpa using hfields,by simpa using hget,fun key => ?_⟩
  rw [lookupKey_gather key part fun p hp => (hall p (mem_cons_of_mem _ hp)).1]
  refine (foldl_mergeValue_of_splitsField ?_).symm
  have hvalues := hsplit key
  cases hfirst : lookupKey key part with
  | none | some v => simpa [hfirst] using hvalues

end Tagged

/-- Equal blocks, where the fields of details may be in another order. -/
def SameBlock (a b : ContentBlock) : Prop :=
  a=b ∨ ∃ details details', a = .providerState providerState (.array details) ∧
    b = .providerState providerState (.array details') ∧ List.Forall₂ SameDetail details details'

/-- The same content, reason to stop, error message and token counts. -/
structure SameResponse (r r' : LlmResponse) : Prop where
  content : List.Forall₂ SameBlock r.content r'.content
  stopReason : r.stopReason=r'.stopReason
  errorMessage : r.errorMessage=r'.errorMessage
  usage : r.usage=r'.usage

theorem sameBlock_self (blocks : List ContentBlock) : List.Forall₂ SameBlock blocks blocks :=
  forall₂_same.mpr fun _ _ => Or.inl rfl

theorem same_reasoningBlocks (thinking : String) {details details' : List Value}
    (h : List.Forall₂ SameDetail details details') :
    List.Forall₂ SameBlock (reasoningBlocks thinking details) (reasoningBlocks thinking details') := by
  refine rel_append (sameBlock_self _) ?_
  by_cases hempty : details = []
  · rw [hempty] at h ⊢
    rw [forall₂_nil_left_iff.mp h]
    exact .nil
  · have hempty' : details' ≠ [] := by
      intro hnil
      rw [hnil,forall₂_nil_right_iff] at h
      exact hempty h
    rw [if_neg hempty,if_neg hempty']
    exact .cons (Or.inr ⟨details,details',rfl,rfl,h⟩) .nil

variable {body : Body} {chunks : List Chunk}

theorem Streams.same_content (h : Streams body chunks) :
    List.Forall₂ SameBlock (parseResponse json body).content
      ((({} : StreamState).feed chunks).1.finish json).content := by
  obtain ⟨tagged,htagged,htagging⟩ := h.details
  have hdetails := htagging.sameDetails
  rw [htagged] at hdetails
  simp only [parseResponse,StreamState.finish]
  rw [h.calls_eq json,feed_eq,h.reasoning,h.content,String.empty_append,String.empty_append]
  exact rel_append (rel_append (same_reasoningBlocks _ hdetails) (sameBlock_self _))
    (sameBlock_self _)

theorem Streams.same_iff (h : Streams body chunks) :
    SameResponse (parseResponse json body) ((({} : StreamState).feed chunks).1.finish json) ↔
      mapFinishReason body.finishReason ≠ .refusal := by
  have hfinish : (({} : StreamState).feed chunks).1.finishReason = body.finishReason := by
    rw [feed_eq,h.finish]
    cases body.finishReason <;> rfl
  constructor
  · intro hsame hrefusal
    have herror := hsame.errorMessage
    simp [parseResponse,StreamState.finish,hrefusal] at herror
  · intro hother
    refine ⟨h.same_content json,?_,?_,?_⟩
    · simp [parseResponse,StreamState.finish,hfinish]
    · simp [parseResponse,StreamState.finish,hother]
    · simp only [parseResponse,StreamState.finish]
      rw [feed_eq,← h.usage]

theorem Streams.join_events (h : Streams body chunks) (json : JsonText) :
    String.join ((({} : StreamState).feed chunks).2.filterMap StreamEvent.text?) =
      String.join (parseResponse json body).texts := by
  have hreasoning : ∀ thinking details,
      (reasoningBlocks thinking details).filterMap ContentBlock.text? = [] := by
    intro thinking details
    unfold reasoningBlocks
    split_ifs <;> rfl
  have hcalls : ((body.toolCalls.getD []).map (WireToolCall.toContent json)).filterMap
      ContentBlock.text? = [] := by
    rw [filterMap_map]
    exact filterMap_eq_nil_iff.mpr fun _ _ => rfl
  rw [feed_texts,h.content]
  simp only [LlmResponse.texts,parseResponse,filterMap_append,hreasoning,hcalls,
    nil_append,append_nil,textBlocks]
  split_ifs with hempty
  · rw [hempty]
    rfl
  · simp [ContentBlock.text?]

theorem splitsDetails_nil : SplitsDetails [] [] :=
  ⟨[],rfl,nodup_nil,by simp,by simp,by simp⟩

end OpenRouter

/-- Fed bit by bit, the accumulators give what the whole bodies give, and show the texts of the
answer, for every way to stream the bodies; only the message of a refusal is lost by OpenRouter's. -/
theorem streams_match_iff (json : JsonText) {raw : Anthropic.AnthropicResponse}
    {events : List Anthropic.StreamData} (hraw : Anthropic.Streams json raw events)
    (htexts : ∀ b∈raw.content, b.kind = "text" → b.text ≠ some "") {body : OpenRouter.Body}
    {chunks : List OpenRouter.Chunk} (hbody : OpenRouter.Streams body chunks) :
    ((({} : Anthropic.StreamState).feed events).1.finish json = Anthropic.parseBody raw ∧
        String.join ((({} : Anthropic.StreamState).feed events).2.filterMap StreamEvent.text?) =
          String.join (Anthropic.parseBody raw).texts ∧
        OpenRouter.SameResponse (OpenRouter.parseResponse json body)
          ((({} : OpenRouter.StreamState).feed chunks).1.finish json) ∧
        String.join ((({} : OpenRouter.StreamState).feed chunks).2.filterMap StreamEvent.text?) =
          String.join (OpenRouter.parseResponse json body).texts) ↔
      OpenRouter.mapFinishReason body.finishReason ≠ .refusal := by
  constructor
  · rintro ⟨-,-,hsame,-⟩
    exact (hbody.same_iff json).mp hsame
  · intro hother
    exact ⟨hraw.finish_eq htexts,hraw.join_events,(hbody.same_iff json).mpr hother,
      hbody.join_events json⟩

def bracesOnly : JsonText where
  fromStr text := if text = "\x7b\x7d" then some (.object []) else none
  fromStr_empty := by decide
  fromStr_braces := by decide

/-- A text in two pieces. -/
theorem streams_match_pieces :
    (({} : Anthropic.StreamState).feed [.messageStart none, .block 0 (.start "text" none none),
        .block 0 (.delta (.text "a")), .block 0 (.delta (.text "b")),
        .messageDelta (some "end_turn") (some 2)]).1.finish bracesOnly =
      Anthropic.parseBody ⟨[⟨"text",some "ab",none,none,none,none,none⟩],some "end_turn",
        ⟨0,2,0,0⟩⟩ ∧
    OpenRouter.SameResponse
      (OpenRouter.parseResponse bracesOnly
        ⟨some "stop",.null,none,none,some "ab",none,none⟩)
      ((({} : OpenRouter.StreamState).feed [⟨none,none,none,[],some "a",[]⟩,
        ⟨none,some "stop",none,[],some "b",[]⟩]).1.finish bracesOnly) := by
  have hraw : Anthropic.Streams bracesOnly
      ⟨[⟨"text",some "ab",none,none,none,none,none⟩],some "end_turn",⟨0,2,0,0⟩⟩
      [.messageStart none, .block 0 (.start "text" none none), .block 0 (.delta (.text "a")),
        .block 0 (.delta (.text "b")), .messageDelta (some "end_turn") (some 2)] := by
    refine ⟨⟨none,_,rfl,?_,rfl⟩,rfl,?_,?_,?_⟩
    · decide
    · decide
    · intro i b hb
      cases i with
      | zero =>
        cases hb
        exact ⟨[.text "a", .text "b"],rfl,by decide⟩
      | succ i => cases hb
    · decide
  have hbody : OpenRouter.Streams ⟨some "stop",.null,none,none,some "ab",none,none⟩
      [⟨none,none,none,[],some "a",[]⟩, ⟨none,some "stop",none,[],some "b",[]⟩] :=
    ⟨by decide,by decide,rfl,rfl,by simp,by simp,OpenRouter.splitsDetails_nil⟩
  obtain ⟨hfinish,-,hsame,-⟩ :=
    (streams_match_iff bracesOnly hraw (by simp) hbody).mpr (by decide)
  exact ⟨hfinish,hsame⟩

/-- A refusal loses its message in the stream. -/
theorem refusal_message_lost :
    ∃ (body : OpenRouter.Body) (chunks : List OpenRouter.Chunk), OpenRouter.Streams body chunks ∧
      (OpenRouter.parseResponse bracesOnly body).errorMessage = some "no" ∧
      ((({} : OpenRouter.StreamState).feed chunks).1.finish bracesOnly).errorMessage = none ∧
      ¬ OpenRouter.SameResponse (OpenRouter.parseResponse bracesOnly body)
        ((({} : OpenRouter.StreamState).feed chunks).1.finish bracesOnly) := by
  refine ⟨⟨some "refusal",.null,none,none,none,none,some "no"⟩,
    [⟨none,some "refusal",none,[],none,[]⟩],?_,rfl,rfl,?_⟩
  · exact ⟨rfl,rfl,rfl,rfl,by simp,by simp,OpenRouter.splitsDetails_nil⟩
  · intro hsame
    cases hsame.errorMessage

end Daimonos.Providers
