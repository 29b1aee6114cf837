import Daimonos.Framework.Slots
import Daimonos.Providers.Requests

namespace Daimonos.Providers

open Framework List

/-- `serde_json::from_str` on the texts of arguments. -/
structure JsonText where
  fromStr : String → Option Value
  fromStr_empty : fromStr "" = none
  fromStr_braces : fromStr "\x7b\x7d" = some (.object [])

/-- A text that is no JSON counts as an empty object. -/
def JsonText.arguments (json : JsonText) (text : String) : Value :=
  (json.fromStr text).getD (.object [])

inductive StreamEvent where
  | textDelta (piece : String)
  | thinkingDelta (piece : String)

def StreamEvent.text? : StreamEvent → Option String
  | textDelta piece => some piece
  | thinkingDelta _ => none

def ContentBlock.text? : ContentBlock → Option String
  | text t => some t
  | _ => none

def LlmResponse.texts (r : LlmResponse) : List String := r.content.filterMap ContentBlock.text?

namespace Anthropic

@[ext] structure AnthropicUsage where
  inputTokens : Nat := 0
  outputTokens : Nat := 0
  cacheReadInputTokens : Nat := 0
  cacheCreationInputTokens : Nat := 0

structure AnthropicResponseBlock where
  kind : String
  text : Option String := none
  thinking : Option String := none
  signature : Option String := none
  id : Option String := none
  name : Option String := none
  input : Option Value := none

structure AnthropicResponse where
  content : List AnthropicResponseBlock
  stopReason : Option String
  usage : AnthropicUsage

def signatureState (signature : String) : ContentBlock :=
  .providerState providerState
    (.object [("type", .string thinkingSignatureState), ("signature", .string signature)])

def AnthropicResponseBlock.intoContents (b : AnthropicResponseBlock) : List ContentBlock :=
  if b.kind = "text" then (b.text.map ContentBlock.text).toList
  else if b.kind = "thinking" then
    match b.thinking with
    | none => []
    | some thinking =>
      .thinking thinking :: ((b.signature.filter (· ≠ "")).map signatureState).toList
  else if b.kind = "tool_use" then
    match b.id, b.name, b.input with
    | some id, some name, some input => [.toolCall id name input]
    | _, _, _ => []
  else []

def mapStopReason : Option String → StopReason
  | some "end_turn" | some "stop_sequence" => .endTurn
  | some "tool_use" => .toolUse
  | some "max_tokens" => .maxTokens
  | some "refusal" => .refusal
  | _ => .error

def mapUsage (raw : AnthropicUsage) : Usage where
  input := raw.inputTokens
  output := raw.outputTokens
  cacheRead := raw.cacheReadInputTokens
  cacheWrite := raw.cacheCreationInputTokens

def parseBody (raw : AnthropicResponse) : LlmResponse where
  content := raw.content.flatMap AnthropicResponseBlock.intoContents
  stopReason := mapStopReason raw.stopReason
  usage := mapUsage raw.usage

inductive PartialBlock where
  | text (text : String)
  | thinking (text signature : String)
  | toolUse (id name partialJson : String)

inductive Delta where
  | text (piece : String)
  | thinking (piece : String)
  | signature (piece : String)
  | inputJson (piece : String)
  | other

inductive BlockEvent where
  | start (type : String) (id name : Option String)
  | delta (delta : Delta)

/-- The data of a server-sent event. -/
inductive StreamData where
  | messageStart (usage : Option AnthropicUsage)
  | block (index : Nat) (event : BlockEvent)
  | messageDelta (stopReason : Option String) (outputTokens : Option Nat)
  | other

structure StreamState where
  blocks : List PartialBlock := []
  stopReason : Option String := none
  usage : AnthropicUsage := {}

def newBlock (type : String) (id name : Option String) : PartialBlock :=
  if type = "thinking" then .thinking "" ""
  else if type = "tool_use" then .toolUse (id.getD "") (name.getD "") ""
  else .text ""

def PartialBlock.add : PartialBlock → Delta → PartialBlock
  | text t, .text piece => text (t++piece)
  | thinking t signature, .thinking piece => thinking (t++piece) signature
  | thinking t signature, .signature piece => thinking t (signature++piece)
  | toolUse id name partialJson, .inputJson piece => toolUse id name (partialJson++piece)
  | b, _ => b

def PartialBlock.emit : PartialBlock → Delta → List StreamEvent
  | text _, .text piece => [.textDelta piece]
  | thinking .., .thinking piece => [.thinkingDelta piece]
  | _, _ => []

/-- A block that starts puts empty ones before it; a piece for a block that is not there is lost. -/
def onBlock (blocks : List PartialBlock) (index : Nat) : BlockEvent → List PartialBlock
  | .start type id name => touch (.text "") index (fun _ => newBlock type id name) blocks
  | .delta delta => blocks.modify index (·.add delta)

namespace StreamState

def onData (s : StreamState) : StreamData → StreamState × List StreamEvent
  | .messageStart usage => ({ s with usage := usage.getD s.usage }, [])
  | .block index event =>
    let events : List StreamEvent :=
      match event, s.blocks[index]? with
      | .delta delta, some block => block.emit delta
      | _, _ => []
    ({ s with blocks := onBlock s.blocks index event }, events)
  | .messageDelta stopReason outputTokens =>
    ({ s with
      stopReason := stopReason.orElse fun _ => s.stopReason
      usage := { s.usage with outputTokens := outputTokens.getD s.usage.outputTokens } }, [])
  | .other => (s, [])

def feed (s : StreamState) : List StreamData → StreamState × List StreamEvent
  | [] => (s, [])
  | data::rest =>
    let (s', events) := s.onData data
    let (s'', more) := s'.feed rest
    (s'', events++more)

end StreamState

def PartialBlock.finish (json : JsonText) : PartialBlock → List ContentBlock
  | text t => if t = "" then [] else [.text t]
  | thinking t signature =>
    .thinking t :: if signature = "" then [] else [signatureState signature]
  | toolUse id name partialJson => [.toolCall id name (json.arguments partialJson)]

def StreamState.finish (json : JsonText) (s : StreamState) : LlmResponse where
  content := s.blocks.flatMap (PartialBlock.finish json)
  stopReason := mapStopReason s.stopReason
  usage := mapUsage s.usage

def Delta.text? : Delta → Option String
  | text piece => some piece
  | _ => none

def Delta.thinking? : Delta → Option String
  | thinking piece => some piece
  | _ => none

def Delta.signature? : Delta → Option String
  | signature piece => some piece
  | _ => none

def Delta.inputJson? : Delta → Option String
  | inputJson piece => some piece
  | _ => none

def StreamData.block? : StreamData → Option (Nat × BlockEvent)
  | block index event => some (index, event)
  | _ => none

def StreamData.stopReason? : StreamData → Option String
  | messageDelta stopReason _ => stopReason
  | _ => none

def StreamData.outputTokens? : StreamData → Option Nat
  | messageDelta _ outputTokens => outputTokens
  | _ => none

def StreamData.isMessageStart : StreamData → Bool
  | messageStart _ => true
  | _ => false

def StreamData.textPiece? : StreamData → Option (Nat × String)
  | block index (.delta (.text piece)) => some (index, piece)
  | _ => none

open Delta

/-- The events of one block: it starts, and the pieces that follow make up its parts. Only blocks of
texts have pieces of text. -/
def StreamsBlock (json : JsonText) (b : AnthropicResponseBlock) (events : List BlockEvent) : Prop :=
  ∃ deltas : List Delta, events = .start b.kind b.id b.name :: deltas.map .delta ∧
    if b.kind = "text" then String.join (deltas.filterMap text?) = b.text.getD ""
    else deltas.filterMap text? = [] ∧
      (b.kind = "thinking" → b.thinking = some (String.join (deltas.filterMap thinking?)) ∧
        b.signature.getD "" = String.join (deltas.filterMap signature?)) ∧
      (b.kind = "tool_use" → b.id.isSome=true ∧ b.name.isSome=true ∧
        b.input = some (json.arguments (String.join (deltas.filterMap inputJson?))))

open StreamData

/-- The events stream the body. Blocks may be mixed, but the pieces of texts come in the order of the
blocks; the tokens of the answer come last. -/
structure Streams (json : JsonText) (body : AnthropicResponse) (events : List StreamData) : Prop where
  start : ∃ usage rest, events = .messageStart usage :: rest ∧
    (∀ data∈rest, data.isMessageStart=false) ∧
    body.usage = { usage.getD {} with outputTokens :=
      ((rest.filterMap outputTokens?).getLast?).getD (usage.getD {}).outputTokens }
  stop : (events.filterMap stopReason?).getLast? = body.stopReason
  inside : ∀ e ∈ events.filterMap block?, e.1<body.content.length
  blocks : ∀ i b, body.content[i]? = some b →
    StreamsBlock json b (ofSlot (events.filterMap block?) i)
  ordered : (events.filterMap textPiece?).Pairwise fun a b => a.1≤b.1

theorem feed_blocks (s : StreamState) (events : List StreamData) :
    (s.feed events).1.blocks =
      (events.filterMap block?).foldl (fun bs e => onBlock bs e.1 e.2) s.blocks := by
  induction events generalizing s with
  | nil => rfl
  | cons data rest ih =>
    simp only [StreamState.feed]
    rw [ih]
    cases data <;> rfl

theorem feed_stopReason (s : StreamState) (events : List StreamData) :
    (s.feed events).1.stopReason =
      ((events.filterMap stopReason?).getLast?).orElse fun _ => s.stopReason := by
  induction events generalizing s with
  | nil => rfl
  | cons data rest ih =>
    simp only [StreamState.feed]
    rw [ih]
    cases data with
    | messageDelta stopReason =>
      cases stopReason with
      | none => rfl
      | some stopReason =>
        rw [filterMap_cons_some (f := stopReason?) rfl,getLast?_cons]
        cases (rest.filterMap stopReason?).getLast? <;> rfl
    | messageStart | block | other => rfl

theorem feed_usage (s : StreamState) {events : List StreamData}
    (h : ∀ data∈events, data.isMessageStart=false) :
    (s.feed events).1.usage = { s.usage with outputTokens :=
      ((events.filterMap outputTokens?).getLast?).getD s.usage.outputTokens } := by
  induction events generalizing s with
  | nil => rfl
  | cons data rest ih =>
    simp only [StreamState.feed]
    rw [ih _ fun data' hdata' => h data' (mem_cons_of_mem _ hdata')]
    cases data with
    | messageStart => cases h _ mem_cons_self
    | messageDelta stopReason outputTokens =>
      cases outputTokens with
      | none => rfl
      | some outputTokens =>
        rw [filterMap_cons_some (f := outputTokens?) rfl,getLast?_cons]
        rfl
    | block | other => rfl

def BlockEvent.act : BlockEvent → PartialBlock → PartialBlock
  | start type id name, _ => newBlock type id name
  | delta d, b => b.add d

def assemble (events : List BlockEvent) : PartialBlock :=
  events.foldl (fun b e => e.act b) (.text "")

variable (deltas : List Delta)

open PartialBlock

theorem assemble_start (type : String) (id name : Option String) :
    assemble (.start type id name :: deltas.map .delta) =
      deltas.foldl add (newBlock type id name) := by
  rw [assemble,foldl_cons,foldl_map]
  rfl

def Begun (blocks : List PartialBlock) (events : List (Nat × BlockEvent)) : Prop :=
  ∀ before i delta after, events = before ++ (i, .delta delta) :: after →
    i<blocks.length ∨ ∃ e∈before, e.1=i

theorem foldl_onBlock {blocks : List PartialBlock} {events : List (Nat × BlockEvent)}
    (h : Begun blocks events) :
    events.foldl (fun bs e => onBlock bs e.1 e.2) blocks =
      events.foldl (fun bs e => touch (.text "") e.1 e.2.act bs) blocks := by
  induction events generalizing blocks with
  | nil => rfl
  | cons e rest ih =>
    obtain ⟨i,event⟩ := e
    have hhead : onBlock blocks i event = touch (.text "") i event.act blocks := by
      cases event with
      | start => rfl
      | delta delta =>
        obtain hlt | ⟨e,he,-⟩ := h [] i delta rest rfl
        · exact (touch_of_lt _ _ hlt).symm
        · cases he
    rw [foldl_cons,foldl_cons,hhead]
    refine ih fun before j delta after heq => ?_
    rw [length_touch]
    obtain hlt | ⟨e,he,hej⟩ := h ((i, event) :: before) j delta after (by rw [heq]; rfl)
    · exact Or.inl (by omega)
    · obtain rfl | he := mem_cons.mp he
      · exact Or.inl (by simp only at hej; omega)
      · exact Or.inr ⟨e,he,hej⟩

theorem foldl_add_text (t : String) :
    deltas.foldl add (.text t) =
      .text (t ++ String.join (deltas.filterMap text?)) := by
  induction deltas generalizing t with
  | nil => simp
  | cons d rest ih =>
    cases d <;> simp [add,filterMap_cons,text?,ih,String.append_assoc]

theorem foldl_add_thinking (t signature : String) :
    deltas.foldl add (.thinking t signature) =
      .thinking (t ++ String.join (deltas.filterMap thinking?))
        (signature ++ String.join (deltas.filterMap signature?)) := by
  induction deltas generalizing t signature with
  | nil => simp
  | cons d rest ih =>
    cases d <;>
      simp [add,filterMap_cons,thinking?,signature?,ih,String.append_assoc]

theorem foldl_add_toolUse (id name partialJson : String) :
    deltas.foldl add (.toolUse id name partialJson) =
      .toolUse id name (partialJson ++ String.join (deltas.filterMap inputJson?)) := by
  induction deltas generalizing partialJson with
  | nil => simp
  | cons d rest ih =>
    cases d <;>
      simp [add,filterMap_cons,inputJson?,ih,String.append_assoc]

theorem finish_of_streamsBlock {json : JsonText} {b : AnthropicResponseBlock}
    {events : List BlockEvent} (h : StreamsBlock json b events)
    (htext : b.kind = "text" → b.text ≠ some "") :
    (assemble events).finish json = b.intoContents := by
  obtain ⟨deltas,rfl,hparts⟩ := h
  rw [assemble_start]
  by_cases hkind : b.kind = "text"
  · rw [if_pos hkind] at hparts
    have hnew : newBlock b.kind b.id b.name = .text "" := by simp [newBlock,hkind]
    rw [hnew,foldl_add_text,hparts,String.empty_append]
    simp only [AnthropicResponseBlock.intoContents,hkind,if_true,PartialBlock.finish]
    cases hb : b.text with
    | none => rfl
    | some t =>
      have hne : t ≠ "" := fun heq => htext hkind (by rw [hb,heq])
      simp [hne]
  · rw [if_neg hkind] at hparts
    obtain ⟨hnone,hthinking,htool⟩ := hparts
    by_cases hthink : b.kind = "thinking"
    · obtain ⟨hthoughts,hsignature⟩ := hthinking hthink
      have hnew : newBlock b.kind b.id b.name = .thinking "" "" := by simp [newBlock,hthink]
      rw [hnew,foldl_add_thinking,← hsignature,String.empty_append,String.empty_append]
      simp only [AnthropicResponseBlock.intoContents,hthink,hthoughts,if_true,
        PartialBlock.finish]
      cases b.signature with
      | none => rfl
      | some signature => by_cases hempty : signature = "" <;> simp [hempty,Option.filter]
    · by_cases huse : b.kind = "tool_use"
      · obtain ⟨hid,hname,hinput⟩ := htool huse
        obtain ⟨id,hid⟩ := Option.isSome_iff_exists.mp hid
        obtain ⟨name,hname⟩ := Option.isSome_iff_exists.mp hname
        have hnew : newBlock b.kind b.id b.name = .toolUse id name "" := by
          simp [newBlock,huse,hid,hname]
        rw [hnew,foldl_add_toolUse,String.empty_append]
        simp [AnthropicResponseBlock.intoContents,huse,hid,hname,hinput,PartialBlock.finish]
      · have hnew : newBlock b.kind b.id b.name = .text "" := by simp [newBlock,hthink,huse]
        rw [hnew,foldl_add_text,hnone]
        simp [AnthropicResponseBlock.intoContents,hkind,hthink,huse,PartialBlock.finish]

section Streaming

variable {json : JsonText} {body : AnthropicResponse} {events : List StreamData}

theorem Streams.before_delta (h : Streams json body events) {before after : List (Nat × BlockEvent)}
    {i : Nat} {delta : Delta}
    (hevents : events.filterMap block? = before ++ (i, .delta delta) :: after) :
    ∃ b deltas deltas', body.content[i]? = some b ∧
      ofSlot before i = .start b.kind b.id b.name :: deltas.map .delta ∧
      StreamsBlock json b (.start b.kind b.id b.name :: (deltas++delta::deltas').map .delta) := by
  have hlt := h.inside (i, .delta delta) (by rw [hevents]; simp)
  have hblock := h.blocks i body.content[i] (getElem?_eq_getElem hlt)
  have hsplit : ofSlot (events.filterMap block?) i =
      ofSlot before i ++ .delta delta :: ofSlot after i := by
    rw [hevents,ofSlot_append,ofSlot_cons_self]
  have hall := hblock
  obtain ⟨deltas,hdeltas,-⟩ := hblock
  rw [hsplit] at hdeltas hall
  refine ⟨body.content[i],?_⟩
  cases hbefore : ofSlot before i with
  | nil =>
    rw [hbefore] at hdeltas
    cases hdeltas
  | cons start pieces =>
    rw [hbefore,cons_append,List.cons.injEq] at hdeltas
    obtain ⟨rfl,hrest⟩ := hdeltas
    obtain ⟨deltas₁,tail,rfl,hpieces,htail⟩ := append_eq_map_iff.mp hrest
    obtain ⟨delta',deltas₂,rfl,hdelta,hafter⟩ := map_eq_cons_iff.mp htail
    refine ⟨deltas₁,deltas₂,getElem?_eq_getElem hlt,by rw [hpieces],?_⟩
    rw [hbefore,← hpieces,← hafter] at hall
    simpa using hall

theorem Streams.begun (h : Streams json body events) {before after : List (Nat × BlockEvent)}
    (hevents : events.filterMap block? = before++after) : Begun [] before := by
  rintro first i delta rest rfl
  rw [append_assoc,cons_append] at hevents
  obtain ⟨b,deltas,-,-,hstart,-⟩ := h.before_delta hevents
  exact Or.inr (ofSlot_ne_nil_iff.mp (by rw [hstart]; simp))

theorem Streams.blocks_eq (h : Streams json body events) :
    (({} : StreamState).feed events).1.blocks = (List.range body.content.length).map fun i =>
      assemble (ofSlot (events.filterMap block?) i) := by
  rw [feed_blocks,foldl_onBlock (h.begun (append_nil _).symm)]
  refine foldl_touch_eq (.text "") BlockEvent.act (fun i hi => ?_) h.inside
  obtain ⟨deltas,hdeltas,-⟩ := h.blocks i body.content[i] (getElem?_eq_getElem hi)
  rw [hdeltas]
  simp

theorem flatMap_range_length {α β : Type} (l : List α) (f : Nat → List β) (g : α → List β)
    (h : ∀ i a, l[i]? = some a → f i = g a) : (List.range l.length).flatMap f = l.flatMap g := by
  have hmap : (List.range l.length).map f = l.map g := by
    apply ext_getElem
    · simp
    · intro i hi hi'
      rw [getElem_map,getElem_map,getElem_range]
      exact h i _ (getElem?_eq_getElem (by simpa using hi'))
  rw [flatMap_def,hmap,flatMap_def]

theorem Streams.finish_eq (h : Streams json body events)
    (htexts : ∀ b∈body.content, b.kind = "text" → b.text ≠ some "") :
    ((({} : StreamState).feed events).1.finish json) = parseBody body := by
  obtain ⟨usage,rest,hevents,hrest,husage⟩ := h.start
  have hcontent : (({} : StreamState).feed events).1.blocks.flatMap (PartialBlock.finish json) =
      body.content.flatMap AnthropicResponseBlock.intoContents := by
    rw [h.blocks_eq,flatMap_map]
    refine flatMap_range_length body.content _ _ fun i b hb => ?_
    exact finish_of_streamsBlock (h.blocks i b hb) (htexts b (mem_of_getElem? hb))
  have hstop : (({} : StreamState).feed events).1.stopReason = body.stopReason := by
    rw [feed_stopReason,h.stop]
    cases body.stopReason <;> rfl
  have htokens : (({} : StreamState).feed events).1.usage = body.usage := by
    rw [hevents,husage]
    exact feed_usage _ hrest
  rw [StreamState.finish,hcontent,hstop,htokens,parseBody]

theorem feed_append (s : StreamState) (first rest : List StreamData) :
    s.feed (first++rest) =
      (((s.feed first).1.feed rest).1, (s.feed first).2 ++ ((s.feed first).1.feed rest).2) := by
  induction first generalizing s with
  | nil => rfl
  | cons data first ih => simp [StreamState.feed,ih]

theorem Streams.text_at (h : Streams json body events) {first rest : List StreamData} {i : Nat}
    {piece : String} (hevents : events = first ++ .block i (.delta (.text piece)) :: rest) :
    ∃ t, (({} : StreamState).feed first).1.blocks[i]? = some (.text t) := by
  have hblocks : events.filterMap block? = first.filterMap block? ++
      (i, .delta (.text piece)) :: rest.filterMap block? := by
    rw [hevents,filterMap_append,filterMap_cons_some (f := block?) rfl]
  obtain ⟨b,deltas,deltas',-,hstart,hblock⟩ := h.before_delta hblocks
  have hkind : b.kind = "text" := by
    obtain ⟨all,hall,hparts⟩ := hblock
    rw [List.cons.injEq,List.map_inj_right (by simp)] at hall
    obtain ⟨-,rfl⟩ := hall
    by_contra hkind
    rw [if_neg hkind] at hparts
    simp [text?,filterMap_cons] at hparts
  have hnew : newBlock b.kind b.id b.name = .text "" := by simp [newBlock,hkind]
  obtain ⟨e,he,hei⟩ := ofSlot_ne_nil_iff (i := i).mp (by rw [hstart]; simp)
  have hlt := (lt_length_foldl_touch (.text "") BlockEvent.act (first.filterMap block?) []).1 e he
  have hat := getD_foldl_touch (.text "") BlockEvent.act (first.filterMap block?) [] i
  rw [getD_eq_getElem _ _ (hei ▸ hlt)] at hat
  refine ⟨String.join (deltas.filterMap text?),?_⟩
  rw [feed_blocks,foldl_onBlock (h.begun hblocks),getElem?_eq_getElem (hei ▸ hlt),hat]
  change some (assemble (ofSlot (first.filterMap block?) i)) = _
  rw [hstart,assemble_start,hnew,foldl_add_text,String.empty_append]

theorem onData_text?_none (s : StreamState) (i : Nat) {delta : Delta} (h : delta.text?=none) :
    (s.onData (.block i (.delta delta))).2.filterMap StreamEvent.text? = [] := by
  simp only [StreamState.onData]
  cases s.blocks[i]? with
  | none => rfl
  | some block => cases block <;> cases delta <;> first | rfl | cases h

theorem Streams.events_eq (h : Streams json body events) :
    (({} : StreamState).feed events).2.filterMap StreamEvent.text? =
      (events.filterMap textPiece?).map Prod.snd := by
  suffices hsuffix : ∀ rest first, events=first++rest →
      ((({} : StreamState).feed first).1.feed rest).2.filterMap StreamEvent.text? =
        (rest.filterMap textPiece?).map Prod.snd from hsuffix events [] rfl
  intro rest
  induction rest with
  | nil => exact fun first _ => rfl
  | cons data rest ih =>
    intro first hevents
    have hrest := ih (first ++ [data]) (by rw [hevents]; simp)
    rw [feed_append] at hrest
    simp only [StreamState.feed,filterMap_append] at hrest ⊢
    rw [hrest]
    have hdata : ((({} : StreamState).feed first).1.onData data).2.filterMap StreamEvent.text? =
        (data.textPiece?.map Prod.snd).toList := by
      cases data with
      | messageStart | messageDelta | other => rfl
      | block i event =>
        cases event with
        | start => rfl
        | delta delta =>
          cases delta with
          | text =>
            obtain ⟨t,ht⟩ := h.text_at hevents
            simp [StreamState.onData,ht,emit,StreamEvent.text?,textPiece?]
          | thinking | signature | inputJson | other => exact onData_text?_none _ i rfl
    rw [hdata]
    cases hpiece : data.textPiece? with
    | none => rw [filterMap_cons_none hpiece]; rfl
    | some piece => rw [filterMap_cons_some hpiece]; rfl

def BlockEvent.text? : BlockEvent → Option String
  | start .. => none
  | delta d => d.text?

theorem textPieces_ofSlot (events : List StreamData) (i : Nat) :
    ofSlot (events.filterMap textPiece?) i =
      (ofSlot (events.filterMap block?) i).filterMap BlockEvent.text? := by
  induction events with
  | nil => rfl
  | cons data rest ih =>
    cases data with
    | messageStart | messageDelta | other => exact ih
    | block j event =>
      rw [filterMap_cons_some (f := block?) rfl]
      have hpiece : (block j event).textPiece? = event.text?.map (j, ·) := by
        cases event with
        | start => rfl
        | delta d => cases d <;> rfl
      rw [filterMap_cons,hpiece]
      by_cases hj : j=i
      · subst hj
        rw [ofSlot_cons_self]
        cases htext : event.text? with
        | none =>
          rw [filterMap_cons_none htext]
          exact ih
        | some piece =>
          rw [filterMap_cons_some htext,← ih]
          simp
      · rw [ofSlot_cons_of_ne hj,← ih]
        cases event.text? with
        | none => rfl
        | some piece => exact ofSlot_cons_of_ne hj piece _

theorem join_flatMap {α : Type} (l : List α) (f : α → List String) :
    String.join (l.flatMap f) = String.join (l.map fun a => String.join (f a)) := by
  induction l with
  | nil => rfl
  | cons a l ih => simp [ih]

theorem join_texts_of_streamsBlock {b : AnthropicResponseBlock} {events : List BlockEvent}
    (h : StreamsBlock json b events) :
    String.join (events.filterMap BlockEvent.text?) =
      String.join (b.intoContents.filterMap ContentBlock.text?) := by
  obtain ⟨deltas,rfl,hparts⟩ := h
  have hpieces : (BlockEvent.start b.kind b.id b.name :: deltas.map .delta).filterMap
      BlockEvent.text? = deltas.filterMap text? := by
    rw [filterMap_cons_none (f := BlockEvent.text?) rfl,filterMap_map]
    rfl
  rw [hpieces]
  by_cases hkind : b.kind = "text"
  · rw [if_pos hkind] at hparts
    rw [hparts,AnthropicResponseBlock.intoContents,if_pos hkind]
    cases b.text with
    | none => rfl
    | some t => simp [ContentBlock.text?]
  · rw [if_neg hkind] at hparts
    have hnone : b.intoContents.filterMap ContentBlock.text? = [] := by
      unfold AnthropicResponseBlock.intoContents
      split_ifs
      · cases b.thinking with
        | none => rfl
        | some thinking =>
          cases b.signature.filter (· ≠ "") <;> rfl
      · split <;> rfl
      · rfl
    rw [hparts.1,hnone]

theorem Streams.join_events (h : Streams json body events) :
    String.join ((({} : StreamState).feed events).2.filterMap StreamEvent.text?) =
      String.join (parseBody body).texts := by
  have hinside : ∀ a ∈ events.filterMap textPiece?, a.1<body.content.length := by
    intro a ha
    obtain ⟨data,hdata,hpiece⟩ := mem_filterMap.mp ha
    unfold textPiece? at hpiece
    split at hpiece
    · cases hpiece
      exact h.inside _ (mem_filterMap.mpr ⟨_,hdata,rfl⟩)
    · cases hpiece
  rw [h.events_eq,map_snd_eq_flatMap_range h.ordered hinside,LlmResponse.texts,parseBody,
    filterMap_flatMap,join_flatMap,join_flatMap]
  congr 1
  apply ext_getElem
  · simp
  · intro i hi hi'
    have hlt : i<body.content.length := by simpa using hi'
    rw [getElem_map,getElem_map,getElem_range,textPieces_ofSlot]
    exact join_texts_of_streamsBlock (h.blocks i _ (getElem?_eq_getElem hlt))

end Streaming

end Anthropic

end Daimonos.Providers
