import Daimonos.Providers.Requests

namespace Daimonos.Providers

open List ContentBlock

namespace Anthropic

namespace AnthropicBlock

def part? : AnthropicBlock → Option (Part Value)
  | text t _ => some (.text t)
  | toolUse id name input _ => some (.call id name input)
  | toolResult id content _ _ => some (.result id content)
  | image .. | thinking .. => none

def signature? : AnthropicBlock → Option String
  | thinking _ signature _ => signature
  | text .. | image .. | toolUse .. | toolResult .. => none

end AnthropicBlock

theorem part?_contentBlockToAnthropic (block : ContentBlock) (next : Option ContentBlock)
    (cache : Bool) :
    (contentBlockToAnthropic block next cache).bind AnthropicBlock.part? = block.part? id := by
  cases block <;> rfl

theorem signature?_contentBlockToAnthropic {block : ContentBlock} {next : Option ContentBlock}
    {cache : Bool} {b : AnthropicBlock} {signature : String}
    (h : contentBlockToAnthropic block next cache = some b) (hsig : b.signature? = some signature) :
    ∃ data, next = some (.providerState providerState data) ∧
      data.strAt? "signature" = some signature := by
  cases block with
  | thinking =>
    cases h
    change thinkingSignature next = some signature at hsig
    unfold thinkingSignature at hsig
    split at hsig
    · split_ifs at hsig with hother
      rw [not_or,not_not] at hother
      obtain ⟨rfl,-⟩ := hother
      exact ⟨_,rfl,(Option.filter_eq_some_iff.mp hsig).1⟩
    · cases hsig
  | text | image => cases h; cases hsig
  | providerState => cases h
  | toolCall | toolResult => cases h; cases hsig

def blocksOf (msg : Message) (isPrefixBoundary : Bool) : List AnthropicBlock :=
  ((messageToAnthropic msg isPrefixBoundary).map AnthropicMessage.content).getD []

theorem blocksOf_eq (msg : Message) (isPrefixBoundary : Bool) :
    ∃ cache : Nat → Bool, blocksOf msg isPrefixBoundary =
      msg.content.zipIdx.filterMap fun (block, i) =>
        contentBlockToAnthropic block msg.content[i+1]? (cache i) := by
  refine ⟨fun i => isPrefixBoundary &&
    some i == rposition (fun block => !isProviderState block) msg.content,?_⟩
  unfold blocksOf messageToAnthropic
  simp only
  split_ifs with hempty
  · rw [isEmpty_iff.mp hempty]
    rfl
  · rfl

theorem parts_blocksOf (msg : Message) (isPrefixBoundary : Bool) :
    (blocksOf msg isPrefixBoundary).filterMap AnthropicBlock.part? = msg.parts id := by
  obtain ⟨cache,hblocks⟩ := blocksOf_eq msg isPrefixBoundary
  rw [hblocks,filterMap_filterMap]
  simp only [part?_contentBlockToAnthropic]
  calc msg.content.zipIdx.filterMap (fun a => a.1.part? id)
      = (msg.content.zipIdx.map Prod.fst).filterMap (part? id) := by
        rw [filterMap_map]
        rfl
    _ = msg.parts id := by rw [zipIdx_map_fst,Message.parts]

theorem signature_of_mem_blocksOf {msg : Message} {isPrefixBoundary : Bool} {b : AnthropicBlock}
    {signature : String} (hb : b ∈ blocksOf msg isPrefixBoundary)
    (hsig : b.signature? = some signature) :
    ∃ data, .providerState providerState data ∈ msg.content ∧
      data.strAt? "signature" = some signature := by
  obtain ⟨cache,hblocks⟩ := blocksOf_eq msg isPrefixBoundary
  rw [hblocks] at hb
  obtain ⟨⟨block,i⟩,-,hblock⟩ := mem_filterMap.mp hb
  obtain ⟨data,hnext,hdata⟩ := signature?_contentBlockToAnthropic hblock hsig
  exact ⟨data,mem_of_getElem? hnext,hdata⟩

theorem blocks_requestMessages (stablePrefixLen : Nat) (messages : List Message) :
    ∃ boundary : Nat → Bool, (requestMessages stablePrefixLen messages).flatMap (·.content) =
      messages.zipIdx.flatMap fun (msg, i) => blocksOf msg (boundary i) := by
  refine ⟨fun i => rposition (fun m : Message => m.content.any fun block => !isProviderState block)
    (messages.take stablePrefixLen) == some i,?_⟩
  unfold requestMessages
  simp only
  induction messages.zipIdx with
  | nil => rfl
  | cons a rest ih =>
    rw [flatMap_cons,← ih,filterMap_cons,blocksOf]
    split <;> rename_i heq
    · rw [heq]
      rfl
    · rw [heq]
      rfl

/-- The request carries the parts of the history, and signatures of this provider only. -/
structure Carries (stablePrefixLen : Nat) (messages : List Message) : Prop where
  parts : ((requestMessages stablePrefixLen messages).flatMap (·.content)).filterMap
      AnthropicBlock.part? = messages.flatMap (Message.parts id)
  states : ∀ b ∈ (requestMessages stablePrefixLen messages).flatMap (·.content),
    ∀ signature, b.signature? = some signature →
      ∃ m∈messages, ∃ data, .providerState providerState data ∈ m.content ∧
        data.strAt? "signature" = some signature

theorem carries (stablePrefixLen : Nat) (messages : List Message) :
    Carries stablePrefixLen messages := by
  obtain ⟨boundary,hblocks⟩ := blocks_requestMessages stablePrefixLen messages
  refine ⟨?_,fun b hb signature hsig => ?_⟩
  · rw [hblocks,filterMap_flatMap]
    simp only [parts_blocksOf]
    calc messages.zipIdx.flatMap (fun a => a.1.parts id)
        = (messages.zipIdx.map Prod.fst).flatMap (Message.parts id) := by
          rw [flatMap_map]
      _ = messages.flatMap (Message.parts id) := by rw [zipIdx_map_fst]
  · rw [hblocks] at hb
    obtain ⟨⟨m,i⟩,hm,hb⟩ := mem_flatMap.mp hb
    obtain ⟨data,hdata⟩ := signature_of_mem_blocksOf hb hsig
    exact ⟨m,fst_mem_of_mem_zipIdx hm,data,hdata⟩

end Anthropic

namespace OpenAi

namespace InputItem

def parts : InputItem → List (Part String)
  | message _ content => content.map Part.text
  | functionCallOutput id output => [.result id output]
  | functionCall id name arguments => [.call id name arguments]
  | reasoning _ => []

def state? : InputItem → Option Value
  | reasoning state => some state
  | message .. | functionCallOutput .. | functionCall .. => none

end InputItem

def Converting.parts (c : Converting) : List (Part String) :=
  c.input.flatMap InputItem.parts ++ c.text.map Part.text

def Converting.states (c : Converting) : List Value := c.input.filterMap InputItem.state?

variable (display : Value → String) (role : Role) (c : Converting)

theorem parts_flushText : (flushText role c).parts = c.parts := by
  unfold flushText
  split_ifs with hempty
  · rfl
  · simp [Converting.parts,InputItem.parts]

theorem states_flushText :
    (flushText role c).states = c.states := by
  unfold flushText
  split_ifs with hempty
  · rfl
  · simp [Converting.states,InputItem.state?]

theorem text_flushText (role : Role) (c : Converting) : (flushText role c).text = [] := by
  unfold flushText
  split_ifs with hempty
  · exact hempty
  · rfl

theorem parts_put (h : c.text = []) (item : InputItem) :
    Converting.parts { c with input := c.input ++ [item] } = c.parts++item.parts := by
  simp [Converting.parts,h]

theorem parts_convertBlock {block : ContentBlock} (h : block.allowed role = true) :
    (convertBlock display role c block).parts = c.parts ++ (block.part? display).toList := by
  cases block with
  | text => simp [convertBlock,Converting.parts,part?]
  | image | thinking => simp [convertBlock,part?]
  | toolResult =>
    cases role with
    | user =>
      simp only [convertBlock,if_true]
      rw [parts_put _ (text_flushText _ c),parts_flushText]
      rfl
    | assistant => cases h
  | toolCall =>
    cases role with
    | user => cases h
    | assistant =>
      simp only [convertBlock,if_true]
      rw [parts_put _ (text_flushText _ c),parts_flushText]
      rfl
  | providerState provider data =>
    simp only [convertBlock,part?,Option.toList_none,append_nil]
    split_ifs with hown
    · cases sanitizeReasoningState data with
      | none => exact parts_flushText role c
      | some reasoning =>
        rw [parts_put _ (text_flushText _ c),parts_flushText]
        simp [InputItem.parts]
    · rfl

def OwnState (content : List ContentBlock) (state : Value) : Prop :=
  ∃ data, .providerState providerState data ∈ content ∧ sanitizeReasoningState data = some state

theorem states_convertBlock (block : ContentBlock) :
    ∀ state ∈ (convertBlock display role c block).states,
      state∈c.states ∨ OwnState [block] state := by
  have hput : ∀ (c' : Converting) (item : InputItem), item.state?=none →
      Converting.states { c' with input := c'.input ++ [item] } = c'.states := by
    intro c' item hitem
    simp [Converting.states,hitem]
  intro state hstate
  cases block with
  | text | image | thinking => exact Or.inl hstate
  | toolResult | toolCall =>
    simp only [convertBlock] at hstate
    split_ifs at hstate
    · rw [hput _ _ rfl,states_flushText] at hstate
      exact Or.inl hstate
    · exact Or.inl hstate
  | providerState provider data =>
    simp only [convertBlock] at hstate
    split_ifs at hstate with hown
    · cases hdata : sanitizeReasoningState data with
      | none =>
        simp only [hdata,states_flushText] at hstate
        exact Or.inl hstate
      | some reasoning =>
        simp only [hdata,Converting.states,filterMap_append,mem_append] at hstate
        obtain hold | hnew := hstate
        · refine Or.inl ?_
          rw [← states_flushText role c]
          exact hold
        · refine Or.inr ⟨data,?_,?_⟩
          · rw [← hown.2]
            exact mem_singleton_self _
          · rw [hdata]
            simpa [InputItem.state?,eq_comm] using hnew
    · exact Or.inl hstate

theorem parts_convertBlocks (display : Value → String) (role : Role) {content : List ContentBlock}
    (h : ∀ b∈content, b.allowed role = true) (c : Converting) :
    (content.foldl (convertBlock display role) c).parts =
      c.parts ++ content.filterMap (part? display) := by
  induction content generalizing c with
  | nil => simp
  | cons block rest ih =>
    rw [foldl_cons,ih (fun b hb => h b (mem_cons_of_mem _ hb)),
      parts_convertBlock display role c (h block mem_cons_self),append_assoc]
    cases hpart : block.part? display with
    | none => rw [filterMap_cons_none hpart]; rfl
    | some part => rw [filterMap_cons_some hpart]; rfl

theorem states_convertBlocks (display : Value → String) (role : Role) (content : List ContentBlock)
    (c : Converting) :
    ∀ state ∈ (content.foldl (convertBlock display role) c).states,
      state∈c.states ∨ OwnState content state := by
  induction content generalizing c with
  | nil => exact fun state hstate => Or.inl hstate
  | cons block rest ih =>
    intro state hstate
    obtain hblock | ⟨data,hmem,hdata⟩ := ih _ state hstate
    · obtain hc | ⟨data,hmem,hdata⟩ := states_convertBlock display role c block state hblock
      · exact Or.inl hc
      · exact Or.inr ⟨data,by simp_all,hdata⟩
    · exact Or.inr ⟨data,mem_cons_of_mem _ hmem,hdata⟩

/-- The request carries the parts of the history, and state of this provider only. -/
structure Carries (display : Value → String) (messages : List Message) : Prop where
  parts : (messagesToInput display messages).flatMap InputItem.parts =
    messages.flatMap (Message.parts display)
  states : ∀ item ∈ messagesToInput display messages, ∀ state, item.state? = some state →
    ∃ m∈messages, OwnState m.content state

theorem parts_convertMessage (input : List InputItem) {m : Message} (h : m.Proper) :
    (convertMessage display input m).flatMap InputItem.parts =
      input.flatMap InputItem.parts ++ m.parts display := by
  have hparts := parts_flushText m.role (m.content.foldl (convertBlock display m.role) ⟨input,[]⟩)
  rw [parts_convertBlocks display m.role h,Converting.parts,text_flushText] at hparts
  simpa [Converting.parts,convertMessage,Message.parts] using hparts

theorem states_convertMessage (input : List InputItem) (m : Message) :
    ∀ state ∈ (convertMessage display input m).filterMap InputItem.state?,
      state ∈ input.filterMap InputItem.state? ∨ OwnState m.content state := by
  intro state hstate
  have hflush := states_flushText m.role (m.content.foldl (convertBlock display m.role) ⟨input,[]⟩)
  rw [convertMessage,← Converting.states,hflush] at hstate
  exact states_convertBlocks display m.role m.content ⟨input,[]⟩ state hstate

theorem carries (display : Value → String) {messages : List Message}
    (h : ∀ m∈messages, m.Proper) : Carries display messages := by
  have hfold : ∀ input : List InputItem,
      (messages.foldl (convertMessage display) input).flatMap InputItem.parts =
        input.flatMap InputItem.parts ++ messages.flatMap (Message.parts display) ∧
      ∀ state ∈ (messages.foldl (convertMessage display) input).filterMap InputItem.state?,
        state ∈ input.filterMap InputItem.state? ∨ ∃ m∈messages, OwnState m.content state := by
    induction messages with
    | nil => exact fun input => ⟨by simp,fun state hstate => Or.inl hstate⟩
    | cons m rest ih =>
      intro input
      obtain ⟨hparts,hstates⟩ := ih (fun m' hm' => h m' (mem_cons_of_mem _ hm'))
        (convertMessage display input m)
      refine ⟨?_,fun state hstate => ?_⟩
      · rw [foldl_cons,hparts,parts_convertMessage display input (h m mem_cons_self),
          append_assoc,flatMap_cons]
      · obtain hold | ⟨m',hm',hown⟩ := hstates state hstate
        · refine (states_convertMessage display input m state hold).imp_right fun hown => ?_
          exact ⟨m,mem_cons_self,hown⟩
        · exact Or.inr ⟨m',mem_cons_of_mem _ hm',hown⟩
  obtain ⟨hparts,hstates⟩ := hfold []
  refine ⟨by simpa [messagesToInput] using hparts,fun item hitem state hstate => ?_⟩
  have hmem := hstates state (mem_filterMap.mpr ⟨item,hitem,hstate⟩)
  simpa using hmem

end OpenAi

namespace OpenRouter

/-- What a message on the wire shows: texts, calls, results, and state of the provider. Texts and
calls of an assistant are separate fields, without an order between them. -/
structure Shown where
  texts : List String
  calls : List (String × String × String)
  results : List (String × String)
  details : List Value

def ContentPart.text? : ContentPart → Option String
  | text t _ => some t
  | imageUrl .. => none

def WireContent.texts : WireContent → List String
  | null => []
  | string t => [t]
  | array parts => parts.filterMap ContentPart.text?

def WireMessage.shown : WireMessage → Shown
  | system _ => ⟨[],[],[],[]⟩
  | tool id content => ⟨[],[],content.texts.map fun t => (id, t),[]⟩
  | user content => ⟨content.texts,[],[],[]⟩
  | assistant content calls details => ⟨content.texts,calls,[],details⟩

theorem texts_cached (content : WireContent) : content.cached.texts = content.texts := by
  cases content with
  | null | string => rfl
  | array parts =>
    cases hlast : parts.getLast? with
    | none => simp [WireContent.cached,hlast]
    | some part =>
      have hparts := dropLast_append_getLast? part hlast
      have htext : part.cached.text?=part.text? := by cases part <;> rfl
      have hcached : (WireContent.array parts).cached =
          .array (parts.dropLast ++ [part.cached]) := by simp [WireContent.cached,hlast]
      rw [hcached]
      calc (parts.dropLast ++ [part.cached]).filterMap ContentPart.text?
          = (parts.dropLast ++ [part]).filterMap ContentPart.text? := by
            simp only [filterMap_append,filterMap_cons,htext]
        _ = parts.filterMap ContentPart.text? := by rw [hparts]

open WireMessage

theorem shown_cached (message : WireMessage) : message.cached.shown = message.shown := by
  cases message <;> simp [cached,shown,texts_cached]

theorem shown_applyPromptCache (messages : List WireMessage) :
    (applyPromptCache messages).map shown = messages.map shown := by
  unfold applyPromptCache
  cases hlast : messages.getLast? with
  | none => rfl
  | some message =>
    have hmessages := dropLast_append_getLast? message hlast
    calc (messages.dropLast ++ [message.cached]).map shown
        = (messages.dropLast ++ [message]).map shown := by
          simp [shown_cached]
      _ = messages.map shown := by rw [hmessages]

def segment (display : Value → String) (m : Message) : List Shown :=
  (messageToWire display m).map shown

/-- The segment shows every text once, alone or joined with its neighbours by newlines, the calls and
the results, and state of this provider only. -/
structure SegmentCarries (display : Value → String) (m : Message) (shown : List Shown) : Prop where
  texts : ∃ groups : List (List String), groups.flatten=m.texts ∧
    shown.flatMap Shown.texts = groups.map ("\n".intercalate ·)
  calls : shown.flatMap Shown.calls = (m.parts display).filterMap Part.call?
  results : shown.flatMap Shown.results = (m.parts display).filterMap Part.result?
  states : ∀ state ∈ shown.flatMap Shown.details,
    ∃ data, .providerState providerState data ∈ m.content ∧ state ∈ data.asArray?.getD []

/-- The request is the segments of the history, after the instructions, and each carries its message. -/
structure Carries (display : Value → String) (promptCache : Bool) (model : String)
    (system : Option String) (messages : List Message) : Prop where
  segments : (requestMessages display promptCache model system messages).map shown =
    (system.map fun _ => Shown.mk [] [] [] []).toList ++ messages.flatMap (segment display)
  carried : ∀ m∈messages, SegmentCarries display m (segment display m)

variable (display : Value → String)

theorem shown_requestMessages (promptCache : Bool) (model : String)
    (system : Option String) (messages : List Message) :
    (requestMessages display promptCache model system messages).map shown =
      (system.map fun _ => Shown.mk [] [] [] []).toList ++ messages.flatMap (segment display) := by
  have hwire : (messagesToWire display system messages).map shown =
      (system.map fun _ => Shown.mk [] [] [] []).toList ++ messages.flatMap (segment display) := by
    rw [messagesToWire,map_append,map_flatMap]
    congr 1
    cases system <;> rfl
  unfold requestMessages
  split_ifs
  · rw [shown_applyPromptCache,hwire]
  · exact hwire

theorem calls_eq (display : Value → String) (m : Message) :
    m.content.filterMap (call? display) = (m.parts display).filterMap Part.call? := by
  rw [Message.parts,filterMap_filterMap]
  refine filterMap_congr fun b _ => ?_
  cases b <;> rfl

theorem results_eq (m : Message) :
    m.content.filterMap result? = (m.parts display).filterMap Part.result? := by
  rw [Message.parts,filterMap_filterMap]
  refine filterMap_congr fun b _ => ?_
  cases b <;> rfl

theorem calls_user {m : Message} (hproper : m.Proper) (hrole : m.role=.user)
    (display : Value → String) : m.content.filterMap (call? display) = [] := by
  refine filterMap_eq_nil_iff.mpr fun b hb => ?_
  have hallowed := hproper b hb
  rw [hrole] at hallowed
  cases b with
  | toolCall => cases hallowed
  | _ => rfl

theorem results_assistant {m : Message} (hproper : m.Proper) (hrole : m.role=.assistant) :
    m.content.filterMap result? = [] := by
  refine filterMap_eq_nil_iff.mpr fun b hb => ?_
  have hallowed := hproper b hb
  rw [hrole] at hallowed
  cases b with
  | toolResult => cases hallowed
  | _ => rfl

theorem texts_contentParts (content : List ContentBlock) :
    (content.filterMap contentPart?).filterMap ContentPart.text? =
      content.filterMap fun
        | .text t => some t
        | _ => none := by
  rw [filterMap_filterMap]
  refine filterMap_congr fun b _ => ?_
  cases b <;> rfl

theorem segmentCarries_assistant {m : Message} (hproper : m.Proper)
    (hrole : m.role=.assistant) : SegmentCarries display m (segment display m) := by
  have hsegment : segment display m = [⟨if m.texts = [] then [] else ["\n".intercalate m.texts],
      m.content.filterMap (call? display),[],m.content.flatMap reasoningOf⟩] := by
    rw [segment,messageToWire,hrole]
    by_cases htexts : m.texts = [] <;> simp [shown,htexts,WireContent.texts]
  rw [hsegment]
  refine ⟨?_,?_,?_,fun state hstate => ?_⟩
  · by_cases htexts : m.texts = []
    · exact ⟨[],htexts.symm,by simp [htexts]⟩
    · exact ⟨[m.texts],by simp,by simp [htexts]⟩
  · simp [calls_eq]
  · rw [← results_eq,results_assistant hproper hrole]
    rfl
  · rw [flatMap_singleton] at hstate
    obtain ⟨b,hb,hstate⟩ := mem_flatMap.mp hstate
    cases b with
    | providerState provider data =>
      unfold reasoningOf at hstate
      simp only at hstate
      split_ifs at hstate with hown
      · exact ⟨data,hown ▸ hb,hstate⟩
      · cases hstate
    | _ => cases hstate

theorem segmentCarries_user_iff {m : Message} (hproper : m.Proper) (hrole : m.role=.user) :
    SegmentCarries display m (segment display m) ↔
      (m.content.filterMap result? ≠ [] → m.texts = []) := by
  by_cases hresults : m.content.filterMap result? = []
  · -- without results the message is one of the user on the wire
    have hsegment : ∃ texts, segment display m = [⟨texts,[],[],[]⟩] ∧
        ∃ groups : List (List String), groups.flatten=m.texts ∧
          texts = groups.map ("\n".intercalate ·) := by
      by_cases himage : m.content.any isImage = true
      · refine ⟨m.texts,?_,m.texts.map ([·]),?_,?_⟩
        · rw [segment,messageToWire,hrole]
          simp only [hresults,ne_eq,not_true_eq_false,if_false,himage,if_true,map_cons,
            map_nil,shown,WireContent.texts,texts_contentParts]
          rfl
        · rw [← flatMap_def,flatMap_singleton']
        · -- a single text is joined with nothing
          have hjoin : (fun t => "\n".intercalate [t]) = id := rfl
          rw [map_map,Function.comp_def,hjoin,map_id]
      · refine ⟨["\n".intercalate m.texts],?_,[m.texts],?_,rfl⟩
        · rw [segment,messageToWire,hrole]
          simp only [hresults,ne_eq,not_true_eq_false,if_false,himage]
          rfl
        · simp
    obtain ⟨texts,hsegment,groups,hgroups,hjoined⟩ := hsegment
    refine iff_of_true ?_ fun hne => (hne hresults).elim
    rw [hsegment]
    refine ⟨⟨groups,hgroups,by simpa using hjoined⟩,?_,?_,by simp⟩
    · rw [← calls_eq,calls_user hproper hrole]
      rfl
    · rw [← results_eq,hresults]
      rfl
  · -- with results it is nothing but the results
    have hsegment : segment display m =
        (m.content.filterMap result?).map fun r => ⟨[],[],[r],[]⟩ := by
      rw [segment,messageToWire,hrole]
      simp [hresults,shown,WireContent.texts]
    have hnone : ((m.content.filterMap result?).map
        fun r => (⟨[],[],[r],[]⟩ : Shown)).flatMap Shown.texts = [] := by
      simp [flatMap_map]
    rw [hsegment]
    constructor
    · rintro ⟨⟨groups,hgroups,hjoined⟩,-,-,-⟩ -
      rw [hnone,eq_comm,map_eq_nil_iff] at hjoined
      rw [← hgroups,hjoined]
      rfl
    · intro htexts
      refine ⟨⟨[],?_,hnone⟩,?_,?_,?_⟩
      · rw [htexts hresults]
        rfl
      · rw [← calls_eq,calls_user hproper hrole]
        simp [flatMap_map]
      · rw [← results_eq]
        simp [flatMap_map]
      · simp [flatMap_map]

end OpenRouter

/-- Every adapter carries a proper history, except that OpenRouter's drops the texts of a user that
stand beside results. -/
theorem requests_carry_iff (display : Value → String) (promptCache : Bool) (model : String)
    (system : Option String) (stablePrefixLen : Nat) (messages : List Message)
    (hproper : ∀ m∈messages, m.Proper) :
    (Anthropic.Carries stablePrefixLen messages ∧ OpenAi.Carries display messages ∧
        OpenRouter.Carries display promptCache model system messages) ↔
      ∀ m∈messages, m.role=.user → m.content.any isToolResult = true →
        m.texts = [] := by
  have hresults : ∀ m : Message, m.content.filterMap OpenRouter.result? ≠ [] ↔
      m.content.any isToolResult = true := by
    intro m
    rw [Ne,filterMap_eq_nil_iff,any_eq_true,not_forall]
    simp only [Classical.not_imp]
    refine exists_congr fun b => and_congr_right fun _ => ?_
    cases b <;> simp [OpenRouter.result?,isToolResult,resultId?]
  constructor
  · rintro ⟨-,-,hrouter⟩ m hm hrole hresult
    have hcarried := hrouter.carried m hm
    rw [OpenRouter.segmentCarries_user_iff display (hproper m hm) hrole] at hcarried
    exact hcarried ((hresults m).mpr hresult)
  · intro hapart
    refine ⟨Anthropic.carries stablePrefixLen messages,OpenAi.carries display hproper,
      OpenRouter.shown_requestMessages display promptCache model system messages,fun m hm => ?_⟩
    cases hrole : m.role with
    | assistant => exact OpenRouter.segmentCarries_assistant display (hproper m hm) hrole
    | user =>
      rw [OpenRouter.segmentCarries_user_iff display (hproper m hm) hrole]
      exact fun hresult => hapart m hm hrole ((hresults m).mp hresult)

/-- A question, a call with an announcement, and its result. -/
theorem requests_carry_call :
    Anthropic.Carries 1 [.user "q", ⟨.assistant,[.text "a", .toolCall "c" "n" .null],.session⟩,
        ⟨.user,[.toolResult "c" "r" false],.session⟩] ∧
      OpenAi.Carries (fun _ => "null") [.user "q",
        ⟨.assistant,[.text "a", .toolCall "c" "n" .null],.session⟩,
        ⟨.user,[.toolResult "c" "r" false],.session⟩] ∧
      OpenRouter.Carries (fun _ => "null") true "anthropic/x" (some "s") [.user "q",
        ⟨.assistant,[.text "a", .toolCall "c" "n" .null],.session⟩,
        ⟨.user,[.toolResult "c" "r" false],.session⟩] := by
  refine (requests_carry_iff _ _ _ _ _ _ ?_).mpr ?_ <;> decide

/-- A text beside a result is not on OpenRouter's wire. -/
theorem openRouter_text_dropped :
    ∃ m : Message, m.Proper ∧ m.texts = ["note"] ∧
      OpenRouter.requestMessages (fun _ => "null") false "x" none [m] =
        [.tool "c" (.string "r")] ∧
      ¬ OpenRouter.Carries (fun _ => "null") false "x" none [m] := by
  refine ⟨⟨.user,[.toolResult "c" "r" false, .text "note"],.session⟩,by decide,rfl,rfl,?_⟩
  intro hcarries
  have hcarried := hcarries.carried _ mem_cons_self
  rw [OpenRouter.segmentCarries_user_iff _ (by decide) rfl] at hcarried
  cases hcarried (by decide)

end Daimonos.Providers
