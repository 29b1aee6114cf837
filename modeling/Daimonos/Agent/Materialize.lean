import Mathlib.Data.List.Forall2
import Daimonos.Agent.OrphanCalls

namespace Daimonos.Agent

open Framework Providers List ContentBlock

def messageCallIds (m : Message) : List String :=
  if m.role=.assistant then callIds m.content else []

def orderedResults (note : String) (ids : List String) (existing : List ContentBlock) :
    List ContentBlock :=
  ids.map (fun id =>
    (existing.find? fun b => b.resultId? == some id).getD (.toolResult id note true)) ++
    existing.filter fun b => !ids.any fun id => b.resultId? == some id

/-- The loop of `materialize_cancelled_suffix`; it peeks at the next message and
consumes it when it holds nothing but results. -/
def materializeLoop (note : String) : List Message → List Message
  | [] => []
  | [m] =>
    if messageCallIds m = [] then [m]
    else [m, { role := .user, content := orderedResults note (messageCallIds m) [] }]
  | m::n::rest =>
    if messageCallIds m = [] then m :: materializeLoop note (n::rest)
    else if isResultMessage n then
      m :: { n with content := orderedResults note (messageCallIds m) n.content } ::
        materializeLoop note rest
    else
      m :: { role := .user, content := orderedResults note (messageCallIds m) [] } ::
        materializeLoop note (n::rest)

def appendNote (note : String) (messages : List Message) : List Message :=
  if note.isEmpty then messages
  else
    match messages.getLast? with
    | some m =>
      if m.role=.assistant then
        messages.dropLast ++ [{ m with content := m.content ++ [.text note] }]
      else messages ++ [.assistant note]
    | none => messages ++ [.assistant note]

def materializeCancelledSuffix (messages : List Message) (note : String) : List Message :=
  appendNote note (materializeLoop note messages)

variable {m : Message}

theorem messageCallIds_of_user (h : m.role=.user) : messageCallIds m = [] := by
  simp [messageCallIds,h]

theorem isResultMessage_role (h : isResultMessage m = true) : m.role=.user := by
  simp only [isResultMessage,Bool.and_eq_true,beq_iff_eq] at h
  exact h.1.1

theorem isResultMessage_results (h : isResultMessage m = true) :
    ∀ b∈m.content, b.isToolResult=true := by
  simp only [isResultMessage,Bool.and_eq_true,all_eq_true] at h
  exact h.2

variable {b : ContentBlock}

theorem resultId?_of_isToolResult (h : b.isToolResult=true) :
    ∃ id, b.resultId? = some id :=
  Option.isSome_iff_exists.mp h

variable {existing : List ContentBlock} {id : String}

theorem find_result_spec (h : (existing.find? fun b => b.resultId? == some id) = some b) :
    ∃ pre post, existing=pre++b::post ∧ b.resultId? = some id ∧ id ∉ resultIds pre := by
  rw [find?_eq_some_iff_append] at h
  obtain ⟨hb,pre,post,rfl,hpre⟩ := h
  refine ⟨pre,post,rfl,by simpa using hb,?_⟩
  intro hid
  obtain ⟨c,hc,hcid⟩ := mem_filterMap.mp hid
  simpa [hcid] using hpre c hc

theorem find_result_none
    (h : (existing.find? fun b => b.resultId? == some id) = none) : id ∉ resultIds existing := by
  intro hid
  obtain ⟨c,hc,hcid⟩ := mem_filterMap.mp hid
  simpa [hcid] using find?_eq_none.mp h c hc

/-- `b` answers `id`: the first result the adjacent message had for it, else an error. -/
def AnswerOf (note : String) (existing : List ContentBlock) (id : String) (b : ContentBlock) :
    Prop :=
  (∃ pre post, existing=pre++b::post ∧ b.resultId? = some id ∧ id ∉ resultIds pre) ∨
    (id ∉ resultIds existing ∧ b = .toolResult id note true)

variable {note : String}

theorem AnswerOf.resultId? (h : AnswerOf note existing id b) : b.resultId? = some id := by
  rcases h with ⟨_,_,_,h,_⟩ | ⟨_,rfl⟩
  · exact h
  · rfl

/-- `content` answers the calls `ids` first, in call order, and loses no other result. -/
structure Answers (note : String) (ids : List String) (existing content : List ContentBlock) :
    Prop where
  inOrder : ∃ answers, List.Forall₂ (AnswerOf note existing) ids answers ∧
    content = answers ++ existing.filter fun b => !ids.any fun id => b.resultId? == some id
  kept : ∀ pre b post, existing=pre++b::post →
    (∀ id, b.resultId? = some id → id ∈ resultIds pre → id ∉ ids) → b∈content

theorem orderedResults_answers (note : String) (ids : List String) (existing : List ContentBlock) :
    Answers note ids existing (orderedResults note ids existing) := by
  have hall : List.Forall₂ (AnswerOf note existing) ids (ids.map fun id =>
      (existing.find? fun b => b.resultId? == some id).getD (.toolResult id note true)) := by
    rw [forall₂_map_right_iff,forall₂_same]
    intro id _
    cases hf : existing.find? fun b => b.resultId? == some id with
    | some b => exact .inl (find_result_spec hf)
    | none => exact .inr ⟨find_result_none hf,rfl⟩
  refine ⟨⟨_,hall,rfl⟩,?_⟩
  intro pre b post heq hb
  subst heq
  rw [orderedResults,mem_append]
  by_cases hid : ∃ id∈ids, b.resultId? = some id
  · obtain ⟨id,hid,hbid⟩ := hid
    refine .inl (mem_map.mpr ⟨id,hid,?_⟩)
    have hpre : (pre.find? fun b => b.resultId? == some id) = none := by
      rw [find?_eq_none]
      intro c hc hcid
      refine hb id hbid (mem_filterMap.mpr ⟨c,hc,by simpa using hcid⟩) hid
    simp [find?_append,hpre,hbid]
  · refine .inr (mem_filter.mpr ⟨by simp,?_⟩)
    simp only [Bool.not_eq_true',any_eq_false,beq_iff_eq]
    intro id hmem hbid
    exact hid ⟨id,hmem,hbid⟩

variable {answers : List ContentBlock} {ids : List String}

theorem answers_resultIds (h : List.Forall₂ (AnswerOf note existing) ids answers) :
    answers.map resultId? = ids.map some := by
  induction h with
  | nil => rfl
  | cons hb _ ih => simp [hb.resultId?,ih]

theorem orderedResults_isToolResult (h : ∀ b∈existing, b.isToolResult=true) :
    ∀ b ∈ orderedResults note ids existing, b.isToolResult=true := by
  intro b hb
  rcases mem_append.mp hb with hb | hb
  · obtain ⟨id,-,rfl⟩ := mem_map.mp hb
    cases hf : existing.find? fun b => b.resultId? == some id with
    | some c => exact h c (mem_of_find?_eq_some hf)
    | none => rfl
  · exact h b (mem_filter.mp hb).1

theorem materializeLoop_cons (note : String) (h : messageCallIds m = [])
    (rest : List Message) : materializeLoop note (m::rest) = m :: materializeLoop note rest := by
  cases rest <;> simp [materializeLoop,h]

/-- What happens to the messages: an adjacent result message is reordered and completed,
a missing one is inserted, every other message stays as and where it is. -/
inductive Settled (note : String) : List Message → List Message → Prop
  | nil : Settled note [] []
  | keep (m : Message) {l l' : List Message} :
      messageCallIds m = [] → Settled note l l' → Settled note (m::l) (m::l')
  | complete (m n r : Message) {l l' : List Message} :
      messageCallIds m ≠ [] → isResultMessage n = true → r.role=.user →
      Answers note (messageCallIds m) n.content r.content →
      Settled note l l' → Settled note (m::n::l) (m::r::l')
  | insert (m r : Message) {l l' : List Message} :
      messageCallIds m ≠ [] → (∀ n∈l.head?, isResultMessage n = false) → r.role=.user →
      Answers note (messageCallIds m) [] r.content →
      Settled note l l' → Settled note (m::l) (m::r::l')

theorem materializeLoop_settled (note : String) (messages : List Message) :
    Settled note messages (materializeLoop note messages) := by
  fun_induction materializeLoop note messages with
  | case1 => exact .nil
  | case2 m hm => exact .keep m hm .nil
  | case3 m hm =>
    exact .insert m _ hm (by simp) rfl (orderedResults_answers _ _ _) .nil
  | case4 m n rest hm ih => exact .keep m hm ih
  | case5 m n rest hm hn ih =>
    have hrole : n.role=.user := isResultMessage_role hn
    exact .complete m n _ hm hn hrole (orderedResults_answers _ _ _) ih
  | case6 m n rest hm hn ih =>
    refine .insert m _ hm ?_ rfl (orderedResults_answers _ _ _) ih
    simpa using hn

def AnsweredFirst (m : Message) (next : Option Message) : Prop :=
  messageCallIds m ≠ [] → ∃ n answers extra, next = some n ∧ n.role=.user ∧
    n.content=answers++extra ∧
    answers.map resultId? = (messageCallIds m).map some

theorem answeredFirst_of_nil (h : messageCallIds m = []) (next : Option Message) :
    AnsweredFirst m next :=
  fun hne => absurd h hne

theorem Settled.answeredFirst {l l' : List Message} (h : Settled note l l') :
    Followed AnsweredFirst l' := by
  have hans : ∀ {m r : Message} {existing : List ContentBlock}, r.role=.user →
      Answers note (messageCallIds m) existing r.content → AnsweredFirst m (some r) := by
    intro m r existing hr ha _
    obtain ⟨answers,hall,hc⟩ := ha.inOrder
    exact ⟨r,answers,_,rfl,hr,hc,answers_resultIds hall⟩
  induction h with
  | nil => trivial
  | keep m hm _ ih => exact ⟨answeredFirst_of_nil hm _,ih⟩
  | complete m n r _ _ hr ha _ ih | insert m r _ _ hr ha _ ih =>
    exact ⟨hans hr ha,answeredFirst_of_nil (messageCallIds_of_user hr) _,ih⟩

def spokenBlocks (messages : List Message) : List ContentBlock :=
  messages.flatMap fun m => m.content.filter fun b => !b.isToolResult

theorem spokenBlocks_cons (m : Message) (rest : List Message) :
    spokenBlocks (m::rest) = (m.content.filter fun b => !b.isToolResult) ++ spokenBlocks rest :=
  rfl

private theorem spoken_nil {content : List ContentBlock}
    (h : ∀ b∈content, b.isToolResult=true) :
    (content.filter fun b => !b.isToolResult) = [] := by
  rw [filter_eq_nil_iff]
  intro b hb
  simp [h b hb]

theorem materializeLoop_spokenBlocks (note : String) (messages : List Message) :
    spokenBlocks (materializeLoop note messages) = spokenBlocks messages := by
  have hnew : ∀ ids, ((orderedResults note ids []).filter fun b => !b.isToolResult) = [] :=
    fun ids => spoken_nil (orderedResults_isToolResult (by simp))
  fun_induction materializeLoop note messages with
  | case1 | case2 m hm => rfl
  | case3 m hm => simp [spokenBlocks_cons,hnew]
  | case4 m n rest hm ih => rw [spokenBlocks_cons,ih,← spokenBlocks_cons]
  | case5 m n rest hm hn ih =>
    have hres := isResultMessage_results hn
    simp only [spokenBlocks_cons,ih,spoken_nil hres,spoken_nil (orderedResults_isToolResult hres)]
  | case6 m n rest hm hn ih =>
    rw [spokenBlocks_cons,spokenBlocks_cons,ih,hnew,nil_append,← spokenBlocks_cons]

/-- The note closes the last assistant message, or is an assistant message of its own. -/
inductive NoteAppended (note : String) : List Message → List Message → Prop
  | merged (init : List Message) (m : Message) : m.role=.assistant →
      NoteAppended note (init ++ [m])
        (init ++ [{ m with content := m.content ++ [.text note] }])
  | pushed (messages : List Message) : (∀ m∈messages.getLast?, m.role≠.assistant) →
      NoteAppended note messages (messages ++ [.assistant note])

theorem appendNote_empty (messages : List Message) : appendNote "" messages=messages := by
  simp [appendNote]

theorem appendNote_noteAppended (hn : note ≠ "") (messages : List Message) :
    NoteAppended note messages (appendNote note messages) := by
  have hne : note.isEmpty=false := by simpa using hn
  unfold appendNote
  rw [hne]
  simp only [Bool.false_eq_true,if_false]
  cases hl : messages.getLast? with
  | none => exact .pushed messages (by simp [hl])
  | some m =>
    simp only
    split_ifs with hr
    · obtain ⟨init,rfl⟩ := getLast?_eq_some_iff.mp hl
      simpa using NoteAppended.merged init m hr
    · exact .pushed messages (by simpa [hl] using hr)

theorem NoteAppended.spokenBlocks {l l' : List Message}
    (h : NoteAppended note l l') : spokenBlocks l' = spokenBlocks l ++ [.text note] := by
  cases h with
  | merged => simp [Agent.spokenBlocks,isToolResult,resultId?]
  | pushed =>
    simp [Agent.spokenBlocks,Message.assistant,isToolResult,resultId?]

theorem NoteAppended.last {l l' : List Message} (h : NoteAppended note l l') :
    ∃ m, l'.getLast? = some m ∧ m.role=.assistant ∧ m.content.getLast? = some (.text note) := by
  cases h with
  | merged init m hm =>
    exact ⟨{ m with content := m.content ++ [.text note] },by simp,hm,by simp⟩
  | pushed => exact ⟨.assistant note,by simp,rfl,rfl⟩

theorem NoteAppended.answeredFirst {l l' : List Message}
    (h : NoteAppended note l l') (hl : Followed AnsweredFirst l) : Followed AnsweredFirst l' := by
  cases h with
  | merged init m hm =>
    have hsplit := (followed_append _ _).mp hl
    have hcalls : messageCallIds m = [] := by
      by_contra hne
      obtain ⟨n,_,_,hnone,_⟩ := hsplit.2.1 hne
      simp at hnone
    have hcalls' : messageCallIds { m with content := m.content ++ [.text note] } = [] := by
      simpa [messageCallIds,hm,callIds,callId?] using hcalls
    refine (followed_append _ _).mpr ⟨?_,answeredFirst_of_nil hcalls' _,trivial⟩
    refine followed_mono ?_ hsplit.1
    intro x _ next _ hx hne
    obtain ⟨n,answers,extra,hn,hrole,hrest⟩ := hx hne
    cases next with
    | some y => exact ⟨n,answers,extra,hn,hrole,hrest⟩
    | none =>
      obtain rfl : m=n := by simpa using hn
      simp [hm] at hrole
  | pushed =>
    refine (followed_append _ _).mpr ⟨?_,answeredFirst_of_nil (by rfl) _,trivial⟩
    refine followed_mono ?_ hl
    intro x _ next _ hx hne
    obtain ⟨n,answers,extra,rfl,hrest⟩ := hx hne
    exact ⟨n,answers,extra,rfl,hrest⟩

/-- The calls are answered by a message of results only, first and in call order, and
none of them twice. -/
def AnsweredInOrder (m : Message) (next : Option Message) : Prop :=
  messageCallIds m ≠ [] → ∃ n answers extra, next = some n ∧ isResultMessage n = true ∧
    n.content=answers++extra ∧ resultIds answers = messageCallIds m ∧
    ∀ id ∈ resultIds extra, id ∉ messageCallIds m

def PairedInOrder (messages : List Message) : Prop := Followed AnsweredInOrder messages

private theorem map_find_answers {e : String → ContentBlock}
    (hres : ∀ b∈answers, b.isToolResult=true) (hnd : (resultIds answers).Nodup)
    (extra : List ContentBlock) :
    ((resultIds answers).map fun id =>
      ((answers++extra).find? fun b => b.resultId? == some id).getD (e id)) = answers := by
  induction answers with
  | nil => rfl
  | cons b answers ih =>
    obtain ⟨id,hid⟩ := resultId?_of_isToolResult (hres b (by simp))
    have hids : resultIds (b::answers) = id :: resultIds answers := by
      simp [resultIds,hid]
    rw [hids,nodup_cons] at hnd
    rw [hids,map_cons]
    congr 1
    · simp [hid]
    · refine (map_congr_left fun id' hid' => ?_).trans
        (ih (fun c hc => hres c (by simp [hc])) hnd.2)
      have hne : id≠id' := by
        intro heq
        subst heq
        exact hnd.1 hid'
      simp [hid,hne]

theorem orderedResults_eq_self
    {extra : List ContentBlock} (hres : ∀ b∈answers, b.isToolResult=true)
    (hids : resultIds answers = ids) (hnd : ids.Nodup) (hextra : ∀ id ∈ resultIds extra, id ∉ ids) :
    orderedResults note ids (answers++extra) = answers++extra := by
  subst hids
  rw [orderedResults,map_find_answers hres hnd extra,filter_append]
  have hnone : (answers.filter fun b => !(resultIds answers).any fun id => b.resultId? == some id)
      = [] := by
    rw [filter_eq_nil_iff]
    intro b hb
    obtain ⟨id,hid⟩ := resultId?_of_isToolResult (hres b hb)
    simp only [Bool.not_eq_true',Bool.not_eq_false,any_eq_true,beq_iff_eq]
    exact ⟨id,mem_filterMap.mpr ⟨b,hb,hid⟩,hid⟩
  have hself : (extra.filter fun b => !(resultIds answers).any fun id => b.resultId? == some id)
      = extra := by
    rw [filter_eq_self]
    intro b hb
    simp only [Bool.not_eq_true',any_eq_false,beq_iff_eq]
    intro id hid hbid
    exact hextra id (mem_filterMap.mpr ⟨b,hb,hbid⟩) hid
  rw [hnone,hself,nil_append]

def DistinctCalls (messages : List Message) : Prop :=
  ∀ m∈messages, (messageCallIds m).Nodup

instance (messages : List Message) : Decidable (DistinctCalls messages) :=
  inferInstanceAs (Decidable (∀ m∈messages, _))

theorem materializeLoop_append {base : List Message} (hd : DistinctCalls base)
    (h : PairedInOrder base) (rest : List Message) :
    materializeLoop note (base++rest) = base ++ materializeLoop note rest := by
  fun_induction materializeLoop note base with
  | case1 => rfl
  | case2 m hm => exact materializeLoop_cons note hm rest
  | case3 m hm =>
    obtain ⟨n,_,_,hn,_⟩ := h.1 hm
    simp at hn
  | case4 m n base hm ih =>
    have htail := ih (fun x hx => hd x (by simp [hx])) h.2
    rw [cons_append,materializeLoop_cons note hm,htail,cons_append]
    rfl
  | case5 m n base hm hn ih =>
    obtain ⟨n',answers,extra,hn',-,hc,hids,hextra⟩ := h.1 hm
    obtain rfl : n=n' := by simpa using hn'
    have hres : ∀ b∈answers, b.isToolResult=true := by
      intro b hb
      exact isResultMessage_results hn b (by simp [hc,hb])
    simp only [cons_append,materializeLoop,hm,hn,if_false,if_true]
    rw [ih (fun x hx => hd x (by simp [hx])) h.2.2,hc,
      orderedResults_eq_self hres hids (hd m (by simp)) hextra,← hc]
  | case6 m n base hm hn ih =>
    obtain ⟨n',_,_,hn',hres,_⟩ := h.1 hm
    obtain rfl : n=n' := by simpa using hn'
    exact absurd hres hn

theorem materializeLoop_eq_self {messages : List Message}
    (hd : DistinctCalls messages) (h : PairedInOrder messages) :
    materializeLoop note messages = messages := by
  simpa [materializeLoop] using materializeLoop_append hd h []

/-- What materializing a cancelled history guarantees. -/
structure Materialized (note : String) (messages out : List Message) : Prop where
  settled : ∃ body, Settled note messages body ∧
    (note = "" → out=body) ∧ (note ≠ "" → NoteAppended note body out)
  answered : Followed AnsweredFirst out
  spoken : spokenBlocks out = spokenBlocks messages ++ if note = "" then [] else [.text note]
  noted : note ≠ "" → ∃ m, out.getLast? = some m ∧ m.role=.assistant ∧
    m.content.getLast? = some (.text note)
  unchanged : PairedInOrder messages → out = appendNote note messages

/-- A cancelled history is materialized as promised if its calls have distinct ids. -/
theorem materializeCancelledSuffix_materialized (messages : List Message) (note : String)
    (hd : DistinctCalls messages) :
    Materialized note messages (materializeCancelledSuffix messages note) := by
  have hs := materializeLoop_settled note messages
  have hu : PairedInOrder messages →
      materializeCancelledSuffix messages note = appendNote note messages := by
    intro h
    rw [materializeCancelledSuffix,materializeLoop_eq_self hd h]
  by_cases hn : note = ""
  · subst hn
    have hout : materializeCancelledSuffix messages "" = materializeLoop "" messages :=
      appendNote_empty _
    rw [hout] at hu ⊢
    refine ⟨⟨_,hs,fun _ => rfl,fun h => absurd rfl h⟩,hs.answeredFirst,?_,
      fun h => absurd rfl h,hu⟩
    simpa using materializeLoop_spokenBlocks "" messages
  · have ha := appendNote_noteAppended hn (materializeLoop note messages)
    refine ⟨⟨_,hs,fun h => absurd h hn,fun _ => ha⟩,ha.answeredFirst hs.answeredFirst,?_,
      fun _ => ha.last,hu⟩
    rw [materializeCancelledSuffix,ha.spokenBlocks,materializeLoop_spokenBlocks,if_neg hn]

/-- Two results for one call in the adjacent message: only the first is kept. -/
def doubledResult : List Message :=
  [{ role := .assistant, content := [.toolCall "c1" "exec" .null] },
    { role := .user, content := [.toolResult "c1" "first" false, .toolResult "c1" "second" false] }]

/-- A call with two results is left with one. -/
theorem materialized_doubledResult :
    DistinctCalls doubledResult ∧
      Materialized "Cancelled." doubledResult
        (materializeCancelledSuffix doubledResult "Cancelled.") :=
  ⟨by decide,materializeCancelledSuffix_materialized _ _ (by decide)⟩

/-- The second result of a call is dropped. -/
theorem materializeCancelledSuffix_drops_second :
    DistinctCalls doubledResult ∧
      (∃ m∈doubledResult, .toolResult "c1" "second" false∈m.content) ∧
      ¬ ∃ m ∈ materializeCancelledSuffix doubledResult "Cancelled.",
        .toolResult "c1" "second" false∈m.content := by
  decide

end Daimonos.Agent
