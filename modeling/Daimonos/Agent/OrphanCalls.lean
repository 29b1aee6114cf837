import Mathlib.Data.List.Nodup
import Daimonos.Framework.Followed
import Daimonos.Providers.Message

namespace Daimonos.Agent

open Framework Providers List

def interruptedToolResult : String :=
  "Tool call interrupted: the assistant turn ended before this tool ran, so it produced " ++
    "no result and changed nothing. Re-issue it if it is still needed."

def answeredIds (messages : List Message) : List String :=
  messages.flatMap fun m => resultIds m.content

def hasOrphanToolCalls (messages : List Message) : Bool :=
  if !(messages.flatMap (·.content)).any ContentBlock.isToolCall then false
  else
    let answered := answeredIds messages
    (messages.flatMap (·.content)).any fun b =>
      match b with
      | .toolCall id _ _ => !answered.contains id
      | _ => false

/-- Unanswered call ids of one message; calls outside assistant messages are not looked at. -/
def orphanIds (answered : List String) (m : Message) : List String :=
  if m.role≠.assistant then []
  else m.content.filterMap fun b =>
    match b with
    | .toolCall id _ _ => if !answered.contains id then some id else none
    | _ => none

def interruptedResult (id : String) : ContentBlock := .toolResult id interruptedToolResult true

def closeOrphanToolCalls (messages : List Message) : List Message :=
  let answered := answeredIds messages
  let orphans := messages.map (orphanIds answered)
  if orphans.all List.isEmpty then messages
  else (messages.zip orphans).flatMap fun (m, ids) =>
    if ids.isEmpty then [m]
    else [m, { role := .user, content := ids.map interruptedResult }]

def closing (answered : List String) (m : Message) : Option Message :=
  if (orphanIds answered m).isEmpty then none
  else some { role := .user, content := (orphanIds answered m).map interruptedResult }

theorem orphanIds_user (answered : List String) (m : Message) (h : m.role≠.assistant) :
    orphanIds answered m = [] := by simp [orphanIds,h]

theorem orphanIds_eq_filter (answered : List String) (m : Message) (h : m.role=.assistant) :
    orphanIds answered m = (callIds m.content).filter (fun id => !answered.contains id) := by
  unfold orphanIds callIds
  rw [if_neg (by simp [h]),filter_filterMap]
  apply filterMap_congr
  intro b _
  cases b <;> simp [ContentBlock.callId?,Option.filter]

@[simp] theorem resultIds_interrupted (ids : List String) :
    resultIds (ids.map interruptedResult) = ids := by
  induction ids with
  | nil => rfl
  | cons id ids ih =>
    have h : resultIds (interruptedResult id :: ids.map interruptedResult) =
      id :: resultIds (ids.map interruptedResult) := rfl
    rw [map_cons,h,ih]

@[simp] theorem callIds_interrupted (ids : List String) :
    callIds (ids.map interruptedResult) = [] := by
  induction ids with
  | nil => rfl
  | cons id ids ih => exact ih

theorem closeOrphanToolCalls_eq (messages : List Message) :
    closeOrphanToolCalls messages = insertAfter (closing (answeredIds messages)) messages := by
  have hzip (answered : List String) (h : List Message) :
      ((h.zip (h.map (orphanIds answered))).flatMap fun (m, ids) =>
        if ids.isEmpty then [m]
        else [m, { role := .user, content := ids.map interruptedResult }]) =
      insertAfter (closing answered) h := by
    induction h with
    | nil => rfl
    | cons m h ih =>
      simp only [map_cons,zip_cons_cons,flatMap_cons,ih,insertAfter_cons,closing]
      split_ifs <;> simp
  unfold closeOrphanToolCalls
  simp only
  split_ifs with hall
  · rw [insertAfter_eq_self]
    intro m hm
    have he : (orphanIds (answeredIds messages) m).isEmpty = true := by
      apply all_eq_true.mp hall
      exact mem_map_of_mem hm
    simp [closing,he]
  · exact hzip _ _

theorem hasOrphanToolCalls_iff (messages : List Message) :
    hasOrphanToolCalls messages = true ↔
      ∃ m∈messages, ∃ id ∈ callIds m.content, id ∉ answeredIds messages := by
  have hcall (b : ContentBlock) (id : String) :
      b.callId? = some id ↔ ∃ name input, b = .toolCall id name input := by
    cases b <;> simp [ContentBlock.callId?]
  simp only [callIds,mem_filterMap,hcall]
  unfold hasOrphanToolCalls
  split_ifs with hnone
  · simp only [Bool.not_eq_true',any_eq_false,mem_flatMap] at hnone
    simp only [false_iff,not_exists,not_and,not_not]
    intro m hm id hx
    obtain ⟨b,hb,name,input,rfl⟩ := hx
    exact absurd rfl (hnone _ ⟨m,hm,hb⟩)
  · simp only [any_eq_true,mem_flatMap]
    constructor
    · intro hx
      obtain ⟨b,⟨m,hm,hb⟩,h⟩ := hx
      cases b with
      | toolCall id name input => exact ⟨m,hm,id,⟨_,hb,name,input,rfl⟩,by simpa using h⟩
      | _ => simp at h
    · intro hx
      obtain ⟨m,hm,id,⟨b,hb,name,input,rfl⟩,h⟩ := hx
      exact ⟨_,⟨m,hm,hb⟩,by simpa using h⟩

variable {messages : List Message} {id : String}

theorem mem_answeredIds :
    id ∈ answeredIds messages ↔ ∃ m∈messages, id ∈ resultIds m.content := by
  simp [answeredIds]

@[simp] theorem answeredIds_append (xs ys : List Message) :
    answeredIds (xs++ys) = answeredIds xs ++ answeredIds ys := by
  simp [answeredIds]

@[simp] theorem answeredIds_singleton (m : Message) :
    answeredIds [m] = resultIds m.content := by
  simp [answeredIds]

variable {m : Message}

theorem closing_none {answered : List String}
    (h : m.role=.assistant → ∀ id ∈ callIds m.content, id∈answered) :
    closing answered m = none := by
  have ho : orphanIds answered m = [] := by
    by_cases hr : m.role=.assistant
    · rw [orphanIds_eq_filter _ _ hr,filter_eq_nil_iff]
      intro id hid
      simpa using h hr id hid
    · exact orphanIds_user _ _ hr
  simp [closing,ho]

theorem closing_some {answered : List String} {n : Message} (h : closing answered m = some n) :
    m.role=.assistant ∧ orphanIds answered m ≠ [] ∧
      n = { role := .user, content := (orphanIds answered m).map interruptedResult } := by
  unfold closing at h
  split_ifs at h with he
  have hne : orphanIds answered m ≠ [] := by simpa using he
  refine ⟨?_,hne,(Option.some.inj h).symm⟩
  by_contra hr
  exact hne (orphanIds_user _ _ hr)

theorem mem_answeredIds_close :
    id ∈ answeredIds (closeOrphanToolCalls messages) ↔
      id ∈ answeredIds messages ∨
        ∃ m∈messages, m.role=.assistant ∧ id ∈ callIds m.content := by
  rw [closeOrphanToolCalls_eq,mem_answeredIds]
  constructor
  · intro hx
    obtain ⟨n,hn,hid⟩ := hx
    rcases mem_insertAfter.mp hn with hn | ⟨m,hm,hc⟩
    · exact .inl (mem_answeredIds.mpr ⟨n,hn,hid⟩)
    · obtain ⟨hr,-,rfl⟩ := closing_some hc
      rw [resultIds_interrupted,orphanIds_eq_filter _ _ hr] at hid
      exact .inr ⟨m,hm,hr,(mem_filter.mp hid).1⟩
  · intro hor
    rcases hor with hid | ⟨m,hm,hr,hid⟩
    · obtain ⟨n,hn,hid⟩ := mem_answeredIds.mp hid
      exact ⟨n,mem_insertAfter.mpr (.inl hn),hid⟩
    · by_cases ha : id ∈ answeredIds messages
      · obtain ⟨n,hn,hid⟩ := mem_answeredIds.mp ha
        exact ⟨n,mem_insertAfter.mpr (.inl hn),hid⟩
      · have ho : id ∈ orphanIds (answeredIds messages) m := by
          rw [orphanIds_eq_filter _ _ hr,mem_filter]
          exact ⟨hid,by simpa using ha⟩
        have hne : orphanIds (answeredIds messages) m ≠ [] := ne_nil_of_mem ho
        let ids := orphanIds (answeredIds messages) m
        refine ⟨{ role := .user, content := ids.map interruptedResult },?_,?_⟩
        · exact mem_insertAfter.mpr (.inr ⟨m,hm,by simp [closing,hne,ids]⟩)
        · simpa [ids] using ho

theorem closeOrphanToolCalls_eq_self
    (h : ∀ m∈messages, m.role=.assistant → ∀ id ∈ callIds m.content, id ∈ answeredIds messages) :
    closeOrphanToolCalls messages = messages := by
  rw [closeOrphanToolCalls_eq]
  exact insertAfter_eq_self fun m hm => closing_none (h m hm)

theorem closeOrphanToolCalls_answered
    (hm : m ∈ closeOrphanToolCalls messages) (hr : m.role=.assistant)
    (hid : id ∈ callIds m.content) : id ∈ answeredIds (closeOrphanToolCalls messages) := by
  rw [mem_answeredIds_close]
  rw [closeOrphanToolCalls_eq] at hm
  rcases mem_insertAfter.mp hm with hm | ⟨m',-,hc⟩
  · exact .inr ⟨m,hm,hr,hid⟩
  · obtain ⟨-,-,rfl⟩ := closing_some hc
    simp at hid

theorem closeOrphanToolCalls_idempotent (messages : List Message) :
    closeOrphanToolCalls (closeOrphanToolCalls messages) = closeOrphanToolCalls messages :=
  closeOrphanToolCalls_eq_self fun _ hm hr _ hid => closeOrphanToolCalls_answered hm hr hid

def resultCount (id : String) : Option Message → Nat
  | none => 0
  | some n => (resultIds n.content).count id

/-- Each assistant call has exactly one result with its id in the next message. -/
def AnsweredNext (m : Message) (next : Option Message) : Prop :=
  m.role=.assistant → ∀ id ∈ callIds m.content, resultCount id next = 1

instance (m : Message) (next : Option Message) : Decidable (AnsweredNext m next) :=
  inferInstanceAs (Decidable (_ → _))

def ToolCallsPaired (messages : List Message) : Prop := Followed AnsweredNext messages

instance (messages : List Message) : Decidable (ToolCallsPaired messages) :=
  inferInstanceAs (Decidable (Followed _ _))

def isResultMessage (m : Message) : Bool :=
  m.role == .user && !m.content.isEmpty && m.content.all ContentBlock.isToolResult

/-- What the repair is for: adjacent answers, every message kept, no change where
none is needed. -/
structure RepairContract (messages : List Message) : Prop where
  paired : ToolCallsPaired (closeOrphanToolCalls messages)
  kept : Inserted (fun m => isResultMessage m = true) messages (closeOrphanToolCalls messages)
  unchanged : ToolCallsPaired messages → closeOrphanToolCalls messages = messages
  idempotent : closeOrphanToolCalls (closeOrphanToolCalls messages) = closeOrphanToolCalls messages
  closed : hasOrphanToolCalls (closeOrphanToolCalls messages) = false

/-- The calls of one message are either all answered right after it, or pairwise
distinct and answered nowhere in the whole history. -/
def Repairable (answered : List String) (m : Message) (next : Option Message) : Prop :=
  m.role=.assistant → (∀ id ∈ callIds m.content, resultCount id next = 1) ∨
    ((callIds m.content).Nodup ∧ ∀ id ∈ callIds m.content, id ∉ answered)

/-- Histories the repair handles: every assistant message is repairable, and a call
outside the assistant messages is answered somewhere or repeats an assistant's call. -/
structure RepairableHistory (messages : List Message) : Prop where
  calls : Followed (Repairable (answeredIds messages)) messages
  strays : ∀ m∈messages, m.role≠.assistant → ∀ id ∈ callIds m.content,
    id ∈ answeredIds messages ∨ ∃ a∈messages, a.role=.assistant ∧ id ∈ callIds a.content

theorem resultCount_pos {next : Option Message}
    (hnext : ∀ n∈next, n∈messages) (h : resultCount id next = 1) :
    id ∈ answeredIds messages := by
  cases next with
  | none => simp [resultCount] at h
  | some n =>
    refine mem_answeredIds.mpr ⟨n,hnext n rfl,count_pos_iff.mp ?_⟩
    simp only [resultCount] at h
    omega

theorem closing_isResultMessage {answered : List String} {n : Message}
    (h : closing answered m = some n) : isResultMessage n = true := by
  obtain ⟨-,hne,rfl⟩ := closing_some h
  simp only [isResultMessage,beq_self_eq_true,Bool.true_and,Bool.and_eq_true,
    Bool.not_eq_true',isEmpty_eq_false_iff,all_eq_true,mem_map]
  refine ⟨by simpa using hne,?_⟩
  intro b hx
  obtain ⟨id,-,rfl⟩ := hx
  rfl

/-- Where the next message decides: it is the inserted one exactly if some call is an orphan. -/
theorem answeredNext_closing (messages : List Message) (m : Message) (next : Option Message)
    (hnext : ∀ n∈next, n∈messages) :
    AnsweredNext m ((closing (answeredIds messages) m).or next) ↔
      Repairable (answeredIds messages) m next := by
  by_cases hr : m.role=.assistant
  swap
  · simp [AnsweredNext,Repairable,hr]
  simp only [AnsweredNext,Repairable,hr,forall_true_left]
  cases hc : closing (answeredIds messages) m with
  | none =>
    have hall : ∀ id ∈ callIds m.content, id ∈ answeredIds messages := by
      have ho : orphanIds (answeredIds messages) m = [] := by
        by_contra hne
        simp [closing,hne] at hc
      rw [orphanIds_eq_filter _ _ hr,filter_eq_nil_iff] at ho
      intro id hid
      simpa using ho id hid
    constructor
    · exact .inl
    · intro hor
      rcases hor with h | ⟨-,h⟩
      · exact h
      · intro id hid
        exact absurd (hall id hid) (h id hid)
  | some n =>
    obtain ⟨-,hne,rfl⟩ := closing_some hc
    rw [Option.some_or]
    simp only [resultCount,resultIds_interrupted,orphanIds_eq_filter _ _ hr]
    rw [orphanIds_eq_filter _ _ hr] at hne
    constructor
    · intro h
      have hmem : ∀ id ∈ callIds m.content, id ∉ answeredIds messages := by
        intro id hid
        have hpos := count_pos_iff.mp (by rw [h id hid]; omega)
        simpa using (mem_filter.mp hpos).2
      refine .inr ⟨?_,hmem⟩
      rw [filter_eq_self.mpr (fun id hid => by simpa using hmem id hid)] at h
      rw [nodup_iff_count_le_one]
      intro id
      by_cases hid : id ∈ callIds m.content
      · exact Nat.le_of_eq (h id hid)
      · simp [count_eq_zero.mpr hid]
    · intro hor
      rcases hor with h | ⟨hnd,h⟩
      · exfalso
        apply hne
        rw [filter_eq_nil_iff]
        intro id hid
        simpa using resultCount_pos hnext (h id hid)
      · intro id hid
        rw [filter_eq_self.mpr (fun id hid => by simpa using h id hid)]
        exact count_eq_one_of_mem hnd hid

theorem closeOrphanToolCalls_paired_iff (messages : List Message) :
    ToolCallsPaired (closeOrphanToolCalls messages) ↔
      Followed (Repairable (answeredIds messages)) messages := by
  rw [ToolCallsPaired,closeOrphanToolCalls_eq,followed_insertAfter]
  apply followed_congr
  intro m _ next hnext
  rw [answeredNext_closing messages m next hnext,and_iff_left_iff_imp]
  intro _ n hn
  obtain ⟨-,-,rfl⟩ := closing_some hn
  simp [AnsweredNext]

theorem closeOrphanToolCalls_closed_iff (messages : List Message) :
    hasOrphanToolCalls (closeOrphanToolCalls messages) = false ↔
      ∀ m∈messages, m.role≠.assistant → ∀ id ∈ callIds m.content,
        id ∈ answeredIds messages ∨
          ∃ a∈messages, a.role=.assistant ∧ id ∈ callIds a.content := by
  rw [← Bool.not_eq_true,hasOrphanToolCalls_iff]
  simp only [not_exists,not_and,not_not]
  constructor
  · intro h m hm _ id hid
    rw [← mem_answeredIds_close]
    exact h m (by rw [closeOrphanToolCalls_eq]; exact mem_insertAfter.mpr (.inl hm)) id hid
  · intro h m hm id hid
    by_cases hr : m.role=.assistant
    · exact closeOrphanToolCalls_answered hm hr hid
    rw [closeOrphanToolCalls_eq] at hm
    rcases mem_insertAfter.mp hm with hm | ⟨m',-,hc⟩
    · exact mem_answeredIds_close.mpr (h m hm hr id hid)
    · obtain ⟨-,-,rfl⟩ := closing_some hc
      simp at hid

theorem ToolCallsPaired.answered (h : ToolCallsPaired messages)
    (hm : m∈messages) (hr : m.role=.assistant)
    (hid : id ∈ callIds m.content) : id ∈ answeredIds messages := by
  obtain ⟨pre,post,rfl⟩ := append_of_mem hm
  have hn := followed_split h hr id hid
  exact resultCount_pos (fun n hn => by simp [mem_of_mem_head? hn]) hn

/-- The repair meets its contract exactly on the repairable histories: a reused id or a
half-answered message defeats the one global id set it decides with. -/
theorem repairContract_iff (messages : List Message) :
    RepairContract messages ↔ RepairableHistory messages := by
  constructor
  · intro h
    exact ⟨(closeOrphanToolCalls_paired_iff messages).mp h.paired,
      (closeOrphanToolCalls_closed_iff messages).mp h.closed⟩
  · intro h
    refine ⟨(closeOrphanToolCalls_paired_iff messages).mpr h.calls,?_,?_,
      closeOrphanToolCalls_idempotent messages,
      (closeOrphanToolCalls_closed_iff messages).mpr h.strays⟩
    · rw [closeOrphanToolCalls_eq]
      exact inserted_insertAfter (fun _ _ hc => closing_isResultMessage hc) messages
    · intro hp
      exact closeOrphanToolCalls_eq_self fun m hm hr id hid => hp.answered hm hr hid

/-- A provider that numbers its calls from zero in every reply: the second `call_0`
is taken for answered and stays open. -/
def reusedIdHistory : List Message :=
  [.user "go",
    { role := .assistant, content := [.toolCall "call_0" "exec" .null] },
    { role := .user, content := [.toolResult "call_0" "done" false] },
    { role := .assistant, content := [.toolCall "call_0" "exec" .null] }]

/-- With an id used twice, the repair leaves a call without a result. -/
theorem repairContract_reusedId : ¬ RepairContract reusedIdHistory := by
  intro h
  have hp := h.paired
  revert hp
  decide

end Daimonos.Agent
