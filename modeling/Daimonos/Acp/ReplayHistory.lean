import Mathlib
import Daimonos.Agent.OrphanCalls
import Daimonos.Framework.Text

namespace Daimonos.Acp

open Agent Framework Providers List

/-- The notifications of a replay. The kind of a tool call is a function of its name and left out. -/
inductive SessionUpdate (π : Type) where
  | userMessageChunk (block : ContentBlock)
  | agentMessageChunk (block : ContentBlock)
  | agentThoughtChunk (text : String)
  | plan (entries : π)
  | toolCall (id name : String) (rawInput : Value)
  | toolCallUpdate (id : String) (failed : Bool) (content : String)
  deriving DecidableEq

structure Replay (π : Type) where
  planToolIds : List String := []
  announcedToolIds : List String := []
  sent : List (SessionUpdate π) := []

def updatePlanTool : String := "update_plan"

section Replay

variable {π : Type} (parsePlanEntries : Value → Option π)

def planEntries (name : String) (input : Value) : Option π :=
  if name=updatePlanTool then parsePlanEntries input else none

def messageChunk : Role → ContentBlock → SessionUpdate π
  | .user, block => .userMessageChunk block
  | .assistant, block => .agentMessageChunk block

/-- One block of the loop of `replay_history`; the connection takes every notification. -/
def replayBlock (role : Role) (s : Replay π) (block : ContentBlock) : Replay π :=
  match block with
  | .text _ | .image .. => { s with sent := s.sent ++ [messageChunk role block] }
  | .toolCall id name input =>
    match planEntries parsePlanEntries name input with
    | some entries =>
      { s with planToolIds := id::s.planToolIds, sent := s.sent ++ [.plan entries] }
    | none =>
      { s with
        announcedToolIds := id::s.announcedToolIds
        sent := s.sent ++ [.toolCall id name input] }
  | .toolResult id content isError =>
    if id∈s.planToolIds then s
    else if id ∉ s.announcedToolIds then s
    else
      { s with
        announcedToolIds := s.announcedToolIds.filter (· ≠ id)
        sent := s.sent ++ [.toolCallUpdate id isError content] }
  | .thinking text =>
    if role=.assistant then { s with sent := s.sent ++ [.agentThoughtChunk text] } else s
  | .providerState .. => s

def replayHistory (history : List Message) : List (SessionUpdate π) :=
  let replayMessage (s : Replay π) (m : Message) :=
    m.content.foldl (replayBlock parsePlanEntries m.role) s
  (history.foldl replayMessage {}).sent

end Replay

variable {π : Type} {parsePlanEntries : Value → Option π} {id : String}

def SessionUpdate.toolId? : SessionUpdate π → Option String
  | .toolCall id .. | .toolCallUpdate id .. => some id
  | _ => none

/-- A call that is announced, the updates that should follow it, and whether an earlier call with its
id was a plan. -/
structure Exchange (π : Type) where
  call : SessionUpdate π
  results : List (SessionUpdate π)
  planned : Bool

def resultFor? (id : String) : ContentBlock → Option (SessionUpdate π)
  | .toolResult id' content isError =>
    if id'=id then some (.toolCallUpdate id isError content) else none
  | _ => none

def callFor? (parsePlanEntries : Value → Option π) (id : String) :
    ContentBlock → Option (Option (SessionUpdate π))
  | .toolCall id' name input =>
    if id'≠id then none
    else if (planEntries parsePlanEntries name input).isSome then some none
    else some (some (.toolCall id name input))
  | _ => none

/-- The exchanges under an id, each with the results of the next message. -/
def exchanges (parsePlanEntries : Value → Option π) (id : String) :
    Bool → List Message → List (Exchange π)
  | _, [] => []
  | planned, m::rest =>
    let calls := m.content.filterMap (callFor? parsePlanEntries id)
    let results := (rest.head?.elim [] (·.content)).filterMap (resultFor? id)
    (calls.reduceOption.map fun call => ⟨call,results,planned⟩) ++
      exchanges parsePlanEntries id (planned || calls.any Option.isNone) rest

/-- Calls are made by the assistant and answered by the user's side. -/
def Sided (m : Message) : Prop :=
  match m.role with
  | .user => callIds m.content = []
  | .assistant => resultIds m.content = []

/-- What a replay knows and has sent about one id. -/
structure IdReplay (π : Type) where
  planned : Bool := false
  pending : Bool := false
  sent : List (SessionUpdate π) := []

def Replay.view (id : String) (s : Replay π) : IdReplay π where
  planned := s.planToolIds.contains id
  pending := s.announcedToolIds.contains id
  sent := s.sent.filter fun update => update.toolId? = some id

namespace IdReplay

def call (v : IdReplay π) : Option (SessionUpdate π) → IdReplay π
  | none => { v with planned := true }
  | some call => { v with pending := true, sent := v.sent ++ [call] }

def result (v : IdReplay π) (update : SessionUpdate π) : IdReplay π :=
  if v.planned || !v.pending then v else { v with pending := false, sent := v.sent ++ [update] }

def block (parsePlanEntries : Value → Option π) (id : String) (v : IdReplay π)
    (block : ContentBlock) : IdReplay π :=
  match callFor? parsePlanEntries id block, resultFor? id block with
  | some call, _ => v.call call
  | none, some update => v.result update
  | none, none => v

/-- Nothing is waited for under the id. -/
def Idle (v : IdReplay π) : Prop := v.pending=false ∨ v.planned=true

theorem Idle.foldl_result {v : IdReplay π} (h : v.Idle) (updates : List (SessionUpdate π)) :
    updates.foldl .result v = v := by
  induction updates with
  | nil => rfl
  | cons update updates ih =>
    have hkeep : v.result update = v := if_pos (by rcases h with h | h <;> simp [h])
    rw [foldl_cons,hkeep,ih]

end IdReplay

theorem view_replayBlock (role : Role) (s : Replay π) (block : ContentBlock) :
    (replayBlock parsePlanEntries role s block).view id =
      (s.view id).block parsePlanEntries id block := by
  unfold IdReplay.block
  cases block with
  | toolCall id' name input =>
    by_cases hid : id'=id
    · cases hplan : planEntries parsePlanEntries name input <;>
        simp [replayBlock,callFor?,hplan,hid,Replay.view,IdReplay.call,SessionUpdate.toolId?]
    · cases hplan : planEntries parsePlanEntries name input <;>
        simp [replayBlock,callFor?,resultFor?,hplan,hid,Ne.symm hid,Replay.view,
          SessionUpdate.toolId?]
  | toolResult id' =>
    simp only [replayBlock,callFor?,resultFor?,IdReplay.result]
    by_cases hid : id'=id
    · split_ifs with hplan hknown <;> simp_all [Replay.view,SessionUpdate.toolId?]
    · split_ifs <;> simp [hid,Ne.symm hid,Replay.view,SessionUpdate.toolId?]
  | _ =>
    cases role <;>
      simp [replayBlock,Replay.view,messageChunk,SessionUpdate.toolId?,callFor?,resultFor?]

theorem Sided.foldl_block {m : Message} (h : Sided m) (id : String) (v : IdReplay π) :
    m.content.foldl (IdReplay.block parsePlanEntries id) v =
      (m.content.filterMap (resultFor? id)).foldl .result
        ((m.content.filterMap (callFor? parsePlanEntries id)).foldl .call v) := by
  unfold Sided at h
  split at h
  · have hnone : m.content.filterMap (callFor? parsePlanEntries id) = [] := by
      refine filterMap_eq_nil_iff.mpr fun b hb => ?_
      have hcall := filterMap_eq_nil_iff.mp h b hb
      cases b <;> first | rfl | cases hcall
    rw [hnone,foldl_nil,foldl_filterMap]
    refine foldl_ext _ _ _ fun v b hb => ?_
    have hcall := filterMap_eq_nil_iff.mp hnone b hb
    simp only [IdReplay.block,hcall]
    cases resultFor? id b <;> rfl
  · have hnone : m.content.filterMap (resultFor? (π := π) id) = [] := by
      refine filterMap_eq_nil_iff.mpr fun b hb => ?_
      have hresult := filterMap_eq_nil_iff.mp h b hb
      cases b <;> first | rfl | cases hresult
    rw [hnone,foldl_nil,foldl_filterMap]
    refine foldl_ext _ _ _ fun v b hb => ?_
    have hresult := filterMap_eq_nil_iff.mp hnone b hb
    simp only [IdReplay.block,hresult]
    cases callFor? parsePlanEntries id b <;> rfl

/-- Every call of the history has one result in the next message. -/
structure Answered (history : List Message) : Prop where
  sided : ∀ m∈history, Sided m
  distinct : ∀ m∈history, (callIds m.content).Nodup
  paired : ToolCallsPaired history

theorem Answered.tail {m : Message} {rest : List Message} (h : Answered (m::rest)) :
    Answered rest :=
  ⟨fun n hn => h.sided n (mem_cons_of_mem m hn),
    fun n hn => h.distinct n (mem_cons_of_mem m hn),h.paired.2⟩

theorem length_filterMap_eq_count {α β : Type} {f : α → Option β} {g : α → Option String}
    (h : ∀ b, (f b).isSome = true ↔ g b = some id) (l : List α) :
    (l.filterMap f).length = (l.filterMap g).count id := by
  induction l with
  | nil => rfl
  | cons b l ih =>
    have hb := h b
    cases hf : f b <;> cases hg : g b <;> simp_all

open ContentBlock

theorem length_callFor (parsePlanEntries : Value → Option π) (id : String)
    (content : List ContentBlock) :
    (content.filterMap (callFor? parsePlanEntries id)).length = (callIds content).count id := by
  refine length_filterMap_eq_count (fun b => ?_) content
  cases b with
  | toolCall id' name input =>
    by_cases hid : id'=id <;> cases hplan : planEntries parsePlanEntries name input <;>
      simp [callFor?,callId?,hid,hplan]
  | _ => simp [callFor?,callId?]

theorem length_resultFor (π : Type) (id : String) (content : List ContentBlock) :
    (content.filterMap (resultFor? (π := π) id)).length = (resultIds content).count id := by
  refine length_filterMap_eq_count (fun b => ?_) content
  cases b with
  | toolResult id' =>
    by_cases hid : id'=id <;> simp [resultFor?,resultId?,hid]
  | _ => simp [resultFor?,resultId?]

def Exchange.observed (e : Exchange π) : List (SessionUpdate π) :=
  e.call :: if e.planned then [] else e.results

theorem Answered.next {m : Message} {rest : List Message} (h : Answered (m::rest))
    (hcall : id ∈ callIds m.content) :
    resultIds m.content = [] ∧ ∃ n rest', rest=n::rest' ∧ callIds n.content = [] ∧
      (resultIds n.content).count id = 1 := by
  have hrole : m.role=.assistant := by
    have hsided := h.sided m mem_cons_self
    unfold Sided at hsided
    split at hsided
    · rw [hsided] at hcall
      cases hcall
    · assumption
  refine ⟨by simpa [Sided,hrole] using h.sided m mem_cons_self,?_⟩
  have hcount := h.paired.1 hrole id hcall
  cases rest with
  | nil => cases hcount
  | cons n rest' =>
    refine ⟨n,rest',rfl,?_,hcount⟩
    have hsided := h.sided n (mem_cons_of_mem m mem_cons_self)
    unfold Sided at hsided
    split at hsided
    · exact hsided
    · rw [head?_cons,resultCount,hsided] at hcount
      cases hcount

theorem foldl_exchanges {history : List Message} (h : Answered history) {v : IdReplay π}
    (hidle : v.Idle) :
    (history.foldl (fun v m => m.content.foldl (IdReplay.block parsePlanEntries id) v) v).sent =
      v.sent ++ (exchanges parsePlanEntries id v.planned history).flatMap Exchange.observed := by
  induction history generalizing v with
  | nil => simp [exchanges]
  | cons m rest ih =>
    have hrest := h.tail
    have hcalls := length_callFor parsePlanEntries id m.content
    have hone := nodup_iff_count_le_one.mp (h.distinct m mem_cons_self) id
    rw [foldl_cons,(h.sided m mem_cons_self).foldl_block,exchanges]
    generalize m.content.filterMap (callFor? parsePlanEntries id) = calls at hcalls ⊢
    cases calls with
    | nil =>
      rw [foldl_nil,hidle.foldl_result,ih hrest hidle]
      simp
    | cons call calls =>
      obtain rfl : calls = [] := length_eq_zero_iff.mp (by rw [length_cons] at hcalls; omega)
      obtain ⟨hnone,n,rest',rfl,hplain,hcount⟩ :=
        h.next (count_pos_iff.mp (hcalls.symm.trans_gt Nat.one_pos))
      have hown : m.content.filterMap (resultFor? (π := π) id) = [] :=
        length_eq_zero_iff.mp (by rw [length_resultFor,hnone]; rfl)
      obtain ⟨update,hupdate⟩ : ∃ update, n.content.filterMap (resultFor? (π := π) id) = [update] :=
        length_eq_one_iff.mp ((length_resultFor π id n.content).trans hcount)
      simp only [hown,hupdate,head?_cons,Option.elim_some,foldl_cons,foldl_nil]
      cases call with
      | none =>
        rw [← foldl_cons,ih hrest (.inr rfl)]
        simp [IdReplay.call]
      | some call =>
        cases hplanned : v.planned with
        | true =>
          have hstill : (v.call (some call)).Idle := .inr hplanned
          rw [← foldl_cons,ih hrest hstill]
          simp [IdReplay.call,hplanned,Exchange.observed]
        | false =>
          have hnext : ∀ w : IdReplay π,
              n.content.foldl (IdReplay.block parsePlanEntries id) w = w.result update := by
            intro w
            have hno : n.content.filterMap (callFor? parsePlanEntries id) = [] :=
              length_eq_zero_iff.mp (by rw [length_callFor,hplain]; rfl)
            rw [(hrest.sided n mem_cons_self).foldl_block,hno,hupdate]
            rfl
          -- the result is taken once: passing the message again changes nothing
          have htaken : (v.call (some call)).result update =
              { v with pending := false, sent := v.sent ++ [call] ++ [update] } := by
            simp [IdReplay.result,IdReplay.call,hplanned]
          have hdone := ih hrest (v := (v.call (some call)).result update) (by
            rw [htaken]
            exact .inl rfl)
          rw [foldl_cons,hnext,htaken,IdReplay.result,if_pos (by simp)] at hdone
          rw [hnext,htaken,hdone]
          simp [hplanned,Exchange.observed]

theorem flatMap_observed_iff {l : List (Exchange π)} (h : ∀ e∈l, ∃ update, e.results = [update]) :
    l.flatMap Exchange.observed = l.flatMap (fun e => e.call::e.results) ↔
      ∀ e∈l, e.planned=false := by
  have hle : ∀ l : List (Exchange π), (l.flatMap Exchange.observed).length ≤
      (l.flatMap fun e => e.call::e.results).length := by
    intro l
    rw [length_flatMap,length_flatMap]
    refine sum_le_sum fun e _ => ?_
    cases hplanned : e.planned <;> simp [Exchange.observed,hplanned]
  induction l with
  | nil => simp
  | cons e l ih =>
    obtain ⟨update,hresults⟩ := h e mem_cons_self
    have hrest := ih fun d hd => h d (mem_cons_of_mem e hd)
    cases hplanned : e.planned with
    | false => simp [Exchange.observed,hplanned,hrest]
    | true =>
      refine iff_of_false (fun heq => ?_) fun hall => ?_
      · have hlength := congrArg List.length heq
        simp only [flatMap_cons,Exchange.observed,hplanned,hresults,if_true,
          length_append,length_cons,length_nil] at hlength
        have hless := hle l
        omega
      · exact absurd (hall e mem_cons_self) (by simp [hplanned])

theorem results_of_mem_exchanges {history : List Message} (h : Answered history) {planned : Bool}
    {e : Exchange π} (he : e ∈ exchanges parsePlanEntries id planned history) :
    ∃ update, e.results = [update] := by
  induction history generalizing planned with
  | nil => cases he
  | cons m rest ih =>
    rcases mem_append.mp he with he | he
    · obtain ⟨call,hcall,rfl⟩ := mem_map.mp he
      have hmem : id ∈ callIds m.content := by
        have hlength := length_callFor parsePlanEntries id m.content
        rw [reduceOption_mem_iff] at hcall
        exact count_pos_iff.mp (hlength ▸ length_pos_of_mem hcall)
      obtain ⟨-,n,rest',rfl,-,hcount⟩ := h.next hmem
      exact length_eq_one_iff.mp ((length_resultFor π id n.content).trans hcount)
    · exact ih h.tail he

/-- Every call that is no plan is announced, and followed by its own result, exactly if none has the
id of an earlier plan. -/
theorem replayHistory_iff (parsePlanEntries : Value → Option π) {history : List Message}
    (h : Answered history) :
    (∀ id, ∀ e ∈ exchanges parsePlanEntries id false history, ∃ update, e.results = [update]) ∧
    ((∀ id, (replayHistory parsePlanEntries history).filter (fun u => u.toolId? = some id) =
        (exchanges parsePlanEntries id false history).flatMap fun e => e.call::e.results) ↔
      ∀ id, ∀ e ∈ exchanges parsePlanEntries id false history, e.planned=false) := by
  refine ⟨fun id e he => results_of_mem_exchanges h he,forall_congr' fun id => ?_⟩
  have hview : ∀ s : Replay π, (history.foldl (fun s m =>
      m.content.foldl (replayBlock parsePlanEntries m.role) s) s).view id =
      history.foldl (fun v m => m.content.foldl (IdReplay.block parsePlanEntries id) v)
        (s.view id) := by
    intro s
    refine (foldl_hom (Replay.view id) fun s m => ?_).symm
    exact foldl_hom (Replay.view id) fun s b => (view_replayBlock m.role s b).symm
  have hsent : (replayHistory parsePlanEntries history).filter (fun u => u.toolId? = some id) =
      (exchanges parsePlanEntries id false history).flatMap Exchange.observed := by
    have hstart := congrArg IdReplay.sent (hview {})
    exact hstart.trans (foldl_exchanges h (.inl rfl))
  rw [hsent]
  exact flatMap_observed_iff fun e he => results_of_mem_exchanges h he

inductive PlanPriority where
  | high
  | medium
  | low
  deriving DecidableEq

inductive PlanStatus where
  | pending
  | inProgress
  | completed
  deriving DecidableEq

structure PlanEntry where
  content : String
  priority : PlanPriority
  status : PlanStatus
  deriving DecidableEq

/-- The fields of a derived `Deserialize`, which takes a struct by name or by position. -/
def structFields (names : List String) : Value → Option (List Value)
  | .array items => if items.length=names.length then some items else none
  | value => names.mapM value.get?

/-- The variant that a derived `Deserialize` reads: its name, or an object of its name and null. -/
def variantName? : Value → Option String
  | .string name => some name
  | .object [(name, .null)] => some name
  | _ => none

def PlanPriority.fromValue (value : Value) : Option PlanPriority :=
  (variantName? value).bind fun name => [("high", high), ("medium", medium), ("low", low)].lookup name

def PlanStatus.fromValue (value : Value) : Option PlanStatus :=
  (variantName? value).bind fun name =>
    [("pending", pending), ("in_progress", inProgress), ("completed", completed)].lookup name

def trim (text : String) : String :=
  String.ofList ((text.toList.dropWhile isWhitespace).reverse.dropWhile isWhitespace).reverse

def PlanEntry.fromValue (value : Value) : Option PlanEntry := do
  let [.string content, priority, status] ← structFields ["content", "priority", "status"] value
    | none
  some ⟨content,← PlanPriority.fromValue priority,← PlanStatus.fromValue status⟩

/-- `parse_plan_entries` of the agent, without the texts of its errors. -/
def agentPlanEntries (input : Value) : Option (List PlanEntry) := do
  let [.array entries] ← structFields ["entries"] input | none
  (← entries.mapM PlanEntry.fromValue).mapM fun entry =>
    let content := trim entry.content
    if content.isEmpty then none else some { entry with content }

/-- The plan with no entries: the tool input `{"entries": []}`. -/
def noEntries : Value := .object [("entries", .array [])]

def reusedId (first second : String) : List Message :=
  [⟨.assistant,[.toolCall "call_0" first noEntries],.session⟩,
    ⟨.user,[.toolResult "call_0" "ok" false],.session⟩,
    ⟨.assistant,[.toolCall "call_0" second noEntries],.session⟩,
    ⟨.user,[.toolResult "call_0" "listed" false],.session⟩]

theorem answered_reusedId (first second : String) : Answered (reusedId first second) := by
  refine ⟨?_,?_,?_⟩
  · simp [reusedId,Sided,callIds,resultIds,callId?,resultId?]
  · simp [reusedId,callIds,filterMap_cons,callId?]
  · simp [reusedId,ToolCallsPaired,AnsweredNext,resultCount,callIds,resultIds,
      callId?,resultId?]

/-- One id for two calls, each answered in the message after it. -/
theorem replayHistory_iff_reused : ∃ history, Answered history ∧
    (exchanges agentPlanEntries "call_0" false history).length = 2 ∧
    ∀ e ∈ exchanges agentPlanEntries "call_0" false history, ∃ update, e.results = [update] :=
  ⟨reusedId "ls" "exec",answered_reusedId _ _,by decide,
    (replayHistory_iff agentPlanEntries (answered_reusedId "ls" "exec")).1 "call_0"⟩

/-- A call with the id of an earlier plan is announced and never ends. -/
theorem planned_id_unanswered : ∃ history, Answered history ∧
    (replayHistory agentPlanEntries history).filter (fun u => u.toolId? = some "call_0") =
      [.toolCall "call_0" "exec" noEntries] ∧
    (exchanges agentPlanEntries "call_0" false history).flatMap (fun e => e.call::e.results) =
      [.toolCall "call_0" "exec" noEntries, .toolCallUpdate "call_0" false "listed"] :=
  ⟨reusedId updatePlanTool "exec",answered_reusedId _ _,by decide,by decide⟩

end Daimonos.Acp
