import Daimonos.Framework.Keyed
import Daimonos.Safety
import Daimonos.Session.ApprovalBroker

namespace Daimonos.Session

open Framework List

structure ToolCallInfo where
  id : String
  name : String

inductive BeforeHookResult where
  | allow
  | block (reason : String)

def BeforeHookResult.isBlock : BeforeHookResult → Bool
  | .allow => false
  | .block _ => true

def truncationMarker : String := "\n[tool output truncated]"

def takeBytes : Nat → List Char → List Char
  | _, [] => []
  | budget, c::rest =>
    if c.utf8Size≤budget then c :: takeBytes (budget-c.utf8Size) rest else []

def boundedToolOutput (output : String) (maxBytes : Nat) : String :=
  if output.utf8ByteSize ≤ maxBytes then output
  else
    let bounded := takeBytes (maxBytes - truncationMarker.utf8ByteSize) output.toList
    if maxBytes ≥ truncationMarker.utf8ByteSize then .ofList (bounded ++ truncationMarker.toList)
    else .ofList (bounded ++ takeBytes maxBytes truncationMarker.toList)

def approvalDenialReason (tool : String) (resolution : ApprovalResolution) : String :=
  match resolution.resolvedBy with
  | "acp_cancelled" => "permission request cancelled for '" ++ tool ++ "'"
  | "acp_unrecognized" => "unrecognized permission outcome for '" ++ tool ++ "'"
  | "acp_request_failed" | "acp_unavailable" | "acp_spawn_failed" =>
    "permission request failed for '" ++ tool ++ "'"
  | "broker_closed" => "permission broker closed for '" ++ tool ++ "'"
  | "resolution_failed" => "permission resolution failed for '" ++ tool ++ "'"
  | _ => "permission denied for '" ++ tool ++ "'"

/-- What `authorize_reserved` makes of the outcome of `request_approval`. -/
def approvalOutcome (info : ToolCallInfo) (safety : SafetyPolicy) :
    Except ApprovalRequestError ApprovalResolution → BeforeHookResult × SafetyPolicy
  | .ok resolution =>
    match resolution.decision with
    | .allowOnce => (.allow, safety)
    | .allowAlways => (.allow, safety.rememberAlways info.name)
    | .deny => (.block (approvalDenialReason info.name resolution), safety)
  | .error _ => (.block ("permission broker unavailable for '" ++ info.name ++ "'"), safety)

inductive Ending where
  | finished (isError : Bool) (output : String)
  | blocked
  | cancelled
  deriving DecidableEq

/-- Where one lifecycle operation stands. `call` numbers the admission an event is for. -/
inductive ToolTask where
  | starting (call : Nat) (info : ToolCallInfo)
  | authorizing (info : ToolCallInfo)
  | awaitingApproval (info : ToolCallInfo)
  | decided (info : ToolCallInfo) (decision : BeforeHookResult)
  | blocking (info : ToolCallInfo)
  | finishing (call : Nat) (id : String) (status : ToolCallStateStatus) (output : String)
  | cancelling (updated : Bool) (remaining : List (String × Nat))
  | done

/-- The lifecycle, its operations in progress, every call admitted so far, how the ended ones
ended, and the event stream. An event that starts or finishes a call carries its number. -/
structure ToolLifecycle where
  safety : SafetyPolicy
  maxActiveTools : Nat
  maxOutputBytes : Option Nat
  active : List (String × Nat) := []
  calls : List ToolCallInfo := []
  endings : List (Nat × Ending) := []
  tasks : List ToolTask := []
  stream : List (Option Nat × SessionEvent) := []

inductive ToolAction where
  | reserve (info : ToolCallInfo)
  | authorize (info : ToolCallInfo)
  | finish (info : ToolCallInfo) (output : String) (isError : Bool)
  | cancelAll
  | publish (event : SessionEvent)
  | run (task : Nat) (answer : Except ApprovalRequestError ApprovalResolution)

def startedEvent (info : ToolCallInfo) : SessionEvent :=
  .toolCallStarted info.id info.name info.name none

def finishStatus (isError : Bool) : ToolCallStateStatus := if isError then .failed else .completed

namespace ToolLifecycle

def newWithOutputLimit (safety : SafetyPolicy) (maxActiveTools maxOutputBytes : Nat) :
    ToolLifecycle :=
  { safety, maxActiveTools := max maxActiveTools 1, maxOutputBytes := some (max maxOutputBytes 16) }

/-- Every emission is recorded: the `u64` sequence of the events is taken not to run out. -/
def emit (call : Option Nat) (event : SessionEvent) (l : ToolLifecycle) : ToolLifecycle :=
  { l with stream := l.stream ++ [(call, event)] }

def setTask (i : Nat) (task : ToolTask) (l : ToolLifecycle) : ToolLifecycle :=
  { l with tasks := l.tasks.set i task }

def addTask (task : ToolTask) (l : ToolLifecycle) : ToolLifecycle :=
  { l with tasks := l.tasks ++ [task] }

def projectOutput (output : String) (l : ToolLifecycle) : String :=
  l.maxOutputBytes.elim output (boundedToolOutput output)

def reserveLocked (info : ToolCallInfo) (l : ToolLifecycle) : Except String (Nat × ToolLifecycle) :=
  if info.id ∈ l.active.map Prod.fst then
    .error ("tool call '" ++ info.id ++ "' is already active")
  else if l.active.length ≥ l.maxActiveTools then
    .error ("active tool-call limit (" ++ toString l.maxActiveTools ++ ") reached")
  else
    let call := l.calls.length
    .ok (call, { l with active := l.active ++ [(info.id, call)], calls := l.calls ++ [info] })

variable {call : Nat}

theorem of_reserveLocked_eq_ok {info : ToolCallInfo} {l l' : ToolLifecycle}
    (h : l.reserveLocked info = .ok (call, l')) : info.id ∉ l.active.map Prod.fst ∧
      l.active.length < l.maxActiveTools ∧ call=l.calls.length ∧
      l' = { l with active := l.active ++ [(info.id, call)], calls := l.calls ++ [info] } := by
  unfold reserveLocked at h
  split_ifs at h with hdup hfull
  cases h
  exact ⟨hdup,Nat.lt_of_not_le hfull,rfl,rfl⟩

def reserve (info : ToolCallInfo) (l : ToolLifecycle) : Except String Unit × ToolLifecycle :=
  match l.reserveLocked info with
  | .error reason => (.error reason, l)
  | .ok (call, l) => (.ok (), l.addTask (.starting call info))

/-- The call an id stands for while it is active. -/
def activeCall (id : String) (l : ToolLifecycle) : Option Nat :=
  (l.active.find? fun c => decide (c.1=id)).map Prod.snd

/-- The locked part of `finish`: the caller that removes the id owns its terminal event. -/
def claim (id : String) (ending : Ending) (l : ToolLifecycle) : Option (Nat × ToolLifecycle) :=
  (l.activeCall id).map fun call =>
    (call, { l with active := removeKey id l.active, endings := l.endings ++ [(call, ending)] })

theorem mem_of_activeCall {id : String} {l : ToolLifecycle}
    (h : l.activeCall id = some call) : (id, call) ∈ l.active := by
  obtain ⟨c,hc,rfl⟩ := Option.map_eq_some_iff.mp h
  have hid := find?_some hc
  obtain rfl : c.1=id := of_decide_eq_true hid
  exact mem_of_find?_eq_some hc

theorem of_claim_eq_some {id : String} {ending : Ending} {l l' : ToolLifecycle}
    (h : l.claim id ending = some (call, l')) : (id, call) ∈ l.active ∧
      l' = { l with active := removeKey id l.active, endings := l.endings ++ [(call, ending)] } := by
  obtain ⟨call',hcall,heq⟩ := Option.map_eq_some_iff.mp h
  obtain ⟨rfl,rfl⟩ := Prod.mk.inj heq
  exact ⟨mem_of_activeCall hcall,rfl⟩

def finish (info : ToolCallInfo) (output : String) (isError : Bool) (l : ToolLifecycle) :
    Bool × ToolLifecycle :=
  let output := l.projectOutput output
  match l.claim info.id (.finished isError output) with
  | none => (false, l)
  | some (call, l) => (true, l.addTask (.finishing call info.id (finishStatus isError) output))

def drain (l : ToolLifecycle) : List (String × Nat) × ToolLifecycle :=
  (l.active.insertionSort fun x y => x.1≤y.1,
    { l with
      active := []
      endings := l.endings ++ l.active.map fun c => (c.2, .cancelled) })

def cancelAll (l : ToolLifecycle) : ToolLifecycle :=
  let (ids, l) := l.drain
  l.addTask (.cancelling false ids)

def runTask (i : Nat) (answer : Except ApprovalRequestError ApprovalResolution)
    (l : ToolLifecycle) : ToolTask → Option ToolLifecycle
  | .starting call info => some ((l.emit (some call) (startedEvent info)).setTask i .done)
  | .authorizing info =>
    match l.safety.gate info.name with
    | .needsApproval => some (l.setTask i (.awaitingApproval info))
    | .allow => some (l.setTask i (.decided info .allow))
    | .block reason => some (l.setTask i (.decided info (.block reason)))
  | .awaitingApproval info =>
    let (decision, safety) := approvalOutcome info l.safety answer
    some ({ l with safety }.setTask i (.decided info decision))
  | .decided info decision =>
    let status := if decision.isBlock then .failed else .inProgress
    some ((l.emit none (.toolCallUpdated info.id status)).setTask i
      (if decision.isBlock then .blocking info else .done))
  | .blocking info =>
    match l.claim info.id .blocked with
    | none => some (l.setTask i .done)
    | some (call, l) =>
      some (l.setTask i (.finishing call info.id (finishStatus true) (l.projectOutput "blocked")))
  | .finishing call id status output =>
    some ((l.emit (some call) (.toolCallFinished id status output)).setTask i .done)
  | .cancelling false ((id, call) :: rest) =>
    some ((l.emit none (.toolCallUpdated id .cancelled)).setTask i
      (.cancelling true ((id, call) :: rest)))
  | .cancelling true ((id, call) :: rest) =>
    some ((l.emit (some call) (.toolCallFinished id .cancelled "cancelled")).setTask i
      (.cancelling false rest))
  | .cancelling _ [] | .done => none

def step (l : ToolLifecycle) : ToolAction → Option ToolLifecycle
  | .reserve info => some (l.reserve info).2
  | .authorize info => some (l.addTask (.authorizing info))
  | .finish info output isError => some (l.finish info output isError).2
  | .cancelAll => some l.cancelAll
  | .publish event => if event.isToolCall then none else some (l.emit none event)
  | .run i answer => (l.tasks[i]?).bind (l.runTask i answer)

def system (safety : SafetyPolicy) (maxActiveTools maxOutputBytes : Nat) :
    System ToolLifecycle ToolAction :=
  { init := newWithOutputLimit safety maxActiveTools maxOutputBytes, step }

end ToolLifecycle

def SessionEvent.toolCallId : SessionEvent → Option String
  | .toolCallStarted id _ _ _ | .toolCallUpdated id _ | .toolCallFinished id _ _ => some id
  | _ => none

def SessionEvent.isEndpoint : SessionEvent → Bool
  | .toolCallStarted .. | .toolCallFinished .. => true
  | _ => false

def isStart (call : Nat) : Option Nat × SessionEvent → Bool
  | (some k, .toolCallStarted ..) => decide (k=call)
  | _ => false

def isFinish (call : Nat) : Option Nat × SessionEvent → Bool
  | (some k, .toolCallFinished ..) => decide (k=call)
  | _ => false

/-- An event for a call carries the id the call was admitted under, and only events for a call
start or finish one. -/
def EventTied (calls : List ToolCallInfo) : Option Nat × SessionEvent → Prop
  | (some call, event) => ∃ info, calls[call]? = some info ∧ event.toolCallId = some info.id
  | (none, event) => event.isEndpoint=false

namespace ToolTask

def starts (call : Nat) : ToolTask → Nat
  | .starting k _ => if k=call then 1 else 0
  | _ => 0

def finishes (call : Nat) : ToolTask → Nat
  | .finishing k _ _ _ => if k=call then 1 else 0
  | .cancelling _ remaining => remaining.countP fun c => decide (c.2=call)
  | _ => 0

/-- The calls a task has outstanding events for carry the ids they were admitted under. -/
def Tied (calls : List ToolCallInfo) : ToolTask → Prop
  | .starting k info => calls[k]? = some info
  | .finishing k id _ _ => ∃ info, calls[k]? = some info ∧ info.id=id
  | .cancelling _ remaining => ∀ c∈remaining, ∃ info, calls[c.2]? = some info ∧ info.id=c.1
  | _ => True

end ToolTask

theorem getElem?_append_of_some {α : Type} {l : List α} {i : Nat} {a : α} (h : l[i]? = some a)
    (b : α) : (l ++ [b])[i]? = some a := by
  rw [List.getElem?_append_left (List.getElem?_eq_some_iff.mp h).1,h]

theorem ToolTask.Tied.append {calls : List ToolCallInfo} {task : ToolTask} (h : task.Tied calls)
    (info : ToolCallInfo) : task.Tied (calls ++ [info]) := by
  cases task with
  | starting => exact getElem?_append_of_some h info
  | finishing =>
    obtain ⟨info',hk,hid⟩ := h
    exact ⟨info',getElem?_append_of_some hk info,hid⟩
  | cancelling =>
    intro c hc
    obtain ⟨info',hk,hid⟩ := h c hc
    exact ⟨info',getElem?_append_of_some hk info,hid⟩
  | authorizing | awaitingApproval | decided | blocking | done => exact trivial

theorem EventTied.append {calls : List ToolCallInfo} {e : Option Nat × SessionEvent}
    (h : EventTied calls e) (info : ToolCallInfo) : EventTied (calls ++ [info]) e := by
  obtain ⟨call,event⟩ := e
  cases call with
  | none => exact h
  | some k =>
    obtain ⟨info',hk,hid⟩ := h
    exact ⟨info',getElem?_append_of_some hk info,hid⟩

namespace ToolLifecycle

/-- Each admitted call is in exactly one place on its way to either event. -/
structure Balanced (l : ToolLifecycle) : Prop where
  starts : ∀ call, l.stream.countP (isStart call) + total (ToolTask.starts call) l.tasks =
    if call < l.calls.length then 1 else 0
  finishes : ∀ call, l.stream.countP (isFinish call) + total (ToolTask.finishes call) l.tasks +
    l.active.countP (fun c => decide (c.2=call)) = if call < l.calls.length then 1 else 0
  distinct : (l.active.map Prod.fst).Nodup
  bounded : l.active.length ≤ l.maxActiveTools
  active : ∀ c∈l.active, ∃ info, l.calls[c.2]? = some info ∧ info.id=c.1
  tasks : ∀ task∈l.tasks, task.Tied l.calls
  stream : ∀ e∈l.stream, EventTied l.calls e

namespace Balanced

variable {l : ToolLifecycle} {task : ToolTask} {i : Nat}

theorem advance {task' : ToolTask} (h : Balanced l)
    (hi : l.tasks[i]? = some task) (safety : SafetyPolicy)
    (events : List (Option Nat × SessionEvent))
    (hstarts : ∀ call, events.countP (isStart call) + task'.starts call = task.starts call)
    (hfinishes : ∀ call, events.countP (isFinish call) + task'.finishes call = task.finishes call)
    (htied : task'.Tied l.calls) (hevents : ∀ e∈events, EventTied l.calls e) :
    Balanced { l with safety, tasks := l.tasks.set i task', stream := l.stream++events } := by
  refine ⟨fun call => ?_,fun call => ?_,h.distinct,h.bounded,h.active,?_,?_⟩
  · have hset := total_set (ToolTask.starts call) hi task'
    have hold := h.starts call
    have hmove := hstarts call
    simp only [countP_append]
    omega
  · have hset := total_set (ToolTask.finishes call) hi task'
    have hold := h.finishes call
    have hmove := hfinishes call
    simp only [countP_append]
    omega
  · intro t ht
    rcases mem_or_eq_of_mem_set ht with hold | rfl
    · exact h.tasks t hold
    · exact htied
  · intro e he
    rcases mem_append.mp he with hold | hnew
    · exact h.stream e hold
    · exact hevents e hnew

theorem quiet {task' : ToolTask} (h : Balanced l)
    (hi : l.tasks[i]? = some task) (safety : SafetyPolicy)
    (hstarts : ∀ call, task'.starts call = task.starts call)
    (hfinishes : ∀ call, task'.finishes call = task.finishes call) (htied : task'.Tied l.calls) :
    Balanced { l with safety, tasks := l.tasks.set i task' } := by
  have hadvance := h.advance hi safety [] (by simpa using hstarts) (by simpa using hfinishes) htied
    (by simp)
  rwa [append_nil] at hadvance

theorem claim {l₁ : ToolLifecycle} {id : String} {ending : Ending} {call : Nat}
    {tasks : List ToolTask} (h : Balanced l) (hclaim : l.claim id ending = some (call, l₁))
    (hstarts : ∀ k, total (ToolTask.starts k) tasks = total (ToolTask.starts k) l.tasks)
    (hfinishes : ∀ k, total (ToolTask.finishes k) tasks =
      total (ToolTask.finishes k) l.tasks + if call=k then 1 else 0)
    (htied : ∀ t∈tasks, t∈l.tasks ∨
      ((∃ info, l.calls[call]? = some info ∧ info.id=id) → t.Tied l.calls)) :
    Balanced { l₁ with tasks } := by
  obtain ⟨hmem,rfl⟩ := of_claim_eq_some hclaim
  refine ⟨fun k => ?_,fun k => ?_,nodup_removeKey h.distinct,?_,?_,?_,h.stream⟩
  · rw [← h.starts k,← hstarts k]
  · have hremove := countP_removeKey h.distinct hmem fun c => decide (c.2=k)
    have hold := h.finishes k
    have hmove := hfinishes k
    simp only [decide_eq_true_eq] at hremove
    simp only
    omega
  · exact (length_removeKey_le id l.active).trans h.bounded
  · intro c hc
    exact h.active c (mem_removeKey.mp hc).1
  · intro t ht
    rcases htied t ht with hold | hnew
    · exact h.tasks t hold
    · exact hnew (h.active _ hmem)

theorem reserve (h : Balanced l) (info : ToolCallInfo) :
    Balanced (l.reserve info).2 := by
  unfold ToolLifecycle.reserve
  split
  · exact h
  next call l' hreserve =>
    obtain ⟨hdup,hroom,rfl,rfl⟩ := of_reserveLocked_eq_ok hreserve
    have hnew : (l.calls ++ [info])[l.calls.length]? = some info := by simp
    refine ⟨fun call => ?_,fun call => ?_,?_,?_,?_,?_,?_⟩
    · have hold := h.starts call
      simp only [ToolLifecycle.addTask,total_append,total_cons,total_nil,ToolTask.starts,
        length_append,length_singleton]
      split_ifs at hold ⊢ <;> omega
    · have hold := h.finishes call
      simp only [ToolLifecycle.addTask,total_append,total_cons,total_nil,ToolTask.finishes,
        countP_append,countP_singleton,decide_eq_true_eq,length_append,length_singleton]
      split_ifs at hold ⊢ <;> omega
    · simp only [ToolLifecycle.addTask,map_append,map_singleton]
      exact h.distinct.append (nodup_singleton _) (by simpa using hdup)
    · simp only [ToolLifecycle.addTask,length_append,length_singleton]
      omega
    · intro c hc
      rcases mem_append.mp hc with hold | hlast
      · obtain ⟨info',hk,hid⟩ := h.active c hold
        exact ⟨info',getElem?_append_of_some hk info,hid⟩
      · rw [mem_singleton.mp hlast]
        exact ⟨info,hnew,rfl⟩
    · intro t ht
      rcases mem_append.mp ht with hold | hlast
      · exact (h.tasks t hold).append info
      · rw [mem_singleton.mp hlast]
        exact hnew
    · intro e he
      exact (h.stream e he).append info

theorem finish (h : Balanced l) (info : ToolCallInfo) (output : String)
    (isError : Bool) : Balanced (l.finish info output isError).2 := by
  unfold ToolLifecycle.finish
  dsimp only
  split
  · exact h
  next call l₁ hclaim =>
    obtain ⟨hmem,rfl⟩ := of_claim_eq_some hclaim
    refine h.claim hclaim (fun k => ?_) (fun k => ?_) fun t ht => ?_
    · simp [ToolTask.starts]
    · simp [ToolTask.finishes]
    · rcases mem_append.mp ht with hold | hlast
      · exact Or.inl hold
      · rw [mem_singleton.mp hlast]
        exact Or.inr id

theorem cancelAll (h : Balanced l) : Balanced l.cancelAll := by
  have hperm := perm_insertionSort (fun x y : String × Nat => x.1≤y.1) l.active
  refine ⟨fun k => ?_,fun k => ?_,nodup_nil,Nat.zero_le _,?_,?_,h.stream⟩
  · rw [show l.cancelAll.calls=l.calls from rfl,← h.starts k]
    simp [ToolLifecycle.cancelAll,ToolLifecycle.drain,ToolLifecycle.addTask,ToolTask.starts]
  · rw [show l.cancelAll.calls=l.calls from rfl,← h.finishes k]
    have hcount := hperm.countP_eq fun c => decide (c.2=k)
    simp only [ToolLifecycle.cancelAll,ToolLifecycle.drain,ToolLifecycle.addTask,total_append,
      total_cons,total_nil,ToolTask.finishes,countP_nil]
    omega
  · intro c hc
    cases hc
  · intro t ht
    rcases mem_append.mp ht with hold | hlast
    · exact h.tasks t hold
    · rw [mem_singleton.mp hlast]
      exact fun c hc => h.active c (hperm.mem_iff.mp hc)

theorem addTask (h : Balanced l)
    (hstarts : ∀ k, task.starts k = 0) (hfinishes : ∀ k, task.finishes k = 0)
    (htied : task.Tied l.calls) : Balanced (l.addTask task) := by
  refine ⟨fun k => ?_,fun k => ?_,h.distinct,h.bounded,h.active,?_,h.stream⟩
  · rw [show (l.addTask task).calls = l.calls from rfl,← h.starts k]
    simp [ToolLifecycle.addTask,hstarts]
  · rw [show (l.addTask task).calls = l.calls from rfl,← h.finishes k]
    simp [ToolLifecycle.addTask,hfinishes]
  · intro t ht
    rcases mem_append.mp ht with hold | hlast
    · exact h.tasks t hold
    · rw [mem_singleton.mp hlast]
      exact htied

open ToolLifecycle

theorem runTask {l' : ToolLifecycle}
    {answer : Except ApprovalRequestError ApprovalResolution} (h : Balanced l)
    (hi : l.tasks[i]? = some task) (hs : l.runTask i answer task = some l') : Balanced l' := by
  have htied := h.tasks task (mem_of_getElem? hi)
  cases task with
  | starting call info =>
    cases hs
    refine h.advance hi l.safety [(some call, startedEvent info)] (fun k => ?_) (fun k => ?_)
      trivial fun e he => ?_
    · simp [isStart,startedEvent,ToolTask.starts]
    · simp [isFinish,startedEvent,ToolTask.finishes]
    · rw [mem_singleton.mp he]
      exact ⟨info,htied,rfl⟩
  | authorizing =>
    simp only [runTask] at hs
    split at hs <;> cases hs
    · exact h.quiet hi l.safety (fun _ => rfl) (fun _ => rfl) trivial
    · exact h.quiet hi l.safety (fun _ => rfl) (fun _ => rfl) trivial
    · exact h.quiet hi l.safety (fun _ => rfl) (fun _ => rfl) trivial
  | awaitingApproval =>
    cases hs
    exact h.quiet hi _ (fun _ => rfl) (fun _ => rfl) trivial
  | decided info decision =>
    cases hs
    refine h.advance hi l.safety [(none, .toolCallUpdated info.id _)] (fun k => ?_) (fun k => ?_) ?_
      fun e he => ?_
    · cases decision <;> rfl
    · cases decision <;> rfl
    · cases decision <;> trivial
    · rw [mem_singleton.mp he]
      rfl
  | blocking =>
    simp only [runTask] at hs
    split at hs
    · cases hs
      exact h.quiet hi l.safety (fun _ => rfl) (fun _ => rfl) trivial
    next call l₁ hclaim =>
      cases hs
      obtain ⟨hmem,rfl⟩ := of_claim_eq_some hclaim
      refine h.claim hclaim (fun k => ?_) (fun k => ?_) fun t ht => ?_
      · exact total_set (ToolTask.starts k) hi _
      · exact total_set (ToolTask.finishes k) hi _
      · rcases mem_or_eq_of_mem_set ht with hold | rfl
        · exact Or.inl hold
        · exact Or.inr id
  | finishing call id status output =>
    cases hs
    refine h.advance hi l.safety [(some call, .toolCallFinished id status output)] (fun k => ?_)
      (fun k => ?_) trivial fun e he => ?_
    · simp [isStart,ToolTask.starts]
    · simp [isFinish,ToolTask.finishes]
    · rw [mem_singleton.mp he]
      obtain ⟨info,hk,hid⟩ := htied
      exact ⟨info,hk,by rw [hid]; rfl⟩
  | cancelling updated remaining =>
    cases remaining with
    | nil => cases updated <;> cases hs
    | cons c rest =>
      cases updated with
      | false =>
        cases hs
        refine h.advance hi l.safety [(none, .toolCallUpdated c.1 .cancelled)] (fun k => ?_)
          (fun k => ?_) htied fun e he => ?_
        · rfl
        · simp [isFinish,ToolTask.finishes]
        · rw [mem_singleton.mp he]
          rfl
      | true =>
        cases hs
        refine h.advance hi l.safety [(some c.2, .toolCallFinished c.1 .cancelled "cancelled")]
          (fun k => ?_) (fun k => ?_) (fun c' hc' => htied c' (mem_cons_of_mem c hc'))
          fun e he => ?_
        · rfl
        · simp [isFinish,ToolTask.finishes,countP_cons,Nat.add_comm]
        · rw [mem_singleton.mp he]
          obtain ⟨info,hk,hid⟩ := htied c mem_cons_self
          exact ⟨info,hk,by rw [hid]; rfl⟩
  | done => cases hs

theorem publish {event : SessionEvent} (h : Balanced l)
    (hevent : event.isToolCall=false) : Balanced (l.emit none event) := by
  refine ⟨fun k => ?_,fun k => ?_,h.distinct,h.bounded,h.active,h.tasks,fun e he => ?_⟩
  · rw [show (l.emit none event).calls = l.calls from rfl,← h.starts k]
    simp [emit,isStart]
  · rw [show (l.emit none event).calls = l.calls from rfl,← h.finishes k]
    simp [emit,isFinish]
  · rcases mem_append.mp he with hold | hnew
    · exact h.stream e hold
    · rw [mem_singleton.mp hnew]
      cases event <;> first | rfl | cases hevent

theorem init (safety : SafetyPolicy) (maxActiveTools maxOutputBytes : Nat) :
    Balanced (newWithOutputLimit safety maxActiveTools maxOutputBytes) := by
  refine ⟨fun _ => rfl,fun _ => rfl,nodup_nil,Nat.zero_le _,?_,?_,?_⟩
  · intro c hc
    cases hc
  · intro t ht
    cases ht
  · intro e he
    cases he

theorem step {l' : ToolLifecycle} {a : ToolAction} (h : Balanced l) (hs : l.step a = some l') :
    Balanced l' := by
  cases a with
  | reserve info =>
    cases hs
    exact h.reserve info
  | authorize =>
    cases hs
    exact h.addTask (fun _ => rfl) (fun _ => rfl) trivial
  | finish info output isError =>
    cases hs
    exact h.finish info output isError
  | cancelAll =>
    cases hs
    exact h.cancelAll
  | publish =>
    simp only [ToolLifecycle.step] at hs
    split_ifs at hs with htool
    cases hs
    exact h.publish (by simpa using htool)
  | run =>
    obtain ⟨task,hi,hs⟩ := Option.bind_eq_some_iff.mp hs
    exact h.runTask hi hs

end Balanced

variable {l : ToolLifecycle}

theorem Balanced.of_reaches {safety : SafetyPolicy} {maxActiveTools maxOutputBytes : Nat}
    (h : (system safety maxActiveTools maxOutputBytes).Reaches (fun _ _ => True) l) : Balanced l :=
  h.invariant (init safety maxActiveTools maxOutputBytes) fun _ _ _ hl _ hs => hl.step hs

/-- What holds of the lifecycle after any interleaving. A call is started once its reserving task
has emitted, and finished once it is inactive and the task that took it has emitted. -/
structure CallsOk (l : ToolLifecycle) : Prop where
  distinct : (l.active.map Prod.fst).Nodup
  bounded : l.active.length ≤ l.maxActiveTools
  started : ∀ call info, l.calls[call]? = some info →
    l.stream.countP (isStart call) ≤ 1 ∧
    ((∀ task∈l.tasks, task.starts call = 0) → l.stream.countP (isStart call) = 1)
  finished : ∀ call info, l.calls[call]? = some info →
    l.stream.countP (isFinish call) ≤ 1 ∧
    ((∀ c∈l.active, c.2≠call) → (∀ task∈l.tasks, task.finishes call = 0) →
      l.stream.countP (isFinish call) = 1)
  attributed : ∀ e∈l.stream, EventTied l.calls e
  rejected : ∀ info reason, (l.reserve info).1 = .error reason → (l.reserve info).2 = l

theorem reserve_rejected {info : ToolCallInfo} {reason : String}
    (h : (l.reserve info).1 = .error reason) : (l.reserve info).2 = l := by
  unfold reserve at h ⊢
  split at h
  · rfl
  · cases h

theorem Balanced.callsOk (h : Balanced l) : CallsOk l := by
  refine ⟨h.distinct,h.bounded,fun call info hcall => ?_,fun call info hcall => ?_,h.stream,
    fun info reason hr => reserve_rejected hr⟩
  · have hcount := h.starts call
    rw [if_pos (List.getElem?_eq_some_iff.mp hcall).1] at hcount
    refine ⟨by omega,fun hquiet => ?_⟩
    have hzero : total (ToolTask.starts call) l.tasks = 0 := total_eq_zero hquiet
    omega
  · have hcount := h.finishes call
    rw [if_pos (List.getElem?_eq_some_iff.mp hcall).1] at hcount
    refine ⟨by omega,fun hinactive hquiet => ?_⟩
    have hzero : total (ToolTask.finishes call) l.tasks = 0 := total_eq_zero hquiet
    have hnone : l.active.countP (fun c => decide (c.2=call)) = 0 := by
      rw [countP_eq_zero]
      intro c hc
      simpa using hinactive c hc
    omega

/-- Every interleaving of the lifecycle's operations starts and finishes each admitted call exactly
once, whatever ids the calls carry. -/
theorem calls_ok {safety : SafetyPolicy} {maxActiveTools maxOutputBytes : Nat} {l : ToolLifecycle}
    (h : (system safety maxActiveTools maxOutputBytes).Reaches (fun _ _ => True) l) : CallsOk l :=
  (Balanced.of_reaches h).callsOk

private def unanswered : Except ApprovalRequestError ApprovalResolution := .error .brokerClosed

private def readCall : ToolCallInfo := { id := "call_0", name := "read_file" }

/-- An id is admitted, cancelled before its start is announced, admitted again and finished. -/
def reusedId : List ToolAction :=
  [.reserve readCall, .cancelAll, .reserve readCall, .run 0 unanswered, .run 1 unanswered,
    .run 2 unanswered, .run 1 unanswered, .reserve readCall, .finish readCall "text" false,
    .run 3 unanswered]

/-- Both calls under the id start and finish once. -/
theorem calls_ok_reusedId : ∃ l,
    (system {} 1 64).Reaches (fun _ _ => True) l ∧ l.calls.length=2 ∧ l.active = [] ∧
    l.stream.map Prod.fst = [some 0, none, some 1, some 0, some 1] ∧ CallsOk l := by
  obtain ⟨l,-,hreach,hcalls,hactive,hstream⟩ := System.exists_of_replay (system {} 1 64)
    (fun _ _ => True) reusedId
    (fun l => l.calls.length=2 ∧ l.active = [] ∧
      l.stream.map Prod.fst = [some 0, none, some 1, some 0, some 1]) (by decide +kernel)
  exact ⟨l,hreach,hcalls,hactive,hstream,calls_ok hreach⟩

end ToolLifecycle

end Daimonos.Session
