import Daimonos.Session.Timeline

namespace Daimonos.Session

open Framework

structure SessionSnapshot where
  sessionId : String
  seq : Nat
  turnStatus : TurnStatus
  durabilityStatus : DurabilityStatus
  timeline : List TimelineEntry
  activeTools : List ActiveToolState
  historyWindow : HistoryWindow
  pendingApprovals : List ApprovalRequest
  runtimeOptions : List RuntimeOption
  contextUsage : Option ContextUsage
  deriving DecidableEq

def pushApproval (request : ApprovalRequest) (pending : List ApprovalRequest) :
    List ApprovalRequest :=
  if pending.any fun a => decide (a.id=request.id) then pending else pending ++ [request]

def dropApproval (approvalId : String) (pending : List ApprovalRequest) : List ApprovalRequest :=
  pending.filter fun a => decide (a.id≠approvalId)

def changeDeadline (approvalId : String) (deadlineUnixMs : Nat) (paused : Bool)
    (pending : List ApprovalRequest) : List ApprovalRequest :=
  modifyFirst (fun a => decide (a.id=approvalId))
    (fun a => { a with ineligibleDeadlineUnixMs := some deadlineUnixMs, deadlinePaused := paused })
    pending

inductive TranscriptRole where
  | user
  | assistant
  | system
  | thought
  deriving DecidableEq

structure ViewLine where
  role : TranscriptRole
  text : String
  isOpen : Bool
  deriving DecidableEq

def ViewLine.committed (role : TranscriptRole) (text : String) : ViewLine :=
  { role, text, isOpen := false }

structure ToolCallState where
  id : String
  name : String
  title : String
  status : ToolCallStateStatus
  output : Option String
  deriving DecidableEq

inductive ApplyOutcome where
  | applied
  | duplicate
  | gap (expectedSeq : Nat)

structure ViewState where
  sessionId : String
  lastSeq : Nat
  turnStatus : TurnStatus
  durabilityStatus : DurabilityStatus
  timeline : TimelineReducer
  transcript : List ViewLine
  toolCalls : List ToolCallState
  pendingApprovals : List ApprovalRequest
  runtimeOptions : List RuntimeOption
  contextUsage : Option ContextUsage
  maxScrollbackEntries : Nat
  endingReason : Option String
  deriving DecidableEq

def outcomeNote : AssistantOutcome → Option String
  | .completed => none
  | .errored _ message => some ("[turn errored: " ++ message ++ "]")
  | .refused => some "[turn refused]"
  | .aborted => some "[turn interrupted]"
  | .maxTokens => some "[turn hit the output token limit]"

namespace TimelineReducer

def viewLine (r : TimelineReducer) (e : TimelineEntry) : Option ViewLine :=
  match e.entry with
  | .user text _ => some (.committed .user text)
  | .assistant text _ => some { role := .assistant, text, isOpen := r.isOpen e.id }
  | .thought text _ => some { role := .thought, text, isOpen := r.isOpen e.id }
  | .system text _ => some (.committed .system text)
  | .outcome outcome => (outcomeNote outcome).map (.committed .system)
  | .tool .. => none

end TimelineReducer

def TimelineEntryKind.toolCallState : TimelineEntryKind → Option ToolCallState
  | .tool id name title status output _ => some { id, name, title, status, output }
  | _ => none

namespace ViewState

def withScrollbackLimit (sessionId : String) (maxScrollbackEntries : Nat) : ViewState :=
  { sessionId, lastSeq := 0, turnStatus := .idle, durabilityStatus := .saved,
    timeline := .new maxScrollbackEntries, transcript := [], toolCalls := [],
    pendingApprovals := [], runtimeOptions := [], contextUsage := none,
    maxScrollbackEntries := max maxScrollbackEntries 1, endingReason := none }

def syncProjection (v : ViewState) : ViewState :=
  { v with
    transcript := v.timeline.timeline.filterMap v.timeline.viewLine
    toolCalls := v.timeline.timeline.filterMap fun e => e.entry.toolCallState }

def applySnapshot (snapshot : SessionSnapshot) (v : ViewState) : ViewState :=
  let synced :=
    { v with
      sessionId := snapshot.sessionId
      lastSeq := snapshot.seq
      turnStatus := snapshot.turnStatus
      durabilityStatus := snapshot.durabilityStatus
      timeline :=
        .fromParts snapshot.timeline snapshot.activeTools snapshot.historyWindow
          v.maxScrollbackEntries
      pendingApprovals := snapshot.pendingApprovals
      runtimeOptions := snapshot.runtimeOptions
      contextUsage := snapshot.contextUsage }.syncProjection
  { synced with endingReason := none }

def applyEventBody (event : SessionEvent) (v : ViewState) : ViewState :=
  match event with
  | .userMessage .. | .assistantDelta _ | .thoughtDelta _ | .assistantDone _ | .toolCallStarted ..
  | .toolCallUpdated .. | .toolCallFinished .. => v
  | .approvalRequested request =>
    { v with pendingApprovals := pushApproval request v.pendingApprovals }
  | .approvalResolved approvalId _ _ =>
    { v with pendingApprovals := dropApproval approvalId v.pendingApprovals }
  | .approvalDeadlineChanged approvalId deadlineUnixMs paused =>
    { v with pendingApprovals := changeDeadline approvalId deadlineUnixMs paused v.pendingApprovals }
  | .runtimeOptionsChanged options => { v with runtimeOptions := options }
  | .contextUsageChanged usage => { v with contextUsage := some usage }
  | .conversationCleared => { v with pendingApprovals := [], endingReason := none }
  | .turnStatusChanged status => { v with turnStatus := status }
  | .durabilityStatusChanged status => { v with durabilityStatus := status }
  | .sessionEnding reason => { v with endingReason := some reason }

def applyEvent (seq : Nat) (event : SessionEvent) (v : ViewState) : ApplyOutcome × ViewState :=
  if seq≤v.lastSeq then (.duplicate, v)
  else
    let expected := v.lastSeq+1
    if seq≠expected then (.gap expected, v)
    else
      let timed := { v with lastSeq := seq, timeline := v.timeline.apply event }
      (.applied, (timed.applyEventBody event).syncProjection)

def deliver (v : ViewState) (deliveries : List (Nat × SessionEvent)) : ViewState :=
  deliveries.foldl (fun v d => (v.applyEvent d.1 d.2).2) v

def advance (v : ViewState) (delivery : Nat × SessionEvent) : ViewState :=
  ({ v with lastSeq := delivery.1, timeline := v.timeline.apply delivery.2 }.applyEventBody
    delivery.2).syncProjection

/-- The guard decides alone: an event is applied exactly when it is the next in sequence, and
otherwise nothing of the view changes. -/
theorem applyEvent_eq (seq : Nat) (event : SessionEvent) (v : ViewState) :
    v.applyEvent seq event =
      if seq=v.lastSeq+1 then (.applied, v.advance (seq, event))
      else (if seq≤v.lastSeq then .duplicate else .gap (v.lastSeq+1), v) := by
  unfold applyEvent
  by_cases hold : seq≤v.lastSeq
  · have hne : seq≠v.lastSeq+1 := by omega
    rw [if_pos hold,if_neg hne,if_pos hold]
  · rw [if_neg hold,if_neg hold]
    by_cases hnext : seq=v.lastSeq+1
    · rw [if_pos hnext]
      exact if_neg (not_not.mpr hnext)
    · rw [if_neg hnext]
      exact if_pos hnext

variable (v : ViewState)

theorem applyEventBody_lastSeq (event : SessionEvent) :
    (v.applyEventBody event).lastSeq = v.lastSeq := by
  cases event <;> rfl

theorem advance_lastSeq (v : ViewState) (delivery : Nat × SessionEvent) :
    (v.advance delivery).lastSeq = delivery.1 := by
  change (applyEventBody _ _).lastSeq = _
  rw [applyEventBody_lastSeq]

def nextInSequence (seq : Nat) : List (Nat × SessionEvent) → List (Nat × SessionEvent)
  | [] => []
  | d::rest => if d.1=seq+1 then d :: nextInSequence d.1 rest else nextInSequence seq rest

theorem deliver_cons (v : ViewState) (d : Nat × SessionEvent) (rest : List (Nat × SessionEvent)) :
    v.deliver (d::rest) = (if d.1=v.lastSeq+1 then v.advance d else v).deliver rest := by
  change ((v.applyEvent d.1 d.2).2).deliver rest = _
  rw [applyEvent_eq]
  split_ifs <;> rfl

theorem deliver_eq_foldl (deliveries : List (Nat × SessionEvent)) :
    v.deliver deliveries = (nextInSequence v.lastSeq deliveries).foldl advance v := by
  induction deliveries generalizing v with
  | nil => rfl
  | cons d rest ih =>
    rw [deliver_cons,ih,nextInSequence]
    split_ifs with hnext
    · rw [advance_lastSeq,List.foldl_cons]
    · rfl

theorem deliver_lastSeq (deliveries : List (Nat × SessionEvent)) :
    (v.deliver deliveries).lastSeq = v.lastSeq + (nextInSequence v.lastSeq deliveries).length := by
  induction deliveries generalizing v with
  | nil => rfl
  | cons d rest ih =>
    rw [deliver_cons,ih,nextInSequence]
    split_ifs with hnext
    · rw [advance_lastSeq,List.length_cons]
      omega
    · rfl

/-- A view that follows its deliveries: folded are exactly those in sequence, the others leave the
view as it was, and the watermark counts the folded ones. -/
structure Follows (start : ViewState) (deliveries : List (Nat × SessionEvent)) : Prop where
  folded : start.deliver deliveries = (nextInSequence start.lastSeq deliveries).foldl advance start
  counted : (start.deliver deliveries).lastSeq =
    start.lastSeq + (nextInSequence start.lastSeq deliveries).length
  guarded : ∀ before seq event after, deliveries = before ++ (seq, event) :: after →
    (((start.deliver before).applyEvent seq event).1 = .applied ↔
      seq = (start.deliver before).lastSeq + 1)
  unchanged : ∀ before seq event after, deliveries = before ++ (seq, event) :: after →
    ((start.deliver before).applyEvent seq event).1 ≠ .applied →
    start.deliver (before ++ [(seq, event)]) = start.deliver before

/-- After a snapshot a view takes exactly the next event, whatever else it is given. -/
theorem applySnapshot_follows (v : ViewState) (snapshot : SessionSnapshot)
    (deliveries : List (Nat × SessionEvent)) :
    (v.applySnapshot snapshot).lastSeq = snapshot.seq ∧
    Follows (v.applySnapshot snapshot) deliveries := by
  refine ⟨rfl,deliver_eq_foldl _ _,deliver_lastSeq _ _,?_,?_⟩
  · intro before seq event after _
    rw [applyEvent_eq]
    split_ifs with hnext hold
    · exact iff_of_true rfl hnext
    · exact iff_of_false (by simp) hnext
    · exact iff_of_false (by simp) hnext
  · intro before seq event after _ hrejected
    have happend : (v.applySnapshot snapshot).deliver (before ++ [(seq, event)]) =
        (((v.applySnapshot snapshot).deliver before).applyEvent seq event).2 := List.foldl_append
    rw [happend]
    rw [applyEvent_eq] at hrejected ⊢
    split_ifs at hrejected ⊢
    · exact absurd rfl hrejected
    · rfl
    · rfl

end ViewState

end Daimonos.Session
