import Daimonos.Session.SnapshotResume

namespace Daimonos.Session

def requireUnique {α : Type} [DecidableEq α] (kind : String) (debug : α → String) :
    List α → List α → Except String Unit
  | [], _ => .ok ()
  | id::rest, seen =>
    if id∈seen then .error ("snapshot contains duplicate " ++ kind ++ " id " ++ debug id)
    else requireUnique kind debug rest (id::seen)

def refuseIf (c : Prop) [Decidable c] (message : String) : Except String Unit :=
  if c then .error message else .ok ()

/-- The window tells how many entries the timeline has. -/
def HistoryWindow.Matches (window : HistoryWindow) (length : Nat) : Prop :=
  window.retained=length ∧ window.total = some (saturatingAdd window.truncatedBefore length)

instance (window : HistoryWindow) (length : Nat) : Decidable (window.Matches length) :=
  inferInstanceAs (Decidable (_ ∧ _))

namespace SessionSnapshot

def hasToolOf (approval : ApprovalRequest) (snapshot : SessionSnapshot) : Bool :=
  snapshot.activeTools.any fun t => decide (t.toolCallId = approval.toolCallId)

def validateSnapshotIds (snapshot : SessionSnapshot) : Except String Unit := do
  requireUnique "timeline" toString (snapshot.timeline.map TimelineEntry.id) []
  requireUnique "active tool occurrence" toString
    (snapshot.activeTools.map ActiveToolState.occurrenceId) []
  requireUnique "approval" String.quote (snapshot.pendingApprovals.map ApprovalRequest.id) []
  refuseIf (¬ snapshot.historyWindow.Matches snapshot.timeline.length)
    "snapshot history window does not match timeline"
  refuseIf (∃ t∈snapshot.activeTools, t.status.isTerminal=true)
    "snapshot active_tools contains terminal tool"
  refuseIf (∃ a∈snapshot.pendingApprovals, snapshot.hasToolOf a = false)
    "snapshot approval references missing active tool"
  requireUnique "runtime option" String.quote (snapshot.runtimeOptions.map RuntimeOption.id) []

end SessionSnapshot

namespace TimelineEntryKind

def withoutOutput : TimelineEntryKind → TimelineEntryKind
  | .tool toolCallId name title status (some _) _ => .tool toolCallId name title status none true
  | entry => entry

def withoutText : TimelineEntryKind → TimelineEntryKind
  | .user text truncated => if text ≠ "" then .user "" true else .user text truncated
  | .assistant text truncated => if text ≠ "" then .assistant "" true else .assistant text truncated
  | .thought text truncated => if text ≠ "" then .thought "" true else .thought text truncated
  | .system text truncated => if text ≠ "" then .system "" true else .system text truncated
  | .tool toolCallId name title status output truncated =>
    if name ≠ "" ∨ title ≠ "" then .tool toolCallId "" "" status output true
    else .tool toolCallId name title status output truncated
  | entry => entry

end TimelineEntryKind

namespace SessionSnapshot

def mapEntries (f : TimelineEntryKind → TimelineEntryKind) (snapshot : SessionSnapshot) :
    SessionSnapshot :=
  { snapshot with timeline := snapshot.timeline.map fun e => { e with entry := f e.entry } }

def syncHistoryWindow (snapshot : SessionSnapshot) : SessionSnapshot :=
  let window := snapshot.historyWindow
  { snapshot with
    historyWindow :=
      { window with
        retained := snapshot.timeline.length
        total := some (saturatingAdd window.truncatedBefore snapshot.timeline.length) } }

/-- Last the oldest entries go. -/
def dropOldest (n : Nat) (snapshot : SessionSnapshot) : SessionSnapshot :=
  let window := snapshot.historyWindow
  { snapshot with
    timeline := snapshot.timeline.drop n
    historyWindow := { window with truncatedBefore := saturatingAdd window.truncatedBefore n }
    : SessionSnapshot }.syncHistoryWindow

/-- How many have to go: the search halves the range between `low` and `high`. -/
def firstFitting (fits : Nat → Bool) (low high : Nat) : Nat :=
  if low<high then
    let middle := low + (high-low) / 2
    if fits middle then firstFitting fits low middle else firstFitting fits (middle+1) high
  else low
termination_by high - low

/-- `encoded` is the length of the message that carries a snapshot. -/
def fitSnapshotToFrame (encoded : SessionSnapshot → Nat) (maxFrameBytes : Nat)
    (snapshot : SessionSnapshot) : Except String SessionSnapshot :=
  let fits (snapshot : SessionSnapshot) : Bool := decide (encoded snapshot ≤ maxFrameBytes)
  if fits snapshot then .ok snapshot
  else
    let bare := snapshot.mapEntries .withoutOutput
    if fits bare then .ok bare
    else
      let blank := bare.mapEntries .withoutText
      if fits blank then .ok blank
      else
        let low := firstFitting (fun n => fits (blank.dropOldest n)) 0 blank.timeline.length
        let rest := blank.dropOldest low
        if fits rest then .ok rest
        else
          .error s!"session snapshot exceeds the configured {maxFrameBytes}-byte frame limit"

end SessionSnapshot

end Daimonos.Session
