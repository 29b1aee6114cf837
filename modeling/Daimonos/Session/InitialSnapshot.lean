import Daimonos.Agent.Session
import Daimonos.Session.ToolLifecycle
import Daimonos.Session.ToolAgreement

namespace Daimonos.Session

inductive ReconstructedTextKind where
  | user
  | assistant
  | thought
  deriving DecidableEq

open Framework Providers Agent

def ReconstructedTextKind.intoEntry (text : String) : ReconstructedTextKind → TimelineEntryKind
  | .user => .user text false
  | .assistant => .assistant text false
  | .thought => .thought text false

def textKind : Role → ReconstructedTextKind
  | .user => .user
  | .assistant => .assistant

def startsTurn (m : Message) : Bool :=
  m.role == .user && m.content.any fun b =>
    match b with
    | .text _ => true
    | _ => false

def reconstructedStatus (content : String) (isError : Bool) : ToolCallStateStatus :=
  if content=interruptedToolResult then .cancelled
  else if isError then .failed
  else .completed

/-- The timeline and the text of the current message that is not in it yet. -/
structure PendingTimeline where
  pendingText : Option (ReconstructedTextKind × String) := none
  timeline : TimelineReducer

namespace PendingTimeline

def flushText (s : PendingTimeline) : PendingTimeline :=
  match s.pendingText with
  | some (kind, text) => { timeline := s.timeline.pushReconstructed (kind.intoEntry text) }
  | none => s

def pushText (kind : ReconstructedTextKind) (text : String) (s : PendingTimeline) :
    PendingTimeline :=
  match s.pendingText with
  | some (pendingKind, pending) =>
    if pendingKind=kind then { s with pendingText := some (kind, pending++text) }
    else { s.flushText with pendingText := some (kind, text) }
  | none => { s.flushText with pendingText := some (kind, text) }

/-- One block of a message. `projectOutput` bounds the tool output that is shown. -/
def block (projectOutput : String → String) (role : Role) (s : PendingTimeline) :
    ContentBlock → PendingTimeline
  | .text text => s.pushText (textKind role) text
  | .thinking text => s.pushText .thought text
  | .toolCall id name _ =>
    { timeline := s.flushText.timeline.startReconstructedTool id name name }
  | .toolResult id content isError =>
    { timeline := s.flushText.timeline.updateReconstructedTool id
        (reconstructedStatus content isError) (projectOutput content) }
  | .image .. | .providerState .. => s.flushText

end PendingTimeline

def reconstructMessage (projectOutput : String → String) (timeline : TimelineReducer) (m : Message) :
    TimelineReducer :=
  (m.content.foldl (PendingTimeline.block projectOutput m.role) { timeline }).flushText.timeline

def pushOutcome (outcomes : List AssistantOutcome) (index : Nat) (timeline : TimelineReducer) :
    TimelineReducer :=
  match outcomes[index]? with
  | some outcome => timeline.pushReconstructed (.outcome outcome)
  | none => timeline

/-- What the loop over the history carries; `timeline` is a reducer or a transcript. -/
structure Reconstruction (τ : Type) where
  timeline : τ
  outcomeIndex : Nat := 0
  turnStarted : Bool := false

def Reconstruction.beginTurn {τ : Type} (pushOutcome : Nat → τ → τ) (s : Reconstruction τ)
    (m : Message) : Reconstruction τ :=
  if startsTurn m then
    if s.turnStarted then
      { timeline := pushOutcome s.outcomeIndex s.timeline
        outcomeIndex := s.outcomeIndex+1
        turnStarted := true }
    else { s with turnStarted := true }
  else s

def reconstruct (projectOutput : String → String) (outcomes : List AssistantOutcome)
    (maxEntries : Nat) (history : List Message) : Reconstruction TimelineReducer :=
  history.foldl (fun s m =>
    let s := s.beginTurn (pushOutcome outcomes) m
    { s with timeline := reconstructMessage projectOutput s.timeline m })
    { timeline := .new maxEntries }

def initialSnapshot (projectOutput : String → String) (history : List Message)
    (outcomes : List AssistantOutcome) (maxEntries : Nat) : TimelineReducer :=
  let s := reconstruct projectOutput outcomes maxEntries history
  let timeline := if s.turnStarted then pushOutcome outcomes s.outcomeIndex s.timeline else s.timeline
  timeline.cancelReconstructedActiveTools

def alignClientUserMessageIds (ids : List String) (userTurnCount : Nat) : List String :=
  if ids.length > userTurnCount then ids.drop (ids.length-userTurnCount)
  else if ids.length<userTurnCount then
    List.replicate (userTurnCount-ids.length) "" ++ ids
  else ids

end Daimonos.Session
