import Mathlib.Data.List.Basic

namespace Daimonos.Session

inductive ClientCapability where
  | observe
  | prompt
  | configure
  | interrupt
  | stop
  | approveOnce
  | approveAlways
  deriving DecidableEq

inductive ApprovalDecision where
  | allowOnce
  | allowAlways
  | deny
  deriving DecidableEq

inductive TurnStatus where
  | idle
  | running
  | waitingForApproval
  | cancelling
  | cancelled
  deriving DecidableEq

inductive DurabilityStatus where
  | saved
  | unsaved
  | saving
  | degraded
  | superseded
  deriving DecidableEq

inductive ToolCallStateStatus where
  | pending
  | inProgress
  | completed
  | failed
  | cancelled
  deriving DecidableEq

def ToolCallStateStatus.isTerminal : ToolCallStateStatus → Bool
  | .completed | .failed | .cancelled => true
  | .pending | .inProgress => false

structure ApprovalRequest where
  id : String
  toolCallId : String
  tool : String
  detail : String
  allowAlwaysAvailable : Bool
  ineligibleDeadlineUnixMs : Option Nat := none
  deadlinePaused : Bool := false
  deriving DecidableEq

def ApprovalRequest.unassigned (toolCallId tool detail : String) (allowAlwaysAvailable : Bool) :
    ApprovalRequest :=
  { id := "", toolCallId, tool, detail, allowAlwaysAvailable }

inductive AssistantOutcome where
  | completed
  | errored (contextOverflow : Bool) (message : String)
  | refused
  | aborted
  | maxTokens
  deriving DecidableEq

inductive RuntimeValue where
  | string (value : String)
  | bool (value : Bool)
  | integer (value : Int)
  deriving DecidableEq

structure RuntimeChoice where
  id : String
  label : String
  deriving DecidableEq

inductive RuntimeOptionSpec where
  | select (choices : List RuntimeChoice)
  | boolean
  | integer (min max step : Int)
  deriving DecidableEq

structure RuntimeOption where
  id : String
  label : String
  value : RuntimeValue
  defaultValue : RuntimeValue
  spec : RuntimeOptionSpec
  mutableWhileRunning : Bool
  help : Option String
  deriving DecidableEq

inductive ContextBudgetError where
  | outputReservationNotBelowWindow
  deriving DecidableEq

structure ContextUsage where
  promptTokens : Nat
  estimated : Bool
  modelContextWindow : Option Nat
  outputReservation : Nat
  effectiveInputBudget : Option Nat
  utilizationBasisPoints : Option Nat
  compactionHighWaterTokens : Option Nat
  budgetError : Option ContextBudgetError
  deriving DecidableEq

inductive SessionEvent where
  | userMessage (text : String) (requestId : Option String)
  | assistantDelta (text : String)
  | assistantDone (outcome : AssistantOutcome)
  | thoughtDelta (text : String)
  | toolCallStarted (id name title : String) (inputSummary : Option String)
  | toolCallUpdated (id : String) (status : ToolCallStateStatus)
  | toolCallFinished (id : String) (status : ToolCallStateStatus) (output : String)
  | approvalRequested (request : ApprovalRequest)
  | approvalResolved (approvalId : String) (decision : ApprovalDecision) (resolvedBy : String)
  | approvalDeadlineChanged (approvalId : String) (ineligibleDeadlineUnixMs : Nat) (paused : Bool)
  | runtimeOptionsChanged (options : List RuntimeOption)
  | contextUsageChanged (usage : ContextUsage)
  | conversationCleared
  | turnStatusChanged (status : TurnStatus)
  | durabilityStatusChanged (status : DurabilityStatus)
  | sessionEnding (reason : String)
  deriving DecidableEq

def SessionEvent.isToolCall : SessionEvent → Bool
  | .toolCallStarted .. | .toolCallUpdated .. | .toolCallFinished .. => true
  | _ => false

end Daimonos.Session
