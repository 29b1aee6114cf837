import Daimonos.Session.ApprovalEvents
import Daimonos.Session.InitialSnapshot
import Daimonos.Session.SnapshotFrame

namespace Daimonos.Session

open Framework Providers

inductive ThinkingLevel where
  | off
  | minimal
  | low
  | medium
  | high
  | xHigh
  | max

namespace ThinkingLevel

def asStr : ThinkingLevel → String
  | .off => "off"
  | .minimal => "minimal"
  | .low => "low"
  | .medium => "medium"
  | .high => "high"
  | .xHigh => "xhigh"
  | .max => "max"

def all : List ThinkingLevel := [.off, .minimal, .low, .medium, .high, .xHigh, .max]

end ThinkingLevel

def RuntimeOption.select (id label : String) (value : RuntimeValue) (choices : List RuntimeChoice) :
    RuntimeOption where
  id := id
  label := label
  value := value
  defaultValue := value
  spec := .select choices
  mutableWhileRunning := false
  help := none

def runtimeOptions (models : List String) (currentModel : String) (thinking : ThinkingLevel) :
    List RuntimeOption :=
  let candidates := models.foldl
    (fun candidates model => if model∈candidates then candidates else candidates ++ [model])
    [currentModel]
  [.select "model" "Model" (.string currentModel) (candidates.map fun model => ⟨model,model⟩),
    .select "thinking" "Thinking" (.string thinking.asStr)
      (ThinkingLevel.all.map fun level => ⟨level.asStr,level.asStr⟩)]

/-- What a core is opened from: the configuration and the persisted session. -/
structure OpenedFrom where
  sessionId : String
  history : List Message := []
  assistantOutcomes : List AssistantOutcome := []
  seq : Nat := 0
  durabilityStatus : DurabilityStatus := .saved
  contextUsage : Option ContextUsage := none
  models : List String := []
  model : String := ""
  thinking : ThinkingLevel := .medium
  safety : SafetyPolicy := {}
  approvalTimeout : Nat := 0
  maxActiveToolCalls : Nat := 1
  maxToolEventOutputBytes : Nat := 16
  maxSnapshotEntries : Nat := 1

namespace OpenedFrom

def tools (cfg : OpenedFrom) : ToolLifecycle :=
  .newWithOutputLimit cfg.safety cfg.maxActiveToolCalls cfg.maxToolEventOutputBytes

def timeline (cfg : OpenedFrom) : TimelineReducer :=
  initialSnapshot cfg.tools.projectOutput cfg.history cfg.assistantOutcomes cfg.maxSnapshotEntries

/-- `initial_snapshot` of a core that has run no turn yet. -/
def snapshot (cfg : OpenedFrom) : SessionSnapshot where
  sessionId := cfg.sessionId
  seq := cfg.seq
  turnStatus := .idle
  durabilityStatus := cfg.durabilityStatus
  timeline := cfg.timeline.timeline
  activeTools := cfg.timeline.activeTools
  historyWindow := cfg.timeline.historyWindow
  pendingApprovals := []
  runtimeOptions := runtimeOptions cfg.models cfg.model cfg.thinking
  contextUsage := cfg.contextUsage

end OpenedFrom

end Daimonos.Session
