import Mathlib.Data.List.Basic

namespace Daimonos

inductive ApprovalMode where
  | auto
  | interactive
  | paranoid

inductive Gate where
  | block (reason : String)
  | allow
  | needsApproval
  deriving DecidableEq

/-- The non-interactive part of the policy. `autoApprove` is the in-session set. -/
structure SafetyPolicy where
  approvalMode : ApprovalMode := .auto
  allowedCommands : List String := []
  deniedCommands : List String := []
  autoApprove : List String := []

def destructiveTools : List String :=
  ["exec", "write_file", "edit_file", "append_file", "git", "docker", "cargo", "gh"]

def remoteToolPrefix : String := "mcp__"

def isDestructiveTool (name : String) : Bool :=
  destructiveTools.contains name || remoteToolPrefix.toList.isPrefixOf name.toList

namespace SafetyPolicy

def gate (name : String) (policy : SafetyPolicy) : Gate :=
  if policy.deniedCommands.contains name then
    .block ("blocked by policy: '" ++ name ++ "' is in the denied-commands list")
  else if policy.allowedCommands ≠ [] ∧ ¬ policy.allowedCommands.contains name then
    .block ("blocked by policy: '" ++ name ++ "' is not in the allowed-commands list")
  else
    let needsApproval :=
      match policy.approvalMode with
      | .auto => false
      | .interactive => isDestructiveTool name
      | .paranoid => true
    if !needsApproval then .allow
    else if policy.autoApprove.contains name then .allow
    else .needsApproval

def rememberAlways (name : String) (policy : SafetyPolicy) : SafetyPolicy :=
  { policy with autoApprove := policy.autoApprove.insert name }

end SafetyPolicy

end Daimonos
