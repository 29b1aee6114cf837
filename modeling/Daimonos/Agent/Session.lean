import Daimonos.Framework.Staged
import Daimonos.Agent.Compaction
import Daimonos.Agent.Materialize
import Daimonos.Agent.RunInner

namespace Daimonos.Agent

open Framework Providers Compaction

inductive CancelledTurnKind where
  | new
  | retry

inductive TurnJournalMode where
  | append
  | replaceFrom (index : Nat)

def TurnJournalMode.cancelledKind : TurnJournalMode → CancelledTurnKind
  | .append => .new
  | .replaceFrom _ => .retry

def TurnJournalMode.base : TurnJournalMode → List Message → List Message
  | .append, messages => messages
  | .replaceFrom index, messages => messages.take index

structure TurnJournalState where
  mode : TurnJournalMode
  suffix : List Message
  usage : Usage := {}
  lastCallUsage : Usage := {}

/-- `cancelledTurnNote` is the configured or built-in cancellation text, trimmed. -/
structure SessionConfig extends AgentConfig where
  compaction : Option CompactionPolicy := none
  system : Option String := none
  cancelledTurnNote : String

/-- `durable` is what the checkpoint hook last wrote in this turn and `pruned` whether
compaction inside the turn has rewritten anything; both are kept for specifications. -/
structure AgentSession where
  messages : List Message := []
  totalUsage : Usage := {}
  lastPromptTokens : Nat := 0
  inflightTurn : Option TurnJournalState := none
  durable : Option (List Message) := none
  pruned : Bool := false

def isUserTurnMessage (m : Message) : Bool :=
  m.role == .user && m.content.any fun b =>
    match b with
    | .text text =>
      !("[Summary of earlier conversation:".toList.isPrefixOf text.toList) &&
        !("[Earlier conversation truncated".toList.isPrefixOf text.toList)
    | .image .. => true
    | _ => false

/-- `iter().rposition(p)`. -/
def lastWhere (p : Message → Bool) : List Message → Option Nat
  | [] => none
  | m::rest =>
    match lastWhere p rest with
    | some i => some (i+1)
    | none => if p m then some 0 else none

def indicesWhere (p : Message → Bool) (messages : List Message) : List Nat :=
  messages.zipIdx.filterMap fun (m, i) => if p m then some i else none

def lastUserTurn (messages : List Message) : Option Nat := lastWhere isUserTurnMessage messages

theorem lastWhere_spec {p : Message → Bool} {messages : List Message} {index : Nat}
    (h : lastWhere p messages = some index) :
    ∃ m, messages[index]? = some m ∧ p m = true := by
  induction messages generalizing index with
  | nil => simp [lastWhere] at h
  | cons m rest ih =>
    simp only [lastWhere] at h
    split at h
    · rename_i i hi
      cases h
      simpa using ih hi
    · split_ifs at h with hm
      cases h
      exact ⟨m,rfl,hm⟩

theorem isUserTurnMessage_role {m : Message} (h : isUserTurnMessage m = true) :
    m.role=.user := by
  simp only [isUserTurnMessage,Bool.and_eq_true,beq_iff_eq] at h
  exact h.1

namespace AgentSession

def cancelledMessages (cfg : SessionConfig) (journal : TurnJournalState)
    (messages : List Message) : List Message :=
  journal.mode.base messages ++ materializeCancelledSuffix journal.suffix cfg.cancelledTurnNote

def finalizeCancelledTurn (cfg : SessionConfig) (usageAlreadyApplied : Bool) (s : AgentSession) :
    Option CancelledTurnKind × AgentSession :=
  match s.inflightTurn with
  | none => (none, s)
  | some journal =>
    let s' := { s with
      inflightTurn := none
      messages := cancelledMessages cfg journal s.messages }
    let prompt := journal.lastCallUsage.promptTokens
    let applied := { s' with
      totalUsage := accumulateUsage s.totalUsage journal.usage
      lastPromptTokens := if prompt > 0 then prompt else s.lastPromptTokens }
    (some journal.mode.cancelledKind, if usageAlreadyApplied then s' else applied)

def beginTurnJournal (cfg : SessionConfig) (mode : TurnJournalMode) (user : Message)
    (s : AgentSession) : AgentSession :=
  let s := if s.inflightTurn.isSome then (finalizeCancelledTurn cfg false s).2 else s
  { s with inflightTurn := some { mode, suffix := [user] }, durable := none, pruned := false }

def resetTurnJournal (user : Message) (s : AgentSession) : AgentSession :=
  { s with
    inflightTurn := s.inflightTurn.map fun journal =>
      { journal with suffix := [user], usage := {}, lastCallUsage := {} } }

def restoreTurnJournalFromResult (result : AgentResult) (s : AgentSession) : AgentSession :=
  { s with
    inflightTurn := s.inflightTurn.map fun journal =>
      let start :=
        match journal.mode with
        | .append => s.messages.length
        | .replaceFrom index => index
      { journal with
        suffix := result.messages.drop start
        usage := result.usage
        lastCallUsage := result.lastCallUsage } }

/-- What an effect of the loop does to the session: the journal writer of the turn. -/
def applyEffect (cfg : SessionConfig) (baseLen : Nat) (s : AgentSession) : Effect → AgentSession
  | .contextPruned => { s with pruned := true }
  | .checkpoint messages =>
    { s with
      inflightTurn := s.inflightTurn.map fun journal =>
        { journal with suffix := messages.drop baseLen }
      durable := some (materializeCancelledSuffix messages cfg.cancelledTurnNote) }
  | .recordUsage usage lastCallUsage =>
    { s with
      inflightTurn := s.inflightTurn.map fun journal => { journal with usage, lastCallUsage } }
  | .request _ => s

/-- Where in a turn a session state is observed. -/
inductive Phase where
  | begun
  | proactiveSummary
  | attempt
  | reactiveSummary (recorded : Bool)
  | restored (closed : Bool)
  | finished

/-- A turn under way: the session states at which it can be cut. -/
abbrev Turn := Staged (Phase × AgentSession)

def attemptWithHistory (cfg : SessionConfig) (rounds : List Round) (history : List Message)
    (user : Message) (s : AgentSession) : Turn (AgentSession × AgentResult) :=
  let s := resetTurnJournal user s
  let (effects, result) := runInner cfg.toAgentConfig rounds (history ++ [user])
  let apply := applyEffect cfg history.length
  let s' := effects.foldl apply s
  { states := (watch apply s effects).map fun t => (.attempt, t)
    result := result.map fun r =>
      ({ s' with
        totalUsage := accumulateUsage s'.totalUsage r.usage
        lastPromptTokens := r.lastCallUsage.promptTokens }, r) }

def summarize (phase : Phase) :
    Nat → List LlmResponse → AgentSession → Turn (AgentSession × Option String)
  | 0, _, s => pure (s, none)
  | _+1, [], s => { states := [(phase, s)], result := none }
  | n+1, resp::answers, s => do
    Staged.visit (phase, s)
    let s' := { s with totalUsage := accumulateUsage s.totalUsage resp.usage }
    match summaryText resp with
    | some text => pure (s', some text)
    | none => summarize phase n answers s'

/-- `compact`; the flag tells whether anything was evicted. -/
def compact (cfg : SessionConfig) (phase : Phase) (answers : List LlmResponse)
    (s : AgentSession) : Turn (AgentSession × Bool) :=
  match cfg.compaction >>= fun policy => chooseCut s.messages policy.targetTokens with
  | none => pure (s, false)
  | some cut => do
    let (s, text) ← summarize phase 2 answers s
    let replacement := (text.map summaryMessage).getD dropMarkerMessage
    pure ({ s with messages := replacement :: s.messages.drop cut, lastPromptTokens := 0 }, true)

/-- What the provider does in one prompt: the summarizer before the turn, the attempt, and
the summarizer and second attempt after an overflow. -/
structure PromptEnv where
  proactive : List LlmResponse := []
  rounds : List Round
  reactive : List LlmResponse := []
  retryRounds : List Round := []

def repairHistory (s : AgentSession) : AgentSession :=
  if hasOrphanToolCalls s.messages then
    { s with messages := closeOrphanToolCalls s.messages }
  else s

def occupancy (cfg : SessionConfig) (s : AgentSession) : Nat :=
  if s.lastPromptTokens > 0 then s.lastPromptTokens
  else estimatePromptTokens cfg.system s.messages

def proactiveCompaction (cfg : SessionConfig) (answers : List LlmResponse) (s : AgentSession) :
    Turn AgentSession := do
  if cfg.compaction.any fun policy => policy.shouldCompact (occupancy cfg s) then
    let (s, _) ← compact cfg .proactiveSummary answers s
    pure s
  else pure s

/-- Whether an attempt journaled more than the prompt and the empty answer to a request
that was refused; such an answer only receives the cancellation note. -/
def recordedMore (cfg : SessionConfig) (user : Message) (s : AgentSession) : Bool :=
  match s.inflightTurn with
  | none => false
  | some journal =>
    !(journal.suffix == [user] || (!cfg.cancelledTurnNote.isEmpty &&
      journal.suffix == [user, { role := .assistant, content := [] }]))

def openCalls (s : AgentSession) : Bool :=
  match s.inflightTurn with
  | none => false
  | some journal => hasOrphanToolCalls (s.messages++journal.suffix)

def runPromptAttempt (cfg : SessionConfig) (env : PromptEnv) (user : Message)
    (s : AgentSession) : Turn (AgentSession × AgentResult) := do
  let s ← proactiveCompaction cfg env.proactive (repairHistory s)
  let (s, result) ← attemptWithHistory cfg env.rounds s.messages user s
  if result.contextOverflow && cfg.compaction.isSome then
    let failed := s
    let phase := .reactiveSummary (recordedMore cfg user failed)
    let (s, evicted) ← compact cfg phase env.reactive (resetTurnJournal user s)
    if evicted then
      let (s, retried) ← attemptWithHistory cfg env.retryRounds s.messages user s
      Staged.visit (.finished, s)
      pure (s, retried)
    else
      let s := restoreTurnJournalFromResult result s
      Staged.visit (.restored (openCalls failed), s)
      pure (s, result)
  else
    Staged.visit (.finished, s)
    pure (s, result)

/-- The journal exists before the turn first runs. -/
def stagedPromptMessage (cfg : SessionConfig) (env : PromptEnv) (user : Message)
    (s : AgentSession) : Turn (AgentSession × AgentResult) := do
  let s := beginTurnJournal cfg .append user s
  Staged.visit (.begun, s)
  runPromptAttempt cfg env user s

def noUserTurn : String := "cannot retry: session has no user turn"

def retryTurn (cfg : SessionConfig) (rounds : List Round) (index : Nat) (user : Message)
    (s : AgentSession) : Turn (AgentSession × AgentResult) := do
  let history := s.messages.take index
  let s := beginTurnJournal cfg (.replaceFrom index) user s
  Staged.visit (.begun, s)
  let (s, result) ← attemptWithHistory cfg rounds history user s
  Staged.visit (.finished, s)
  pure (s, result)

def stagedRetryLastTurn (cfg : SessionConfig) (rounds : List Round) (s : AgentSession) :
    Except String (Turn (AgentSession × AgentResult)) :=
  match (lastUserTurn s.messages).bind fun index => (s.messages[index]?).map (index, ·) with
  | none => .error noUserTurn
  | some (index, user) => .ok (retryTurn cfg rounds index user s)

def commitStaged (result : AgentResult) (s : AgentSession) : AgentSession :=
  { s with inflightTurn := none, messages := result.messages }

def userTurnCount (s : AgentSession) : Nat := (s.messages.filter isUserTurnMessage).length

def truncateFromUserTurn (turnIndex : Nat) (s : AgentSession) : Except String AgentSession :=
  match (indicesWhere isUserTurnMessage s.messages)[turnIndex]? with
  | none => .error ("user turn index " ++ toString turnIndex ++ " not found")
  | some index => .ok { s with messages := s.messages.take index, lastPromptTokens := 0 }

def insertAssistantTurnPrefix (text : String) (s : AgentSession) : Except String AgentSession :=
  match lastUserTurn s.messages with
  | none => .error "cannot prefix assistant turn: session has no user turn"
  | some index => .ok { s with messages := s.messages.insertIdx (index+1) (.assistant text) }

def clear (s : AgentSession) : AgentSession := { s with inflightTurn := none, messages := [] }

end AgentSession

end Daimonos.Agent
