import Daimonos.Agent.TurnCounts
import Daimonos.Session.InitialSnapshot
import Daimonos.Session.ToolTimeline

namespace Daimonos.Session

open Framework Providers ToolOutput Compaction Agent AgentSession

inductive StreamEvent where
  | textDelta (text : String)
  | thinkingDelta (text : String)

def StreamEvent.sessionEvent : StreamEvent → SessionEvent
  | .textDelta text => .assistantDelta text
  | .thinkingDelta text => .thoughtDelta text

def StreamEvent.thinkingBytes : StreamEvent → Nat
  | .textDelta _ => 0
  | .thinkingDelta text => text.utf8ByteSize

structure StreamedAttempt where
  deltas : List StreamEvent := []
  response : LlmResponse

abbrev ApprovalAnswer := Except ApprovalRequestError ApprovalResolution

/-- What one tool call meets: the answer to its approval request, if it makes one, then the complete
output, the text of it that history retains, and what a script's own model calls used. -/
structure LiveTool where
  answer : ApprovalAnswer := .error .brokerClosed
  output : String := ""
  content : String
  isError : Bool := false
  spend : Usage := {}

inductive CutTool where
  | notStarted
  | awaitingApproval
  | running (answer : ApprovalAnswer)

/-- What one iteration of the agent loop meets in a session. `unanswered` is what a provider call
streamed that was cut before its answer, `cutTool` the call that was cut. -/
structure LiveRound where
  files : OutputFiles := .unavailable
  attempts : List StreamedAttempt
  unanswered : List StreamEvent := []
  tools : List LiveTool := []
  cutTool : CutTool := .notStarted
  verdict : RoundVerdict := .proceed

namespace ToolLifecycle

def publishAll (events : List SessionEvent) (l : ToolLifecycle) : ToolLifecycle :=
  events.foldl (fun l event => l.perform (.publish event)) l

/-- `before`, with the answer that an approval request gets. -/
def before (info : ToolCallInfo) (answer : ApprovalAnswer) (l : ToolLifecycle) :
    BeforeHookResult × ToolLifecycle :=
  match l.reserveLocked info with
  | .error reason => (.block reason, l)
  | .ok _ =>
    let reserved := l.perform (.reserve info)
    let authorized := reserved.perform (.authorize info)
    match reserved.safety.gate info.name with
    | .block reason => (.block reason, authorized)
    | .allow => (.allow, authorized)
    | .needsApproval =>
      ((approvalOutcome info authorized.safety answer).1,
        authorized.perform (.answer reserved.tasks.length answer))

def cutCall (info : ToolCallInfo) (l : ToolLifecycle) : CutTool → ToolLifecycle
  | .notStarted => l
  | .awaitingApproval => l.perform (.reserve info)
  | .running answer => (l.before info answer).2

def runTools (cut : CutTool) : List ToolCall → List LiveTool → ToolLifecycle →
    List ToolRun × ToolLifecycle
  | [], _, l => ([], l)
  | call::_, [], l => ([], l.cutCall ⟨call.id,call.name⟩ cut)
  | call::calls, tool::tools, l =>
    match l.before ⟨call.id,call.name⟩ tool.answer with
    | (.block reason, l) =>
      let (runs, l) := runTools cut calls tools l
      (.blocked reason :: runs, l)
    | (.allow, l) =>
      let finished := l.perform (.finish ⟨call.id,call.name⟩ tool.output tool.isError)
      let (runs, l) := runTools cut calls tools finished
      (.ran tool.content tool.isError false tool.spend :: runs, l)

end ToolLifecycle

namespace LiveRound

def responses (round : LiveRound) : List LlmResponse := round.attempts.map StreamedAttempt.response

def settled (maxAttempts : Nat) (round : LiveRound) : Nat × Option LlmResponse :=
  let (made, answer) := attemptLoop maxAttempts 0 round.responses
  (made, answer.map validateResponseShape)

def deltas (maxAttempts : Nat) (round : LiveRound) : List StreamEvent :=
  (round.attempts.take (round.settled maxAttempts).1).flatMap StreamedAttempt.deltas ++
    if (round.settled maxAttempts).2.isNone then round.unanswered else []

def calls (maxAttempts : Nat) (round : LiveRound) : List ToolCall :=
  match (round.settled maxAttempts).2 with
  | some response => if response.stopReason=.toolUse then toolCalls response.content else []
  | none => []

/-- One iteration as the session sees it: its events, and the round that the loop meets. -/
def perform (maxAttempts : Nat) (round : LiveRound) (l : ToolLifecycle) : Round × ToolLifecycle :=
  let deltas := round.deltas maxAttempts
  let streamed := l.publishAll (deltas.map StreamEvent.sessionEvent)
  let (tools, l) := streamed.runTools round.cutTool (round.calls maxAttempts) round.tools
  ({ files := round.files
     attempts := round.responses
     thinkingBytes := (deltas.map StreamEvent.thinkingBytes).sum
     tools
     verdict := round.verdict }, l)

end LiveRound

def liveRounds (cfg : AgentConfig) : List LiveRound → LoopState → ToolLifecycle →
    List Round × ToolLifecycle
  | [], _, l => ([], l)
  | live::rest, s, l =>
    let (round, l) := live.perform cfg.providerRetry.maxAttempts l
    match (iterate cfg round s).2 with
    | .next s' =>
      let (rounds, l) := liveRounds cfg rest s' l
      (round::rounds, l)
    | .done _ | .cut => ([round], l)

structure LiveEnv where
  proactive : List LlmResponse := []
  rounds : List LiveRound
  reactive : List LlmResponse := []
  retryRounds : List LiveRound := []

/-- The events of a prompt's attempts, in the order of `run_prompt_attempt`, and the environment
its agent session meets. -/
def LiveEnv.perform (cfg : SessionConfig) (env : LiveEnv) (user : Message) (s : AgentSession)
    (l : ToolLifecycle) : PromptEnv × ToolLifecycle :=
  let met : PromptEnv := { proactive := env.proactive, rounds := [], reactive := env.reactive }
  match (proactiveCompaction cfg env.proactive (repairHistory s)).result with
  | none => (met, l)
  | some s =>
    let (rounds, l) :=
      liveRounds cfg.toAgentConfig env.rounds { messages := s.messages ++ [user] } l
    let met := { met with rounds }
    match (attemptWithHistory cfg rounds s.messages user s).result with
    | none => (met, l)
    | some (s, result) =>
      if result.contextOverflow && cfg.compaction.isSome then
        match (compact cfg (.reactiveSummary (recordedMore cfg user s)) env.reactive
            (resetTurnJournal user s)).result with
        | some (s, true) =>
          let (retryRounds, l) :=
            liveRounds cfg.toAgentConfig env.retryRounds { messages := s.messages ++ [user] } l
          ({ met with retryRounds }, l)
        | _ => (met, l)
      else (met, l)

/-- What a session core is opened with. The skill expansion and the mapping of results to outcomes
are the frontend's. -/
structure CoreConfig where
  agent : SessionConfig
  expandManualInvocation : String → Except String String
  outcomeMapper : AgentResult → AssistantOutcome
  safety : SafetyPolicy := {}
  maxActiveTools : Nat
  maxOutputBytes : Nat

structure Prompt where
  content : List ContentBlock
  canonicalUserText : String
  clientUserMessageId : Option String := none
  eventRequestId : Option String := none
  assistantPrefix : Option String := none
  env : LiveEnv
  cancelled : Bool := false

structure TurnRecord where
  clientUserMessageId : String
  outcome : AssistantOutcome
  events : List SessionEvent

structure SessionCore where
  session : AgentSession := {}
  clientUserMessageIds : List String := []
  assistantOutcomes : List AssistantOutcome := []
  toolLifecycle : ToolLifecycle
  turns : List TurnRecord := []

/-- The provider-bound content: the first text that starts with a slash is expanded. -/
def expandDirectText (expand : String → Except String String) :
    List ContentBlock → Except String (List ContentBlock)
  | [] => .ok []
  | .text text :: rest =>
    if text.toList.head? = some '/' then (expand text).map fun expanded => .text expanded :: rest
    else (expandDirectText expand rest).map (.text text :: ·)
  | block::rest => (expandDirectText expand rest).map (block :: ·)

/-- What a turn leaves: the session and the outcome, `none` while it is running. A cancelled turn
has a journal, so its history is always committed. -/
def settleTurn (cfg : CoreConfig) (cancelled : Bool)
    (turn : AgentSession.Turn (AgentSession × AgentResult)) :
    Option (AgentSession × AssistantOutcome) :=
  match turn.result with
  | some (s, result) =>
    if cancelled then some ((finalizeCancelledTurn cfg.agent true s).2, .aborted)
    else some (commitStaged result s, cfg.outcomeMapper result)
  | none =>
    if cancelled then
      turn.states.getLast?.map fun (_, s) => ((finalizeCancelledTurn cfg.agent false s).2, .aborted)
    else none

def insertPrefix (assistantPrefix : Option String) (s : AgentSession) : AgentSession :=
  match assistantPrefix with
  | some text => (insertAssistantTurnPrefix text s).toOption.getD s
  | none => s

namespace SessionCore

def opened (cfg : CoreConfig) : SessionCore :=
  { toolLifecycle := .newWithOutputLimit cfg.safety cfg.maxActiveTools cfg.maxOutputBytes }

def finishTurn (p : Prompt) (session : AgentSession) (outcome : AssistantOutcome)
    (l : ToolLifecycle) (s : SessionCore) : SessionCore :=
  let session := insertPrefix p.assistantPrefix session
  let clientUserMessageId := p.clientUserMessageId.getD ""
  let completedBeforeCurrent := session.userTurnCount-1
  let excess := s.assistantOutcomes.length - completedBeforeCurrent
  let l := l.perform (.publish (.assistantDone outcome))
  { session
    clientUserMessageIds :=
      alignClientUserMessageIds (s.clientUserMessageIds ++ [clientUserMessageId])
        session.userTurnCount
    assistantOutcomes := s.assistantOutcomes.drop excess ++ [outcome]
    toolLifecycle := l
    turns := s.turns ++ [{
      clientUserMessageId
      outcome
      events := (l.stream.drop s.toolLifecycle.stream.length).map Prod.snd }] }

/-- `prompt_with_active_turn`; a rejected prompt changes no turn. -/
def prompt (cfg : CoreConfig) (s : SessionCore) (p : Prompt) : Option SessionCore :=
  match expandDirectText cfg.expandManualInvocation p.content with
  | .error _ => some s
  | .ok content =>
    let ids := alignClientUserMessageIds s.clientUserMessageIds s.session.userTurnCount
    let s := { s with clientUserMessageIds := ids }
    if p.clientUserMessageId.any ids.contains then some s
    else
      let user := promptMessage content
      let started := s.toolLifecycle.publishAll
        (.userMessage p.canonicalUserText p.eventRequestId ::
          (p.assistantPrefix.map SessionEvent.assistantDelta).toList)
      let (env, l) := p.env.perform cfg.agent user s.session started
      let l := if p.cancelled then l.perform .cancelAll else l
      (settleTurn cfg p.cancelled (stagedPromptMessage cfg.agent env user s.session)).map
        fun (session, outcome) => s.finishTurn p session outcome l

end SessionCore

namespace LiveRound

def overflows (maxAttempts : Nat) (round : LiveRound) : Bool :=
  (round.settled maxAttempts).2.any fun response => response.contextOverflow

end LiveRound

def evictsNothing (cfg : SessionConfig) (env : LiveEnv) (s : AgentSession) : Bool :=
  cfg.compaction.all fun policy =>
    (chooseCut s.messages policy.targetTokens).isNone ||
      (!policy.shouldCompact (occupancy cfg s) &&
        !env.rounds.any (LiveRound.overflows cfg.providerRetry.maxAttempts))

theorem iterate_overflows {cfg : AgentConfig} {live : LiveRound} {s : LoopState} {l : ToolLifecycle}
    {r : AgentResult}
    (h : (iterate cfg (live.perform cfg.providerRetry.maxAttempts l).1 s).2 = .done r)
    (hoverflow : r.contextOverflow=true) :
    live.overflows cfg.providerRetry.maxAttempts = true := by
  rcases iterate_step cfg (live.perform cfg.providerRetry.maxAttempts l).1 s with
    hcut | ⟨attempt,hanswered,hstep⟩
  · rw [hcut] at h
    cases h
  · have hsettled : (live.settled cfg.providerRetry.maxAttempts).2 =
        some (validateResponseShape attempt) := congrArg (Option.map validateResponseShape) hanswered
    rw [hstep] at h
    rw [LiveRound.overflows,hsettled,Option.any_some]
    generalize chooseArm cfg s (activeModel cfg s) (validateResponseShape attempt) = arm at h
    cases arm with
    | autoContinue | failover | errorResume => cases h
    | terminal =>
      cases h
      exact hoverflow
    | toolRound =>
      simp only [dispatch,toolRound] at h
      split at h
      · cases h
      · simp only [afterTools] at h
        split_ifs at h
        · cases h
          cases hoverflow
        · split at h <;> cases h
          cases hoverflow

theorem liveRounds_overflows {cfg : AgentConfig} {rounds : List LiveRound} {s : LoopState}
    {l : ToolLifecycle} {r : AgentResult}
    (h : (run (iterate cfg) (liveRounds cfg rounds s l).1 s).2 = some r)
    (hoverflow : r.contextOverflow=true) :
    rounds.any (LiveRound.overflows cfg.providerRetry.maxAttempts) = true := by
  induction rounds generalizing s l with
  | nil => cases h
  | cons live rest ih =>
    rw [List.any_cons,Bool.or_eq_true]
    unfold liveRounds at h
    dsimp only at h
    cases hout : (iterate cfg (live.perform cfg.providerRetry.maxAttempts l).1 s).2 with
    | next =>
      rw [hout] at h
      rw [run_cons_next hout] at h
      exact .inr (ih h)
    | done =>
      rw [hout] at h
      rw [run_cons_done hout] at h
      cases h
      exact .inl (iterate_overflows hout hoverflow)
    | cut =>
      rw [hout] at h
      rw [run_cons_cut hout] at h
      cases h

section Evictions

variable {cfg : SessionConfig} {env : LiveEnv} {s : AgentSession}

theorem evictsNothing_evictsNone (h : evictsNothing cfg env s = true) (met : PromptEnv)
    (user : Message) (l : ToolLifecycle) (hrounds : met.rounds =
      (liveRounds cfg.toAgentConfig env.rounds { messages := s.messages ++ [user] } l).1) :
    EvictsNone cfg met user s := by
  refine ⟨?_,?_⟩
  · intro policy hpolicy hshould
    have hsome : cfg.compaction = some policy := hpolicy
    simpa [evictsNothing,hsome,hshould] using h
  · intro r hr hoverflow policy hpolicy
    have hsome : cfg.compaction = some policy := hpolicy
    rw [hrounds] at hr
    simpa [evictsNothing,hsome,liveRounds_overflows hr hoverflow] using h

/-- The one attempt of a turn that evicts nothing, and the environment it meets. -/
theorem LiveEnv.perform_eq (h : evictsNothing cfg env (repairHistory s) = true) (user : Message)
    (l : ToolLifecycle) :
    env.perform cfg user s l =
      ({ proactive := env.proactive
         rounds := (liveRounds cfg.toAgentConfig env.rounds
           { messages := (repairHistory s).messages ++ [user] } l).1
         reactive := env.reactive },
        (liveRounds cfg.toAgentConfig env.rounds
          { messages := (repairHistory s).messages ++ [user] } l).2) := by
  have hevicts := evictsNothing_evictsNone h
    { proactive := env.proactive
      rounds := (liveRounds cfg.toAgentConfig env.rounds
        { messages := (repairHistory s).messages ++ [user] } l).1
      reactive := env.reactive } user l rfl
  unfold LiveEnv.perform
  rw [hevicts.proactiveCompaction_eq]
  dsimp only [pure]
  split
  next => rfl
  next s' r hattempt =>
    split_ifs with hoverflow
    · rw [Bool.and_eq_true] at hoverflow
      rw [hevicts.compact_eq hattempt hoverflow.1]
      rfl
    · rfl

theorem LiveEnv.evictsNone (h : evictsNothing cfg env (repairHistory s) = true) (user : Message)
    (l : ToolLifecycle) : EvictsNone cfg (env.perform cfg user s l).1 user (repairHistory s) := by
  refine evictsNothing_evictsNone h _ user l ?_
  rw [LiveEnv.perform_eq h]

end Evictions

end Daimonos.Session
