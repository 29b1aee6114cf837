import Daimonos.Framework.Run
import Daimonos.ToolOutput.Microcompact
import Daimonos.Agent.OrphanCalls

namespace Daimonos.Agent

open Framework Providers ToolOutput List

def autoContinueNudge : String :=
  "Continue exactly where the previous message was cut off. Do not repeat earlier output; " ++
    "if the remaining work is large, continue in smaller steps."

def errorResumeNudge : String :=
  "The previous response was interrupted by a transient provider error. Continue exactly " ++
    "where you left off; do not repeat earlier output."

def defaultAutoContinueBudget : Nat := 0
def defaultErrorResumeBudget : Nat := 2
def executeScriptTool : String := "execute_script"

structure ProviderRetryConfig where
  maxAttempts : Nat
  failoverModels : List String := []

/-- What the loop reads of its configuration; the two `Env` fields are the parsed
environment overrides. -/
structure AgentConfig where
  model : String
  providerRetry : ProviderRetryConfig
  autoContinueBudget : Option Nat := none
  autoContinueEnv : Option Nat := none
  errorResumeBudget : Option Nat := none
  errorResumeEnv : Option Nat := none
  toolOutput : ToolOutputConfig := {}

def AgentConfig.autoContinues (cfg : AgentConfig) : Nat :=
  (cfg.autoContinueBudget.or cfg.autoContinueEnv).getD defaultAutoContinueBudget

def AgentConfig.errorResumes (cfg : AgentConfig) : Nat :=
  (cfg.errorResumeBudget.or cfg.errorResumeEnv).getD defaultErrorResumeBudget

def nextFailoverModel (chain : List String) (active : String) : Option String := do
  let at' ← chain.findIdx? (· == active)
  chain[at'+1]?

def accumulateUsage (acc turn : Usage) : Usage where
  input := acc.input+turn.input
  output := acc.output+turn.output
  reasoningOutput :=
    match acc.reasoningOutput, turn.reasoningOutput with
    | none, none => none
    | left, right => some (left.getD 0 + right.getD 0)
  thinkingBytes := acc.thinkingBytes + turn.thinkingBytes
  cacheRead := acc.cacheRead+turn.cacheRead
  cacheWrite := acc.cacheWrite+turn.cacheWrite

structure AgentResult where
  messages : List Message
  usage : Usage
  stopReason : StopReason
  errorMessage : Option String
  lastCallUsage : Usage
  contextOverflow : Bool

/-- How one tool call ends: blocked by the hook before it, or run to a result that
the hook after it may turn into the end of the turn. `spend` is what a script's own
model calls used. -/
inductive ToolRun where
  | blocked (reason : String)
  | ran (content : String) (isError terminate : Bool) (spend : Usage)

inductive RoundVerdict where
  | proceed
  | steer (text : String)
  | break (message : String)

/-- Everything outside the loop that one iteration meets: the output directory, the
provider's answers to this generation's attempts, the tools, the loop detector. -/
structure Round where
  files : OutputFiles
  attempts : List LlmResponse
  thinkingBytes : Nat := 0
  tools : List ToolRun := []
  verdict : RoundVerdict := .proceed

/-- The part of a provider request the loop decides. -/
structure Request where
  messages : List Message
  model : String
  thinkingOff : Bool
  deriving DecidableEq

/-- What an iteration does to the outside, in order. `contextPruned` tells the loop
detector that results the model saw may be gone. -/
inductive Effect where
  | contextPruned
  | checkpoint (messages : List Message)
  | recordUsage (usage lastCallUsage : Usage)
  | request (request : Request)
  deriving DecidableEq

structure LoopState where
  messages : List Message
  totalUsage : Usage := {}
  autoContinuesUsed : Nat := 0
  errorResumesUsed : Nat := 0
  failoverModel : Option String := none
  forceThinkingOff : Bool := false

/-- The in-place retry loop: the number of attempts made and the one it breaks with,
`none` while an answer is still awaited. -/
def attemptLoop (maxAttempts : Nat) : Nat → List LlmResponse → Nat × Option LlmResponse
  | _, [] => (1, none)
  | retries, attempt::rest =>
    if !attempt.retryable || retries ≥ maxAttempts then (1, some attempt)
    else
      let (count, response) := attemptLoop maxAttempts (retries+1) rest
      (count+1, response)

inductive Arm where
  | autoContinue
  | failover (model : String)
  | errorResume
  | terminal
  | toolRound
  deriving DecidableEq

def chooseArm (cfg : AgentConfig) (s : LoopState) (model : String) (resp : LlmResponse) : Arm :=
  match resp.stopReason with
  | .maxTokens =>
    if 0 < cfg.autoContinues ∧ s.autoContinuesUsed < cfg.autoContinues then .autoContinue
    else .terminal
  | .error =>
    if resp.retryable then
      match nextFailoverModel cfg.providerRetry.failoverModels model with
      | some next => .failover next
      | none => if s.errorResumesUsed < cfg.errorResumes then .errorResume else .terminal
    else .terminal
  | .endTurn | .refusal | .aborted => .terminal
  | .toolUse => .toolRound

def autoContinueMessages (messages : List Message) : List Message :=
  if hasOrphanToolCalls messages then closeOrphanToolCalls messages
  else closeOrphanToolCalls messages ++ [.user autoContinueNudge]

def popEmptyAssistant (messages : List Message) : List Message :=
  match messages.getLast? with
  | some m => if m.role=.assistant ∧ m.content = [] then messages.dropLast else messages
  | none => messages

def errorResumeMessages (messages : List Message) : List Message :=
  let kept := popEmptyAssistant messages
  let closed := closeOrphanToolCalls kept
  if !hasOrphanToolCalls kept && closed.getLast?.any (fun m => m.role == .assistant) then
    closed ++ [.user errorResumeNudge]
  else closed

def withToolResults (messages : List Message) (results : List ContentBlock) : List Message :=
  if results = [] then messages else messages ++ [{ role := .user, content := results }]

structure ToolCall where
  id : String
  name : String
  input : Value

def toolCalls (content : List ContentBlock) : List ToolCall :=
  content.filterMap fun b =>
    match b with
    | .toolCall id name input => some ⟨id,name,input⟩
    | _ => none

structure ToolState where
  results : List ContentBlock := []
  totalUsage : Usage
  terminate : Bool := false

def toolStep (call : ToolCall) (s : ToolState) : ToolRun → ToolState
  | .blocked reason =>
    { s with results := s.results ++ [.toolResult call.id ("blocked: " ++ reason) true] }
  | .ran content isError terminate spend =>
    { results := s.results ++ [.toolResult call.id content isError]
      totalUsage :=
        if call.name=executeScriptTool then accumulateUsage s.totalUsage spend else s.totalUsage
      terminate := s.terminate || terminate }

def toolEffects (messages : List Message) (lastCallUsage : Usage) (s : ToolState) :
    ToolRun → List Effect
  | .blocked _ => [.checkpoint (withToolResults messages s.results)]
  | .ran .. => [.checkpoint (withToolResults messages s.results),
      .recordUsage s.totalUsage lastCallUsage]

def toolLoop (messages : List Message) (lastCallUsage : Usage) :
    List ToolCall → List ToolRun → ToolState → List Effect × Option ToolState
  | [], _, s => ([], some s)
  | _::_, [], _ => ([], none)
  | call::calls, run::runs, s =>
    let s' := toolStep call s run
    let (effects, final) := toolLoop messages lastCallUsage calls runs s'
    (toolEffects messages lastCallUsage s' run ++ effects, final)

def abortedResult (s : LoopState) (message : String) (lastCallUsage : Usage) : AgentResult where
  messages := s.messages
  usage := s.totalUsage
  stopReason := .aborted
  errorMessage := some message
  lastCallUsage := lastCallUsage
  contextOverflow := false

def afterTools (round : Round) (s : LoopState) (terminate : Bool) (lastCallUsage : Usage) :
    Step LoopState AgentResult :=
  if terminate then .done (abortedResult s "terminated by after_tool_call hook" lastCallUsage)
  else
    match round.verdict with
    | .proceed | .steer _ => .next s
    | .break message => .done (abortedResult s message lastCallUsage)

def toolRound (round : Round) (s : LoopState) (resp : LlmResponse) :
    List Effect × Step LoopState AgentResult :=
  match toolLoop s.messages resp.usage (toolCalls resp.content) round.tools
      { totalUsage := s.totalUsage } with
  | (effects, none) => (effects, .cut)
  | (effects, some t) =>
    let messages := withToolResults s.messages t.results
    let pushed := if t.results = [] then [] else [Effect.checkpoint messages]
    let s' := { s with messages, totalUsage := t.totalUsage }
    (effects++pushed, afterTools round s' t.terminate resp.usage)

def dispatch (round : Round) (s : LoopState) (resp : LlmResponse) :
    Arm → List Effect × Step LoopState AgentResult
  | .autoContinue =>
    let messages := autoContinueMessages s.messages
    ([.checkpoint messages],
      .next { s with
        messages
        autoContinuesUsed := s.autoContinuesUsed+1
        forceThinkingOff := true })
  | .failover model => ([], .next { s with failoverModel := some model })
  | .errorResume =>
    let messages := errorResumeMessages s.messages
    ([.checkpoint messages],
      .next { s with messages, errorResumesUsed := s.errorResumesUsed+1 })
  | .terminal =>
    ([], .done
      { messages := closeOrphanToolCalls s.messages
        usage := s.totalUsage
        stopReason := resp.stopReason
        errorMessage := resp.errorMessage
        lastCallUsage := resp.usage
        contextOverflow := resp.contextOverflow })
  | .toolRound => toolRound round s resp

def activeModel (cfg : AgentConfig) (s : LoopState) : String := s.failoverModel.getD cfg.model

def settledResponse (round : Round) (attempt : LlmResponse) : LlmResponse :=
  let resp := validateResponseShape attempt
  { resp with usage := { resp.usage with thinkingBytes := round.thinkingBytes } }

/-- History after a generation: everything but a tool-use response without a call is kept. -/
def pushResponse (messages : List Message) (attempt : LlmResponse) : List Message :=
  if toolUseMissingStructuredCall attempt then messages
  else messages ++ [{ role := .assistant, content := (validateResponseShape attempt).content }]

def afterGeneration (cfg : AgentConfig) (round : Round) (s : LoopState) (attempt : LlmResponse) :
    LoopState :=
  { s with
    messages := pushResponse (microcompactHistory round.files cfg.toolOutput s.messages).1 attempt
    totalUsage := accumulateUsage s.totalUsage (settledResponse round attempt).usage
    forceThinkingOff := false }

/-- The final response of a generation, `none` while it is awaited. -/
def answered? (cfg : AgentConfig) (round : Round) : Option LlmResponse :=
  (attemptLoop cfg.providerRetry.maxAttempts 0 round.attempts).2

def iterate (cfg : AgentConfig) (round : Round) (s : LoopState) :
    List Effect × Step LoopState AgentResult :=
  let (messages, stats) := microcompactHistory round.files cfg.toolOutput s.messages
  let model := activeModel cfg s
  let attempts := (attemptLoop cfg.providerRetry.maxAttempts 0 round.attempts).1
  let asked := (if stats.pruned then [Effect.contextPruned] else []) ++ .checkpoint messages ::
    List.replicate attempts (.request { messages, model, thinkingOff := s.forceThinkingOff })
  match answered? cfg round with
  | none => (asked, .cut)
  | some attempt =>
    let resp := settledResponse round attempt
    let s' := afterGeneration cfg round s attempt
    let pushed :=
      if toolUseMissingStructuredCall attempt then [] else [Effect.checkpoint s'.messages]
    let (effects, next) := dispatch round s' resp (chooseArm cfg s' model resp)
    (asked ++ .recordUsage s'.totalUsage resp.usage :: pushed++effects, next)

def runInner (cfg : AgentConfig) (rounds : List Round) (initial : List Message) :
    List Effect × Option AgentResult :=
  let (effects, result) := run (iterate cfg) rounds { messages := initial }
  (.checkpoint initial :: effects, result)

variable {e : Effect}

theorem toolLoop_not_request {messages : List Message} {last : Usage} {calls : List ToolCall}
    {runs : List ToolRun} {t : ToolState}
    (he : e ∈ (toolLoop messages last calls runs t).1) (r : Request) : e ≠ .request r := by
  induction calls generalizing runs t with
  | nil => simp [toolLoop] at he
  | cons call calls ih =>
    cases runs with
    | nil => simp [toolLoop] at he
    | cons run runs =>
      rcases mem_append.mp he with he | he
      · cases run <;> simp only [toolEffects,mem_cons,not_mem_nil,or_false] at he
        · simp [he]
        · rcases he with rfl | rfl <;> simp
      · exact ih he

variable {round : Round} {s : LoopState}

theorem dispatch_not_request {resp : LlmResponse} {arm : Arm}
    (he : e ∈ (dispatch round s resp arm).1) (r : Request) : e ≠ .request r := by
  cases arm with
  | autoContinue => simp_all [dispatch]
  | failover => simp [dispatch] at he
  | errorResume => simp_all [dispatch]
  | terminal => simp [dispatch] at he
  | toolRound =>
    simp only [dispatch,toolRound] at he
    split at he
    · rename_i effects heq
      exact toolLoop_not_request (by rw [heq]; exact he) r
    · rename_i effects t heq
      rcases mem_append.mp he with he | he
      · exact toolLoop_not_request (by rw [heq]; exact he) r
      · split_ifs at he <;> simp_all

variable {cfg : AgentConfig}

theorem iterate_effects (he : e ∈ (iterate cfg round s).1) :
    (e=.contextPruned ∧
      (microcompactHistory round.files cfg.toolOutput s.messages).2.pruned = true) ∨
    e = .checkpoint (microcompactHistory round.files cfg.toolOutput s.messages).1 ∨
    (∃ r, e = .request r ∧
      r.messages = (microcompactHistory round.files cfg.toolOutput s.messages).1) ∨
    ∃ attempt, answered? cfg round = some attempt ∧
      ((∃ usage last, e = .recordUsage usage last) ∨
        e = .checkpoint (afterGeneration cfg round s attempt).messages ∨
        e ∈ (dispatch round (afterGeneration cfg round s attempt) (settledResponse round attempt)
          (chooseArm cfg s (activeModel cfg s) (validateResponseShape attempt))).1) := by
  have hpruned : ∀ {b : Bool}, (e ∈ if b then [Effect.contextPruned] else []) →
      e=.contextPruned ∧ b=true := by
    intro b hb
    cases b <;> simp_all
  simp only [iterate] at he
  split at he
  · simp only [mem_append,mem_cons,mem_replicate] at he
    rcases he with he | rfl | ⟨-,rfl⟩
    · exact .inl (hpruned he)
    · exact .inr (.inl rfl)
    · exact .inr (.inr (.inl ⟨_,rfl,rfl⟩))
  · rename_i attempt heq
    simp only [cons_append,append_assoc,mem_append,mem_cons,mem_replicate] at he
    rcases he with he | rfl | ⟨-,rfl⟩ | rfl | he | he
    · exact .inl (hpruned he)
    · exact .inr (.inl rfl)
    · exact .inr (.inr (.inl ⟨_,rfl,rfl⟩))
    · exact .inr (.inr (.inr ⟨attempt,heq,.inl ⟨_,_,rfl⟩⟩))
    · refine .inr (.inr (.inr ⟨attempt,heq,.inr (.inl ?_)⟩))
      split_ifs at he
      · simp at he
      · simpa using he
    · exact .inr (.inr (.inr ⟨attempt,heq,.inr (.inr he)⟩))

theorem iterate_pruned
    (h : (microcompactHistory round.files cfg.toolOutput s.messages).2.pruned = true) :
    ∃ es, (iterate cfg round s).1 = .contextPruned::es := by
  simp only [iterate,h,if_true]
  split
  · exact ⟨_,rfl⟩
  · exact ⟨_,rfl⟩

theorem iterate_request {r : Request} (h : .request r ∈ (iterate cfg round s).1) :
    r.messages = (microcompactHistory round.files cfg.toolOutput s.messages).1 := by
  rcases iterate_effects h with ⟨h,-⟩ | h | ⟨q,h,hq⟩ | ⟨attempt,-,⟨_,_,h⟩ | h | h⟩
  · cases h
  · cases h
  · cases h
    exact hq
  · cases h
  · cases h
  · exact absurd rfl (dispatch_not_request h r)

theorem iterate_answered {attempt : LlmResponse} (h : answered? cfg round = some attempt) :
    (iterate cfg round s).2 =
      (dispatch round (afterGeneration cfg round s attempt) (settledResponse round attempt)
        (chooseArm cfg s (activeModel cfg s) (validateResponseShape attempt))).2 := by
  simp only [iterate,h]
  rfl

theorem iterate_step (cfg : AgentConfig) (round : Round) (s : LoopState) :
    (iterate cfg round s).2 = .cut ∨ ∃ attempt, answered? cfg round = some attempt ∧
      (iterate cfg round s).2 =
        (dispatch round (afterGeneration cfg round s attempt) (settledResponse round attempt)
          (chooseArm cfg s (activeModel cfg s) (validateResponseShape attempt))).2 := by
  cases hanswer : answered? cfg round with
  | none => exact .inl (by simp only [iterate,hanswer])
  | some attempt => exact .inr ⟨attempt,rfl,iterate_answered hanswer⟩

theorem toolCalls_ids (content : List ContentBlock) :
    (toolCalls content).map (·.id) = callIds content := by
  simp only [toolCalls,callIds,map_filterMap]
  congr 1
  funext b
  cases b <;> rfl

theorem toolLoop_results {messages : List Message} {last : Usage} {calls : List ToolCall}
    {runs : List ToolRun} {t t' : ToolState}
    (h : (toolLoop messages last calls runs t).2 = some t') :
    resultIds t'.results = resultIds t.results ++ calls.map (·.id) ∧
      callIds t'.results = callIds t.results := by
  induction calls generalizing runs t with
  | nil =>
    simp only [toolLoop,Option.some.injEq] at h
    simp [h]
  | cons call calls ih =>
    cases runs with
    | nil => simp [toolLoop] at h
    | cons run runs =>
      have hstep : resultIds (toolStep call t run).results = resultIds t.results ++ [call.id] ∧
          callIds (toolStep call t run).results = callIds t.results := by
        cases run <;> simp [toolStep,resultIds,callIds,ContentBlock.resultId?,
          ContentBlock.callId?]
      obtain ⟨hr,hc⟩ := ih h
      rw [hr,hc,hstep.1,hstep.2]
      simp

/-- A property of histories that everything the loop does to a history keeps. -/
structure HistoryClosed (A : List Message → Prop) : Prop where
  close : ∀ {h}, A h → A (closeOrphanToolCalls h)
  response : ∀ {h content}, A h → A (h ++ [{ role := .assistant, content }])
  results : ∀ {h results}, (∀ b∈results, b.isToolResult=true) → A h →
    A (h ++ [{ role := .user, content := results }])
  nudge : ∀ {h text}, text=autoContinueNudge ∨ text=errorResumeNudge → A h →
    A (h ++ [.user text])
  pop : ∀ {h}, A h → A (popEmptyAssistant h)

namespace HistoryClosed

variable {A : List Message → Prop} (hA : HistoryClosed A)

include hA

variable {h : List Message}

theorem autoContinue (hh : A h) : A (autoContinueMessages h) := by
  unfold autoContinueMessages
  split_ifs
  · exact hA.close hh
  · exact hA.nudge (.inl rfl) (hA.close hh)

theorem errorResume (hh : A h) : A (errorResumeMessages h) := by
  unfold errorResumeMessages
  dsimp only
  split_ifs
  · exact hA.nudge (.inr rfl) (hA.close (hA.pop hh))
  · exact hA.close (hA.pop hh)

theorem toolResults {results : List ContentBlock} (hh : A h)
    (hr : ∀ b∈results, b.isToolResult=true) : A (withToolResults h results) := by
  unfold withToolResults
  split_ifs
  · exact hh
  · exact hA.results hr hh

theorem pushed (hh : A h) (attempt : LlmResponse) : A (pushResponse h attempt) := by
  unfold pushResponse
  split_ifs
  · exact hh
  · exact hA.response hh

theorem toolLoop (hh : A h) (last : Usage) (calls : List ToolCall)
    (runs : List ToolRun) {t : ToolState} (ht : ∀ b∈t.results, b.isToolResult=true) :
    (∀ messages, .checkpoint messages ∈ (toolLoop h last calls runs t).1 → A messages) ∧
      ∀ t', (toolLoop h last calls runs t).2 = some t' → ∀ b∈t'.results, b.isToolResult=true := by
  induction calls generalizing runs t with
  | nil =>
    refine ⟨by simp [Agent.toolLoop],?_⟩
    intro _ hcase
    cases hcase
    exact ht
  | cons call calls ih =>
    cases runs with
    | nil => simp [Agent.toolLoop]
    | cons run runs =>
      have hstep : ∀ b ∈ (toolStep call t run).results, b.isToolResult=true := by
        intro b hb
        cases run <;> simp only [toolStep,mem_append,mem_singleton] at hb
        all_goals
          rcases hb with hb | rfl
          · exact ht b hb
          · rfl
      obtain ⟨hcheck,hfinal⟩ := ih runs hstep
      refine ⟨?_,hfinal⟩
      intro messages he
      rcases mem_append.mp he with he | he
      · cases run <;> simp only [toolEffects,mem_cons,not_mem_nil,or_false,
          reduceCtorEq,Effect.checkpoint.injEq] at he
        all_goals
          subst he
          exact hA.toolResults hh hstep
      · exact hcheck messages he

theorem dispatch {round : Round} {s : LoopState} (hs : A s.messages) (resp : LlmResponse)
    (arm : Arm) :
    (∀ messages, .checkpoint messages ∈ (dispatch round s resp arm).1 → A messages) ∧
      (∀ s', (dispatch round s resp arm).2 = .next s' → A s'.messages) ∧
      ∀ r, (dispatch round s resp arm).2 = .done r → A r.messages := by
  cases arm with
  | autoContinue =>
    refine ⟨?_,?_,by simp [Agent.dispatch]⟩
    · intro messages he
      obtain rfl : messages = autoContinueMessages s.messages := by simpa [Agent.dispatch] using he
      exact hA.autoContinue hs
    · intro _ hcase
      cases hcase
      exact hA.autoContinue hs
  | failover =>
    refine ⟨by simp [Agent.dispatch],?_,by simp [Agent.dispatch]⟩
    intro _ hcase
    cases hcase
    exact hs
  | errorResume =>
    refine ⟨?_,?_,by simp [Agent.dispatch]⟩
    · intro messages he
      obtain rfl : messages = errorResumeMessages s.messages := by simpa [Agent.dispatch] using he
      exact hA.errorResume hs
    · intro _ hcase
      cases hcase
      exact hA.errorResume hs
  | terminal =>
    refine ⟨by simp [Agent.dispatch],by simp [Agent.dispatch],?_⟩
    intro _ hcase
    cases hcase
    exact hA.close hs
  | toolRound =>
    simp only [Agent.dispatch,toolRound]
    obtain ⟨hcheck,hfinal⟩ := hA.toolLoop hs resp.usage (toolCalls resp.content)
      round.tools (t := { totalUsage := s.totalUsage }) (by simp)
    split
    · rename_i effects heq
      rw [heq] at hcheck
      exact ⟨hcheck,by simp,by simp⟩
    · rename_i effects t heq
      rw [heq] at hcheck hfinal
      have hend := hA.toolResults hs (hfinal t rfl)
      refine ⟨?_,?_,?_⟩
      · intro messages he
        rcases mem_append.mp he with he | he
        · exact hcheck messages he
        · split_ifs at he
          · simp at he
          · obtain rfl : messages = withToolResults s.messages t.results := by simpa using he
            exact hend
      · intro s' hs'
        simp only [afterTools] at hs'
        split_ifs at hs'
        split at hs' <;> cases hs'
        all_goals exact hend
      · intro r hr
        simp only [afterTools] at hr
        split_ifs at hr
        · cases hr
          exact hend
        · split at hr <;> cases hr
          exact hend

theorem iterate {cfg : AgentConfig} {round : Round} {s : LoopState}
    (hm : A (microcompactHistory round.files cfg.toolOutput s.messages).1) :
    StepSound (fun s => A s.messages) (fun e => ∀ messages, e = .checkpoint messages → A messages)
      (fun r => A r.messages) (iterate cfg round s) := by
  have hgen : ∀ attempt, A (afterGeneration cfg round s attempt).messages :=
    fun attempt => hA.pushed hm attempt
  refine ⟨?_,?_,?_⟩
  · intro e he messages heq
    subst heq
    rcases iterate_effects he with ⟨he,-⟩ | he | ⟨_,he,-⟩ | ⟨attempt,-,⟨_,_,he⟩ | he | he⟩
    · cases he
    · cases he
      exact hm
    · cases he
    · cases he
    · cases he
      exact hgen attempt
    · exact (hA.dispatch (hgen attempt) _ _).1 messages he
  · intro s' hs'
    rcases iterate_step cfg round s with hcut | ⟨attempt,-,hd⟩
    · simp [hcut] at hs'
    · exact (hA.dispatch (hgen attempt) _ _).2.1 s' (by rw [← hd,hs'])
  · intro r hr
    rcases iterate_step cfg round s with hcut | ⟨attempt,-,hd⟩
    · simp [hcut] at hr
    · exact (hA.dispatch (hgen attempt) _ _).2.2 r (by rw [← hd,hr])

end HistoryClosed

end Daimonos.Agent
