import Daimonos.Framework.Decimal
import Daimonos.Session.LiveTurn

namespace Daimonos.Session

open Framework Providers Compaction Agent AgentSession List

/-- `client_request_key`: the byte length of the client id keeps the two parts apart. -/
def clientRequestKey (clientId requestId : String) : String :=
  toString clientId.utf8ByteSize ++ ":" ++ clientId++requestId

structure PromptRequest where
  clientId : String
  requestId : String
  text : String

namespace PromptRequest

def key (request : PromptRequest) : String := clientRequestKey request.clientId request.requestId

def pair (request : PromptRequest) : String × String := (request.clientId, request.requestId)

def prompt (request : PromptRequest) (env : LiveEnv) (cancelled : Bool) : Prompt where
  content := [.text request.text]
  canonicalUserText := request.text
  clientUserMessageId := some request.key
  eventRequestId := some request.requestId
  env := env
  cancelled := cancelled

end PromptRequest

/-- The part of a persisted record that a restarted session continues from. -/
structure StoredTurns where
  messages : List Message
  clientUserMessageIds : List String
  assistantOutcomes : List AssistantOutcome

namespace SessionCore

/-- The provider-bound content of a prompt that is executed: its text expands and its id is new. -/
def accepted (cfg : CoreConfig) (s : SessionCore) (p : Prompt) : Option (List ContentBlock) :=
  match expandDirectText cfg.expandManualInvocation p.content with
  | .error _ => none
  | .ok content =>
    if p.clientUserMessageId.any
        (alignClientUserMessageIds s.clientUserMessageIds s.session.userTurnCount).contains then none
    else some content

def met (cfg : CoreConfig) (s : SessionCore) (p : Prompt) (content : List ContentBlock) :
    PromptEnv × ToolLifecycle :=
  p.env.perform cfg.agent (promptMessage content) s.session
    (s.toolLifecycle.publishAll (.userMessage p.canonicalUserText p.eventRequestId ::
      (p.assistantPrefix.map SessionEvent.assistantDelta).toList))

def stagedTurn (cfg : CoreConfig) (s : SessionCore) (p : Prompt) (content : List ContentBlock) :
    AgentSession.Turn (AgentSession × AgentResult) :=
  stagedPromptMessage cfg.agent (s.met cfg p content).1 (promptMessage content) s.session

/-- The records that the checkpoint hook writes in a turn: one when the prompt is accepted, then
those of the agent loop. Their ids and outcomes are the ones captured at the start, cut to the turns
of the history written. -/
def checkpoints (cfg : CoreConfig) (s : SessionCore) (p : Prompt) (content : List ContentBlock) :
    List StoredTurns :=
  let ids := alignClientUserMessageIds s.clientUserMessageIds s.session.userTurnCount ++
    [p.clientUserMessageId.getD ""]
  let outcomes := s.assistantOutcomes ++ [.aborted]
  let accepted := materializeCancelledSuffix (s.session.messages ++ [promptMessage content])
    cfg.agent.cancelledTurnNote
  let written := (s.stagedTurn cfg p content).states.filterMap fun x => x.2.durable
  (accepted::written).map fun messages =>
    let turns := (messages.filter isUserTurnMessage).length
    { messages
      clientUserMessageIds := alignClientUserMessageIds ids turns
      assistantOutcomes := outcomes.drop (outcomes.length-turns) }

def clearHistory (s : SessionCore) : SessionCore :=
  { s with
    session := s.session.clear
    clientUserMessageIds := []
    assistantOutcomes := []
    toolLifecycle := s.toolLifecycle.perform (.publish .conversationCleared) }

def record (s : SessionCore) : StoredTurns where
  messages := s.session.messages
  clientUserMessageIds := s.clientUserMessageIds
  assistantOutcomes := s.assistantOutcomes

end SessionCore

def StoredTurns.restore (cfg : CoreConfig) (record : StoredTurns) : SessionCore :=
  { SessionCore.opened cfg with
    session := { messages := closeOrphanToolCalls record.messages }
    clientUserMessageIds := record.clientUserMessageIds
    assistantOutcomes := record.assistantOutcomes }

/-- A session of the daemon with its record, the requests whose tasks have not begun a turn, and, for
specifications, the requests executed so far. -/
structure RequestRun where
  core : SessionCore
  stored : Option StoredTurns := none
  pending : List PromptRequest := []
  executed : List (String × String) := []

/-- What happens to it. `begin` runs the turn of a pending request to its end, `crash` to a point where
the process ends; the last checkpoint of the turn that was saved is the one before `saved`. Turns
exclude each other and clears, so a turn is one step; a request that finds the session busy or
stopped is refused. -/
inductive RequestAction where
  | receive (request : PromptRequest)
  | refuse (i : Nat)
  | unprepared (i : Nat)
  | begin (i : Nat) (env : LiveEnv) (cancelled : Bool) (saved : Nat)
  | crash (i : Nat) (env : LiveEnv) (saved : Nat)
  | clear
  | save
  | restart

namespace RequestRun

def opened (cfg : CoreConfig) : RequestRun := { core := .opened cfg }

def storedAfter (cfg : CoreConfig) (s : RequestRun) (p : Prompt) (content : List ContentBlock)
    (saved : Nat) : Option StoredTurns :=
  ((s.core.checkpoints cfg p content).take saved).getLast?.or s.stored

def restored (cfg : CoreConfig) (s : RequestRun) : Option RequestRun :=
  s.stored.map fun record => { s with core := record.restore cfg, pending := [] }

def step (cfg : CoreConfig) (s : RequestRun) : RequestAction → Option RequestRun
  | .receive request =>
    -- `has_completed_request` looks at the ids as they are; a task is spawned for a new one.
    if s.core.clientUserMessageIds.contains request.key then some s
    else some { s with pending := s.pending ++ [request] }
  | .refuse i => some { s with pending := s.pending.eraseIdx i }
  | .unprepared i =>
    let ids := alignClientUserMessageIds s.core.clientUserMessageIds s.core.session.userTurnCount
    some { s with
      core := { s.core with clientUserMessageIds := ids }
      pending := s.pending.eraseIdx i }
  | .begin i env cancelled saved =>
    s.pending[i]?.bind fun request =>
      let p := request.prompt env cancelled
      (s.core.prompt cfg p).map fun core =>
        let ended := { s with core, pending := s.pending.eraseIdx i }
        match s.core.accepted cfg p with
        | none => ended
        | some content =>
          { ended with
            stored := s.storedAfter cfg p content saved
            executed := s.executed ++ [request.pair] }
  | .crash i env saved =>
    s.pending[i]?.bind fun request =>
      let p := request.prompt env false
      (s.core.accepted cfg p).bind fun content =>
        restored cfg { s with
          stored := s.storedAfter cfg p content saved
          executed := s.executed ++ [request.pair] }
  | .clear => some { s with core := s.core.clearHistory }
  | .save => some { s with stored := some s.core.record }
  | .restart => s.restored cfg

def system (cfg : CoreConfig) : System RequestRun RequestAction :=
  { init := opened cfg, step := step cfg }

/-- A turn that keeps what the ids of earlier requests are counted by: its message is a user turn,
and it evicts nothing. -/
def keepsTurns (cfg : CoreConfig) (s : RequestRun) (i : Nat) (env : LiveEnv) : Bool :=
  s.pending[i]?.all fun request =>
    (s.core.accepted cfg (request.prompt env false)).all fun content =>
      isUserTurnMessage (promptMessage content) &&
        evictsNothing cfg.agent env (repairHistory s.core.session)

/-- No turn loses user turns, a turn cut by a crash left a checkpoint, history is cleared only
before the first request, and a record is loaded only where it names all requests of the session. -/
def stepOk (cfg : CoreConfig) (s : RequestRun) : RequestAction → Bool
  | .begin i env _ _ => s.keepsTurns cfg i env
  | .crash i env saved => s.keepsTurns cfg i env && decide (0 < saved)
  | .clear => s.core.clientUserMessageIds.all String.isEmpty
  | .restart => s.stored.all fun record =>
      s.core.clientUserMessageIds.all record.clientUserMessageIds.contains
  | .receive _ | .refuse _ | .unprepared _ | .save => true

end RequestRun

theorem length_alignClientUserMessageIds (ids : List String) (n : Nat) :
    (alignClientUserMessageIds ids n).length = n := by
  unfold alignClientUserMessageIds
  split_ifs
  · rw [length_drop]
    omega
  · rw [length_append,length_replicate]
    omega
  · omega

theorem mem_alignClientUserMessageIds {ids : List String} {n : Nat} (h : ids.length≤n) {id : String}
    (hid : id∈ids) : id ∈ alignClientUserMessageIds ids n := by
  unfold alignClientUserMessageIds
  split_ifs
  · omega
  · exact mem_append_right _ hid
  · exact hid

theorem clientRequestKey_toList (clientId requestId : String) :
    (clientRequestKey clientId requestId).toList =
      decimal clientId.utf8ByteSize ++ ':' :: (clientId.toList ++ requestId.toList) := by
  simp [clientRequestKey,String.toList_append]
  rfl

theorem clientRequestKey_ne_empty (clientId requestId : String) :
    clientRequestKey clientId requestId ≠ "" := by
  intro h
  have hlist := congrArg String.toList h
  rw [clientRequestKey_toList] at hlist
  simp at hlist

namespace SessionCore

variable {cfg : CoreConfig} {s : SessionCore} {p : Prompt}

theorem prompt_of_rejected (h : s.accepted cfg p = none) {s' : SessionCore}
    (hs : s.prompt cfg p = some s') : s'=s ∨ s' = { s with
      clientUserMessageIds :=
        alignClientUserMessageIds s.clientUserMessageIds s.session.userTurnCount } := by
  unfold accepted at h
  unfold prompt at hs
  split at h
  next error hexpand =>
    rw [hexpand] at hs
    cases hs
    exact .inl rfl
  next content hexpand =>
    split_ifs at h with hduplicate
    rw [hexpand] at hs
    dsimp only at hs
    rw [if_pos hduplicate] at hs
    cases hs
    exact .inr rfl

variable {content : List ContentBlock}

theorem prompt_of_accepted (h : s.accepted cfg p = some content) :
    s.prompt cfg p = (settleTurn cfg p.cancelled (s.stagedTurn cfg p content)).map fun x =>
      ({ s with clientUserMessageIds :=
          alignClientUserMessageIds s.clientUserMessageIds s.session.userTurnCount } :
        SessionCore).finishTurn p x.1 x.2
        (if p.cancelled then (s.met cfg p content).2.perform .cancelAll
          else (s.met cfg p content).2) := by
  unfold accepted at h
  split at h
  · cases h
  next content' hexpand =>
    split_ifs at h with hduplicate
    cases h
    unfold prompt
    rw [hexpand]
    dsimp only
    rw [if_neg hduplicate]
    rfl

theorem notMem_of_accepted (h : s.accepted cfg p = some content)
    {id : String} (hid : p.clientUserMessageId = some id) :
    id ∉ alignClientUserMessageIds s.clientUserMessageIds s.session.userTurnCount := by
  unfold accepted at h
  split at h
  · cases h
  · split_ifs at h with hduplicate
    simpa [hid] using hduplicate

theorem settleTurn_counted (hidle : s.session.inflightTurn=none)
    (hturn : isUserTurnMessage (promptMessage content) = true)
    (hevicts : evictsNothing cfg.agent p.env (repairHistory s.session) = true) {cancelled : Bool}
    {session : AgentSession} {outcome : AssistantOutcome}
    (h : settleTurn cfg cancelled (s.stagedTurn cfg p content) = some (session, outcome)) :
    session.inflightTurn=none ∧ s.session.userTurnCount+1 ≤ session.userTurnCount := by
  have hnone := LiveEnv.evictsNone hevicts (promptMessage content)
    (s.toolLifecycle.publishAll (.userMessage p.canonicalUserText p.eventRequestId ::
      (p.assistantPrefix.map SessionEvent.assistantDelta).toList))
  obtain ⟨hstates,hresult⟩ := stagedPromptMessage_counted hidle hturn hnone
  rw [userTurnCount_eq,userTurnCount_eq]
  have hcancelled : ∀ (t : AgentSession) (applied : Bool), Counted (countUserTurns s.session.messages) t →
      (finalizeCancelledTurn cfg.agent applied t).2.inflightTurn = none ∧
        countUserTurns s.session.messages + 1 ≤
          countUserTurns (finalizeCancelledTurn cfg.agent applied t).2.messages := by
    intro t applied ht
    obtain ⟨base,hcount,hcounting⟩ := ht
    rw [← hcount]
    exact ⟨finalize_idle cfg.agent applied t,hcounting.finalize applied⟩
  unfold settleTurn at h
  split at h
  next s' r hr =>
    obtain ⟨hcounted,hgrown⟩ := hresult (s', r) hr
    split_ifs at h
    · cases h
      exact hcancelled s' true hcounted
    · cases h
      exact ⟨rfl,hgrown⟩
  next hr =>
    split_ifs at h
    obtain ⟨⟨phase,t⟩,hlast,heq⟩ := Option.map_eq_some_iff.mp h
    cases heq
    exact hcancelled t false (hstates _ (mem_of_getLast? hlast))

/-- A checkpoint of such a turn names the requests of the session and the one under way. -/
theorem checkpoints_name (hidle : s.session.inflightTurn=none)
    (hturn : isUserTurnMessage (promptMessage content) = true)
    (hevicts : evictsNothing cfg.agent p.env (repairHistory s.session) = true) {record : StoredTurns}
    (hrecord : record ∈ s.checkpoints cfg p content) :
    record.clientUserMessageIds.length = countUserTurns record.messages ∧
      ∀ id ∈ alignClientUserMessageIds s.clientUserMessageIds s.session.userTurnCount ++
        [p.clientUserMessageId.getD ""], id∈record.clientUserMessageIds := by
  have hnone := LiveEnv.evictsNone hevicts (promptMessage content)
    (s.toolLifecycle.publishAll (.userMessage p.canonicalUserText p.eventRequestId ::
      (p.assistantPrefix.map SessionEvent.assistantDelta).toList))
  have hstates := (stagedPromptMessage_counted hidle hturn hnone).1
  obtain ⟨messages,hmessages,rfl⟩ := mem_map.mp hrecord
  have hcount : s.session.userTurnCount+1 ≤ (messages.filter isUserTurnMessage).length := by
    rw [userTurnCount_eq,← countP_eq_length_filter]
    rcases mem_cons.mp hmessages with rfl | hwritten
    · show _ ≤ countUserTurns _
      rw [countUserTurns_materialize]
      simp [countUserTurns_cons,hturn]
    · obtain ⟨x,hx,hdurable⟩ := mem_filterMap.mp hwritten
      obtain ⟨base,hbase,hcounting⟩ := hstates x hx
      rw [← hbase]
      exact hcounting.durable messages hdurable
  refine ⟨(length_alignClientUserMessageIds _ _).trans (countP_eq_length_filter ..).symm,?_⟩
  intro id hid
  refine mem_alignClientUserMessageIds ?_ hid
  rw [length_append,length_alignClientUserMessageIds]
  exact hcount

end SessionCore

namespace RequestRun

/-- Every request executed is named by an id of the session, and the ids are no more than the user
turns, so that alignment drops none. -/
structure Recorded (s : RequestRun) : Prop where
  idle : s.core.session.inflightTurn = none
  executed : ∀ pair∈s.executed, clientRequestKey pair.1 pair.2 ∈ s.core.clientUserMessageIds
  once : s.executed.Nodup
  fits : s.core.clientUserMessageIds.length ≤ s.core.session.userTurnCount
  storedFits : ∀ record∈s.stored,
    record.clientUserMessageIds.length ≤ countUserTurns record.messages

namespace Recorded

variable {cfg : CoreConfig} {s s' : RequestRun}

theorem aligned (h : Recorded s) (pair : String × String) (hpair : pair∈s.executed) :
    clientRequestKey pair.1 pair.2 ∈
      alignClientUserMessageIds s.core.clientUserMessageIds s.core.session.userTurnCount :=
  mem_alignClientUserMessageIds h.fits (h.executed pair hpair)

variable {env : LiveEnv} {cancelled : Bool} {content : List ContentBlock} {request : PromptRequest}

theorem fresh (h : Recorded s)
    (haccepted : s.core.accepted cfg (request.prompt env cancelled) = some content) :
    (s.executed ++ [request.pair]).Nodup := by
  have hid : (request.prompt env cancelled).clientUserMessageId =
      some (clientRequestKey request.pair.1 request.pair.2) := rfl
  have hnew := SessionCore.notMem_of_accepted haccepted hid
  rw [nodup_append]
  refine ⟨h.once,nodup_singleton _,?_⟩
  intro pair hpair other hother heq
  rw [heq,mem_singleton.mp hother] at hpair
  exact hnew (h.aligned request.pair hpair)

theorem opened (cfg : CoreConfig) : Recorded (opened cfg) where
  idle := rfl
  executed := by simp [RequestRun.opened]
  once := nodup_nil
  fits := Nat.le_refl 0
  storedFits := by simp [RequestRun.opened]

theorem align (h : Recorded s) (pending : List PromptRequest) :
    Recorded { s with
      core := { s.core with
        clientUserMessageIds :=
          alignClientUserMessageIds s.core.clientUserMessageIds s.core.session.userTurnCount }
      pending } where
  idle := h.idle
  executed := h.aligned
  once := h.once
  fits := Nat.le_of_eq (length_alignClientUserMessageIds _ _)
  storedFits := h.storedFits

theorem restored (hstored : ∀ record∈s.stored,
      record.clientUserMessageIds.length ≤ countUserTurns record.messages ∧
        ∀ pair∈s.executed, clientRequestKey pair.1 pair.2 ∈ record.clientUserMessageIds)
    (honce : s.executed.Nodup) (hs : s.restored cfg = some s') : Recorded s' := by
  obtain ⟨record,hrecord,rfl⟩ := Option.map_eq_some_iff.mp hs
  obtain ⟨hfits,hnames⟩ := hstored record hrecord
  refine ⟨rfl,hnames,honce,?_,fun record' hrecord' => (hstored record' hrecord').1⟩
  rw [userTurnCount_eq]
  show _ ≤ countUserTurns (closeOrphanToolCalls record.messages)
  rw [countUserTurns_close]
  exact hfits

variable {saved : Nat}

theorem mem_storedAfter {p : Prompt} {record : StoredTurns}
    (h : record ∈ s.storedAfter cfg p content saved) :
    record ∈ s.core.checkpoints cfg p content ∨ record∈s.stored := by
  rw [storedAfter,Option.mem_def,Option.or_eq_some_iff] at h
  rcases h with h | ⟨-,h⟩
  · exact .inl (mem_of_mem_take (mem_of_getLast? h))
  · exact .inr h

variable {i : Nat}

theorem of_keepsTurns (hok : s.keepsTurns cfg i env = true)
    (hrequest : s.pending[i]? = some request)
    (haccepted : s.core.accepted cfg (request.prompt env cancelled) = some content) :
    isUserTurnMessage (promptMessage content) = true ∧
      evictsNothing cfg.agent env (repairHistory s.core.session) = true := by
  have haccepted' : s.core.accepted cfg (request.prompt env false) = some content := haccepted
  rw [keepsTurns,hrequest,Option.all_some,haccepted',Option.all_some,Bool.and_eq_true] at hok
  exact hok

theorem named_checkpoint (h : Recorded s) (hok : s.keepsTurns cfg i env = true)
    (hrequest : s.pending[i]? = some request)
    (haccepted : s.core.accepted cfg (request.prompt env cancelled) = some content)
    {record : StoredTurns}
    (hrecord : record ∈ s.core.checkpoints cfg (request.prompt env cancelled) content) :
    record.clientUserMessageIds.length ≤ countUserTurns record.messages ∧
      ∀ pair ∈ s.executed ++ [request.pair],
        clientRequestKey pair.1 pair.2 ∈ record.clientUserMessageIds := by
  obtain ⟨hturn,hevicts⟩ := of_keepsTurns hok hrequest haccepted
  obtain ⟨hlength,hnames⟩ := SessionCore.checkpoints_name h.idle hturn hevicts hrecord
  refine ⟨Nat.le_of_eq hlength,?_⟩
  intro pair hpair
  rcases mem_append.mp hpair with hold | hnew
  · exact hnames _ (mem_append_left _ (h.aligned pair hold))
  · rw [mem_singleton.mp hnew]
    exact hnames _ (mem_append_right _ (mem_singleton.mpr rfl))

theorem begin (h : Recorded s) (hok : s.keepsTurns cfg i env = true)
    (hs : s.step cfg (.begin i env cancelled saved) = some s') : Recorded s' := by
  obtain ⟨request,hrequest,hs⟩ := Option.bind_eq_some_iff.mp hs
  obtain ⟨core,hprompt,rfl⟩ := Option.map_eq_some_iff.mp hs
  cases haccepted : s.core.accepted cfg (request.prompt env cancelled) with
  | none =>
    rcases SessionCore.prompt_of_rejected haccepted hprompt with rfl | rfl
    · exact ⟨h.idle,h.executed,h.once,h.fits,h.storedFits⟩
    · exact h.align _
  | some content =>
    obtain ⟨hturn,hevicts⟩ := of_keepsTurns hok hrequest haccepted
    rw [SessionCore.prompt_of_accepted haccepted] at hprompt
    obtain ⟨⟨session,outcome⟩,hsettle,rfl⟩ := Option.map_eq_some_iff.mp hprompt
    obtain ⟨hidle,hcount⟩ := SessionCore.settleTurn_counted h.idle hturn hevicts hsettle
    have hroom : (alignClientUserMessageIds s.core.clientUserMessageIds s.core.session.userTurnCount ++
        [request.key]).length ≤ session.userTurnCount := by
      rw [length_append,length_alignClientUserMessageIds]
      exact hcount
    refine ⟨hidle,?_,h.fresh haccepted,?_,?_⟩
    · intro pair hpair
      refine mem_alignClientUserMessageIds hroom ?_
      rcases mem_append.mp hpair with hold | hnew
      · exact mem_append_left _ (h.aligned pair hold)
      · rw [mem_singleton.mp hnew]
        exact mem_append_right _ (mem_singleton.mpr rfl)
    · exact Nat.le_of_eq (length_alignClientUserMessageIds _ _)
    · intro record hrecord
      rcases mem_storedAfter hrecord with hnew | hold
      · exact (h.named_checkpoint hok hrequest haccepted hnew).1
      · exact h.storedFits record hold

theorem crash (h : Recorded s) (hok : s.keepsTurns cfg i env = true) (hsaved : 0 < saved)
    (hs : s.step cfg (.crash i env saved) = some s') : Recorded s' := by
  obtain ⟨request,hrequest,hs⟩ := Option.bind_eq_some_iff.mp hs
  obtain ⟨content,haccepted,hs⟩ := Option.bind_eq_some_iff.mp hs
  refine restored ?_ (h.fresh haccepted) hs
  intro record hrecord
  have hmem : record ∈ s.core.checkpoints cfg (request.prompt env false) content := by
    have hlast : ((s.core.checkpoints cfg (request.prompt env false) content).take saved).getLast?.isSome
        = true := by
      rw [getLast?_isSome,SessionCore.checkpoints,map_cons]
      obtain ⟨n,rfl⟩ := Nat.exists_eq_add_of_lt hsaved
      simp
    obtain ⟨last,hlast⟩ := Option.isSome_iff_exists.mp hlast
    have heq : s.storedAfter cfg (request.prompt env false) content saved = some last := by
      rw [storedAfter,hlast]
      rfl
    obtain rfl : last=record := Option.some.inj (heq.symm.trans hrecord)
    exact mem_of_mem_take (mem_of_getLast? hlast)
  exact h.named_checkpoint hok hrequest haccepted hmem

theorem step (h : Recorded s) {a : RequestAction} (hok : s.stepOk cfg a = true)
    (hs : s.step cfg a = some s') : Recorded s' := by
  cases a with
  | receive =>
    simp only [RequestRun.step] at hs
    split_ifs at hs <;> cases hs <;> exact ⟨h.idle,h.executed,h.once,h.fits,h.storedFits⟩
  | refuse =>
    cases hs
    exact ⟨h.idle,h.executed,h.once,h.fits,h.storedFits⟩
  | unprepared =>
    cases hs
    exact h.align _
  | begin => exact h.begin hok hs
  | crash =>
    simp only [stepOk,Bool.and_eq_true,decide_eq_true_eq] at hok
    exact h.crash hok.1 hok.2 hs
  | clear =>
    cases hs
    have hnone : s.executed = [] := by
      rw [eq_nil_iff_forall_not_mem]
      intro pair hpair
      have hempty := all_eq_true.mp hok _ (h.executed pair hpair)
      exact clientRequestKey_ne_empty pair.1 pair.2 (by simpa using hempty)
    refine ⟨rfl,?_,h.once,Nat.zero_le _,h.storedFits⟩
    intro pair hpair
    rw [hnone] at hpair
    cases hpair
  | save =>
    cases hs
    refine ⟨h.idle,h.executed,h.once,h.fits,?_⟩
    intro record hrecord
    cases hrecord
    exact h.fits.trans_eq (userTurnCount_eq s.core.session)
  | restart =>
    refine restored ?_ h.once hs
    intro record hrecord
    have hsome : s.stored = some record := hrecord
    rw [stepOk,hsome,Option.all_some,all_eq_true] at hok
    refine ⟨h.storedFits record hrecord,?_⟩
    intro pair hpair
    simpa using hok _ (h.executed pair hpair)

end Recorded

/-- In every run whose steps all meet `stepOk`, no request is executed twice. -/
theorem executed_once_of_reaches (cfg : CoreConfig) {s : RequestRun}
    (h : (system cfg).Reaches (fun s a => s.stepOk cfg a = true) s) : s.executed.Nodup := by
  have hrecorded : Recorded s :=
    h.invariant (Recorded.opened cfg) fun _ _ _ hs hok hstep => hs.step hok hstep
  exact hrecorded.once

/-- A session that compacts as soon as there is a turn to evict. -/
def eagerConfig : CoreConfig where
  agent := {
    model := "m"
    providerRetry := { maxAttempts := 1 }
    autoContinueBudget := some 0
    cancelledTurnNote := "cancelled"
    compaction := some { shouldCompact := fun tokens => decide (0<tokens), targetTokens := 0 } }
  expandManualInvocation := .ok
  outcomeMapper _ := .completed
  maxActiveTools := 8
  maxOutputBytes := 1024

def said (text : String) : LlmResponse := { content := [.text text], stopReason := .endTurn }

def answered : LiveEnv where
  proactive := [said "earlier"]
  rounds := [{ attempts := [{ deltas := [.textDelta "ok"], response := said "ok" }] }]

def request (n : String) : PromptRequest where
  clientId := "phone"
  requestId := n
  text := "do " ++ n

/-- A request sent twice before its turn, a crash in the next turn, and both sent again. -/
theorem executed_once_resent :
    ∃ s, (system eagerConfig).Reaches (fun s a => s.stepOk eagerConfig a = true) s ∧
      s.executed = [("phone", "1"), ("phone", "2")] ∧ s.executed.Nodup := by
  obtain ⟨s,-,hreach,hexecuted⟩ := (system eagerConfig).exists_of_replay
    (fun s a => s.stepOk eagerConfig a = true)
    [.receive (request "1"), .receive (request "1"), .begin 0 answered false 1, .save,
      .begin 0 answered false 0, .receive (request "2"), .crash 0 answered 1,
      .receive (request "1"), .receive (request "2")]
    (fun s => s.executed = [("phone", "1"), ("phone", "2")]) (by decide +kernel)
  exact ⟨s,hreach,hexecuted,executed_once_of_reaches eagerConfig hreach⟩

/-- The turn of the first request is evicted, its id with it, and the request is executed again. -/
theorem executed_twice_compacted :
    ∃ s, (system eagerConfig).Reaches (fun _ _ => True) s ∧ ¬ s.executed.Nodup := by
  obtain ⟨s,-,hreach,htwice⟩ := (system eagerConfig).exists_of_replay (fun _ _ => True)
    [.receive (request "1"), .begin 0 answered false 1, .receive (request "2"),
      .begin 0 answered false 1, .receive (request "3"), .begin 0 answered false 1,
      .receive (request "1"), .begin 0 answered false 1]
    (fun s => ¬ s.executed.Nodup) (by decide +kernel)
  exact ⟨s,hreach,htwice⟩

end RequestRun

end Daimonos.Session
