import Daimonos.Agent.TurnJournal

namespace Daimonos.Agent

open Framework Providers ToolOutput Compaction AgentSession List Staged

def isPrompt (m : Message) : Bool := m.origin == .prompt

/-- The user-role texts the loop injects in the middle of a turn. -/
def IsNudge (m : Message) : Prop := m = .user autoContinueNudge ∨ m = .user errorResumeNudge

def ResultsOnly (m : Message) : Prop := ∀ b∈m.content, b.isToolResult=true

structure Known (m : Message) : Prop where
  prompt : m.origin=.prompt → m.role=.user
  session : m.origin=.session →
    m.role=.assistant ∨ ResultsOnly m ∨ IsNudge m ∨ IsReplacement m

def AllKnown (messages : List Message) : Prop := ∀ m∈messages, Known m

variable (content : List ContentBlock)

theorem known_assistant :
    Known { role := .assistant, content } :=
  ⟨by simp,fun _ => .inl rfl⟩

theorem known_results {results : List ContentBlock} (h : ∀ b∈results, b.isToolResult=true) :
    Known { role := .user, content := results } :=
  ⟨fun _ => rfl,fun _ => .inr (.inl h)⟩

variable {m : Message} {messages : List Message}

theorem IsNudge.known (h : IsNudge m) : Known m := by
  refine ⟨?_,fun _ => .inr (.inr (.inl h))⟩
  rcases h with rfl | rfl <;> exact fun _ => rfl

theorem IsReplacement.known (h : IsReplacement m) : Known m :=
  ⟨fun _ => h.role,fun _ => .inr (.inr (.inr h))⟩

theorem AllKnown.append {xs ys : List Message} (hx : AllKnown xs) (hy : AllKnown ys) :
    AllKnown (xs++ys) := by
  intro m hm
  rcases mem_append.mp hm with hm | hm
  · exact hx m hm
  · exact hy m hm

theorem allKnown_singleton (h : Known m) : AllKnown [m] := by
  simpa [AllKnown] using h

theorem AllKnown.sublist {xs ys : List Message} (h : AllKnown ys) (hs : xs.Sublist ys) :
    AllKnown xs :=
  fun m hm => h m (hs.mem hm)

theorem AllKnown.close (h : AllKnown messages) :
    AllKnown (closeOrphanToolCalls messages) := by
  rw [closeOrphanToolCalls_eq]
  intro m hm
  rcases mem_insertAfter.mp hm with hm | ⟨a,-,hc⟩
  · exact h m hm
  · obtain ⟨-,-,rfl⟩ := closing_some hc
    refine known_results fun b hb => ?_
    obtain ⟨id,-,rfl⟩ := mem_map.mp hb
    rfl

theorem popEmptyAssistant_sublist (messages : List Message) :
    (popEmptyAssistant messages).Sublist messages := by
  unfold popEmptyAssistant
  split
  · split_ifs
    · exact dropLast_sublist messages
    · exact List.Sublist.refl _
  · exact List.Sublist.refl _

theorem allKnown_closed : HistoryClosed AllKnown where
  close := fun h => h.close
  response := fun h => h.append (allKnown_singleton (known_assistant _))
  results := fun hr h => h.append (allKnown_singleton (known_results hr))
  nudge := by
    intro h text ht hh
    refine hh.append (allKnown_singleton (IsNudge.known ?_))
    rcases ht with rfl | rfl
    · exact .inl rfl
    · exact .inr rfl
  pop := fun h => h.sublist (popEmptyAssistant_sublist _)

-- Compaction inside a turn rewrites no text, so it keeps every message's kind.

theorem messageShape_eq_user {text : String} :
    messageShape m = .user text ↔ m = .user text := by
  constructor
  · intro h
    obtain ⟨role,content,origin⟩ := m
    simp only [messageShape,Message.user,Message.mk.injEq] at h ⊢
    obtain ⟨hr,hc,ho⟩ := h
    obtain ⟨b,rfl⟩ := length_eq_one_iff.mp (by simpa using congrArg List.length hc)
    cases b <;> simp_all [blockShape]
  · intro heq
    subst heq
    rfl

theorem resultsOnly_shape (m : Message) : ResultsOnly (messageShape m) ↔ ResultsOnly m := by
  have hb : ∀ b : ContentBlock, (blockShape b).isToolResult = b.isToolResult := by
    intro b
    cases b <;> rfl
  simp [ResultsOnly,messageShape,hb]

theorem known_shape (m : Message) : Known (messageShape m) ↔ Known m := by
  have hn : IsNudge (messageShape m) ↔ IsNudge m := by
    simp only [IsNudge,messageShape_eq_user]
  have hr : IsReplacement (messageShape m) ↔ IsReplacement m := by
    simp only [IsReplacement,dropMarkerMessage,summaryMessage,messageShape_eq_user]
  constructor
  · intro hx
    obtain ⟨hp,hs⟩ := hx
    exact ⟨hp,fun ho => by simpa only [hn,hr,resultsOnly_shape,messageShape_role] using hs ho⟩
  · intro hx
    obtain ⟨hp,hs⟩ := hx
    exact ⟨hp,fun ho => by simpa only [hn,hr,resultsOnly_shape,messageShape_role] using hs ho⟩

theorem AllKnown.microcompact (h : AllKnown messages)
    (files : OutputFiles) (cfg : ToolOutputConfig) :
    AllKnown (microcompactHistory files cfg messages).1 := by
  have hshape : ∀ l : List Message, AllKnown (l.map messageShape) ↔ AllKnown l := by
    simp [AllKnown,known_shape]
  rw [← hshape,microcompactHistory_shape,hshape]
  exact h

theorem AllKnown.materializeLoop (note : String)
    (h : AllKnown messages) : AllKnown (materializeLoop note messages) := by
  have hnew : ∀ ids, Known { role := .user, content := orderedResults note ids [] } :=
    fun ids => known_results (orderedResults_isToolResult (by simp))
  fun_induction Agent.materializeLoop note messages with
  | case1 | case2 m hm => exact h
  | case3 m hm => exact h.append (allKnown_singleton (hnew _))
  | case4 m n rest hm ih =>
    have htail := ih fun x hx => h x (mem_cons_of_mem _ hx)
    exact (allKnown_singleton (h m (by simp))).append htail
  | case5 m n rest hm hn ih =>
    have htail := ih fun x hx => h x (by simp [hx])
    have hkept : Known { n with content := orderedResults note (messageCallIds m) n.content } := by
      refine ⟨(h n (by simp)).prompt,fun _ => .inr (.inl ?_)⟩
      exact orderedResults_isToolResult (isResultMessage_results hn)
    exact (allKnown_singleton (h m (by simp))).append ((allKnown_singleton hkept).append htail)
  | case6 m n rest hm hn ih =>
    have htail := ih fun x hx => h x (mem_cons_of_mem _ hx)
    exact (allKnown_singleton (h m (by simp))).append ((allKnown_singleton (hnew _)).append htail)

theorem AllKnown.materialize {note : String} (h : AllKnown messages) :
    AllKnown (materializeCancelledSuffix messages note) := by
  have hloop := h.materializeLoop note
  unfold materializeCancelledSuffix
  by_cases hn : note = ""
  · rw [hn] at hloop ⊢
    exact hloop
  · generalize Agent.materializeLoop note messages = body at hloop
    have hnote := appendNote_noteAppended hn body
    generalize appendNote note body = out at hnote
    cases hnote with
    | merged init m hm =>
      refine (hloop.sublist (sublist_append_left _ _)).append (allKnown_singleton ?_)
      exact ⟨(hloop m (by simp)).prompt,fun _ => .inl hm⟩
    | pushed => exact hloop.append (allKnown_singleton (known_assistant _))

structure KnownSession (s : AgentSession) : Prop where
  messages : AllKnown s.messages
  journal : ∀ journal, s.inflightTurn = some journal → AllKnown journal.suffix

variable {cfg : SessionConfig} {user : Message} {s : AgentSession}

theorem KnownSession.same {t : AgentSession} (h : KnownSession s) (hs : SameTurn s t) :
    KnownSession t := by
  obtain ⟨hm,hj,-,-⟩ := hs
  exact ⟨by rw [hm]; exact h.messages,by rw [hj]; exact h.journal⟩

theorem KnownSession.withJournal (h : KnownSession s) {f : TurnJournalState → TurnJournalState}
    (hf : ∀ journal, AllKnown journal.suffix → AllKnown (f journal).suffix) :
    KnownSession { s with inflightTurn := s.inflightTurn.map f } := by
  refine ⟨h.messages,?_⟩
  intro journal hj
  obtain ⟨old,hold,rfl⟩ := Option.map_eq_some_iff.mp hj
  exact hf old (h.journal old hold)

theorem KnownSession.reset (h : KnownSession s) (hu : Known user) :
    KnownSession (resetTurnJournal user s) :=
  h.withJournal fun _ _ => allKnown_singleton hu

theorem KnownSession.restore (h : KnownSession s) {r : AgentResult}
    (hr : AllKnown r.messages) : KnownSession (restoreTurnJournalFromResult r s) :=
  h.withJournal fun _ _ => hr.sublist (drop_sublist _ _)

theorem KnownSession.apply (h : KnownSession s) {baseLen : Nat} {e : Effect}
    (he : ∀ messages, e = .checkpoint messages → AllKnown messages) :
    KnownSession (applyEffect cfg baseLen s e) := by
  cases e with
  | contextPruned => exact ⟨h.messages,h.journal⟩
  | checkpoint messages =>
    obtain ⟨hm,hj⟩ := h.withJournal (f := fun journal =>
      { journal with suffix := messages.drop baseLen })
      fun _ _ => (he messages rfl).sublist (drop_sublist _ _)
    exact ⟨hm,hj⟩
  | recordUsage => exact h.withJournal fun _ hj => hj
  | request => exact h

theorem KnownSession.finalize (h : KnownSession s) (applied : Bool) :
    AllKnown (finalizeCancelledTurn cfg applied s).2.messages := by
  cases hj : s.inflightTurn with
  | none => simpa [finalizeCancelledTurn,hj] using h.messages
  | some journal =>
    have hfin : (finalizeCancelledTurn cfg applied s).2.messages =
        cancelledMessages cfg journal s.messages := by
      simp only [finalizeCancelledTurn,hj]
      split_ifs <;> rfl
    rw [hfin,cancelledMessages]
    refine AllKnown.append ?_ (h.journal journal hj).materialize
    cases journal.mode with
    | append => exact h.messages
    | replaceFrom => exact h.messages.sublist (take_sublist _ _)

theorem KnownSession.begin (cfg : SessionConfig) (h : KnownSession s) (hu : Known user)
    (mode : TurnJournalMode) : KnownSession (beginTurnJournal cfg mode user s) := by
  unfold beginTurnJournal
  split_ifs
  · refine ⟨h.finalize false,?_⟩
    intro _ hcase
    cases hcase
    exact allKnown_singleton hu
  · refine ⟨h.messages,?_⟩
    intro _ hcase
    cases hcase
    exact allKnown_singleton hu

theorem runInner_known (cfg : AgentConfig) (rounds : List Round) {initial : List Message}
    (h : AllKnown initial) :
    (∀ e ∈ (runInner cfg rounds initial).1, ∀ messages, e = .checkpoint messages →
      AllKnown messages) ∧
      ∀ r, (runInner cfg rounds initial).2 = some r → AllKnown r.messages := by
  have hstep : ∀ round s, True → AllKnown s.messages →
      StepSound (fun s => AllKnown s.messages)
        (fun e => ∀ messages, e = .checkpoint messages → AllKnown messages)
        (fun r => AllKnown r.messages) (iterate cfg round s) :=
    fun round s _ hs => allKnown_closed.iterate (hs.microcompact round.files cfg.toolOutput)
  obtain ⟨heff,hres⟩ := run_sound hstep rounds { messages := initial }
    (meets_of_forall (fun _ _ => trivial) _ _) h
  refine ⟨?_,hres⟩
  intro e he
  rcases mem_cons.mp he with rfl | he
  · intro _ hcase
    cases hcase
    exact h
  · exact heff e he

theorem KnownSession.attempt (h : KnownSession s) (hu : Known user)
    {history : List Message} (hh : AllKnown history) (rounds : List Round) :
    Staged.Holds (fun x => KnownSession x.2) (fun x => KnownSession x.1 ∧ AllKnown x.2.messages)
      (attemptWithHistory cfg rounds history user s) := by
  obtain ⟨heff,hres⟩ := runInner_known cfg.toAgentConfig rounds (hh.append (allKnown_singleton hu))
  obtain ⟨hall,hlast⟩ := watch_invariant (applyEffect cfg history.length) (W := KnownSession)
    (fun g e he hg => hg.apply (heff e he)) (h.reset hu)
  refine ⟨?_,?_⟩
  · intro x hx
    simp only [attemptWithHistory,mem_map] at hx
    obtain ⟨t,ht,rfl⟩ := hx
    exact hall t ht
  · intro x hx
    simp only [attemptWithHistory,Option.map_eq_some_iff] at hx
    obtain ⟨r,hr,rfl,rfl⟩ := hx
    exact ⟨⟨hlast.messages,hlast.journal⟩,hres r hr⟩

theorem KnownSession.compact (h : KnownSession s) (phase : Phase) (answers : List LlmResponse) :
    Staged.Holds (fun x => KnownSession x.2) (fun x => KnownSession x.1)
      (compact cfg phase answers s) := by
  obtain ⟨hall,hres⟩ := compact_holds cfg phase answers s
  refine ⟨fun x hx => h.same (hall x hx).2,?_⟩
  intro x ht
  obtain ⟨t,evicted⟩ := x
  rcases hres _ ht with ⟨-,rfl⟩ | ⟨-,m,cut,hm,hsame⟩
  · exact h
  · have hnew : KnownSession { s with messages := m :: s.messages.drop cut } :=
      ⟨(allKnown_singleton hm.known).append (h.messages.sublist (drop_sublist _ _)),h.journal⟩
    exact hnew.same hsame

theorem KnownSession.repair (h : KnownSession s) :
    KnownSession (repairHistory s) := by
  unfold repairHistory
  split_ifs
  · exact ⟨h.messages.close,h.journal⟩
  · exact h

theorem holds_finish {P : Phase × AgentSession → Prop} {Q : AgentSession × AgentResult → Prop}
    {r : AgentResult} {phase : Phase} (hp : P (phase, s)) (hq : Q (s, r)) :
    Staged.Holds P Q (do visit (phase, s); pure (s, r)) :=
  holds_bind (Q := fun _ => True) (holds_visit hp trivial)
    fun _ _ => holds_pure hq

theorem KnownSession.promptAttempt (h : KnownSession s) (hu : Known user) (env : PromptEnv) :
    Staged.Holds (fun x => KnownSession x.2)
      (fun x => KnownSession x.1 ∧ AllKnown x.2.messages) (runPromptAttempt cfg env user s) := by
  have hproactive : Staged.Holds (fun x => KnownSession x.2) KnownSession
      (proactiveCompaction cfg env.proactive (repairHistory s)) := by
    unfold proactiveCompaction
    split_ifs
    · exact holds_bind (h.repair.compact .proactiveSummary env.proactive) fun x hx => holds_pure hx
    · exact holds_pure h.repair
  refine holds_bind hproactive ?_
  intro t ht
  refine holds_bind (ht.attempt hu ht.messages env.rounds) ?_
  intro x hx
  obtain ⟨hfailed,hresult⟩ := hx
  dsimp only at hfailed hresult ⊢
  split_ifs with hover
  · refine holds_bind ((hfailed.reset hu).compact _ env.reactive) ?_
    intro x ht'
    obtain ⟨t',evicted⟩ := x
    split_ifs
    · refine holds_bind (ht'.attempt hu ht'.messages env.retryRounds) ?_
      intro x ht''
      exact holds_finish ht''.1 ht''
    · have hrestored := ht'.restore hresult
      exact holds_finish hrestored ⟨hrestored,hresult⟩
  · exact holds_finish hfailed ⟨hfailed,hresult⟩

theorem KnownSession.retry (h : KnownSession s) (hu : Known user)
    (rounds : List Round) (index : Nat) :
    Staged.Holds (fun x => KnownSession x.2)
      (fun x => KnownSession x.1 ∧ AllKnown x.2.messages) (retryTurn cfg rounds index user s) := by
  have hbegin := h.begin cfg hu (.replaceFrom index)
  refine holds_bind (Q := fun _ => True) (holds_visit hbegin trivial) fun _ _ => ?_
  refine holds_bind (hbegin.attempt hu (h.messages.sublist (take_sublist index _)) rounds) ?_
  intro x ht
  exact holds_finish ht.1 ht

def promptMessage (content : List ContentBlock) : Message :=
  { role := .user, content, origin := .prompt }

theorem promptMessage_known : Known (promptMessage content) :=
  ⟨fun _ => rfl,by simp [promptMessage]⟩

/-- What can happen to a session's history: prompts and retries that run to their end or
are cancelled anywhere, and the operations frontends apply between turns. -/
inductive SessionStep (cfg : SessionConfig) : AgentSession → AgentSession → Prop
  | prompted {s s' : AgentSession} {env : PromptEnv} {content : List ContentBlock}
      {r : AgentResult} :
      (stagedPromptMessage cfg env (promptMessage content) s).result = some (s', r) →
      SessionStep cfg s (commitStaged r s')
  | promptCancelled {s : AgentSession} {env : PromptEnv} {content : List ContentBlock}
      {x : Phase × AgentSession} {applied : Bool} :
      x ∈ (stagedPromptMessage cfg env (promptMessage content) s).states →
      SessionStep cfg s (finalizeCancelledTurn cfg applied x.2).2
  | retried {s s' : AgentSession} {rounds : List Round}
      {turn : Turn (AgentSession × AgentResult)} {r : AgentResult} :
      stagedRetryLastTurn cfg rounds s = .ok turn → turn.result = some (s', r) →
      SessionStep cfg s (commitStaged r s')
  | retryCancelled {s : AgentSession} {rounds : List Round}
      {turn : Turn (AgentSession × AgentResult)} {x : Phase × AgentSession} {applied : Bool} :
      stagedRetryLastTurn cfg rounds s = .ok turn → x∈turn.states →
      SessionStep cfg s (finalizeCancelledTurn cfg applied x.2).2
  | truncated {s s' : AgentSession} {i : Nat} :
      truncateFromUserTurn i s = .ok s' → SessionStep cfg s s'
  | prefixed {s s' : AgentSession} {text : String} :
      insertAssistantTurnPrefix text s = .ok s' → SessionStep cfg s s'
  | cleared {s : AgentSession} : SessionStep cfg s (clear s)

def ReachableSession (cfg : SessionConfig) (s : AgentSession) : Prop :=
  Relation.ReflTransGen (SessionStep cfg) {} s

structure KnownIdle (s : AgentSession) : Prop where
  messages : AllKnown s.messages
  idle : s.inflightTurn=none

theorem KnownIdle.session (h : KnownIdle s) : KnownSession s :=
  ⟨h.messages,by simp [h.idle]⟩

theorem finalize_idle (cfg : SessionConfig) (applied : Bool) (s : AgentSession) :
    (finalizeCancelledTurn cfg applied s).2.inflightTurn = none := by
  cases hj : s.inflightTurn with
  | none => simp [finalizeCancelledTurn,hj]
  | some journal =>
    simp only [finalizeCancelledTurn,hj]
    split_ifs <;> rfl

theorem KnownIdle.prompt (h : KnownIdle s) (env : PromptEnv) (content : List ContentBlock) :
    Staged.Holds (fun x => KnownSession x.2) (fun x => KnownSession x.1 ∧ AllKnown x.2.messages)
      (stagedPromptMessage cfg env (promptMessage content) s) := by
  have hu := promptMessage_known content
  have hbegin := h.session.begin cfg hu .append
  exact holds_bind (Q := fun _ => True) (holds_visit hbegin trivial)
    fun _ _ => hbegin.promptAttempt hu env

theorem KnownIdle.stagedRetry (h : KnownIdle s) {rounds : List Round}
    {turn : Turn (AgentSession × AgentResult)} (ht : stagedRetryLastTurn cfg rounds s = .ok turn) :
    Staged.Holds (fun x => KnownSession x.2)
      (fun x => KnownSession x.1 ∧ AllKnown x.2.messages) turn := by
  simp only [stagedRetryLastTurn] at ht
  split at ht
  · cases ht
  · rename_i index user heq
    cases ht
    obtain ⟨i,-,hi⟩ := Option.bind_eq_some_iff.mp heq
    obtain ⟨m,hm,hpair⟩ := Option.map_eq_some_iff.mp hi
    cases hpair
    exact h.session.retry (h.messages user (List.mem_of_getElem? hm)) rounds index

theorem SessionStep.known {s' : AgentSession} (hstep : SessionStep cfg s s')
    (h : KnownIdle s) : KnownIdle s' := by
  cases hstep with
  | prompted hr => exact ⟨((h.prompt _ _).2 _ hr).2,rfl⟩
  | promptCancelled hx => exact ⟨((h.prompt _ _).1 _ hx).finalize _,finalize_idle _ _ _⟩
  | retried ht hr => exact ⟨((h.stagedRetry ht).2 _ hr).2,rfl⟩
  | retryCancelled ht hx => exact ⟨((h.stagedRetry ht).1 _ hx).finalize _,finalize_idle _ _ _⟩
  | truncated ht =>
    simp only [truncateFromUserTurn] at ht
    split at ht
    · cases ht
    · cases ht
      exact ⟨h.messages.sublist (take_sublist _ _),h.idle⟩
  | prefixed ht =>
    simp only [insertAssistantTurnPrefix] at ht
    split at ht
    · cases ht
    · rename_i index hi
      cases ht
      obtain ⟨u,hu,-⟩ := lastWhere_spec hi
      obtain ⟨hlt,-⟩ := List.getElem?_eq_some_iff.mp hu
      refine ⟨?_,h.idle⟩
      intro m hm
      rcases (mem_insertIdx hlt).mp hm with rfl | hm
      · exact known_assistant _
      · exact h.messages m hm
  | cleared => exact ⟨by simp [AllKnown,clear],rfl⟩

theorem reachable_known (h : ReachableSession cfg s) : KnownIdle s := by
  induction h with
  | refl => exact ⟨by simp [AllKnown],rfl⟩
  | tail _ hstep ih => exact hstep.known ih

/-- The user-turn operations work on what the user sent: they count the retained prompts,
cut right before the chosen one, and run the last one again after what preceded it. -/
structure UserTurnsExact (cfg : SessionConfig) (s : AgentSession) : Prop where
  count : userTurnCount s = (s.messages.filter isPrompt).length
  truncate : ∀ i, (truncateFromUserTurn i s).toOption.map (·.messages) =
    ((indicesWhere isPrompt s.messages)[i]?).map fun k => s.messages.take k
  retry : ∀ rounds, stagedRetryLastTurn cfg rounds s =
    match (lastWhere isPrompt s.messages).bind fun k => (s.messages[k]?).map (k, ·) with
    | none => .error noUserTurn
    | some (k, user) => .ok (retryTurn cfg rounds k user s)

def TurnsAgree (messages : List Message) : Prop :=
  ∀ m∈messages, isUserTurnMessage m = isPrompt m

theorem mem_indicesWhere {p : Message → Bool} {k : Nat} :
    k ∈ indicesWhere p messages ↔ ∃ m, messages[k]? = some m ∧ p m = true := by
  simp only [indicesWhere,mem_filterMap,Prod.exists,mem_zipIdx_iff_getElem?]
  constructor
  · intro hx
    obtain ⟨m,i,hi,hp⟩ := hx
    split_ifs at hp with hm
    cases hp
    exact ⟨m,hi,hm⟩
  · intro hx
    obtain ⟨m,hi,hm⟩ := hx
    exact ⟨m,k,hi,by simp [hm]⟩

theorem indicesWhere_congr {p q : Message → Bool}
    (h : ∀ m∈messages, p m = q m) : indicesWhere p messages = indicesWhere q messages := by
  refine filterMap_congr ?_
  intro x hi
  obtain ⟨m,i⟩ := x
  have hm : m∈messages := List.mem_of_getElem? (mem_zipIdx_iff_getElem?.mp hi)
  simp [h m hm]

theorem lastWhere_congr {p q : Message → Bool}
    (h : ∀ m∈messages, p m = q m) : lastWhere p messages = lastWhere q messages := by
  induction messages with
  | nil => rfl
  | cons m rest ih =>
    simp only [lastWhere,ih fun x hx => h x (by simp [hx]),h m (by simp)]

theorem truncateFromUserTurn_messages (i : Nat) (s : AgentSession) :
    (truncateFromUserTurn i s).toOption.map (·.messages) =
      ((indicesWhere isUserTurnMessage s.messages)[i]?).map fun k => s.messages.take k := by
  unfold truncateFromUserTurn
  split
  · rename_i hi
    simp [hi,Except.toOption]
  · rename_i k hi
    simp [hi,Except.toOption]

/-- Cutting before every turn tells where the turns are. -/
theorem agree_of_truncate
    (h : ∀ i : Nat, ((indicesWhere isUserTurnMessage messages)[i]?).map (fun k => messages.take k) =
      ((indicesWhere isPrompt messages)[i]?).map fun k => messages.take k) : TurnsAgree messages := by
  have hlt : ∀ {p : Message → Bool} {i k : Nat}, (indicesWhere p messages)[i]? = some k →
      (messages.take k).length = k := by
    intro p i k hk
    obtain ⟨m,hm,-⟩ := mem_indicesWhere.mp (List.mem_of_getElem? hk)
    have hbound := (List.getElem?_eq_some_iff.mp hm).1
    simp only [List.length_take]
    omega
  have heq : indicesWhere isUserTurnMessage messages = indicesWhere isPrompt messages := by
    apply ext_getElem?
    intro i
    have hi := congrArg (Option.map List.length) (h i)
    cases hu : (indicesWhere isUserTurnMessage messages)[i]? with
    | none =>
      cases hp : (indicesWhere isPrompt messages)[i]? with
      | none => rfl
      | some b => simp [hu,hp] at hi
    | some a =>
      cases hp : (indicesWhere isPrompt messages)[i]? with
      | none => simp [hu,hp] at hi
      | some b =>
        simp only [hu,hp,Option.map_some,hlt hu,hlt hp,Option.some.injEq] at hi
        rw [hi]
  intro m hm
  obtain ⟨k,hk⟩ := mem_iff_getElem?.mp hm
  have hmem : ∀ p : Message → Bool, k ∈ indicesWhere p messages ↔ p m = true := by
    simp [mem_indicesWhere,hk]
  rw [Bool.eq_iff_iff,← hmem,← hmem,heq]

theorem userTurnsExact_iff_agree (cfg : SessionConfig) (s : AgentSession) :
    UserTurnsExact cfg s ↔ TurnsAgree s.messages := by
  constructor
  · intro h
    refine agree_of_truncate fun i => ?_
    rw [← truncateFromUserTurn_messages,h.truncate]
  · intro h
    refine ⟨?_,fun i => ?_,fun rounds => ?_⟩
    · rw [userTurnCount,filter_congr h]
    · rw [truncateFromUserTurn_messages,indicesWhere_congr h]
    · have hlast : lastUserTurn s.messages = lastWhere isPrompt s.messages := lastWhere_congr h
      exact hlast ▸ rfl

/-- A prompt the classifier can recognise: it shows an image, or a text that does not
begin like a compaction message. -/
def ShowsPrompt (content : List ContentBlock) : Prop :=
  ∃ b∈content, (∃ text, b = .text text ∧
      ¬ "[Summary of earlier conversation:".toList <+: text.toList ∧
      ¬ "[Earlier conversation truncated".toList <+: text.toList) ∨
    ∃ data mediaType uri, b = .image data mediaType uri

theorem isUserTurnMessage_iff (m : Message) :
    isUserTurnMessage m = true ↔ m.role=.user ∧ ShowsPrompt m.content := by
  simp only [isUserTurnMessage,Bool.and_eq_true,beq_iff_eq,any_eq_true,ShowsPrompt]
  refine and_congr_right fun _ => exists_congr fun b => and_congr_right fun _ => ?_
  cases b <;> simp [← isPrefixOf_iff_prefix]

theorem IsReplacement.not_shows (h : IsReplacement m) : ¬ ShowsPrompt m.content := by
  rcases h with rfl | ⟨text,rfl⟩
  · intro hx
    obtain ⟨b,hb,⟨t,rfl,-,ht⟩ | ⟨_,_,_,rfl⟩⟩ := hx
    · obtain rfl : t=_ := by simpa [dropMarkerMessage,Message.user] using hb
      exact ht (by decide)
    · simp [dropMarkerMessage,Message.user] at hb
  · intro hx
    obtain ⟨b,hb,⟨t,rfl,ht,-⟩ | ⟨_,_,_,rfl⟩⟩ := hx
    · obtain rfl : t=_ := by simpa [summaryMessage,Message.user] using hb
      refine ht ⟨' ' :: (text ++ "]").toList,?_⟩
      simp [String.toList_append]
    · simp [summaryMessage,Message.user] at hb

theorem IsNudge.isUserTurn (h : IsNudge m) : isUserTurnMessage m = true := by
  rcases h with rfl | rfl <;> decide +kernel

theorem Known.isUserTurn_session (h : Known m) (ho : m.origin=.session) :
    isUserTurnMessage m = true ↔ IsNudge m := by
  refine ⟨fun hu => ?_,IsNudge.isUserTurn⟩
  obtain ⟨hrole,hshows⟩ := (isUserTurnMessage_iff m).mp hu
  rcases h.session ho with hr | hr | hr | hr
  · simp [hrole] at hr
  · obtain ⟨b,hb,⟨_,rfl,-⟩ | ⟨_,_,_,rfl⟩⟩ := hshows
    all_goals exact absurd (hr _ hb) (by simp [ContentBlock.isToolResult,ContentBlock.resultId?])
  · exact hr
  · exact absurd hshows hr.not_shows

theorem Known.agrees_iff (h : Known m) :
    isUserTurnMessage m = isPrompt m ↔ ¬ IsNudge m ∧ (m.origin=.prompt → ShowsPrompt m.content) := by
  cases ho : m.origin with
  | prompt =>
    have hn : ¬ IsNudge m := by
      rintro (rfl | rfl) <;> simp [Message.user] at ho
    simp [isPrompt,ho,hn,isUserTurnMessage_iff,h.prompt ho]
  | session =>
    have hp : isPrompt m = false := by
      rw [isPrompt,ho]
      rfl
    rw [← h.isUserTurn_session ho,hp]
    simp

/-- In every session the user-turn operations are exact just when the history keeps no
nudge of the loop and every prompt in it can be recognised. -/
theorem userTurnsExact_iff (cfg : SessionConfig) (s : AgentSession) (h : ReachableSession cfg s) :
    UserTurnsExact cfg s ↔ (∀ m∈s.messages, ¬ IsNudge m) ∧
      ∀ m∈s.messages, m.origin=.prompt → ShowsPrompt m.content := by
  have hk := (reachable_known h).messages
  rw [userTurnsExact_iff_agree,← forall₂_and]
  exact forall₂_congr fun m hm => (hk m hm).agrees_iff

def continuingConfig : SessionConfig where
  model := "primary"
  providerRetry := { maxAttempts := 0 }
  autoContinueBudget := some 1
  cancelledTurnNote := "Turn cancelled."

def answerRound (text : String) (stopReason : StopReason) : Round where
  files := .unavailable
  attempts := [{ content := [.text text], stopReason }]

def prompted (rounds : List Round) : AgentSession :=
  match (stagedPromptMessage continuingConfig { rounds } (promptMessage [.text "go"]) {}).result with
  | some (s, r) => commitStaged r s
  | none => {}

theorem prompted_reachable (rounds : List Round) :
    ReachableSession continuingConfig (prompted rounds) := by
  unfold prompted
  split
  · rename_i s r heq
    exact .single (.prompted heq)
  · exact .refl

/-- A prompt that is answered at once. -/
theorem userTurnsExact_answered :
    UserTurnsExact continuingConfig (prompted [answerRound "done" .endTurn]) := by
  refine (userTurnsExact_iff continuingConfig _ (prompted_reachable _)).mpr ⟨?_,?_⟩
  · unfold IsNudge
    decide
  · intro m hm ho
    have hcontent : m.content = [.text "go"] := by
      revert m
      decide
    exact ⟨.text "go",by simp [hcontent],.inl ⟨"go",rfl,by decide,by decide⟩⟩

/-- One prompt whose answer was continued after `max_tokens` counts as two user turns. -/
theorem userTurns_autoContinued :
    ∃ s, ReachableSession continuingConfig s ∧ ¬ UserTurnsExact continuingConfig s := by
  refine ⟨prompted [answerRound "par" .maxTokens, answerRound "tial" .endTurn],
    prompted_reachable _,fun h => ?_⟩
  have hcount := h.count
  revert hcount
  decide +kernel

end Daimonos.Agent
