import Daimonos.Agent.RequestHistory
import Daimonos.Agent.UserTurns

namespace Daimonos.Agent

open Framework Providers ToolOutput Compaction AgentSession List

def countUserTurns (messages : List Message) : Nat := messages.countP isUserTurnMessage

theorem userTurnCount_eq (s : AgentSession) : s.userTurnCount = countUserTurns s.messages :=
  (countP_eq_length_filter ..).symm

@[simp] theorem countUserTurns_nil : countUserTurns [] = 0 := rfl

@[simp] theorem countUserTurns_append (xs ys : List Message) :
    countUserTurns (xs++ys) = countUserTurns xs + countUserTurns ys := countP_append

theorem countUserTurns_cons (m : Message) (messages : List Message) :
    countUserTurns (m::messages) =
      countUserTurns messages + if isUserTurnMessage m = true then 1 else 0 :=
  countP_cons

theorem isUserTurnMessage_assistant {m : Message} (h : m.role=.assistant) :
    isUserTurnMessage m = false := by
  simp [isUserTurnMessage,h]

theorem isUserTurnMessage_results {m : Message} (h : ∀ b∈m.content, b.isToolResult=true) :
    isUserTurnMessage m = false := by
  rw [← Bool.not_eq_true,isUserTurnMessage_iff]
  intro hturn
  obtain ⟨-,b,hb,⟨_,rfl,-⟩ | ⟨_,_,_,rfl⟩⟩ := hturn
  all_goals exact absurd (h _ hb) (by simp [ContentBlock.isToolResult,ContentBlock.resultId?])

theorem isUserTurnMessage_shape (m : Message) :
    isUserTurnMessage (messageShape m) = isUserTurnMessage m := by
  simp only [isUserTurnMessage,messageShape,any_map]
  congr 2
  funext b
  cases b <;> rfl

theorem countUserTurns_shape {xs ys : List Message} (h : xs.map messageShape = ys.map messageShape) :
    countUserTurns xs = countUserTurns ys := by
  have hcount : ∀ messages : List Message,
      countUserTurns (messages.map messageShape) = countUserTurns messages := by
    intro messages
    rw [countUserTurns,countP_map]
    exact countP_congr fun m _ => by rw [Function.comp_apply,isUserTurnMessage_shape]
  rw [← hcount xs,h,hcount]

-- Repairing and materializing a history add messages of results and rewrite such messages only.

theorem countUserTurns_close (messages : List Message) :
    countUserTurns (closeOrphanToolCalls messages) = countUserTurns messages := by
  rw [closeOrphanToolCalls_eq]
  refine countP_insertAfter ?_
  intro m _ closed hclosed
  rw [closing] at hclosed
  split_ifs at hclosed
  cases hclosed
  refine isUserTurnMessage_results ?_
  intro b hb
  obtain ⟨id,-,rfl⟩ := mem_map.mp hb
  rfl

theorem countUserTurns_materializeLoop (note : String) (messages : List Message) :
    countUserTurns (materializeLoop note messages) = countUserTurns messages := by
  have hnew : ∀ ids, isUserTurnMessage { role := .user, content := orderedResults note ids [] } =
      false := fun ids => isUserTurnMessage_results (orderedResults_isToolResult (by simp))
  fun_induction materializeLoop note messages with
  | case1 | case2 m hm => rfl
  | case3 m hm => simp [countUserTurns_cons,hnew]
  | case4 m n rest hm ih => rw [countUserTurns_cons,ih,countUserTurns_cons m]
  | case5 m n rest hm hn ih =>
    have hold := isUserTurnMessage_results (isResultMessage_results hn)
    have hkept : isUserTurnMessage
        { n with content := orderedResults note (messageCallIds m) n.content } = false :=
      isUserTurnMessage_results (orderedResults_isToolResult (isResultMessage_results hn))
    simp [countUserTurns_cons,ih,hold,hkept]
  | case6 m n rest hm hn ih =>
    rw [countUserTurns_cons,countUserTurns_cons,ih,hnew,countUserTurns_cons m (n::rest)]
    simp

theorem countUserTurns_materialize (messages : List Message) (note : String) :
    countUserTurns (materializeCancelledSuffix messages note) = countUserTurns messages := by
  rw [← countUserTurns_materializeLoop note messages,materializeCancelledSuffix]
  generalize materializeLoop note messages = body
  by_cases hn : note = ""
  · rw [hn,appendNote_empty]
  · have hnote := appendNote_noteAppended hn body
    generalize appendNote note body = out at hnote
    cases hnote with
    | merged init m hm => simp [countUserTurns_cons,isUserTurnMessage_assistant,hm]
    | pushed => simp [countUserTurns_cons,isUserTurnMessage,Message.assistant]

def Answered (base : List Message) : Prop :=
  ∀ m∈base, m.role=.assistant → ∀ id ∈ callIds m.content, id ∈ answeredIds base

/-- A loop history up to pruning: the base, the user's message, and what the turn added. -/
def Grown (base : List Message) (user : Message) (messages : List Message) : Prop :=
  ∃ base' user' added, messages=base'++user'::added ∧
    base'.map messageShape = base.map messageShape ∧ messageShape user' = messageShape user

namespace Grown

variable {base messages : List Message} {user : Message}

theorem start (base : List Message) (user : Message) : Grown base user (base ++ [user]) :=
  ⟨base,user,[],rfl,rfl,rfl⟩

theorem append (h : Grown base user messages) (more : List Message) :
    Grown base user (messages++more) := by
  obtain ⟨base',user',added,rfl,hbase,huser⟩ := h
  exact ⟨base',user',added++more,by simp,hbase,huser⟩

theorem of_shape (h : Grown base user messages) {messages' : List Message}
    (hshape : messages'.map messageShape = messages.map messageShape) :
    Grown base user messages' := by
  obtain ⟨base',user',added,rfl,hbase,huser⟩ := h
  rw [map_append,map_cons] at hshape
  obtain ⟨base'',rest,rfl,hbase'',hrest⟩ := map_eq_append_iff.mp hshape
  obtain ⟨user'',added'',rfl,huser'',-⟩ := map_eq_cons_iff.mp hrest
  exact ⟨base'',user'',added'',rfl,hbase''.trans hbase,huser''.trans huser⟩

theorem close (hb : Answered base) (h : Grown base user messages) :
    Grown base user (closeOrphanToolCalls messages) := by
  obtain ⟨base',user',added,rfl,hbase,huser⟩ := h
  rw [closeOrphanToolCalls_eq,insertAfter_append]
  have hkept : insertAfter (closing (answeredIds (base'++user'::added))) base' = base' := by
    refine insertAfter_eq_self fun m hm => closing_none fun hr id hid => ?_
    obtain ⟨old,hold,hshape⟩ := mem_map.mp (hbase ▸ mem_map_of_mem hm)
    have hrole : old.role=.assistant := by
      rw [← messageShape_role,hshape,messageShape_role,hr]
    have hcall : id ∈ callIds old.content := by
      rw [← callIds_shape,hshape,callIds_shape]
      exact hid
    rw [answeredIds_append,← answeredIds_shape base',hbase,answeredIds_shape]
    exact mem_append_left _ (hb old hold hrole id hcall)
  rw [hkept]
  exact ⟨base',user',_,rfl,hbase,huser⟩

theorem popEmptyAssistant (hu : user.role=.user) (h : Grown base user messages) :
    Grown base user (popEmptyAssistant messages) := by
  obtain ⟨base',user',added,rfl,hbase,huser⟩ := h
  have hrole : user'.role=.user := by rw [← messageShape_role,huser,messageShape_role,hu]
  have hextends : Extends base' user' (base'++user'::added) := ⟨added,rfl⟩
  obtain ⟨added',hpop⟩ := hextends.popEmptyAssistant hrole
  rw [hpop]
  exact ⟨base',user',added',rfl,hbase,huser⟩

theorem closed (hb : Answered base) (hu : user.role=.user) : HistoryClosed (Grown base user) where
  close := fun h => h.close hb
  response := fun h => h.append _
  results := fun _ h => h.append _
  nudge := fun _ h => h.append _
  pop := fun h => h.popEmptyAssistant hu

theorem count (h : Grown base user messages) (hu : isUserTurnMessage user = true) :
    1 ≤ countUserTurns (messages.drop base.length) ∧
      countUserTurns base + 1 ≤ countUserTurns messages := by
  obtain ⟨base',user',added,rfl,hbase,huser⟩ := h
  have hlength : base'.length=base.length := by
    simpa using congrArg List.length hbase
  have hcounts : isUserTurnMessage user' = true := by
    rw [← isUserTurnMessage_shape,huser,isUserTurnMessage_shape,hu]
  have hnew : 1 ≤ countUserTurns (user'::added) := by
    rw [countUserTurns_cons,if_pos hcounts]
    exact Nat.le_add_left 1 _
  rw [← hlength,drop_left,countUserTurns_append,countUserTurns_shape hbase]
  exact ⟨hnew,Nat.add_le_add_left hnew _⟩

end Grown

variable {cfg : SessionConfig} {user : Message} {base : List Message}

/-- A session in the middle of a turn that has counted: with its journal, and in what is durable,
there is one user turn more than in the base. -/
structure Counting (base : List Message) (t : AgentSession) : Prop where
  messages : t.messages=base
  journal : ∃ journal, t.inflightTurn = some journal ∧ journal.mode=.append ∧
    1 ≤ countUserTurns journal.suffix
  durable : ∀ messages, t.durable = some messages →
    countUserTurns base + 1 ≤ countUserTurns messages

namespace Counting

variable {t : AgentSession}

theorem withJournal (h : Counting base t) {f : TurnJournalState → TurnJournalState}
    (hf : ∀ journal, (f journal).mode = journal.mode ∧
      (1 ≤ countUserTurns journal.suffix → 1 ≤ countUserTurns (f journal).suffix)) :
    Counting base { t with inflightTurn := t.inflightTurn.map f } := by
  obtain ⟨journal,hj,hmode,hcount⟩ := h.journal
  refine ⟨h.messages,⟨f journal,by simp [hj],(hf journal).1.trans hmode,(hf journal).2 hcount⟩,
    h.durable⟩

theorem reset (h : Counting base t) (hu : isUserTurnMessage user = true) :
    Counting base (resetTurnJournal user t) :=
  h.withJournal fun _ => ⟨rfl,fun _ => by simp [countUserTurns_cons,hu]⟩

theorem restore (h : Counting base t) (hu : isUserTurnMessage user = true) {r : AgentResult}
    (hr : Grown base user r.messages) : Counting base (restoreTurnJournalFromResult r t) := by
  obtain ⟨journal,hj,hmode,-⟩ := h.journal
  refine ⟨h.messages,⟨{ journal with
    suffix := r.messages.drop t.messages.length
    usage := r.usage
    lastCallUsage := r.lastCallUsage },?_,hmode,?_⟩,h.durable⟩
  · simp [restoreTurnJournalFromResult,hj,hmode]
  · rw [h.messages]
    exact (hr.count hu).1

theorem apply (h : Counting base t) (hu : isUserTurnMessage user = true) {e : Effect}
    (he : ∀ messages, e = .checkpoint messages → Grown base user messages) :
    Counting base (applyEffect cfg base.length t e) := by
  cases e with
  | contextPruned => exact ⟨h.messages,h.journal,h.durable⟩
  | checkpoint messages =>
    obtain ⟨hsuffix,hall⟩ := (he messages rfl).count hu
    obtain ⟨journal,hj,hmode,-⟩ := h.journal
    refine ⟨h.messages,⟨{ journal with suffix := messages.drop base.length },?_,hmode,hsuffix⟩,?_⟩
    · simp [applyEffect,hj]
    · intro written hwritten
      cases hwritten
      rw [countUserTurns_materialize]
      exact hall
  | recordUsage => exact h.withJournal fun _ => ⟨rfl,id⟩
  | request => exact h

theorem finalize (h : Counting base t) (applied : Bool) :
    countUserTurns base + 1 ≤ countUserTurns (finalizeCancelledTurn cfg applied t).2.messages := by
  obtain ⟨journal,hj,hmode,hcount⟩ := h.journal
  have hfin : (finalizeCancelledTurn cfg applied t).2.messages =
      cancelledMessages cfg journal t.messages := by
    simp only [finalizeCancelledTurn,hj]
    split_ifs <;> rfl
  rw [hfin,cancelledMessages,hmode,h.messages,TurnJournalMode.base,countUserTurns_append,
    countUserTurns_materialize]
  exact Nat.add_le_add_left hcount _

theorem attempt (h : Counting base t) (hb : Answered base) (hu : isUserTurnMessage user = true)
    (rounds : List Round) :
    Staged.Holds (fun x => Counting base x.2)
      (fun x => Counting base x.1 ∧ Grown base user x.2.messages)
      (attemptWithHistory cfg rounds base user t) := by
  have hclosed := Grown.closed hb (isUserTurnMessage_role hu)
  have hstep : ∀ round s, True → Grown base user s.messages →
      StepSound (fun s => Grown base user s.messages)
        (fun e => ∀ messages, e = .checkpoint messages → Grown base user messages)
        (fun r => Grown base user r.messages) (iterate cfg.toAgentConfig round s) :=
    fun round s _ hs => hclosed.iterate
      (hs.of_shape (microcompactHistory_shape round.files cfg.toolOutput s.messages))
  obtain ⟨heff,hres⟩ := run_sound hstep rounds { messages := base ++ [user] }
    (meets_of_forall (fun _ _ => trivial) _ _) (Grown.start base user)
  have heffects : ∀ e ∈ (runInner cfg.toAgentConfig rounds (base ++ [user])).1,
      ∀ messages, e = .checkpoint messages → Grown base user messages := by
    intro e he
    rcases mem_cons.mp he with rfl | he
    · intro _ hcase
      cases hcase
      exact Grown.start base user
    · exact heff e he
  obtain ⟨hall,hlast⟩ := watch_invariant (applyEffect cfg base.length) (W := Counting base)
    (fun g e he hg => hg.apply hu (heffects e he)) (h.reset hu)
  refine ⟨?_,?_⟩
  · intro x hx
    simp only [attemptWithHistory,mem_map] at hx
    obtain ⟨t',ht',rfl⟩ := hx
    exact hall t' ht'
  · intro x hx
    simp only [attemptWithHistory,Option.map_eq_some_iff] at hx
    obtain ⟨r,hr,rfl,rfl⟩ := hx
    exact ⟨⟨hlast.messages,hlast.journal,hlast.durable⟩,hres r hr⟩

end Counting

variable {s : AgentSession}

theorem attemptWithHistory_result {rounds : List Round} {history : List Message}
    {s' : AgentSession} {r : AgentResult}
    (h : (attemptWithHistory cfg rounds history user s).result = some (s', r)) :
    (run (iterate cfg.toAgentConfig) rounds { messages := history ++ [user] }).2 = some r ∧
      s'.messages=s.messages := by
  have happly : ∀ (effects : List Effect) (t : AgentSession),
      (effects.foldl (applyEffect cfg history.length) t).messages = t.messages := by
    intro effects
    induction effects with
    | nil => exact fun _ => rfl
    | cons e effects ih =>
      intro t
      rw [foldl_cons,ih]
      cases e <;> rfl
  obtain ⟨r',hr,heq⟩ := Option.map_eq_some_iff.mp h
  cases heq
  exact ⟨hr,happly _ _⟩

theorem compact_of_no_cut
    (h : ∀ policy∈cfg.compaction, chooseCut s.messages policy.targetTokens = none) (phase : Phase)
    (answers : List LlmResponse) : compact cfg phase answers s = pure (s, false) := by
  have hnone : (cfg.compaction >>= fun policy => chooseCut s.messages policy.targetTokens) = none := by
    cases hpolicy : cfg.compaction with
    | none => rfl
    | some policy => exact h policy hpolicy
  rw [compact,hnone]

theorem beginTurnJournal_idle (cfg : SessionConfig) (user : Message) (hidle : s.inflightTurn=none) :
    beginTurnJournal cfg .append user s = { s with
        inflightTurn := some { mode := .append, suffix := [user] }
        durable := none
        pruned := false } := by
  simp [beginTurnJournal,hidle]

theorem repair_begin (cfg : SessionConfig) (user : Message) (hidle : s.inflightTurn=none) :
    (repairHistory (beginTurnJournal cfg .append user s)).messages = (repairHistory s).messages ∧
      (repairHistory (beginTurnJournal cfg .append user s)).lastPromptTokens =
        (repairHistory s).lastPromptTokens := by
  rw [beginTurnJournal_idle cfg user hidle]
  unfold repairHistory
  split_ifs <;> exact ⟨rfl,rfl⟩

structure EvictsNone (cfg : SessionConfig) (env : PromptEnv) (user : Message) (s : AgentSession) :
    Prop where
  proactive : ∀ policy∈cfg.compaction, policy.shouldCompact (occupancy cfg s) = true →
    chooseCut s.messages policy.targetTokens = none
  reactive : ∀ r, (run (iterate cfg.toAgentConfig) env.rounds { messages := s.messages ++ [user] }).2 =
    some r → r.contextOverflow=true →
      ∀ policy∈cfg.compaction, chooseCut s.messages policy.targetTokens = none

namespace EvictsNone

variable {env : PromptEnv} {s : AgentSession}

theorem congr (h : EvictsNone cfg env user s) {t : AgentSession} (hmessages : t.messages=s.messages)
    (htokens : t.lastPromptTokens = s.lastPromptTokens) : EvictsNone cfg env user t := by
  have hoccupancy : occupancy cfg t = occupancy cfg s := by
    rw [occupancy,occupancy,hmessages,htokens]
  refine ⟨?_,?_⟩
  · rw [hmessages,hoccupancy]
    exact h.proactive
  · rw [hmessages]
    exact h.reactive

theorem proactiveCompaction_eq (h : EvictsNone cfg env user s) (answers : List LlmResponse) :
    proactiveCompaction cfg answers s = pure s := by
  unfold proactiveCompaction
  split_ifs with hcompact
  · have hnocut : ∀ policy∈cfg.compaction, chooseCut s.messages policy.targetTokens = none := by
      intro policy hpolicy
      have hsome : cfg.compaction = some policy := hpolicy
      rw [hsome,Option.any_some] at hcompact
      exact h.proactive policy hpolicy hcompact
    rw [compact_of_no_cut hnocut]
    rfl
  · rfl

theorem compact_eq (h : EvictsNone cfg env user s) {s' : AgentSession} {r : AgentResult}
    (hattempt : (attemptWithHistory cfg env.rounds s.messages user s).result = some (s', r))
    (hoverflow : r.contextOverflow=true) (phase : Phase) (answers : List LlmResponse) :
    compact cfg phase answers (resetTurnJournal user s') = pure (resetTurnJournal user s', false) := by
  obtain ⟨hrun,hkept⟩ := attemptWithHistory_result hattempt
  have hnocut := h.reactive r hrun hoverflow
  rw [← hkept] at hnocut
  exact compact_of_no_cut (s := resetTurnJournal user s') hnocut phase answers

theorem begin (h : EvictsNone cfg env user (repairHistory s)) (hidle : s.inflightTurn=none) :
    EvictsNone cfg env user (repairHistory (beginTurnJournal cfg .append user s)) :=
  h.congr (repair_begin cfg user hidle).1 (repair_begin cfg user hidle).2

end EvictsNone

theorem answered_repair (s : AgentSession) : Answered (repairHistory s).messages := by
  unfold repairHistory
  split_ifs with horphan
  · exact fun m hm hr id hid => closeOrphanToolCalls_answered hm hr hid
  · intro m hm _ id hid
    by_contra hno
    exact horphan ((hasOrphanToolCalls_iff s.messages).mpr ⟨m,hm,id,hid,hno⟩)

theorem countUserTurns_repair (s : AgentSession) :
    countUserTurns (repairHistory s).messages = countUserTurns s.messages := by
  unfold repairHistory
  split_ifs
  · exact countUserTurns_close s.messages
  · rfl

def Counted (n : Nat) (t : AgentSession) : Prop := ∃ base, countUserTurns base = n ∧ Counting base t

theorem runPromptAttempt_counted {env : PromptEnv} (h : Counting s.messages s)
    (hu : isUserTurnMessage user = true) (hevicts : EvictsNone cfg env user (repairHistory s)) :
    Staged.Holds (fun x => Counted (countUserTurns s.messages) x.2)
      (fun x => Counted (countUserTurns s.messages) x.1 ∧
        countUserTurns s.messages + 1 ≤ countUserTurns x.2.messages)
      (runPromptAttempt cfg env user s) := by
  have hcount := countUserTurns_repair s
  have hrepaired : Counting (repairHistory s).messages (repairHistory s) := by
    unfold repairHistory
    split_ifs
    · refine ⟨rfl,h.journal,?_⟩
      rw [countUserTurns_close]
      exact h.durable
    · exact h
  have hanswered := answered_repair s
  unfold runPromptAttempt
  rw [hevicts.proactiveCompaction_eq]
  generalize repairHistory s = b at hcount hrepaired hanswered hevicts
  rw [← hcount]
  have hin : ∀ t, Counting b.messages t → Counted (countUserTurns b.messages) t :=
    fun t ht => ⟨b.messages,rfl,ht⟩
  refine Staged.holds_bind (Q := fun t => t=b) (Staged.holds_pure rfl) ?_
  intro t ht
  subst ht
  have hattempt : Staged.Holds (fun x => Counting t.messages x.2)
      (fun x => Counting t.messages x.1 ∧ Grown t.messages user x.2.messages)
      (attemptWithHistory cfg env.rounds t.messages user t) :=
    hrepaired.attempt hanswered hu env.rounds
  obtain ⟨hall,hres⟩ := hattempt
  refine Staged.holds_bind
    (Q := fun x => (attemptWithHistory cfg env.rounds t.messages user t).result = some x)
    ⟨fun x hx => hin _ (hall x hx),fun _ hx => hx⟩ ?_
  intro x hx
  obtain ⟨failed,result⟩ := x
  obtain ⟨hfailed,hgrown⟩ := hres _ hx
  dsimp only at hfailed hgrown ⊢
  split_ifs with hoverflow
  · rw [Bool.and_eq_true] at hoverflow
    have hreset := hfailed.reset hu
    rw [hevicts.compact_eq hx hoverflow.1]
    refine Staged.holds_bind (Q := fun x => x = (resetTurnJournal user failed, false))
      (Staged.holds_pure rfl) ?_
    intro x hx
    subst hx
    have hrestored := hreset.restore hu hgrown
    exact holds_finish (hin _ hrestored) ⟨hin _ hrestored,(hgrown.count hu).2⟩
  · exact holds_finish (hin _ hfailed) ⟨hin _ hfailed,(hgrown.count hu).2⟩

/-- Every point of a prompt that evicts nothing counts one user turn more, and so does its result. -/
theorem stagedPromptMessage_counted {env : PromptEnv} (hidle : s.inflightTurn=none)
    (hu : isUserTurnMessage user = true) (hevicts : EvictsNone cfg env user (repairHistory s)) :
    Staged.Holds (fun x => Counted (countUserTurns s.messages) x.2)
      (fun x => Counted (countUserTurns s.messages) x.1 ∧
        countUserTurns s.messages + 1 ≤ countUserTurns x.2.messages)
      (stagedPromptMessage cfg env user s) := by
  have hbegin := beginTurnJournal_idle cfg user hidle
  have hmessages : (beginTurnJournal cfg .append user s).messages = s.messages := by rw [hbegin]
  have hcounting : Counting (beginTurnJournal cfg .append user s).messages
      (beginTurnJournal cfg .append user s) := by
    refine ⟨rfl,⟨{ mode := .append, suffix := [user] },by rw [hbegin],rfl,?_⟩,?_⟩
    · simp [countUserTurns_cons,hu]
    · intro messages hdurable
      cases hdurable
  have hturn := runPromptAttempt_counted hcounting hu (hevicts.begin hidle)
  rw [hmessages] at hturn
  exact Staged.holds_bind (Q := fun _ => True)
    (Staged.holds_visit ⟨_,by rw [hmessages],hcounting⟩ trivial) fun _ _ => hturn

end Daimonos.Agent
