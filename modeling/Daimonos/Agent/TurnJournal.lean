import Daimonos.Agent.Session

namespace Daimonos.Agent

open Framework Providers ToolOutput Compaction AgentSession List Staged

/-- What a base history has to be for materialization to leave it alone. -/
structure Settlement (base : List Message) : Prop where
  paired : PairedInOrder base
  distinct : DistinctCalls base

theorem appendNote_append (note : String) (base : List Message) {rest : List Message}
    (h : rest ≠ []) : appendNote note (base++rest) = base ++ appendNote note rest := by
  obtain ⟨init,last,rfl⟩ : ∃ init last, rest = init ++ [last] :=
    ⟨_,_,(dropLast_append_getLast h).symm⟩
  unfold appendNote
  split_ifs
  · rfl
  · simp only [getLast?_append,getLast?_singleton,Option.some_or,dropLast_concat]
    split_ifs <;> simp

variable {messages : List Message}

theorem materializeLoop_ne_nil (note : String) (h : messages ≠ []) :
    materializeLoop note messages ≠ [] := by
  match messages with
  | [] => exact absurd rfl h
  | [m] =>
    unfold materializeLoop
    split_ifs <;> simp
  | m::n::rest =>
    unfold materializeLoop
    split_ifs <;> simp

variable {base : List Message}

theorem Settlement.materialize {rest : List Message} (h : Settlement base) (hr : rest ≠ [])
    (note : String) :
    materializeCancelledSuffix (base++rest) note =
      base ++ materializeCancelledSuffix rest note := by
  rw [materializeCancelledSuffix,materializeLoop_append h.distinct h.paired,
    appendNote_append note base (materializeLoop_ne_nil note hr),materializeCancelledSuffix]

def Extends (base : List Message) (user : Message) (messages : List Message) : Prop :=
  ∃ added, messages=base++user::added

theorem Extends.append {user : Message} (h : Extends base user messages) (more : List Message) :
    Extends base user (messages++more) := by
  obtain ⟨added,rfl⟩ := h
  exact ⟨added++more,by simp⟩

variable {m : Message}

theorem Settlement.answered (h : Settlement base)
    (hm : m∈base) (hr : m.role=.assistant) {id : String} (hid : id ∈ callIds m.content) :
    id ∈ answeredIds base := by
  have hids : messageCallIds m = callIds m.content := by simp [messageCallIds,hr]
  obtain ⟨pre,post,rfl⟩ := append_of_mem hm
  obtain ⟨n,answers,extra,hn,-,hc,hres,-⟩ :=
    followed_split h.paired (by rw [hids]; exact ne_nil_of_mem hid)
  refine mem_answeredIds.mpr ⟨n,by simp [mem_of_mem_head? hn],?_⟩
  rw [hc,resultIds_append,hres,hids]
  exact mem_append_left _ hid

theorem Extends.close {user : Message} (hb : Settlement base)
    (h : Extends base user messages) : Extends base user (closeOrphanToolCalls messages) := by
  obtain ⟨added,rfl⟩ := h
  rw [closeOrphanToolCalls_eq,insertAfter_append]
  have hbase : insertAfter (closing (answeredIds (base++user::added))) base = base := by
    refine insertAfter_eq_self fun m hm => closing_none fun hr id hid => ?_
    rw [answeredIds_append]
    exact mem_append_left _ (hb.answered hm hr hid)
  rw [hbase]
  exact ⟨_,rfl⟩

theorem Extends.popEmptyAssistant {user : Message}
    (hu : user.role=.user) (h : Extends base user messages) :
    Extends base user (popEmptyAssistant messages) := by
  obtain ⟨added,rfl⟩ := h
  unfold Agent.popEmptyAssistant
  rcases eq_nil_or_concat added with rfl | ⟨init,last,rfl⟩
  · simp [hu]
    exact ⟨[],rfl⟩
  · have hassoc : base++user :: init.concat last = (base++user::init) ++ [last] := by simp
    rw [hassoc]
    simp only [getLast?_append,getLast?_singleton,Option.some_or,dropLast_concat]
    split_ifs
    · exact ⟨init,rfl⟩
    · exact ⟨init ++ [last],by simp⟩

theorem extends_closed {user : Message} (hb : Settlement base)
    (hu : user.role=.user) : HistoryClosed (Extends base user) where
  close := fun h => h.close hb
  response := fun h => h.append _
  results := fun _ h => h.append _
  nudge := fun _ h => h.append _
  pop := fun h => h.popEmptyAssistant hu

theorem iterate_extends {user : Message} (hb : Settlement base)
    (hu : user.role=.user) {cfg : AgentConfig} {round : Round} {s : LoopState}
    (hp : (microcompactHistory round.files cfg.toolOutput s.messages).2.pruned = false)
    (h : Extends base user s.messages) :
    StepSound (fun s => Extends base user s.messages)
      (fun e => ∀ messages, e = .checkpoint messages → Extends base user messages)
      (fun r => Extends base user r.messages) (iterate cfg round s) := by
  refine (extends_closed hb hu).iterate ?_
  rw [microcompactHistory_unpruned hp]
  exact h

theorem iterate_overflow {cfg : AgentConfig} {round : Round} {s : LoopState} {r : AgentResult}
    (h : (iterate cfg round s).2 = .done r) (ho : r.contextOverflow=true) :
    ∃ history, r.messages = closeOrphanToolCalls history ∧
      (iterate cfg round s).1.getLast? = some (.checkpoint history) := by
  simp only [iterate] at h ⊢
  split at h
  · cases h
  · rename_i attempt heq
    have hover : ∀ arm, (dispatch round (afterGeneration cfg round s attempt)
        (settledResponse round attempt) arm).2 = .done r → arm=.terminal := by
      intro arm hd
      cases arm with
      | autoContinue | failover | errorResume => cases hd
      | terminal => rfl
      | toolRound =>
        simp only [dispatch,toolRound] at hd
        split at hd
        · cases hd
        · simp only [afterTools] at hd
          split_ifs at hd
          · cases hd
            cases ho
          · split at hd <;> cases hd
            cases ho
    have harm := hover _ h
    rw [harm] at h ⊢
    cases h
    have hmal : toolUseMissingStructuredCall attempt = false := by
      by_contra hne
      simp only [Bool.not_eq_false] at hne
      simp [settledResponse,validateResponseShape,hne] at ho
    simp [hmal,dispatch,getLast?_append,getLast?_cons]

/-- The journal is in `mode` over these messages, and until compaction rewrites something
the durable copy is the base with the materialized journal. -/
def SyncedAt (cfg : SessionConfig) (mode : TurnJournalMode) (messages : List Message)
    (t : AgentSession) : Prop :=
  t.messages=messages ∧ ∃ journal, t.inflightTurn = some journal ∧ journal.mode=mode ∧
    (t.pruned=false → ∀ d, t.durable = some d →
      d = mode.base messages ++ materializeCancelledSuffix journal.suffix cfg.cancelledTurnNote)

def JournalOn (mode : TurnJournalMode) (messages : List Message) (t : AgentSession) : Prop :=
  t.messages=messages ∧ ∃ journal, t.inflightTurn = some journal ∧ journal.mode=mode

variable {cfg : SessionConfig} {mode : TurnJournalMode} {messages : List Message}
  {user : Message}

variable {t : AgentSession}

theorem SyncedAt.on (h : SyncedAt cfg mode messages t) :
    JournalOn mode messages t := by
  obtain ⟨hm,journal,hj,hmode,-⟩ := h
  exact ⟨hm,journal,hj,hmode⟩

theorem JournalOn.checkpoint (user : Message) (h : JournalOn mode messages t)
    (hb : Settlement (mode.base messages)) {history : List Message}
    (he : t.pruned=false → Extends (mode.base messages) user history) :
    SyncedAt cfg mode messages
      (applyEffect cfg (mode.base messages).length t (.checkpoint history)) := by
  obtain ⟨hm,journal,hj,hmode⟩ := h
  refine ⟨hm,{ journal with suffix := history.drop (mode.base messages).length },
    by simp [applyEffect,hj],hmode,?_⟩
  intro hp d hd
  obtain ⟨added,rfl⟩ := he hp
  simp only [applyEffect,Option.some.injEq] at hd
  rw [← hd,hb.materialize (by simp),drop_left]

theorem SyncedAt.apply (user : Message) (h : SyncedAt cfg mode messages t)
    (hb : Settlement (mode.base messages)) {e : Effect}
    (he : t.pruned=false → ∀ history, e = .checkpoint history →
      Extends (mode.base messages) user history) :
    SyncedAt cfg mode messages (applyEffect cfg (mode.base messages).length t e) := by
  cases e with
  | contextPruned =>
    obtain ⟨hm,journal,hj,hmode,-⟩ := h
    exact ⟨hm,journal,hj,hmode,by simp [applyEffect]⟩
  | checkpoint history => exact h.on.checkpoint user hb fun hp => he hp history rfl
  | recordUsage usage last =>
    obtain ⟨hm,journal,hj,hmode,hd⟩ := h
    exact ⟨hm,{ journal with usage, lastCallUsage := last },by simp [applyEffect,hj],hmode,hd⟩
  | request => exact h

theorem watch_pruned (h : SyncedAt cfg mode messages t)
    (hb : Settlement (mode.base messages)) (hp : t.pruned=true) (es : List Effect) :
    (∀ t' ∈ watch (applyEffect cfg (mode.base messages).length) t es,
        SyncedAt cfg mode messages t' ∧ t'.pruned=true) ∧
      SyncedAt cfg mode messages (es.foldl (applyEffect cfg (mode.base messages).length) t) ∧
      (es.foldl (applyEffect cfg (mode.base messages).length) t).pruned = true := by
  refine watch_invariant (W := fun t => SyncedAt cfg mode messages t ∧ t.pruned=true) _ ?_ ⟨h,hp⟩
  intro g e _ hx
  obtain ⟨hg,hgp⟩ := hx
  refine ⟨hg.apply (.user "") hb (by simp [hgp]),?_⟩
  cases e <;> simp [applyEffect,hgp]

def Tied (cfg : SessionConfig) (mode : TurnJournalMode) (messages : List Message)
    (user : Message) (s : LoopState) (t : AgentSession) : Prop :=
  SyncedAt cfg mode messages t ∧
    (t.pruned=false → Extends (mode.base messages) user s.messages)

/-- After an overflow the returned history is the journaled one with its calls closed. -/
def Overflowed (mode : TurnJournalMode) (messages : List Message) (user : Message)
    (r : AgentResult) (t : AgentSession) : Prop :=
  r.contextOverflow=true → t.pruned=false → ∃ journal added, t.inflightTurn = some journal ∧
    journal.suffix=user::added ∧
    r.messages = closeOrphanToolCalls (mode.base messages ++ journal.suffix)

theorem iterate_watched (hb : Settlement (mode.base messages)) (hu : user.role=.user)
    (round : Round) (s : LoopState) (t : AgentSession) (h : Tied cfg mode messages user s t) :
    StepWatched (applyEffect cfg (mode.base messages).length) (Tied cfg mode messages user)
      (SyncedAt cfg mode messages)
      (fun r t => SyncedAt cfg mode messages t ∧ Overflowed mode messages user r t) t
      (iterate cfg.toAgentConfig round s) := by
  obtain ⟨hs,hext⟩ := h
  have hpruned : ∀ {t' : AgentSession} (es : List Effect), SyncedAt cfg mode messages t' →
      t'.pruned=true →
      (∀ t'' ∈ watch (applyEffect cfg (mode.base messages).length) t' es,
        SyncedAt cfg mode messages t'') ∧
      SyncedAt cfg mode messages (es.foldl (applyEffect cfg (mode.base messages).length) t') ∧
      (es.foldl (applyEffect cfg (mode.base messages).length) t').pruned = true := by
    intro t' es ht' hp'
    obtain ⟨hall,hlast⟩ := watch_pruned ht' hb hp' es
    exact ⟨fun t'' ht'' => (hall t'' ht'').1,hlast⟩
  by_cases hp : t.pruned=true
  · obtain ⟨hall,hlast,hlastp⟩ := hpruned (iterate cfg.toAgentConfig round s).1 hs hp
    exact ⟨hall,fun s' _ => ⟨hlast,by simp [hlastp]⟩,fun r _ => ⟨hlast,by simp [Overflowed,hlastp]⟩⟩
  rw [Bool.not_eq_true] at hp
  by_cases hstats :
      (microcompactHistory round.files cfg.toAgentConfig.toolOutput s.messages).2.pruned = true
  · obtain ⟨es,hes⟩ : ∃ es, (iterate cfg.toAgentConfig round s).1 = .contextPruned::es :=
      iterate_pruned hstats
    have hfirst : SyncedAt cfg mode messages
        (applyEffect cfg (mode.base messages).length t .contextPruned) :=
      hs.apply user hb (by simp)
    obtain ⟨hall,hlast,hlastp⟩ := hpruned es hfirst rfl
    refine ⟨?_,fun s' _ => ?_,fun r _ => ?_⟩
    · rw [hes]
      intro t' ht'
      rcases mem_cons.mp ht' with rfl | ht'
      · exact hfirst
      · exact hall t' ht'
    · rw [hes]
      exact ⟨hlast,by simp [foldl_cons,hlastp]⟩
    · rw [hes]
      exact ⟨hlast,by simp [Overflowed,foldl_cons,hlastp]⟩
  · rw [Bool.not_eq_true] at hstats
    obtain ⟨heff,hnext,-⟩ := iterate_extends hb hu hstats (hext hp)
    obtain ⟨hall,hlast⟩ := watch_invariant (applyEffect cfg (mode.base messages).length)
      (W := SyncedAt cfg mode messages)
      (fun g e (he : e ∈ (iterate cfg.toAgentConfig round s).1) hg =>
        hg.apply user hb fun _ => heff e he) hs
    refine ⟨hall,fun s' hs' => ⟨hlast,fun _ => hnext s' hs'⟩,fun r hr => ⟨hlast,?_⟩⟩
    intro ho _
    obtain ⟨history,hmsgs,hgl⟩ := iterate_overflow hr ho
    obtain ⟨added,rfl⟩ := heff _ (mem_of_getLast? hgl) history rfl
    obtain ⟨pre,hpre⟩ := getLast?_eq_some_iff.mp hgl
    obtain ⟨-,journal,hj,-⟩ := hlast
    rw [hpre,foldl_append] at hj ⊢
    obtain ⟨old,hold,rfl⟩ := Option.map_eq_some_iff.mp hj
    refine ⟨_,added,hj,by simp,?_⟩
    rw [hmsgs,drop_left]

variable {s : AgentSession}

/-- One attempt: the session is in sync after every effect, and so is its outcome. -/
theorem attempt_holds (cfg : SessionConfig) (mode : TurnJournalMode)
    (hb : Settlement (mode.base messages)) (hu : user.role=.user)
    (rounds : List Round) (hs : JournalOn mode messages s) :
    Staged.Holds (fun x => x.1=.attempt ∧ SyncedAt cfg mode messages x.2)
      (fun x => SyncedAt cfg mode messages x.1 ∧ Overflowed mode messages user x.2 x.1)
      (attemptWithHistory cfg rounds (mode.base messages) user s) := by
  have hreset : JournalOn mode messages (resetTurnJournal user s) := by
    obtain ⟨hm,journal,hj,hmode⟩ := hs
    exact ⟨hm,{ journal with suffix := [user], usage := {}, lastCallUsage := {} },
      by simp [resetTurnJournal,hj],hmode⟩
  have hfirst : SyncedAt cfg mode messages (applyEffect cfg (mode.base messages).length
      (resetTurnJournal user s) (.checkpoint (mode.base messages ++ [user]))) :=
    hreset.checkpoint user hb fun _ => ⟨[],rfl⟩
  obtain ⟨hall,hdone⟩ := run_watched (iterate_watched hb hu) rounds
    { messages := mode.base messages ++ [user] } _ ⟨hfirst,fun _ => ⟨[],rfl⟩⟩
  refine ⟨?_,?_⟩
  · intro x hx
    simp only [attemptWithHistory,runInner,mem_map] at hx
    obtain ⟨t,ht,rfl⟩ := hx
    refine ⟨rfl,?_⟩
    rcases mem_cons.mp ht with rfl | ht
    · exact hfirst
    · exact hall t ht
  · intro x hx
    simp only [attemptWithHistory,runInner,Option.map_eq_some_iff] at hx
    obtain ⟨r,hr,rfl,rfl⟩ := hx
    exact hdone r hr

def SameTurn (s t : AgentSession) : Prop :=
  t.messages=s.messages ∧ t.inflightTurn=s.inflightTurn ∧ t.durable=s.durable ∧
    t.pruned=s.pruned

theorem summarize_holds {phase : Phase} {n : Nat} {answers : List LlmResponse} (h : SameTurn s t) :
    Staged.Holds (fun x => x.1=phase ∧ SameTurn s x.2) (fun x => SameTurn s x.1)
      (summarize phase n answers t) := by
  induction n generalizing answers t with
  | zero => exact holds_pure h
  | succ n ih =>
    cases answers with
    | nil => exact ⟨by simpa [summarize] using h,by simp [summarize]⟩
    | cons resp answers =>
      refine holds_bind (Q := fun _ => True) (holds_visit ⟨rfl,h⟩ trivial) ?_
      intro _ _
      split
      · exact holds_pure h
      · exact ih h

def IsReplacement (m : Message) : Prop :=
  m=dropMarkerMessage ∨ ∃ text, m = summaryMessage text

theorem IsReplacement.role (h : IsReplacement m) : m.role=.user := by
  rcases h with rfl | ⟨text,rfl⟩ <;> rfl

theorem compact_holds (cfg : SessionConfig) (phase : Phase) (answers : List LlmResponse)
    (s : AgentSession) :
    Staged.Holds (fun x => x.1=phase ∧ SameTurn s x.2)
      (fun x => (x.2=false ∧ x.1=s) ∨ (x.2=true ∧ ∃ m cut, IsReplacement m ∧
        SameTurn { s with messages := m :: s.messages.drop cut } x.1))
      (compact cfg phase answers s) := by
  unfold compact
  split
  · exact holds_pure (.inl ⟨rfl,rfl⟩)
  · rename_i cut _
    refine holds_bind (summarize_holds ⟨rfl,rfl,rfl,rfl⟩) ?_
    intro x hx
    obtain ⟨t,text⟩ := x
    obtain ⟨hm,hj,hd,hp⟩ := hx
    simp only at hm hj hd hp
    refine holds_pure (.inr ⟨rfl,?_⟩)
    cases text with
    | some text => exact ⟨summaryMessage text,cut,.inr ⟨text,rfl⟩,by simp [hm],hj,hd,hp⟩
    | none => exact ⟨dropMarkerMessage,cut,.inl rfl,by simp [hm],hj,hd,hp⟩

theorem Settlement.compacted (h : Settlement base)
    (hm : IsReplacement m) (cut : Nat) : Settlement (m :: base.drop cut) := by
  have hcalls := messageCallIds_of_user hm.role
  refine ⟨⟨fun hne => absurd hcalls hne,followed_drop cut h.paired⟩,?_⟩
  intro n hn
  rcases mem_cons.mp hn with rfl | hn
  · rw [hcalls]
    exact nodup_nil
  · exact h.distinct n (mem_of_mem_drop hn)

theorem Settlement.close (h : Settlement base) :
    closeOrphanToolCalls base = base :=
  closeOrphanToolCalls_eq_self fun _ hm hr _ hid => h.answered hm hr hid

theorem Settlement.repair (h : Settlement s.messages) : repairHistory s = s := by
  unfold repairHistory
  rw [h.close]
  split_ifs <;> rfl

theorem closeOrphanToolCalls_of_no_orphan
    (h : hasOrphanToolCalls messages = false) : closeOrphanToolCalls messages = messages := by
  refine closeOrphanToolCalls_eq_self fun m hm _ id hid => ?_
  by_contra hno
  rw [← Bool.not_eq_true,hasOrphanToolCalls_iff] at h
  exact h ⟨m,hm,id,hid,hno⟩

/-- A crash and a cancellation leave the same history: what the hook wrote at the last
checkpoint is what finalizing the turn commits. -/
def Synced (cfg : SessionConfig) (t : AgentSession) : Prop :=
  ∀ d, t.durable = some d → ∀ applied, ∃ kind, (finalizeCancelledTurn cfg applied t).1 = some kind ∧
    (finalizeCancelledTurn cfg applied t).2.messages = d

theorem SyncedAt.synced (h : SyncedAt cfg mode messages t)
    (hp : t.pruned=false) : Synced cfg t := by
  obtain ⟨hm,journal,hj,hmode,hd⟩ := h
  intro d hdur applied
  have hfin : (finalizeCancelledTurn cfg applied t).2.messages =
      cancelledMessages cfg journal t.messages := by
    simp only [finalizeCancelledTurn,hj]
    split_ifs <;> rfl
  refine ⟨journal.mode.cancelledKind,by simp [finalizeCancelledTurn,hj],?_⟩
  rw [hfin,cancelledMessages,hm,hmode,hd hp d hdur]

theorem synced_of_no_checkpoint (h : t.durable=none) : Synced cfg t := by
  intro d hd
  simp [h] at hd

/-- Points of a turn where the journal still says what the durable copy says: not while an
overflowed attempt that recorded anything is being compacted away, and not after an overflow
whose open calls the returned history has closed. -/
def PhaseOk (phase : Phase) : Prop := phase ≠ .reactiveSummary true ∧ phase ≠ .restored true

def SyncedPoint (cfg : SessionConfig) (x : Phase × AgentSession) : Prop :=
  PhaseOk x.1 → x.2.pruned=false → Synced cfg x.2

theorem SyncedAt.point (h : SyncedAt cfg mode messages t) (phase : Phase) :
    SyncedPoint cfg (phase, t) :=
  fun _ hp => h.synced hp

/-- The note takes the same place whether the refused request left an empty answer or none. -/
theorem materialize_emptyAnswer (hu : user.role=.user) {note : String} (hn : note ≠ "") :
    materializeCancelledSuffix [user, { role := .assistant, content := [] }] note =
      materializeCancelledSuffix [user] note := by
  have hcalls := messageCallIds_of_user hu
  have hne : note.isEmpty=false := by simpa using hn
  have hempty : messageCallIds { role := .assistant, content := [] } = [] := rfl
  simp [materializeCancelledSuffix,materializeLoop,hcalls,hempty,appendNote,hne,hu,
    Message.assistant]

theorem reset_synced (hu : user.role=.user) {t' : AgentSession}
    (h : SyncedAt cfg mode messages t) (hsame : SameTurn (resetTurnJournal user t) t')
    (hr : recordedMore cfg user t = false) : SyncedAt cfg mode messages t' := by
  obtain ⟨hm,journal,hj,hmode,hd⟩ := h
  obtain ⟨hm',hj',hd',hp'⟩ := hsame
  refine ⟨hm'.trans hm,{ journal with suffix := [user], usage := {}, lastCallUsage := {} },
    by simpa [resetTurnJournal,hj] using hj',hmode,?_⟩
  intro hp d hdur
  rw [hd (by rw [← hp]; exact hp'.symm) d (by rw [← hdur]; exact hd'.symm)]
  simp only [recordedMore,hj,Bool.not_eq_false',Bool.or_eq_true,beq_iff_eq,Bool.and_eq_true,
    Bool.not_eq_true'] at hr
  rcases hr with hr | ⟨hn,hr⟩
  · rw [hr]
  · rw [hr,materialize_emptyAnswer hu (by simpa using hn)]

theorem restore_synced {r : AgentResult}
    (h : SyncedAt cfg .append messages t) (hover : Overflowed .append messages user r t)
    (hr : r.contextOverflow=true) (hopen : openCalls t = false) :
    SyncedAt cfg .append messages (restoreTurnJournalFromResult r (resetTurnJournal user t)) := by
  obtain ⟨hm,journal,hj,hmode,hd⟩ := h
  refine ⟨hm,{ mode := .append
               suffix := r.messages.drop messages.length
               usage := r.usage
               lastCallUsage := r.lastCallUsage },?_,rfl,?_⟩
  · simp [restoreTurnJournalFromResult,resetTurnJournal,hj,hmode,hm]
  · intro hp d hdur
    obtain ⟨journal',added,hj',-,hmsgs⟩ := hover hr hp
    obtain rfl : journal=journal' := by simpa [hj] using hj'
    simp only [openCalls,hj,hm] at hopen
    rw [TurnJournalMode.base,closeOrphanToolCalls_of_no_orphan hopen] at hmsgs
    rw [hd hp d hdur,hmsgs,drop_left]

theorem proactiveCompaction_holds (cfg : SessionConfig) (answers : List LlmResponse)
    (hs : JournalOn .append s.messages s) (hd : s.durable=none) (hb : Settlement s.messages) :
    Staged.Holds (SyncedPoint cfg)
      (fun t => JournalOn .append t.messages t ∧ t.durable=none ∧ Settlement t.messages)
      (proactiveCompaction cfg answers s) := by
  have hstates : Staged.Holds (SyncedPoint cfg) (fun x => JournalOn .append x.1.messages x.1 ∧
      x.1.durable=none ∧ Settlement x.1.messages) (compact cfg .proactiveSummary answers s) := by
    obtain ⟨hall,hres⟩ := compact_holds cfg .proactiveSummary answers s
    refine ⟨?_,?_⟩
    · intro x ht _ _
      obtain ⟨-,-,-,hdur,-⟩ := hall _ ht
      exact synced_of_no_checkpoint (hdur.trans hd)
    · intro x ht
      rcases hres _ ht with ⟨-,rfl⟩ | ⟨-,m,cut,hm,hmsgs,hj,hdur,-⟩
      · exact ⟨hs,hd,hb⟩
      · obtain ⟨-,journal,hjournal,hmode⟩ := hs
        refine ⟨⟨rfl,journal,hj.trans hjournal,hmode⟩,hdur.trans hd,?_⟩
        rw [hmsgs]
        exact hb.compacted hm cut
  unfold proactiveCompaction
  split_ifs
  · refine holds_bind hstates ?_
    intro x ht
    exact holds_pure ht
  · exact holds_pure ⟨hs,hd,hb⟩

theorem runPromptAttempt_holds (env : PromptEnv) (hu : user.role=.user)
    (hs : JournalOn .append s.messages s) (hd : s.durable=none) (hb : Settlement s.messages) :
    Staged.Holds (SyncedPoint cfg) (fun _ => True) (runPromptAttempt cfg env user s) := by
  unfold runPromptAttempt
  rw [hb.repair]
  refine holds_bind (proactiveCompaction_holds cfg env.proactive hs hd hb) ?_
  intro t hx
  obtain ⟨ht,-,htb⟩ := hx
  obtain ⟨hall,hres⟩ := attempt_holds cfg .append htb hu env.rounds ht
  refine holds_bind (P := SyncedPoint cfg) ⟨?_,hres⟩ ?_
  · intro x ht'
    obtain ⟨phase,t'⟩ := x
    exact (hall _ ht').2.point phase
  intro x hx
  obtain ⟨failed,result⟩ := x
  obtain ⟨hfailed,hover⟩ := hx
  dsimp only at hfailed hover ⊢
  split_ifs with hr
  · simp only [Bool.and_eq_true] at hr
    obtain ⟨hcall,hcres⟩ := compact_holds cfg (.reactiveSummary (recordedMore cfg user failed))
      env.reactive (resetTurnJournal user failed)
    refine holds_bind (P := SyncedPoint cfg) ⟨?_,hcres⟩ ?_
    · intro x ht' hphase hp
      obtain ⟨phase,t'⟩ := x
      obtain ⟨rfl,hsame⟩ := hcall _ ht'
      have hmore : recordedMore cfg user failed = false := by
        cases hrec : recordedMore cfg user failed with
        | false => rfl
        | true => exact absurd (by rw [hrec]) hphase.1
      exact (reset_synced hu hfailed hsame hmore).synced hp
    intro x hor
    obtain ⟨t',evicted⟩ := x
    rcases hor with ⟨hev,heq⟩ | ⟨hev,m,cut,hm,hmsgs,hj,-,-⟩
    · subst hev heq
      refine holds_bind (Q := fun _ => True) (holds_visit ?_ trivial) fun _ _ => holds_pure trivial
      intro hphase hp
      have hopen : openCalls failed = false := by
        cases ho : openCalls failed with
        | false => rfl
        | true => exact absurd (by rw [ho]) hphase.2
      exact (restore_synced hfailed hover hr.1 hopen).synced hp
    · subst hev
      have hbase : Settlement t'.messages := by
        rw [hmsgs]
        have hfm : (resetTurnJournal user failed).messages = t.messages := hfailed.1
        rw [hfm]
        exact htb.compacted hm cut
      have hon : JournalOn .append t'.messages t' := by
        obtain ⟨-,journal,hfj,hmode,-⟩ := hfailed
        refine ⟨rfl,{ journal with suffix := [user], usage := {}, lastCallUsage := {} },?_,hmode⟩
        rw [hj]
        simp [resetTurnJournal,hfj]
      obtain ⟨hall',hres'⟩ := attempt_holds cfg .append hbase hu env.retryRounds hon
      refine holds_bind (P := SyncedPoint cfg) ⟨?_,hres'⟩ ?_
      · intro x ht''
        obtain ⟨phase,t''⟩ := x
        exact (hall' _ ht'').2.point phase
      · intro x hx
        obtain ⟨hsync,-⟩ := hx
        exact holds_bind (Q := fun _ => True)
          (holds_visit (hsync.point .finished) trivial) fun _ _ => holds_pure trivial
  · exact holds_bind (Q := fun _ => True)
      (holds_visit (hfailed.point .finished) trivial) fun _ _ => holds_pure trivial

/-- Every point of a prompt or of a retry at which the turn can be cut. -/
theorem turn_synced (cfg : SessionConfig) (s : AgentSession) (hs : s.inflightTurn=none) :
    (∀ (env : PromptEnv) (user : Message), user.role=.user → Settlement s.messages →
      ∀ x ∈ (stagedPromptMessage cfg env user s).states, SyncedPoint cfg x) ∧
    ∀ (rounds : List Round) (turn : Turn (AgentSession × AgentResult)) (index : Nat),
      stagedRetryLastTurn cfg rounds s = .ok turn → lastUserTurn s.messages = some index →
      Settlement (s.messages.take index) → ∀ x∈turn.states, SyncedPoint cfg x := by
  have hbegin : ∀ mode user, beginTurnJournal cfg mode user s =
      { s with inflightTurn := some { mode, suffix := [user] }, durable := none, pruned := false } := by
    simp [beginTurnJournal,hs]
  refine ⟨?_,?_⟩
  · intro env user hu hb
    refine (holds_bind (R := fun _ => True) (Q := fun _ => True)
      (holds_visit ?_ trivial) fun _ _ => runPromptAttempt_holds env hu ?_ ?_ ?_).1
    · intro _ _
      exact synced_of_no_checkpoint (by rw [hbegin])
    · exact ⟨rfl,_,rfl,rfl⟩
    · rw [hbegin]
    · rw [hbegin]
      exact hb
  · intro rounds turn index hturn hlast hb
    obtain ⟨user,huser,hturnMsg⟩ := lastWhere_spec hlast
    have hrole := isUserTurnMessage_role hturnMsg
    simp only [stagedRetryLastTurn,hlast,Option.bind_some,huser,Option.map_some,
      Except.ok.injEq] at hturn
    subst hturn
    refine (holds_bind (R := fun _ => True) (Q := fun _ => True)
      (holds_visit ?_ trivial) fun _ _ => ?_).1
    · intro _ _
      exact synced_of_no_checkpoint (by rw [hbegin])
    · have hon : JournalOn (.replaceFrom index) s.messages
          (beginTurnJournal cfg (.replaceFrom index) user s) := by
        rw [hbegin]
        exact ⟨rfl,_,rfl,rfl⟩
      obtain ⟨hall,hres⟩ := attempt_holds cfg (.replaceFrom index) hb hrole rounds hon
      refine holds_bind (P := SyncedPoint cfg) ⟨?_,hres⟩ ?_
      · intro x ht
        obtain ⟨phase,t⟩ := x
        exact (hall _ ht).2.point phase
      · intro x hx
        obtain ⟨hsync,-⟩ := hx
        exact holds_bind (Q := fun _ => True)
          (holds_visit (hsync.point .finished) trivial) fun _ _ => holds_pure trivial

def journalConfig : SessionConfig where
  model := "primary"
  providerRetry := { maxAttempts := 0 }
  compaction := some { shouldCompact := fun _ => false, targetTokens := 0 }
  cancelledTurnNote := "Turn cancelled."

def toolRoundOf (id : String) : Round where
  files := .unavailable
  attempts := [{ content := [.toolCall id "exec" .null], stopReason := .toolUse }]
  tools := [.ran "built" false false {}]

def overflowRound : Round where
  files := .unavailable
  attempts := [{ content := [], stopReason := .error, contextOverflow := true }]

def twoTurns : AgentSession where
  messages := [.user "first", .assistant "ok", .user "second",
    { role := .assistant, content := [.toolCall "c0" "exec" .null] },
    { role := .user, content := [.toolResult "c0" "done" false] }, .assistant "ok"]

theorem twoTurns_settlement : Settlement twoTurns.messages := by
  refine ⟨⟨?_,?_,?_,?_,?_,?_,trivial⟩,by decide⟩
  pick_goal 4
  · intro _
    exact ⟨_,[.toolResult "c0" "done" false],[],rfl,by decide,rfl,rfl,by decide⟩
  all_goals exact fun h => absurd rfl h

/-- A third prompt and a retry, both with a tool round. -/
theorem turn_synced_twoTurns :
    (∀ x ∈ (stagedPromptMessage journalConfig { rounds := [toolRoundOf "c1"] } (.user "third")
        twoTurns).states, SyncedPoint journalConfig x) ∧
      ∀ turn, stagedRetryLastTurn journalConfig [toolRoundOf "c1"] twoTurns = .ok turn →
        ∀ x∈turn.states, SyncedPoint journalConfig x := by
  refine ⟨(turn_synced journalConfig twoTurns rfl).1 _ _ rfl twoTurns_settlement,?_⟩
  intro turn hturn
  refine (turn_synced journalConfig twoTurns rfl).2 _ turn 2 hturn (by decide) ?_
  exact ⟨⟨fun h => absurd rfl h,fun h => absurd rfl h,trivial⟩,by decide⟩

/-- The tool result of an attempt that then overflowed is on disk but not in the journal
while the summary is awaited. -/
theorem turn_desynced_reactive :
    Settlement twoTurns.messages ∧
      ∃ x ∈ (stagedPromptMessage journalConfig { rounds := [toolRoundOf "c1", overflowRound] }
          (.user "third") twoTurns).states,
        x.2.pruned=false ∧ ¬ Synced journalConfig x.2 := by
  refine ⟨twoTurns_settlement,?_⟩
  have hany : ((stagedPromptMessage journalConfig { rounds := [toolRoundOf "c1", overflowRound] }
      (.user "third") twoTurns).states.any fun x => !x.2.pruned && x.2.durable.any fun d =>
        decide ((finalizeCancelledTurn journalConfig false x.2).2.messages ≠ d)) = true := by
    decide +kernel
  obtain ⟨x,hx,hbad⟩ := any_eq_true.mp hany
  simp only [Bool.and_eq_true,Bool.not_eq_true',Option.any_eq_true,decide_eq_true_eq] at hbad
  obtain ⟨hp,d,hd,hne⟩ := hbad
  refine ⟨x,hx,hp,fun hsync => ?_⟩
  obtain ⟨_,-,hmsgs⟩ := hsync d hd false
  exact hne hmsgs

end Daimonos.Agent
