import Daimonos.Session.DurabilityInvariant

namespace Daimonos.Session

open Framework Store List SessionPersistence Option

namespace PersistRun

variable {s s' : PersistRun} {i : Nat} {call call' : PersistCall}

section Transition

variable (status : DurabilityStatus) (s : PersistRun)

@[simp] theorem transitionDurability_calls : (s.transitionDurability status).calls = s.calls := by
  unfold transitionDurability
  split_ifs <;> rfl

@[simp] theorem transitionDurability_gate : (s.transitionDurability status).gate = s.gate := by
  unfold transitionDurability
  split_ifs <;> rfl

@[simp] theorem transitionDurability_turn : (s.transitionDurability status).turn = s.turn := by
  unfold transitionDurability
  split_ifs <;> rfl

@[simp] theorem transitionDurability_persistence :
    (s.transitionDurability status).persistence = s.persistence := by
  unfold transitionDurability
  split_ifs <;> rfl

@[simp] theorem transitionDurability_completed :
    (s.transitionDurability status).completed = s.completed := by
  unfold transitionDurability
  split_ifs <;> rfl

end Transition

theorem getElem?_setCall (hi : s.calls[i]? = some call) :
    (s.setCall i call').calls[i]? = some call' := by
  have hlt := (List.getElem?_eq_some_iff.mp hi).1
  exact List.getElem?_set_self hlt

theorem Sound.release (h : Sound s) (hi : s.calls[i]? = some call) (hgate : s.gate = some i) :
    Sound ((s.setCall i .done).setGate none) := by
  have hdone : Sound (s.setCall i .done) := h.setCall .done trivial (by simp [PersistCall.inGate])
  refine hdone.setGate (fun other hmem => ?_) none
  rcases hdone.eq_or_outside hgate (getElem?_setCall hi) hmem with rfl | hout
  · rfl
  · exact hout

theorem Sound.markClean (h : Sound s) (hi : s.calls[i]? = some .checking) (hgate : s.gate = some i)
    {handled : Nat} (hcovers : s.Covers s.completed) :
    Sound (s.setPersistence (s.persistence.markCleanIfFullyHandled handled s.requested)) := by
  unfold markCleanIfFullyHandled
  split_ifs
  · exact h
  · refine h.setHealth (fun _ => hcovers) fun other hmem => ?_
    rcases h.eq_or_outside hgate hi hmem with rfl | hout
    · trivial
    · exact (h.calls other hmem).outside hout
  · exact h.setHealth_of_ne (by simp)

/-- A deleted session answers clean as well, but then the claim is gone with the row. -/
theorem Sound.covers_of_health (h : Sound s) (hhealth : s.persistence.health=.clean) :
    s.Covers s.completed := by
  intro hholds
  have hretired : s.persistence.retired=false := by
    by_contra hretired
    exact h.retired (Bool.not_eq_false _ ▸ hretired) hholds
  rw [SessionPersistence.retired,Bool.or_eq_false_iff] at hretired
  exact h.clean (by simpa [SessionPersistence.health,hretired.1,hretired.2] using hhealth) hholds

theorem Sound.afterSave (h : Sound s) {handled attempts : Nat} {capture : PersistenceCapture}
    {result : Except ErrorKind PersistenceSaveOutcome}
    (hi : s.calls[i]? = some (.returned handled attempts capture result)) :
    Sound (s.afterSave i handled attempts capture result) := by
  have hgate : s.gate = some i := h.owner i _ hi rfl
  obtain ⟨hclean,hticket,hthrough,hsaved,hlost⟩ := h.callOk hi
  have hmax : max s.completed handled ≤ handled := Nat.max_le.mpr ⟨hticket.1,Nat.le_refl _⟩
  cases result with
  | error kind =>
    have hmarked := h.markDegraded (isRetryablePersistenceError kind)
    have hnot := h.notClean_markDegraded (isRetryablePersistenceError kind)
    refine hmarked.setCall _ ?_ fun _ => hgate
    split_ifs
    · exact ⟨hnot,hticket⟩
    · exact ⟨hnot,hticket⟩
  | ok outcome =>
    cases outcome with
    | saved =>
      have hcovers := hsaved rfl
      refine (h.setCall (.cleaning handled) ⟨hcovers,hticket.1⟩ fun _ => hgate).complete hgate
        (getElem?_setCall hi) hticket.2 ?_ (fun _ => hcovers) ⟨hcovers,hmax⟩
      intro through hmem
      cases hmem
      exact hthrough
    | skippedStale stored =>
      exact (h.setCall (.dirtying handled attempts) ⟨hclean,hticket⟩
        fun _ => hgate).raiseGeneration stored
    | skippedDeleted =>
      exact (h.setCall .checking trivial fun _ => hgate).complete hgate
        (getElem?_setCall hi) hticket.2 (by simp) (fun _ hholds => absurd hholds (hlost (Or.inl rfl)))
        trivial
    | superseded =>
      exact (h.setCall (.publishing .superseded) (by simp [CallOk]) fun _ => hgate).complete
        hgate (getElem?_setCall hi) hticket.2 (by simp)
        (fun _ hholds => absurd hholds (hlost (Or.inr rfl))) (by simp [CallOk])

theorem Sound.advanceCall (h : Sound s) (hi : s.calls[i]? = some call)
    (hs : s.advanceCall i call = some s') : Sound s' := by
  have hok := h.callOk hi
  have hgate := h.owner i call hi
  cases call with
  | registered =>
    cases hs
    refine h.setCall _ ?_ ?_
    · split_ifs <;> exact hok
    · split_ifs <;> simp [PersistCall.inGate]
  | announcing request =>
    cases hs
    exact (h.transitionDurability .unsaved (by simp)).setCall (.queued request) hok
      (by simp [PersistCall.inGate])
  | queued request =>
    simp only [PersistRun.advanceCall] at hs
    split_ifs at hs with hfree
    cases hs
    refine (h.setGate (fun other hmem => ?_) (some i)).setCall (.entered request) hok fun _ => rfl
    obtain ⟨j,hj⟩ := mem_iff_getElem?.mp hmem
    by_contra hin
    have howner := h.owner j other hj (Bool.not_eq_false _ ▸ hin)
    rw [hfree] at howner
    cases howner
  | entered request =>
    simp only [PersistRun.advanceCall] at hs
    split_ifs at hs with hcompleted
    · cases hs
      have hreleased := h.release hi (hgate rfl)
      exact
        { hreleased with
          calls := hreleased.calls_of_eq rfl rfl rfl rfl
          coalesced := by
            intro r hr
            rcases mem_append.mp hr with hold | hnew
            · exact h.coalesced r hold
            · rw [mem_singleton.mp hnew]
              rcases h.settles with hzero | ⟨st,hst,hle⟩
              · have hpos : 0 < request := hok
                omega
              · exact ⟨st,hst,Nat.le_trans hcompleted hle⟩ }
    · cases hs
      exact h.setCall .marking trivial fun _ => hgate rfl
  | marking =>
    cases hs
    exact h.markDirty.setCall .starting h.notClean_markDirty fun _ => hgate rfl
  | starting =>
    cases hs
    refine (h.transitionDurability .saving (by simp)).setCall .reading ?_ fun _ => ?_
    · unfold CallOk NotClean
      rw [transitionDurability_persistence]
      exact hok
    · rw [transitionDurability_gate]
      exact hgate rfl
  | reading =>
    cases hs
    exact h.setCall (.capturing s.requested 0) ⟨hok,h.completed_le,Nat.le_refl _⟩
      fun _ => hgate rfl
  | capturing | awaiting | done => cases hs
  | returned =>
    cases hs
    exact h.afterSave hi
  | dirtying =>
    cases hs
    refine h.markDirty.setCall _ ?_ fun _ => hgate rfl
    split_ifs
    · exact ⟨h.notClean_markDirty,hok.2⟩
    · simp [CallOk]
  | settling =>
    cases hs
    exact (h.setCall (.publishing .degraded) (by simp [CallOk]) fun _ => hgate rfl).complete
      (hgate rfl) (getElem?_setCall hi) hok.2.2 (by simp)
      (fun hclean hholds => absurd hclean (hok.1 hholds)) (by simp [CallOk])
  | cleaning =>
    cases hs
    exact (h.setCall .checking trivial fun _ => hgate rfl).markClean (getElem?_setCall hi) (hgate rfl)
      fun hholds => Nat.le_trans hok.2 (hok.1 hholds)
  | checking =>
    cases hs
    exact h.setCall _ of_decide_eq_true fun _ => hgate rfl
  | judging =>
    cases hs
    refine h.setCall _ ?_ fun _ => hgate rfl
    intro hsaved
    split_ifs at hsaved with hjudged
    exact ⟨hok hjudged.1,h.covers_of_health hjudged.2⟩
  | publishing status =>
    cases hs
    have hpublished := h.transitionDurability status fun hsaved hholds =>
      Nat.le_trans (hok hsaved).1 ((hok hsaved).2 hholds)
    exact hpublished.release (by rw [transitionDurability_calls]; exact hi)
      (by rw [transitionDurability_gate]; exact hgate rfl)

theorem Sound.captureCall (h : Sound s) {content : SessionContent} (hi : s.calls[i]? = some call)
    (hs : s.captureCall i content call = some s') : Sound s' := by
  cases call with
  | capturing =>
    have hok := h.callOk hi
    have hgate := h.owner i _ hi rfl
    simp only [PersistRun.captureCall] at hs
    split_ifs at hs with hturn
    cases hs
    have hceiling : s.requested=s.ceiling := by
      rw [ceiling,isNone_iff_eq_none.mp hturn]
    exact (h.spawnSave rfl hceiling).setCall _ ⟨hok.1,hok.2,hok.2.2⟩ fun _ => hgate
  | _ => cases hs

theorem Sound.dropCall (h : Sound s) (hi : s.calls[i]? = some call)
    (hs : s.dropCall i call = some s') : Sound s' := by
  unfold PersistRun.dropCall at hs
  split_ifs at hs with hawaits hin
  · cases hs
    exact h.release hi (h.owner i call hi hin)
  · cases hs
    exact h.setCall .done trivial (by simp [PersistCall.inGate])

theorem Sound.afterCheckpoint (h : Sound s) {configured attempt : Nat}
    {result : Except ErrorKind PersistenceSaveOutcome}
    (hturn : s.turn = some (.running configured (.returned attempt result))) :
    Sound (s.afterCheckpoint configured attempt result) := by
  have hpublish : ∀ status : DurabilityStatus, status≠.saved →
      Sound ((s.transitionDurability status).setTurn (some (.running configured .idle))) :=
    fun status hne => (h.transitionDurability status (absurd · hne)).setTurn_running
      (by rw [transitionDurability_turn]; exact hturn)
  cases result with
  | error kind => exact (h.markDegraded _).setTurn_running hturn
  | ok outcome =>
    cases outcome with
    | saved | skippedDeleted => exact hpublish .unsaved (by simp)
    | superseded => exact hpublish .superseded (by simp)
    | skippedStale stored => exact (h.raiseGeneration stored).setTurn_running hturn

theorem Sound.advanceTurn (h : Sound s) {turn : CheckpointTurn} (hturn : s.turn = some turn)
    (hs : s.advanceTurn turn = some s') : Sound s' := by
  cases turn with
  | opening =>
    cases hs
    exact (h.transitionDurability .unsaved (by simp)).setTurn_idle (by simp)
  | configuring =>
    cases hs
    have hceiling : s.ceiling=s.requested := by rw [ceiling,hturn]
    exact h.setTurn hceiling.le (Nat.le_refl _)
  | running configured phase =>
    cases phase with
    | idle | minting | awaiting => cases hs
    | dirtying =>
      cases hs
      exact h.markDirty.setTurn_running hturn
    | returned =>
      cases hs
      exact h.afterCheckpoint hturn
    | degrading =>
      cases hs
      exact (h.transitionDurability .degraded (by simp)).setTurn_running
        (by rw [transitionDurability_turn]; exact hturn)

theorem Sound.mintCheckpoint (h : Sound s) {content : SessionContent} {turn : CheckpointTurn}
    (hturn : s.turn = some turn) (hs : s.mintCheckpoint content turn = some s') : Sound s' := by
  cases turn with
  | opening | configuring => cases hs
  | running configured phase =>
    cases phase with
    | minting =>
      cases hs
      have hceiling : configured=s.ceiling := by rw [ceiling,hturn]
      exact (h.spawnSave rfl hceiling).setTurn_running hturn
    | _ => cases hs

theorem Sound.advanceRead (h : Sound s) {j : Nat} {read : HealthRead} (hj : s.reads[j]? = some read)
    (hs : s.advanceRead j read = some s') : Sound s' := by
  cases read with
  | answered => cases hs
  | loaded =>
    cases hs
    exact
      { h with
        calls := h.calls_of_eq rfl rfl rfl rfl
        reads := by
          intro r hr
          rcases mem_or_eq_of_mem_set hr with hold | hnew
          · exact h.reads r hold
          · split_ifs at hnew with hgt
            cases hnew
            exact Nat.le_of_not_gt hgt }
  | compared requested =>
    cases hs
    have hcompared := h.reads requested (mem_of_getElem? hj)
    exact
      { h with
        calls := h.calls_of_eq rfl rfl rfl rfl
        reads := by
          intro r hr
          rcases mem_or_eq_of_mem_set hr with hold | hnew
          · exact h.reads r hold
          · cases hnew
        reports := by
          intro hholds r hr
          split_ifs at hr with hhealth
          · rcases mem_append.mp hr with hold | hnew
            · exact h.reports hholds r hold
            · rw [mem_singleton.mp hnew]
              exact Nat.le_trans hcompared (h.covers_of_health hhealth hholds)
          · exact h.reports hholds r hr }

theorem Sound.lose (h : Sound s) {p : SessionPersistence} (hlost : ¬ p.Holds) :
    Sound (s.setPersistence p) :=
  { h with
    reports := fun hholds => absurd hholds hlost
    retired := fun _ => hlost
    clean := fun _ hholds => absurd hholds hlost
    newer := fun hholds => absurd hholds hlost
    calls := fun c hc => (h.calls c hc).mono
      { holds := fun hholds => absurd hholds hlost
        notClean := fun _ hholds => absurd hholds hlost
        completed := rfl
        requested := Nat.le_refl _
        stored := fun _ => Nat.le_refl _ }
      fun _ => rfl }

theorem Sound.step (h : Sound s) {a : PersistAction} (hok : s.stepOk a = true)
    (hs : s.step a = some s') : Sound s' := by
  cases a with
  | register =>
    cases hs
    exact h.register hok
  | advance =>
    obtain ⟨call,hi,hs⟩ := bind_eq_some_iff.mp hs
    exact h.advanceCall hi hs
  | capture =>
    obtain ⟨call,hi,hs⟩ := bind_eq_some_iff.mp hs
    exact h.captureCall hi hs
  | drop =>
    obtain ⟨call,hi,hs⟩ := bind_eq_some_iff.mp hs
    exact h.dropCall hi hs
  | startTurn =>
    simp only [PersistRun.step] at hs
    split_ifs at hs
    · cases hs
      exact h.setTurn_idle (by simp)
    · cases hs
      exact h.setTurn_idle (by simp)
  | checkpoint =>
    simp only [PersistRun.step] at hs
    split at hs
    · next configured hturn =>
      cases hs
      exact h.setTurn_running hturn
    · cases hs
  | advanceTurn =>
    obtain ⟨turn,hturn,hs⟩ := bind_eq_some_iff.mp hs
    exact h.advanceTurn hturn hs
  | mint =>
    obtain ⟨turn,hturn,hs⟩ := bind_eq_some_iff.mp hs
    exact h.mintCheckpoint hturn hs
  | endTurn =>
    simp only [PersistRun.step] at hs
    split_ifs at hs
    cases hs
    exact h.setTurn_idle (by simp)
  | save k failure now =>
    obtain ⟨capture,hk,hs⟩ := map_eq_some_iff.mp hs
    cases hs
    exact h.runSave hk failure now
  | readHealth =>
    cases hs
    exact
      { h with
        calls := h.calls_of_eq rfl rfl rfl rfl
        reads := by
          intro r hr
          rcases mem_append.mp hr with hold | hnew
          · exact h.reads r hold
          · cases mem_singleton.mp hnew }
  | advanceRead =>
    obtain ⟨read,hj,hs⟩ := bind_eq_some_iff.mp hs
    exact h.advanceRead hj hs
  | delete =>
    cases hs
    exact h.lose (not_holds_delete h.retired)
  | elsewhere =>
    simp only [PersistRun.step] at hs
    split_ifs at hs with hholds
    cases hs
    exact h.lose hholds

theorem sound_opened (writer : SessionWriter) (store : SessionStore)
    (maxPreviewBytes attempts : Nat) : Sound (opened writer store maxPreviewBytes attempts) where
  reports _ r hr := by cases hr
  settled st hst := by cases hst
  coalesced r hr := by cases hr
  completed_le := Nat.le_refl _
  retired hr := by cases hr
  clean _ _ := Nat.le_refl _
  saves c hc := by cases hc
  storedThrough_le := Nat.le_refl _
  ceiling_le := Nat.le_refl _
  ordered c hc := by cases hc
  newer _ c hc := by cases hc
  owner i call hi := by cases hi
  calls call hmem := by cases hmem
  reads r hr := by cases hr
  settles := Or.inl rfl

theorem sound_of_reaches {writer : SessionWriter} {store : SessionStore}
    {maxPreviewBytes attempts : Nat}
    (h : (system writer store maxPreviewBytes attempts).Reaches (fun s a => s.stepOk a) s) :
    Sound s :=
  h.invariant (sound_opened writer store maxPreviewBytes attempts)
    fun _ _ _ hsound hok hs => hsound.step hok hs

section StoredGeneration

variable (p : SessionPersistence)

@[simp] theorem storedGeneration_markDirty : p.markDirty.storedGeneration = p.storedGeneration := by
  unfold markDirty
  split_ifs <;> rfl

@[simp] theorem storedGeneration_markDegraded (retryable : Bool) :
    (p.markDegraded retryable).storedGeneration = p.storedGeneration := by
  unfold markDegraded
  split_ifs <;> rfl

@[simp] theorem storedGeneration_markClean (handled requested : Nat) :
    (p.markCleanIfFullyHandled handled requested).storedGeneration = p.storedGeneration := by
  unfold markCleanIfFullyHandled
  split_ifs <;> rfl

end StoredGeneration

theorem storedGeneration_advanceCall (hs : s.advanceCall i call = some s') :
    s'.persistence.storedGeneration = s.persistence.storedGeneration := by
  cases call with
  | capturing | awaiting | done => cases hs
  | queued | entered =>
    simp only [advanceCall] at hs
    split_ifs at hs <;> cases hs <;> rfl
  | returned handled attempts capture result =>
    cases hs
    cases result with
    | error kind => exact storedGeneration_markDegraded _ _
    | ok outcome => cases outcome <;> rfl
  | registered | reading | settling | checking | judging =>
    cases hs
    rfl
  | announcing | starting | publishing =>
    cases hs
    simp [setCall,setGate]
  | marking | dirtying | cleaning =>
    cases hs
    simp [setCall,setPersistence]

theorem storedGeneration_advanceTurn {turn : CheckpointTurn} (hs : s.advanceTurn turn = some s') :
    s'.persistence.storedGeneration = s.persistence.storedGeneration := by
  cases turn with
  | opening | configuring =>
    cases hs
    simp [setTurn]
  | running configured phase =>
    cases phase with
    | idle | minting | awaiting => cases hs
    | dirtying | degrading =>
      cases hs
      simp [setTurn,setPersistence]
    | returned attempt result =>
      cases hs
      cases result with
      | error kind => exact storedGeneration_markDegraded _ _
      | ok outcome => cases outcome <;> simp [afterCheckpoint,setTurn,raiseGeneration]

theorem storedGeneration_step (h : Sound s) {a : PersistAction}
    (hs : s.step a = some s') (hholds : s'.persistence.Holds) :
    (∃ k failure now, a = .save k failure now) ∨
      s'.persistence.storedGeneration = s.persistence.storedGeneration := by
  cases a with
  | save k failure now => exact Or.inl ⟨k,failure,now,rfl⟩
  | register | readHealth =>
    cases hs
    exact Or.inr rfl
  | advance =>
    obtain ⟨call,-,hs⟩ := bind_eq_some_iff.mp hs
    exact Or.inr (storedGeneration_advanceCall hs)
  | capture =>
    obtain ⟨call,-,hs⟩ := bind_eq_some_iff.mp hs
    unfold captureCall at hs
    split at hs
    · split_ifs at hs
      cases hs
      exact Or.inr rfl
    · cases hs
  | drop =>
    obtain ⟨call,-,hs⟩ := bind_eq_some_iff.mp hs
    unfold dropCall at hs
    split_ifs at hs <;> cases hs <;> exact Or.inr rfl
  | startTurn | endTurn =>
    simp only [step] at hs
    split_ifs at hs <;> cases hs <;> exact Or.inr rfl
  | checkpoint =>
    simp only [step] at hs
    split at hs <;> cases hs
    exact Or.inr rfl
  | advanceTurn =>
    obtain ⟨turn,-,hs⟩ := bind_eq_some_iff.mp hs
    exact Or.inr (storedGeneration_advanceTurn hs)
  | mint =>
    obtain ⟨turn,-,hs⟩ := bind_eq_some_iff.mp hs
    unfold mintCheckpoint at hs
    split at hs <;> cases hs
    exact Or.inr rfl
  | advanceRead =>
    obtain ⟨read,-,hs⟩ := bind_eq_some_iff.mp hs
    cases read <;> cases hs <;> exact Or.inr rfl
  | delete =>
    cases hs
    exact absurd hholds (not_holds_delete h.retired)
  | elsewhere =>
    simp only [step] at hs
    split_ifs at hs with hstill
    cases hs
    exact absurd hholds hstill

/-- The generation in the store does not go down from `s` to `s'`. -/
def NeverDecreases (s s' : PersistRun) : Prop :=
  ∀ g ∈ s.persistence.storedGeneration, ∃ g' ∈ s'.persistence.storedGeneration, g≤g'

theorem neverDecreases_step (h : Sound s) {a : PersistAction} (hs : s.step a = some s')
    (hholds : s'.persistence.Holds) : NeverDecreases s s' := by
  intro g hg
  rcases storedGeneration_step h hs hholds with ⟨k,failure,now,rfl⟩ | hsame
  · obtain ⟨capture,-,rfl⟩ := map_eq_some_iff.mp hs
    have heffect := save_effect capture failure now s.persistence
    change ∃ g' ∈ (s.persistence.save capture failure now).2.storedGeneration, g≤g'
    generalize s.persistence.save capture failure now = saved at heffect
    obtain ⟨result,p⟩ := saved
    cases heffect with
    | saved hraise hrow => exact ⟨capture.generation,hrow,(hraise g hg).le⟩
    | unsaved _ hrow => exact ⟨g,hrow ▸ hg,Nat.le_refl _⟩
  · exact ⟨g,hsame ▸ hg,Nat.le_refl _⟩

/-- In a run in which no request registers between the last comparison of the counters and the
publication of `Saved`, every report of `Saved` or of a clean health is about requests registered
before the stored record was captured, the tickets a save completes were registered before its
capture, and no step takes the stored generation down. -/
theorem durable_of_reaches {writer : SessionWriter} {store : SessionStore}
    {maxPreviewBytes attempts : Nat}
    (h : (system writer store maxPreviewBytes attempts).Reaches (fun s a => s.stepOk a) s) :
    s.DurabilityContract ∧
    ∀ a s', s.step a = some s' → s'.persistence.Holds → NeverDecreases s s' :=
  ⟨(sound_of_reaches h).toDurabilityContract,
    fun _ _ hs hholds => neverDecreases_step (sound_of_reaches h) hs hholds⟩

/-- A store in which the session's only writer has just claimed it. -/
def claimedStore (writer : SessionWriter) : SessionStore :=
  { SessionStore.empty with writers := (∅ : AList _).insert writer.sessionId writer.epoch }

/-- A turn is cancelled while its first checkpoint is being written. Two requests are then answered
by one save, and the checkpoint's save, still to run, leaves that record in place. -/
theorem durable_lateCheckpoint :
    ∃ s s', (system ⟨"s","e"⟩ (claimedStore ⟨"s","e"⟩) 0 1).replay (fun s a => s.stepOk a)
        [.startTurn true, .advanceTurn, .advanceTurn, .checkpoint, .advanceTurn,
          .mint ⟨"m",none,[],none,[],[]⟩, .endTurn,
          .register, .register, .advance 0, .advance 0, .advance 0, .advance 0, .advance 0,
          .advance 0, .advance 0, .capture 0 ⟨"m",none,[],none,[],[]⟩, .save 1 none 0,
          .advance 0, .advance 0, .advance 0, .advance 0, .advance 0,
          .advance 1, .advance 1, .advance 1, .advance 1] = some s ∧
      s.reports = [⟨2,2⟩] ∧ s.coalesced = [2] ∧ s.step (.save 0 none 0) = some s' ∧
      s.DurabilityContract ∧ NeverDecreases s s' := by
  obtain ⟨s,hreplay,hreach,hreports,hcoalesced,hstep⟩ := System.exists_of_replay
    (system ⟨"s","e"⟩ (claimedStore ⟨"s","e"⟩) 0 1) (fun s a => s.stepOk a)
    [.startTurn true, .advanceTurn, .advanceTurn, .checkpoint, .advanceTurn,
      .mint ⟨"m",none,[],none,[],[]⟩, .endTurn,
      .register, .register, .advance 0, .advance 0, .advance 0, .advance 0, .advance 0,
      .advance 0, .advance 0, .capture 0 ⟨"m",none,[],none,[],[]⟩, .save 1 none 0,
      .advance 0, .advance 0, .advance 0, .advance 0, .advance 0,
      .advance 1, .advance 1, .advance 1, .advance 1]
    (fun s => s.reports = [⟨2,2⟩] ∧ s.coalesced = [2] ∧
      (s.step (.save 0 none 0)).any (fun s' => s'.persistence.Holds) = true) (by decide +kernel)
  obtain ⟨s',hs',hholds⟩ := (Option.any_eq_true ..).mp hstep
  have hdurable := durable_of_reaches hreach
  exact ⟨s,s',hreplay,hreports,hcoalesced,hs',hdurable.1,
    hdurable.2 _ s' hs' (of_decide_eq_true hholds)⟩

/-- A request registered in that gap: `Saved` is published over it, and the record in the store was
captured before it. -/
theorem not_durable_lateRequest :
    ∃ s, (system ⟨"s","e"⟩ (claimedStore ⟨"s","e"⟩) 0 1).Reaches (fun _ _ => True) s ∧
      s.persistence.Holds ∧ s.status=.saved ∧ s.requested=2 ∧ s.storedThrough=1 ∧
      ¬ s.DurabilityContract := by
  obtain ⟨s,-,hreach,hholds,hstatus,hrequested,hthrough,hreport⟩ := System.exists_of_replay
    (system ⟨"s","e"⟩ (claimedStore ⟨"s","e"⟩) 0 1) (fun _ _ => True)
    [.register, .advance 0, .advance 0, .advance 0, .advance 0, .advance 0, .advance 0, .advance 0,
      .capture 0 ⟨"m",none,[],none,[],[]⟩, .save 0 none 0, .advance 0, .advance 0, .advance 0,
      .register, .advance 0, .advance 0]
    (fun s => s.persistence.Holds ∧ s.status=.saved ∧ s.requested=2 ∧ s.storedThrough=1 ∧
      ⟨2,1⟩ ∈ s.reports) (by decide +kernel)
  refine ⟨s,hreach,hholds,hstatus,hrequested,hthrough,fun hcontract => ?_⟩
  have hle := hcontract.reports hholds _ hreport
  dsimp only at hle
  omega

end PersistRun

end Daimonos.Session
