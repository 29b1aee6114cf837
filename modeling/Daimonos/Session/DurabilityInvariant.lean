import Daimonos.Session.Persistence

namespace Daimonos.Session

open Framework Store List

namespace SessionPersistence

variable {p p' : SessionPersistence} {capture : PersistenceCapture}

@[simp] theorem setHealth_store (health : PersistenceHealth) (p : SessionPersistence) :
    (p.setHealth health).store = p.store := rfl

@[simp] theorem setHealth_writer (health : PersistenceHealth) (p : SessionPersistence) :
    (p.setHealth health).writer = p.writer := rfl

/-- What a save does to the row, to this runtime's claim and to what it knows. -/
inductive SaveEffect (p : SessionPersistence) (capture : PersistenceCapture) :
    Except ErrorKind PersistenceSaveOutcome → SessionPersistence → Prop
  | saved {p' : SessionPersistence} :
    (∀ g∈p.storedGeneration, g < capture.generation) →
    p'.storedGeneration = some capture.generation →
    p.Holds → p'.Holds → p'.state.health=p.state.health → p'.retired=p.retired →
    SaveEffect p capture (.ok .saved) p'
  | unsaved {result : Except ErrorKind PersistenceSaveOutcome} {p' : SessionPersistence} :
    result ≠ .ok .saved →
    p'.storedGeneration = p.storedGeneration →
    (p'.Holds ↔ p.Holds) → p'.state.health=p.state.health →
    (p'.retired=true → p.retired=true ∨ ¬ p.Holds) →
    (result = .ok .skippedDeleted ∨ result = .ok .superseded → p'.retired=true) →
    SaveEffect p capture result p'

theorem save_effect (capture : PersistenceCapture) (failure : Option ErrorKind) (now : Nat)
    (p : SessionPersistence) :
    SaveEffect p capture (p.save capture failure now).1 (p.save capture failure now).2 := by
  rcases save_cases capture failure now p with ⟨result,hsave,hne,hdeleted,hsuperseded⟩ |
    ⟨stored,hsave⟩ | ⟨hsave,-,hlost⟩ | ⟨store,row,hsave,hholds,hraise,hrow,hwrote⟩
  · rw [hsave]
    refine .unsaved hne rfl Iff.rfl rfl Or.inl ?_
    rintro (hresult | hresult)
    · simp [retired,hdeleted hresult]
    · simp [retired,(hsuperseded hresult).1]
  · rw [hsave]
    exact .unsaved (by simp) rfl Iff.rfl rfl Or.inl (by simp)
  · rw [hsave]
    exact .unsaved (by simp) rfl Iff.rfl rfl (fun _ => Or.inr hlost) fun _ => by simp [retired]
  · rw [hsave]
    refine .saved hraise ?_ hholds ?_ rfl rfl
    · rw [← hrow]
      exact storedGeneration_wrote p rfl hwrote
    · change store.writers.lookup p.writer.sessionId = some p.writer.epoch
      rw [hwrote.writers]
      exact hholds

theorem not_holds_delete (h : p.retired=true → ¬ p.Holds) : ¬ p.delete.Holds := by
  unfold delete
  split_ifs with hretired
  · exact h hretired
  · unfold Holds SessionStore.deleteWriter
    split_ifs with hepoch
    · exact hepoch
    · change (p.store.writers.erase p.writer.sessionId).lookup p.writer.sessionId ≠ _
      simp

end SessionPersistence

namespace PersistRun

variable {s s' : PersistRun} {i : Nat} {call call' : PersistCall}

/-- As long as this runtime holds its claim, the record in the store was captured when at least `n`
requests were registered. -/
def Covers (n : Nat) (s : PersistRun) : Prop := s.persistence.Holds → n ≤ s.storedThrough

def NotClean (s : PersistRun) : Prop :=
  s.persistence.Holds → s.persistence.state.health ≠ .clean

def Ticket (handled : Nat) (s : PersistRun) : Prop :=
  s.completed≤handled ∧ handled ≤ s.requested

def CallOk (s : PersistRun) : PersistCall → Prop
  | .registered request | .announcing request | .queued request | .entered request => 0 < request
  | .starting | .reading => s.NotClean
  | .capturing handled _ | .dirtying handled _ | .settling handled => s.NotClean ∧ s.Ticket handled
  | .awaiting handled _ capture => s.NotClean ∧ s.Ticket handled ∧ handled ≤ capture.through
  | .returned handled _ capture result =>
    s.NotClean ∧ s.Ticket handled ∧ handled ≤ capture.through ∧
      (result = .ok .saved → s.Covers handled) ∧
      (result = .ok .skippedDeleted ∨ result = .ok .superseded → ¬ s.persistence.Holds)
  | .cleaning handled => s.Covers handled ∧ s.completed≤handled
  | .judging counted => counted=true → s.requested ≤ s.completed
  | .publishing status => status=.saved → s.requested ≤ s.completed ∧ s.Covers s.completed
  | .marking | .checking | .done => True

/-- How much the captures minted so far can know: a running turn's projections do not know the
requests registered since it was configured. -/
def ceiling (s : PersistRun) : Nat :=
  match s.turn with
  | some (.running configured _) => configured
  | _ => s.requested

/-- The reports made so far were right, every ticket completed by a save was registered before that
save's capture, and a call that found its ticket complete is among the requests settled. -/
structure DurabilityContract (s : PersistRun) : Prop where
  reports : s.persistence.Holds → ∀ r∈s.reports, r.requested ≤ r.through
  settled : ∀ st∈s.settled, ∀ through∈st.through, st.handled≤through
  coalesced : ∀ request∈s.coalesced, ∃ st∈s.settled, request ≤ st.handled

structure Sound (s : PersistRun) : Prop extends DurabilityContract s where
  completed_le : s.completed ≤ s.requested
  retired : s.persistence.retired=true → ¬ s.persistence.Holds
  clean : s.persistence.state.health = .clean → s.Covers s.completed
  saves : ∀ c∈s.saves, c.generation ≤ s.generation ∧ c.through ≤ s.ceiling
  storedThrough_le : s.storedThrough ≤ s.ceiling
  ceiling_le : s.ceiling ≤ s.requested
  ordered : ∀ c∈s.saves, ∀ d∈s.saves, c.generation<d.generation → c.through≤d.through
  newer : s.persistence.Holds → ∀ c∈s.saves,
    (∀ g ∈ s.persistence.storedGeneration, g < c.generation) → s.storedThrough ≤ c.through
  owner : ∀ i call, s.calls[i]? = some call → call.inGate=true → s.gate = some i
  calls : ∀ call∈s.calls, s.CallOk call
  reads : ∀ requested, .compared requested ∈ s.reads → requested ≤ s.completed
  settles : s.completed=0 ∨ ∃ st∈s.settled, s.completed ≤ st.handled

structure Keeps (s s' : PersistRun) : Prop where
  holds : s'.persistence.Holds → s.persistence.Holds
  notClean : s.NotClean → s'.NotClean
  completed : s'.completed=s.completed
  requested : s.requested ≤ s'.requested
  stored : s'.persistence.Holds → s.storedThrough ≤ s'.storedThrough

theorem Covers.mono {n : Nat} (h : s.Covers n) (hk : Keeps s s') : s'.Covers n :=
  fun hholds => Nat.le_trans (h (hk.holds hholds)) (hk.stored hholds)

theorem Ticket.mono {handled : Nat} (h : s.Ticket handled) (hk : Keeps s s') :
    s'.Ticket handled :=
  ⟨hk.completed ▸ h.1,Nat.le_trans h.2 hk.requested⟩

theorem CallOk.mono (h : s.CallOk call) (hk : Keeps s s')
    (heq : call.confirmed=true → s'.requested=s.requested) : s'.CallOk call := by
  cases call with
  | registered | announcing | queued | entered => exact h
  | marking | checking | done => trivial
  | starting | reading => exact hk.notClean h
  | capturing | dirtying | settling => exact ⟨hk.notClean h.1,Ticket.mono h.2 hk⟩
  | awaiting => exact ⟨hk.notClean h.1,Ticket.mono h.2.1 hk,h.2.2⟩
  | returned =>
    obtain ⟨hclean,hticket,hthrough,hsaved,hlost⟩ := h
    exact ⟨hk.notClean hclean,hticket.mono hk,hthrough,fun hr => (hsaved hr).mono hk,
      fun hr hholds => hlost hr (hk.holds hholds)⟩
  | cleaning => exact ⟨Covers.mono h.1 hk,hk.completed ▸ h.2⟩
  | judging =>
    intro hcounted
    subst hcounted
    rw [heq rfl,hk.completed]
    exact h rfl
  | publishing =>
    intro hstatus
    subst hstatus
    rw [heq rfl,hk.completed]
    exact ⟨(h rfl).1,Covers.mono (h rfl).2 hk⟩

theorem CallOk.outside (h : s.CallOk call) (hout : call.inGate=false) : s'.CallOk call := by
  cases call with
  | registered | announcing | queued => exact h
  | done => trivial
  | _ => cases hout

theorem Keeps.of_eq (hp : s'.persistence=s.persistence) (hc : s'.completed=s.completed)
    (hr : s'.requested=s.requested) (ht : s'.storedThrough = s.storedThrough) : Keeps s s' where
  holds h := hp ▸ h
  notClean h hholds := by
    rw [hp] at hholds ⊢
    exact h hholds
  completed := hc
  requested := hr.ge
  stored _ := ht.ge

namespace Sound

theorem calls_of_eq (h : Sound s) (hp : s'.persistence=s.persistence)
    (hc : s'.completed=s.completed) (hr : s'.requested=s.requested)
    (ht : s'.storedThrough = s.storedThrough) : ∀ call∈s.calls, s'.CallOk call :=
  fun call hmem => (h.calls call hmem).mono (.of_eq hp hc hr ht) fun _ => hr

theorem callOk (h : Sound s) (hi : s.calls[i]? = some call) : s.CallOk call :=
  h.calls call (mem_of_getElem? hi)

theorem eq_or_outside (h : Sound s) (hgate : s.gate = some i) (hi : s.calls[i]? = some call)
    {other : PersistCall} (hmem : other∈s.calls) : other=call ∨ other.inGate=false := by
  obtain ⟨j,hj⟩ := mem_iff_getElem?.mp hmem
  by_cases hin : other.inGate=true
  · have howner := h.owner j other hj hin
    rw [hgate] at howner
    rw [← Option.some.inj howner,hi] at hj
    exact Or.inl (Option.some.inj hj).symm
  · exact Or.inr (Bool.not_eq_true _ ▸ hin)

theorem setCall (h : Sound s) (call : PersistCall) (hok : s.CallOk call)
    (hgate : call.inGate=true → s.gate = some i) : Sound (s.setCall i call) :=
  { h with
    owner := by
      intro j other hj hin
      change (s.calls.set i call)[j]? = some other at hj
      rw [getElem?_set] at hj
      split_ifs at hj with hij hlt
      · cases hj
        exact hij ▸ hgate hin
      · exact h.owner j other hj hin
    calls := by
      intro other hmem
      have hok' : s.CallOk other := by
        rcases mem_or_eq_of_mem_set hmem with hold | rfl
        · exact h.calls other hold
        · exact hok
      exact hok'.mono (.of_eq rfl rfl rfl rfl) fun _ => rfl }

theorem transitionDurability (h : Sound s) (status : DurabilityStatus)
    (hsaved : status=.saved → s.Covers s.requested) : Sound (s.transitionDurability status) := by
  unfold PersistRun.transitionDurability
  split_ifs with hblocked hstatus
  · exact h
  · exact
      { h with
        calls := h.calls_of_eq rfl rfl rfl rfl
        reports := by
          intro hholds r hr
          rcases mem_append.mp hr with hold | hnew
          · exact h.reports hholds r hold
          · rw [mem_singleton.mp hnew]
            exact hsaved hstatus hholds }
  · exact { h with calls := h.calls_of_eq rfl rfl rfl rfl }

theorem setHealth (h : Sound s) {health : PersistenceHealth}
    (hclean : health=.clean → s.Covers s.completed)
    (hcalls : ∀ call∈s.calls, (s.setPersistence (s.persistence.setHealth health)).CallOk call) :
    Sound (s.setPersistence (s.persistence.setHealth health)) :=
  { h with clean := hclean, calls := hcalls }

theorem setHealth_of_ne (h : Sound s) {health : PersistenceHealth} (hne : health≠.clean) :
    Sound (s.setPersistence (s.persistence.setHealth health)) :=
  h.setHealth (fun heq => absurd heq hne) fun call hmem =>
    (h.calls call hmem).mono
      { holds := fun hholds => hholds
        notClean := fun _ _ => hne
        completed := rfl
        requested := Nat.le_refl _
        stored := fun _ => Nat.le_refl _ }
      fun _ => rfl

theorem mark (h : Sound s) (health : PersistenceHealth) (hne : health≠.clean) :
    let p := if s.persistence.retired then s.persistence else s.persistence.setHealth health
    Sound (s.setPersistence p) ∧ (s.setPersistence p).NotClean := by
  split_ifs with hretired
  · exact ⟨h,fun hholds => absurd hholds (h.retired hretired)⟩
  · exact ⟨h.setHealth_of_ne hne,fun _ => hne⟩

theorem markDirty (h : Sound s) : Sound (s.setPersistence s.persistence.markDirty) :=
  (h.mark .dirty nofun).1

theorem markDegraded (h : Sound s) (retryable : Bool) :
    Sound (s.setPersistence (s.persistence.markDegraded retryable)) :=
  (h.mark (.degraded retryable) nofun).1

theorem notClean_markDirty (h : Sound s) : (s.setPersistence s.persistence.markDirty).NotClean :=
  (h.mark .dirty nofun).2

theorem notClean_markDegraded (h : Sound s) (retryable : Bool) :
    (s.setPersistence (s.persistence.markDegraded retryable)).NotClean :=
  (h.mark (.degraded retryable) nofun).2

theorem raiseGeneration (h : Sound s) (stored : Nat) : Sound (s.raiseGeneration stored) :=
  { h with
    saves := fun c hc => ⟨Nat.le_trans (h.saves c hc).1 (Nat.le_max_left _ _),(h.saves c hc).2⟩
    calls := h.calls_of_eq rfl rfl rfl rfl }

theorem setGate (h : Sound s) (hfree : ∀ call∈s.calls, call.inGate=false) (gate : Option Nat) :
    Sound (s.setGate gate) :=
  { h with
    owner := by
      intro j call hj hin
      rw [hfree call (mem_of_getElem? hj)] at hin
      cases hin
    calls := h.calls_of_eq rfl rfl rfl rfl }

theorem complete (h : Sound s) (hgate : s.gate = some i) (hi : s.calls[i]? = some call)
    {settlement : Settlement} (hle : settlement.handled ≤ s.requested)
    (hthrough : ∀ through∈settlement.through, settlement.handled≤through)
    (hclean : s.persistence.state.health = .clean → s.Covers settlement.handled)
    (hok : (s.complete settlement).CallOk call) : Sound (s.complete settlement) :=
  { h with
    completed_le := Nat.max_le.mpr ⟨h.completed_le,hle⟩
    clean := fun hhealth hholds => Nat.max_le.mpr ⟨h.clean hhealth hholds,hclean hhealth hholds⟩
    calls := by
      intro other hmem
      rcases h.eq_or_outside hgate hi hmem with rfl | hout
      · exact hok
      · exact (h.calls other hmem).outside hout
    reads := fun requested hmem => Nat.le_trans (h.reads requested hmem) (Nat.le_max_left _ _)
    settled := by
      intro st hst
      rcases mem_append.mp hst with hold | hnew
      · exact h.settled st hold
      · rw [mem_singleton.mp hnew]
        exact hthrough
    settles := by
      right
      rcases Nat.le_total s.completed settlement.handled with hlt | hgt
      · exact ⟨settlement,mem_append_right _ mem_cons_self,Nat.max_le.mpr ⟨hlt,Nat.le_refl _⟩⟩
      · rcases h.settles with hzero | ⟨st,hst,hst'⟩
        · refine ⟨settlement,mem_append_right _ mem_cons_self,?_⟩
          exact Nat.max_le.mpr ⟨by omega,Nat.le_refl _⟩
        · exact ⟨st,mem_append_left _ hst,Nat.max_le.mpr ⟨hst',Nat.le_trans hgt hst'⟩⟩
    coalesced := by
      intro request hrequest
      obtain ⟨st,hst,hle⟩ := h.coalesced request hrequest
      exact ⟨st,mem_append_left _ hst,hle⟩ }

theorem spawnSave (h : Sound s) {capture : PersistenceCapture}
    (hgeneration : capture.generation=s.generation+1) (hthrough : capture.through=s.ceiling) :
    Sound (s.spawnSave capture) :=
  { h with
    saves := by
      intro c hc
      rcases mem_append.mp hc with hold | hnew
      · refine ⟨?_,(h.saves c hold).2⟩
        change c.generation ≤ capture.generation
        have hc := (h.saves c hold).1
        omega
      · rw [mem_singleton.mp hnew]
        exact ⟨Nat.le_refl _,hthrough.le⟩
    ordered := by
      intro c hc d hd hlt
      rcases mem_append.mp hc with holdc | hnewc
      · rcases mem_append.mp hd with holdd | hnewd
        · exact h.ordered c holdc d holdd hlt
        · rw [mem_singleton.mp hnewd,hthrough]
          exact (h.saves c holdc).2
      · rw [mem_singleton.mp hnewc] at hlt ⊢
        rcases mem_append.mp hd with holdd | hnewd
        · have hd := (h.saves d holdd).1
          omega
        · rw [mem_singleton.mp hnewd]
    newer := by
      intro hholds c hc hnewer
      rcases mem_append.mp hc with hold | hnew
      · exact h.newer hholds c hold hnewer
      · rw [mem_singleton.mp hnew,hthrough]
        exact h.storedThrough_le
    calls := h.calls_of_eq rfl rfl rfl rfl }

theorem setTurn (h : Sound s) {turn : Option CheckpointTurn}
    (hrises : s.ceiling ≤ (s.setTurn turn).ceiling) (hle : (s.setTurn turn).ceiling ≤ s.requested) :
    Sound (s.setTurn turn) :=
  { h with
    saves := fun c hc => ⟨(h.saves c hc).1,Nat.le_trans (h.saves c hc).2 hrises⟩
    storedThrough_le := Nat.le_trans h.storedThrough_le hrises
    ceiling_le := hle
    calls := h.calls_of_eq rfl rfl rfl rfl }

theorem setTurn_running (h : Sound s) {configured : Nat} {phase phase' : CheckpointPhase}
    (hturn : s.turn = some (.running configured phase)) :
    Sound (s.setTurn (some (.running configured phase'))) := by
  have hceiling : s.ceiling=configured := by rw [ceiling,hturn]
  exact h.setTurn hceiling.le (hceiling ▸ h.ceiling_le)

theorem setTurn_idle (h : Sound s) {turn : Option CheckpointTurn}
    (hidle : ∀ configured phase, turn ≠ some (.running configured phase)) :
    Sound (s.setTurn turn) := by
  have hceiling : (s.setTurn turn).ceiling = s.requested := by
    unfold ceiling PersistRun.setTurn
    dsimp only
    split
    · next configured phase => exact absurd rfl (hidle configured phase)
    · rfl
  exact h.setTurn (hceiling ▸ h.ceiling_le) hceiling.le

theorem register (h : Sound s) (hok : s.stepOk .register = true) :
    Sound { s with
      requested := s.requested+1, calls := s.calls ++ [.registered (s.requested+1)] } := by
  have hrises : s.ceiling ≤ ceiling { s with
      requested := s.requested+1, calls := s.calls ++ [.registered (s.requested+1)] } := by
    unfold ceiling
    dsimp only
    split
    · exact Nat.le_refl _
    · exact Nat.le_succ _
  have hle : ceiling { s with
      requested := s.requested+1, calls := s.calls ++ [.registered (s.requested+1)] } ≤
      s.requested+1 := by
    have hold := h.ceiling_le
    unfold ceiling at hold ⊢
    split
    · next hturn =>
      rw [hturn] at hold
      exact Nat.le_succ_of_le hold
    · exact Nat.le_refl _
  exact
    { h with
      completed_le := Nat.le_succ_of_le h.completed_le
      saves := fun c hc => ⟨(h.saves c hc).1,Nat.le_trans (h.saves c hc).2 hrises⟩
      storedThrough_le := Nat.le_trans h.storedThrough_le hrises
      ceiling_le := hle
      owner := by
        intro j call hj hin
        rw [getElem?_append] at hj
        split_ifs at hj
        · exact h.owner j call hj hin
        · rw [mem_singleton.mp (mem_of_getElem? hj)] at hin
          cases hin
      calls := by
        intro call hmem
        rcases mem_append.mp hmem with hold | hnew
        · refine (h.calls call hold).mono ⟨fun hholds => hholds,fun hclean => hclean,rfl,
            Nat.le_succ _,fun _ => Nat.le_refl _⟩ fun hconfirmed => ?_
          have hnot := all_eq_true.mp hok call hold
          rw [hconfirmed] at hnot
          cases hnot
        · rw [mem_singleton.mp hnew]
          exact Nat.succ_pos _ }

end Sound

theorem inGate_deliver (capture : PersistenceCapture)
    (result : Except ErrorKind PersistenceSaveOutcome) (call : PersistCall) :
    (call.deliver capture result).inGate = call.inGate := by
  cases call with
  | awaiting =>
    unfold PersistCall.deliver
    dsimp only
    split_ifs <;> rfl
  | _ => rfl

theorem ceiling_deliver (capture : PersistenceCapture)
    (result : Except ErrorKind PersistenceSaveOutcome) (turn : Option CheckpointTurn)
    (s : PersistRun) :
    (s.setTurn (turn.map (CheckpointTurn.deliver capture result))).ceiling =
      (s.setTurn turn).ceiling := by
  rcases turn with - | turn
  · rfl
  · cases turn with
    | opening | configuring => rfl
    | running configured phase =>
      cases phase with
      | awaiting =>
        dsimp only [Option.map_some,CheckpointTurn.deliver]
        split_ifs <;> rfl
      | _ => rfl

variable {result : Except ErrorKind PersistenceSaveOutcome} {capture : PersistenceCapture}

/-- A waiter that gets its result: a saved one covers its ticket, and a retired one is no longer the
writer. -/
theorem CallOk.deliver (h : s.CallOk call) (hsaved : result = .ok .saved → s.Covers capture.through)
    (hlost : result = .ok .skippedDeleted ∨ result = .ok .superseded → ¬ s.persistence.Holds) :
    s.CallOk (call.deliver capture result) := by
  cases call with
  | awaiting =>
    unfold PersistCall.deliver
    dsimp only
    split_ifs with heq
    · subst heq
      exact ⟨h.1,h.2.1,h.2.2,fun hr hholds => Nat.le_trans h.2.2 (hsaved hr hholds),hlost⟩
    · exact h
  | _ => exact h

theorem Sound.deliver (h : Sound s) {p : SessionPersistence} (k : Nat)
    {through : Nat} (hholds : p.Holds → s.persistence.Holds)
    (hhealth : p.state.health = s.persistence.state.health) (hgone : p.retired=true → ¬ p.Holds)
    (hrises : p.Holds → s.storedThrough≤through) (hle : through ≤ s.ceiling)
    (hnewer : p.Holds → ∀ c∈s.saves, (∀ g∈p.storedGeneration, g < c.generation) →
      through ≤ c.through) (hsaved : result = .ok .saved → capture.through≤through)
    (hlost : result = .ok .skippedDeleted ∨ result = .ok .superseded → ¬ p.Holds) :
    Sound { s with
      persistence := p
      saves := s.saves.eraseIdx k
      calls := s.calls.map (PersistCall.deliver capture result)
      turn := s.turn.map (CheckpointTurn.deliver capture result)
      storedThrough := through } := by
  have hceiling := ceiling_deliver capture result s.turn s
  exact
    { h with
      reports := fun hp => h.reports (hholds hp)
      retired := hgone
      clean := fun hclean hp => Nat.le_trans (h.clean (hhealth ▸ hclean) (hholds hp)) (hrises hp)
      saves := by
        intro c hc
        have hold := h.saves c (mem_of_mem_eraseIdx hc)
        exact ⟨hold.1,Nat.le_trans hold.2 hceiling.ge⟩
      storedThrough_le := Nat.le_trans hle hceiling.ge
      ceiling_le := Nat.le_trans hceiling.le h.ceiling_le
      ordered := fun c hc d hd =>
        h.ordered c (mem_of_mem_eraseIdx hc) d (mem_of_mem_eraseIdx hd)
      newer := fun hp c hc => hnewer hp c (mem_of_mem_eraseIdx hc)
      owner := by
        intro j call hj hin
        obtain ⟨before,hbefore,rfl⟩ := Option.map_eq_some_iff.mp (getElem?_map .. ▸ hj)
        exact h.owner j before hbefore (inGate_deliver .. ▸ hin)
      calls := by
        intro call hmem
        obtain ⟨before,hbefore,rfl⟩ := mem_map.mp hmem
        refine CallOk.deliver ?_ (fun hr _ => hsaved hr) hlost
        exact (h.calls before hbefore).mono
          { holds := hholds
            notClean := fun hclean hp => hhealth ▸ hclean (hholds hp)
            completed := rfl
            requested := Nat.le_refl _
            stored := hrises }
          fun _ => rfl }

theorem throughAfter_of_ne (hne : result ≠ .ok .saved) :
    s.throughAfter capture result = s.storedThrough := by
  unfold throughAfter
  split
  · exact absurd rfl hne
  · rfl

theorem Sound.runSave (h : Sound s) {k : Nat}
    (hk : s.saves[k]? = some capture) (failure : Option ErrorKind) (now : Nat) :
    Sound (s.runSave k failure now capture) := by
  have heffect := SessionPersistence.save_effect capture failure now s.persistence
  unfold PersistRun.runSave
  generalize s.persistence.save capture failure now = saved at heffect
  obtain ⟨result,p⟩ := saved
  cases heffect with
  | saved hraise hrow hold hholds hhealth hretired =>
    have hmem : capture∈s.saves := mem_of_getElem? hk
    exact h.deliver k (fun _ => hold) hhealth (fun hr => absurd hold (h.retired (hretired ▸ hr)))
      (fun _ => h.newer hold capture hmem hraise) (h.saves capture hmem).2
      (fun _ c hc hnewer => h.ordered capture hmem c hc (hnewer _ hrow)) (fun _ => Nat.le_refl _)
      (by simp)
  | unsaved hne hrow hholds hhealth hretired hlost =>
    dsimp only
    rw [throughAfter_of_ne hne]
    have hgone : p.retired=true → ¬ p.Holds := fun hr hp =>
      (hretired hr).elim (fun hr => h.retired hr (hholds.mp hp)) fun hnot => hnot (hholds.mp hp)
    exact h.deliver k hholds.mp hhealth hgone (fun _ => Nat.le_refl _) h.storedThrough_le
      (fun hp c hc hnewer => h.newer (hholds.mp hp) c hc (hrow ▸ hnewer)) (absurd · hne)
      fun hr => hgone (hlost hr)

end PersistRun

end Daimonos.Session
