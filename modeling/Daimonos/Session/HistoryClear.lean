import Daimonos.Session.TurnController

namespace Daimonos.Session

open Framework List TurnController Option

def TurnPhase.holds : TurnPhase → Bool
  | .claimed | .admitted | .running | .dropping _ | .terminated => true
  | .over | .abandoned => false

/-- `begin_turn` has let the turn start, and the turn has not released the slot. -/
def TurnPhase.started : TurnPhase → Bool
  | .admitted | .running | .dropping _ | .terminated => true
  | .claimed | .over | .abandoned => false

/-- Where a `clear_history` call stands. -/
inductive ClearPhase where
  | claimed
  | inspected
  | clearing
  | cleared
  | returned
  deriving DecidableEq

namespace ClearPhase

def holds : ClearPhase → Bool
  | .returned => false
  | _ => true

def rewrites : ClearPhase → Bool
  | .clearing | .cleared => true
  | _ => false

def permits (phase : ClearPhase) : Nat := phase.holds.toNat

theorem holds_of_rewrites {phase : ClearPhase} (h : phase.rewrites=true) :
    phase.holds=true := by
  cases phase with
  | returned => cases h
  | claimed | inspected | clearing | cleared => rfl

end ClearPhase

/-- The two claims on a session's history, and the calls that make them. `beginning` counts the
`begin_turn` calls that have read the flag once and not yet gone for the slot. -/
structure HistoryClaims (M : Type) where
  turn : TurnController := {}
  mutationActive : Bool := false
  beginning : Nat := 0
  clears : List ClearPhase := []
  history : List M := []

/-- `release` is the permit's drop: at the end of the call, or where its future is dropped. -/
inductive ClaimAction (M : Type) where
  | beginTurn
  | claimSlot
  | turn (action : TurnAction)
  | commit (turn : Nat) (history : List M)
  | clearHistory
  | inspect (call : Nat)
  | rewrite (call : Nat)
  | release (call : Nat)

namespace TurnController

def phases (c : TurnController) : List TurnPhase := c.turns.map (·.phase)

variable {c c' : TurnController} {t i : Nat} {turn : Turn}

theorem phases_setTurn (c : TurnController) (t : Nat) (turn : Turn) :
    (c.setTurn t turn).phases = c.phases.set t turn.phase := by
  rw [phases,setTurn,map_set]
  rfl

theorem phases_setTurn_same (ht : c.turns[t]? = some turn) {turn' : Turn}
    (h : turn'.phase=turn.phase) : (c.setTurn t turn').phases = c.phases := by
  have hphase : c.phases[t]? = some turn.phase := by simp [phases,ht]
  obtain ⟨hlt,heq⟩ := List.getElem?_eq_some_iff.mp hphase
  rw [phases_setTurn,h,← heq,List.set_getElem_self]

theorem phases_clearSlot (c : TurnController) (t : Nat) : (c.clearSlot t).phases = c.phases := by
  unfold clearSlot
  split_ifs <;> rfl

theorem begin_phases (h : c.begin = .ok c') :
    c.active=none ∧ c'.active = some c.phases.length ∧ c'.phases = c.phases ++ [.claimed] := by
  unfold begin at h
  split_ifs at h with hslot
  cases h
  refine ⟨by simpa using hslot,?_,?_⟩
  · rw [phases,length_map]
  · rw [phases,map_append]
    rfl

theorem cancelStep_phases {r : CancelPhase} (hs : c.cancelStep i r = some c') :
    c'.active=c.active ∧ c'.phases=c.phases := by
  cases r with
  | loaded =>
    obtain ⟨turn,-,rfl⟩ := map_eq_some_iff.mp hs
    exact ⟨rfl,rfl⟩
  | checked =>
    obtain ⟨turn,ht,rfl⟩ := map_eq_some_iff.mp hs
    dsimp only
    split_ifs
    · exact ⟨rfl,phases_setTurn_same ht rfl⟩
    · exact ⟨rfl,phases_setTurn_same ht rfl⟩
    · exact ⟨rfl,rfl⟩
  | emitting =>
    cases hs
    exact ⟨rfl,rfl⟩
  | notifying =>
    obtain ⟨turn,ht,rfl⟩ := map_eq_some_iff.mp hs
    exact ⟨rfl,phases_setTurn_same ht rfl⟩
  | returned => cases hs

theorem turnStep_phases {m : TurnMove} (hs : c.turnStep t turn m = some c') :
    ∃ phase, c'.phases = c.phases.set t phase ∧
      (c'.active=c.active ∧ phase.holds=turn.phase.holds ∧
          (phase.started=true → turn.phase.started=true ∨ m = .recheck false) ∨
        c'.active = (c.clearSlot t).active ∧ phase.holds=false ∧ phase.started=false) := by
  cases m with
  | recheck =>
    simp only [turnStep,ite_none_right_eq_some] at hs
    obtain ⟨hphase,hs⟩ := hs
    rw [hphase]
    split_ifs at hs with hactive
    · cases hs
      exact ⟨_,by rw [phases_setTurn,phases_clearSlot],.inr ⟨rfl,rfl,rfl⟩⟩
    · cases hs
      exact ⟨_,phases_setTurn ..,.inl ⟨rfl,rfl,fun _ => .inr (by simpa using hactive)⟩⟩
  | announce | cancelled | complete | readOutcome =>
    simp only [turnStep,ite_none_right_eq_some] at hs
    obtain ⟨hphase,hs⟩ := hs
    cases hs
    exact ⟨_,phases_setTurn ..,.inl ⟨rfl,by simp [hphase,TurnPhase.holds],
      fun _ => .inl (by simp [hphase,TurnPhase.started])⟩⟩
  | emitTerminal =>
    simp only [turnStep] at hs
    split at hs
    · rename_i status hphase
      cases hs
      rw [hphase]
      exact ⟨_,phases_setTurn ..,.inl ⟨rfl,rfl,fun _ => .inl rfl⟩⟩
    · cases hs
  | release =>
    simp only [turnStep,ite_none_right_eq_some] at hs
    obtain ⟨hphase,hs⟩ := hs
    cases hs
    exact ⟨_,by rw [phases_setTurn,phases_clearSlot],.inr ⟨rfl,rfl,rfl⟩⟩

end TurnController

theorem TurnPhase.holds_of_started {phase : TurnPhase} (h : phase.started=true) :
    phase.holds=true := by
  cases phase <;> first | rfl | cases h

namespace HistoryClaims

variable {M : Type}

def setClear (s : HistoryClaims M) (i : Nat) (phase : ClearPhase) : HistoryClaims M :=
  { s with clears := s.clears.set i phase }

def leave (s : HistoryClaims M) (i : Nat) : HistoryClaims M :=
  { s.setClear i .returned with mutationActive := false }

/-- A turn's second look reads the flag; turns begin by `claimSlot` only. -/
def reads (s : HistoryClaims M) : TurnAction → Bool
  | .begin => false
  | .move _ (.recheck mutationActive) => mutationActive == s.mutationActive
  | _ => true

open ClearPhase

def step (s : HistoryClaims M) : ClaimAction M → Option (HistoryClaims M)
  | .beginTurn => some (if s.mutationActive then s else { s with beginning := s.beginning+1 })
  | .claimSlot =>
    if s.beginning=0 then none
    else
      match s.turn.begin with
      | .error _ => some { s with beginning := s.beginning-1 }
      | .ok turn => some { s with turn, beginning := s.beginning-1 }
  | .turn action =>
    if s.reads action then (s.turn.step action).map fun turn => { s with turn } else none
  | .commit t history =>
    if (s.turn.phases[t]?).any TurnPhase.started then some { s with history } else none
  | .clearHistory =>
    some (if s.mutationActive then s
      else { s with mutationActive := true, clears := s.clears ++ [.claimed] })
  | .inspect i =>
    match s.clears[i]? with
    | some .claimed =>
      some (if s.turn.active.isSome then s.leave i else s.setClear i .inspected)
    | some .inspected =>
      -- with the lifecycle lock
      some (if s.turn.active.isSome then s.leave i else s.setClear i .clearing)
    | _ => none
  | .rewrite i =>
    if s.clears[i]? = some .clearing then some { s.setClear i .cleared with history := [] } else none
  | .release i => if (s.clears[i]?).any holds then some (s.leave i) else none

def system (M : Type) : System (HistoryClaims M) (ClaimAction M) := { init := {}, step }

structure Excluded (s : HistoryClaims M) : Prop where
  permit : total permits s.clears = s.mutationActive.toNat
  slot : ∀ t phase, s.turn.phases[t]? = some phase →
    (phase.holds=true ↔ s.turn.active = some t)
  born : ∀ t, s.turn.active = some t → t < s.turn.phases.length
  apart : ∀ phase∈s.clears, phase.rewrites=true → ∀ p∈s.turn.phases, p.started=false

namespace Excluded

variable {s s' : HistoryClaims M} {i : Nat} {phase phase' : ClearPhase}

theorem not_holds (h : Excluded s) (hflag : s.mutationActive=false) :
    ∀ phase∈s.clears, phase.holds=false := by
  intro phase hphase
  have hle := le_total permits hphase
  rw [h.permit,hflag] at hle
  unfold permits at hle
  cases hholds : phase.holds with
  | false => rfl
  | true => simp [hholds] at hle

theorem no_started (h : Excluded s) (hslot : s.turn.active=none) :
    ∀ p∈s.turn.phases, p.started=false := by
  intro p hp
  obtain ⟨t,ht⟩ := mem_iff_getElem?.mp hp
  cases hstarted : p.started with
  | false => rfl
  | true =>
    have hactive := (h.slot t p ht).mp (TurnPhase.holds_of_started hstarted)
    rw [hslot] at hactive
    cases hactive

theorem setClear (h : Excluded s) (hi : s.clears[i]? = some phase)
    (hpermits : phase'.permits=phase.permits)
    (happart : phase'.rewrites=true → ∀ p∈s.turn.phases, p.started=false) :
    Excluded (s.setClear i phase') where
  permit := by
    have htotal := total_set permits hi phase'
    have hpermit := h.permit
    change total _ (s.clears.set i phase') = s.mutationActive.toNat
    omega
  slot := h.slot
  born := h.born
  apart p hp hrewrites := by
    rcases mem_or_eq_of_mem_set hp with hp | rfl
    · exact h.apart p hp hrewrites
    · exact happart hrewrites

theorem leave (h : Excluded s) (hi : s.clears[i]? = some phase) (hholds : phase.holds=true) :
    Excluded (s.leave i) where
  permit := by
    have htotal := total_set permits hi .returned
    have hpermit := h.permit
    have hone : phase.permits=1 := by rw [permits,hholds]; rfl
    have hle := s.mutationActive.toNat_le
    have hnone : returned.permits=0 := rfl
    change total _ (s.clears.set i .returned) = 0
    omega
  slot := h.slot
  born := h.born
  apart p hp hrewrites := by
    rcases mem_or_eq_of_mem_set hp with hp | rfl
    · exact h.apart p hp hrewrites
    · cases hrewrites

theorem claimSlot (h : Excluded s) {turn : TurnController} (hbegin : s.turn.begin = .ok turn)
    (beginning : Nat) : Excluded { s with turn, beginning } := by
  obtain ⟨hnone,hactive,hphases⟩ := begin_phases hbegin
  refine ⟨h.permit,?_,?_,?_⟩
  · intro t phase ht
    rw [hphases] at ht
    by_cases hlt : t < s.turn.phases.length
    · rw [List.getElem?_append_left hlt] at ht
      have hold := h.slot t phase ht
      rw [hnone] at hold
      simp only [reduceCtorEq,iff_false] at hold
      refine iff_of_false hold fun heq => ?_
      have hequal := some.inj (hactive.symm.trans heq)
      omega
    · rw [getElem?_append_right (by omega),getElem?_singleton] at ht
      split_ifs at ht with hzero
      cases ht
      refine iff_of_true rfl (hactive.trans ?_)
      congr 1
      omega
  · intro t ht
    have hequal := some.inj (hactive.symm.trans ht)
    rw [hphases,length_append,← hequal]
    exact Nat.lt_succ_self _
  · intro phase hphase hrewrites p hp
    rw [hphases] at hp
    rcases mem_append.mp hp with hp | hp
    · exact h.apart phase hphase hrewrites p hp
    · rw [mem_singleton.mp hp]
      rfl

/-- A turn's own step. The second look lets it start only when no clear holds its permit. -/
theorem move (h : Excluded s) {t : Nat} {m : TurnMove} {turn : Turn} {c : TurnController}
    (ht : s.turn.turns[t]? = some turn) (hreads : s.reads (.move t m) = true)
    (hs : s.turn.turnStep t turn m = some c) : Excluded { s with turn := c } := by
  obtain ⟨phase,hphases,hclaim⟩ := turnStep_phases hs
  have hold : s.turn.phases[t]? = some turn.phase := by simp [phases,ht]
  have hlt := (List.getElem?_eq_some_iff.mp hold).1
  have hother : ∀ u p, u≠t → c.phases[u]? = some p → s.turn.phases[u]? = some p := by
    intro u p hne hu
    rw [hphases,List.getElem?_set_ne (Ne.symm hne)] at hu
    exact hu
  have hown : ∀ p, c.phases[t]? = some p → p=phase := by
    intro p hp
    rw [hphases,List.getElem?_set_self hlt] at hp
    exact (some.inj hp).symm
  have hlength : c.phases.length = s.turn.phases.length := by rw [hphases,length_set]
  refine ⟨h.permit,?_,?_,?_⟩
  · intro u p hu
    rcases hclaim with ⟨hactive,hholds,-⟩ | ⟨hactive,hholds,-⟩
    · rw [hactive]
      by_cases hut : u=t
      · subst hut
        rw [hown p hu,hholds]
        exact h.slot u turn.phase hold
      · exact h.slot u p (hother u p hut hu)
    · rw [hactive,clearSlot]
      by_cases hut : u=t
      · subst hut
        rw [hown p hu,hholds]
        split_ifs with hslot
        · simp
        · simp [hslot]
      · rw [h.slot u p (hother u p hut hu)]
        split_ifs with hslot
        · simp [hslot,Ne.symm hut]
        · rfl
  · intro u hu
    rw [hlength]
    refine h.born u ?_
    rcases hclaim with ⟨hactive,-⟩ | ⟨hactive,-⟩
    · exact hactive ▸ hu
    · rw [hactive,clearSlot] at hu
      split_ifs at hu
      exact hu
  · intro clear hclear hrewrites p hp
    obtain ⟨u,hu⟩ := mem_iff_getElem?.mp hp
    by_cases hut : u=t
    · subst hut
      rw [hown p hu]
      have hbefore := h.apart clear hclear hrewrites turn.phase (mem_of_getElem? hold)
      rcases hclaim with ⟨-,-,hstart⟩ | ⟨-,-,hstarted⟩
      · by_contra hstarted
        rcases hstart (Bool.not_eq_false _ ▸ hstarted) with hwas | rfl
        · rw [hbefore] at hwas
          cases hwas
        · have hflag : s.mutationActive=false := (beq_iff_eq.mp hreads).symm
          have hnot := h.not_holds hflag clear hclear
          rw [holds_of_rewrites hrewrites] at hnot
          cases hnot
      · exact hstarted
    · exact h.apart clear hclear hrewrites p (mem_of_getElem? (hother u p hut hu))

theorem turn (h : Excluded s) {a : TurnAction} (hreads : s.reads a = true) {c : TurnController}
    (hs : s.turn.step a = some c) : Excluded { s with turn := c } := by
  have hsame : c.active=s.turn.active → c.phases=s.turn.phases →
      Excluded { s with turn := c } := by
    intro hactive hphases
    refine ⟨h.permit,?_,?_,?_⟩ <;> simp only [hactive,hphases]
    · exact h.slot
    · exact h.born
    · exact h.apart
  cases a with
  | begin => cases hreads
  | move =>
    obtain ⟨turn,ht,hs⟩ := bind_eq_some_iff.mp hs
    exact h.move ht hreads hs
  | cancel =>
    cases hs
    exact hsame rfl rfl
  | advance =>
    obtain ⟨r,-,hs⟩ := bind_eq_some_iff.mp hs
    obtain ⟨hactive,hphases⟩ := cancelStep_phases hs
    exact hsame hactive hphases

theorem step (h : Excluded s) {a : ClaimAction M} (hs : s.step a = some s') : Excluded s' := by
  cases a with
  | beginTurn =>
    cases hs
    split_ifs
    · exact h
    · exact ⟨h.permit,h.slot,h.born,h.apart⟩
  | claimSlot =>
    simp only [HistoryClaims.step] at hs
    split_ifs at hs
    split at hs
    · cases hs
      exact ⟨h.permit,h.slot,h.born,h.apart⟩
    · rename_i hbegin
      cases hs
      exact h.claimSlot hbegin _
  | turn =>
    simp only [HistoryClaims.step,ite_none_right_eq_some] at hs
    obtain ⟨hreads,hs⟩ := hs
    obtain ⟨c,hstep,rfl⟩ := map_eq_some_iff.mp hs
    exact h.turn hreads hstep
  | commit =>
    simp only [HistoryClaims.step,ite_none_right_eq_some] at hs
    obtain ⟨-,hs⟩ := hs
    cases hs
    exact ⟨h.permit,h.slot,h.born,h.apart⟩
  | clearHistory =>
    cases hs
    split_ifs with hflag
    · exact h
    · have hpermit := h.permit
      refine ⟨?_,h.slot,h.born,?_⟩
      · rw [Bool.not_eq_true] at hflag
        rw [hflag] at hpermit
        rw [total_append,hpermit]
        rfl
      · intro phase hphase hrewrites
        rcases mem_append.mp hphase with hphase | hphase
        · exact h.apart phase hphase hrewrites
        · rw [mem_singleton.mp hphase] at hrewrites
          cases hrewrites
  | inspect =>
    simp only [HistoryClaims.step] at hs
    split at hs
    · rename_i hi
      cases hs
      split_ifs
      · exact h.leave hi rfl
      · exact h.setClear hi rfl nofun
    · rename_i hi
      cases hs
      split_ifs with hslot
      · exact h.leave hi rfl
      · exact h.setClear hi rfl fun _ => h.no_started (by simpa using hslot)
    · cases hs
  | rewrite i =>
    simp only [HistoryClaims.step,ite_none_right_eq_some] at hs
    obtain ⟨hi,hs⟩ := hs
    cases hs
    have hset : Excluded (s.setClear i .cleared) :=
      h.setClear hi rfl fun _ => h.apart _ (mem_of_getElem? hi) rfl
    exact ⟨hset.permit,hset.slot,hset.born,hset.apart⟩
  | release =>
    simp only [HistoryClaims.step,ite_none_right_eq_some] at hs
    obtain ⟨hi,hs⟩ := hs
    cases hs
    obtain ⟨phase,hphase,hholds⟩ := (Option.any_eq_true ..).mp hi
    exact h.leave hphase hholds

theorem of_reaches (h : (system M).Reaches (fun _ _ => True) s) : Excluded s :=
  h.invariant ⟨rfl,nofun,nofun,nofun⟩ fun _ _ _ hs _ hstep => hs.step hstep

theorem not_holds_of_start (h : Excluded s) {a : ClaimAction M} (hs : s.step a = some s') {t : Nat}
    {p p' : TurnPhase} (hp : s.turn.phases[t]? = some p) (hp' : s'.turn.phases[t]? = some p')
    (hnot : p.started=false) (hstarted : p'.started=true) :
    ∀ phase∈s.clears, phase.holds=false := by
  have hsame : s'.turn.phases[t]? ≠ s.turn.phases[t]? := by
    rw [hp,hp']
    rintro ⟨⟩
    rw [hnot] at hstarted
    cases hstarted
  cases a with
  | beginTurn =>
    cases hs
    refine absurd ?_ hsame
    split_ifs <;> rfl
  | claimSlot =>
    simp only [HistoryClaims.step] at hs
    split_ifs at hs
    split at hs
    · cases hs
      exact absurd rfl hsame
    · rename_i hbegin
      cases hs
      refine absurd ?_ hsame
      have hlt := (List.getElem?_eq_some_iff.mp hp).1
      rw [(begin_phases hbegin).2.2,List.getElem?_append_left hlt]
  | turn action =>
    simp only [HistoryClaims.step,ite_none_right_eq_some] at hs
    obtain ⟨hreads,hs⟩ := hs
    obtain ⟨c,hstep,rfl⟩ := map_eq_some_iff.mp hs
    cases action with
    | begin => cases hreads
    | move u =>
      obtain ⟨turn,hturn,hstep⟩ := bind_eq_some_iff.mp hstep
      obtain ⟨phase,hphases,hclaim⟩ := turnStep_phases hstep
      obtain rfl : u=t := by
        by_contra hne
        refine hsame ?_
        rw [hphases,List.getElem?_set_ne hne]
      rw [hphases,List.getElem?_set_self (List.getElem?_eq_some_iff.mp hp).1] at hp'
      obtain rfl := some.inj hp'
      obtain rfl : turn.phase=p := by simpa [phases,hturn] using hp
      rcases hclaim with ⟨-,-,hstart⟩ | ⟨-,-,hover⟩
      · rcases hstart hstarted with hwas | rfl
        · rw [hnot] at hwas
          cases hwas
        · exact h.not_holds (beq_iff_eq.mp hreads).symm
      · rw [hover] at hstarted
        cases hstarted
    | cancel =>
      cases hstep
      exact absurd rfl hsame
    | advance =>
      obtain ⟨r,-,hstep⟩ := bind_eq_some_iff.mp hstep
      refine absurd ?_ hsame
      rw [(cancelStep_phases hstep).2]
  | commit | rewrite | release =>
    simp only [HistoryClaims.step,ite_none_right_eq_some] at hs
    obtain ⟨-,hs⟩ := hs
    cases hs
    exact absurd rfl hsame
  | clearHistory =>
    cases hs
    refine absurd ?_ hsame
    split_ifs <;> rfl
  | inspect =>
    simp only [HistoryClaims.step] at hs
    refine absurd ?_ hsame
    split at hs <;> cases hs <;> split_ifs <;> rfl

end Excluded

/-- What holds of the two claims in a state and across its next step. -/
structure ClaimsExclude (s : HistoryClaims M) : Prop where
  apart : ∀ phase∈s.clears, phase.rewrites=true → ∀ p∈s.turn.phases, p.started=false
  rewritten : ∀ i s', s.step (.rewrite i) = some s' → ∀ p∈s.turn.phases, p.started=false
  starts : ∀ a s', s.step a = some s' → ∀ (t : Nat) (p p' : TurnPhase),
    s.turn.phases[t]? = some p → s'.turn.phases[t]? = some p' → p.started=false → p'.started=true →
      ∀ phase∈s.clears, phase.holds=false
  permit : s.mutationActive=true ↔ ∃ phase∈s.clears, phase.holds=true
  slot : ∀ t, s.turn.active = some t ↔ ∃ p, s.turn.phases[t]? = some p ∧ p.holds=true

/-- In every interleaving, clearing the history and running a turn exclude each other. -/
theorem clear_excludes_turns {s : HistoryClaims M} (h : (system M).Reaches (fun _ _ => True) s) :
    ClaimsExclude s := by
  have hs := Excluded.of_reaches h
  refine ⟨hs.apart,?_,?_,?_,?_⟩
  · intro i s' hstep
    simp only [step,Option.ite_none_right_eq_some] at hstep
    exact hs.apart _ (mem_of_getElem? hstep.1) rfl
  · intro a s' hstep t p p' hp hp'
    exact hs.not_holds_of_start hstep hp hp'
  · constructor
    · intro hflag
      by_contra hnone
      have hzero : total permits s.clears = 0 := total_eq_zero fun phase hphase => by
        rw [permits,Bool.eq_false_iff.mpr fun hholds => hnone ⟨phase,hphase,hholds⟩]
        rfl
      rw [hs.permit,hflag] at hzero
      cases hzero
    · rintro ⟨phase,hphase,hholds⟩
      by_contra hflag
      have hnot := hs.not_holds (Bool.eq_false_iff.mpr hflag) phase hphase
      rw [hholds] at hnot
      cases hnot
  · intro t
    constructor
    · intro hactive
      have hlt := hs.born t hactive
      have hphase := getElem?_eq_getElem hlt
      exact ⟨_,hphase,(hs.slot t _ hphase).mpr hactive⟩
    · rintro ⟨p,hp,hholds⟩
      exact (hs.slot t p hp).mp hholds

/-- A turn and a clear whose claims cross: the turn gives way. -/
def crossingClaims : List (ClaimAction Nat) :=
  [.beginTurn, .clearHistory, .inspect 0, .claimSlot, .turn (.move 0 (.recheck true)), .inspect 0]

/-- The claims of a turn and of a clear cross, and the clear goes on. -/
theorem clear_excludes_turns_crossing : ∃ s : HistoryClaims Nat,
    (system Nat).replay (fun _ _ => True) crossingClaims = some s ∧ s.clears = [.clearing] ∧
      ClaimsExclude s := by
  refine System.exists_replay_and (fun s => s.clears = [.clearing]) (by decide) ?_
  exact fun s hreach hclears => ⟨hclears,clear_excludes_turns hreach⟩

end HistoryClaims

end Daimonos.Session
