import Daimonos.Framework.Transition

namespace Daimonos.Mcp

open Framework List Option

/-- A request whose guard has taken the slot but not stamped the clock, one that executes, and one
whose guard's drop has stamped the clock, at the moment given, and not released the slot. -/
inductive RequestPhase where
  | begun
  | executing
  | stamped (moment : Nat)
  deriving DecidableEq

/-- When the guard of a request that is over stamped the clock, and when it gave up its slot. -/
structure EndedRequest where
  stamped : Nat
  released : Nat

/-- A sample of the watchdog: the count and the clock it has read, the requests in flight and those
over when it read the count, and whether some moment of it was quiet. -/
structure Sample where
  count : Nat
  now : Option Nat := none
  requests : List RequestPhase
  ended : List EndedRequest
  quiet : Bool := false

/-- The tracker, with the requests, the sample under way and the one that led to the exit. -/
structure ActivityTracker where
  lastActivity : Nat
  inFlight : Nat := 0
  clock : Nat
  requests : List RequestPhase := []
  ended : List EndedRequest := []
  sample : Option Sample := none
  exited : Option Sample := none

inductive ActivityAction where
  | pass (seconds : Nat)
  | begin
  | poke (i : Nat)
  | stamp (i : Nat)
  | release (i : Nat)
  | readCount
  | readClock
  | readActivity

def shouldExitForIdle (idleSecs timeoutSecs inFlight : Nat) : Bool :=
  timeoutSecs != 0 && inFlight == 0 && decide (timeoutSecs ≤ idleSecs)

namespace ActivityTracker

variable {timeout start : Nat} {s s' : ActivityTracker}

/-- The accesses of `begin_request`, of its guard's drop and of `liveness_snapshot`, one by one. -/
def act (timeout : Nat) (s : ActivityTracker) : ActivityAction → Option ActivityTracker
  | .pass seconds => some { s with clock := s.clock+seconds }
  | .begin => some { s with inFlight := s.inFlight+1, requests := s.requests ++ [.begun] }
  | .poke i =>
    if s.requests[i]? = some .begun then
      some { s with requests := s.requests.set i .executing, lastActivity := s.clock }
    else none
  | .stamp i =>
    if s.requests[i]? = some .executing then
      some { s with requests := s.requests.set i (.stamped s.clock), lastActivity := s.clock }
    else none
  | .release i =>
    match s.requests[i]? with
    | some (.stamped moment) =>
      some
        { s with
          inFlight := s.inFlight-1
          requests := s.requests.eraseIdx i
          ended := ⟨moment,s.clock⟩ :: s.ended }
    | _ => none
  | .readCount =>
    if s.sample.isSome then none
    else
      let sample := { count := s.inFlight, requests := s.requests, ended := s.ended }
      some { s with sample := some sample }
  | .readClock =>
    s.sample.bind fun p =>
      if p.now.isSome then none else some { s with sample := some { p with now := some s.clock } }
  | .readActivity =>
    s.sample.bind fun p => p.now.map fun now =>
      let exits := shouldExitForIdle (now-s.lastActivity) timeout p.count
      { s with sample := none, exited := if exits then some p else s.exited }

def isQuiet (timeout : Nat) (s : ActivityTracker) : Bool :=
  s.requests.isEmpty && s.ended.all fun e => decide (e.released+timeout ≤ s.clock)

def step (timeout : Nat) (s : ActivityTracker) (action : ActivityAction) : Option ActivityTracker :=
  (s.act timeout action).map fun s =>
    { s with sample := s.sample.map fun p => { p with quiet := p.quiet || s.isQuiet timeout } }

def activityTracker (timeout start : Nat) : System ActivityTracker ActivityAction where
  init := { lastActivity := start, clock := start }
  step := step timeout

/-- When the count was read no request was in flight, and the guards of those that were over had
stamped the clock at least the timeout before the time that was read. -/
def Sample.Idle (timeout : Nat) (p : Sample) : Prop :=
  p.requests = [] ∧ ∃ now, p.now = some now ∧ ∀ e∈p.ended, e.stamped+timeout≤now

structure Sound (timeout : Nat) (s : ActivityTracker) : Prop where
  count : s.inFlight=s.requests.length
  past : s.lastActivity ≤ s.clock
  stamped : ∀ moment, .stamped moment ∈ s.requests → moment ≤ s.lastActivity
  ended : ∀ e∈s.ended, e.stamped ≤ s.lastActivity
  sample : ∀ p, s.sample = some p →
    p.count=p.requests.length ∧ ∀ e∈p.ended, e.stamped ≤ s.lastActivity
  exited : ∀ p, s.exited = some p → Sample.Idle timeout p

namespace Sound

theorem moved (h : Sound timeout s) {clock last : Nat} (requests : List RequestPhase)
    (hlast : s.lastActivity ≤ last) (hpast : last ≤ clock)
    (hstamped : ∀ moment, .stamped moment ∈ requests → moment ≤ last) :
    Sound timeout
      { s with requests, clock, lastActivity := last, inFlight := requests.length } := by
  refine ⟨rfl,hpast,hstamped,fun e he => (h.ended e he).trans hlast,?_,h.exited⟩
  intro p hp
  obtain ⟨hcount,hended⟩ := h.sample p hp
  exact ⟨hcount,fun e he => (hended e he).trans hlast⟩

theorem set (h : Sound timeout s) (i : Nat) {phase : RequestPhase}
    (hphase : ∀ moment, phase = .stamped moment → moment=s.clock) :
    Sound timeout { s with requests := s.requests.set i phase, lastActivity := s.clock } := by
  have hcount : s.inFlight = (s.requests.set i phase).length := by rw [length_set,h.count]
  rw [hcount]
  refine h.moved _ h.past le_rfl fun moment hmem => ?_
  rcases mem_or_eq_of_mem_set hmem with hold | heq
  · exact (h.stamped moment hold).trans h.past
  · exact (hphase moment heq.symm).le

theorem act (h : Sound timeout s) {action : ActivityAction}
    (hs : s.act timeout action = some s') : Sound timeout s' := by
  cases action with
  | pass seconds =>
    cases hs
    have hmoved := h.moved s.requests le_rfl (h.past.trans (Nat.le_add_right _ seconds)) h.stamped
    rwa [← h.count] at hmoved
  | begin =>
    cases hs
    have hmoved := h.moved (s.requests ++ [.begun]) le_rfl h.past
    rw [length_append,← h.count] at hmoved
    refine hmoved fun moment hmem => ?_
    exact h.stamped moment (by simpa using hmem)
  | poke i =>
    obtain ⟨-,hs⟩ := ite_none_right_eq_some.mp hs
    cases hs
    exact h.set i nofun
  | stamp i =>
    obtain ⟨-,hs⟩ := ite_none_right_eq_some.mp hs
    cases hs
    exact h.set i fun _ heq => (RequestPhase.stamped.inj heq).symm
  | release i =>
    simp only [ActivityTracker.act] at hs
    split at hs <;> cases hs
    rename_i moment hi
    obtain ⟨hlt,-⟩ := List.getElem?_eq_some_iff.mp hi
    refine ⟨?_,h.past,fun m hm => h.stamped m (mem_of_mem_eraseIdx hm),?_,h.sample,h.exited⟩
    · rw [length_eraseIdx_of_lt hlt,h.count]
    · exact forall_mem_cons.mpr ⟨h.stamped moment (mem_of_getElem? hi),h.ended⟩
  | readCount =>
    obtain ⟨-,hs⟩ := ite_none_left_eq_some.mp hs
    cases hs
    refine ⟨h.count,h.past,h.stamped,h.ended,fun p hp => ?_,h.exited⟩
    cases hp
    exact ⟨h.count,h.ended⟩
  | readClock =>
    obtain ⟨p,hp,hs⟩ := bind_eq_some_iff.mp hs
    obtain ⟨-,hs⟩ := ite_none_left_eq_some.mp hs
    cases hs
    refine ⟨h.count,h.past,h.stamped,h.ended,fun q hq => ?_,h.exited⟩
    cases hq
    exact h.sample p hp
  | readActivity =>
    obtain ⟨p,hp,hs⟩ := bind_eq_some_iff.mp hs
    obtain ⟨now,hnow,rfl⟩ := map_eq_some_iff.mp hs
    refine ⟨h.count,h.past,h.stamped,h.ended,nofun,fun q hq => ?_⟩
    obtain ⟨hcount,hended⟩ := h.sample p hp
    dsimp only at hq
    split_ifs at hq with hexits
    · cases hq
      simp only [shouldExitForIdle,Bool.and_eq_true,bne_iff_ne,beq_iff_eq,
        decide_eq_true_eq] at hexits
      refine ⟨length_eq_zero_iff.mp (hcount.symm.trans hexits.1.2),now,hnow,fun e he => ?_⟩
      have hstamped := hended e he
      omega
    · exact h.exited q hq

theorem step (h : Sound timeout s) {action : ActivityAction}
    (hs : s.step timeout action = some s') : Sound timeout s' := by
  obtain ⟨t,ht,rfl⟩ := map_eq_some_iff.mp hs
  have hsound := h.act ht
  refine ⟨hsound.count,hsound.past,hsound.stamped,hsound.ended,fun p hp => ?_,hsound.exited⟩
  obtain ⟨q,hq,rfl⟩ := map_eq_some_iff.mp hp
  exact hsound.sample q hq

end Sound

/-- Whatever else runs beside a sample, it leads to an exit only if no request was in flight when it
read the count and none that was over had stamped the clock within the timeout. -/
theorem exited_idle {ok : ActivityTracker → ActivityAction → Prop}
    (h : (activityTracker timeout start).Reaches ok s) {p : Sample} (hp : s.exited = some p) :
    Sample.Idle timeout p := by
  have hsound : Sound timeout s := by
    refine h.invariant ?_ fun _ _ _ hsound _ hs => hsound.step hs
    exact ⟨rfl,le_rfl,nofun,nofun,nofun,nofun⟩
  exact hsound.exited p hp

/-- A request ends, the timeout passes, and the watchdog exits. -/
theorem exited_idle_after_request :
    ∃ s, (activityTracker 10 0).replay (fun _ _ => True)
        [.begin, .poke 0, .pass 4, .stamp 0, .release 0, .pass 10, .readCount, .readClock,
          .readActivity] = some s ∧
      ∃ p, s.exited = some p ∧ Sample.Idle 10 p :=
  System.exists_replay_and (fun s => s.exited.isSome) (by decide) fun _ hreach hp =>
    ⟨_,Option.some_get hp |>.symm,exited_idle hreach (Option.some_get hp).symm⟩

/-- A request ended one second before the count is read; another one begins, and has not stamped the
clock when the watchdog goes on, nine seconds later. -/
theorem exited_not_quiet :
    ∃ s p, (activityTracker 10 0).Reaches (fun _ _ => True) s ∧ s.exited = some p ∧
      p.quiet=false := by
  obtain ⟨s,-,hreach,hp⟩ := System.exists_of_replay (activityTracker 10 0) (fun _ _ => True)
    [.begin, .poke 0, .pass 4, .stamp 0, .release 0, .pass 1, .readCount, .begin, .pass 9,
      .readClock, .readActivity] (fun s => s.exited.map (·.quiet) = some false) (by decide)
  obtain ⟨p,hexited,hquiet⟩ := Option.map_eq_some_iff.mp hp
  exact ⟨s,p,hreach,hexited,hquiet⟩

end ActivityTracker

end Daimonos.Mcp
