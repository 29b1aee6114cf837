import Daimonos.Agent.LoopDetector
import Daimonos.Framework.Text

namespace Daimonos.Agent

open Daimonos.Framework List

namespace LoopDetector

section Rounds

variable {hashFps : List Nat → Nat} {d : LoopDetector} {round : List CallObservation}

def Quiet (d : LoopDetector) : Prop :=
  0<d.cfg.circuitBreakerRounds → d.consecutiveNoNovelty < d.cfg.circuitBreakerRounds

theorem quiet_new (cfg : LoopDetectorConfig) (sections : List String) :
    (LoopDetector.new cfg sections).Quiet := fun h => h

theorem mem_sortDedup {α : Type} [DecidableEq α] {le : α → α → Prop} [DecidableRel le] {l : List α}
    {a : α} : a ∈ sortDedup le l ↔ a∈l := by
  rw [sortDedup,mem_dedup,mem_insertionSort]

theorem pairsOf_ne_nil (h : round ≠ []) : pairsOf round ≠ [] := by
  obtain ⟨o,rest,rfl⟩ := exists_cons_of_ne_nil h
  have hmem : (o.callFp, o.resultFp, o.isError) ∈ pairsOf (o::rest) :=
    mem_sortDedup.mpr (mem_map_of_mem mem_cons_self)
  exact ne_nil_of_mem hmem

theorem mem_countPairs {pairs : List (Nat × Nat × Bool)} {counts : Multiset (Nat × Nat × Bool)}
    {pair : Nat × Nat × Bool} (h : pair∈pairs) : pair ∈ (countPairs pairs counts).1 := by
  have hfold : ∀ (pairs : List (Nat × Nat × Bool)) (acc : Multiset (Nat × Nat × Bool) × Nat),
      (pairs.foldl (fun acc pair => (pair ::ₘ acc.1, max acc.2 ((pair ::ₘ acc.1).count pair)))
        acc).1 = acc.1 + (pairs : Multiset (Nat × Nat × Bool)) := by
    intro pairs
    induction pairs with
    | nil => intro acc; simp
    | cons pair rest ih =>
      intro acc
      rw [foldl_cons,ih,← Multiset.cons_coe,Multiset.cons_add,Multiset.add_cons]
  rw [countPairs,hfold]
  exact Multiset.mem_add.mpr (.inr h)

theorem novel_eq_false : d.novel round = false ↔ ∀ pair ∈ pairsOf round, pair∈d.pairRounds := by
  simp [novel]

theorem novel_countRound (hashFps : List Nat → Nat) (d : LoopDetector)
    (round : List CallObservation) : (countRound hashFps d round).1.novel round = false := by
  rw [novel_eq_false]
  intro pair hpair
  exact mem_countPairs hpair

theorem novel_onContextPruned (h : round ≠ []) : d.onContextPruned.novel round = true := by
  obtain ⟨pair,rest,hpairs⟩ := exists_cons_of_ne_nil (pairsOf_ne_nil h)
  rw [novel,hpairs,any_cons,Bool.or_eq_true]
  exact .inl (by simp [onContextPruned])

theorem renderSteer_windows (d : LoopDetector) (round : List CallObservation) (repeats : Nat) :
    (d.renderSteer round repeats).1.pairRounds = d.pairRounds ∧
      (d.renderSteer round repeats).1.cfg = d.cfg ∧
      (d.renderSteer round repeats).1.consecutiveNoNovelty = d.consecutiveNoNovelty := by
  unfold renderSteer
  dsimp only
  split <;> exact ⟨rfl,rfl,rfl⟩

theorem observeLegacy_windows (hashFps : List Nat → Nat) (d : LoopDetector)
    (round : List CallObservation) :
    (observeLegacy hashFps d round).1.pairRounds = (countRound hashFps d round).1.pairRounds ∧
      (observeLegacy hashFps d round).1.cfg = d.cfg ∧
      (observeLegacy hashFps d round).1.consecutiveNoNovelty =
        (countRound hashFps d round).1.consecutiveNoNovelty := by
  unfold observeLegacy
  dsimp only
  split_ifs
  · exact ⟨rfl,rfl,rfl⟩
  · exact ⟨rfl,rfl,rfl⟩
  · exact renderSteer_windows _ round _
  · exact ⟨rfl,rfl,rfl⟩
  · exact renderSteer_windows _ round _

theorem observeLegacy_isBreak :
    (observeLegacy hashFps d round).2.isBreak = true ↔
      0<d.cfg.circuitBreakerRounds ∧
        d.cfg.circuitBreakerRounds ≤ (countRound hashFps d round).1.consecutiveNoNovelty := by
  have hcfg : (countRound hashFps d round).1.cfg = d.cfg := rfl
  unfold observeLegacy
  dsimp only
  split_ifs with hbreak <;> simp_all [RoundVerdict.isBreak]

/-- The detector as a round finds it: the round counted, the failures of calls that now succeeded
taken off. -/
def beginRound (d : LoopDetector) (round : List CallObservation) : LoopDetector :=
  ({ d with stats := { d.stats with roundsObserved := d.stats.roundsObserved+1 } }
    : LoopDetector).clearSucceeded round

theorem observeRound_success (hround : round ≠ []) (h : ∀ o∈round, o.isError=false) :
    observeRound hashFps d round = observeLegacy hashFps (d.beginRound round) round := by
  have hempty : round.isEmpty=false := by simpa using hround
  have hfailures : ∀ s : LoopDetector, s.failuresOf round = [] := by
    intro s
    have hnone : round.filter (fun o => o.isError && !o.transient) = [] := by
      rw [filter_eq_nil_iff]
      intro o ho
      simp [h o ho]
    rw [failuresOf,hnone]
    rfl
  rw [observeRound,hempty]
  simp only [Bool.false_eq_true,if_false,hfailures,countFailures]
  split
  · rename_i d' hobserved
    exact hobserved.symm
  · rfl

/-- How many rounds like this one the detector counts already, since the last that was new to it. -/
def headStart (d : LoopDetector) (round : List CallObservation) : Nat :=
  if d.novel round then 0 else d.consecutiveNoNovelty+1

theorem headStart_onContextPruned (h : round ≠ []) : d.onContextPruned.headStart round = 0 :=
  if_pos (novel_onContextPruned h)

theorem observeRound_step (hashFps : List Nat → Nat) (d : LoopDetector) (hround : round ≠ [])
    (h : ∀ o∈round, o.isError=false) :
    (observeRound hashFps d round).1.headStart round = d.headStart round + 1 ∧
      (observeRound hashFps d round).1.cfg = d.cfg ∧
      ((observeRound hashFps d round).2.isBreak = true ↔
        0<d.cfg.circuitBreakerRounds ∧ d.cfg.circuitBreakerRounds ≤ d.headStart round) := by
  rw [observeRound_success hround h]
  obtain ⟨hpairs,hcfg,hcount⟩ := observeLegacy_windows hashFps (d.beginRound round) round
  have hcounted : (countRound hashFps (d.beginRound round) round).1.consecutiveNoNovelty =
      d.headStart round := rfl
  have hseen : (observeLegacy hashFps (d.beginRound round) round).1.novel round = false := by
    have hseen := novel_countRound hashFps (d.beginRound round) round
    rw [novel_eq_false] at hseen ⊢
    rw [hpairs]
    exact hseen
  refine ⟨?_,hcfg,?_⟩
  · rw [headStart,hseen,hcount,hcounted]
    rfl
  · rw [observeLegacy_isBreak,hcounted]
    exact Iff.rfl

theorem quiet_observeRound (hquiet : d.Quiet)
    (h : (observeRound hashFps d round).2.isBreak = false) :
    (observeRound hashFps d round).1.Quiet := by
  have hlegacy : ∀ s : LoopDetector, (observeLegacy hashFps s round).2.isBreak = false →
      (observeLegacy hashFps s round).1.Quiet := by
    intro s hno hpos
    obtain ⟨-,hcfg,hcount⟩ := observeLegacy_windows hashFps s round
    rw [hcfg] at hpos ⊢
    rw [hcount]
    by_contra hge
    have hbreak := observeLegacy_isBreak.mpr ⟨hpos,Nat.not_lt.mp hge⟩
    rw [hno] at hbreak
    cases hbreak
  unfold observeRound at h ⊢
  dsimp only at h ⊢
  split_ifs at h ⊢
  · exact hquiet
  · split at h
    · cases h
    · rename_i counted steer _
      have hquiet' := hlegacy counted
      cases hobserved : observeLegacy hashFps counted round with
      | mk d' verdict =>
        rw [hobserved] at h hquiet'
        cases verdict with
        | proceed => cases steer <;> exact hquiet' rfl
        | steer text => exact hquiet' rfl
        | «break» message => cases h

end Rounds

section Storm

variable {hashFps : List Nat → Nat} {d : LoopDetector} {round : List CallObservation}

/-- What the detector meets in a storm: the same round again, or word that results were pruned. -/
inductive StormEvent where
  | pruned
  | round
  deriving DecidableEq

def stopped (hashFps : List Nat → Nat) (round : List CallObservation) (d : LoopDetector) :
    List StormEvent → Bool
  | [] => false
  | .pruned::rest => stopped hashFps round d.onContextPruned rest
  | .round::rest =>
    (observeRound hashFps d round).2.isBreak ||
      stopped hashFps round (observeRound hashFps d round).1 rest

theorem headStart_le_of_quiet (round : List CallObservation) (h : d.Quiet)
    (hpos : 0<d.cfg.circuitBreakerRounds) :
    d.headStart round ≤ d.cfg.circuitBreakerRounds := by
  have hlt := h hpos
  unfold headStart
  split_ifs <;> omega

theorem not_infix_replicate {α : Type} {a : α} {m n : Nat} (h : n < m) :
    ¬ List.replicate m a <:+: List.replicate n a := by
  intro hin
  have hle := hin.length_le
  rw [length_replicate,length_replicate] at hle
  omega

theorem pruned_notMem_replicate (n : Nat) :
    StormEvent.pruned ∉ List.replicate n StormEvent.round := by
  intro hin
  cases eq_of_mem_replicate hin

/-- A storm is stopped exactly if the breaker is set and one round more than it allows comes in
succession, with no word of pruning between them. -/
theorem stopped_iff (hround : round ≠ []) (hsuccess : ∀ o∈round, o.isError=false)
    (hquiet : d.Quiet) (events : List StormEvent) :
    stopped hashFps round d events = true ↔
      0<d.cfg.circuitBreakerRounds ∧
        List.replicate (d.cfg.circuitBreakerRounds+1) StormEvent.round <:+:
          List.replicate (d.headStart round) StormEvent.round ++ events := by
  induction events generalizing d with
  | nil =>
    rw [stopped,append_nil]
    refine ⟨fun h => (by cases h),fun ⟨hpos,hin⟩ => absurd hin (not_infix_replicate ?_)⟩
    exact Nat.lt_succ_of_le (headStart_le_of_quiet round hquiet hpos)
  | cons event rest ih =>
    cases event with
    | pruned =>
      -- A word of pruning ends the stretch before it.
      have hcfg : d.onContextPruned.cfg=d.cfg := rfl
      have hquiet' : d.onContextPruned.Quiet := fun hpos => hpos
      rw [stopped,ih hquiet',headStart_onContextPruned hround,hcfg,replicate_zero,nil_append]
      refine and_congr_right fun hpos => ?_
      rw [infix_append_sep (pruned_notMem_replicate _)]
      refine (or_iff_right (not_infix_replicate ?_)).symm
      exact Nat.lt_succ_of_le (headStart_le_of_quiet round hquiet hpos)
    | round =>
      obtain ⟨hstart,hcfg,hbreak⟩ := observeRound_step hashFps d hround hsuccess
      have hevents : List.replicate (d.headStart round) StormEvent.round ++ .round::rest =
          List.replicate (d.headStart round + 1) StormEvent.round ++ rest := by
        rw [replicate_succ',append_assoc,singleton_append]
      rw [stopped,hevents,Bool.or_eq_true]
      by_cases hnow : (observeRound hashFps d round).2.isBreak = true
      · obtain ⟨hpos,hge⟩ := hbreak.mp hnow
        refine iff_of_true (.inl hnow) ⟨hpos,?_⟩
        have hle := headStart_le_of_quiet round hquiet hpos
        rw [Nat.le_antisymm hle hge]
        exact (prefix_append _ rest).isInfix
      · have hno : (observeRound hashFps d round).2.isBreak = false := by simpa using hnow
        rw [or_iff_right hnow,ih (quiet_observeRound hquiet hno),hcfg,hstart]

def sameSearch : List CallObservation := [⟨"search",1,2,false,false⟩]

/-- A breaker of two stops the third round in succession, here after one that was pruned away. -/
theorem stopped_iff_third :
    stopped (fun fps => fps.length) sameSearch
      (LoopDetector.new { circuitBreakerRounds := 2 } []) [.round, .pruned, .round, .round, .round] =
        true :=
  (stopped_iff (by decide) (by decide) (quiet_new _ _) _).mpr (by decide)

/-- With word of pruning before each round the default breaker of twelve rounds never fires. -/
theorem storm_never_stopped : ∃ hashFps : List Nat → Nat, ∀ rounds,
    stopped hashFps sameSearch (LoopDetector.new {} [])
      (List.replicate rounds [StormEvent.pruned, StormEvent.round]).flatten = false := by
  refine ⟨fun fps => fps.sum,fun rounds => ?_⟩
  generalize (fun fps : List Nat => fps.sum) = hashFps
  generalize hd : LoopDetector.new {} [] = d
  have hcfg : d.cfg = {} := hd ▸ rfl
  clear hd
  induction rounds generalizing d with
  | zero => rfl
  | succ rounds ih =>
    obtain ⟨-,hkeeps,hbreak⟩ := observeRound_step hashFps d.onContextPruned
      (show sameSearch ≠ [] by decide) (by decide)
    rw [headStart_onContextPruned (by decide)] at hbreak
    have hno : (observeRound hashFps d.onContextPruned sameSearch).2.isBreak = false := by
      rw [← Bool.not_eq_true,hbreak]
      rintro ⟨hpos,hle⟩
      omega
    rw [replicate_succ,flatten_cons,cons_append,cons_append,stopped,stopped,
      hno,Bool.false_or,nil_append]
    exact ih _ (hkeeps.trans hcfg)

end Storm

end LoopDetector

end Daimonos.Agent
