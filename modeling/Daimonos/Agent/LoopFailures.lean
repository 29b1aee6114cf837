import Daimonos.Agent.LoopStorm

namespace Daimonos.Agent

open List

namespace LoopDetector

theorem sortDedup_congr {α : Type} [DecidableEq α] (le : α → α → Prop) [DecidableRel le]
    (htotal : ∀ a b, le a b ∨ le b a) (htrans : ∀ a b c, le a b → le b c → le a c)
    (hantisymm : ∀ a b, le a b → le b a → a=b) {l l' : List α} (h : ∀ a, a∈l ↔ a∈l') :
    sortDedup le l = sortDedup le l' := by
  have htotal' : Std.Total le := ⟨htotal⟩
  have htrans' : IsTrans α le := ⟨htrans⟩
  have hsorted : ∀ l : List α, (sortDedup le l).Pairwise le := fun l =>
    (pairwise_insertionSort le l).sublist (dedup_sublist _)
  have hperm : (sortDedup le l).Perm (sortDedup le l') := by
    refine (perm_ext_iff_of_nodup (nodup_dedup _) (nodup_dedup _)).mpr fun a => ?_
    exact mem_sortDedup.trans ((h a).trans mem_sortDedup.symm)
  exact hperm.eq_of_pairwise (fun a b _ _ => hantisymm a b) (hsorted l) (hsorted l')

section SameRound

variable {hashFps : List Nat → Nat} {d : LoopDetector} {round round' : List CallObservation}

theorem map_mem_congr {β : Type} (h : ∀ o, o∈round ↔ o∈round') (f : CallObservation → β) (b : β) :
    b ∈ round.map f ↔ b ∈ round'.map f := by
  simp only [mem_map,h]

theorem pairsOf_congr (h : ∀ o, o∈round ↔ o∈round') : pairsOf round = pairsOf round' := by
  refine sortDedup_congr tripleLe ?_ ?_ ?_ (map_mem_congr h _)
  · rintro ⟨a,b,c⟩ ⟨a',b',c'⟩
    simp only [tripleLe]
    have := le_total c c'
    rcases lt_trichotomy a a' with ha | ha | ha <;> rcases lt_trichotomy b b' with hb | hb | hb <;>
      simp_all
  · rintro ⟨a,b,c⟩ ⟨a',b',c'⟩ ⟨a'',b'',c''⟩
    simp only [tripleLe]
    grind
  · rintro ⟨a,b,c⟩ ⟨a',b',c'⟩ h h'
    simp only [tripleLe] at h h'
    have hc := @le_antisymm _ _ c c'
    have ha : a=a' := by omega
    have hb : b=b' := by omega
    simp_all

theorem failuresOf_congr (h : ∀ o, o∈round ↔ o∈round') (d : LoopDetector) :
    d.failuresOf round = d.failuresOf round' := by
  have hsame : sortDedup pairLe
        ((round.filter fun o => o.isError && !o.transient).map fun o => (o.callFp, o.resultFp)) =
      sortDedup pairLe
        ((round'.filter fun o => o.isError && !o.transient).map fun o => (o.callFp, o.resultFp)) := by
    refine sortDedup_congr pairLe ?_ ?_ ?_ ?_
    · rintro ⟨a,b⟩ ⟨a',b'⟩
      simp only [pairLe]
      omega
    · rintro ⟨a,b⟩ ⟨a',b'⟩ ⟨a'',b''⟩
      simp only [pairLe]
      omega
    · rintro ⟨a,b⟩ ⟨a',b'⟩
      simp only [pairLe,Prod.mk.injEq]
      omega
    · intro pair
      simp only [mem_map,mem_filter,h]
  simp only [failuresOf,hsame]

theorem summarizeTools_congr (h : ∀ o, o∈round ↔ o∈round') :
    summarizeTools round = summarizeTools round' := by
  have hnames := sortDedup_congr (fun a b : String => a≤b) le_total
    (fun _ _ _ => le_trans) (fun _ _ => le_antisymm) (map_mem_congr h (·.name))
  simp only [summarizeTools,hnames]

theorem callSet_congr (h : ∀ o, o∈round ↔ o∈round') :
    callSet hashFps round = callSet hashFps round' := by
  have hfps := sortDedup_congr (fun a b : Nat => a≤b) le_total
    (fun _ _ _ => le_trans) (fun _ _ => le_antisymm) (map_mem_congr h (·.callFp))
  rw [callSet,hfps,callSet]

theorem findName_congr (h : ∀ o, o∈round ↔ o∈round')
    (hnames : ∀ o∈round, ∀ o'∈round, o.callFp=o'.callFp → o.name=o'.name) (fp : Nat) :
    ((round.find? fun o => o.callFp == fp).map (·.name)).getD "" =
      ((round'.find? fun o => o.callFp == fp).map (·.name)).getD "" := by
  cases hfind : round.find? fun o => o.callFp == fp with
  | none =>
    have hnone : round'.find? (fun o => o.callFp == fp) = none := by
      rw [find?_eq_none] at hfind ⊢
      exact fun o ho => hfind o ((h o).mpr ho)
    rw [hnone]
  | some o =>
    have ho := mem_of_find?_eq_some hfind
    have hfp := find?_some hfind
    cases hfind' : round'.find? fun o => o.callFp == fp with
    | none => exact absurd hfp (find?_eq_none.mp hfind' o ((h o).mp ho))
    | some o' =>
      have ho' := (h o').mpr (mem_of_find?_eq_some hfind')
      have hfp' := find?_some hfind'
      exact hnames o ho o' ho' ((beq_iff_eq.mp hfp).trans (beq_iff_eq.mp hfp').symm)

theorem countFailures_congr (h : ∀ o, o∈round ↔ o∈round')
    (hnames : ∀ o∈round, ∀ o'∈round, o.callFp=o'.callFp → o.name=o'.name)
    (pairs : List (Nat × Nat)) (d : LoopDetector) (steer : Option String) :
    d.countFailures round steer pairs = d.countFailures round' steer pairs := by
  induction pairs generalizing d steer with
  | nil => rfl
  | cons pair rest ih =>
    simp only [countFailures,summarizeTools_congr h,findName_congr h hnames pair.1,ih]

theorem observeLegacy_congr (h : ∀ o, o∈round ↔ o∈round') (d : LoopDetector) :
    observeLegacy hashFps d round = observeLegacy hashFps d round' := by
  have hcount : countRound hashFps d round = countRound hashFps d round' := by
    unfold countRound novel
    rw [pairsOf_congr h,callSet_congr h]
  have hrender : ∀ (s : LoopDetector) (repeats : Nat),
      s.renderSteer round repeats = s.renderSteer round' repeats := by
    intro s repeats
    simp only [renderSteer,summarizeTools_congr h]
  simp only [observeLegacy,hcount,callSet_congr h,summarizeTools_congr h,hrender]

/-- Two rounds with the same observations, in whatever order and however often, are one to the
detector: it says the same and is left in the same state. -/
theorem observeRound_same_observations (hashFps : List Nat → Nat) (d : LoopDetector)
    (round round' : List CallObservation) (h : ∀ o, o∈round ↔ o∈round')
    (hnames : ∀ o∈round, ∀ o'∈round, o.callFp=o'.callFp → o.name=o'.name) :
    observeRound hashFps d round = observeRound hashFps d round' := by
  have hempty : round.isEmpty=round'.isEmpty := by
    rw [Bool.eq_iff_iff,List.isEmpty_iff,List.isEmpty_iff,List.eq_nil_iff_forall_not_mem,
      List.eq_nil_iff_forall_not_mem]
    simp only [h]
  have hclear : ∀ s : LoopDetector, s.clearSucceeded round = s.clearSucceeded round' := by
    intro s
    simp only [clearSucceeded,h]
  simp only [observeRound,hempty,hclear,failuresOf_congr h,countFailures_congr h hnames,
    observeLegacy_congr h]

/-- A call that is observed twice counts once. -/
theorem observeRound_same_observations_twice : ∃ (d : LoopDetector) (a b : CallObservation), a≠b ∧
    observeRound List.sum d [a, b, a] = observeRound List.sum d [b, a] :=
  ⟨LoopDetector.new {} [],⟨"search",1,2,true,false⟩,⟨"read_file",3,4,false,false⟩,
    by decide,observeRound_same_observations _ _ _ _
      (by intro o; simp only [mem_cons,not_mem_nil]; tauto) (by decide)⟩

end SameRound

inductive DetectorEvent where
  | pruned
  | round (observations : List CallObservation)

def roundsOf (events : List DetectorEvent) : List (List CallObservation) :=
  events.filterMap fun
    | .pruned => none
    | .round observations => some observations

/-- The detector after a history in which no round stopped the turn. -/
def detectorAfter (hashFps : List Nat → Nat) (start : LoopDetector) :
    List DetectorEvent → Option LoopDetector
  | [] => some start
  | .pruned::older => (detectorAfter hashFps start older).map onContextPruned
  | .round observations :: older =>
    (detectorAfter hashFps start older).bind fun d =>
      let observed := observeRound hashFps d observations
      if observed.2.isBreak then none else some observed.1

def succeedsIn (callFp : Nat) (round : List CallObservation) : Bool :=
  round.any fun o => !o.isError && o.callFp == callFp

def failsIn (pair : Nat × Nat) (round : List CallObservation) : Bool :=
  round.any fun o => o.isError && !o.transient && decide ((o.callFp, o.resultFp) = pair)

def sinceSuccess (callFp : Nat) : List (List CallObservation) → List (List CallObservation)
  | [] => []
  | round::older =>
    if succeedsIn callFp round then [round] else round :: sinceSuccess callFp older

def failureCount (pair : Nat × Nat) (rounds : List (List CallObservation)) : Nat :=
  (sinceSuccess pair.1 rounds).countP (failsIn pair)

/-- The failures that count after these rounds. -/
def failuresHeld (rounds : List (List CallObservation)) : List (Nat × Nat) :=
  ((rounds.flatten.map fun o => (o.callFp, o.resultFp)).dedup).filter
    fun pair => 0 < failureCount pair rounds

/-- The stop for a repeated failure, as opposed to the circuit breaker's. -/
def isRepeatStop : RoundVerdict → Bool
  | .break message => "exact failure budget".toList.isPrefixOf message.toList
  | _ => false

theorem failureCount_cons (pair : Nat × Nat) (round : List CallObservation)
    (older : List (List CallObservation)) :
    failureCount pair (round::older) =
      (if succeedsIn pair.1 round then 0 else failureCount pair older) +
        if failsIn pair round then 1 else 0 := by
  unfold failureCount
  rw [sinceSuccess]
  split_ifs with hsuccess hfails hfails <;> simp [hfails]

def failuresAfter (d : LoopDetector) (round : List CallObservation) : Multiset (Nat × Nat) :=
  (d.clearSucceeded round).failureRounds +
    ((d.clearSucceeded round).failuresOf round : Multiset (Nat × Nat))

section Counting

variable {hashFps : List Nat → Nat} {d : LoopDetector} {round : List CallObservation}
  {pair : Nat × Nat}

theorem nodup_failuresOf (d : LoopDetector) (round : List CallObservation) :
    (d.failuresOf round).Nodup := by
  have hnodup : (sortDedup pairLe ((round.filter fun o => o.isError && !o.transient).map
      fun o => (o.callFp, o.resultFp))).Nodup := nodup_dedup _
  refine List.Nodup.append (hnodup.filter _) (hnodup.filter _) ?_
  intro p hp hp'
  have hheld := (mem_filter.mp hp).2
  have hnew := (mem_filter.mp hp').2
  simp only [decide_eq_true_eq] at hheld hnew
  exact hnew hheld

theorem mem_failuresOf : pair ∈ d.failuresOf round ↔ failsIn pair round = true := by
  have hmem : pair ∈ sortDedup pairLe ((round.filter fun o => o.isError && !o.transient).map
      fun o => (o.callFp, o.resultFp)) ↔ failsIn pair round = true := by
    rw [mem_sortDedup,mem_map,failsIn,any_eq_true]
    simp only [mem_filter,Bool.and_eq_true,decide_eq_true_eq]
    exact ⟨fun ⟨o,⟨ho,hfails⟩,heq⟩ => ⟨o,ho,hfails,heq⟩,
      fun ⟨o,ho,hfails,heq⟩ => ⟨o,⟨ho,hfails⟩,heq⟩⟩
  rw [failuresOf,mem_append,mem_filter,mem_filter,hmem]
  by_cases hheld : pair∈d.failureRounds <;> simp [hheld]

theorem count_clearSucceeded : (d.clearSucceeded round).failureRounds.count pair =
    if succeedsIn pair.1 round then 0 else d.failureRounds.count pair := by
  have hiff : (∀ o∈round, o.isError=false → pair.1≠o.callFp) ↔
      succeedsIn pair.1 round = false := by
    simp only [succeedsIn,any_eq_false,Bool.and_eq_true,beq_iff_eq,not_and]
    exact ⟨fun h o ho hok => Ne.symm (h o ho (by simpa using hok)),
      fun h o ho hok => Ne.symm (h o ho (by simpa using hok))⟩
  rw [clearSucceeded,Multiset.count_filter]
  by_cases hsuccess : succeedsIn pair.1 round = true
  · rw [if_pos hsuccess,if_neg]
    rw [hiff,hsuccess]
    decide
  · rw [if_neg hsuccess,if_pos (hiff.mpr (by simpa using hsuccess))]

theorem count_failuresAfter {older : List (List CallObservation)}
    (h : d.failureRounds.count pair = failureCount pair older) :
    (d.failuresAfter round).count pair = failureCount pair (round::older) := by
  rw [failuresAfter,Multiset.count_add,count_clearSucceeded,failureCount_cons,h]
  congr 1
  by_cases hfails : failsIn pair round = true
  · rw [if_pos hfails]
    exact Multiset.count_eq_one_of_mem (Multiset.coe_nodup.mpr (nodup_failuresOf _ _))
      (Multiset.mem_coe.mpr (mem_failuresOf.mpr hfails))
  · rw [if_neg hfails]
    exact Multiset.count_eq_zero_of_notMem fun hmem =>
      hfails (mem_failuresOf.mp (Multiset.mem_coe.mp hmem))

structure WithinBudget (failures : Multiset (Nat × Nat)) : Prop where
  counts : ∀ pair, failures.count pair < failureStopRounds
  keys : failures.dedup.card ≤ maxTrackedFailures

theorem WithinBudget.mono {failures failures' : Multiset (Nat × Nat)} (h : WithinBudget failures)
    (hle : failures'≤failures) : WithinBudget failures' :=
  ⟨fun pair => (Multiset.count_le_of_le pair hle).trans_lt (h.counts pair),
    (Multiset.card_le_card ((Multiset.le_iff_subset (Multiset.nodup_dedup _)).mpr fun _ hp =>
      Multiset.mem_dedup.mpr (Multiset.mem_of_le hle (Multiset.mem_dedup.mp hp)))).trans h.keys⟩

theorem countFailures_cases (round : List CallObservation) (pairs : List (Nat × Nat))
    (d : LoopDetector) (steer : Option String) (h : WithinBudget d.failureRounds)
    (hnodup : pairs.Nodup) :
    (∃ steer', d.countFailures round steer pairs =
      ({ d with failureRounds := d.failureRounds + (pairs : Multiset (Nat × Nat)) }, .ok steer') ∧
        WithinBudget (d.failureRounds + (pairs : Multiset (Nat × Nat)))) ∨
    ∃ d' message, d.countFailures round steer pairs = (d', .error message) ∧
      isRepeatStop (.break message) = true ∧
      ¬ WithinBudget (d.failureRounds + (pairs : Multiset (Nat × Nat))) := by
  induction pairs generalizing d steer with
  | nil => exact .inl ⟨steer,by simp [countFailures],by simpa using h⟩
  | cons pair rest ih =>
    obtain ⟨hpair,hrest⟩ := nodup_cons.mp hnodup
    have hsum : (pair ::ₘ d.failureRounds) + (rest : Multiset (Nat × Nat)) =
        d.failureRounds + ((pair::rest : List (Nat × Nat)) : Multiset (Nat × Nat)) := by
      rw [← Multiset.cons_coe,Multiset.cons_add,Multiset.add_cons]
    have hle : pair ::ₘ d.failureRounds ≤
        d.failureRounds + ((pair::rest : List (Nat × Nat)) : Multiset (Nat × Nat)) := by
      rw [← hsum]
      exact Multiset.le_add_right _ _
    rw [countFailures]
    by_cases hfull : pair ∉ d.failureRounds ∧ maxTrackedFailures ≤ d.failureRounds.dedup.card
    · rw [if_pos hfull]
      refine .inr ⟨d,_,rfl,by simp [isRepeatStop,String.toList_append],fun hbudget => ?_⟩
      have hkeys := (hbudget.mono hle).keys
      rw [Multiset.dedup_cons_of_notMem hfull.1,Multiset.card_cons] at hkeys
      omega
    · rw [if_neg hfull]
      by_cases hstop : failureStopRounds ≤ (pair ::ₘ d.failureRounds).count pair
      · rw [if_pos hstop]
        refine .inr ⟨_,_,rfl,by simp [isRepeatStop,String.toList_append],fun hbudget => ?_⟩
        exact absurd ((hbudget.mono hle).counts pair) (Nat.not_lt.mpr hstop)
      · rw [if_neg hstop]
        have hnext : WithinBudget (pair ::ₘ d.failureRounds) := by
          refine ⟨fun p => ?_,?_⟩
          · by_cases hp : p=pair
            · rw [hp]
              exact Nat.not_le.mp hstop
            · rw [Multiset.count_cons_of_ne hp]
              exact h.counts p
          · by_cases hheld : pair∈d.failureRounds
            · rw [Multiset.dedup_cons_of_mem hheld]
              exact h.keys
            · rw [Multiset.dedup_cons_of_notMem hheld,Multiset.card_cons]
              exact Nat.not_le.mp fun hge => hfull ⟨hheld,hge⟩
        have hih := fun steer => ih { d with failureRounds := pair ::ₘ d.failureRounds } steer hnext
          hrest
        rw [hsum] at hih
        split_ifs
        · exact hih _
        · exact hih _

theorem isRepeatStop_breaker (rest : String) :
    isRepeatStop (.break ("loop detector circuit breaker: " ++ rest)) = false := by
  rw [isRepeatStop,String.toList_append]
  rfl

theorem failureRounds_of_observeLegacy {observed : LoopDetector × RoundVerdict}
    (h : observeLegacy hashFps d round = observed) :
    observed.1.failureRounds = d.failureRounds ∧ isRepeatStop observed.2 = false := by
  have hrender : ∀ (s : LoopDetector) (repeats : Nat),
      (s.renderSteer round repeats).1.failureRounds = s.failureRounds := by
    intro s repeats
    unfold renderSteer
    dsimp only
    split <;> rfl
  subst h
  unfold observeLegacy
  dsimp only
  split_ifs
  · refine ⟨rfl,?_⟩
    simp only [String.append_assoc]
    exact isRepeatStop_breaker _
  · exact ⟨rfl,rfl⟩
  · exact ⟨hrender _ _,rfl⟩
  · exact ⟨rfl,rfl⟩
  · exact ⟨hrender _ _,rfl⟩

/-- A round either counts its failures, or is stopped because that is over budget. -/
theorem observeRound_failures (hashFps : List Nat → Nat) (h : WithinBudget d.failureRounds)
    (round : List CallObservation) :
    (isRepeatStop (observeRound hashFps d round).2 = false ∧
      (observeRound hashFps d round).1.failureRounds = d.failuresAfter round ∧
      WithinBudget (d.failuresAfter round)) ∨
    (isRepeatStop (observeRound hashFps d round).2 = true ∧
      (observeRound hashFps d round).2.isBreak = true ∧ ¬ WithinBudget (d.failuresAfter round)) := by
  by_cases hempty : round = []
  · subst hempty
    have hnone : d.failuresAfter [] = d.failureRounds := by
      simp [failuresAfter,clearSucceeded,failuresOf,sortDedup]
    rw [hnone]
    exact .inl ⟨rfl,rfl,h⟩
  · have hround : round.isEmpty=false := by simpa using hempty
    have hcleared : WithinBudget (d.beginRound round).failureRounds :=
      h.mono (Multiset.filter_le _ _)
    have hcases := countFailures_cases round ((d.beginRound round).failuresOf round)
      (d.beginRound round) none hcleared (nodup_failuresOf _ round)
    unfold beginRound at hcases
    unfold observeRound
    rw [hround,if_neg (by decide)]
    dsimp only
    rcases hcases with ⟨steer,heq,hbudget⟩ | ⟨d',message,heq,hstop,hover⟩
    · rw [heq]
      dsimp only
      -- what the novelty windows make of the round leaves the failures alone
      split
      · rename_i counted hlegacy
        obtain ⟨hkept,-⟩ := failureRounds_of_observeLegacy hlegacy
        cases steer <;> exact .inl ⟨rfl,hkept,hbudget⟩
      · exact .inl ⟨(failureRounds_of_observeLegacy rfl).2,(failureRounds_of_observeLegacy rfl).1,
          hbudget⟩
    · rw [heq]
      exact .inr ⟨hstop,rfl,hover⟩

theorem held_of_detectorAfter (cfg : LoopDetectorConfig) (sections : List String)
    (events : List DetectorEvent) (d : LoopDetector)
    (h : detectorAfter hashFps (LoopDetector.new cfg sections) events = some d) :
    (∀ pair, d.failureRounds.count pair = failureCount pair (roundsOf events)) ∧
      WithinBudget d.failureRounds := by
  induction events generalizing d with
  | nil =>
    obtain rfl := Option.some.inj h
    exact ⟨fun pair => rfl,fun pair => by simp [LoopDetector.new,failureStopRounds],
      by simp [LoopDetector.new]⟩
  | cons event older ih =>
    cases event with
    | pruned =>
      obtain ⟨before,hbefore,rfl⟩ := Option.map_eq_some_iff.mp h
      exact ih before hbefore
    | round observations =>
      obtain ⟨before,hbefore,hobserved⟩ := Option.bind_eq_some_iff.mp h
      obtain ⟨hcounts,hbudget⟩ := ih before hbefore
      dsimp only at hobserved
      split_ifs at hobserved with hbreak
      obtain rfl := Option.some.inj hobserved
      rcases observeRound_failures hashFps hbudget observations with
        ⟨-,hafter,hwithin⟩ | ⟨-,hstopped,-⟩
      · rw [hafter]
        exact ⟨fun pair => count_failuresAfter (hcounts pair),hwithin⟩
      · exact absurd hstopped hbreak

variable {rounds : List (List CallObservation)}

theorem mem_of_failureCount_pos (h : 0 < failureCount pair rounds) :
    pair ∈ rounds.flatten.map fun o => (o.callFp, o.resultFp) := by
  induction rounds with
  | nil => cases h
  | cons round older ih =>
    rw [failureCount_cons] at h
    rw [flatten_cons,map_append,mem_append]
    by_cases hfails : failsIn pair round = true
    · obtain ⟨o,ho,hpair⟩ := any_eq_true.mp hfails
      simp only [Bool.and_eq_true,decide_eq_true_eq] at hpair
      exact .inl (mem_map.mpr ⟨o,ho,hpair.2⟩)
    · split_ifs at h
      · cases h
      · exact .inr (ih h)

theorem mem_failuresHeld :
    pair ∈ failuresHeld rounds ↔ 0 < failureCount pair rounds := by
  unfold failuresHeld
  rw [mem_filter,mem_dedup,decide_eq_true_eq]
  exact ⟨fun hmem => hmem.2,fun hpos => ⟨mem_of_failureCount_pos hpos,hpos⟩⟩

theorem card_dedup_eq {failures : Multiset (Nat × Nat)}
    (h : ∀ pair, failures.count pair = failureCount pair rounds) :
    failures.dedup.card = (failuresHeld rounds).length := by
  rw [← Multiset.coe_card]
  congr 1
  refine (Multiset.Nodup.ext (Multiset.nodup_dedup _)
    (Multiset.coe_nodup.mpr ((nodup_dedup _).filter _))).mpr fun pair => ?_
  rw [Multiset.mem_dedup,← Multiset.count_pos,h,Multiset.mem_coe]
  exact mem_failuresHeld.symm

/-- The counts the detector holds are those of the history, prunes and other results
notwithstanding, and the next round is the repeat stop exactly if one of them gets to the limit or
they get to be too many. -/
theorem failure_counts (hashFps : List Nat → Nat) (cfg : LoopDetectorConfig)
    (sections : List String) (events : List DetectorEvent) (d : LoopDetector)
    (h : detectorAfter hashFps (LoopDetector.new cfg sections) events = some d) :
    (∀ pair, d.failureRounds.count pair = failureCount pair (roundsOf events)) ∧
    ∀ round, isRepeatStop (observeRound hashFps d round).2 = true ↔
      (∃ pair, failureStopRounds ≤ failureCount pair (round :: roundsOf events)) ∨
        maxTrackedFailures < (failuresHeld (round :: roundsOf events)).length := by
  obtain ⟨hcounts,hbudget⟩ := held_of_detectorAfter cfg sections events d h
  refine ⟨hcounts,fun round => ?_⟩
  have hafter : ∀ pair, (d.failuresAfter round).count pair =
      failureCount pair (round :: roundsOf events) := fun pair => count_failuresAfter (hcounts pair)
  have hover : (∃ pair, failureStopRounds ≤ failureCount pair (round :: roundsOf events)) ∨
      maxTrackedFailures < (failuresHeld (round :: roundsOf events)).length ↔
        ¬ WithinBudget (d.failuresAfter round) := by
    simp only [← hafter,← card_dedup_eq hafter]
    constructor
    · rintro (⟨pair,hge⟩ | hlt) hwithin
      · exact absurd (hwithin.counts pair) (Nat.not_lt.mpr hge)
      · exact absurd hwithin.keys (Nat.not_le.mpr hlt)
    · intro hnot
      by_contra hneither
      rw [not_or,not_exists,Nat.not_lt] at hneither
      exact hnot ⟨fun pair => Nat.not_le.mp (hneither.1 pair),hneither.2⟩
  rw [hover]
  rcases observeRound_failures hashFps hbudget round with ⟨hno,-,hwithin⟩ | ⟨hyes,-,hnot⟩
  · rw [hno]
    exact iff_of_false (by decide) (not_not.mpr hwithin)
  · exact iff_of_true hyes hnot

/-- A search that fails in one way in five rounds, with a prune and another result between them, is
stopped in the sixth. -/
theorem failure_counts_search : ∃ (d : LoopDetector) (round : List CallObservation),
    d.failureRounds.count (1, 2) = 5 ∧ isRepeatStop (observeRound List.sum d round).2 = true := by
  have hfailed : ∃ d, detectorAfter List.sum (LoopDetector.new { circuitBreakerRounds := 0 } [])
      [.round [⟨"search",1,2,true,false⟩], .round [⟨"search",1,2,true,false⟩], .pruned,
        .round [⟨"read_file",3,4,false,false⟩], .round [⟨"search",1,2,true,false⟩],
        .round [⟨"search",1,2,true,false⟩], .round [⟨"search",1,2,true,false⟩]] = some d :=
    Option.isSome_iff_exists.mp (by decide +kernel)
  obtain ⟨d,hd⟩ := hfailed
  obtain ⟨hcounts,hstop⟩ := failure_counts _ _ _ _ d hd
  refine ⟨d,[⟨"search",1,2,true,false⟩],?_,?_⟩
  · rw [hcounts]
    decide
  · rw [hstop]
    exact .inl ⟨(1, 2),by decide⟩

end Counting

end LoopDetector

end Daimonos.Agent
