import Mathlib
import Daimonos.Framework.Ring

namespace Daimonos.Session

open Framework List

def u64Max : Nat := 2 ^ 64 - 1

inductive SessionEventError where
  | sequenceExhausted
  | handlerPanicked
  deriving DecidableEq

variable {ε : Type}

/-- The router's ordering state. A handler matters here only through whether it panics. -/
structure SessionEventRouter (ε : Type) where
  sequence : Nat := 0
  replay : List (Nat × ε) := []
  maxReplayEvents : Nat

inductive SessionReplay (ε : Type) where
  | available (events : List (Nat × ε)) (latestSeq : Nat)
  | snapshotRequired (latestSeq : Nat)

namespace SessionEventRouter

def newWithReplay (maxReplayEvents : Nat) : SessionEventRouter ε := { maxReplayEvents }

/-- One emission under the dispatch lock, with which of the handlers called panic. -/
def emitLocked (event : ε) (panics : List Bool) (r : SessionEventRouter ε) :
    Except SessionEventError Nat × SessionEventRouter ε :=
  if r.sequence+1 > u64Max then (.error .sequenceExhausted, r)
  else
    let sequence := r.sequence+1
    let replay := retain r.maxReplayEvents (sequence, event) r.replay
    let handlerPanicked := panics.any id
    (if handlerPanicked then .error .handlerPanicked else .ok sequence, { r with sequence, replay })

def replaySince (lastSeenSeq : Nat) (r : SessionEventRouter ε) : SessionReplay ε :=
  if lastSeenSeq > r.sequence then .snapshotRequired r.sequence
  else if lastSeenSeq=r.sequence then .available [] r.sequence
  else
    match r.replay with
    | [] => .snapshotRequired r.sequence
    | (earliestSeq, _) :: _ =>
      if min (lastSeenSeq+1) u64Max < earliestSeq then .snapshotRequired r.sequence
      else .available (r.replay.filter fun e => decide (lastSeenSeq<e.1)) r.sequence

/-- Emissions in the order in which they take the dispatch lock. -/
def emitAll (r : SessionEventRouter ε) (emissions : List (ε × List Bool)) : SessionEventRouter ε :=
  emissions.foldl (fun r e => (emitLocked e.1 e.2 r).2) r

/-- The emitted events: those the sequence counter had room for. -/
def emitted (emissions : List (ε × List Bool)) : List ε := (emissions.map (·.1)).take u64Max

structure Records (max : Nat) (log : List ε) (r : SessionEventRouter ε) : Prop where
  capacity : r.maxReplayEvents=max
  sequence : r.sequence=log.length
  bound : log.length≤u64Max
  replay : r.replay = trimFront max (numbered log)

theorem emitLocked_records {max : Nat} {log : List ε} {r : SessionEventRouter ε}
    (h : Records max log r) (event : ε) (panics : List Bool) :
    Records max ((log ++ [event]).take u64Max) (emitLocked event panics r).2 := by
  have hb := h.bound
  unfold emitLocked
  by_cases hfull : r.sequence+1 > u64Max
  · rw [if_pos hfull]
    rw [h.sequence] at hfull
    have htake : (log ++ [event]).take u64Max = log := by
      rw [take_append_of_le_length (by omega),take_of_length_le hb]
    rw [htake]
    exact h
  · rw [if_neg hfull]
    rw [h.sequence] at hfull
    have hlen : (log ++ [event]).length ≤ u64Max := by
      rw [length_append,length_singleton]
      omega
    rw [take_of_length_le hlen]
    refine ⟨h.capacity,?_,hlen,?_⟩
    · simp [h.sequence]
    · simp only [h.replay,h.capacity,h.sequence]
      rw [retain_trimFront,numbered_append_singleton]

theorem emitAll_records {max : Nat} {log : List ε} {r : SessionEventRouter ε}
    (h : Records max log r) (emissions : List (ε × List Bool)) :
    Records max ((log ++ emissions.map (·.1)).take u64Max) (emitAll r emissions) := by
  induction emissions generalizing log r with
  | nil => simpa [emitAll,take_of_length_le h.bound] using h
  | cons e rest ih =>
    have hrest := ih (emitLocked_records h e.1 e.2)
    -- Once the counter is exhausted nothing later is taken either.
    have htake : ((log ++ [e.1]).take u64Max ++ rest.map (·.1)).take u64Max =
        (log ++ (e::rest).map (·.1)).take u64Max := by
      rw [map_cons,append_cons log e.1 (rest.map (·.1))]
      by_cases hlen : (log ++ [e.1]).length ≤ u64Max
      · rw [take_of_length_le hlen]
      · have hcut : u64Max ≤ (log ++ [e.1]).length := by omega
        rw [take_append_of_le_length (by rw [length_take]; omega),take_take,
          Nat.min_self,take_append_of_le_length hcut]
    rwa [htake] at hrest

theorem newWithReplay_records (max : Nat) :
    Records max ([] : List ε) (newWithReplay max) :=
  ⟨rfl,rfl,Nat.zero_le _,rfl⟩

namespace Records

variable {max : Nat} {log : List ε} {r : SessionEventRouter ε}

theorem length_replay (h : Records max log r) : r.replay.length = min log.length max := by
  rw [h.replay,length_trimFront,length_numbered]

theorem replay_eq_drop (h : Records max log r) :
    r.replay = (numbered log).drop (log.length-max) := by
  rw [h.replay,trimFront_eq_drop,length_numbered]

theorem replay_numbers (h : Records max log r) :
    r.replay.map (·.1) = List.range' (log.length - min log.length max + 1) (min log.length max) := by
  rw [h.replay_eq_drop,map_drop,map_fst_numbered,drop_range']
  congr 1 <;> omega

theorem retained_iff (h : Records max log r) (i : Nat) :
    (∃ e∈r.replay, e.1=i) ↔ log.length-max < i ∧ i ≤ log.length := by
  have hmem : (∃ e∈r.replay, e.1=i) ↔ i ∈ r.replay.map (·.1) := by
    simp
  rw [hmem,h.replay_numbers,mem_range'_1]
  omega

theorem replay_head (h : Records max log r) (hlt : 0 < min log.length max) :
    ∃ event rest, r.replay = (log.length-max+1, event) :: rest := by
  have hnumbers := h.replay_numbers
  cases hr : r.replay with
  | nil =>
    have hlen := h.length_replay
    rw [hr] at hlen
    simp only [length_nil] at hlen
    omega
  | cons e rest =>
    obtain ⟨seq,event⟩ := e
    obtain ⟨c,hc⟩ : ∃ c, min log.length max = c+1 := ⟨min log.length max - 1,by omega⟩
    rw [hr,hc,range'_succ,map_cons,List.cons.injEq] at hnumbers
    refine ⟨event,rest,?_⟩
    rw [show log.length-max+1=seq by have := hnumbers.1; omega]

theorem replaySince_eq (h : Records max log r) (k : Nat) :
    r.replaySince k =
      if k > log.length ∨ (k < log.length ∧ k < log.length-max) then
        .snapshotRequired log.length
      else .available ((numbered log).drop k) log.length := by
  have hb := h.bound
  unfold replaySince
  rw [h.sequence]
  by_cases hgt : k > log.length
  · rw [if_pos hgt,if_pos (Or.inl hgt)]
  rw [if_neg hgt]
  by_cases heq : k=log.length
  · rw [if_pos heq,if_neg (by omega),heq,drop_of_length_le (by simp)]
  rw [if_neg heq]
  by_cases hempty : max=0
  · have hlen := h.length_replay
    rw [hempty,Nat.min_zero,length_eq_zero_iff] at hlen
    simp only [hlen]
    rw [if_pos (Or.inr (by omega))]
  obtain ⟨event,rest,hr⟩ := h.replay_head (by omega)
  simp only [hr]
  rw [← hr,h.replay_eq_drop]
  by_cases hlost : k < log.length-max
  · rw [if_pos (by omega),if_pos (Or.inr (by omega))]
  · rw [if_neg (by omega),if_neg (by omega),filter_numbered_drop log _ k (by omega)]

end Records

/-- The ring holds the newest events under consecutive numbers, and a client is replayed exactly
what it missed unless it is ahead of the router or its next event has been evicted. -/
structure ReplayExact (max : Nat) (log : List ε) (r : SessionEventRouter ε) (k : Nat) : Prop where
  sequence : r.sequence=log.length
  replay : r.replay = (numbered log).drop (log.length - min log.length max)
  numbers : r.replay.map (·.1) =
    List.range' (r.sequence - min log.length max + 1) (min log.length max)
  answer : r.replaySince k = .available ((numbered log).drop k) r.sequence ∨
    r.replaySince k = .snapshotRequired r.sequence
  snapshot : r.replaySince k = .snapshotRequired r.sequence ↔
    k > r.sequence ∨ (k < r.sequence ∧ ¬ ∃ e∈r.replay, e.1=k+1)

/-- Whatever was emitted, and with whatever handlers failing, a replay is exact or refused. -/
theorem replaySince_exact (max : Nat) (emissions : List (ε × List Bool)) (k : Nat) :
    ReplayExact max (emitted emissions) (emitAll (newWithReplay max) emissions) k := by
  have h : Records max (emitted emissions) (emitAll (newWithReplay max) emissions) := by
    simpa [emitted] using emitAll_records (newWithReplay_records (ε := ε) max) emissions
  have heq := h.replaySince_eq k
  refine ⟨h.sequence,?_,?_,?_,?_⟩
  · rw [h.replay_eq_drop]
    congr 1
    omega
  · rw [h.sequence]
    exact h.replay_numbers
  · rw [heq,h.sequence]
    split_ifs
    · exact Or.inr rfl
    · exact Or.inl rfl
  · rw [heq,h.sequence,h.retained_iff]
    split_ifs with hc
    · simp only [true_iff]
      omega
    · simp only [false_iff]
      omega

end SessionEventRouter

end Daimonos.Session
