import Daimonos.Agent.RunInner

namespace Daimonos.Agent

def failureWarnRounds : Nat := 3
def failureStopRounds : Nat := 6
def maxTrackedFailures : Nat := 128

/-- One executed tool call of a round, reduced to fingerprints. -/
structure CallObservation where
  name : String
  callFp : Nat
  resultFp : Nat
  isError : Bool
  transient : Bool := false
  deriving DecidableEq

structure LoopDetectorConfig where
  enabled : Bool := true
  repeatThreshold : Nat := 3
  noNoveltyRounds : Nat := 3
  circuitBreakerRounds : Nat := 12

def RoundVerdict.isBreak : RoundVerdict → Bool
  | .break _ => true
  | _ => false

structure DetectorStats where
  roundsObserved : Nat := 0
  steersEmitted : Nat := 0
  steersSuppressed : Nat := 0
  maxPairRepeats : Nat := 0

/-- The counting maps are multisets: a key is present while its count is positive. -/
structure LoopDetector where
  cfg : LoopDetectorConfig
  steerSections : List String
  pairRounds : Multiset (Nat × Nat × Bool) := 0
  failureRounds : Multiset (Nat × Nat) := 0
  consecutiveNoNovelty : Nat := 0
  lastCallSet : Option Nat := none
  steeredCallSet : Option Nat := none
  ignoredSteers : Nat := 0
  rotation : Nat := 0
  stats : DetectorStats := {}

/-- `sections` are the parts of the steer template, trimmed and without empty ones. -/
def LoopDetector.new (cfg : LoopDetectorConfig) (sections : List String) : LoopDetector where
  cfg := cfg
  steerSections := sections

def LoopDetector.onContextPruned (d : LoopDetector) : LoopDetector :=
  { d with pairRounds := 0, consecutiveNoNovelty := 0 }

/-- `sort_unstable` followed by `dedup`. -/
def sortDedup {α : Type} [DecidableEq α] (le : α → α → Prop) [DecidableRel le] (l : List α) :
    List α :=
  (l.insertionSort le).dedup

def pairLe (a b : Nat × Nat) : Prop := a.1<b.1 ∨ a.1=b.1 ∧ a.2≤b.2

instance : DecidableRel pairLe := fun a b =>
  inferInstanceAs (Decidable (a.1<b.1 ∨ a.1=b.1 ∧ a.2≤b.2))

def tripleLe (a b : Nat × Nat × Bool) : Prop :=
  a.1<b.1 ∨ a.1=b.1 ∧ (a.2.1<b.2.1 ∨ a.2.1=b.2.1 ∧ a.2.2≤b.2.2)

instance : DecidableRel tripleLe := fun a b =>
  inferInstanceAs (Decidable
    (a.1<b.1 ∨ a.1=b.1 ∧ (a.2.1<b.2.1 ∨ a.2.1=b.2.1 ∧ a.2.2≤b.2.2)))

def summarizeTools (round : List CallObservation) : String :=
  let names := sortDedup (· ≤ ·) (round.map (·.name))
  let overflow := names.length-5
  let out := ", ".intercalate (names.take 5)
  if overflow > 0 then out ++ " (+" ++ toString overflow ++ " more)" else out

def isPowerOfTwo (n : Nat) : Bool := n != 0 && 2 ^ n.log2 == n

namespace LoopDetector

/-- The loop over a round's exact failures: an error is the message of a stop, otherwise the steer
that the round asks for. -/
def countFailures (round : List CallObservation) (d : LoopDetector) :
    Option String → List (Nat × Nat) → LoopDetector × Except String (Option String)
  | steer, [] => (d, .ok steer)
  | steer, pair::rest =>
    if pair ∉ d.failureRounds ∧ maxTrackedFailures ≤ d.failureRounds.dedup.card then
      (d, .error ("exact failure budget exhausted: " ++ toString maxTrackedFailures ++
        " distinct failed calls in this turn (tools: " ++ summarizeTools round ++
        "); stopping rather than evicting protection"))
    else
      let d := { d with failureRounds := pair ::ₘ d.failureRounds }
      let count := d.failureRounds.count pair
      let name := ((round.find? fun o => o.callFp == pair.1).map (·.name)).getD ""
      if failureStopRounds ≤ count then
        (d, .error ("exact failure budget: tool " ++ name ++ " returned the same error in " ++
          toString count ++
          " rounds. Stopping this turn; change the request or start a new turn."))
      else if count=failureWarnRounds then
        countFailures round d
          (some ("Tool " ++ name ++ " returned the same error in " ++ toString failureWarnRounds ++
            " rounds. Do not repeat unchanged inputs; inspect the error or ask the user for " ++
            "clarification.")) rest
      else countFailures round d steer rest

def renderSteer (d : LoopDetector) (round : List CallObservation) (repeats : Nat) :
    LoopDetector × String :=
  let d := { d with stats := { d.stats with steersEmitted := d.stats.steersEmitted+1 } }
  let fill := fun text : String =>
    ((text.replace "\x7btools\x7d" (summarizeTools round)).replace
      "\x7brepeats\x7d" (toString repeats)).replace
      "\x7brounds\x7d" (toString d.consecutiveNoNovelty)
  match d.steerSections[d.rotation % d.steerSections.length]? with
  | none =>
    (d, fill ("You are repeating identical tool calls that return identical results. " ++
      "Change your approach."))
  | some text => ({ d with rotation := d.rotation+1 }, fill text)

def countPairs (pairs : List (Nat × Nat × Bool)) (counts : Multiset (Nat × Nat × Bool)) :
    Multiset (Nat × Nat × Bool) × Nat :=
  pairs.foldl (fun acc pair => (pair ::ₘ acc.1, max acc.2 ((pair ::ₘ acc.1).count pair)))
    (counts, 0)

def pairsOf (round : List CallObservation) : List (Nat × Nat × Bool) :=
  sortDedup tripleLe (round.map fun o => (o.callFp, o.resultFp, o.isError))

def novel (d : LoopDetector) (round : List CallObservation) : Bool :=
  (pairsOf round).any fun pair => decide (pair ∉ d.pairRounds)

section Observe

variable (hashFps : List Nat → Nat)

/-- The fingerprint of a round's set of calls; the hasher is a parameter. -/
def callSet (round : List CallObservation) : Nat :=
  hashFps (sortDedup (· ≤ ·) (round.map (·.callFp)))

/-- The windows after a round, with the greatest repeat count: what `observe_legacy` does before
its verdict. -/
def countRound (d : LoopDetector) (round : List CallObservation) : LoopDetector × Nat :=
  let novelty := d.novel round
  let counted := countPairs (pairsOf round) (if novelty then 0 else d.pairRounds)
  let set := callSet hashFps round
  let recovered := match d.steeredCallSet with
    | some steered => decide (steered≠set)
    | none => false
  ({ d with
      pairRounds := counted.1
      stats := { d.stats with maxPairRepeats := max d.stats.maxPairRepeats counted.2 }
      consecutiveNoNovelty := if novelty then 0 else d.consecutiveNoNovelty+1
      steeredCallSet := if recovered then none else d.steeredCallSet
      ignoredSteers := if recovered then 0 else d.ignoredSteers
      lastCallSet := some set }, counted.2)

def observeLegacy (d : LoopDetector) (round : List CallObservation) :
    LoopDetector × RoundVerdict :=
  let counted := countRound hashFps d round
  let d := counted.1
  let maxRepeats := counted.2
  let set := callSet hashFps round
  let breaker := d.cfg.circuitBreakerRounds
  if 0<breaker ∧ breaker≤d.consecutiveNoNovelty then
    (d, .break ("loop detector circuit breaker: " ++ toString d.consecutiveNoNovelty ++
      " consecutive tool rounds produced no new information (repeated identical calls/results; " ++
      "tools: " ++ summarizeTools round ++ "). Stopping this turn; re-prompt with a different " ++
      "approach or raise [loop_detector].circuit_breaker_rounds."))
  else if ¬ (0<d.cfg.repeatThreshold ∧ d.cfg.repeatThreshold ≤ maxRepeats) ∧
      ¬ (0<d.cfg.noNoveltyRounds ∧ d.cfg.noNoveltyRounds ≤ d.consecutiveNoNovelty) then
    (d, .proceed)
  else if d.steeredCallSet = some set then
    let d := { d with ignoredSteers := d.ignoredSteers+1 }
    if isPowerOfTwo d.ignoredSteers then
      let rendered := d.renderSteer round maxRepeats
      (rendered.1, .steer rendered.2)
    else
      ({ d with stats := { d.stats with steersSuppressed := d.stats.steersSuppressed+1 } },
        .proceed)
  else
    let rendered := { d with steeredCallSet := some set, ignoredSteers := 0 }.renderSteer round
      maxRepeats
    (rendered.1, .steer rendered.2)

def clearSucceeded (d : LoopDetector) (round : List CallObservation) : LoopDetector :=
  { d with failureRounds :=
      d.failureRounds.filter fun pair => ∀ o∈round, o.isError=false → pair.1≠o.callFp }

def failuresOf (d : LoopDetector) (round : List CallObservation) : List (Nat × Nat) :=
  let failures := sortDedup pairLe
    ((round.filter fun o => o.isError && !o.transient).map fun o => (o.callFp, o.resultFp))
  failures.filter (fun pair => pair∈d.failureRounds) ++
    failures.filter fun pair => pair ∉ d.failureRounds

def observeRound (d : LoopDetector) (round : List CallObservation) :
    LoopDetector × RoundVerdict :=
  if round.isEmpty then (d, .proceed)
  else
    let d := { d with stats := { d.stats with roundsObserved := d.stats.roundsObserved+1 } }
    let d := d.clearSucceeded round
    match d.countFailures round none (d.failuresOf round) with
    | (d, .error message) => (d, .break message)
    | (d, .ok failureSteer) =>
      match observeLegacy hashFps d round with
      | (d, .proceed) =>
        match failureSteer with
        | some text =>
          ({ d with
              stats := { d.stats with steersEmitted := d.stats.steersEmitted+1 }
              steeredCallSet := d.lastCallSet
              ignoredSteers := 0 }, .steer text)
        | none => (d, .proceed)
      | observed => observed

end Observe

end LoopDetector

end Daimonos.Agent
