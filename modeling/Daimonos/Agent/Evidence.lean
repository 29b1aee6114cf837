import Mathlib
import Daimonos.Framework.Ring

namespace Daimonos.Evidence

open Framework List

inductive EvidenceStatus where
  | unknown
  | noMutations
  | verified
  | unverified
  deriving DecidableEq

structure EvidenceLedger where
  calls : Nat := 0
  lastMutation : Option Nat := none
  lastPassingVerifier : Option Nat := none
  fingerprintUnavailable : Bool := false

namespace EvidenceLedger

def recordCall (treeChanged : Bool) (verifierExit : Option Int) (l : EvidenceLedger) :
    EvidenceLedger :=
  let calls := l.calls+1
  { l with
    calls
    lastMutation := if treeChanged then some calls else l.lastMutation
    lastPassingVerifier := if verifierExit = some 0 then some calls else l.lastPassingVerifier }

def markFingerprintUnavailable (l : EvidenceLedger) : EvidenceLedger :=
  { l with fingerprintUnavailable := true }

def status (l : EvidenceLedger) : EvidenceStatus :=
  match l.lastMutation, l.lastPassingVerifier with
  | some mutation, some verifier => if verifier > mutation then .verified else .unverified
  | some _, none => .unverified
  | none, _ => if l.fingerprintUnavailable then .unknown else .noMutations

theorem status_eq_noMutations_iff (l : EvidenceLedger) :
    l.status=.noMutations ↔ l.lastMutation=none ∧ l.fingerprintUnavailable=false := by
  unfold status
  cases l.lastMutation with
  | none => cases l.fingerprintUnavailable <;> simp
  | some mutation =>
    cases l.lastPassingVerifier with
    | none => simp
    | some verifier =>
      dsimp only
      split_ifs <;> simp

theorem status_eq_verified_iff (l : EvidenceLedger) :
    l.status=.verified ↔
      ∃ mutation verifier, l.lastMutation = some mutation ∧
        l.lastPassingVerifier = some verifier ∧ mutation<verifier := by
  unfold status
  cases l.lastMutation with
  | none => cases l.fingerprintUnavailable <;> simp
  | some mutation =>
    cases l.lastPassingVerifier with
    | none => simp
    | some verifier =>
      split_ifs <;> simp

end EvidenceLedger

inductive ExecFilter where
  | testRunner
  | install
  | build
  | linter
  | none

/-- A command whose exit status may not be that of its first word. -/
def isCompound (command : String) : Bool :=
  (command.toList.any fun c => decide (c ∈ [';', '\n', '\r', '|', '&', Char.ofNat 96])) ||
    decide (['$', '('] <:+: command.toList)

/-- The exit status of a call that verifies the workspace. `command` is the input's field of that
name and `exit` the result's, if they are there. -/
def verifierExit (classify : String → ExecFilter) (toolName : String) (command : Option String)
    (exit : Option Int) : Option Int :=
  if toolName ≠ "exec" then none
  else
    command.bind fun command =>
      if isCompound command then none
      else
        match classify command with
        | .testRunner | .build | .linter => exit
        | .install | .none => none

structure TurnEvidence where
  evidence : EvidenceLedger := {}
  evidenceFingerprint : Option String := none
  evidenceDegraded : Bool := false

namespace TurnEvidence

def degrade (t : TurnEvidence) : TurnEvidence :=
  { t with evidenceDegraded := true, evidence := t.evidence.markFingerprintUnavailable }

def wantsBaseline (t : TurnEvidence) : Bool := t.evidenceFingerprint.isNone && !t.evidenceDegraded

def baseline (fingerprint : Option String) (t : TurnEvidence) : TurnEvidence :=
  match fingerprint with
  | some fingerprint => { t with evidenceFingerprint := some fingerprint }
  | none => t.degrade

/-- A call has run; `fingerprint` is what the attempt gave, which is not made once degraded. -/
def callDone (verifier : Option Int) (fingerprint : Option String) (t : TurnEvidence) :
    TurnEvidence :=
  if !t.evidenceDegraded then
    match fingerprint with
    | some after =>
      let changed := t.evidenceFingerprint.any fun before => decide (before≠after)
      { t with
        evidence := t.evidence.recordCall changed verifier
        evidenceFingerprint := some after }
    | none =>
      let degraded := t.degrade
      { degraded with evidence := degraded.evidence.recordCall false verifier }
  else { t with evidence := t.evidence.recordCall false verifier }

end TurnEvidence

/-- What the loop gets to see of a turn. -/
inductive Observation where
  | baseline (fingerprint : Option String)
  | call (verifier : Option Int) (fingerprint : Option String)

def Observation.fingerprint : Observation → Option String
  | .baseline fingerprint => fingerprint
  | .call _ fingerprint => fingerprint

def TurnEvidence.observe (t : TurnEvidence) : Observation → TurnEvidence
  | .baseline fingerprint => t.baseline fingerprint
  | .call verifier fingerprint => t.callDone verifier fingerprint

section Turn

variable {τ : Type}

/-- A tool call: whether the hook allows it, what it is, the tree that it leaves if it runs, and
whether that tree can be fingerprinted. -/
structure ToolCall (τ : Type) where
  allowed : Bool := true
  name : String
  command : Option String := none
  exit : Option Int := none
  tree : τ
  fingerprinted : Bool := true

structure ToolRound (τ : Type) where
  fingerprinted : Bool := true
  calls : List (ToolCall τ)

/-- A call that has run. It is observed if every fingerprint up to the one after it was taken. -/
structure DoneCall (τ : Type) where
  before : τ
  after : τ
  verifier : Option Int
  observed : Bool
  deriving DecidableEq

structure Turn (τ : Type) where
  tree : τ
  evidence : TurnEvidence := {}
  done : List (DoneCall τ) := []
  seen : List Observation := []

variable (classify : String → ExecFilter) (print : τ → String)

def fingerprint (fingerprinted : Bool) (tree : τ) : Option String :=
  if fingerprinted then some (print tree) else none

namespace Turn

def startRound (fingerprinted : Bool) (s : Turn τ) : Turn τ :=
  if s.evidence.wantsBaseline then
    let taken := fingerprint print fingerprinted s.tree
    { s with evidence := s.evidence.baseline taken, seen := s.seen ++ [.baseline taken] }
  else s

def runCall (s : Turn τ) (call : ToolCall τ) : Turn τ :=
  if call.allowed then
    let verifier := verifierExit classify call.name call.command call.exit
    let taken :=
      if s.evidence.evidenceDegraded then none else fingerprint print call.fingerprinted call.tree
    let evidence := s.evidence.callDone verifier taken
    { tree := call.tree
      evidence
      done := s.done ++ [{ before := s.tree, after := call.tree, verifier
                           observed := !evidence.evidenceDegraded }]
      seen := s.seen ++ [.call verifier taken] }
  else s

def runRound (s : Turn τ) (round : ToolRound τ) : Turn τ :=
  round.calls.foldl (runCall classify print) (s.startRound print round.fingerprinted)

def run (tree : τ) (rounds : List (ToolRound τ)) : Turn τ :=
  rounds.foldl (runRound classify print) { tree }

def status (s : Turn τ) : EvidenceStatus := s.evidence.evidence.status

def isPassing (d : DoneCall τ) : Bool := decide (d.verifier = some 0)

def isObservedChange (d : DoneCall τ) : Bool :=
  d.observed && decide (print d.before ≠ print d.after)

structure Sound (s : Turn τ) : Prop where
  calls : s.evidence.evidence.calls = s.done.length
  mutation : s.evidence.evidence.lastMutation = lastNumber (isObservedChange print) s.done
  verifier : s.evidence.evidence.lastPassingVerifier = lastNumber isPassing s.done
  unavailable : s.evidence.evidence.fingerprintUnavailable = s.evidence.evidenceDegraded
  observed : s.evidence.evidenceDegraded = false → ∀ d∈s.done, d.observed=true
  current : s.evidence.evidenceDegraded = false →
    ∀ f, s.evidence.evidenceFingerprint = some f → f = print s.tree
  seen : s.evidence = s.seen.foldl TurnEvidence.observe {}
  failed : s.evidence.evidenceDegraded = s.seen.any fun o => o.fingerprint.isNone

/-- The calls of a round find a fingerprint to compare with, unless fingerprinting has failed. -/
def Ready (s : Turn τ) : Prop :=
  s.evidence.evidenceDegraded = false → s.evidence.evidenceFingerprint.isSome = true

variable {classify print} {s : Turn τ}

theorem sound_start (tree : τ) : Sound print { tree } where
  calls := rfl
  mutation := rfl
  verifier := rfl
  unavailable := rfl
  observed _ := by simp
  current _ f hf := by cases hf
  seen := rfl
  failed := rfl

theorem Sound.startRound (h : Sound print s) (fingerprinted : Bool) :
    Sound print (s.startRound print fingerprinted) ∧ Ready (s.startRound print fingerprinted) := by
  unfold Turn.startRound
  by_cases hwants : s.evidence.wantsBaseline=true
  · rw [if_pos hwants]
    cases fingerprinted with
    | true =>
      refine ⟨⟨h.calls,h.mutation,h.verifier,h.unavailable,h.observed,?_,?_,?_⟩,fun _ => rfl⟩
      · intro _ f hf
        exact (Option.some.inj hf).symm
      · rw [foldl_append,← h.seen]
        rfl
      · rw [any_append,← h.failed]
        exact (Bool.or_false _).symm
    | false =>
      refine ⟨⟨h.calls,h.mutation,h.verifier,rfl,fun hd => ?_,fun hd => ?_,?_,?_⟩,fun hd => ?_⟩
      · cases hd
      · cases hd
      · rw [foldl_append,← h.seen]
        rfl
      · rw [any_append]
        exact (Bool.or_true _).symm
      · cases hd
  · rw [if_neg hwants]
    refine ⟨h,fun hd => ?_⟩
    unfold TurnEvidence.wantsBaseline at hwants
    rw [hd] at hwants
    cases hf : s.evidence.evidenceFingerprint with
    | none =>
      rw [hf] at hwants
      exact absurd rfl hwants
    | some f => rfl

theorem Sound.recordCall (h : Sound print s) (d : DoneCall τ) :
    let recorded := s.evidence.evidence.recordCall (isObservedChange print d) d.verifier
    recorded.calls = (s.done ++ [d]).length ∧
    recorded.lastMutation = lastNumber (isObservedChange print) (s.done ++ [d]) ∧
    recorded.lastPassingVerifier = lastNumber isPassing (s.done ++ [d]) := by
  have hlength : (s.done ++ [d]).length = s.done.length+1 := by
    rw [length_append,length_singleton]
  refine ⟨?_,?_,?_⟩
  · rw [hlength,← h.calls]
    rfl
  · rw [lastNumber_append_singleton,← h.mutation,← h.calls]
    rfl
  · rw [lastNumber_append_singleton,← h.verifier,← h.calls]
    unfold isPassing
    simp only [decide_eq_true_eq]
    rfl

theorem Sound.callDone_fingerprinted (h : Sound print s) (hready : Ready s)
    (hd : s.evidence.evidenceDegraded = false) (after : τ) (verifier : Option Int) :
    let t : Turn τ :=
      { tree := after
        evidence := s.evidence.callDone verifier (some (print after))
        done := s.done ++ [⟨s.tree,after,verifier,true⟩]
        seen := s.seen ++ [.call verifier (some (print after))] }
    t.evidence.evidenceDegraded = false ∧ Sound print t ∧ Ready t := by
  obtain ⟨f,hf⟩ := Option.isSome_iff_exists.mp (hready hd)
  obtain rfl := h.current hd f hf
  have hdone : s.evidence.callDone verifier (some (print after)) =
      { evidence := s.evidence.evidence.recordCall (decide (print s.tree ≠ print after)) verifier
        evidenceFingerprint := some (print after)
        evidenceDegraded := false } := by
    unfold TurnEvidence.callDone
    rw [hd,hf]
    rfl
  obtain ⟨hcalls,hmutation,hverifier⟩ := h.recordCall (DoneCall.mk s.tree after verifier true)
  rw [hdone]
  refine ⟨rfl,⟨hcalls,hmutation,hverifier,h.unavailable.trans hd,fun _ d hmem => ?_,
    fun _ f hf => ?_,?_,?_⟩,fun _ => rfl⟩
  · rcases mem_append.mp hmem with hold | hnew
    · exact h.observed hd d hold
    · rw [mem_singleton.mp hnew]
  · exact (Option.some.inj hf).symm
  · rw [foldl_append,← h.seen,← hdone]
    rfl
  · rw [any_append,← h.failed,hd]
    rfl

theorem Sound.callDone_unobserved (h : Sound print s) (after : τ) (verifier : Option Int) :
    let t : Turn τ :=
      { tree := after
        evidence := s.evidence.callDone verifier none
        done := s.done ++ [⟨s.tree,after,verifier,false⟩]
        seen := s.seen ++ [.call verifier none] }
    t.evidence.evidenceDegraded = true ∧ Sound print t ∧ Ready t := by
  have hparts : (s.evidence.callDone verifier none).evidenceDegraded = true ∧
      (s.evidence.callDone verifier none).evidence =
        { s.evidence.evidence.recordCall false verifier with fingerprintUnavailable := true } := by
    unfold TurnEvidence.callDone
    cases hd : s.evidence.evidenceDegraded with
    | true =>
      refine ⟨rfl,?_⟩
      have hunavailable := h.unavailable.trans hd
      change s.evidence.evidence.recordCall false verifier = _
      unfold EvidenceLedger.recordCall
      rw [hunavailable]
    | false => exact ⟨rfl,rfl⟩
  obtain ⟨hcalls,hmutation,hverifier⟩ := h.recordCall (DoneCall.mk s.tree after verifier false)
  refine ⟨hparts.1,⟨?_,?_,?_,?_,fun hd => ?_,fun hd => ?_,?_,?_⟩,fun hd => ?_⟩
  · rw [hparts.2]
    exact hcalls
  · rw [hparts.2]
    exact hmutation
  · rw [hparts.2]
    exact hverifier
  · rw [hparts.2,hparts.1]
  · exact absurd (hparts.1.symm.trans hd) (by decide)
  · exact absurd (hparts.1.symm.trans hd) (by decide)
  · rw [foldl_append,← h.seen]
    rfl
  · rw [hparts.1,any_append]
    exact (Bool.or_true _).symm
  · exact absurd (hparts.1.symm.trans hd) (by decide)

theorem Sound.runCall (h : Sound print s) (hready : Ready s) (classify : String → ExecFilter)
    (call : ToolCall τ) :
    Sound print (s.runCall classify print call) ∧ Ready (s.runCall classify print call) := by
  by_cases hallowed : call.allowed=true
  · have hrun : ∀ taken, taken = (if s.evidence.evidenceDegraded then none
          else fingerprint print call.fingerprinted call.tree) →
        s.runCall classify print call =
          { tree := call.tree
            evidence := s.evidence.callDone
              (verifierExit classify call.name call.command call.exit) taken
            done := s.done ++ [⟨s.tree,call.tree,
              verifierExit classify call.name call.command call.exit,
              !(s.evidence.callDone (verifierExit classify call.name call.command call.exit)
                taken).evidenceDegraded⟩]
            seen := s.seen ++
              [.call (verifierExit classify call.name call.command call.exit) taken] } := by
      rintro taken rfl
      unfold Turn.runCall
      rw [if_pos hallowed]
    by_cases hseen : s.evidence.evidenceDegraded = false ∧ call.fingerprinted=true
    · obtain ⟨hdegraded,hsound⟩ := h.callDone_fingerprinted hready hseen.1 call.tree
        (verifierExit classify call.name call.command call.exit)
      rw [hrun (some (print call.tree)) (by rw [hseen.1,hseen.2]; rfl),hdegraded]
      exact hsound
    · obtain ⟨hdegraded,hsound⟩ := h.callDone_unobserved call.tree
        (verifierExit classify call.name call.command call.exit)
      have hnone : none = (if s.evidence.evidenceDegraded then none
          else fingerprint print call.fingerprinted call.tree) := by
        unfold fingerprint
        revert hseen
        cases s.evidence.evidenceDegraded <;> cases call.fingerprinted <;> simp
      rw [hrun none hnone,hdegraded]
      exact hsound
  · have hrun : s.runCall classify print call = s := by
      unfold Turn.runCall
      rw [if_neg hallowed]
    rw [hrun]
    exact ⟨h,hready⟩

theorem Sound.runCalls (h : Sound print s) (hready : Ready s) (calls : List (ToolCall τ)) :
    Sound print (calls.foldl (Turn.runCall classify print) s) := by
  induction calls generalizing s with
  | nil => exact h
  | cons call rest ih =>
    obtain ⟨hsound,hready'⟩ := h.runCall hready classify call
    exact ih hsound hready'

theorem Sound.runRound (h : Sound print s) (round : ToolRound τ) :
    Sound print (s.runRound classify print round) := by
  obtain ⟨hsound,hready⟩ := h.startRound round.fingerprinted
  exact hsound.runCalls hready round.calls

theorem Sound.runRounds (h : Sound print s) (rounds : List (ToolRound τ)) :
    Sound print (rounds.foldl (Turn.runRound classify print) s) := by
  induction rounds generalizing s with
  | nil => exact h
  | cons round rest ih => exact ih (h.runRound round)

theorem sound_run (classify : String → ExecFilter) (print : τ → String) (tree : τ)
    (rounds : List (ToolRound τ)) : Sound print (run classify print tree rounds) :=
  (sound_start tree).runRounds rounds

theorem Sound.unchanged_of_noMutations (h : Sound print s) (hprint : Function.Injective print)
    (hstatus : s.status=.noMutations) : ∀ d∈s.done, d.before=d.after := by
  obtain ⟨hmutation,havailable⟩ := (EvidenceLedger.status_eq_noMutations_iff _).mp hstatus
  rw [h.mutation] at hmutation
  rw [h.unavailable] at havailable
  intro d hd
  have hnot := lastNumber_eq_none hmutation d hd
  unfold isObservedChange at hnot
  rw [h.observed havailable d hd,Bool.true_and,decide_eq_false_iff_not,not_not] at hnot
  exact hprint hnot

theorem Sound.passed_of_verified (h : Sound print s) (hprint : Function.Injective print)
    (hstatus : s.status=.verified) :
    ∃ earlier d later, s.done=earlier++d::later ∧ d.verifier = some 0 ∧
      ∀ e∈d::later, e.observed=true → e.before=e.after := by
  obtain ⟨mutation,verifier,hmutation,hverifier,hlater⟩ :=
    (EvidenceLedger.status_eq_verified_iff _).mp hstatus
  rw [h.mutation] at hmutation
  rw [h.verifier] at hverifier
  obtain ⟨earlier,d,later,hdone,rfl,hpassing,-⟩ := of_lastNumber_eq_some hverifier
  refine ⟨earlier,d,later,hdone,of_decide_eq_true hpassing,fun e he hobserved => ?_⟩
  rw [hdone] at hmutation
  have hnot := lastNumber_le hmutation (Nat.le_of_lt_succ hlater) e he
  unfold isObservedChange at hnot
  rw [hobserved,Bool.true_and,decide_eq_false_iff_not,not_not] at hnot
  exact hprint hnot

theorem Sound.all_observed (h : Sound print s)
    (hseen : ∀ o∈s.seen, o.fingerprint.isSome=true) : ∀ d∈s.done, d.observed=true := by
  refine h.observed ?_
  rw [h.failed,any_eq_false]
  intro o ho
  rw [Option.isNone_iff_eq_none,← Option.not_isSome_iff_eq_none,not_not]
  exact hseen o ho

/-- A status holds of every turn that looks the same: with no mutations reported no call has changed
the tree; with the turn verified, a verifier has passed at or after which no observed call changed
it, and no call at all if every fingerprint was taken. -/
theorem status_holds (classify : String → ExecFilter) (print : τ → String)
    (hprint : Function.Injective print) (tree : τ) (rounds : List (ToolRound τ)) (tree' : τ)
    (rounds' : List (ToolRound τ))
    (hseen : (run classify print tree' rounds').seen = (run classify print tree rounds).seen) :
    ((run classify print tree rounds).status = .noMutations →
      ∀ d ∈ (run classify print tree' rounds').done, d.before=d.after) ∧
    ((run classify print tree rounds).status = .verified →
      (∃ earlier d later, (run classify print tree' rounds').done = earlier++d::later ∧
        d.verifier = some 0 ∧ ∀ e∈d::later, e.observed=true → e.before=e.after) ∧
      ((∀ o ∈ (run classify print tree rounds).seen, o.fingerprint.isSome=true) →
        ∃ earlier d later, (run classify print tree' rounds').done = earlier++d::later ∧
          d.verifier = some 0 ∧ ∀ e∈d::later, e.before=e.after)) := by
  have h := sound_run classify print tree' rounds'
  have hstatus : (run classify print tree' rounds').status =
      (run classify print tree rounds).status := by
    unfold status
    rw [h.seen,(sound_run classify print tree rounds).seen,hseen]
  rw [← hstatus,← hseen]
  refine ⟨h.unchanged_of_noMutations hprint,fun hverified => ?_⟩
  obtain ⟨earlier,d,later,hdone,hpassed,hunchanged⟩ := h.passed_of_verified hprint hverified
  refine ⟨⟨earlier,d,later,hdone,hpassed,hunchanged⟩,fun hall => ?_⟩
  refine ⟨earlier,d,later,hdone,hpassed,fun e he => hunchanged e he ?_⟩
  refine h.all_observed hall e ?_
  rw [hdone]
  exact mem_append_right earlier he

def edit (tree : String) : ToolCall String := { name := "edit_file", tree }

def cargoTest (tree : String) : ToolCall String :=
  { name := "exec", command := some "cargo test", exit := some 0, tree }

/-- Edited, tested, and told so. -/
theorem status_holds_edited :
    let turn := run (fun _ => .testRunner) id "old" [{ calls := [edit "new", cargoTest "new"] }]
    turn.status=.verified ∧ ∃ earlier d later, turn.done=earlier++d::later ∧
      d.verifier = some 0 ∧ ∀ e∈d::later, e.before=e.after := by
  intro turn
  have hverified : turn.status=.verified := by decide +kernel
  have hholds := status_holds (fun _ => .testRunner) id Function.injective_id "old"
    [{ calls := [edit "new", cargoTest "new"] }] "old" _ rfl
  exact ⟨hverified,(hholds.2 hverified).2 (by decide +kernel)⟩

/-- The tests pass before the last edit, which no fingerprint shows. -/
def hiddenEdit : List (ToolRound String) :=
  [{ calls := [edit "new", { cargoTest "new" with fingerprinted := false }, edit "newer"] }]

/-- An edit that the loop does not see comes after the last verification. -/
theorem verified_before_edit :
    ∃ rounds : List (ToolRound String),
      (run (fun _ => .testRunner) id "old" rounds).status = .verified ∧
      ¬ ∃ earlier d later, (run (fun _ => .testRunner) id "old" rounds).done = earlier++d::later ∧
        d.verifier = some 0 ∧ ∀ e∈d::later, e.before=e.after := by
  have hlast : (run (fun _ => .testRunner) id "old" hiddenEdit).done.getLast? =
      some ⟨"new","newer",none,false⟩ := by decide +kernel
  refine ⟨hiddenEdit,by decide +kernel,?_⟩
  rintro ⟨earlier,d,later,hdone,-,hunchanged⟩
  rw [hdone,getLast?_append_of_ne_nil _ (cons_ne_nil d later)] at hlast
  have hsame := hunchanged _ (mem_of_getLast? hlast)
  exact absurd hsame (by decide)

end Turn

end Turn

end Daimonos.Evidence
