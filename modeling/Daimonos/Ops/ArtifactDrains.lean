import Daimonos.Framework.Transition

namespace Daimonos.Ops

open Framework List

/-- The output pipes of a background process. -/
inductive Pipe where
  | stdout
  | stderr
  deriving DecidableEq

/-- Where a drain stands: waiting for bytes, with a chunk it has not reserved room for, with bytes
to write once it has the file lock, or at the end of its stream. -/
inductive DrainPhase where
  | reading
  | reserving (chunk : List UInt8)
  | writing (retained : List UInt8)
  | returned
  deriving DecidableEq

namespace DrainPhase

@[simp] def unreserved : DrainPhase → List UInt8
  | .reserving chunk => chunk
  | _ => []

@[simp] def retained : DrainPhase → List UInt8
  | .writing retained => retained
  | _ => []

end DrainPhase

structure Drain where
  phase : DrainPhase := .reading
  read : List UInt8 := []
  counted : List UInt8 := []

/-- The drains, the counter they share, and the artifact with the pipe each byte came from. -/
structure Artifact where
  drains : Pipe → Drain
  written : Nat := 0
  file : List (Pipe × UInt8) := []

inductive DrainAction where
  | read (pipe : Pipe) (chunk : List UInt8)
  | reserve (pipe : Pipe)
  | write (pipe : Pipe)

namespace Artifact

variable {max : Nat} {s s' : Artifact}

/-- `drain_to_artifact`, cut at its shared accesses. An empty read is the end of the stream. -/
def step (max : Nat) (s : Artifact) : DrainAction → Option Artifact
  | .read pipe chunk =>
    let d := s.drains pipe
    if d.phase=.reading ∧ chunk.length≤8192 then
      let phase := if chunk = [] then .returned else .reserving chunk
      let d' := { d with phase, read := d.read++chunk }
      some { s with drains := Function.update s.drains pipe d' }
    else none
  | .reserve pipe =>
    let d := s.drains pipe
    match d.phase with
    | .reserving chunk =>
      let start := s.written
      let phase :=
        if max ≤ start then .reading else .writing (chunk.take (min (max-start) chunk.length))
      some
        { s with
          written := start+chunk.length
          drains := Function.update s.drains pipe { d with phase, counted := d.counted++chunk } }
    | _ => none
  | .write pipe =>
    let d := s.drains pipe
    match d.phase with
    | .writing retained =>
      some
        { s with
          file := s.file ++ retained.map (pipe, ·)
          drains := Function.update s.drains pipe { d with phase := .reading } }
    | _ => none

def artifactDrains (max : Nat) : System Artifact DrainAction where
  init := { drains := fun _ => {} }
  step := step max

/-- What the artifact holds of one stream. -/
def bytesOf (s : Artifact) (pipe : Pipe) : List UInt8 := (s.file.filter (·.1=pipe)).map Prod.snd

/-- What the artifact will hold of one stream once the writes under way are done. -/
def kept (s : Artifact) (pipe : Pipe) : List UInt8 :=
  s.bytesOf pipe ++ (s.drains pipe).phase.retained

/-- Until the counter has reached the limit every counted byte is kept. -/
structure Sound (max : Nat) (s : Artifact) : Prop where
  read : ∀ pipe, (s.drains pipe).read = (s.drains pipe).counted ++ (s.drains pipe).phase.unreserved
  written :
    s.written = (s.drains .stdout).counted.length + (s.drains .stderr).counted.length
  total : (s.kept .stdout).length + (s.kept .stderr).length = min max s.written
  order : ∀ pipe, s.kept pipe <+: (s.drains pipe).counted
  below : s.written < max → ∀ pipe, s.kept pipe = (s.drains pipe).counted

theorem length_file (s : Artifact) :
    s.file.length = (s.bytesOf .stdout).length + (s.bytesOf .stderr).length := by
  simp only [bytesOf,length_map]
  induction s.file with
  | nil => rfl
  | cons entry file ih =>
    obtain ⟨pipe,_⟩ := entry
    cases pipe <;> simp [ih] <;> omega

namespace Sound

/-- One drain moves on: `more` is written, and `chunk` is counted and kept as far as it fits. -/
theorem moved (h : Sound max s) (pipe : Pipe) (d : Drain) (chunk more : List UInt8)
    (hcounted : d.counted = (s.drains pipe).counted ++ chunk)
    (hread : d.read=d.counted++d.phase.unreserved)
    (hkept : more++d.phase.retained =
      (s.drains pipe).phase.retained ++ chunk.take (max-s.written)) :
    Sound max
      { file := s.file ++ more.map (pipe, ·)
        written := s.written+chunk.length
        drains := Function.update s.drains pipe d } := by
  generalize hs : Artifact.mk _ _ _ = s'
  have hwritten : s'.written=s.written+chunk.length := hs ▸ rfl
  have hdrain : ∀ other, other≠pipe → s'.drains other = s.drains other := by
    intro other hne
    simp [← hs,hne]
  have hcount : ∀ other, (s'.drains other).counted = (s.drains other).counted ++
      if other=pipe then chunk else [] := by
    intro other
    by_cases heq : other=pipe
    · simp [← hs,heq,hcounted]
    · simp [hdrain other heq,heq]
  have hkeep : ∀ other, s'.kept other = s.kept other ++
      if other=pipe then chunk.take (max-s.written) else [] := by
    intro other
    by_cases heq : other=pipe
    · subst heq
      simp [← hs,kept,bytesOf,filter_map,Function.comp_def,hkept,-DrainPhase.retained]
    · have hother : pipe≠other := Ne.symm heq
      simp [← hs,kept,bytesOf,filter_map,Function.comp_def,heq,hother]
  have htotal := h.total
  have hadded := h.written
  refine ⟨?_,?_,?_,?_,?_⟩
  · intro other
    by_cases heq : other=pipe
    · simpa [← hs,heq] using hread
    · rw [hdrain other heq]
      exact h.read other
  · rw [hwritten,hcount,hcount]
    cases pipe <;> simp <;> omega
  · rw [hkeep,hkeep,hwritten]
    cases pipe <;> simp <;> omega
  · intro other
    rw [hcount,hkeep]
    by_cases hlt : s.written < max
    · rw [h.below hlt]
      refine (prefix_append_right_inj _).mpr ?_
      split_ifs
      · exact List.take_prefix _ _
      · exact List.prefix_rfl
    · have hnone : max-s.written=0 := by omega
      simpa [hnone] using (h.order other).trans (List.prefix_append _ _)
  · intro hlt other
    have hroom : chunk.length ≤ max-s.written := by omega
    rw [hkeep,hcount,h.below (by omega),take_of_length_le hroom]

theorem step (h : Sound max s) {action : DrainAction} (hs : s.step max action = some s') :
    Sound max s' := by
  cases action with
  | read pipe chunk =>
    obtain ⟨⟨hphase,-⟩,hs⟩ := Option.ite_none_right_eq_some.mp hs
    have hread := h.read pipe
    cases hs
    have hmoved := h.moved pipe
      { s.drains pipe with
        phase := if chunk = [] then .returned else .reserving chunk
        read := (s.drains pipe).read ++ chunk } [] []
    by_cases hnil : chunk = [] <;> simpa [hphase,hnil,hread] using hmoved
  | reserve pipe =>
    have hread := h.read pipe
    simp only [Artifact.step] at hs
    split at hs <;> cases hs
    rename_i chunk hphase
    have hmoved := fun phase => h.moved pipe
      { s.drains pipe with phase, counted := (s.drains pipe).counted ++ chunk } chunk [] rfl
    by_cases hle : max ≤ s.written
    · simpa [hphase,hle,hread,Nat.sub_eq_zero_of_le hle] using hmoved .reading
    · simpa [hphase,hle,hread,← take_eq_take_min] using
        hmoved (.writing (chunk.take (max-s.written)))
  | write pipe =>
    have hread := h.read pipe
    simp only [Artifact.step] at hs
    split at hs <;> cases hs
    rename_i retained hphase
    have hmoved := h.moved pipe { s.drains pipe with phase := .reading } [] retained
    simpa [hphase,hread] using hmoved

end Sound

/-- Neither drain is between a read and the write of what it keeps of it. -/
def Settled (s : Artifact) : Prop :=
  ∀ pipe, (s.drains pipe).phase = .reading ∨ (s.drains pipe).phase = .returned

/-- Whatever the interleaving and the reads, the artifact holds the smaller of the limit and what
was read, and of each stream a first part. -/
theorem artifact_exact {ok : Artifact → DrainAction → Prop}
    (h : (artifactDrains max).Reaches ok s) (hsettled : s.Settled) :
    s.file.length = min max ((s.drains .stdout).read.length + (s.drains .stderr).read.length) ∧
      ∀ pipe, s.bytesOf pipe <+: (s.drains pipe).read := by
  have hsound : Sound max s := by
    refine h.invariant ?_ fun _ _ _ hsound _ hs => hsound.step hs
    exact ⟨fun _ => rfl,rfl,(Nat.min_zero max).symm,fun _ => List.prefix_rfl,fun _ _ => rfl⟩
  have hkept : ∀ pipe, s.kept pipe = s.bytesOf pipe ∧
      (s.drains pipe).read = (s.drains pipe).counted := by
    intro pipe
    rw [hsound.read,kept]
    rcases hsettled pipe with hphase | hphase <;> simp [hphase]
  constructor
  · rw [length_file,← (hkept .stdout).1,← (hkept .stderr).1,hsound.total,hsound.written,
      (hkept .stdout).2,(hkept .stderr).2]
  · intro pipe
    rw [← (hkept pipe).1,(hkept pipe).2]
    exact hsound.order pipe

/-- Both drains reserve room before either writes, and the limit cuts the second chunk. -/
theorem artifact_exact_interleaved :
    ∃ s, (artifactDrains 3).replay (fun _ _ => True)
        [.read .stdout [1, 2], .read .stderr [7, 8], .reserve .stderr, .reserve .stdout,
          .write .stdout, .write .stderr, .read .stdout []] = some s ∧
      s.file.length = min 3 ((s.drains .stdout).read.length + (s.drains .stderr).read.length) ∧
      ∀ pipe, s.bytesOf pipe <+: (s.drains pipe).read :=
  System.exists_replay_and
    (fun s => (s.drains .stdout).phase = .returned ∧ (s.drains .stderr).phase = .reading)
    (by decide) fun _ hreach hp => artifact_exact hreach
      (fun pipe => by cases pipe; exacts [.inr hp.1, .inl hp.2])

/-- At any moment the artifact is within the limit and holds a first part of each stream; until the
limit is reached, all of it but what the drain has at hand. -/
theorem artifact_always {ok : Artifact → DrainAction → Prop}
    (h : (artifactDrains max).Reaches ok s) :
    s.file.length ≤ max ∧ ∀ pipe, s.bytesOf pipe <+: (s.drains pipe).read ∧
      (s.written < max → (s.drains pipe).read =
        s.bytesOf pipe ++ (s.drains pipe).phase.retained ++ (s.drains pipe).phase.unreserved) := by
  have hsound : Sound max s := by
    refine h.invariant ?_ fun _ _ _ hsound _ hs => hsound.step hs
    exact ⟨fun _ => rfl,rfl,(Nat.min_zero max).symm,fun _ => List.prefix_rfl,fun _ _ => rfl⟩
  have htotal := hsound.total
  simp only [kept,length_append] at htotal
  refine ⟨?_,fun pipe => ⟨?_,fun hlt => ?_⟩⟩
  · rw [length_file]
    omega
  · rw [hsound.read]
    have hkept : s.bytesOf pipe <+: s.kept pipe := List.prefix_append _ _
    exact (hkept.trans (hsound.order pipe)).trans (List.prefix_append _ _)
  · rw [hsound.read,← hsound.below hlt,kept]

/-- One drain has written while the other has only reserved. -/
theorem artifact_always_midway :
    ∃ s, (artifactDrains 3).replay (fun _ _ => True)
        [.read .stdout [1, 2], .read .stderr [7, 8], .reserve .stderr, .reserve .stdout,
          .write .stdout] = some s ∧ s.file.length≤3 ∧ s.bytesOf .stdout <+: [1, 2] :=
  System.exists_replay_and (fun s => (s.drains .stdout).read = [1, 2]) (by decide)
    fun _ hreach hread =>
      ⟨(artifact_always hreach).1,hread ▸ ((artifact_always hreach).2 .stdout).1⟩

end Artifact

end Daimonos.Ops
