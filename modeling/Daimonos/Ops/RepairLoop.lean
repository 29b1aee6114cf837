import Daimonos.Framework.Transition

namespace Daimonos.Ops

open Framework List

/-- A tool plugin: the exit code and output of a command and the files after it, the fixes that an
output of the linter names, and what comes of a fix. The linter only reads the files. -/
structure ToolPlugin (Files Output Fix : Type) where
  lint : Files → Except String (Int × Output)
  runCommand : String → Files → Except String ((Int × Output) × Files)
  extractQuickfixes : Output → List Fix
  applyQuickfix : Fix → Files → Except String Bool × Files

structure RepairIteration (Output : Type) where
  iteration : Nat
  diagnostics : Output
  fixesApplied : Nat
  clean : Bool

/-- What the repair loop has recorded, with the files and those that the linter was run on. -/
structure Repair (Files Output : Type) where
  files : Files
  iterations : List (RepairIteration Output) := []
  totalFixes : Nat := 0
  linted : List Files := []

variable {Files Output Fix : Type} {t : ToolPlugin Files Output Fix} {s r : Repair Files Output}

def Repair.finalClean (r : Repair Files Output) : Bool :=
  (r.iterations.getLast?.map (·.clean)).getD false

namespace ToolPlugin

def applyQuickfixes (t : ToolPlugin Files Output Fix) (fixes : List Fix) (files : Files) :
    Nat × Files :=
  fixes.foldl (fun (applied, files) fix =>
    match t.applyQuickfix fix files with
    | (.ok true, files) => (applied+1, files)
    | (_, files) => (applied, files)) (0, files)

def repairFrom (t : ToolPlugin Files Output Fix) :
    Nat → Repair Files Output → Except String (Repair Files Output)
  | 0, s => .ok s
  | n+1, s =>
    match t.lint s.files with
    | .error e => .error e
    | .ok (exitCode, output) =>
      let fixes := t.extractQuickfixes output
      let iteration := s.iterations.length+1
      let linted := s.linted ++ [s.files]
      if fixes.isEmpty ∨ exitCode=0 then
        let last := ⟨iteration,output,0,decide (exitCode=0)⟩
        .ok { s with iterations := s.iterations ++ [last], linted }
      else
        let (applied, files) := t.applyQuickfixes fixes s.files
        let s :=
          { files, linted
            iterations := s.iterations ++ [⟨iteration,output,applied,false⟩]
            totalFixes := s.totalFixes+applied }
        if applied=0 then .ok s else t.repairFrom n s

def repair (t : ToolPlugin Files Output Fix) (maxIterations : Nat) (files : Files) :
    Except String (Repair Files Output) :=
  t.repairFrom maxIterations { files }

/-- A stage of a pipeline, with its exit code and what `lint_fix` reports. -/
structure StageResult (Files Output : Type) where
  command : String
  exitCode : Int
  repair : Option (Repair Files Output) := none

/-- The stages up to the first that fails. -/
def pipeline (t : ToolPlugin Files Output Fix) :
    List String → Files → Except String (List (StageResult Files Output))
  | [], _ => .ok []
  | stage::rest, files =>
    let result :=
      if stage = "lint_fix" then
        (t.repair 3 files).map fun r => (⟨stage,if r.finalClean then 0 else 1,some r⟩, r.files)
      else (t.runCommand stage files).map fun r => (⟨stage,r.1.1,none⟩, r.2)
    match result with
    | .error e => .error e
    | .ok (result, files) =>
      if result.exitCode≠0 then .ok [result] else (t.pipeline rest files).map (result :: ·)

def Clean (t : ToolPlugin Files Output Fix) (files : Files) : Prop :=
  ∃ output, t.lint files = .ok (0, output)

/-- What the fixes do that the linter's output on the files names: how many of them apply, and the
files after them. -/
def fixRound (t : ToolPlugin Files Output Fix) (files : Files) : Nat × Files :=
  match t.lint files with
  | .ok (_, output) => t.applyQuickfixes (t.extractQuickfixes output) files
  | .error _ => (0, files)

def afterRounds (t : ToolPlugin Files Output Fix) (k : Nat) (files : Files) : Files :=
  (fun files => (t.fixRound files).2)^[k] files

/-- The linter fails on the files and after each round of fixes but the last: that one is the last
that the limit allows, or the first in which no fix counts as applied, and it makes them clean. -/
def Missed (t : ToolPlugin Files Output Fix) (limit : Nat) (files : Files) : Prop :=
  ∃ k < limit, (∀ j≤k, ¬ t.Clean (t.afterRounds j files)) ∧
    (∀ j<k, (t.fixRound (t.afterRounds j files)).1 ≠ 0) ∧
    (k+1=limit ∨ (t.fixRound (t.afterRounds k files)).1 = 0) ∧
    t.Clean (t.afterRounds (k+1) files)

theorem missed_succ_iff {n : Nat} {files : Files} :
    t.Missed (n+1) files ↔ ¬ t.Clean files ∧
      ((n=0 ∨ (t.fixRound files).1 = 0) ∧ t.Clean (t.fixRound files).2 ∨
        (t.fixRound files).1 ≠ 0 ∧ t.Missed n (t.fixRound files).2) := by
  constructor
  · rintro ⟨k,hk,hfails,hgoes,hlast,hclean⟩
    refine ⟨hfails 0 (Nat.zero_le k),?_⟩
    cases k with
    | zero => exact .inl ⟨hlast.imp_left (by omega),hclean⟩
    | succ k =>
      refine .inr ⟨hgoes 0 (Nat.succ_pos k),k,by omega,fun j hj => ?_,fun j hj => ?_,
        hlast.imp_left (by omega),hclean⟩
      · exact hfails (j+1) (by omega)
      · exact hgoes (j+1) (by omega)
  · rintro ⟨hfails,⟨hlast,hclean⟩ | ⟨hgoes,k,hk,hfails',hgoes',hlast,hclean⟩⟩
    · refine ⟨0,Nat.succ_pos n,fun j hj => ?_,nofun,hlast.imp_left (by omega),hclean⟩
      rwa [Nat.le_zero.mp hj]
    · refine ⟨k+1,by omega,fun j hj => ?_,fun j hj => ?_,hlast.imp_left (by omega),hclean⟩
      · cases j with
        | zero => exact hfails
        | succ j => exact hfails' j (by omega)
      · cases j with
        | zero => exact hgoes
        | succ j => exact hgoes' j (by omega)

theorem clean_iff {files : Files} {exitCode : Int} {output : Output}
    (h : t.lint files = .ok (exitCode, output)) : t.Clean files ↔ exitCode=0 := by
  simp [Clean,h]

def Summed (s : Repair Files Output) : Prop :=
  s.totalFixes = (s.iterations.map (·.fixesApplied)).sum

theorem Summed.push (h : Summed s) (entry : RepairIteration Output) (files : Files)
    (linted : List Files) :
    Summed
      { files, linted
        iterations := s.iterations ++ [entry]
        totalFixes := s.totalFixes + entry.fixesApplied } := by
  unfold Summed at h ⊢
  simp [h]

theorem repairFrom_bounded {n : Nat} (h : Summed s) (hr : t.repairFrom n s = .ok r) :
    Summed r ∧ r.linted.length ≤ s.linted.length+n := by
  induction n generalizing s with
  | zero =>
    cases hr
    exact ⟨h,le_rfl⟩
  | succ n ih =>
    simp only [repairFrom] at hr
    split at hr
    · cases hr
    · split_ifs at hr
      · cases hr
        exact ⟨h.push _ _ _,by simp⟩
      · cases hr
        exact ⟨h.push _ _ _,by simp⟩
      · obtain ⟨hsummed,hle⟩ := ih (h.push _ _ _) hr
        refine ⟨hsummed,?_⟩
        rw [length_append,length_singleton] at hle
        omega

/-- The verdict that is recorded last is on the files before that round's fixes. -/
theorem repairFrom_verdict {n : Nat} (hr : t.repairFrom (n+1) s = .ok r) :
    (r.finalClean=true → t.Clean r.files) ∧
      ((t.Clean r.files → r.finalClean=true) ↔ ¬ t.Missed (n+1) s.files) := by
  induction n using Nat.strong_induction_on generalizing s with
  | _ n ih =>
    rw [missed_succ_iff]
    rw [repairFrom] at hr
    split at hr
    · cases hr
    · rename_i exitCode output hlint
      have hround : t.fixRound s.files =
          t.applyQuickfixes (t.extractQuickfixes output) s.files := by
        rw [fixRound,hlint]
      have hverdict : exitCode=0 ↔ t.Clean s.files := (clean_iff hlint).symm
      rw [← hverdict,hround]
      dsimp only at hr
      split_ifs at hr with hstop hnone
      · -- the files stay as they were linted
        cases hr
        refine ⟨by simp [Repair.finalClean,hverdict],iff_of_true ?_ ?_⟩
        · simp [Repair.finalClean,hverdict]
        · rintro ⟨hfails,hmissed⟩
          have hempty : t.extractQuickfixes output = [] := by simpa [hfails] using hstop
          rw [hempty] at hmissed
          simp [applyQuickfixes,← hverdict,hfails] at hmissed
      · cases hr
        simp [Repair.finalClean,hnone,(not_or.mp hstop).2]
      · have hfails := (not_or.mp hstop).2
        cases n with
        | zero =>
          cases hr
          simp [Repair.finalClean,hnone,hfails,Missed]
        | succ n =>
          obtain ⟨htrue,hfalse⟩ := ih n n.lt_succ_self hr
          exact ⟨htrue,by simpa [hnone,hfails] using hfalse⟩

theorem repair_spec {n : Nat} {files : Files} (hr : t.repair n files = .ok r) (hn : 0<n) :
    Summed r ∧ r.linted.length≤n ∧ (r.finalClean=true → t.Clean r.files) ∧
      ((t.Clean r.files → r.finalClean=true) ↔ ¬ t.Missed n files) := by
  have hnone : Summed ({ files } : Repair Files Output) := rfl
  obtain ⟨hsummed,hle⟩ := repairFrom_bounded hnone hr
  rw [length_nil,Nat.zero_add] at hle
  obtain ⟨m,rfl⟩ := Nat.exists_eq_succ_of_ne_zero hn.ne'
  exact ⟨hsummed,hle,repairFrom_verdict hr⟩

theorem repair_of_pipeline {stages : List String} {files : Files}
    {results : List (StageResult Files Output)} (h : t.pipeline stages files = .ok results) :
    ∀ result∈results, ∀ r, result.repair = some r → ∃ files, t.repair 3 files = .ok r ∧
      (result.exitCode≠0 ↔ r.finalClean=false) := by
  induction stages generalizing files results with
  | nil =>
    cases h
    exact nofun
  | cons stage rest ih =>
    simp only [pipeline] at h
    split at h
    · cases h
    · rename_i first files' hfirst
      have hstage : ∀ r, first.repair = some r → ∃ files, t.repair 3 files = .ok r ∧
          (first.exitCode≠0 ↔ r.finalClean=false) := by
        intro r hr
        split_ifs at hfirst
        · obtain ⟨r',hrepair,heq⟩ := except_map_eq_ok.mp hfirst
          cases heq
          cases hr
          exact ⟨files,hrepair,by simp⟩
        · obtain ⟨_,-,heq⟩ := except_map_eq_ok.mp hfirst
          cases heq
          cases hr
      split_ifs at h
      · cases h
        exact forall_mem_singleton.mpr hstage
      · obtain ⟨results',hrest,rfl⟩ := except_map_eq_ok.mp h
        exact forall_mem_cons.mpr ⟨hstage,ih hrest⟩

/-- The verdicts are right unless the round of fixes that the loop ends with makes the files clean. -/
theorem repair_exact_iff (t : ToolPlugin Files Output Fix) :
    (∀ maxIterations files r, 0 < maxIterations → t.repair maxIterations files = .ok r →
      (r.linted.length ≤ maxIterations ∧
          r.totalFixes = (r.iterations.map (·.fixesApplied)).sum ∧
          (r.finalClean=true ↔ t.Clean r.files) ↔ ¬ t.Missed maxIterations files)) ∧
    ∀ stages files results, t.pipeline stages files = .ok results →
      ∀ result∈results, ∀ r, result.repair = some r → ∃ before, t.repair 3 before = .ok r ∧
        ((result.exitCode≠0 → ¬ t.Clean r.files) ↔ ¬ t.Missed 3 before) := by
  constructor
  · intro maxIterations files r hmax hr
    obtain ⟨hsummed,hlength,htrue,hfalse⟩ := repair_spec hr hmax
    rw [Summed] at hsummed
    simp only [hlength,hsummed,true_and,← hfalse]
    exact ⟨fun h => h.mpr,fun h => ⟨htrue,h⟩⟩
  · intro stages files results h result hmem r hrepair
    obtain ⟨before,hr,hexit⟩ := repair_of_pipeline h result hmem r hrepair
    obtain ⟨-,-,-,hfalse⟩ := repair_spec hr (by decide)
    refine ⟨before,hr,?_⟩
    rw [← hfalse,hexit,← Bool.not_eq_true]
    exact not_imp_not

/-- Files with so many problems, of which a round fixes one. -/
def oneFixARound : ToolPlugin Nat Nat Unit where
  lint problems := .ok (if problems=0 then 0 else 1, problems)
  runCommand _ problems := .ok ((0, problems), problems)
  extractQuickfixes _ := [()]
  applyQuickfix _ problems := (.ok true, problems-1)

/-- Two problems are fixed in two rounds, and the third finds the files clean. -/
theorem repair_exact_twoProblems :
    ∃ r, oneFixARound.repair 3 2 = .ok r ∧ (r.finalClean=true ↔ oneFixARound.Clean r.files) := by
  have hexact := (repair_exact_iff oneFixARound).1 3 2 _ (by decide) rfl
  refine ⟨_,rfl,(hexact.mpr ?_).2.2⟩
  rintro ⟨k,hk,hfails,-,hlast,-⟩
  have hbefore : k<2 := by
    by_contra hle
    exact hfails 2 (by omega) ⟨0,rfl⟩
  have happlied : ∀ k<2, (oneFixARound.fixRound (oneFixARound.afterRounds k 2)).1 ≠ 0 := by
    decide
  exact happlied k hbefore (hlast.resolve_left (by omega))

/-- The third round fixes the last problem, and the stage fails. -/
theorem repair_third_round_unseen :
    ∃ r, oneFixARound.repair 3 3 = .ok r ∧ r.finalClean=false ∧ oneFixARound.Clean r.files ∧
      oneFixARound.pipeline ["lint_fix"] 3 = .ok [⟨"lint_fix",1,some r⟩] :=
  ⟨_,rfl,rfl,⟨0,rfl⟩,rfl⟩

end ToolPlugin

end Daimonos.Ops
