import Daimonos.Snapshot.RestoreSteps

namespace Daimonos.Snapshot

open Framework List

variable {env : WalkEnv} {orders : Orders} {before now snap dest : Tree} {p q : RelPath}
  {c : List UInt8}

section Taking

def PartOf (env : WalkEnv) (t dest : Tree) : Prop :=
  ∀ q, dest.entry q ≠ none → env.visible t q = true ∧ dest.entry q = t.entry q

theorem PartOf.isFile {t : Tree} (h : PartOf env t dest) (hfile : dest.IsFile q) : t.IsFile q := by
  obtain ⟨c,hc⟩ := hfile
  exact ⟨c,by rw [← (h q (by rw [hc]; simp)).2,hc]⟩

theorem copyEntry_spec {t : Tree} (h : PartOf env t dest) (count bytes : Nat)
    (hvis : env.visible t p = true) (hp : t.entry p ≠ none) :
    ∃ dest' count' bytes', copyEntry t (dest, count, bytes) p = some (dest', count', bytes') ∧
      PartOf env t dest' ∧ dest'.entry p = t.entry p ∧
      ∀ q, dest.entry q ≠ none → dest'.entry q ≠ none := by
  have hup : ∀ q, q ≠ [] → q <+: p → q≠p → env.visible t q = true ∧ t.entry q = some .dir :=
    fun q hq hle hne =>
      ⟨visible_above hvis hle,(FileTree.isDir_above hp hle hne).resolve_left hq⟩
  cases hentry : t.entry p with
  | none => exact absurd hentry hp
  | some e =>
    cases e with
    | dir =>
      have hfree : dest.Free p := fun a ha hfile =>
        (FileTree.IsDir.free (.inr hentry)) a ha (h.isFile hfile)
      obtain ⟨dest',hcreate,hdest⟩ := FileTree.createDirAll_spec hfree
      refine ⟨dest',count,bytes,by simp [copyEntry,hentry,hcreate],?_,?_,?_⟩
      · intro q hq
        rw [hdest] at hq ⊢
        split_ifs at hq ⊢ with hle
        · by_cases heq : q=p
          · exact heq ▸ ⟨hvis,hentry.symm⟩
          · exact ⟨(hup q hle.1 hle.2 heq).1,(hup q hle.1 hle.2 heq).2.symm⟩
        · exact h q hq
      · rw [hdest,if_pos]
        refine ⟨?_,prefix_refl p⟩
        rintro rfl
        rw [t.root] at hentry
        cases hentry
      · intro q hq
        rw [hdest]
        split_ifs
        · simp
        · exact hq
    | file c =>
      have hfile : t.IsFile p := ⟨c,hentry⟩
      have hfree : dest.Free p.dropLast := by
        intro a ha hafile
        obtain ⟨hle,hne⟩ := (prefix_dropLast_iff hfile.ne_nil).mp ha
        exact (FileTree.isDir_above hp hle hne).not_isFile (h.isFile hafile)
      have hnew : dest.entry p ≠ some .dir := by
        intro hdir
        have hsame := (h p (by rw [hdir]; simp)).2
        rw [hdir,hentry] at hsame
        cases hsame
      obtain ⟨dest₁,dest₂,hcreate,hwrite,hdest⟩ :=
        FileTree.createDirAll_writeFile hfile.ne_nil hfree hnew c
      refine ⟨dest₂,count+1,bytes+c.length,by simp [copyEntry,hentry,hcreate,hwrite],?_,
        ?_,?_⟩
      · intro q hq
        rw [hdest] at hq ⊢
        split_ifs at hq ⊢ with heq hle
        · exact heq ▸ ⟨hvis,hentry.symm⟩
        · exact ⟨(hup q hle.1 hle.2 heq).1,(hup q hle.1 hle.2 heq).2.symm⟩
        · exact h q hq
      · rw [hdest,if_pos rfl]
      · intro q hq
        rw [hdest]
        split_ifs
        · simp
        · simp
        · exact hq

theorem foldlM_copyEntry {t : Tree} (paths : List RelPath)
    (hpaths : ∀ p∈paths, env.visible t p = true ∧ t.entry p ≠ none) (h : PartOf env t dest)
    (count bytes : Nat) :
    ∃ dest' count' bytes',
      paths.foldlM (copyEntry t) (dest, count, bytes) = some (dest', count', bytes') ∧
      PartOf env t dest' ∧ (∀ p∈paths, dest'.entry p ≠ none) ∧
      ∀ q, dest.entry q ≠ none → dest'.entry q ≠ none := by
  induction paths generalizing dest count bytes with
  | nil => exact ⟨dest,count,bytes,rfl,h,by simp,fun _ hq => hq⟩
  | cons p paths ih =>
    obtain ⟨hvis,hp⟩ := hpaths p mem_cons_self
    obtain ⟨dest₁,count₁,bytes₁,hstep,hpart,hnew,hmono⟩ := copyEntry_spec h count bytes hvis hp
    obtain ⟨dest',count',bytes',hrun,hpart',hall,hmono'⟩ :=
      ih (fun q hq => hpaths q (mem_cons_of_mem _ hq)) hpart count₁ bytes₁
    refine ⟨dest',count',bytes',?_,hpart',?_,fun q hq => hmono' q (hmono q hq)⟩
    · rw [foldlM_cons,hstep]
      exact hrun
    · rintro q (_ | ⟨_,hq⟩)
      · exact hmono' p (by rw [hnew]; exact hp)
      · exact hall q hq

theorem copyWorkspace_spec (env : WalkEnv) (t : Tree) :
    ∃ copy count bytes, copyWorkspace env t = some (copy, count, bytes) ∧
      ∀ p, copy.entry p = if env.visible t p then t.entry p else none := by
  have hempty : PartOf env t .empty := fun q hq => absurd rfl hq
  obtain ⟨copy,count,bytes,hrun,hpart,hall,-⟩ :=
    foldlM_copyEntry (t.paths.filter (env.visible t)) (fun p hp => by
      rw [mem_filter,t.listed] at hp
      exact hp.symm) hempty 0 0
  refine ⟨copy,count,bytes,hrun,fun p => ?_⟩
  by_cases hsome : copy.entry p = none
  · rw [hsome]
    split_ifs with hvis
    · by_contra hne
      refine hall p ?_ hsome
      rw [mem_filter,t.listed]
      exact ⟨Ne.symm hne,hvis⟩
    · rfl
  · obtain ⟨hvis,heq⟩ := hpart p hsome
    rw [if_pos hvis,heq]

end Taking

def Utf8 (p : RelPath) : Prop := ∀ n∈p, ∃ s, n = .utf8 s

/-- A file of the workspace that goes into a snapshot of it. -/
def Captured (env : WalkEnv) (before : Tree) (p : RelPath) (c : List UInt8) : Prop :=
  env.visible before p = true ∧ before.entry p = some (.file c)

/-- The restore succeeded, every file of the snapshot is there with its content, and every other file
that is there is excluded by the ignore rules in force. -/
structure Restored (env : WalkEnv) (before now : Tree)
    (result : Tree × Except RestoreError Unit) : Prop where
  ok : result.2 = .ok ()
  back : ∀ p c, Captured env before p c → result.1.entry p = some (.file c)
  others : ∀ p, result.1.IsFile p → env.visible now p = true → ∃ c, Captured env before p c

/-- No directory is in the place of a snapshot file, no excluded file is above it, and the walk over
the stored copy gets to it, or else it is in the workspace, unchanged and excluded. -/
def Restorable (env : WalkEnv) (before now snap : Tree) : Prop :=
  ∀ p c, Captured env before p c →
    if env.seen now snap p then
      now.entry p ≠ some .dir ∧ ∀ a, a <+: p → a≠p → now.IsFile a → env.visible now a = true
    else now.entry p = some (.file c) ∧ env.visible now p = false

section Exact

theorem destination_lossy (env : WalkEnv) (h : Utf8 p) : destination (env.lossy p) = p := by
  unfold destination WalkEnv.lossy
  rw [map_map]
  refine (map_congr_left fun n hn => ?_).trans (map_id p)
  obtain ⟨s,rfl⟩ := h n hn
  rfl

variable (hsnap : ∀ p, snap.entry p = if env.visible before p then before.entry p else none)
  (hbefore : ∀ p c, Captured env before p c → Utf8 p)
  (hnow : ∀ p, now.IsFile p → env.visible now p = true → Utf8 p)

include hsnap in
theorem snap_entry_iff : snap.entry p = some (.file c) ↔ Captured env before p c := by
  rw [hsnap,Captured]
  split_ifs with hvis
  · simp [hvis]
  · simp [hvis]

include hsnap hbefore in
theorem mem_destinations {l : List (List String × RelPath)}
    (hl : l.Perm (collectRelativePaths env now snap)) :
    p ∈ destinations l ↔ (∃ c, Captured env before p c) ∧ env.seen now snap p = true := by
  constructor
  · intro h
    obtain ⟨e,he,rfl⟩ := mem_map.mp h
    obtain ⟨⟨c,hc⟩,hseen,hkey,-⟩ := mem_collectRelativePaths (hl.subset he)
    have hcap := (snap_entry_iff hsnap).mp hc
    rw [hkey,destination_lossy env (hbefore _ c hcap)]
    exact ⟨⟨c,hcap⟩,hseen⟩
  · rintro ⟨⟨c,hcap⟩,hseen⟩
    have hfile : snap.entry p = some (.file c) := (snap_entry_iff hsnap).mpr hcap
    have hmem : p ∈ snap.paths.filter fun p => env.seen now snap p && decide (snap.IsFile p) := by
      rw [mem_filter,snap.listed,hfile,hseen]
      exact ⟨by simp,by simpa using ⟨c,hfile⟩⟩
    obtain ⟨e,he,hkey⟩ := mem_map.mp (lossy_mem_keyed env hmem)
    exact mem_map.mpr ⟨e,hl.symm.subset he,by rw [hkey,destination_lossy env (hbefore p c hcap)]⟩

include hsnap hbefore hnow in
theorem stale_iff {l : List (List String × RelPath)}
    (hl : l.Perm (collectWorkspacePaths env now)) (hfile : now.IsFile p) :
    Stale (collectRelativePaths env now snap) l p ↔
      env.visible now p = true ∧ p ∉ destinations (collectRelativePaths env now snap) := by
  have hkeys : ∀ r, Utf8 r → (env.lossy r ∈ (collectRelativePaths env now snap).map Prod.fst ↔
      r ∈ destinations (collectRelativePaths env now snap)) := by
    intro r hr
    constructor
    · intro h
      obtain ⟨e,he,hkey⟩ := mem_map.mp h
      exact mem_map.mpr ⟨e,he,by rw [hkey,destination_lossy env hr]⟩
    · intro h
      obtain ⟨⟨c,hcap⟩,-⟩ := (mem_destinations hsnap hbefore (.refl _)).mp h
      obtain ⟨e,he,hdest⟩ := mem_map.mp h
      rw [← destination_lossy env (hbefore r c hcap)] at hdest
      exact mem_map.mpr ⟨e,he,destination_injective hdest⟩
  constructor
  · rintro ⟨e,he,rfl,hkey⟩
    obtain ⟨-,hvis,hlossy⟩ := mem_collectWorkspacePaths (hl.subset he)
    rw [hlossy,hkeys _ (hnow _ hfile hvis)] at hkey
    exact ⟨hvis,hkey⟩
  · rintro ⟨hvis,hnot⟩
    have hutf := hnow p hfile hvis
    have hmem : p ∈ now.paths.filter fun p => env.visible now p && decide (now.IsFile p) := by
      rw [mem_filter,now.listed,hvis]
      obtain ⟨c,hc⟩ := hfile
      exact ⟨by rw [hc]; simp,by simpa using ⟨c,hc⟩⟩
    obtain ⟨e,he,hkey⟩ := mem_map.mp (lossy_mem_keyed env hmem)
    obtain ⟨hefile,hevis,helossy⟩ := mem_collectWorkspacePaths he
    have heq : e.2=p := by
      rw [← destination_lossy env (hnow _ hefile hevis),← helossy,hkey,
        destination_lossy env hutf]
    refine ⟨e,hl.symm.subset he,heq,?_⟩
    rw [hkey,hkeys p hutf]
    exact hnot

include hsnap hbefore hnow in
theorem cleared_file_iff : (cleared env orders snap now).entry p = some (.file c) ↔
    now.entry p = some (.file c) ∧ (env.visible now p = true →
      p ∈ destinations (collectRelativePaths env now snap)) := by
  have hperm := orders.hash_perm (collectWorkspacePaths env now)
  constructor
  · intro h
    rcases cleared_cases env orders snap now p with hsame | ⟨-,hgone⟩
    · rw [hsame] at h
      refine ⟨h,fun hvis => ?_⟩
      by_contra hnot
      have hstale := (stale_iff hsnap hbefore hnow hperm ⟨c,h⟩).mpr ⟨hvis,hnot⟩
      have hnone := removeStale_none (t := now) _ hstale ⟨c,h⟩
      rw [cleared,hnone] at hsame
      rw [← hsame] at h
      cases h
    · rw [hgone] at h
      cases h
  · rintro ⟨h,hin⟩
    refine (removeStale_entry _ fun hstale hfile => ?_).trans h
    obtain ⟨hvis,hnot⟩ := (stale_iff hsnap hbefore hnow hperm hfile).mp hstale
    exact hnot (hin hvis)

include hsnap hbefore hnow in
theorem unblocked_iff : Unblocked (cleared env orders snap now)
      (destinations (orders.hash (collectRelativePaths env now snap))) ↔
    ∀ p c, Captured env before p c → env.seen now snap p = true → now.entry p ≠ some .dir ∧
      ∀ a, a <+: p → a≠p → now.IsFile a → env.visible now a = true := by
  have hmem : ∀ p, p ∈ destinations (orders.hash (collectRelativePaths env now snap)) ↔
      (∃ c, Captured env before p c) ∧ env.seen now snap p = true :=
    fun p => mem_destinations hsnap hbefore (orders.hash_perm _)
  constructor
  · intro hclear p c hcap hseen
    obtain ⟨hdir,habove⟩ := hclear p ((hmem p).mpr ⟨⟨c,hcap⟩,hseen⟩)
    refine ⟨fun h => hdir (cleared_dir_iff.mpr h),fun a ha hne hfile => ?_⟩
    obtain ⟨c',hc'⟩ := hfile
    by_contra hvis
    exact (habove a ha hne).2
      ⟨c',(cleared_file_iff hsnap hbefore hnow).mpr ⟨hc',fun h => absurd h hvis⟩⟩
  · intro hclear p hp
    obtain ⟨⟨c,hcap⟩,hseen⟩ := (hmem p).mp hp
    obtain ⟨hdir,habove⟩ := hclear p c hcap hseen
    refine ⟨fun h => hdir (cleared_dir_iff.mp h),fun a ha hne => ?_⟩
    -- above a file of the snapshot there is no other
    have hnot : ¬ ∃ c', Captured env before a c' := by
      rintro ⟨c',hcap'⟩
      have hsome : before.entry p ≠ none := by
        rw [hcap.2]
        simp
      exact (FileTree.isDir_above hsome ha hne).not_isFile ⟨c',hcap'.2⟩
    refine ⟨fun hin => hnot ((hmem a).mp hin).1,?_⟩
    rintro ⟨c',hc'⟩
    obtain ⟨hfile,hin⟩ := (cleared_file_iff hsnap hbefore hnow).mp hc'
    exact hnot ((mem_destinations hsnap hbefore (.refl _)).mp (hin (habove a ha hne ⟨c',hfile⟩))).1

/-- A restore brings the snapshot back exactly, if every snapshot file can be reached and written. -/
theorem restored_iff {count bytes : Nat} (hcopy : copyWorkspace env before = some (snap, count, bytes))
    (hbefore : ∀ p c, Captured env before p c → Utf8 p)
    (hnow : ∀ p, now.IsFile p → env.visible now p = true → Utf8 p) :
    Restored env before now (restoreWorkspace env orders snap now) ↔
      Restorable env before now snap := by
  have hsnap : ∀ p, snap.entry p = if env.visible before p then before.entry p else none := by
    obtain ⟨copy,count',bytes',hrun,hentry⟩ := copyWorkspace_spec env before
    rw [hcopy,Option.some.injEq,Prod.mk.injEq] at hrun
    rw [hrun.1]
    exact hentry
  have hcopies := copies_hash env orders snap now
  have hmem : ∀ p, p ∈ destinations (orders.hash (collectRelativePaths env now snap)) ↔
      (∃ c, Captured env before p c) ∧ env.seen now snap p = true :=
    fun p => mem_destinations hsnap hbefore (orders.hash_perm _)
  have hok : (copied env orders snap now).2 = .ok () ↔ _ :=
    (copyFiles_ok_iff hcopies).trans (unblocked_iff hsnap hbefore hnow)
  -- a file that is not copied stays if it is excluded
  have hunseen : ∀ p c, p ∉ destinations (orders.hash (collectRelativePaths env now snap)) →
      ((copied env orders snap now).1.entry p = some (.file c) ↔
        now.entry p = some (.file c) ∧ env.visible now p = false) := by
    intro p c hp
    have hkept : (copied env orders snap now).1.entry p = some (.file c) ↔
        (cleared env orders snap now).entry p = some (.file c) := by
      constructor
      · intro h
        obtain ⟨c',hc'⟩ := isFile_of_copyFiles hcopies ⟨c,h⟩ hp
        rw [copied,copyFiles_keeps hcopies hc' hp] at h
        rw [hc',h]
      · exact fun h => copyFiles_keeps hcopies h hp
    rw [hkept,cleared_file_iff hsnap hbefore hnow,mem_destinations hsnap hbefore (.refl _),← hmem]
    simp [hp]
  constructor
  · rintro ⟨hdone,hback,-⟩ p c hcap
    have hcopied : (copied env orders snap now).2 = .ok () := by
      by_contra hne
      rw [restoreWorkspace_error hne] at hdone
      exact hne hdone
    split_ifs with hseen
    · exact hok.mp hcopied p c hcap hseen
    · have hp := hback p c hcap
      rw [restoreWorkspace_ok hcopied,cleanEmptyDirs_isFile] at hp
      exact (hunseen p c fun hin => hseen ((hmem p).mp hin).2).mp hp
  · intro hcan
    have hcopied : (copied env orders snap now).2 = .ok () := by
      refine hok.mpr fun p c hcap hseen => ?_
      have h := hcan p c hcap
      rwa [if_pos hseen] at h
    rw [restoreWorkspace_ok hcopied]
    refine ⟨rfl,fun p c hcap => ?_,fun p hfile hvis => ?_⟩
    · rw [cleanEmptyDirs_isFile]
      by_cases hseen : env.seen now snap p = true
      · obtain ⟨e,he,rfl⟩ := mem_map.mp ((hmem p).mpr ⟨⟨c,hcap⟩,hseen⟩)
        obtain ⟨⟨c',hc'⟩,-,hkey,-⟩ :=
          mem_collectRelativePaths ((orders.hash_perm _).subset he)
        rw [hkey,destination_lossy env (hbefore _ c' ((snap_entry_iff hsnap).mp hc'))] at hcap
        rw [copied,copyFiles_written hcopies hcopied he]
        exact (snap_entry_iff hsnap).mpr hcap
      · have h := hcan p c hcap
        rw [if_neg hseen] at h
        exact (hunseen p c fun hin => hseen ((hmem p).mp hin).2).mpr h
    · obtain ⟨c,hc⟩ := hfile
      rw [cleanEmptyDirs_isFile] at hc
      by_contra hnot
      have hp : p ∉ destinations (orders.hash (collectRelativePaths env now snap)) :=
        fun hin => hnot ((hmem p).mp hin).1
      rw [hunseen p c hp,hvis] at hc
      cases hc.2

end Exact

section Swapped

def onlyEntry (e : Entry (List UInt8)) : Tree :=
  FileTree.empty.put [] (.utf8 "a") e (.inl rfl) (FileTree.empty_entry_ne _ _)

theorem onlyEntry_entry (e : Entry (List UInt8)) (p : RelPath) :
    (onlyEntry e).entry p = if p = [.utf8 "a"] then some e else none := Function.update_apply _ _ _ _

theorem onlyEntry_utf8 {e : Entry (List UInt8)} (h : (onlyEntry e).entry p ≠ none) : Utf8 p := by
  rw [onlyEntry_entry] at h
  split_ifs at h with hp
  · subst hp
    simp [Utf8]
  · exact absurd rfl h

/-- The file was overwritten in the meantime, and is brought back. -/
theorem restored_overwritten : ∃ snap count bytes,
    copyWorkspace openWalk (onlyEntry (.file [1])) = some (snap, count, bytes) ∧
    Restored openWalk (onlyEntry (.file [1])) (onlyEntry (.file [2]))
      (restoreWorkspace openWalk longestFirst snap (onlyEntry (.file [2]))) := by
  obtain ⟨snap,count,bytes,hcopy,-⟩ := copyWorkspace_spec openWalk (onlyEntry (.file [1]))
  refine ⟨snap,count,bytes,hcopy,(restored_iff hcopy ?_ ?_).mpr ?_⟩
  · exact fun p c hcap => onlyEntry_utf8 (by rw [hcap.2]; simp)
  · rintro p ⟨c,hc⟩ -
    exact onlyEntry_utf8 (by rw [hc]; simp)
  · intro p c hcap
    have hseen : openWalk.seen (onlyEntry (.file [2])) snap p = true := by simp [WalkEnv.seen,openWalk]
    rw [if_pos hseen]
    refine ⟨?_,fun a _ _ hfile => ?_⟩
    · rw [onlyEntry_entry]
      split_ifs <;> simp
    · obtain ⟨c',hc'⟩ := hfile
      rw [onlyEntry_entry] at hc'
      split_ifs at hc' with ha
      rw [ha]
      decide +kernel

/-- The file was replaced by an empty directory, which stops the restore. -/
theorem restore_swapped_fails : ∃ snap count bytes,
    copyWorkspace openWalk (onlyEntry (.file [1])) = some (snap, count, bytes) ∧
    (restoreWorkspace openWalk longestFirst snap (onlyEntry .dir)).2 = .error (.restore ["a"]) ∧
    ¬ Restored openWalk (onlyEntry (.file [1])) (onlyEntry .dir)
      (restoreWorkspace openWalk longestFirst snap (onlyEntry .dir)) := by
  obtain ⟨snap,count,bytes,hcopy,-⟩ := copyWorkspace_spec openWalk (onlyEntry (.file [1]))
  have hrun : (copyWorkspace openWalk (onlyEntry (.file [1]))).map (fun copied =>
      (restoreWorkspace openWalk longestFirst copied.1 (onlyEntry .dir)).2) =
        some (.error (.restore ["a"])) := by decide +kernel
  rw [hcopy,Option.map_some,Option.some.injEq] at hrun
  refine ⟨snap,count,bytes,hcopy,hrun,fun h => ?_⟩
  have hok := h.ok
  rw [hrun] at hok
  cases hok

end Swapped

end Daimonos.Snapshot
