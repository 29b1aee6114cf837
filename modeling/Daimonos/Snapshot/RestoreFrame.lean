import Daimonos.Snapshot.RestoreSteps

namespace Daimonos.Snapshot

open Framework

variable {env : WalkEnv} {orders : Orders} {now snap : Tree} {p q : RelPath}

/-- What no walk gets to, below a reserved name or ignored, is there as it was. -/
def Untouched (env : WalkEnv) (now after : Tree) : Prop :=
  ∀ p e, now.entry p = some e → env.visible now p = false → after.entry p = some e

/-- A file of the snapshot cannot be written: a directory is in its place, or a file above it that is
not removed or is itself in the snapshot. -/
def Blocked (env : WalkEnv) (snap now : Tree) : Prop :=
  let ds := destinations (collectRelativePaths env now snap)
  ∃ d∈ds, now.entry d = some .dir ∨ ∃ a, a <+: d ∧ a≠d ∧ (a∈ds ∨ now.IsFile a ∧
    ¬ Stale (collectRelativePaths env now snap) (collectWorkspacePaths env now) a)

/-- No file of the snapshot has other content than an excluded file in its place, and every excluded
directory that holds only directories gets a file of the snapshot, or the restore fails. -/
structure Sparing (env : WalkEnv) (snap now : Tree) : Prop where
  files : ∀ e ∈ collectRelativePaths env now snap,
    env.visible now (destination e.1) = false → ∀ c, now.entry (destination e.1) = some (.file c) →
      snap.entry e.2 = some (.file c)
  dirs : ¬ Blocked env snap now → ∀ d, Hollow env now d → env.visible now d = false →
    ∃ x ∈ destinations (collectRelativePaths env now snap), d <+: x

section Frame

theorem mem_destinations_hash : p ∈ destinations (orders.hash (collectRelativePaths env now snap)) ↔
    p ∈ destinations (collectRelativePaths env now snap) :=
  ((orders.hash_perm _).map _).mem_iff

theorem copied_ok_iff : (copied env orders snap now).2 = .ok () ↔ ¬ Blocked env snap now := by
  rw [copied,copyFiles_ok_iff (copies_hash env orders snap now)]
  have hfile : ∀ a, (cleared env orders snap now).IsFile a ↔ now.IsFile a ∧
      ¬ Stale (collectRelativePaths env now snap) (collectWorkspacePaths env now) a := by
    intro a
    have hperm := orders.hash_perm (collectWorkspacePaths env now)
    constructor
    · rintro ⟨c,hc⟩
      rcases cleared_cases env orders snap now a with hsame | ⟨-,hgone⟩
      · have hnow : now.IsFile a := ⟨c,hsame ▸ hc⟩
        refine ⟨hnow,fun hstale => ?_⟩
        rw [cleared,removeStale_none _ (hstale.of_perm hperm.symm) hnow] at hc
        cases hc
      · rw [hgone] at hc
        cases hc
    · rintro ⟨⟨c,hc⟩,hstale⟩
      exact ⟨c,(removeStale_entry _ fun h => absurd (h.of_perm hperm) hstale).trans hc⟩
  constructor
  · rintro hclear ⟨d,hd,hdir | ⟨a,ha,hne,hin | hstay⟩⟩
    · exact (hclear d (mem_destinations_hash.mpr hd)).1 (cleared_dir_iff.mpr hdir)
    · exact ((hclear d (mem_destinations_hash.mpr hd)).2 a ha hne).1 (mem_destinations_hash.mpr hin)
    · exact ((hclear d (mem_destinations_hash.mpr hd)).2 a ha hne).2 ((hfile a).mpr hstay)
  · intro hblocked d hd
    rw [mem_destinations_hash] at hd
    refine ⟨fun hdir => hblocked ⟨d,hd,.inl (cleared_dir_iff.mp hdir)⟩,fun a ha hne => ⟨?_,?_⟩⟩
    · intro hin
      exact hblocked ⟨d,hd,.inr ⟨a,ha,hne,.inl (mem_destinations_hash.mp hin)⟩⟩
    · intro hstay
      exact hblocked ⟨d,hd,.inr ⟨a,ha,hne,.inr ((hfile a).mp hstay)⟩⟩

theorem Sparing.copied_entry (orders : Orders) (h : Sparing env snap now) {e : Entry (List UInt8)}
    (hp : now.entry p = some e) (hvis : env.visible now p = false) :
    (copied env orders snap now).1.entry p = some e := by
  have hcleared : (cleared env orders snap now).entry p = some e := (cleared_excluded hvis).trans hp
  rcases copyFiles_frame (copies_hash env orders snap now) hcleared with hkept | ⟨k,hk,rfl,hne,heq⟩
  · exact hkept
  · cases e with
    | dir => exact absurd rfl hne
    | file c =>
      rw [copied,heq]
      exact h.files k ((orders.hash_perm _).subset hk) hvis c hp

theorem Sparing.untouched (h : Sparing env snap now) :
    Untouched env now (restoreWorkspace env orders snap now).1 := by
  intro p e hp hvis
  have hcopied := h.copied_entry orders hp hvis
  by_cases hok : (copied env orders snap now).2 = .ok ()
  · rw [restoreWorkspace_ok hok,cleanEmptyDirs_entry,if_neg,hcopied]
    intro hhollow
    -- then it was hollow before, and a file of the snapshot came below it
    have hbefore : Hollow env now p := by
      refine ⟨by rw [hp]; simp,fun q hq hsome => ?_⟩
      obtain ⟨x,hx⟩ := Option.ne_none_iff_exists'.mp hsome
      have hqvis : env.visible now q = false := by
        by_contra hne
        rw [visible_above (Bool.eq_true_of_not_eq_false hne) hq] at hvis
        cases hvis
      have hqcopied := h.copied_entry orders hx hqvis
      obtain ⟨hdir,hname⟩ := hhollow.2 q hq (by rw [hqcopied]; simp)
      exact ⟨hx.trans (hqcopied.symm.trans hdir),hname⟩
    obtain ⟨x,hx,hle⟩ := h.dirs (copied_ok_iff.mp hok) p hbefore hvis
    obtain ⟨k,hk,rfl⟩ := List.mem_map.mp (mem_destinations_hash.mpr hx)
    have hcopies := copies_hash env orders snap now
    have hwritten := copyFiles_written hcopies hok hk
    obtain ⟨c,hc⟩ := hcopies.files k hk
    rw [hc] at hwritten
    have hdir := (hhollow.2 _ hle (by rw [copied,hwritten]; simp)).1
    rw [copied,hwritten] at hdir
    cases hdir
  · rw [restoreWorkspace_error hok,hcopied]

/-- The order in which a hash map gives one entry first. -/
def givesFirst (k : List String × RelPath) : Orders :=
  { longestFirst with
    hash := fun l => if k∈l then k :: l.erase k else l
    hash_perm := fun l => by
      split_ifs with hk
      · exact (List.perm_cons_erase hk).symm
      · exact .refl l }

theorem copied_givesFirst {k : List String × RelPath} (hk : k ∈ collectRelativePaths env now snap)
    (hvis : env.visible now (destination k.1) = false) (hfile : now.IsFile (destination k.1)) :
    (copied env (givesFirst k) snap now).1.entry (destination k.1) = snap.entry k.2 := by
  have hcopies := copies_hash env (givesFirst k) snap now
  have hhash : (givesFirst k).hash (collectRelativePaths env now snap) =
      k :: (collectRelativePaths env now snap).erase k := if_pos hk
  rw [copied]
  rw [hhash] at hcopies ⊢
  obtain ⟨c',hc'⟩ := hfile
  have hthere : (cleared env (givesFirst k) snap now).entry (destination k.1) = some (.file c') :=
    (cleared_excluded hvis).trans hc'
  obtain ⟨c,hsrc⟩ := hcopies.files k List.mem_cons_self
  rcases copyFiles_cons hcopies hsrc (t := cleared env (givesFirst k) snap now) with
    ⟨-,t',heq,hplaced⟩ | ⟨hblocked,-⟩
  · rw [heq,hsrc]
    exact copyFiles_keeps hcopies.tail (by rw [hplaced,if_pos rfl]) hcopies.notMem
  · refine absurd ⟨fun a ha hafile => ?_,by rw [hthere]; simp⟩ hblocked
    have hd := destination_ne_nil (hcopies.named k List.mem_cons_self)
    obtain ⟨hle,hne⟩ := (prefix_dropLast_iff hd).mp ha
    exact (FileTree.isDir_above (by rw [hthere]; simp) hle hne).not_isFile hafile

theorem restoreWorkspace_hollow {d : RelPath} (hok : ¬ Blocked env snap now) (hd : Hollow env now d)
    (hnone : ¬ ∃ x ∈ destinations (collectRelativePaths env now snap), d <+: x) :
    (restoreWorkspace env orders snap now).1.entry d = none := by
  have hcopied : (copied env orders snap now).2 = .ok () := copied_ok_iff.mpr hok
  have hkept : ∀ q, now.entry q = some .dir → (copied env orders snap now).1.entry q = some .dir := by
    intro q hq
    refine (copyFiles_frame (copies_hash env orders snap now)
      (cleared_dir_iff.mpr hq)).resolve_right ?_
    rintro ⟨-,-,-,hne,-⟩
    exact hne rfl
  have hself := (hd.2 d (List.prefix_refl d) hd.1).1
  have hhollow : Hollow env (copied env orders snap now).1 d := by
    refine ⟨by rw [hkept d hself]; simp,fun q hq hsome => ?_⟩
    rcases copyFiles_new (copies_hash env orders snap now) hsome with hthere | ⟨x,hx,hle⟩
    · have hnow : now.entry q ≠ none := by
        rcases cleared_cases env orders snap now q with hsame | ⟨-,hgone⟩
        · rw [← hsame]
          exact hthere
        · exact absurd hgone hthere
      obtain ⟨hdir,hname⟩ := hd.2 q hq hnow
      exact ⟨hkept q hdir,hname⟩
    · exact absurd ⟨x,mem_destinations_hash.mp hx,hq.trans hle⟩ hnone
  rw [restoreWorkspace_ok hcopied,cleanEmptyDirs_entry,if_pos hhollow]

/-- Whatever order the maps have, a restore leaves what the walks do not get to, if it is spared. -/
theorem untouched_iff (env : WalkEnv) (snap now : Tree) :
    (∀ orders, Untouched env now (restoreWorkspace env orders snap now).1) ↔
      Sparing env snap now := by
  refine ⟨fun h => ⟨fun k hk hvis c hc => ?_,fun hok d hd hvis => ?_⟩,fun h orders => h.untouched⟩
  · have hfile := h (givesFirst k) _ _ hc hvis
    rw [restoreWorkspace_file,copied_givesFirst hk hvis ⟨c,hc⟩] at hfile
    exact hfile
  · by_contra hnone
    have hdir := h longestFirst d .dir (hd.2 d (List.prefix_refl d) hd.1).1 hvis
    rw [restoreWorkspace_hollow hok hd hnone] at hdir
    cases hdir

/-- A repository with an empty directory in it. -/
def freshRepository : Tree :=
  (FileTree.empty.createDirAll [.utf8 ".git", .utf8 "refs"]).getD .empty

/-- Restoring a snapshot of a fresh repository removes an empty directory below `.git`. -/
theorem freshRepository_touched : ∃ snap count bytes,
    copyWorkspace openWalk freshRepository = some (snap, count, bytes) ∧
    freshRepository.entry [.utf8 ".git", .utf8 "refs"] = some .dir ∧
    (restoreWorkspace openWalk longestFirst snap freshRepository).1.entry
      [.utf8 ".git", .utf8 "refs"] = none ∧
    ¬ ∀ orders, Untouched openWalk freshRepository
      (restoreWorkspace openWalk orders snap freshRepository).1 := by
  have hrun : (copyWorkspace openWalk freshRepository).map (fun copied =>
      (restoreWorkspace openWalk longestFirst copied.1 freshRepository).1.entry
        [.utf8 ".git", .utf8 "refs"]) = some none := by decide +kernel
  obtain ⟨⟨snap,count,bytes⟩,hcopy,hnone⟩ := Option.map_eq_some_iff.mp hrun
  have hthere : freshRepository.entry [.utf8 ".git", .utf8 "refs"] = some .dir := by decide +kernel
  refine ⟨snap,count,bytes,hcopy,hthere,hnone,fun h => ?_⟩
  have hkept := h longestFirst _ _ hthere (by decide +kernel)
  rw [hnone] at hkept
  cases hkept

end Frame

end Daimonos.Snapshot
