import Daimonos.Framework.FileTree

namespace Daimonos.Snapshot

open Framework List

/-- The file system of the host, without symbolic links. -/
abbrev Host := FileTree String (List UInt8)

/-- The names in a path; empty ones and `.` do not count. -/
def components (path : String) : List String :=
  ((path.toList.splitOn '/').map String.ofList).filter fun part => part ≠ "" ∧ part ≠ "."

def isAbsolute (path : String) : Bool := path.toList.head? == some '/'

def joinPath (base path : String) : String :=
  if isAbsolute path ∨ base = "" then path
  else if base.toList.getLast? = some '/' then base++path
  else base ++ "/" ++ path

structure SnapshotStore where
  workspace : String
  snapshotsRoot : String
  selectedState : Bool

namespace SnapshotStore

def new (workspace : String) : SnapshotStore where
  workspace := workspace
  snapshotsRoot := joinPath workspace ".daimonos/snapshots"
  selectedState := false

def withSnapshotsRoot (workspace snapshotsRoot : String) : SnapshotStore where
  workspace := workspace
  snapshotsRoot := snapshotsRoot
  selectedState := true

def forWorkspace (workspace : String) : Option String → SnapshotStore
  | some root => withSnapshotsRoot workspace root
  | none => new workspace

end SnapshotStore

def isLowerHex (c : Char) : Bool := c.isDigit || ('a' ≤ c && c ≤ 'f')

/-- The texts that a UUID is displayed as: 36 characters, of which four are hyphens. -/
def isUuidText (id : String) : Bool :=
  id.toList.length == 36 && id.toList.zipIdx.all fun (c, i) =>
    if i ∈ [8, 13, 18, 23] then c == '-' else isLowerHex c

/-- With a state authority an id must be the display of the UUID it parses to. -/
def SnapshotStore.validateId (store : SnapshotStore) (id : String) : Bool :=
  !store.selectedState || isUuidText id

def snapDir (root id : String) : String := joinPath root id

/-- The names on the way from `/` to a path, in the working directory `cwd`. -/
def wayTo (cwd path : String) : List String :=
  if isAbsolute path then components path else components cwd ++ components path

def enter (dir : List String) (name : String) : List String :=
  if name = ".." then dir.dropLast else dir ++ [name]

def normalize (way : List String) : List String := way.foldl enter []

def follow (t : Host) : List String → List String → Option (List String)
  | dir, [] => if dir = [] ∨ t.entry dir ≠ none then some dir else none
  | dir, name::way => if t.IsDir dir then follow t (enter dir name) way else none

/-- What the store needs to know: the working directory, and whether a text is a manifest. -/
structure StoreEnv where
  cwd : String
  isManifest : List UInt8 → Bool

/-- The paths that a restore reads: the manifest and, if it is one, the files of the snapshot. -/
def restoreReads (env : StoreEnv) (store : SnapshotStore) (id : String) (t : Host) :
    List (List String) :=
  if store.validateId id = false then []
  else
    match follow t [] (wayTo env.cwd (snapDir store.snapshotsRoot id)) with
    | none => []
    | some dir =>
      let manifest := dir ++ ["manifest.json"]
      let files := dir ++ ["files"]
      -- with a state authority both have to be there and no symbolic links
      if store.selectedState ∧ (t.entry manifest = none ∨ t.entry files = none) then []
      else
        match t.content? manifest with
        | none => []
        | some content =>
          manifest :: if env.isManifest content then t.paths.filter (files <+: ·) else []

/-- The name that a path ends in, dots included. -/
def lastName (path : String) : Option (List Char) :=
  ((path.toList.splitOn '/').filter (· ≠ [])).getLast?

/-- The contents go first, then the directory under its path. The path of a directory cannot end in
dots there, and it may have led through the contents; then the directory stays, without contents. -/
def removeDirAll (t : Host) (cwd path : String) : Host :=
  match follow t [] (wayTo cwd path) with
  | none => t
  | some dir =>
    if t.IsDir dir then
      let emptied := t.removeBelow dir
      if lastName path ∈ [some ['.'], some ['.', '.']] ∨ follow emptied [] (wayTo cwd path) = none
      then emptied
      else emptied.removeDir dir
    else t

def delete (env : StoreEnv) (store : SnapshotStore) (id : String) (t : Host) : Host :=
  if store.validateId id = false then t
  else removeDirAll t env.cwd (snapDir store.snapshotsRoot id)

/-- Whatever is on the host, a restore reads only in a directory right below the root, and a delete
removes nothing or the contents of a directory right below the root, with or without it. -/
structure Contained (env : StoreEnv) (store : SnapshotStore) (id : String) : Prop where
  reads : ∀ t, ∃ name, ∀ p ∈ restoreReads env store id t,
    normalize (wayTo env.cwd store.snapshotsRoot) ++ [name] <+: p
  removes : ∀ t, delete env store id t = t ∨ ∃ name,
    let dir := normalize (wayTo env.cwd store.snapshotsRoot) ++ [name]
    ∀ p, t.entry p ≠ none →
      ((delete env store id t).entry p = none → dir <+: p) ∧
      (dir <+: p → p≠dir → (delete env store id t).entry p = none)

section Ways

theorem follow_eq_some {t : Host} {dir p : List String} (way : List String)
    (h : follow t dir way = some p) : p = way.foldl enter dir := by
  induction way generalizing dir with
  | nil =>
    rw [follow] at h
    split_ifs at h
    exact (Option.some.inj h).symm
  | cons name way ih =>
    rw [follow] at h
    split_ifs at h
    exact ih h

theorem follow_of_isDir {t : Host} {dir : List String} (way : List String)
    (h : ∀ w, w <+: way → t.IsDir (w.foldl enter dir)) :
    follow t dir way = some (way.foldl enter dir) := by
  induction way generalizing dir with
  | nil =>
    rcases h [] (prefix_refl _) with hroot | hdir
    · exact if_pos (.inl hroot)
    · refine if_pos (.inr ?_)
      change t.entry dir = some .dir at hdir
      rw [hdir]
      simp
  | cons name way ih =>
    have hdir : t.IsDir dir := h [] nil_prefix
    rw [follow,if_pos hdir]
    exact ih fun w hw => h (name::w) (cons_prefix_cons.mpr ⟨rfl,hw⟩)

theorem exists_follow (way : List String) (ps : List (List String)) :
    ∃ t : Host, follow t [] way = some (normalize way) ∧ t.IsDir (normalize way) ∧
      ∀ p∈ps, t.IsDir p := by
  obtain ⟨t,-,hdirs⟩ := FileTree.exists_isDir (γ := List UInt8) (way.inits.map normalize ++ ps)
  have hway : ∀ w, w <+: way → t.IsDir (normalize w) := fun w hw =>
    hdirs _ (mem_append_left _ (mem_map_of_mem ((mem_inits w way).mpr hw)))
  exact ⟨t,follow_of_isDir way hway,hway way (prefix_refl way),
    fun p hp => hdirs p (mem_append_right _ hp)⟩

theorem components_of_slash {path : String} {x y : List Char} (h : path.toList = x ++ '/' :: y) :
    components path = components (String.ofList x) ++ components (String.ofList y) := by
  unfold components
  rw [h,splitOn_append_cons_self,map_append,filter_append]
  simp

theorem components_empty : components "" = [] := by decide

theorem isAbsolute_append {base : String} (h : base ≠ "") (path : String) :
    isAbsolute (base++path) = isAbsolute base := by
  have hne : base.toList ≠ [] := by simpa using h
  rw [isAbsolute,isAbsolute,String.toList_append,head?_append_of_ne_nil _ hne]

theorem wayTo_joinPath (cwd base : String) {path : String} (h : isAbsolute path = false) :
    wayTo cwd (joinPath base path) = wayTo cwd base ++ components path := by
  have hjoin : ∀ joined, isAbsolute joined = isAbsolute base →
      components joined = components base ++ components path →
      wayTo cwd joined = wayTo cwd base ++ components path := by
    intro joined habs hcomponents
    rw [wayTo,wayTo,habs,hcomponents]
    split_ifs <;> simp
  rw [joinPath]
  split_ifs with hbase hlast
  · obtain rfl := hbase.resolve_left (by simp [h])
    rw [wayTo,if_neg (by simp [h]),wayTo,if_neg (by decide),components_empty,append_nil]
  · have hne : base ≠ "" := fun hempty => hbase (.inr hempty)
    have hsplit : base.toList = base.toList.dropLast ++ ['/'] :=
      (dropLast_append_getLast? _ hlast).symm
    refine hjoin _ (isAbsolute_append hne path) ?_
    have hpath : (base++path).toList = base.toList.dropLast ++ '/' :: path.toList := by
      rw [String.toList_append]
      conv_lhs => rw [hsplit]
      simp
    rw [components_of_slash hpath,components_of_slash hsplit,components_empty]
    simp
  · have hne : base ≠ "" := fun hempty => hbase (.inr hempty)
    refine hjoin _ ?_ ?_
    · rw [String.append_assoc,isAbsolute_append hne]
    · have hpath : (base ++ "/" ++ path).toList = base.toList ++ '/' :: path.toList := by simp
      rw [components_of_slash hpath]
      simp

theorem components_plain {name : String} (hslash : '/' ∉ name.toList) (hempty : name ≠ "")
    (hdot : name ≠ ".") : components name = [name] := by
  unfold components
  rw [splitOn_eq_singleton hslash]
  simp [hempty,hdot]

theorem not_mem_uuidText {id : String} (h : isUuidText id = true) {c : Char} (hc : isLowerHex c = false)
    (hhyphen : c ≠ '-') : c ∉ id.toList := by
  intro hmem
  rw [isUuidText,Bool.and_eq_true,all_eq_true] at h
  rw [← zipIdx_map_fst 0 id.toList] at hmem
  obtain ⟨⟨c',i⟩,hi,rfl⟩ := mem_map.mp hmem
  have hchar := h.2 _ hi
  simp only at hchar hc hhyphen
  split_ifs at hchar
  · exact hhyphen (eq_of_beq hchar)
  · rw [hc] at hchar
    cases hchar

end Ways

section Contained

variable {env : StoreEnv} {store : SnapshotStore} {id : String}

/-- The id leads to a name right below the root. -/
def NamesChild (env : StoreEnv) (store : SnapshotStore) (id : String) : Prop :=
  ∃ name, normalize (wayTo env.cwd (snapDir store.snapshotsRoot id)) =
    normalize (wayTo env.cwd store.snapshotsRoot) ++ [name]

theorem namesChild_of_uuidText (h : isUuidText id = true) : NamesChild env store id := by
  have hnot : ∀ c, isLowerHex c = false → c ≠ '-' → c ∉ id.toList :=
    fun c hc hne => not_mem_uuidText h hc hne
  have hslash : '/' ∉ id.toList := hnot '/' (by decide) (by decide)
  have hdot : '.' ∉ id.toList := hnot '.' (by decide) (by decide)
  have hempty : id ≠ "" := by
    rintro rfl
    revert h
    decide
  have hone : id ≠ "." := by
    rintro rfl
    exact hdot (by decide)
  have htwo : id ≠ ".." := by
    rintro rfl
    exact hdot (by decide)
  have hrelative : isAbsolute id = false := by
    rw [isAbsolute,beq_eq_false_iff_ne]
    exact fun hhead => hslash (mem_of_head? hhead)
  refine ⟨id,?_⟩
  rw [snapDir,wayTo_joinPath _ _ hrelative,components_plain hslash hempty hone,normalize,
    foldl_append,foldl_cons,foldl_nil,enter,if_neg htwo]
  rfl

variable {t : Host} {dir : List String}

theorem removeDirAll_of_follow {cwd path : String}
    (hfollow : follow t [] (wayTo cwd path) = some dir) (hdir : t.IsDir dir) (p : List String) :
    (dir <+: p ∧ p≠dir → (removeDirAll t cwd path).entry p = none) ∧
      (¬ dir <+: p → (removeDirAll t cwd path).entry p = t.entry p) := by
  simp only [removeDirAll,hfollow,if_pos hdir]
  split_ifs
  · rw [FileTree.removeBelow_entry]
    exact ⟨fun hbelow => if_pos hbelow,fun hnot => if_neg fun hbelow => hnot hbelow.1⟩
  · rw [FileTree.removeDir_entry,FileTree.removeBelow_entry _ _ p]
    constructor
    · intro hbelow
      rw [if_pos hbelow,ite_self]
    · intro hnot
      have hne : p≠dir := fun heq => hnot (heq ▸ prefix_refl _)
      rw [if_neg fun hself => hne hself.1,if_neg fun hbelow => hnot hbelow.1]

theorem removeDirAll_cases (t : Host) (cwd path : String) :
    removeDirAll t cwd path = t ∨
      ∃ dir, follow t [] (wayTo cwd path) = some dir ∧ t.IsDir dir := by
  cases hfollow : follow t [] (wayTo cwd path) with
  | none => exact .inl (by simp only [removeDirAll,hfollow])
  | some dir =>
    by_cases hdir : t.IsDir dir
    · exact .inr ⟨dir,rfl,hdir⟩
    · exact .inl (by simp only [removeDirAll,hfollow,if_neg hdir])

theorem contained_of_namesChild (h : store.validateId id = true → NamesChild env store id) :
    Contained env store id := by
  cases hvalid : store.validateId id with
  | false =>
    refine ⟨fun t => ⟨"",?_⟩,fun t => .inl ?_⟩
    · rw [restoreReads,if_pos hvalid]
      simp
    · rw [delete,if_pos hvalid]
  | true =>
    obtain ⟨name,hname⟩ := h hvalid
    have hdir : ∀ t dir, follow t [] (wayTo env.cwd (snapDir store.snapshotsRoot id)) = some dir →
        dir = normalize (wayTo env.cwd store.snapshotsRoot) ++ [name] :=
      fun t dir hfollow => (follow_eq_some _ hfollow).trans hname
    refine ⟨fun t => ⟨name,fun p hp => ?_⟩,fun t => ?_⟩
    · rw [restoreReads,if_neg (by simp [hvalid])] at hp
      cases hfollow : follow t [] (wayTo env.cwd (snapDir store.snapshotsRoot id)) with
      | none =>
        rw [hfollow] at hp
        cases hp
      | some dir =>
        rw [← hdir t dir hfollow]
        simp only [hfollow] at hp
        split_ifs at hp
        · cases hp
        · split at hp
          · cases hp
          · rcases mem_cons.mp hp with rfl | hp
            · exact prefix_append _ _
            · split_ifs at hp
              · have hfiles := (mem_filter.mp hp).2
                exact (prefix_append _ _).trans (of_decide_eq_true hfiles)
              · cases hp
    · rw [delete,if_neg (by simp [hvalid])]
      rcases removeDirAll_cases t env.cwd (snapDir store.snapshotsRoot id) with
        hsame | ⟨dir,hfollow,hisDir⟩
      · exact .inl hsame
      · refine .inr ⟨name,fun p hp => ?_⟩
        obtain ⟨hgone,hkept⟩ := removeDirAll_of_follow hfollow hisDir p
        rw [← hdir t dir hfollow]
        refine ⟨fun hnone => ?_,fun hle hne => hgone ⟨hle,hne⟩⟩
        by_contra hnot
        exact hp ((hkept hnot).symm.trans hnone)

theorem namesChild_of_contained (hvalid : store.validateId id = true) (h : Contained env store id) :
    NamesChild env store id := by
  -- a host with everything on the way, and two directories in each directory of it
  let target := normalize (wayTo env.cwd (snapDir store.snapshotsRoot id))
  obtain ⟨t,hfollow,hdir,htwo⟩ := exists_follow (wayTo env.cwd (snapDir store.snapshotsRoot id))
    (target.inits.flatMap fun q => [q ++ ["a"], q ++ ["b"]])
  have hthere : ∀ q, q <+: target → ∀ n ∈ ["a", "b"], t.entry (q ++ [n]) ≠ none := by
    intro q hq n hn
    have hmem : q ++ [n] ∈ target.inits.flatMap fun q => [q ++ ["a"], q ++ ["b"]] := by
      refine mem_flatMap.mpr ⟨q,(mem_inits q target).mpr hq,?_⟩
      simpa using hn
    rw [(htwo _ hmem).resolve_left (by simp)]
    simp
  have hdelete : delete env store id t =
      removeDirAll t env.cwd (snapDir store.snapshotsRoot id) := if_neg (by simp [hvalid])
  have hremoved := removeDirAll_of_follow hfollow hdir
  rw [← hdelete] at hremoved
  change ∃ name, target=_
  change ∀ p, (target <+: p ∧ p≠target → _) ∧ (¬ target <+: p → _) at hremoved
  have hgone : ∀ n ∈ ["a", "b"], (delete env store id t).entry (target ++ [n]) = none :=
    fun n _ => (hremoved _).1 ⟨prefix_append _ _,by simp⟩
  -- two paths that differ in the last name have no more in common than what is above it
  have hcommon : ∀ x y : List String, x <+: y ++ ["a"] → x <+: y ++ ["b"] → x <+: y := by
    intro x y ha hb
    refine (prefix_concat_iff.mp ha).resolve_left ?_
    rintro rfl
    have heq := hb.eq_of_length (by simp)
    simp at heq
  rcases h.removes t with hsame | ⟨name,hname⟩
  · refine absurd ?_ (hthere target (prefix_refl _) "a" (by simp))
    rw [← hsame]
    exact hgone "a" (by simp)
  · dsimp only at hname
    generalize hchild : normalize (wayTo env.cwd store.snapshotsRoot) ++ [name] = child at hname
    have hle : child <+: target := by
      refine hcommon _ _ ?_ ?_
      · exact (hname _ (hthere target (prefix_refl _) "a" (by simp))).1 (hgone "a" (by simp))
      · exact (hname _ (hthere target (prefix_refl _) "b" (by simp))).1 (hgone "b" (by simp))
    have hge : target <+: child := by
      refine hcommon _ _ ?_ ?_ <;> by_contra hnot
      · have hnone := (hname _ (hthere child hle "a" (by simp))).2 (prefix_append _ _) (by simp)
        exact hthere child hle "a" (by simp) (((hremoved _).2 hnot).symm.trans hnone)
      · have hnone := (hname _ (hthere child hle "b" (by simp))).2 (prefix_append _ _) (by simp)
        exact hthere child hle "b" (by simp) (((hremoved _).2 hnot).symm.trans hnone)
    refine ⟨name,?_⟩
    rw [hchild]
    exact hge.eq_of_length (le_antisymm hge.length_le hle.length_le)

/-- An id goes to a directory right below the root if it is checked or leads there itself. -/
theorem contained_iff (env : StoreEnv) (workspace : String) (root : Option String) (id : String) :
    Contained env (.forWorkspace workspace root) id ↔
      root.isSome=true ∨ NamesChild env (.forWorkspace workspace root) id := by
  cases root with
  | none =>
    refine ⟨fun h => .inr (namesChild_of_contained rfl h),fun h => contained_of_namesChild fun _ => ?_⟩
    exact h.resolve_left (by simp)
  | some root =>
    refine iff_of_true (contained_of_namesChild fun h => namesChild_of_uuidText h) (.inl rfl)

/-- In the workspace placement an id can lead back into the workspace, and delete takes what is
there. -/
theorem delete_outside_root : ∃ (env : StoreEnv) (t : Host),
    t.entry ["w", "src", "ops"] = some .dir ∧
    (delete env (.forWorkspace "/w" none) "../../src" t).entry ["w", "src", "ops"] = none ∧
    ¬ Contained env (.forWorkspace "/w" none) "../../src" := by
  have hway : normalize (wayTo "/" (snapDir "/w/.daimonos/snapshots" "../../src")) =
      ["w", "src"] := by
    decide +kernel
  have hstore : (SnapshotStore.forWorkspace "/w" none).snapshotsRoot =
      "/w/.daimonos/snapshots" := by
    decide +kernel
  obtain ⟨t,hfollow,hdir,hops⟩ := exists_follow
    (wayTo "/" (snapDir "/w/.daimonos/snapshots" "../../src")) [["w", "src", "ops"]]
  rw [hway] at hfollow hdir
  refine ⟨⟨"/",fun _ => true⟩,t,(hops _ (by simp)).resolve_left (by simp),?_,fun h => ?_⟩
  · rw [delete,if_neg (by decide),hstore]
    exact (removeDirAll_of_follow hfollow hdir _).1 (by decide)
  · obtain ⟨name,hname⟩ := namesChild_of_contained rfl h
    have hroot : normalize (wayTo "/" "/w/.daimonos/snapshots") =
        ["w", ".daimonos", "snapshots"] := by
      decide +kernel
    rw [hstore,hway,hroot] at hname
    simp at hname

end Contained

end Daimonos.Snapshot
