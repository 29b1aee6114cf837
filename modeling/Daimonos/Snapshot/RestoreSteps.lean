import Daimonos.Snapshot.Restore

namespace Daimonos.Snapshot

open Framework List

variable {env : WalkEnv} {t snap : Tree} {p q : RelPath}

section Plain

def openWalk : WalkEnv where
  replaced _ := ""
  ignored _ _ := false
  hidden _ _ _ := false

def Longer (p q : RelPath) : Prop := q.length≤p.length

instance : DecidableRel Longer := fun p q => inferInstanceAs (Decidable (q.length≤p.length))

instance : Std.Total Longer := ⟨fun p q => le_total q.length p.length⟩

instance : IsTrans RelPath Longer := ⟨fun _ _ _ hpq hqr => le_trans hqr hpq⟩

def longestFirst : Orders where
  hash l := l
  hash_perm _ := .refl _
  contentsFirst l := l.insertionSort Longer
  contentsFirst_perm l := perm_insertionSort _ l
  contents_before l hnodup := by
    have hsorted := pairwise_insertionSort Longer l
    have hdistinct := (perm_insertionSort Longer l).nodup_iff.mpr hnodup
    refine (hsorted.and hdistinct).imp ?_
    rintro p q ⟨hle,hne⟩ hstarts
    exact hne (hstarts.eq_of_length (le_antisymm hstarts.length_le hle))

end Plain

section Walks

theorem visible_iff : env.visible t p = true ↔
    (∀ n∈p, env.reserved n = false) ∧ ∀ a, a ≠ [] → a <+: p → env.ignored t a = false := by
  simp only [WalkEnv.visible,Bool.and_eq_true,List.all_eq_true,Bool.not_eq_true',
    List.mem_inits,Bool.or_eq_true,List.isEmpty_iff]
  refine and_congr_right fun _ => forall_congr' fun a => ?_
  tauto

theorem visible_above (h : env.visible t q = true) (hp : p <+: q) : env.visible t p = true := by
  rw [visible_iff] at h ⊢
  exact ⟨fun n hn => h.1 n (hp.subset hn),fun a hne ha => h.2 a hne (ha.trans hp)⟩

end Walks

section Maps

variable (env) (paths : List RelPath)

theorem keyed_concat (p : RelPath) :
    keyed env (paths ++ [p]) = storeKey (env.lossy p) p (keyed env paths) := by
  rw [keyed,foldl_append]
  rfl

theorem keyed_nodup : ((keyed env paths).map Prod.fst).Nodup := by
  induction paths using List.reverseRecOn with
  | nil => exact nodup_nil
  | append_singleton paths p ih =>
    rw [keyed_concat,map_fst_storeKey]
    split_ifs with hk
    · exact ih
    · exact nodup_append'.mpr ⟨ih,nodup_singleton _,by simpa using hk⟩

variable {env paths}

variable {e : List String × RelPath}

theorem mem_keyed (h : e ∈ keyed env paths) :
    e.2∈paths ∧ e.1 = env.lossy e.2 := by
  induction paths using List.reverseRecOn with
  | nil => cases h
  | append_singleton paths p ih =>
    rw [keyed_concat] at h
    rcases mem_of_mem_storeKey h with rfl | h
    · exact ⟨by simp,rfl⟩
    · exact ⟨mem_append_left _ (ih h).1,(ih h).2⟩

theorem lossy_mem_keyed (env : WalkEnv) (h : p∈paths) :
    env.lossy p ∈ (keyed env paths).map Prod.fst := by
  induction paths using List.reverseRecOn with
  | nil => cases h
  | append_singleton paths r ih =>
    rw [keyed_concat,map_fst_storeKey]
    rcases mem_append.mp h with h | h
    · split_ifs
      · exact ih h
      · exact mem_append_left _ (ih h)
    · rw [mem_singleton.mp h]
      split_ifs with hk
      · exact hk
      · simp

theorem lossy_ne_nil (h : p ≠ []) : env.lossy p ≠ [] := by simpa [WalkEnv.lossy] using h

theorem mem_collectRelativePaths (h : e ∈ collectRelativePaths env t snap) :
    snap.IsFile e.2 ∧ env.seen t snap e.2 = true ∧ e.1 = env.lossy e.2 ∧ e.1 ≠ [] := by
  obtain ⟨hmem,hkey⟩ := mem_keyed h
  obtain ⟨-,hfile⟩ := mem_filter.mp hmem
  rw [Bool.and_eq_true,decide_eq_true_eq] at hfile
  exact ⟨hfile.2,hfile.1,hkey,hkey ▸ lossy_ne_nil hfile.2.ne_nil⟩

theorem mem_collectWorkspacePaths (h : e ∈ collectWorkspacePaths env t) :
    t.IsFile e.2 ∧ env.visible t e.2 = true ∧ e.1 = env.lossy e.2 := by
  obtain ⟨hmem,hkey⟩ := mem_keyed h
  obtain ⟨-,hfile⟩ := mem_filter.mp hmem
  rw [Bool.and_eq_true,decide_eq_true_eq] at hfile
  exact ⟨hfile.2,hfile.1,hkey⟩

end Maps

section Removing

variable {snapSet : List (List String × RelPath)}

def Stale (snapSet l : List (List String × RelPath)) (p : RelPath) : Prop :=
  ∃ e∈l, e.2=p ∧ e.1 ∉ snapSet.map Prod.fst

theorem Stale.of_perm {l l' : List (List String × RelPath)} (h : Stale snapSet l p)
    (hperm : l.Perm l') : Stale snapSet l' p := by
  obtain ⟨e,he,hrest⟩ := h
  exact ⟨e,hperm.subset he,hrest⟩

theorem removeStale_entry (l : List (List String × RelPath)) (h : Stale snapSet l q → ¬ t.IsFile q) :
    (removeStale snapSet t l).entry q = t.entry q := by
  induction l generalizing t with
  | nil => rfl
  | cons e l ih =>
    rw [removeStale,foldl_cons]
    have hrest : Stale snapSet l q → ¬ t.IsFile q := by
      rintro ⟨f,hf,hstale⟩
      exact h ⟨f,mem_cons_of_mem _ hf,hstale⟩
    split_ifs with hrem
    · have hne : q≠e.2 := by
        rintro rfl
        exact h ⟨e,mem_cons_self,rfl,hrem.1⟩ hrem.2
      have hentry : (t.removeFile e.2).entry q = t.entry q := by
        rw [FileTree.removeFile_entry t hrem.2,if_neg hne]
      refine (ih fun hstale hfile => ?_).trans hentry
      rw [FileTree.IsFile,hentry] at hfile
      exact hrest hstale hfile
    · exact ih hrest

theorem removeStale_none (l : List (List String × RelPath)) (h : Stale snapSet l q)
    (hfile : t.IsFile q) : (removeStale snapSet t l).entry q = none := by
  induction l generalizing t with
  | nil =>
    obtain ⟨e,he,-⟩ := h
    cases he
  | cons e l ih =>
    rw [removeStale,foldl_cons]
    by_cases hrem : e.1 ∉ snapSet.map Prod.fst ∧ t.IsFile e.2
    · rw [if_pos hrem]
      have hentry := FileTree.removeFile_entry t hrem.2 q
      by_cases hq : q=e.2
      · -- gone, and nothing brings it back
        rw [if_pos hq] at hentry
        refine (removeStale_entry l fun _ hsome => ?_).trans hentry
        rw [FileTree.IsFile,hentry] at hsome
        simp at hsome
      · rw [if_neg hq] at hentry
        obtain ⟨f,hf,rfl,hkey⟩ := h
        have hfl : f∈l := (mem_cons.mp hf).resolve_left fun heq => hq (heq ▸ rfl)
        refine ih ⟨f,hfl,rfl,hkey⟩ ?_
        rw [FileTree.IsFile,hentry]
        exact hfile
    · rw [if_neg hrem]
      obtain ⟨f,hf,rfl,hkey⟩ := h
      have hfl : f∈l := by
        refine (mem_cons.mp hf).resolve_left fun heq => hrem ?_
        rw [← heq]
        exact ⟨hkey,hfile⟩
      exact ih ⟨f,hfl,rfl,hkey⟩ hfile

end Removing

section Copying

variable {d : RelPath} {c : List UInt8} {t' : Tree} {l : List (List String × RelPath)}

def Placed (t t' : Tree) (d : RelPath) (c : List UInt8) : Prop :=
  ∀ q, t'.entry q =
    if q=d then some (.file c) else if q ≠ [] ∧ q <+: d then some .dir else t.entry q

def Open (t : Tree) (d : RelPath) : Prop := t.Free d.dropLast ∧ t.entry d ≠ some .dir

structure Copies (snap : Tree) (l : List (List String × RelPath)) : Prop where
  nodup : (l.map Prod.fst).Nodup
  files : ∀ e∈l, snap.IsFile e.2
  named : ∀ e∈l, e.1 ≠ []

def destinations (l : List (List String × RelPath)) : List RelPath := l.map fun e => destination e.1

/-- No copy is stopped by a directory in its place or a file above it, there or to be written. -/
def Unblocked (t : Tree) (ds : List RelPath) : Prop :=
  ∀ d∈ds, t.entry d ≠ some .dir ∧ ∀ a, a <+: d → a≠d → a ∉ ds ∧ ¬ t.IsFile a

theorem destination_injective : Function.Injective destination :=
  map_injective_iff.mpr fun _ _ h => OsString.utf8.inj h

theorem destination_ne_nil {rel : List String} (h : rel ≠ []) : destination rel ≠ [] := by
  simpa [destination] using h

variable {e : List String × RelPath}

theorem Copies.tail (h : Copies snap (e::l)) : Copies snap l where
  nodup := (nodup_cons.mp h.nodup).2
  files f hf := h.files f (mem_cons_of_mem _ hf)
  named f hf := h.named f (mem_cons_of_mem _ hf)

theorem Copies.notMem (h : Copies snap (e::l)) :
    destination e.1 ∉ destinations l := by
  intro hmem
  obtain ⟨f,hf,heq⟩ := mem_map.mp hmem
  have hfst : f.1=e.1 := destination_injective heq
  exact (nodup_cons.mp h.nodup).1 (mem_map.mpr ⟨f,hf,hfst⟩)

theorem copyFiles_cons (h : Copies snap (e::l)) (hsrc : snap.entry e.2 = some (.file c)) :
    (Open t (destination e.1) ∧ ∃ t', copyFiles snap t (e::l) = copyFiles snap t' l ∧
      Placed t t' (destination e.1) c) ∨
    (¬ Open t (destination e.1) ∧ ∃ t' err, copyFiles snap t (e::l) = (t', .error err) ∧
      ∀ q, t'.entry q = t.entry q) := by
  obtain ⟨rel,src⟩ := e
  have hne : destination rel ≠ [] := destination_ne_nil (h.named _ mem_cons_self)
  have hcontent : snap.content? src = some c := FileTree.content?_eq_some.mpr hsrc
  by_cases hfree : t.Free (destination rel).dropLast
  · by_cases hdir : t.entry (destination rel) = some .dir
    · obtain ⟨t₁,hcreate,hentry⟩ := FileTree.createDirAll_spec hfree
      have hsame : ∀ q, t₁.entry q = t.entry q := by
        intro q
        rw [hentry]
        split_ifs with hq
        · have hle := hq.2.trans (List.dropLast_prefix _)
          by_cases heq : q = destination rel
          · rw [heq,hdir]
          · exact ((FileTree.isDir_above (by rw [hdir]; simp) hle heq).resolve_left hq.1).symm
        · rfl
      refine .inr ⟨fun hopen => hopen.2 hdir,t₁,.restore rel,?_,hsame⟩
      rw [copyFiles,hcreate]
      simp only [hcontent,Option.bind_some]
      rw [FileTree.writeFile_none ((hsame _).trans hdir)]
    · obtain ⟨t₁,t₂,hcreate,hwrite,hentry⟩ := FileTree.createDirAll_writeFile hne hfree hdir c
      refine .inl ⟨⟨hfree,hdir⟩,t₂,?_,hentry⟩
      rw [copyFiles,hcreate]
      simp only [hcontent,Option.bind_some,hwrite]
  · refine .inr ⟨fun hopen => hfree hopen.1,t,.mkdir,?_,fun _ => rfl⟩
    rw [copyFiles,FileTree.createDirAll_none hfree]

theorem Open.not_isFile (h : Open t d) {a : RelPath} (ha : a <+: d) (hne : a≠d) : ¬ t.IsFile a := by
  have hd : d ≠ [] := by
    rintro rfl
    exact hne (prefix_nil.mp ha)
  exact h.1 a ((prefix_dropLast_iff hd).mpr ⟨ha,hne⟩)

theorem Placed.unblocked_iff (h : Placed t t' d c) (hopen : Open t d) {ds : List RelPath}
    (hd : d ∉ ds) (hds : ∀ x∈ds, x ≠ []) : Unblocked t (d::ds) ↔ Unblocked t' ds := by
  constructor
  · intro hclear x hx
    have hxd : x≠d := fun heq => hd (heq ▸ hx)
    obtain ⟨hdir,habove⟩ := hclear x (mem_cons_of_mem _ hx)
    refine ⟨?_,fun a ha hne => ⟨fun hin => (habove a ha hne).1 (mem_cons_of_mem _ hin),?_⟩⟩
    · rw [h,if_neg hxd,if_neg]
      · exact hdir
      · rintro ⟨-,hle⟩
        exact ((hclear d mem_cons_self).2 x hle hxd).1 (mem_cons_of_mem _ hx)
    · rintro ⟨c',hc'⟩
      rw [h] at hc'
      split_ifs at hc' with had hup
      · exact (habove a ha hne).1 (had ▸ mem_cons_self)
      · cases hc'
      · exact (habove a ha hne).2 ⟨c',hc'⟩
  · intro hclear x hx
    rcases mem_cons.mp hx with rfl | hx
    · refine ⟨hopen.2,fun a ha hne => ⟨?_,hopen.not_isFile ha hne⟩⟩
      rintro (_ | ⟨_,hin⟩)
      · exact hne rfl
      · refine (hclear a hin).1 ?_
        rw [h,if_neg hne,if_pos ⟨hds a hin,ha⟩]
    · have hxd : x≠d := fun heq => hd (heq ▸ hx)
      obtain ⟨hdir,habove⟩ := hclear x hx
      refine ⟨fun hsome => hdir ?_,fun a ha hne => ⟨?_,fun hfile => (habove a ha hne).2 ?_⟩⟩
      · rw [h,if_neg hxd,hsome,ite_self]
      · rintro (_ | ⟨_,hin⟩)
        · exact (habove d ha hne).2 ⟨c,by rw [h,if_pos rfl]⟩
        · exact (habove a ha hne).1 hin
      · by_cases had : a=d
        · exact ⟨c,by rw [h,if_pos had]⟩
        · obtain ⟨c',hc'⟩ := hfile
          refine ⟨c',?_⟩
          rw [h,if_neg had,if_neg,hc']
          rintro ⟨-,hle⟩
          exact hopen.not_isFile hle had ⟨c',hc'⟩

theorem copyFiles_ok_iff (h : Copies snap l) :
    (copyFiles snap t l).2 = .ok () ↔ Unblocked t (destinations l) := by
  induction l generalizing t with
  | nil => exact iff_of_true rfl (by simp [Unblocked,destinations])
  | cons e l ih =>
    obtain ⟨c,hsrc⟩ := h.files e mem_cons_self
    have hds : ∀ x ∈ destinations l, x ≠ [] := by
      intro x hx
      obtain ⟨f,hf,rfl⟩ := mem_map.mp hx
      exact destination_ne_nil (h.tail.named f hf)
    rcases copyFiles_cons h hsrc (t := t) with ⟨hopen,t',heq,hplaced⟩ | ⟨hblocked,t',err,heq,-⟩
    · rw [heq,ih h.tail]
      exact (hplaced.unblocked_iff hopen h.notMem hds).symm
    · rw [heq]
      refine iff_of_false (by simp) fun hclear => hblocked ?_
      obtain ⟨hdir,habove⟩ := hclear (destination e.1) mem_cons_self
      refine ⟨fun a ha => ?_,hdir⟩
      have hd := destination_ne_nil (h.named e mem_cons_self)
      obtain ⟨hle,hne⟩ := (prefix_dropLast_iff hd).mp ha
      exact (habove a hle hne).2

variable {x : Entry (List UInt8)}

theorem Placed.keeps (h : Placed t t' d c) (hopen : Open t d)
    (hx : t.entry q = some x) (hq : q≠d) : t'.entry q = some x := by
  rw [h,if_neg hq]
  split_ifs with hup
  · cases x with
    | dir => rfl
    | file c' => exact absurd ⟨c',hx⟩ (hopen.not_isFile hup.2 hq)
  · exact hx

/-- Whether or not all copies are made, an entry stays unless a file is copied over a file. -/
theorem copyFiles_frame (h : Copies snap l) (hx : t.entry q = some x) :
    (copyFiles snap t l).1.entry q = some x ∨
      ∃ e∈l, q = destination e.1 ∧ x≠.dir ∧ (copyFiles snap t l).1.entry q = snap.entry e.2 := by
  induction l generalizing t x with
  | nil => exact .inl hx
  | cons e l ih =>
    obtain ⟨c,hsrc⟩ := h.files e mem_cons_self
    rcases copyFiles_cons h hsrc (t := t) with ⟨hopen,t',heq,hplaced⟩ | ⟨-,t',err,heq,hsame⟩
    · rw [heq]
      by_cases hq : q = destination e.1
      · have hnew : t'.entry q = some (.file c) := by rw [hplaced,if_pos hq]
        refine .inr ⟨e,mem_cons_self,hq,?_,?_⟩
        · rintro rfl
          exact hopen.2 (hq ▸ hx)
        · rcases ih h.tail hnew with hkept | ⟨f,hf,hfq,-⟩
          · rw [hkept,hsrc]
          · exact absurd (mem_map.mpr ⟨f,hf,hfq.symm.trans hq⟩) h.notMem
      · refine (ih h.tail (hplaced.keeps hopen hx hq)).imp_right ?_
        rintro ⟨f,hf,hrest⟩
        exact ⟨f,mem_cons_of_mem _ hf,hrest⟩
    · rw [heq]
      exact .inl ((hsame q).trans hx)

theorem copyFiles_keeps (h : Copies snap l) (hx : t.entry q = some x)
    (hq : q ∉ destinations l) : (copyFiles snap t l).1.entry q = some x := by
  refine (copyFiles_frame h hx).resolve_right ?_
  rintro ⟨e,he,heq,-⟩
  exact hq (mem_map.mpr ⟨e,he,heq.symm⟩)

theorem isFile_of_copyFiles (h : Copies snap l) (hfile : (copyFiles snap t l).1.IsFile q)
    (hq : q ∉ destinations l) : t.IsFile q := by
  induction l generalizing t with
  | nil => exact hfile
  | cons e l ih =>
    obtain ⟨c,hsrc⟩ := h.files e mem_cons_self
    rcases copyFiles_cons h hsrc (t := t) with ⟨hopen,t',heq,hplaced⟩ | ⟨-,t',err,heq,hsame⟩
    · rw [heq] at hfile
      obtain ⟨c',hc'⟩ := ih h.tail hfile fun hin => hq (mem_cons_of_mem _ hin)
      have hne : q ≠ destination e.1 := by
        rintro rfl
        exact hq mem_cons_self
      rw [hplaced,if_neg hne] at hc'
      split_ifs at hc' with hup
      · cases hc'
      · exact ⟨c',hc'⟩
    · rw [heq,FileTree.IsFile,hsame] at hfile
      exact hfile

theorem copyFiles_new (h : Copies snap l) (hq : (copyFiles snap t l).1.entry q ≠ none) :
    t.entry q ≠ none ∨ ∃ x ∈ destinations l, q <+: x := by
  induction l generalizing t with
  | nil => exact .inl hq
  | cons e l ih =>
    obtain ⟨c,hsrc⟩ := h.files e mem_cons_self
    rcases copyFiles_cons h hsrc (t := t) with ⟨-,t',heq,hplaced⟩ | ⟨-,t',err,heq,hsame⟩
    · rw [heq] at hq
      rcases ih h.tail hq with hthere | ⟨x,hx,hle⟩
      · rw [hplaced] at hthere
        split_ifs at hthere with hself hup
        · exact .inr ⟨_,mem_cons_self,hself ▸ prefix_refl _⟩
        · exact .inr ⟨_,mem_cons_self,hup.2⟩
        · exact .inl hthere
      · exact .inr ⟨x,mem_cons_of_mem _ hx,hle⟩
    · rw [heq,hsame] at hq
      exact .inl hq

theorem copyFiles_written (h : Copies snap l) (hok : (copyFiles snap t l).2 = .ok ()) (he : e∈l) :
    (copyFiles snap t l).1.entry (destination e.1) = snap.entry e.2 := by
  induction l generalizing t with
  | nil => cases he
  | cons f l ih =>
    obtain ⟨c,hsrc⟩ := h.files f mem_cons_self
    rcases copyFiles_cons h hsrc (t := t) with ⟨hopen,t',heq,hplaced⟩ | ⟨-,t',err,heq,-⟩
    · rw [heq] at hok ⊢
      rcases mem_cons.mp he with rfl | he
      · rw [hsrc]
        exact copyFiles_keeps h.tail (by rw [hplaced,if_pos rfl]) h.notMem
      · exact ih h.tail hok he
    · rw [heq] at hok
      cases hok

end Copying

section Cleaning

def HollowIn (t : Tree) (dirs : List RelPath) (p : RelPath) : Prop :=
  t.entry p ≠ none ∧ ∀ q, p <+: q → t.entry q ≠ none → q∈dirs ∧ t.entry q = some .dir

open Classical in
theorem foldl_removeDir_entry (dirs : List RelPath)
    (hpair : dirs.Pairwise fun p q => ¬ p <+: q) (q : RelPath) :
    (dirs.foldl (fun t dir => t.removeDir dir) t).entry q =
      if HollowIn t dirs q then none else t.entry q := by
  induction dirs generalizing t with
  | nil =>
    rw [if_neg]
    · rfl
    · rintro ⟨hsome,h⟩
      exact absurd (h q (prefix_refl q) hsome).1 not_mem_nil
  | cons d dirs ih =>
    obtain ⟨hlater,hrest⟩ := pairwise_cons.mp hpair
    rw [foldl_cons,ih hrest]
    have hentry := FileTree.removeDir_entry t d
    by_cases hrem : t.entry d = some .dir ∧ t.Leaf d
    · by_cases hq : q=d
      · -- `d` itself is gone
        have hhollow : HollowIn t (d::dirs) q := by
          refine ⟨by rw [hq,hrem.1]; simp,fun r hr hsome => ?_⟩
          have hrd : r=d := by
            by_contra hne
            exact hsome (hrem.2 r (hq ▸ hr) hne)
          exact ⟨hrd ▸ mem_cons_self,hrd ▸ hrem.1⟩
        have hgone : (t.removeDir d).entry q = none := by rw [hentry,if_pos ⟨hq,hrem⟩]
        rw [if_pos hhollow,hgone,ite_self]
      · have hne : ∀ r, r≠d → (t.removeDir d).entry r = t.entry r := by
          intro r hr
          rw [hentry,if_neg fun h => hr h.1]
        have hiff : HollowIn (t.removeDir d) dirs q ↔ HollowIn t (d::dirs) q := by
          unfold HollowIn
          rw [hne q hq]
          refine and_congr_right fun _ => ⟨fun h r hr hsome => ?_,fun h r hr hsome => ?_⟩
          · by_cases hrd : r=d
            · exact ⟨hrd ▸ mem_cons_self,hrd ▸ hrem.1⟩
            · rw [← hne r hrd] at hsome ⊢
              obtain ⟨hin,hdir⟩ := h r hr hsome
              exact ⟨mem_cons_of_mem _ hin,hdir⟩
          · have hrd : r≠d := by
              rintro rfl
              rw [hentry,if_pos ⟨rfl,hrem⟩] at hsome
              exact hsome rfl
            rw [hne r hrd] at hsome ⊢
            obtain ⟨hin,hdir⟩ := h r hr hsome
            exact ⟨(mem_cons.mp hin).resolve_left hrd,hdir⟩
        rw [if_congr hiff rfl rfl,hne q hq]
    · have hsame : ∀ r, (t.removeDir d).entry r = t.entry r := by
        intro r
        rw [hentry,if_neg fun h => hrem h.2]
      -- whatever is hollow is not above `d`, which would then have been empty
      have habove : HollowIn t (d::dirs) q → ¬ q <+: d ∨ t.entry d = none := by
        rintro ⟨hsome,h⟩
        by_contra hcontra
        push Not at hcontra
        obtain ⟨hle,hd⟩ := hcontra
        refine hrem ⟨(h d hle hd).2,fun r hr hne => ?_⟩
        by_contra hr'
        have hin := (mem_cons.mp (h r (hle.trans hr) hr').1).resolve_left hne
        exact hlater r hin hr
      have hiff : HollowIn (t.removeDir d) dirs q ↔ HollowIn t (d::dirs) q := by
        constructor
        · rintro ⟨hsome,h⟩
          simp only [hsame] at hsome h
          exact ⟨hsome,fun r hr hr' => ⟨mem_cons_of_mem _ (h r hr hr').1,(h r hr hr').2⟩⟩
        · intro hhollow
          refine ⟨by rw [hsame]; exact hhollow.1,fun r hr hr' => ?_⟩
          rw [hsame] at hr' ⊢
          obtain ⟨hin,hdir⟩ := hhollow.2 r hr hr'
          refine ⟨(mem_cons.mp hin).resolve_left ?_,hdir⟩
          rintro rfl
          exact (habove hhollow).elim (· hr) hr'
      rw [if_congr hiff rfl rfl,hsame]

def Hollow (env : WalkEnv) (t : Tree) (p : RelPath) : Prop :=
  t.entry p ≠ none ∧
    ∀ q, p <+: q → t.entry q ≠ none → t.entry q = some .dir ∧ reservedName env q = false

open Classical in
theorem cleanEmptyDirs_entry (orders : Orders) (q : RelPath) :
    (cleanEmptyDirs env orders t).entry q = if Hollow env t q then none else t.entry q := by
  have hpair := (orders.contents_before t.paths t.nodup).filter fun p =>
    !reservedName env p && decide (t.entry p = some .dir)
  rw [cleanEmptyDirs,foldl_removeDir_entry _ hpair]
  refine if_congr (and_congr_right fun _ => forall_congr' fun r => ?_) rfl rfl
  refine imp_congr_right fun _ => imp_congr_right fun hr => ?_
  have hmem : r ∈ orders.contentsFirst t.paths :=
    (orders.contentsFirst_perm t.paths).mem_iff.mpr ((t.listed r).mpr hr)
  rw [mem_filter,Bool.and_eq_true,Bool.not_eq_true',decide_eq_true_eq]
  tauto

theorem cleanEmptyDirs_isFile (orders : Orders) {c : List UInt8} :
    (cleanEmptyDirs env orders t).entry q = some (.file c) ↔ t.entry q = some (.file c) := by
  rw [cleanEmptyDirs_entry]
  split_ifs with hhollow
  · refine iff_of_false (by simp) fun hfile => ?_
    have hdir := (hhollow.2 q (prefix_refl q) hhollow.1).1
    rw [hfile] at hdir
    cases hdir
  · rfl

end Cleaning

section Whole

def cleared (env : WalkEnv) (orders : Orders) (snap t : Tree) : Tree :=
  removeStale (collectRelativePaths env t snap) t (orders.hash (collectWorkspacePaths env t))

def copied (env : WalkEnv) (orders : Orders) (snap t : Tree) : Tree × Except RestoreError Unit :=
  copyFiles snap (cleared env orders snap t) (orders.hash (collectRelativePaths env t snap))

theorem copies_hash (env : WalkEnv) (orders : Orders) (snap t : Tree) :
    Copies snap (orders.hash (collectRelativePaths env t snap)) := by
  have hperm := orders.hash_perm (collectRelativePaths env t snap)
  refine ⟨(hperm.map Prod.fst).nodup_iff.mpr (keyed_nodup env _),fun e he => ?_,fun e he => ?_⟩
  · exact (mem_collectRelativePaths (hperm.subset he)).1
  · exact (mem_collectRelativePaths (hperm.subset he)).2.2.2

variable {orders : Orders}

theorem restoreWorkspace_ok (h : (copied env orders snap t).2 = .ok ()) :
    restoreWorkspace env orders snap t =
      (cleanEmptyDirs env orders (copied env orders snap t).1, .ok ()) := by
  rw [restoreWorkspace]
  rw [copied,cleared] at h ⊢
  generalize copyFiles snap _ _ = result at h ⊢
  obtain ⟨t',outcome⟩ := result
  cases h
  rfl

theorem restoreWorkspace_error (h : (copied env orders snap t).2 ≠ .ok ()) :
    restoreWorkspace env orders snap t = copied env orders snap t := by
  rw [restoreWorkspace]
  rw [copied,cleared] at h ⊢
  generalize copyFiles snap _ _ = result at h ⊢
  obtain ⟨t',outcome⟩ := result
  cases outcome with
  | ok => exact absurd rfl h
  | error e => rfl

theorem cleared_cases (env : WalkEnv) (orders : Orders) (snap t : Tree) (q : RelPath) :
    (cleared env orders snap t).entry q = t.entry q ∨
      t.IsFile q ∧ (cleared env orders snap t).entry q = none := by
  by_cases h : Stale (collectRelativePaths env t snap)
      (orders.hash (collectWorkspacePaths env t)) q ∧ t.IsFile q
  · exact .inr ⟨h.2,removeStale_none _ h.1 h.2⟩
  · exact .inl (removeStale_entry _ fun hstale hfile => h ⟨hstale,hfile⟩)

theorem cleared_dir_iff : (cleared env orders snap t).entry q = some .dir ↔ t.entry q = some .dir := by
  rcases cleared_cases env orders snap t q with h | ⟨hfile,h⟩
  · rw [h]
  · rw [h]
    exact iff_of_false (by simp) hfile.ne_dir

theorem cleared_excluded (h : env.visible t q = false) :
    (cleared env orders snap t).entry q = t.entry q := by
  refine removeStale_entry _ ?_
  rintro ⟨e,he,rfl,-⟩ -
  have hvis := (mem_collectWorkspacePaths ((orders.hash_perm _).subset he)).2.1
  rw [h] at hvis
  cases hvis

theorem restoreWorkspace_file {c : List UInt8} :
    (restoreWorkspace env orders snap t).1.entry q = some (.file c) ↔
      (copied env orders snap t).1.entry q = some (.file c) := by
  by_cases h : (copied env orders snap t).2 = .ok ()
  · rw [restoreWorkspace_ok h,cleanEmptyDirs_isFile]
  · rw [restoreWorkspace_error h]

end Whole

end Daimonos.Snapshot
