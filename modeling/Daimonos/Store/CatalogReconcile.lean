import Daimonos.Store.SummaryScan

namespace Daimonos.Store

open Framework Providers Session List SessionStore

/-- The directory a daemon serves, and how paths resolve. -/
structure Workspace where
  path : String
  canonicalize : String → Option String

namespace Workspace

def contains (w : Workspace) (summary : SessionSummary) : Bool :=
  (summary.cwd.bind w.canonicalize).any fun cwd => decide (cwd=w.path)

def resolves (w : Workspace) (summary : SessionSummary) : Bool :=
  summary.cwd.all fun cwd => (w.canonicalize cwd).isSome

def scanPersistedSummaries (maxPreviewBytes : Nat) (afterName : Option String) (maxEntries : Nat)
    (s : SessionStore) (w : Workspace) : SessionSummaryScan :=
  let scan := s.scanSummaries maxPreviewBytes afterName maxEntries false false
  { scan with
    summaries := scan.summaries.filter w.contains
    complete := scan.complete && scan.summaries.all w.resolves }

end Workspace

def persistedIdIsMissing (s : SessionStore) (id : String) : Bool :=
  match s.loadResult id with
  | .error .notFound | .error .unsafeId => true
  | _ => false

def stripTag (tag name : String) : Option String :=
  (tag.toList.isPrefixOf? name.toList).map String.ofList

structure Catalog where
  complete : Bool
  cursor : Option String
  ids : List String

namespace Catalog

def fresh : Catalog := { complete := false, cursor := none, ids := [] }

def idsAfter (after : String) (limit : Nat) (c : Catalog) : List String :=
  ((c.ids.filter fun id => decide (after < id)).insertionSort fun x y => x≤y).take limit

/-- An authoritative observation overwrites whatever the catalog holds about an id. -/
def observe (id : String) (ids : List String) : List String := if id∈ids then ids else ids ++ [id]

/-- One pass of the reconciler: first the store is walked page by page, then the catalog, for ids
that are gone. -/
def reconcileOnce (maxPreviewBytes reconcileEntries : Nat) (s : SessionStore) (w : Workspace)
    (c : Catalog) : Catalog :=
  let cursor := c.cursor.getD ""
  match stripTag "ghost:" cursor with
  | some afterId =>
    let ids := c.idsAfter afterId reconcileEntries
    let missing := ids.filter (persistedIdIsMissing s)
    let kept := c.ids.filter fun id => decide (id ∉ missing)
    if ids.length < reconcileEntries then { complete := true, cursor := none, ids := kept }
    else
      match ids.getLast? with
      | some last => { complete := false, cursor := some ("ghost:" ++ last), ids := kept }
      | none => { c with ids := kept }
  | none =>
    let afterName := (stripTag "dir:" cursor).filter fun name => decide (name ≠ "")
    let scan := w.scanPersistedSummaries maxPreviewBytes afterName reconcileEntries s
    { complete := false
      cursor :=
        if scan.complete then some "ghost:" else scan.nextCursor.map fun next => "dir:" ++ next
      ids := scan.summaries.foldl (fun ids summary => observe summary.id ids) c.ids }

def reconcile (maxPreviewBytes reconcileEntries : Nat) (s : SessionStore) (w : Workspace)
    (passes : Nat) : Catalog :=
  (reconcileOnce maxPreviewBytes reconcileEntries s w)^[passes] fresh

def AtCursor (c : Catalog) (cursor : Option String) : Prop :=
  stripTag "ghost:" (c.cursor.getD "") = none ∧
  (stripTag "dir:" (c.cursor.getD "")).filter (fun name => decide (name ≠ "")) = cursor

end Catalog

theorem stripTag_append (tag name : String) : stripTag tag (tag++name) = some name := by
  have hmatch : tag.toList.isPrefixOf? (tag++name).toList = some name.toList :=
    isPrefixOf?_eq_some_iff_append_eq.mpr String.toList_append.symm
  rw [stripTag,hmatch,Option.map_some,String.ofList_toList]

theorem stripTag_ghost_dir (name : String) : stripTag "ghost:" ("dir:" ++ name) = none := by
  rw [stripTag,String.toList_append]
  rfl

namespace Catalog

variable (maxPreviewBytes reconcileEntries : Nat) (s : SessionStore) (w : Workspace)

variable {c : Catalog}

theorem atCursor_of_none (h : c.cursor=none) : c.AtCursor none := by
  rw [AtCursor,h]
  exact ⟨rfl,rfl⟩

theorem atCursor_of_dir {next : String} (h : c.cursor = some ("dir:" ++ next)) :
    c.AtCursor (if next = "" then none else some next) := by
  rw [AtCursor,h,Option.getD_some]
  refine ⟨stripTag_ghost_dir next,?_⟩
  rw [stripTag_append]
  by_cases hempty : next = "" <;> simp [hempty]

variable {cursor : Option String}

theorem atCursor_unique {cursor' : Option String} (h : c.AtCursor cursor)
    (h' : c.AtCursor cursor') : cursor=cursor' := h.2.symm.trans h'.2

theorem not_atCursor_of_ghost {after : String} (h : c.cursor = some ("ghost:" ++ after))
    (cursor : Option String) : ¬ c.AtCursor cursor := by
  intro hat
  have hnone := hat.1
  rw [h,Option.getD_some,stripTag_append] at hnone
  cases hnone

theorem mem_foldl_observe {summaries : List SessionSummary} {ids : List String} {id : String} :
    id ∈ summaries.foldl (fun ids summary => observe summary.id ids) ids ↔
      id∈ids ∨ ∃ summary∈summaries, summary.id=id := by
  induction summaries generalizing ids with
  | nil => simp
  | cons summary rest ih =>
    have hobserve : id ∈ observe summary.id ids ↔ id∈ids ∨ summary.id=id := by
      unfold observe
      split_ifs with hmem
      · exact ⟨Or.inl,fun h => h.elim (fun h => h) fun h => h ▸ hmem⟩
      · rw [mem_append,mem_singleton,eq_comm]
    rw [foldl_cons,ih,hobserve,or_assoc]
    simp only [mem_cons,exists_eq_or_imp]

theorem reconcileOnce_page (h : c.AtCursor cursor) :
    (c.reconcileOnce maxPreviewBytes reconcileEntries s w).cursor =
      (if (w.scanPersistedSummaries maxPreviewBytes cursor reconcileEntries s).complete then
        some "ghost:"
      else (s.scanSummaries maxPreviewBytes cursor reconcileEntries false false).nextCursor.map
        fun next => "dir:" ++ next) ∧
    ∀ id, id ∈ (c.reconcileOnce maxPreviewBytes reconcileEntries s w).ids ↔
      id∈c.ids ∨ ∃ summary ∈
        (s.scanSummaries maxPreviewBytes cursor reconcileEntries false false).summaries,
        w.contains summary = true ∧ summary.id=id := by
  obtain ⟨hghost,hdir⟩ := h
  unfold reconcileOnce
  dsimp only
  rw [hghost]
  rw [hdir]
  refine ⟨rfl,fun id => ?_⟩
  rw [mem_foldl_observe]
  simp only [Workspace.scanPersistedSummaries,mem_filter,and_assoc]

theorem listed_of_scanPages {fuel : Nat} (h : c.AtCursor cursor) {summary : SessionSummary}
    (hmem : summary ∈ (s.scanPages maxPreviewBytes reconcileEntries fuel cursor).1)
    (hin : w.contains summary = true) :
    ∃ passes, summary.id ∈
      ((reconcileOnce maxPreviewBytes reconcileEntries s w)^[passes] c).ids := by
  induction fuel generalizing cursor c with
  | zero => cases hmem
  | succ fuel ih =>
    obtain ⟨hcursor,hids⟩ := reconcileOnce_page maxPreviewBytes reconcileEntries s w h
    have hpage : summary ∈
        (s.scanSummaries maxPreviewBytes cursor reconcileEntries false false).summaries →
        ∃ passes, summary.id ∈
          ((reconcileOnce maxPreviewBytes reconcileEntries s w)^[passes] c).ids :=
      fun hsummary => ⟨1,(hids summary.id).mpr (Or.inr ⟨summary,hsummary,hin,rfl⟩)⟩
    rw [scanPages] at hmem
    cases hnext : (s.scanSummaries maxPreviewBytes cursor reconcileEntries false false).nextCursor with
    | none =>
      rw [hnext] at hmem
      exact hpage hmem
    | some next =>
      obtain ⟨hcomplete,hvalid⟩ := of_nextCursor hnext
      rw [hnext] at hmem
      rcases mem_append.mp hmem with hhere | hlater
      · exact hpage hhere
      · have hincomplete :
            (w.scanPersistedSummaries maxPreviewBytes cursor reconcileEntries s).complete = false := by
          rw [Workspace.scanPersistedSummaries]
          rw [hcomplete,Bool.false_and]
        rw [hincomplete,hnext] at hcursor
        have hne : next ≠ "" := by
          intro hempty
          rw [hempty] at hvalid
          exact absurd hvalid (by decide)
        have hat := atCursor_of_dir hcursor
        rw [if_neg hne] at hat
        obtain ⟨passes,hlisted⟩ := ih hat hlater
        exact ⟨passes+1,hlisted⟩

/-- The catalog lists nothing but sessions that the pages return, and goes on where they do. -/
structure Sound (c : Catalog) : Prop where
  listed : ∀ id∈c.ids, ∃ summary ∈ s.scanned maxPreviewBytes reconcileEntries,
    w.contains summary = true ∧ summary.id=id
  ahead : ∀ cursor, c.AtCursor cursor → ∀ fuel,
    ∀ summary ∈ (s.scanPages maxPreviewBytes reconcileEntries fuel cursor).1,
      summary ∈ s.scanned maxPreviewBytes reconcileEntries

variable {maxPreviewBytes reconcileEntries : Nat} {s : SessionStore} {w : Workspace}

theorem ahead_of_none (h : c.cursor=none) (cursor : Option String)
    (hat : c.AtCursor cursor) (fuel : Nat) : ∀ summary ∈
      (s.scanPages maxPreviewBytes reconcileEntries fuel cursor).1,
      summary ∈ s.scanned maxPreviewBytes reconcileEntries := by
  obtain rfl := atCursor_unique (atCursor_of_none h) hat
  exact fun summary hmem => mem_scanned_iff.mpr ⟨fuel,hmem⟩

theorem sound_fresh : Sound maxPreviewBytes reconcileEntries s w fresh :=
  ⟨fun _ h => (by cases h),ahead_of_none rfl⟩

theorem Sound.page (h : Sound maxPreviewBytes reconcileEntries s w c) (hat : c.AtCursor cursor) :
    Sound maxPreviewBytes reconcileEntries s w
      (c.reconcileOnce maxPreviewBytes reconcileEntries s w) := by
  obtain ⟨hcursor,hids⟩ := reconcileOnce_page maxPreviewBytes reconcileEntries s w hat
  have hahead := h.ahead cursor hat
  refine ⟨fun id hid => ?_,?_⟩
  · rcases (hids id).mp hid with hold | ⟨summary,hsummary,hin,rfl⟩
    · exact h.listed id hold
    · refine ⟨summary,hahead 1 summary ?_,hin,rfl⟩
      rw [scanPages]
      split
      · exact hsummary
      · exact mem_append_left _ hsummary
  · split_ifs at hcursor with hcomplete
    · have hghost : (c.reconcileOnce maxPreviewBytes reconcileEntries s w).cursor =
          some ("ghost:" ++ "") := by
        rw [hcursor,String.append_empty]
      exact fun cursor' hat' => absurd hat' (not_atCursor_of_ghost hghost cursor')
    · cases hnext : (s.scanSummaries maxPreviewBytes cursor reconcileEntries false false).nextCursor with
      | none =>
        rw [hnext] at hcursor
        exact ahead_of_none hcursor
      | some next =>
        rw [hnext] at hcursor
        intro cursor' hat' fuel summary hmem
        obtain rfl := atCursor_unique (atCursor_of_dir hcursor) hat'
        split_ifs at hmem with hempty
        · exact mem_scanned_iff.mpr ⟨fuel,hmem⟩
        · refine hahead (fuel+1) summary ?_
          rw [scanPages]
          rw [hnext]
          exact mem_append_right _ hmem

theorem Sound.once (h : Sound maxPreviewBytes reconcileEntries s w c) :
    Sound maxPreviewBytes reconcileEntries s w
      (c.reconcileOnce maxPreviewBytes reconcileEntries s w) := by
  cases hghost : stripTag "ghost:" (c.cursor.getD "") with
  | none => exact h.page ⟨hghost,rfl⟩
  | some after =>
    unfold reconcileOnce
    dsimp only
    rw [hghost]
    dsimp only
    split_ifs with hend
    · exact ⟨fun id hid => h.listed id (mem_of_mem_filter hid),ahead_of_none rfl⟩
    · split
      · exact ⟨fun id hid => h.listed id (mem_of_mem_filter hid),
          fun cursor hat => absurd hat (not_atCursor_of_ghost rfl cursor)⟩
      · refine ⟨fun id hid => h.listed id (mem_of_mem_filter hid),fun cursor hat => ?_⟩
        have hnone : stripTag "ghost:" (c.cursor.getD "") = none := hat.1
        rw [hghost] at hnone
        cases hnone

theorem sound_reconcile (passes : Nat) :
    Sound maxPreviewBytes reconcileEntries s w
      (reconcile maxPreviewBytes reconcileEntries s w passes) := by
  induction passes with
  | zero => exact sound_fresh
  | succ passes ih =>
    rw [reconcile,Function.iterate_succ_apply']
    exact ih.once

/-- What the catalog ever lists are the workspace's sessions that the pages return. -/
theorem listed_iff (id : String) :
    (∃ passes, id ∈ (reconcile maxPreviewBytes reconcileEntries s w passes).ids) ↔
      ∃ summary ∈ s.scanned maxPreviewBytes reconcileEntries,
        w.contains summary = true ∧ summary.id=id := by
  constructor
  · intro h
    obtain ⟨passes,hid⟩ := h
    exact (sound_reconcile passes).listed id hid
  · intro h
    obtain ⟨summary,hmem,hin,rfl⟩ := h
    obtain ⟨fuel,hpages⟩ := mem_scanned_iff.mp hmem
    exact listed_of_scanPages maxPreviewBytes reconcileEntries s w (atCursor_of_none rfl) hpages hin

end Catalog

namespace SessionStore

/-- Paging through the store returns every session that can be decoded, once. -/
def ReturnsAll (maxPreviewBytes maxEntries : Nat) (s : SessionStore) : Prop :=
  ∀ fuel, s.sessions.sorted.length<fuel →
    ((s.scanPages maxPreviewBytes maxEntries fuel none).1).Perm (s.decodableSummaries maxPreviewBytes)

/-- The reconciler lists every decodable session of its workspace sooner or later. -/
def DiscoversAll (maxPreviewBytes maxEntries : Nat) (w : Workspace) (s : SessionStore) : Prop :=
  ∀ summary ∈ s.decodableSummaries maxPreviewBytes, w.contains summary = true →
    ∃ passes, summary.id ∈ (Catalog.reconcile maxPreviewBytes maxEntries s w passes).ids

/-- The whole contract of the scan. -/
structure ScansExactly (maxPreviewBytes maxEntries : Nat) (w : Workspace) (s : SessionStore) :
    Prop where
  returned : s.ReturnsAll maxPreviewBytes maxEntries
  complete : ∀ fuel, s.sessions.sorted.length<fuel →
    (s.scanPages maxPreviewBytes maxEntries fuel none).2 = true
  discovered : s.DiscoversAll maxPreviewBytes maxEntries w

theorem returnsAll_iff (maxPreviewBytes maxEntries : Nat) (s : SessionStore) :
    s.ReturnsAll maxPreviewBytes maxEntries ↔
      ∀ e ∈ s.sessions.sorted.drop (s.scanReach maxPreviewBytes maxEntries),
        decode maxPreviewBytes e = none := by
  rw [← scanned_perm_iff]
  constructor
  · intro h
    exact (s.scanPages_eq maxPreviewBytes maxEntries (Nat.lt_succ_self _)).1.symm.trans
      (h _ (Nat.lt_succ_self _))
  · intro h fuel hfuel
    exact (s.scanPages_eq maxPreviewBytes maxEntries hfuel).1.trans h

theorem discoversAll_iff (maxPreviewBytes maxEntries : Nat) (w : Workspace) (s : SessionStore) :
    s.DiscoversAll maxPreviewBytes maxEntries w ↔
      ∀ e ∈ s.sessions.sorted.drop (s.scanReach maxPreviewBytes maxEntries),
        ∀ summary, decode maxPreviewBytes e = some summary → w.contains summary = false := by
  have hsplit := take_append_drop (s.scanReach maxPreviewBytes maxEntries) s.sessions.sorted
  constructor
  · intro h e he summary hdecode
    by_contra hin
    rw [Bool.not_eq_false] at hin
    have hsorted : e∈s.sessions.sorted := mem_of_mem_drop he
    have hmem : summary ∈ s.decodableSummaries maxPreviewBytes :=
      reduceOption_mem_iff.mpr (mem_map.mpr ⟨e,hsorted,hdecode⟩)
    obtain ⟨summary',hscanned,-,hid⟩ := (Catalog.listed_iff _).mp (h summary hmem hin)
    obtain ⟨e',he',hdecode'⟩ := mem_map.mp (reduceOption_mem_iff.mp hscanned)
    -- the two rows would have one key, but one stands before the other
    have hkey : e'.1=e.1 := by
      rw [← id_of_decode (mem_of_mem_take he') hdecode',hid,id_of_decode hsorted hdecode]
    have hincreasing := s.sessions.sorted_increasing
    rw [← hsplit,pairwise_append] at hincreasing
    exact absurd hkey (ne_of_lt (hincreasing.2.2 e' he' e he))
  · intro h summary hmem hin
    obtain ⟨e,he,hdecode⟩ := mem_map.mp (reduceOption_mem_iff.mp hmem)
    rw [← hsplit] at he
    rcases mem_append.mp he with htake | hdrop
    · exact (Catalog.listed_iff _).mpr ⟨summary,
        reduceOption_mem_iff.mpr (mem_map.mpr ⟨e,htake,hdecode⟩),hin,rfl⟩
    · rw [h e hdrop summary hdecode] at hin
      cases hin

/-- A row that cannot be decoded ends the scan: the contract holds exactly when there is none. Of its
parts, the pages return every decodable session exactly when none lies beyond the rows they cover,
and the reconciler discovers every one of its workspace exactly when none of those does. -/
theorem scansExactly_iff (maxPreviewBytes maxEntries : Nat) (w : Workspace) (s : SessionStore) :
    (s.ScansExactly maxPreviewBytes maxEntries w ↔
      ∀ e∈s.sessions.sorted, (decode maxPreviewBytes e).isSome = true) ∧
    (s.ReturnsAll maxPreviewBytes maxEntries ↔
      ∀ e ∈ s.sessions.sorted.drop (s.scanReach maxPreviewBytes maxEntries),
        decode maxPreviewBytes e = none) ∧
    (s.DiscoversAll maxPreviewBytes maxEntries w ↔
      ∀ e ∈ s.sessions.sorted.drop (s.scanReach maxPreviewBytes maxEntries),
        ∀ summary, decode maxPreviewBytes e = some summary → w.contains summary = false) := by
  refine ⟨?_,s.returnsAll_iff maxPreviewBytes maxEntries,
    s.discoversAll_iff maxPreviewBytes maxEntries w⟩
  have hall : (s.sessions.sorted.map (decode maxPreviewBytes)).all Option.isSome = true ↔
      ∀ e∈s.sessions.sorted, (decode maxPreviewBytes e).isSome = true := by
    simp
  constructor
  · intro h
    have hcomplete := h.complete _ (Nat.lt_succ_self _)
    rw [(s.scanPages_eq maxPreviewBytes maxEntries (Nat.lt_succ_self _)).2] at hcomplete
    exact hall.mp hcomplete
  · intro h
    have hreach : s.scanReach maxPreviewBytes maxEntries = s.sessions.sorted.length := by
      have hnone : (s.sessions.sorted.map (decode maxPreviewBytes)).findIdx? Option.isNone = none := by
        rw [findIdx?_eq_none_iff]
        intro x hx
        simpa using all_eq_true.mp (hall.mpr h) x hx
      rw [scanReach,pagesReach,hnone,length_map]
    have hnothing : s.sessions.sorted.drop (s.scanReach maxPreviewBytes maxEntries) = [] := by
      rw [hreach,drop_length]
    refine ⟨(s.returnsAll_iff maxPreviewBytes maxEntries).mpr ?_,fun fuel hfuel => ?_,
      (s.discoversAll_iff maxPreviewBytes maxEntries w).mpr ?_⟩
    · rw [hnothing]
      exact fun e he => (by cases he)
    · rw [(s.scanPages_eq maxPreviewBytes maxEntries hfuel).2]
      exact hall.mpr h
    · rw [hnothing]
      exact fun e he => (by cases he)

/-- Three sessions of one workspace, the payload of the first damaged, and pages of one entry: the
scan ends with the second session and the third is never discovered. -/
theorem scan_stopsAtCorruptRow :
    ∃ (s : SessionStore) (w : Workspace),
      (s.sessions.sorted.map fun e => (e.1, (decode 0 e).isSome)) =
        [("a", false), ("b", true), ("c", true)] ∧
      ¬ s.ScansExactly 0 1 w ∧ ¬ s.ReturnsAll 0 1 ∧ ¬ s.DiscoversAll 0 1 w := by
  have hsome : (((SessionTable.empty.put "a" ⟨1,1,.corrupt,"m",none,0,none,0⟩ (by decide)
      trivial).bind fun sessions =>
      (((SessionStore.mk sessions ∅).saveRecord "b" ⟨"m",none,[],some "/w",[],[]⟩ 0).toOption.bind
        fun saved =>
          (saved.2.saveRecord "c" ⟨"m",none,[],some "/w",[],[]⟩ 0).toOption)).filter
      fun saved =>
        decide ((saved.2.sessions.sorted.map fun e => (e.1, (decode 0 e).isSome)) =
          [("a", false), ("b", true), ("c", true)]) &&
        (saved.2.sessions.sorted.drop (saved.2.scanReach 0 1)).any fun e =>
          (decode 0 e).any fun summary =>
            Workspace.contains ⟨"/w",fun path => some path⟩ summary).isSome = true := by
    decide +kernel
  obtain ⟨⟨outcome,s⟩,hs⟩ := Option.isSome_iff_exists.mp hsome
  obtain ⟨-,hchecks⟩ := Option.filter_eq_some_iff.mp hs
  rw [Bool.and_eq_true,decide_eq_true_eq,any_eq_true] at hchecks
  obtain ⟨hrows,e,he,hin⟩ := hchecks
  cases hdecode : decode 0 e with
  | none =>
    rw [hdecode] at hin
    cases hin
  | some summary =>
    rw [hdecode] at hin
    have hlost : ¬ s.ReturnsAll 0 1 := by
      intro h
      have hnone := (returnsAll_iff 0 1 s).mp h e he
      rw [hdecode] at hnone
      cases hnone
    have hhidden : ¬ s.DiscoversAll 0 1 ⟨"/w",fun path => some path⟩ := by
      intro h
      have hout := (discoversAll_iff 0 1 _ s).mp h e he summary hdecode
      rw [Option.any_some] at hin
      rw [hin] at hout
      cases hout
    exact ⟨s,_,hrows,fun h => hlost h.returned,hlost,hhidden⟩

end SessionStore

end Daimonos.Store
