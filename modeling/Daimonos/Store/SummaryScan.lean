import Daimonos.Framework.Pages
import Daimonos.Store.SessionStore

namespace Daimonos.Store

open Framework Providers Session List

def summaryFromRow (row : SessionRow) (maxPreviewBytes : Nat) :
    Except SessionStoreError SessionSummary := do
  let record ← decodePersistedSession row.payload
  return {
    id := record.sessionId
    model := record.model
    messageCount := record.messages.length
    cwd := record.cwd
    updatedAt := some row.updatedAtUnixNs
    firstUserLine := firstUserPreview record.messages maxPreviewBytes }

def decode (maxPreviewBytes : Nat) (e : String × SessionRow) : Option SessionSummary :=
  (summaryFromRow e.2 maxPreviewBytes).toOption

structure SessionSummaryScan where
  summaries : List SessionSummary
  nextCursor : Option String
  complete : Bool

def SessionTable.sorted (t : SessionTable) : List (String × SessionRow) :=
  (t.rows.entries.map fun e => (e.1, e.2)).insertionSort fun x y => x.1≤y.1

/-- `WHERE session_id > ?1 ORDER BY session_id ASC`. -/
def SessionTable.rowsAfter (after : String) (t : SessionTable) : List (String × SessionRow) :=
  t.sorted.filter fun e => decide (after<e.1)

def stripJson (name : String) : String :=
  if ".json".toList.isSuffixOf name.toList then String.ofList (name.toList.take (name.length-5))
  else name

def olderThan : Option Nat → Option Nat → Bool
  | none, some _ => true
  | some a, some b => decide (a<b)
  | _, none => false

def listedBefore (x y : SessionSummary) : Bool :=
  olderThan y.updatedAt x.updatedAt || decide (y.updatedAt=x.updatedAt ∧ x.id≤y.id)

namespace SessionStore

/-- `expired` and `late` tell whether the deadline has passed at the start and at the end. -/
def scanSummaries (maxPreviewBytes : Nat) (afterName : Option String) (maxEntries : Nat)
    (expired late : Bool) (s : SessionStore) : SessionSummaryScan :=
  if expired then { summaries := [], nextCursor := afterName, complete := false }
  else
    let maxEntries := max maxEntries 1
    let after := (afterName.map stripJson).getD ""
    let limit := min (min (maxEntries+1) u64Max) i64Max
    let results := ((s.sessions.rowsAfter after).take limit).map (decode maxPreviewBytes)
    let rows := results.reduceOption
    let payloadComplete := results.all Option.isSome
    let hasMore := decide (rows.length > maxEntries)
    let rows := rows.take maxEntries
    let nextCursor := if hasMore then rows.getLast?.map SessionSummary.id else none
    { summaries := rows.insertionSort fun x y => listedBefore x y, nextCursor,
      complete := !hasMore && payloadComplete && !late }

/-- Call `scan_summaries` again and again, from a cursor on and with time enough, and put the pages
together. The second component is the verdict of the last page. -/
def scanPages (maxPreviewBytes maxEntries : Nat) (s : SessionStore) :
    Nat → Option String → List SessionSummary × Bool
  | 0, _ => ([], false)
  | fuel+1, cursor =>
    let scan := s.scanSummaries maxPreviewBytes cursor maxEntries false false
    match scan.nextCursor with
    | none => (scan.summaries, scan.complete)
    | some next =>
      let (rest, complete) := scanPages maxPreviewBytes maxEntries s fuel (some next)
      (scan.summaries++rest, complete)

end SessionStore

namespace SessionTable

theorem mem_sorted {t : SessionTable} {e : String × SessionRow} :
    e∈t.sorted ↔ t.get? e.1 = some e.2 := by
  rw [sorted,(perm_insertionSort _ _).mem_iff,mem_map]
  constructor
  · intro h
    obtain ⟨⟨id,row⟩,hmem,rfl⟩ := h
    exact AList.mem_lookup_iff.mpr hmem
  · intro h
    exact ⟨⟨e.1,e.2⟩,AList.mem_lookup_iff.mp h,rfl⟩

theorem sorted_increasing (t : SessionTable) : t.sorted.Pairwise fun x y => x.1<y.1 := by
  have hle : t.sorted.Pairwise fun x y => x.1≤y.1 := pairwise_insertionSort _ _
  have hne : t.sorted.Pairwise fun x y => x.1≠y.1 := by
    have hnodup : (t.sorted.map Prod.fst).Nodup := by
      refine (((perm_insertionSort _ _).map Prod.fst).nodup_iff).mpr ?_
      rw [map_map]
      exact t.rows.nodupKeys
    exact pairwise_map.mp hnodup
  exact (hle.and hne).imp fun h => lt_of_le_of_ne h.1 h.2

theorem length_sorted_le (t : SessionTable) : t.sorted.length ≤ i64Max := by
  rw [sorted,length_insertionSort,length_map]
  have hfits := t.fits
  rwa [AList.keys,List.keys,length_map] at hfits

theorem rowsAfter_increasing (after : String) (t : SessionTable) :
    (t.rowsAfter after).Pairwise fun x y => x.1<y.1 := t.sorted_increasing.filter _

theorem rowsAfter_start (t : SessionTable) : t.rowsAfter "" = t.sorted := by
  refine filter_eq_self.mpr fun e he => decide_eq_true ?_
  have hsafe := t.safe e.1 e.2 (mem_sorted.mp he)
  rw [String.lt_iff_toList_lt]
  cases hchars : e.1.toList with
  | nil =>
    rw [validId,hchars] at hsafe
    cases hsafe
  | cons c rest => exact nil_lt_cons c rest

theorem rowsAfter_of_split {t : SessionTable} {after : String} {e : String × SessionRow}
    {before behind : List (String × SessionRow)} (h : t.rowsAfter after = before++e::behind) :
    t.rowsAfter e.1 = behind := by
  have hsorted := rowsAfter_increasing after t
  have hmem : e ∈ t.rowsAfter after := by simp [h]
  have hafter : after<e.1 := of_decide_eq_true (mem_filter.mp hmem).2
  have hnarrow : t.rowsAfter e.1 = (t.rowsAfter after).filter fun x => decide (e.1<x.1) := by
    change _ = (t.sorted.filter _).filter _
    rw [filter_filter]
    refine filter_congr fun x _ => ?_
    rw [← Bool.decide_and,decide_eq_decide]
    exact ⟨fun hlt => ⟨hlt,hafter.trans hlt⟩,fun hlt => hlt.1⟩
  rw [h,pairwise_append,pairwise_cons] at hsorted
  obtain ⟨-,⟨hbehind,-⟩,hbefore⟩ := hsorted
  have hlow : before.filter (fun x => decide (e.1<x.1)) = [] := by
    rw [filter_eq_nil_iff]
    intro x hx
    rw [decide_eq_true_eq,not_lt]
    exact le_of_lt (hbefore x hx e mem_cons_self)
  have hhigh : behind.filter (fun x => decide (e.1<x.1)) = behind :=
    filter_eq_self.mpr fun x hx => decide_eq_true (hbehind x hx)
  rw [hnarrow,h,filter_append,filter_cons_of_neg (by simp),hlow,hhigh,nil_append]

end SessionTable

theorem stripJson_of_validId {id : String} (h : validId id = true) : stripJson id = id := by
  rw [stripJson,if_neg]
  intro hsuffix
  have hmem : '.' ∈ id.toList := (isSuffixOf_iff_suffix.mp hsuffix).subset (by decide)
  rw [validId,Bool.and_eq_true] at h
  exact absurd (all_eq_true.mp h.2 '.' hmem) (by decide)

theorem id_of_decode {t : SessionTable} {maxPreviewBytes : Nat} {e : String × SessionRow}
    (he : e∈t.sorted) {summary : SessionSummary} (h : decode maxPreviewBytes e = some summary) :
    summary.id=e.1 := by
  have hnamed := t.named e.1 e.2 (SessionTable.mem_sorted.mp he)
  unfold decode summaryFromRow at h
  cases hpayload : e.2.payload with
  | corrupt =>
    rw [hpayload] at h
    cases h
  | json record =>
    rw [hpayload] at h hnamed
    cases hvalid : validatePersistedSession record with
    | error error =>
      simp [decodePersistedSession,hvalid,Except.toOption,bind,Except.bind] at h
    | ok =>
      simp [decodePersistedSession,hvalid,Except.toOption,bind,Except.bind,pure,Except.pure] at h
      rw [← h]
      exact hnamed

namespace SessionStore

theorem take_limit (rows : List (String × SessionRow)) (h : rows.length ≤ i64Max)
    (maxEntries : Nat) :
    rows.take (min (min (maxEntries+1) u64Max) i64Max) = rows.take (maxEntries+1) := by
  have hlimits : i64Max≤u64Max := by decide
  rcases Nat.le_total (maxEntries+1) i64Max with hle | hge
  · rw [Nat.min_eq_left (hle.trans hlimits),Nat.min_eq_left hle]
  · have hmin : min (min (maxEntries+1) u64Max) i64Max = i64Max := by omega
    rw [hmin,take_of_length_le h,take_of_length_le (h.trans hge)]

def entriesAfter (maxPreviewBytes : Nat) (cursor : Option String) (s : SessionStore) :
    List (Option SessionSummary) :=
  (s.sessions.rowsAfter ((cursor.map stripJson).getD "")).map (decode maxPreviewBytes)

theorem length_rowsAfter_le (after : String) (s : SessionStore) :
    (s.sessions.rowsAfter after).length ≤ i64Max :=
  (length_filter_le _ _).trans s.sessions.length_sorted_le

variable (maxPreviewBytes : Nat) (s : SessionStore)

theorem scanSummaries_eq (cursor : Option String) (maxEntries : Nat) :
    s.scanSummaries maxPreviewBytes cursor maxEntries false false = let size := max maxEntries 1
      let window := (s.entriesAfter maxPreviewBytes cursor).take (size+1)
      let readable := window.reduceOption
      { summaries := (readable.take size).insertionSort fun x y => listedBefore x y
        nextCursor :=
          if readable.length > size then (readable.take size).getLast?.map SessionSummary.id else none
        complete := decide ¬ (readable.length > size) && window.all Option.isSome } := by
  unfold scanSummaries entriesAfter
  rw [if_neg Bool.false_ne_true]
  dsimp only
  rw [take_limit _ (s.length_rowsAfter_le _),map_take]
  simp only [decide_eq_true_eq,Bool.not_false,Bool.and_true,decide_not]

theorem nextCursor_of_more {maxPreviewBytes : Nat} {cursor : Option String} {size : Nat}
    {s : SessionStore} (hsize : 0 < size)
    (hmore : ((s.entriesAfter maxPreviewBytes cursor).take (size+1)).reduceOption.length > size) :
    ∃ next, (((s.entriesAfter maxPreviewBytes cursor).take (size+1)).reduceOption.take
        size).getLast?.map SessionSummary.id = some next ∧ validId next = true ∧
      s.entriesAfter maxPreviewBytes (some next) =
        (s.entriesAfter maxPreviewBytes cursor).drop size := by
  obtain ⟨hlength,-,hall,hpage⟩ := of_length_reduceOption_gt hmore
  rw [hpage]
  unfold entriesAfter at hlength hall ⊢
  generalize hafter : (cursor.map stripJson).getD "" = after at hlength hall ⊢
  generalize hrows : s.sessions.rowsAfter after = rows at hlength hall ⊢
  rw [length_map] at hlength
  -- the last row of the page
  have hlast : size-1 < rows.length := by omega
  have hsplit : rows = rows.take (size-1) ++ rows[size-1] :: rows.drop size := by
    have hdrop := drop_eq_getElem_cons hlast
    rw [Nat.sub_add_cancel hsize] at hdrop
    rw [← hdrop,take_append_drop]
  have htake : rows.take size = rows.take (size-1) ++ [rows[size-1]] := by
    have htake := take_succ_eq_append_getElem hlast
    rwa [Nat.sub_add_cancel hsize] at htake
  have hmem : rows[size-1] ∈ s.sessions.sorted := by
    have hin : rows[size-1] ∈ s.sessions.rowsAfter after := hrows ▸ getElem_mem hlast
    exact (mem_filter.mp hin).1
  generalize rows[size-1] = e at hsplit htake hmem
  rw [← map_take,htake,map_append] at hall ⊢
  obtain ⟨summary,hsummary⟩ : ∃ summary, decode maxPreviewBytes e = some summary :=
    Option.isSome_iff_exists.mp (all_eq_true.mp hall _ (by simp))
  have hsafe := s.sessions.safe e.1 e.2 (SessionTable.mem_sorted.mp hmem)
  refine ⟨e.1,?_,hsafe,?_⟩
  · rw [reduceOption_append,map_singleton,hsummary,reduceOption_singleton,
      Option.toList_some,getLast?_concat,Option.map_some,id_of_decode hmem hsummary]
  · rw [Option.map_some,Option.getD_some,stripJson_of_validId hsafe,
      SessionTable.rowsAfter_of_split (hrows.trans hsplit),map_drop]

theorem of_nextCursor {maxPreviewBytes : Nat} {cursor : Option String} {maxEntries : Nat}
    {s : SessionStore} {next : String}
    (h : (s.scanSummaries maxPreviewBytes cursor maxEntries false false).nextCursor = some next) :
    (s.scanSummaries maxPreviewBytes cursor maxEntries false false).complete = false ∧
    validId next = true := by
  have hsize : 0 < max maxEntries 1 := Nat.lt_of_lt_of_le Nat.one_pos (Nat.le_max_right _ _)
  rw [scanSummaries_eq] at h ⊢
  dsimp only at h ⊢
  split_ifs at h with hmore
  obtain ⟨next',hnext,hvalid,-⟩ := nextCursor_of_more hsize hmore
  rw [hnext] at h
  refine ⟨?_,Option.some.inj h ▸ hvalid⟩
  rw [decide_eq_false (not_not.mpr hmore),Bool.false_and]

theorem scanPages_readPages (maxEntries : Nat) (fuel : Nat) (cursor : Option String) :
    ((s.scanPages maxPreviewBytes maxEntries fuel cursor).1).Perm
      (readPages (max maxEntries 1) fuel (s.entriesAfter maxPreviewBytes cursor)).1 ∧
    (s.scanPages maxPreviewBytes maxEntries fuel cursor).2 =
      (readPages (max maxEntries 1) fuel (s.entriesAfter maxPreviewBytes cursor)).2 := by
  have hsize : 0 < max maxEntries 1 := Nat.lt_of_lt_of_le Nat.one_pos (Nat.le_max_right _ _)
  induction fuel generalizing cursor with
  | zero => exact ⟨List.Perm.refl _,rfl⟩
  | succ fuel ih =>
    rw [scanPages,scanSummaries_eq,readPages]
    dsimp only
    by_cases hmore : ((s.entriesAfter maxPreviewBytes cursor).take
        (max maxEntries 1 + 1)).reduceOption.length > max maxEntries 1
    · obtain ⟨next,hnext,-,hentries⟩ := nextCursor_of_more hsize hmore
      rw [if_pos hmore,if_pos hmore,hnext]
      obtain ⟨hperm,hcomplete⟩ := ih (some next)
      rw [hentries] at hperm hcomplete
      exact ⟨(perm_insertionSort _ _).append hperm,hcomplete⟩
    · rw [if_neg hmore,if_neg hmore]
      refine ⟨(perm_insertionSort _ _).trans ?_,?_⟩
      · rw [take_of_length_le (Nat.not_lt.mp hmore)]
      · rw [decide_eq_true hmore,Bool.true_and]

def decodableSummaries (maxPreviewBytes : Nat) (s : SessionStore) : List SessionSummary :=
  (s.sessions.sorted.map (decode maxPreviewBytes)).reduceOption

/-- How many rows the pages cover, in key order. -/
def scanReach (maxPreviewBytes maxEntries : Nat) (s : SessionStore) : Nat :=
  pagesReach (max maxEntries 1) (s.sessions.sorted.map (decode maxPreviewBytes))

def scanned (maxPreviewBytes maxEntries : Nat) (s : SessionStore) : List SessionSummary :=
  ((s.sessions.sorted.take (s.scanReach maxPreviewBytes maxEntries)).map
    (decode maxPreviewBytes)).reduceOption

theorem entriesAfter_none :
    s.entriesAfter maxPreviewBytes none = s.sessions.sorted.map (decode maxPreviewBytes) := by
  change (s.sessions.rowsAfter "").map _ = _
  rw [SessionTable.rowsAfter_start]

theorem scanPages_eq (maxPreviewBytes maxEntries : Nat) (s : SessionStore) {fuel : Nat}
    (hfuel : s.sessions.sorted.length<fuel) :
    ((s.scanPages maxPreviewBytes maxEntries fuel none).1).Perm
      (s.scanned maxPreviewBytes maxEntries) ∧
    (s.scanPages maxPreviewBytes maxEntries fuel none).2 =
      (s.sessions.sorted.map (decode maxPreviewBytes)).all Option.isSome := by
  have hsize : 0 < max maxEntries 1 := Nat.lt_of_lt_of_le Nat.one_pos (Nat.le_max_right _ _)
  obtain ⟨hperm,hcomplete⟩ := s.scanPages_readPages maxPreviewBytes maxEntries fuel none
  rw [entriesAfter_none,readPages_eq hsize fuel _ (by rwa [length_map])] at hperm hcomplete
  rw [scanned,map_take]
  exact ⟨hperm,hcomplete⟩

theorem mem_scanned_iff {maxPreviewBytes maxEntries : Nat} {s : SessionStore}
    {summary : SessionSummary} :
    summary ∈ s.scanned maxPreviewBytes maxEntries ↔
      ∃ fuel, summary ∈ (s.scanPages maxPreviewBytes maxEntries fuel none).1 := by
  constructor
  · intro h
    obtain ⟨hperm,-⟩ := s.scanPages_eq maxPreviewBytes maxEntries (Nat.lt_succ_self _)
    exact ⟨_,hperm.mem_iff.mpr h⟩
  · intro h
    obtain ⟨fuel,hmem⟩ := h
    obtain ⟨hperm,-⟩ := s.scanPages_readPages maxPreviewBytes maxEntries fuel none
    have hmore := mem_readPages_of_le (Nat.le_max_left fuel (s.sessions.sorted.length+1))
      (hperm.mem_iff.mp hmem)
    obtain ⟨hperm',-⟩ := s.scanPages_readPages maxPreviewBytes maxEntries
      (max fuel (s.sessions.sorted.length+1)) none
    have hfuel : s.sessions.sorted.length < max fuel (s.sessions.sorted.length+1) := by omega
    exact (s.scanPages_eq maxPreviewBytes maxEntries hfuel).1.mem_iff.mp (hperm'.mem_iff.mpr hmore)

theorem scanned_perm_iff (maxPreviewBytes maxEntries : Nat) (s : SessionStore) :
    (s.scanned maxPreviewBytes maxEntries).Perm (s.decodableSummaries maxPreviewBytes) ↔
      ∀ e ∈ s.sessions.sorted.drop (s.scanReach maxPreviewBytes maxEntries),
        decode maxPreviewBytes e = none := by
  have hsplit : s.decodableSummaries maxPreviewBytes = s.scanned maxPreviewBytes maxEntries ++
      ((s.sessions.sorted.drop (s.scanReach maxPreviewBytes maxEntries)).map
        (decode maxPreviewBytes)).reduceOption := by
    rw [decodableSummaries,scanned,← reduceOption_append,← map_append,take_append_drop]
  constructor
  · intro hperm e he
    have hlength := hperm.length_eq
    rw [hsplit,length_append] at hlength
    have hnil := length_eq_zero_iff.mp (Nat.left_eq_add.mp hlength)
    cases hdecode : decode maxPreviewBytes e with
    | none => rfl
    | some summary =>
      have hmem : summary ∈ ((s.sessions.sorted.drop (s.scanReach maxPreviewBytes maxEntries)).map
          (decode maxPreviewBytes)).reduceOption :=
        reduceOption_mem_iff.mpr (mem_map.mpr ⟨e,he,hdecode⟩)
      rw [hnil] at hmem
      cases hmem
  · intro hnone
    have hnil : ((s.sessions.sorted.drop (s.scanReach maxPreviewBytes maxEntries)).map
        (decode maxPreviewBytes)).reduceOption = [] := by
      rw [eq_nil_iff_forall_not_mem]
      intro summary hmem
      obtain ⟨e,he,hdecode⟩ := mem_map.mp (reduceOption_mem_iff.mp hmem)
      rw [hnone e he] at hdecode
      cases hdecode
    rw [hsplit,hnil,append_nil]

end SessionStore

end Daimonos.Store
