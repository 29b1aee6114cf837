import Daimonos.Framework.Decimal
import Daimonos.Session.SnapshotFrame

namespace Daimonos.Session

open Framework List

/-- An entry that may have lost text and then says so. -/
inductive TimelineEntryKind.Blanked : TimelineEntryKind → TimelineEntryKind → Prop
  | same (kind : TimelineEntryKind) : Blanked kind kind
  | user (text : String) (truncated : Bool) : Blanked (.user text truncated) (.user "" true)
  | assistant (text : String) (truncated : Bool) :
    Blanked (.assistant text truncated) (.assistant "" true)
  | thought (text : String) (truncated : Bool) : Blanked (.thought text truncated) (.thought "" true)
  | system (text : String) (truncated : Bool) : Blanked (.system text truncated) (.system "" true)
  | tool (toolCallId : String) (status : ToolCallStateStatus) (truncated : Bool)
      {name name' title title' : String} {output output' : Option String} :
    (name'=name ∧ title'=title ∨ name' = "" ∧ title' = "") →
    (output'=output ∨ output'=none) →
    Blanked (.tool toolCallId name title status output truncated)
      (.tool toolCallId name' title' status output' true)

structure TimelineEntry.Blanked (e e' : TimelineEntry) : Prop where
  id : e'.id=e.id
  order : e'.order=e.order
  entry : e.entry.Blanked e'.entry

namespace TimelineEntryKind

theorem blanked_withoutOutput (kind : TimelineEntryKind) : Blanked kind kind.withoutOutput := by
  cases kind with
  | tool toolCallId name title status output =>
    cases output with
    | none => exact .same _
    | some text => exact .tool _ _ _ (.inl ⟨rfl,rfl⟩) (.inr rfl)
  | _ => exact .same _

theorem blanked_withoutText (kind : TimelineEntryKind) :
    Blanked kind kind.withoutOutput.withoutText := by
  cases kind with
  | user | assistant | thought | system =>
    simp only [withoutOutput,withoutText]
    split_ifs <;> constructor
  | outcome => exact .same _
  | tool toolCallId name title status output =>
    cases output with
    | none =>
      simp only [withoutOutput,withoutText]
      split_ifs
      · exact .tool _ _ _ (.inr ⟨rfl,rfl⟩) (.inl rfl)
      · exact .same _
    | some text =>
      simp only [withoutOutput,withoutText]
      split_ifs
      · exact .tool _ _ _ (.inr ⟨rfl,rfl⟩) (.inr rfl)
      · exact .tool _ _ _ (.inl ⟨rfl,rfl⟩) (.inr rfl)

end TimelineEntryKind

/-- The lengths of the parts of a snapshot's message: of an entry, of the key of the window's total,
and of all else around the entries and the numbers of the window. -/
structure SnapshotParts where
  rest : SessionSnapshot → Nat
  total : Nat
  entry : TimelineEntry → Nat
  entry_pos : ∀ e, 0 < entry e

namespace SessionSnapshot

variable {snapshot fitted : SessionSnapshot} {maxFrameBytes : Nat}

/-- What is encoded around the entries and the numbers of the window. -/
def frame (snapshot : SessionSnapshot) : SessionSnapshot :=
  { snapshot with
    timeline := []
    historyWindow := ⟨0,0,none,snapshot.historyWindow.continuation⟩ }

/-- The sum of the parts, with the commas between entries. -/
def encoded (parts : SnapshotParts) (snapshot : SessionSnapshot) : Nat :=
  let window := snapshot.historyWindow
  parts.rest snapshot.frame + decimalLength window.truncatedBefore +
    decimalLength window.retained + window.total.elim 0 (fun n => parts.total + decimalLength n) +
    (snapshot.timeline.map parts.entry).sum + (snapshot.timeline.length-1)

/-- Everything is blanked that can be. -/
def blank (snapshot : SessionSnapshot) : SessionSnapshot :=
  (snapshot.mapEntries .withoutOutput).mapEntries .withoutText

theorem firstFitting_spec (fits : Nat → Bool) {low high : Nat} (hle : low≤high)
    (hmono : ∀ m n, m≤n → n≤high → fits m = true → fits n = true) :
    firstFitting fits low high ≤ high ∧
      (∀ m, low ≤ m → m < firstFitting fits low high → fits m = false) ∧
      (firstFitting fits low high < high → fits (firstFitting fits low high) = true) := by
  fun_induction firstFitting fits low high with
  | case1 low high hlt middle hfits ih =>
    obtain ⟨hhigh,hbelow,hfound⟩ :=
      ih (by omega) fun m n hmn hn => hmono m n hmn (by omega)
    refine ⟨by omega,hbelow,fun _ => ?_⟩
    rcases Nat.lt_or_eq_of_le hhigh with hless | hequal
    · exact hfound hless
    · rw [hequal]
      exact hfits
  | case2 low high hlt middle hfits ih =>
    obtain ⟨hhigh,hbelow,hfound⟩ := ih (by omega) hmono
    refine ⟨hhigh,fun m hlow hm => ?_,hfound⟩
    by_cases hmiddle : m ≤ middle
    · exact Bool.eq_false_iff.mpr fun hm => hfits (hmono m middle hmiddle (by omega) hm)
    · exact hbelow m (by omega) hm
  | case3 low high hnot =>
    exact ⟨hle,fun m hlow hm => absurd hlow (by omega),fun hlt => absurd hlt hnot⟩

variable (parts : SnapshotParts)

theorem encoded_dropOldest (n : Nat) :
    (snapshot.dropOldest n).encoded parts = parts.rest snapshot.frame +
        decimalLength (saturatingAdd snapshot.historyWindow.truncatedBefore n) +
        decimalLength (snapshot.timeline.length-n) + (parts.total + decimalLength (saturatingAdd
          (saturatingAdd snapshot.historyWindow.truncatedBefore n)
          (snapshot.timeline.length-n))) +
        ((snapshot.timeline.drop n).map parts.entry).sum + (snapshot.timeline.length-n-1) := by
  rw [← length_drop]
  rfl

theorem saturatingAdd_drop (before : Nat) {n length : Nat} (hn : n < length) :
    saturatingAdd (saturatingAdd before (n+1)) (length - (n+1)) =
      saturatingAdd (saturatingAdd before n) (length-n) := by
  unfold saturatingAdd
  omega

theorem encoded_dropOldest_succ {n : Nat} (hn : n < snapshot.timeline.length) :
    (snapshot.dropOldest (n+1)).encoded parts ≤ (snapshot.dropOldest n).encoded parts := by
  have hpos := parts.entry_pos snapshot.timeline[n]
  have hbefore : decimalLength (saturatingAdd snapshot.historyWindow.truncatedBefore (n+1)) ≤
      decimalLength (saturatingAdd snapshot.historyWindow.truncatedBefore n) + 1 := by
    refine (decimalLength_mono ?_).trans (decimalLength_succ_le _)
    unfold saturatingAdd
    omega
  have hretained : decimalLength (snapshot.timeline.length - (n+1)) ≤
      decimalLength (snapshot.timeline.length-n) := decimalLength_mono (by omega)
  rw [encoded_dropOldest,encoded_dropOldest,saturatingAdd_drop _ hn,
    drop_eq_getElem_cons hn,map_cons,sum_cons]
  omega

theorem encoded_dropOldest_mono {m n : Nat} (hmn : m≤n) (hn : n ≤ snapshot.timeline.length) :
    (snapshot.dropOldest n).encoded parts ≤ (snapshot.dropOldest m).encoded parts := by
  induction n, hmn using Nat.le_induction with
  | base => exact le_rfl
  | succ n _ ih => exact (encoded_dropOldest_succ parts (by omega)).trans (ih (by omega))

/-- What fitting gives up: texts, and then no more of the oldest entries than it has to. -/
structure Fitted (parts : SnapshotParts) (maxFrameBytes : Nat) (snapshot fitted : SessionSnapshot) :
    Prop where
  fits : fitted.encoded parts ≤ maxFrameBytes
  same : fitted.frame=snapshot.frame
  counted : snapshot.historyWindow.retained = snapshot.timeline.length →
    snapshot.historyWindow.truncatedBefore+snapshot.timeline.length≤u64Max →
    fitted.historyWindow.truncatedBefore + fitted.historyWindow.retained =
      snapshot.historyWindow.truncatedBefore + snapshot.historyWindow.retained
  longest : ∃ n ≤ snapshot.timeline.length,
    List.Forall₂ TimelineEntry.Blanked (snapshot.timeline.drop n) fitted.timeline ∧
    ∀ m<n, maxFrameBytes < (snapshot.blank.dropOldest m).encoded parts

theorem blanked_map {f : TimelineEntryKind → TimelineEntryKind}
    (hf : ∀ kind : TimelineEntryKind, kind.Blanked (f kind)) (entries : List TimelineEntry) :
    List.Forall₂ TimelineEntry.Blanked entries
      (entries.map fun e => { e with entry := f e.entry }) := by
  rw [forall₂_map_right_iff,forall₂_same]
  exact fun e _ => ⟨rfl,rfl,hf e.entry⟩

theorem Fitted.of_map {parts : SnapshotParts} {f : TimelineEntryKind → TimelineEntryKind}
    (hf : ∀ kind : TimelineEntryKind, kind.Blanked (f kind))
    (hfits : (snapshot.mapEntries f).encoded parts ≤ maxFrameBytes) :
    Fitted parts maxFrameBytes snapshot (snapshot.mapEntries f) :=
  ⟨hfits,rfl,fun _ _ => rfl,0,Nat.zero_le _,blanked_map hf _,nofun⟩

theorem blank_eq (snapshot : SessionSnapshot) :
    snapshot.blank = snapshot.mapEntries fun kind => kind.withoutOutput.withoutText := by
  simp [blank,mapEntries,Function.comp_def]

theorem length_blank (snapshot : SessionSnapshot) :
    snapshot.blank.timeline.length = snapshot.timeline.length := by
  rw [blank_eq]
  exact length_map _

theorem Fitted.of_dropOldest {parts : SnapshotParts} {n : Nat} (hn : n ≤ snapshot.timeline.length)
    (hfits : (snapshot.blank.dropOldest n).encoded parts ≤ maxFrameBytes)
    (hlongest : ∀ m<n, maxFrameBytes < (snapshot.blank.dropOldest m).encoded parts) :
    Fitted parts maxFrameBytes snapshot (snapshot.blank.dropOldest n) := by
  refine ⟨hfits,rfl,fun hretained hbound => ?_,n,hn,?_,hlongest⟩
  · change saturatingAdd snapshot.historyWindow.truncatedBefore n +
      (snapshot.blank.timeline.drop n).length = _
    rw [length_drop,length_blank,hretained,saturatingAdd_eq (by omega)]
    omega
  · change List.Forall₂ _ _ (snapshot.blank.timeline.drop n)
    rw [blank_eq,mapEntries,← map_drop]
    exact blanked_map TimelineEntryKind.blanked_withoutText _

/-- A snapshot is fitted as told, or with no entry at all it would not fit either. -/
theorem fitSnapshotToFrame_spec (parts : SnapshotParts) (maxFrameBytes : Nat)
    (snapshot : SessionSnapshot) :
    (∃ fitted, snapshot.fitSnapshotToFrame (encoded parts) maxFrameBytes = .ok fitted ∧
      Fitted parts maxFrameBytes snapshot fitted) ∨
    (∃ message, snapshot.fitSnapshotToFrame (encoded parts) maxFrameBytes = .error message ∧
      maxFrameBytes < (snapshot.blank.dropOldest snapshot.timeline.length).encoded parts) := by
  have hsearch := firstFitting_spec
    (fun n => decide ((snapshot.blank.dropOldest n).encoded parts ≤ maxFrameBytes))
    (Nat.zero_le snapshot.blank.timeline.length) fun m n hmn hn hm =>
      decide_eq_true ((encoded_dropOldest_mono parts hmn hn).trans (of_decide_eq_true hm))
  unfold fitSnapshotToFrame
  dsimp only
  split_ifs with hwhole hbare hall hrest
  · refine .inl ⟨_,rfl,of_decide_eq_true hwhole,rfl,fun _ _ => rfl,0,Nat.zero_le _,?_,nofun⟩
    exact forall₂_same.mpr fun e _ => ⟨rfl,rfl,.same _⟩
  · exact .inl ⟨_,rfl,.of_map TimelineEntryKind.blanked_withoutOutput (of_decide_eq_true hbare)⟩
  · refine .inl ⟨_,rfl,?_⟩
    change Fitted parts maxFrameBytes snapshot snapshot.blank
    rw [blank_eq]
    refine .of_map TimelineEntryKind.blanked_withoutText ?_
    rw [← blank_eq]
    exact of_decide_eq_true hall
  · obtain ⟨hhigh,hbelow,-⟩ := hsearch
    refine .inl ⟨_,rfl,.of_dropOldest (length_blank snapshot ▸ hhigh) (of_decide_eq_true hrest) ?_⟩
    exact fun m hm => Nat.lt_of_not_le (of_decide_eq_false (hbelow m (Nat.zero_le m) hm))
  · obtain ⟨hhigh,-,hfound⟩ := hsearch
    rcases Nat.lt_or_eq_of_le hhigh with hless | hequal
    · exact absurd (hfound hless) hrest
    · refine .inr ⟨_,rfl,Nat.lt_of_not_le fun hle => hrest (decide_eq_true ?_)⟩
      rw [← length_blank,← hequal] at hle
      exact hle

def saturatedSnapshot : SessionSnapshot where
  sessionId := "s"
  seq := 0
  turnStatus := .idle
  durabilityStatus := .saved
  timeline := [⟨0,0,.user "a" false⟩]
  activeTools := []
  historyWindow := ⟨u64Max,1,some u64Max,none⟩
  pendingApprovals := []
  runtimeOptions := []
  contextUsage := none

/-- However the parts are encoded: under a limit that makes it drop its entry, the number of the
entries before does not grow. -/
theorem fitted_saturated : ∃ snapshot : SessionSnapshot,
    snapshot.historyWindow.Matches snapshot.timeline.length ∧
    ∀ parts : SnapshotParts, ∃ maxFrameBytes fitted,
      snapshot.fitSnapshotToFrame (encoded parts) maxFrameBytes = .ok fitted ∧
      fitted.historyWindow.truncatedBefore + fitted.historyWindow.retained <
        snapshot.historyWindow.truncatedBefore + snapshot.historyWindow.retained := by
  refine ⟨saturatedSnapshot,by decide,?_⟩
  intro parts
  have hnot : ∀ e, ¬ decide (encoded parts { saturatedSnapshot with timeline := [e] } ≤
      encoded parts (saturatedSnapshot.blank.dropOldest 1)) = true := by
    intro e h
    have hle := of_decide_eq_true h
    have hpos := parts.entry_pos e
    have hdigits : decimalLength 0 = decimalLength 1 := by decide
    have hwith : encoded parts { saturatedSnapshot with timeline := [e] } =
        parts.rest saturatedSnapshot.frame + decimalLength u64Max + decimalLength 1 +
          (parts.total + decimalLength u64Max) + (parts.entry e + 0) + 0 := rfl
    have hwithout : encoded parts (saturatedSnapshot.blank.dropOldest 1) =
        parts.rest saturatedSnapshot.frame + decimalLength u64Max + decimalLength 0 +
          (parts.total + decimalLength u64Max) + 0+0 := rfl
    omega
  have hfirst : firstFitting (fun n => decide (encoded parts (dropOldest n
      ((saturatedSnapshot.mapEntries .withoutOutput).mapEntries .withoutText)) ≤
        encoded parts (saturatedSnapshot.blank.dropOldest 1))) 0 1 = 1 := by
    rw [firstFitting,if_pos (by decide),if_neg (by exact hnot _),firstFitting,if_neg (by decide)]
  refine ⟨encoded parts (saturatedSnapshot.blank.dropOldest 1),saturatedSnapshot.blank.dropOldest 1,
    ?_,by decide⟩
  unfold fitSnapshotToFrame
  rw [if_neg (by exact hnot _),if_neg (by exact hnot _),if_neg (by exact hnot _),
    show ((saturatedSnapshot.mapEntries .withoutOutput).mapEntries .withoutText).timeline.length = 1
      from rfl,hfirst]
  exact if_pos (decide_eq_true le_rfl)

end SessionSnapshot

end Daimonos.Session
