import Daimonos.Framework.Text

namespace Daimonos.ToolOutput

open Daimonos.Framework List Option

def lineCount (text : List Char) : Nat := if text.isEmpty then 0 else text.count '\n' + 1

def floorFrom (text : List Char) : Nat → Nat
  | 0 => 0
  | finish+1 => if isCharBoundary text (finish+1) then finish+1 else floorFrom text finish

def floorCharBoundary (text : List Char) (max : Nat) : Nat :=
  floorFrom text (min max (utf8Length text))

/-- A slice at an offset that is no boundary would panic: `none`. -/
def takePrefixBytes (text : List Char) (max : Nat) : Option (List Char) :=
  sliceTo text (floorCharBoundary text max)

def ceilFrom (text : List Char) : Nat → Nat
  | 0 => utf8Length text
  | left+1 =>
    if isCharBoundary text (utf8Length text - (left+1)) then utf8Length text - (left+1)
    else ceilFrom text left

def takeSuffixBytes (text : List Char) (max : Nat) : Option (List Char) :=
  if utf8Length text ≤ max then some text else sliceFrom text (ceilFrom text max)

def preview (text marker : List Char) (maxLines maxBytes : Nat) : Option (List Char) := do
  let marker ← takePrefixBytes marker maxBytes
  if maxLines≤1 ∨ utf8Length marker + 2 ≥ maxBytes then
    return marker
  let lines := textLines text
  let dataLines := maxLines-1
  let headLines := (dataLines+1) / 2
  let tailLines := dataLines/2
  let head := joinLines (lines.take headLines)
  let tail := joinLines (lines.drop (lines.length-tailLines))
  let separators := if tail.isEmpty then 1 else 2
  let available := maxBytes - (utf8Length marker + separators)
  let head ← takePrefixBytes head ((available+1) / 2)
  let tail ← takeSuffixBytes tail (available/2)
  if tail.isEmpty then
    return head ++ '\n' :: marker
  else
    return head ++ '\n' :: marker ++ '\n' :: tail

section Slices

variable {text : List Char} {max : Nat}

theorem floorFrom_spec (text : List Char) (n : Nat) :
    floorFrom text n ≤ n ∧ isCharBoundary text (floorFrom text n) = true ∧
      ∀ i≤n, isCharBoundary text i = true → i ≤ floorFrom text n := by
  induction n with
  | zero =>
    refine ⟨le_rfl,?_,fun i hi _ => hi⟩
    cases text <;> rfl
  | succ n ih =>
    obtain ⟨hle,hboundary,hmax⟩ := ih
    rw [floorFrom]
    split_ifs with hn
    · exact ⟨le_rfl,hn,fun i hi _ => hi⟩
    · refine ⟨by omega,hboundary,?_⟩
      intro i hi hb
      have hne : i≠n+1 := fun heq => hn (heq ▸ hb)
      exact hmax i (by omega) hb

theorem takePrefixBytes_spec (text : List Char) (max : Nat) :
    ∃ kept, takePrefixBytes text max = some kept ∧ kept <+: text ∧ utf8Length kept ≤ max ∧
      ∀ other, other <+: text → utf8Length other ≤ max → utf8Length other ≤ utf8Length kept := by
  obtain ⟨hle,hboundary,hmax⟩ := floorFrom_spec text (min max (utf8Length text))
  obtain ⟨kept,rest,htext,hlength⟩ := isCharBoundary_iff.mp hboundary
  refine ⟨kept,?_,⟨rest,htext.symm⟩,by omega,?_⟩
  · rw [takePrefixBytes,floorCharBoundary,← hlength,htext,sliceTo_append]
  · rintro other ⟨after,rfl⟩ hfits
    rw [hlength]
    refine hmax _ ?_ (isCharBoundary_iff.mpr ⟨other,after,rfl,rfl⟩)
    rw [utf8Length_append]
    omega

theorem takePrefixBytes_of_le (h : utf8Length text ≤ max) : takePrefixBytes text max = some text := by
  obtain ⟨kept,hkept,⟨rest,rfl⟩,hle,hmax⟩ := takePrefixBytes_spec text max
  have hall := hmax _ (prefix_refl _) h
  rw [utf8Length_append] at hall
  have hrest : rest = [] := by
    cases rest with
    | nil => rfl
    | cons c rest =>
      have hpos := c.utf8Size_pos
      rw [utf8Length_cons] at hall
      omega
  rw [hkept,hrest,append_nil]

theorem ceilFrom_spec (text : List Char) (left : Nat) (h : left ≤ utf8Length text) :
    isCharBoundary text (ceilFrom text left) = true ∧
      utf8Length text - left ≤ ceilFrom text left := by
  induction left with
  | zero =>
    refine ⟨isCharBoundary_iff.mpr ⟨text,[],by simp,rfl⟩,?_⟩
    rw [ceilFrom,Nat.sub_zero]
  | succ left ih =>
    obtain ⟨hboundary,hge⟩ := ih (by omega)
    rw [ceilFrom]
    split_ifs with hb
    · exact ⟨hb,le_rfl⟩
    · exact ⟨hboundary,by omega⟩

theorem takeSuffixBytes_spec (text : List Char) (max : Nat) :
    ∃ kept, takeSuffixBytes text max = some kept ∧ kept <:+ text ∧ utf8Length kept ≤ max := by
  unfold takeSuffixBytes
  split_ifs with hfits
  · exact ⟨text,rfl,suffix_refl text,hfits⟩
  · obtain ⟨hboundary,hge⟩ := ceilFrom_spec text max (by omega)
    obtain ⟨before,kept,htext,hlength⟩ := isCharBoundary_iff.mp hboundary
    refine ⟨kept,?_,⟨before,htext.symm⟩,?_⟩
    · rw [← hlength,htext,sliceFrom_append]
    · have htotal := congrArg utf8Length htext
      rw [utf8Length_append] at htotal
      omega

end Slices

section Bounds

variable {text marker kept : List Char} {maxLines maxBytes : Nat}

def tailText (text : List Char) (maxLines : Nat) : List Char :=
  let lines := textLines text
  joinLines (lines.drop (lines.length - (maxLines-1) / 2))

def previewRoom (text : List Char) (markerBytes maxLines maxBytes : Nat) : Nat :=
  maxBytes - (markerBytes + if (tailText text maxLines).isEmpty then 1 else 2)

def previewHead (text : List Char) (markerBytes maxLines maxBytes : Nat) : List Char :=
  (takePrefixBytes (joinLines ((textLines text).take ((maxLines-1+1) / 2)))
    ((previewRoom text markerBytes maxLines maxBytes + 1) / 2)).getD []

def previewTail (text : List Char) (markerBytes maxLines maxBytes : Nat) : List Char :=
  (takeSuffixBytes (tailText text maxLines)
    (previewRoom text markerBytes maxLines maxBytes / 2)).getD []

def framed (head marker tail : List Char) : List Char :=
  if tail.isEmpty then head ++ '\n' :: marker else head ++ '\n' :: marker ++ '\n' :: tail

theorem preview_of_narrow (hkept : takePrefixBytes marker maxBytes = some kept)
    (hnarrow : maxLines≤1 ∨ utf8Length kept + 2 ≥ maxBytes) :
    preview text marker maxLines maxBytes = some kept := by
  simp [preview,hkept,hnarrow]

theorem preview_of_wide (text : List Char) (hkept : takePrefixBytes marker maxBytes = some kept)
    (hwide : ¬ (maxLines≤1 ∨ utf8Length kept + 2 ≥ maxBytes)) :
    preview text marker maxLines maxBytes =
      some (framed (previewHead text (utf8Length kept) maxLines maxBytes) kept
        (previewTail text (utf8Length kept) maxLines maxBytes)) := by
  obtain ⟨head,hhead,-⟩ := takePrefixBytes_spec
    (joinLines ((textLines text).take ((maxLines-1+1) / 2)))
    ((previewRoom text (utf8Length kept) maxLines maxBytes + 1) / 2)
  obtain ⟨tail,htail,-⟩ := takeSuffixBytes_spec (tailText text maxLines)
    (previewRoom text (utf8Length kept) maxLines maxBytes / 2)
  have hpreview : preview text marker maxLines maxBytes = some (framed head kept tail) := by
    simp only [preview,hkept,bind_eq_bind,bind_some,if_neg hwide]
    rw [← tailText,← previewRoom,hhead,bind_some,htail,bind_some,framed]
    split_ifs <;> rfl
  rw [hpreview,previewHead,previewTail,hhead,htail,getD_some,getD_some]

theorem preview_isSome (text marker : List Char) (maxLines maxBytes : Nat) :
    (preview text marker maxLines maxBytes).isSome = true := by
  obtain ⟨kept,hkept,-⟩ := takePrefixBytes_spec marker maxBytes
  by_cases hnarrow : maxLines≤1 ∨ utf8Length kept + 2 ≥ maxBytes
  · rw [preview_of_narrow hkept hnarrow,isSome_some]
  · rw [preview_of_wide text hkept hnarrow,isSome_some]

def previewText (text marker : List Char) (maxLines maxBytes : Nat) : List Char :=
  (preview text marker maxLines maxBytes).get (preview_isSome text marker maxLines maxBytes)

theorem preview_eq_previewText (text marker : List Char) (maxLines maxBytes : Nat) :
    preview text marker maxLines maxBytes = some (previewText text marker maxLines maxBytes) := by
  rw [previewText,some_get]

theorem utf8Length_previewHead (text : List Char) (markerBytes maxLines maxBytes : Nat) :
    utf8Length (previewHead text markerBytes maxLines maxBytes) ≤
      (previewRoom text markerBytes maxLines maxBytes + 1) / 2 := by
  obtain ⟨head,hhead,-,hle,-⟩ := takePrefixBytes_spec
    (joinLines ((textLines text).take ((maxLines-1+1) / 2)))
    ((previewRoom text markerBytes maxLines maxBytes + 1) / 2)
  rw [previewHead,hhead]
  exact hle

theorem utf8Length_previewTail (text : List Char) (markerBytes maxLines maxBytes : Nat) :
    utf8Length (previewTail text markerBytes maxLines maxBytes) ≤
      previewRoom text markerBytes maxLines maxBytes / 2 := by
  obtain ⟨tail,htail,-,hle⟩ := takeSuffixBytes_spec (tailText text maxLines)
    (previewRoom text markerBytes maxLines maxBytes / 2)
  rw [previewTail,htail]
  exact hle

theorem count_previewHead (text : List Char) (markerBytes maxLines maxBytes : Nat) :
    (previewHead text markerBytes maxLines maxBytes).count '\n' ≤ (maxLines-1+1) / 2-1 := by
  obtain ⟨head,hhead,hsub,-⟩ := takePrefixBytes_spec
    (joinLines ((textLines text).take ((maxLines-1+1) / 2)))
    ((previewRoom text markerBytes maxLines maxBytes + 1) / 2)
  have hlines : ∀ line ∈ (textLines text).take ((maxLines-1+1) / 2), '\n' ∉ line :=
    fun line hline => newline_notMem_textLines (mem_of_mem_take hline)
  have hcount := hsub.sublist.count_le '\n'
  rw [count_joinLines hlines,length_take] at hcount
  rw [previewHead,hhead,getD_some]
  omega

theorem count_previewTail (text : List Char) (markerBytes maxLines maxBytes : Nat) :
    (previewTail text markerBytes maxLines maxBytes).count '\n' ≤ (maxLines-1) / 2-1 ∧
      (previewTail text markerBytes maxLines maxBytes ≠ [] →
        tailText text maxLines ≠ [] ∧ 0 < (maxLines-1) / 2) := by
  obtain ⟨tail,htail,hsub,-⟩ := takeSuffixBytes_spec (tailText text maxLines)
    (previewRoom text markerBytes maxLines maxBytes / 2)
  rw [previewTail,htail,getD_some]
  let lines := textLines text
  have hlines : ∀ line ∈ lines.drop (lines.length - (maxLines-1) / 2), '\n' ∉ line :=
    fun line hline => newline_notMem_textLines (mem_of_mem_drop hline)
  have hcount := hsub.sublist.count_le '\n'
  rw [tailText,count_joinLines hlines,length_drop] at hcount
  refine ⟨by omega,?_⟩
  intro hne
  have htext : tailText text maxLines ≠ [] := by
    intro hnil
    rw [hnil] at hsub
    exact hne (suffix_nil.mp hsub)
  refine ⟨htext,?_⟩
  by_contra hzero
  have hdrop : lines.drop (lines.length - (maxLines-1) / 2) = [] := by
    rw [drop_eq_nil_iff]
    omega
  apply htext
  show joinLines (lines.drop (lines.length - (maxLines-1) / 2)) = []
  rw [hdrop]
  rfl

theorem previewRoom_le (text : List Char) (maxLines : Nat)
    (hbytes : utf8Length kept + 2 < maxBytes) :
    previewRoom text (utf8Length kept) maxLines maxBytes + utf8Length kept + 1 ≤ maxBytes ∧
      1 ≤ previewRoom text (utf8Length kept) maxLines maxBytes ∧
      (previewTail text (utf8Length kept) maxLines maxBytes ≠ [] →
        previewRoom text (utf8Length kept) maxLines maxBytes + utf8Length kept + 2 = maxBytes) := by
  refine ⟨?_,?_,?_⟩
  · unfold previewRoom
    split_ifs <;> omega
  · unfold previewRoom
    split_ifs <;> omega
  · intro hne
    obtain ⟨htext,-⟩ := (count_previewTail text (utf8Length kept) maxLines maxBytes).2 hne
    have hsome : (tailText text maxLines).isEmpty = false := by simpa using htext
    rw [previewRoom,hsome]
    simp only [Bool.false_eq_true,if_false]
    omega

theorem framed_bytes (text : List Char) (maxLines : Nat) (hbytes : utf8Length kept + 2 < maxBytes) :
    utf8Length (framed (previewHead text (utf8Length kept) maxLines maxBytes) kept
      (previewTail text (utf8Length kept) maxLines maxBytes)) ≤ maxBytes := by
  have hhead := utf8Length_previewHead text (utf8Length kept) maxLines maxBytes
  have htail := utf8Length_previewTail text (utf8Length kept) maxLines maxBytes
  obtain ⟨hroom,hpos,hboth⟩ := previewRoom_le text maxLines hbytes
  have hnewline : Char.utf8Size '\n' = 1 := by decide
  unfold framed
  split_ifs with hempty
  · simp only [utf8Length_append,utf8Length_cons,hnewline]
    omega
  · have hboth := hboth (by simpa using hempty)
    simp only [utf8Length_append,utf8Length_cons,hnewline,append_assoc,cons_append]
    omega

theorem framed_lines (text : List Char) (hmarker : '\n' ∉ kept) (hlines : 1 < maxLines)
    (maxBytes : Nat) :
    (framed (previewHead text (utf8Length kept) maxLines maxBytes) kept
      (previewTail text (utf8Length kept) maxLines maxBytes)).count '\n' + 1 ≤ maxLines := by
  have hheadCount := count_previewHead text (utf8Length kept) maxLines maxBytes
  obtain ⟨htailCount,htailText⟩ := count_previewTail text (utf8Length kept) maxLines maxBytes
  have hnone : kept.count '\n' = 0 := count_eq_zero.mpr hmarker
  unfold framed
  split_ifs with hempty
  · simp only [count_append,count_cons_self,hnone]
    omega
  · obtain ⟨-,hpos⟩ := htailText (by simpa using hempty)
    simp only [count_append,count_cons_self,hnone,append_assoc,cons_append]
    omega

theorem previewText_of_infix (h : marker <:+: previewText text marker maxLines maxBytes) :
    previewText text marker maxLines maxBytes = marker ∧
        (maxLines≤1 ∨ utf8Length marker + 2 ≥ maxBytes) ∨
      previewText text marker maxLines maxBytes =
        framed (previewHead text (utf8Length marker) maxLines maxBytes) marker
          (previewTail text (utf8Length marker) maxLines maxBytes) := by
  obtain ⟨kept,hkept,-,hle,-⟩ := takePrefixBytes_spec marker maxBytes
  have hfits := utf8Length_le_of_infix h
  by_cases hnarrow : maxLines≤1 ∨ utf8Length kept + 2 ≥ maxBytes
  · have hout : previewText text marker maxLines maxBytes = kept :=
      get_of_eq_some _ (preview_of_narrow hkept hnarrow)
    rw [hout] at hfits ⊢
    obtain rfl := some.inj ((takePrefixBytes_of_le (hfits.trans hle)).symm.trans hkept)
    exact .inl ⟨rfl,hnarrow⟩
  · have hout : previewText text marker maxLines maxBytes = _ :=
      get_of_eq_some _ (preview_of_wide text hkept hnarrow)
    rw [hout] at hfits ⊢
    have hwide : utf8Length kept + 2 < maxBytes := by omega
    have hbytes := framed_bytes text maxLines hwide
    obtain rfl := some.inj ((takePrefixBytes_of_le (hfits.trans hbytes)).symm.trans hkept)
    exact .inr rfl

theorem marker_infix_framed (head marker tail : List Char) : marker <:+: framed head marker tail := by
  unfold framed
  split_ifs
  · exact ⟨head ++ ['\n'],[],by simp⟩
  · exact ⟨head ++ ['\n'],'\n' :: tail,by simp⟩

theorem marker_infix_previewText (text : List Char) (maxLines : Nat)
    (h : utf8Length marker ≤ maxBytes) : marker <:+: previewText text marker maxLines maxBytes := by
  have hkept := takePrefixBytes_of_le h
  by_cases hnarrow : maxLines≤1 ∨ utf8Length marker + 2 ≥ maxBytes
  · rw [previewText,get_of_eq_some _ (preview_of_narrow hkept hnarrow)]
  · rw [previewText,get_of_eq_some _ (preview_of_wide text hkept hnarrow)]
    exact marker_infix_framed _ _ _

theorem preview_bytes {out : List Char} (h : preview text marker maxLines maxBytes = some out) :
    utf8Length out ≤ maxBytes := by
  obtain ⟨kept,hkept,-,hfits,-⟩ := takePrefixBytes_spec marker maxBytes
  by_cases hnarrow : maxLines≤1 ∨ utf8Length kept + 2 ≥ maxBytes
  · obtain rfl := some.inj ((preview_of_narrow hkept hnarrow).symm.trans h)
    exact hfits
  · obtain rfl := some.inj ((preview_of_wide text hkept hnarrow).symm.trans h)
    exact framed_bytes text maxLines (by omega)

theorem preview_within {out : List Char} (hmarker : '\n' ∉ marker)
    (h : preview text marker maxLines maxBytes = some out) :
    utf8Length out ≤ maxBytes ∧ lineCount out ≤ max 1 maxLines := by
  refine ⟨preview_bytes h,?_⟩
  obtain ⟨kept,hkept,hpart,-⟩ := takePrefixBytes_spec marker maxBytes
  have hnone : '\n' ∉ kept := fun hin => hmarker (hpart.subset hin)
  by_cases hnarrow : maxLines≤1 ∨ utf8Length kept + 2 ≥ maxBytes
  · obtain rfl := some.inj ((preview_of_narrow hkept hnarrow).symm.trans h)
    rw [lineCount,count_eq_zero.mpr hnone]
    split_ifs <;> omega
  · obtain rfl := some.inj ((preview_of_wide text hkept hnarrow).symm.trans h)
    rw [not_or,Nat.not_le,Nat.not_le] at hnarrow
    have hlines := framed_lines text hnone hnarrow.1 maxBytes
    rw [lineCount]
    split_ifs <;> omega

/-- A preview slices only at boundaries of characters, stays within both limits and shows the marker,
or the longest part of its beginning that fits. -/
theorem preview_bounded (text : List Char) {marker : List Char} (hmarker : '\n' ∉ marker)
    (maxLines maxBytes : Nat) :
    ∃ out, preview text marker maxLines maxBytes = some out ∧
      utf8Length out ≤ maxBytes ∧ lineCount out ≤ max 1 maxLines ∧
      ∃ kept, kept <+: marker ∧ kept <:+: out ∧ (utf8Length marker ≤ maxBytes → kept=marker) ∧
        ∀ other, other <+: marker → utf8Length other ≤ maxBytes →
          utf8Length other ≤ utf8Length kept := by
  obtain ⟨kept,hkept,hpart,-,hlongest⟩ := takePrefixBytes_spec marker maxBytes
  have hwhole : utf8Length marker ≤ maxBytes → kept=marker := by
    intro hle
    rw [takePrefixBytes_of_le hle] at hkept
    exact (Option.some.inj hkept).symm
  by_cases hnarrow : maxLines≤1 ∨ utf8Length kept + 2 ≥ maxBytes
  · have hout : preview text marker maxLines maxBytes = some kept := preview_of_narrow hkept hnarrow
    obtain ⟨hbytes,hlines⟩ := preview_within hmarker hout
    exact ⟨kept,hout,hbytes,hlines,kept,hpart,infix_refl kept,hwhole,hlongest⟩
  · have hout := preview_of_wide text hkept hnarrow
    obtain ⟨hbytes,hlines⟩ := preview_within hmarker hout
    exact ⟨_,hout,hbytes,hlines,kept,hpart,marker_infix_framed _ _ _,hwhole,hlongest⟩

/-- A preview of two-byte characters whose head is cut before one of them. -/
theorem preview_bounded_umlauts :
    ∃ out, preview "äöü\näöü\näöü".toList "cut".toList 3 10 = some out ∧ utf8Length out ≤ 10 := by
  obtain ⟨out,hout,hbytes,-⟩ :=
    preview_bounded "äöü\näöü\näöü".toList (show '\n' ∉ "cut".toList by decide) 3 10
  exact ⟨out,hout,hbytes⟩

end Bounds

end Daimonos.ToolOutput
