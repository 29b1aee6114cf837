import Daimonos.Framework.Text

namespace Daimonos.Ops

open Daimonos.Framework List

def trimStart (text : List Char) : List Char := text.dropWhile isWhitespace

def leadingWs (line : List Char) : List Char := line.take (line.length - (trimStart line).length)

inductive EditOutcome where
  | applied (updated : List Char)
  | failed (reason : String)
  deriving DecidableEq

/-- Matches of a pattern that is not empty, after the next `skip` characters: a match uses up its
characters. -/
def matchesFrom (needle : List Char) : Nat → List Char → Nat
  | _, [] => 0
  | skip+1, _::rest => matchesFrom needle skip rest
  | 0, c::rest =>
    if needle <+: c::rest then matchesFrom needle (needle.length-1) rest + 1
    else matchesFrom needle 0 rest

/-- `matches(old).count()`; the empty pattern matches at every boundary. -/
def matchCount (needle text : List Char) : Nat :=
  if needle.isEmpty then text.length+1 else matchesFrom needle 0 text

/-- `replacen(old, new, 1)`. -/
def replaceFirst (old new content : List Char) : List Char :=
  match content.dropInfix? old with
  | some (before, after) => before++new++after
  | none => content

def matchingLines (key content : List Char) : List Nat :=
  ((textLines content).zipIdx.filter fun p => trimStart p.1 = key).map (·.2)

def replaceSingleLineIgnoringLeadingWs (content old new : List Char) : Option EditOutcome :=
  if '\n' ∈ old ∨ '\n' ∈ new then none
  else
    let oldKey := trimStart old
    if oldKey.isEmpty then none
    else
      match matchingLines oldKey content with
      | [] => none
      | [target] =>
        let rebuilt := (textLines content).mapIdx fun i line =>
          if i=target then leadingWs line ++ trimStart new else line
        some (.applied (joinLines rebuilt ++ newlineOf content))
      | lines =>
        some (.failed ("ambiguous: `old` matches " ++ toString lines.length ++
          " lines (ignoring indentation); include more surrounding context so it is unique"))

def applyOneEdit (content old new : List Char) : EditOutcome :=
  let exactCount := matchCount old content
  if exactCount=1 then .applied (replaceFirst old new content)
  else if 1<exactCount then
    .failed ("ambiguous: `old` matches " ++ toString exactCount ++
      " places exactly; include more surrounding lines so it is unique")
  else
    match replaceSingleLineIgnoringLeadingWs content old new with
    | some outcome => outcome
    | none => .failed "not found: `old` did not match the file"

structure Patched where
  content : List Char
  applied : List (List Char × List Char) := []
  failures : List (List Char × String) := []
  deriving DecidableEq

def patchStep (s : Patched) (edit : List Char × List Char) : Patched :=
  match applyOneEdit s.content edit.1 edit.2 with
  | .applied updated => { s with content := updated, applied := s.applied ++ [edit] }
  | .failed reason => { s with failures := s.failures ++ [(edit.1, reason)] }

/-- The edits of a request, given as old, new, old, new. -/
def editPairs : List (List Char) → Option (List (List Char × List Char))
  | [] => some []
  | [_] => none
  | old::new::rest => (editPairs rest).map ((old, new) :: ·)

/-- `patch` on the content of the file; the file is written if some edit was applied. -/
def patch (content : List Char) (edits : List (List Char)) : Except String Patched :=
  match editPairs edits with
  | none => .error "patch requires edits in 'a' as [old, new, old, new, ...]"
  | some edits => .ok (edits.foldl patchStep { content := content })

section Matches

variable {old content before after : List Char}

theorem matchesFrom_skip (needle x y : List Char) :
    matchesFrom needle x.length (x++y) = matchesFrom needle 0 y := by
  induction x with
  | nil => rfl
  | cons c x ih => exact ih

theorem matchesFrom_of_dropInfix? (hne : old ≠ [])
    (h : content.dropInfix? old = some (before, after)) :
    matchesFrom old 0 content = matchesFrom old 0 after + 1 := by
  obtain ⟨hsplit,hfirst⟩ := dropInfix?_eq_some.mp h
  clear h
  induction before generalizing content with
  | nil =>
    obtain ⟨c,needle,rfl⟩ := exists_cons_of_ne_nil hne
    rw [nil_append] at hsplit
    rw [hsplit,cons_append,matchesFrom,if_pos,length_cons,Nat.add_sub_cancel,matchesFrom_skip]
    exact prefix_append (c::needle) after
  | cons c before ih =>
    have hrest : ∀ other more, before++old++after=other++old++more →
        before.length ≤ other.length := by
      intro other more hother
      have hle := hfirst (c::other) more (by rw [hsplit,cons_append,cons_append,
        cons_append,cons_append,hother])
      simpa using hle
    have hnot : ¬ old <+: c :: (before++old++after) := by
      rintro ⟨more,hmore⟩
      have hle := hfirst [] more (by rw [hsplit,nil_append,hmore]; rfl)
      simp at hle
    rw [hsplit,cons_append,cons_append,matchesFrom,if_neg hnot]
    exact ih rfl hrest

theorem matchesFrom_eq_zero (hne : old ≠ []) :
    matchesFrom old 0 content = 0 ↔ ¬ old <:+: content := by
  constructor
  · intro hzero hin
    obtain ⟨before,after,hfound⟩ := exists_dropInfix? hin
    rw [matchesFrom_of_dropInfix? hne hfound] at hzero
    cases hzero
  · intro hnone
    induction content with
    | nil => rfl
    | cons c rest ih =>
      have hnot : ¬ old <+: c::rest := fun hstart => hnone hstart.isInfix
      rw [matchesFrom,if_neg hnot]
      exact ih fun hin => hnone (hin.trans (suffix_cons c rest).isInfix)

def Overlapping (old content : List Char) : Prop :=
  ∃ pre post pre' post', content=pre++old++post ∧ content=pre'++old++post' ∧
    pre.length<pre'.length ∧ pre'.length<pre.length+old.length

theorem matchCount_eq_one (h : matchCount old content = 1) :
    ∃ before after, content.dropInfix? old = some (before, after) ∧
      (old <:+: after → old = [] ∧ content = []) := by
  unfold matchCount at h
  split_ifs at h with hempty
  · obtain rfl := isEmpty_iff.mp hempty
    obtain rfl := eq_nil_of_length_eq_zero (Nat.succ.inj h)
    exact ⟨[],[],rfl,fun _ => ⟨rfl,rfl⟩⟩
  · have hne : old ≠ [] := mt isEmpty_iff.mpr hempty
    have hin : old <:+: content := by
      by_contra hnone
      rw [(matchesFrom_eq_zero hne).mpr hnone] at h
      cases h
    obtain ⟨before,after,hfound⟩ := exists_dropInfix? hin
    rw [matchesFrom_of_dropInfix? hne hfound,Nat.add_eq_right] at h
    exact ⟨before,after,hfound,fun hafter => absurd hafter ((matchesFrom_eq_zero hne).mp h)⟩

theorem unique_iff_not_overlapping (hfound : content.dropInfix? old = some (before, after))
    (hafter : old <:+: after → old = [] ∧ content = []) :
    (∀ pre post, content=pre++old++post → pre=before) ↔ ¬ Overlapping old content := by
  obtain ⟨hsplit,hfirst⟩ := dropInfix?_eq_some.mp hfound
  constructor
  · rintro hunique ⟨pre,post,pre',post',hpre,hpre',hlt,-⟩
    rw [hunique pre post hpre,hunique pre' post' hpre'] at hlt
    exact absurd hlt (Nat.lt_irrefl _)
  · intro hnone pre post hpre
    have hle := hfirst pre post hpre
    by_cases hsame : before.length=pre.length
    · have heq : before ++ (old++after) = pre ++ (old++post) := by
        rw [← append_assoc,← hsplit,hpre,append_assoc]
      exact (append_inj heq hsame).1.symm
    by_cases hover : pre.length<before.length+old.length
    · exact absurd ⟨before,after,pre,post,hsplit,hpre,by omega,hover⟩ hnone
    · have heq : pre ++ (old++post) = (before++old) ++ after := by
        rw [← append_assoc,← hpre,hsplit]
      obtain ⟨part,-,hpart⟩ := append_eq_append_of_length_le heq (by rw [length_append]; omega)
      obtain ⟨rfl,rfl⟩ := hafter ⟨part,post,by rw [hpart,append_assoc]⟩
      obtain ⟨hnil,-⟩ := append_eq_nil_iff.mp hpre.symm
      obtain ⟨rfl,-⟩ := append_eq_nil_iff.mp hnil
      exact absurd (Nat.le_zero.mp hle) hsame

end Matches

section Lines

variable {old new content updated piece : List Char} {before after pieces : List (List Char)}
variable {target : Nat}

theorem leadingWs_append (line : List Char) : leadingWs line ++ trimStart line = line := by
  have hsplit : line.takeWhile isWhitespace ++ line.dropWhile isWhitespace = line :=
    takeWhile_append_dropWhile
  have hlength : line.length - (trimStart line).length = (line.takeWhile isWhitespace).length := by
    have htotal := congrArg List.length hsplit
    rw [length_append] at htotal
    rw [trimStart]
    omega
  have htake : leadingWs line = line.takeWhile isWhitespace := by
    rw [leadingWs,hlength,← prefix_iff_eq_take.mp (List.takeWhile_prefix isWhitespace)]
  rw [htake,trimStart,hsplit]

def rejoined (piece : List Char) : List Char := stripLineEnd piece ++ newlineOf piece

theorem rejoined_spec (piece : List Char) :
    (¬ ['\r', '\n'] <:+ piece → rejoined piece = piece) ∧
      (['\r', '\n'] <:+ piece → (rejoined piece).length + 1 = piece.length) := by
  unfold rejoined stripLineEnd newlineOf
  by_cases hnewline : piece.getLast? = some '\n'
  · obtain ⟨start,rfl⟩ := getLast?_eq_some_iff.mp hnewline
    rw [if_pos hnewline,if_pos hnewline,dropLast_concat]
    by_cases hreturn : start.getLast? = some '\r'
    · obtain ⟨first,rfl⟩ := getLast?_eq_some_iff.mp hreturn
      have hcrlf : ['\r', '\n'] <:+ first ++ ['\r'] ++ ['\n'] := ⟨first,by simp⟩
      simp
    · rw [if_neg hreturn]
      refine ⟨fun _ => rfl,?_⟩
      rintro ⟨first,hfirst⟩
      have hstart : first ++ ['\r'] = start := by
        have hlast : first ++ ['\r'] ++ ['\n'] = start ++ ['\n'] := by
          rw [← hfirst,append_assoc]
          rfl
        exact append_cancel_right hlast
      exact absurd (by rw [← hstart,getLast?_concat]) hreturn
  · rw [if_neg hnewline,if_neg hnewline,append_nil]
    refine ⟨fun _ => rfl,?_⟩
    rintro ⟨first,rfl⟩
    refine absurd ?_ hnewline
    rw [getLast?_append_of_ne_nil first (by simp)]
    rfl

theorem length_rejoined_le (piece : List Char) : (rejoined piece).length ≤ piece.length := by
  by_cases h : ['\r', '\n'] <:+ piece
  · have heq := (rejoined_spec piece).2 h
    omega
  · rw [(rejoined_spec piece).1 h]

theorem newlineOf_eq (content : List Char) :
    newlineOf content = ((splitInclusive content).getLast?.map newlineOf).getD [] := by
  rcases eq_nil_or_concat (splitInclusive content) with hnil | ⟨before,last,hconcat⟩
  · have hcontent := splitInclusive_flatten content
    rw [hnil] at hcontent
    rw [← hcontent]
    rfl
  · have hlast : last ∈ splitInclusive content := by
      rw [hconcat]
      simp
    have hne : last ≠ [] := (newline_notMem_dropLast hlast).2
    have hcontent := splitInclusive_flatten content
    rw [hconcat,concat_eq_append,flatten_append,flatten_singleton] at hcontent
    rw [hconcat,concat_eq_append,getLast?_concat,Option.map_some,Option.getD_some,
      newlineOf,newlineOf,← hcontent,getLast?_append_of_ne_nil _ hne]

theorem matchingLines_singleton {key : List Char} (h : matchingLines key content = [target]) :
    (textLines content).countP (fun line => trimStart line = key) = 1 ∧
      ∃ before piece after, splitInclusive content = before++piece::after ∧
        before.length=target ∧ trimStart (stripLineEnd piece) = key := by
  have hlength := congrArg List.length h
  rw [matchingLines,length_map,← countP_eq_length_filter] at hlength
  have hcount : (textLines content).countP (fun line => trimStart line = key) = 1 := by
    rw [← zipIdx_map_fst 0 (textLines content),countP_map]
    exact hlength
  refine ⟨hcount,?_⟩
  have hmem : target ∈ matchingLines key content := by
    rw [h]
    exact mem_singleton_self target
  obtain ⟨⟨line,i⟩,hfilter,rfl⟩ := mem_map.mp hmem
  obtain ⟨hin,hkey⟩ := mem_filter.mp hfilter
  have hline : (textLines content)[i]? = some line := mem_zipIdx_iff_getElem?.mp hin
  rw [textLines,List.getElem?_map,Option.map_eq_some_iff] at hline
  obtain ⟨piece,hpiece,rfl⟩ := hline
  obtain ⟨hlt,rfl⟩ := List.getElem?_eq_some_iff.mp hpiece
  refine ⟨(splitInclusive content).take i,_,(splitInclusive content).drop (i+1),?_,?_,
    of_decide_eq_true hkey⟩
  · rw [← drop_eq_getElem_cons hlt,take_append_drop]
  · rw [length_take]
    exact Nat.min_eq_left (Nat.le_of_lt hlt)

theorem joinLines_rebuilt (replaced : List Char → List Char)
    (h : splitInclusive content = before++piece::after) :
    joinLines ((textLines content).mapIdx fun i line =>
        if i=before.length then replaced line else line) ++ newlineOf content =
      (before.map rejoined).flatten ++ (replaced (stripLineEnd piece) ++ newlineOf piece) ++
        (after.map rejoined).flatten := by
  have hmodify : ((textLines content).mapIdx fun i line =>
      if i=before.length then replaced line else line) =
        before.map stripLineEnd ++ replaced (stripLineEnd piece) :: after.map stripLineEnd := by
    have hlines : textLines content =
        before.map stripLineEnd ++ stripLineEnd piece :: after.map stripLineEnd := by
      rw [textLines,h,map_append,map_cons]
    have hmap : ∀ lines : List (List Char), (lines.mapIdx fun i line =>
        if i=before.length then replaced line else line) =
          lines.modify before.length replaced := by
      intro lines
      refine ext_getElem (by simp) fun i _ _ => ?_
      simp [getElem_modify,eq_comm]
    have hlength : before.length = (before.map stripLineEnd).length := by rw [length_map]
    rw [hmap,hlines,hlength]
    generalize before.map stripLineEnd = start
    rw [modify_eq_take_cons_drop (by simp)]
    simp
  have hzip : ∀ pieces : List (List Char),
      List.zipWith (fun line piece => line ++ newlineOf piece) (pieces.map stripLineEnd) pieces =
        pieces.map rejoined := by
    intro pieces
    rw [zipWith_map_left,zipWith_self]
    rfl
  rw [newlineOf_eq,joinLines_append_newline (by simp [textLines])
    (fun start _ _ => newline_of_mem_splitInclusive start),hmodify,h,
    zipWith_append (by simp),zipWith_cons_cons,hzip,hzip,flatten_append,
    flatten_cons,← append_assoc]

theorem rejoined_flatten (hpieces : ∀ piece∈pieces, piece ∈ splitInclusive content)
    (hcrlf : ¬ ['\r', '\n'] <:+: content) : (pieces.map rejoined).flatten = pieces.flatten := by
  have hid : ∀ piece∈pieces, rejoined piece = piece := by
    intro piece hpiece
    refine (rejoined_spec piece).1 fun hsuffix => hcrlf ?_
    refine hsuffix.isInfix.trans ?_
    rw [← splitInclusive_flatten content]
    exact infix_of_mem_flatten (hpieces piece hpiece)
  rw [map_congr_left hid,map_id']

theorem length_rejoined_flatten_le (pieces : List (List Char)) :
    (pieces.map rejoined).flatten.length ≤ pieces.flatten.length := by
  induction pieces with
  | nil => exact Nat.le_refl 0
  | cons piece pieces ih =>
    have hpiece := length_rejoined_le piece
    rw [map_cons,flatten_cons,flatten_cons,length_append,length_append]
    omega

theorem length_rejoined_flatten_lt (hmem : piece∈pieces) (hcrlf : ['\r', '\n'] <:+ piece) :
    (pieces.map rejoined).flatten.length < pieces.flatten.length := by
  obtain ⟨before,after,rfl⟩ := append_of_mem hmem
  have hbefore := length_rejoined_flatten_le before
  have hafter := length_rejoined_flatten_le after
  have hpiece := (rejoined_spec piece).2 hcrlf
  simp only [map_append,map_cons,flatten_append,flatten_cons,length_append]
  omega

theorem stripLineEnd_append (hcrlf : ¬ ['\r', '\n'] <:+: content)
    (h : piece ∈ splitInclusive content) : stripLineEnd piece ++ newlineOf piece = piece := by
  have hone : ([piece].map rejoined).flatten = [piece].flatten :=
    rejoined_flatten (by simpa using h) hcrlf
  simpa [rejoined] using hone

/-- What the fallback applies: the one line that matches is replaced, and the lines are rejoined. -/
theorem replaceSingleLine_applied
    (h : replaceSingleLineIgnoringLeadingWs content old new = some (.applied updated)) :
    (textLines content).countP (fun line => trimStart line = trimStart old) = 1 ∧
      ∃ before piece after, splitInclusive content = before++piece::after ∧
        trimStart (stripLineEnd piece) = trimStart old ∧
        updated = (before.map rejoined).flatten ++
          (leadingWs (stripLineEnd piece) ++ trimStart new ++ newlineOf piece) ++
            (after.map rejoined).flatten := by
  unfold replaceSingleLineIgnoringLeadingWs at h
  dsimp only at h
  split_ifs at h with hline hempty
  split at h
  · cases h
  · rename_i target htarget
    obtain ⟨hcount,before,piece,after,hpieces,rfl,hkey⟩ := matchingLines_singleton htarget
    refine ⟨hcount,before,piece,after,hpieces,hkey,?_⟩
    rw [← joinLines_rebuilt (fun line => leadingWs line ++ trimStart new) hpieces]
    injection h with h
    injection h with h
    exact h.symm
  · cases h

end Lines

section Regions

variable {old new content updated piece : List Char} {before after : List (List Char)}

def ExactRegion (content old new updated : List Char) : Prop :=
  ∃ pre post, content=pre++old++post ∧ updated=pre++new++post ∧
    ∀ pre' post', content=pre'++old++post' → pre'=pre

def StartsLine (pre : List Char) : Prop := pre = [] ∨ pre.getLast? = some '\n'

def EndsLine (post : List Char) : Prop := post = [] ∨ ['\n'] <+: post ∨ ['\r', '\n'] <+: post

theorem startsLine_of_splitInclusive (h : splitInclusive content = before++piece::after) :
    StartsLine before.flatten := by
  rcases eq_nil_or_concat before with rfl | ⟨start,last,rfl⟩
  · exact .inl rfl
  · rw [concat_eq_append,append_assoc,singleton_append] at h
    have hlast := newline_of_mem_splitInclusive start h (cons_ne_nil piece after)
    have hne : last ≠ [] := by
      rintro rfl
      cases hlast
    refine .inr ?_
    rw [concat_eq_append,flatten_append,flatten_singleton,getLast?_append_of_ne_nil _ hne,hlast]

theorem endsLine_of_splitInclusive (h : splitInclusive content = before++piece::after) :
    EndsLine (newlineOf piece ++ after.flatten) := by
  by_cases hnewline : piece.getLast? = some '\n'
  · rw [newlineOf,if_pos hnewline]
    exact .inr (.inl (prefix_append ['\n'] after.flatten))
  · have hafter : after = [] := by
      by_contra hne
      exact hnewline (newline_of_mem_splitInclusive before h hne)
    rw [newlineOf,if_neg hnewline,hafter]
    exact .inl rfl

/-- The text is nowhere in the content, one line is the text up to leading white space, and that
line is replaced under its own indentation. -/
def LineRegion (content old new updated : List Char) : Prop :=
  ¬ old <:+: content ∧
    (textLines content).countP (fun line => trimStart line = trimStart old) = 1 ∧
    ∃ pre line post, content=pre++line++post ∧ StartsLine pre ∧ EndsLine post ∧
      '\n' ∉ line ∧ trimStart line = trimStart old ∧
      updated = pre ++ (leadingWs line ++ trimStart new) ++ post

/-- An edit changes one region. -/
def OneRegion (content old new updated : List Char) : Prop :=
  ExactRegion content old new updated ∨ LineRegion content old new updated

/-- No two places overlap, and a content in which the text is not found has no carriage return
before a newline. -/
def Regular (old content : List Char) : Prop :=
  ¬ Overlapping old content ∧ (old <:+: content ∨ ¬ ['\r', '\n'] <:+: content)

theorem matchCount_pos (h : old <:+: content) : matchCount old content ≠ 0 := by
  unfold matchCount
  split_ifs with hempty
  · exact Nat.succ_ne_zero _
  · exact mt (matchesFrom_eq_zero (mt isEmpty_iff.mpr hempty)).mp (not_not.mpr h)

theorem exact_iff (hone : matchCount old content = 1) :
    OneRegion content old new (replaceFirst old new content) ↔ Regular old content := by
  obtain ⟨before,after,hfound,hafter⟩ := matchCount_eq_one hone
  obtain ⟨hsplit,-⟩ := dropInfix?_eq_some.mp hfound
  have hin : old <:+: content := ⟨before,after,hsplit.symm⟩
  have hunique := unique_iff_not_overlapping hfound hafter
  constructor
  · rintro (⟨pre,post,-,-,hpre⟩ | ⟨hnone,-⟩)
    · refine ⟨hunique.mp fun pre' post' hpre' => ?_,.inl hin⟩
      rw [hpre pre' post' hpre',hpre before after hsplit]
    · exact absurd hin hnone
  · rintro ⟨hnot,-⟩
    refine .inl ⟨before,after,hsplit,?_,hunique.mpr hnot⟩
    rw [replaceFirst,hfound]

theorem length_of_lineRegion (h : LineRegion content old new updated) :
    updated.length + (trimStart old).length = content.length + (trimStart new).length := by
  obtain ⟨-,-,pre,line,post,rfl,-,-,-,hkey,rfl⟩ := h
  have hline := congrArg List.length (leadingWs_append line)
  rw [hkey,length_append] at hline
  simp only [length_append]
  omega

theorem fallback_iff (hnone : ¬ old <:+: content)
    (h : replaceSingleLineIgnoringLeadingWs content old new = some (.applied updated)) :
    OneRegion content old new updated ↔ Regular old content := by
  obtain ⟨hcount,before,piece,after,hpieces,hkey,hupdated⟩ := replaceSingleLine_applied h
  have hcontent := splitInclusive_flatten content
  rw [hpieces,flatten_append,flatten_cons] at hcontent
  have hmem : piece ∈ splitInclusive content := by
    rw [hpieces]
    exact mem_append_right before mem_cons_self
  constructor
  · intro hregion
    refine ⟨?_,.inr ?_⟩
    · rintro ⟨pre,post,-,-,hpre,-⟩
      exact hnone ⟨pre,post,hpre.symm⟩
    · intro hcrlf
      obtain ⟨crlfPiece,hcrlfMem,hend⟩ := crlf_of_infix hcrlf
      have hlt := length_rejoined_flatten_lt hcrlfMem hend
      rw [hpieces] at hlt
      rcases hregion with ⟨pre,post,hpre,-⟩ | hregion
      · exact hnone ⟨pre,post,hpre.symm⟩
      · have hlength := length_of_lineRegion hregion
        have hline := congrArg List.length (leadingWs_append (stripLineEnd piece))
        rw [hkey,length_append] at hline
        rw [hupdated,← hcontent] at hlength
        simp only [map_append,map_cons,flatten_append,flatten_cons,
          length_append,rejoined] at hlt hlength
        omega
  · rintro ⟨-,hin | hcrlf⟩
    · exact absurd hin hnone
    refine .inr ⟨hnone,hcount,before.flatten,stripLineEnd piece,
      newlineOf piece ++ after.flatten,?_,?_,?_,?_,hkey,?_⟩
    · rw [append_assoc,← append_assoc (stripLineEnd piece),
        stripLineEnd_append hcrlf hmem,hcontent]
    · exact startsLine_of_splitInclusive hpieces
    · exact endsLine_of_splitInclusive hpieces
    · exact newline_notMem_textLines (mem_map_of_mem hmem)
    · have hbefore : (before.map rejoined).flatten = before.flatten := by
        refine rejoined_flatten (fun p hp => ?_) hcrlf
        rw [hpieces]
        exact mem_append_left _ hp
      have hafter : (after.map rejoined).flatten = after.flatten := by
        refine rejoined_flatten (fun p hp => ?_) hcrlf
        rw [hpieces]
        exact mem_append_right _ (mem_cons_of_mem piece hp)
      rw [hupdated,hbefore,hafter]
      simp only [append_assoc]

theorem applied_iff (h : applyOneEdit content old new = .applied updated) :
    OneRegion content old new updated ↔ Regular old content := by
  unfold applyOneEdit at h
  dsimp only at h
  split_ifs at h with hone hmany
  · injection h with h
    rw [← h]
    exact exact_iff hone
  · have hnone : ¬ old <:+: content := fun hin => by
      have hpos := matchCount_pos hin
      omega
    split at h
    · rename_i outcome houtcome
      rw [h] at houtcome
      exact fallback_iff hnone houtcome
    · cases h

end Regions

section Lists

variable {content : List Char} {s : Patched}

theorem foldl_applied (edits : List (List Char × List Char)) (s : Patched)
    (hs : s.applied.foldl patchStep ⟨content,[],[]⟩ = ⟨s.content,s.applied,[]⟩) :
    (edits.foldl patchStep s).applied.foldl patchStep ⟨content,[],[]⟩ =
      ⟨(edits.foldl patchStep s).content,(edits.foldl patchStep s).applied,[]⟩ := by
  induction edits generalizing s with
  | nil => exact hs
  | cons edit edits ih =>
    refine ih (patchStep s edit) ?_
    cases hedit : applyOneEdit s.content edit.1 edit.2 with
    | applied updated =>
      have hstep : patchStep s edit =
          { s with content := updated, applied := s.applied ++ [edit] } := by
        rw [patchStep,hedit]
      rw [hstep]
      rw [foldl_append,hs,foldl_cons,foldl_nil,patchStep]
      rw [hedit]
    | failed reason =>
      have hstep : patchStep s edit = { s with failures := s.failures ++ [(edit.1, reason)] } := by
        rw [patchStep,hedit]
      rw [hstep]
      exact hs

/-- A patch is the composition of its applied edits, each of which changes one region exactly if
the content it is applied to is regular for its text. -/
theorem patch_composed {request : List (List Char)} (h : patch content request = .ok s) :
    s.applied.foldl patchStep ⟨content,[],[]⟩ = ⟨s.content,s.applied,[]⟩ ∧
      ∃ edits, editPairs request = some edits ∧ edits.foldl patchStep ⟨content,[],[]⟩ = s ∧
        ∀ before old new after updated, edits = before ++ (old, new) :: after →
          applyOneEdit (before.foldl patchStep ⟨content,[],[]⟩).content old new =
            .applied updated →
          (OneRegion (before.foldl patchStep ⟨content,[],[]⟩).content old new updated ↔
            Regular old (before.foldl patchStep ⟨content,[],[]⟩).content) := by
  unfold patch at h
  cases hedits : editPairs request with
  | none =>
    rw [hedits] at h
    cases h
  | some edits =>
    rw [hedits] at h
    injection h with h
    refine ⟨?_,edits,rfl,h,?_⟩
    · rw [← h]
      exact foldl_applied edits ⟨content,[],[]⟩ rfl
    · intro before old new after updated _ happlied
      exact applied_iff happlied

/-- The second edit finds its line under another indentation. -/
theorem patch_composed_twoEdits :
    patch "ab\n\tc\n".toList ["b".toList, "x".toList, "  c".toList, "d".toList] =
        .ok ⟨"ax\n\td\n".toList,[("b".toList, "x".toList), ("  c".toList, "d".toList)],[]⟩ ∧
      OneRegion "ab\n\tc\n".toList "b".toList "x".toList "ax\n\tc\n".toList := by
  have hpatch : patch "ab\n\tc\n".toList ["b".toList, "x".toList, "  c".toList, "d".toList] =
      .ok ⟨"ax\n\td\n".toList,[("b".toList, "x".toList), ("  c".toList, "d".toList)],[]⟩ := by
    decide +kernel
  obtain ⟨-,edits,hedits,-,hregions⟩ := patch_composed hpatch
  obtain rfl : [("b".toList, "x".toList), ("  c".toList, "d".toList)] = edits :=
    Option.some.inj hedits
  refine ⟨hpatch,(hregions [] _ _ _ _ rfl (by decide +kernel)).mpr ⟨?_,.inl (by decide)⟩⟩
  rintro ⟨pre,post,pre',post',-,-,hlt,hover⟩
  simp at hover
  omega

/-- `aa` is found at two places of `aaa` that overlap, and the fallback turns the carriage returns
of the other lines into newlines. -/
theorem applied_changes_more :
    (applyOneEdit "aaa".toList "aa".toList "x".toList = .applied "xa".toList ∧
      ¬ OneRegion "aaa".toList "aa".toList "x".toList "xa".toList) ∧
    applyOneEdit "a\r\n\tb\r\n".toList " b".toList "c".toList = .applied "a\n\tc\n".toList ∧
      ¬ OneRegion "a\r\n\tb\r\n".toList " b".toList "c".toList "a\n\tc\n".toList := by
  have hoverlap : applyOneEdit "aaa".toList "aa".toList "x".toList = .applied "xa".toList := by
    decide +kernel
  have hreturns : applyOneEdit "a\r\n\tb\r\n".toList " b".toList "c".toList =
      .applied "a\n\tc\n".toList := by decide +kernel
  refine ⟨⟨hoverlap,fun h => ?_⟩,hreturns,fun h => ?_⟩
  · exact ((applied_iff hoverlap).mp h).1
      ⟨[],"a".toList,"a".toList,[],by decide,by decide,by decide,by decide⟩
  · rcases ((applied_iff hreturns).mp h).2 with hin | hcrlf
    · revert hin
      decide
    · exact hcrlf (by decide)

end Lists

end Daimonos.Ops
