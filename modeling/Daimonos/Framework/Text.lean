import Mathlib

namespace Daimonos.Framework

open List

def utf8Length (text : List Char) : Nat := (text.map Char.utf8Size).sum

@[simp] theorem utf8Length_nil : utf8Length [] = 0 := rfl

@[simp] theorem utf8Length_cons (c : Char) (text : List Char) :
    utf8Length (c::text) = c.utf8Size + utf8Length text := by
  simp [utf8Length]

@[simp] theorem utf8Length_append (x y : List Char) :
    utf8Length (x++y) = utf8Length x + utf8Length y := by
  simp [utf8Length]

theorem utf8Length_le_of_infix {x y : List Char} (h : x <:+: y) : utf8Length x ≤ utf8Length y := by
  obtain ⟨before,after,rfl⟩ := h
  rw [utf8Length_append,utf8Length_append]
  omega

def isCharBoundary : List Char → Nat → Bool
  | _, 0 => true
  | [], _+1 => false
  | c::rest, i+1 =>
    decide (c.utf8Size ≤ i+1) && isCharBoundary rest (i+1-c.utf8Size)

def sliceTo : List Char → Nat → Option (List Char)
  | _, 0 => some []
  | [], _+1 => none
  | c::rest, i+1 =>
    if c.utf8Size ≤ i+1 then (sliceTo rest (i+1-c.utf8Size)).map (c :: ·) else none

def sliceFrom : List Char → Nat → Option (List Char)
  | text, 0 => some text
  | [], _+1 => none
  | c::rest, i+1 =>
    if c.utf8Size ≤ i+1 then sliceFrom rest (i+1-c.utf8Size) else none

section Boundary

variable {text : List Char} {i : Nat}

theorem isCharBoundary_iff :
    isCharBoundary text i = true ↔ ∃ before after, text=before++after ∧ utf8Length before = i := by
  induction text generalizing i with
  | nil =>
    cases i with
    | zero => exact ⟨fun _ => ⟨[],[],rfl,rfl⟩,fun _ => rfl⟩
    | succ i =>
      refine ⟨fun h => (by cases h),?_⟩
      rintro ⟨before,after,hsplit,hlength⟩
      obtain ⟨rfl,-⟩ := append_eq_nil_iff.mp hsplit.symm
      cases hlength
  | cons c rest ih =>
    cases i with
    | zero => exact ⟨fun _ => ⟨[],c::rest,rfl,rfl⟩,fun _ => rfl⟩
    | succ i =>
      rw [isCharBoundary,Bool.and_eq_true,decide_eq_true_eq,ih]
      constructor
      · rintro ⟨hle,before,after,rfl,hlength⟩
        refine ⟨c::before,after,rfl,?_⟩
        rw [utf8Length_cons,hlength]
        omega
      · rintro ⟨before,after,hsplit,hlength⟩
        cases before with
        | nil => cases hlength
        | cons d before =>
          obtain ⟨rfl,rfl⟩ := List.cons.inj hsplit
          rw [utf8Length_cons] at hlength
          exact ⟨by omega,before,after,rfl,by omega⟩

theorem utf8Length_cons_eq_succ (c : Char) (before : List Char) :
    ∃ n, utf8Length (c::before) = n+1 ∧ c.utf8Size≤n+1 ∧
      n+1-c.utf8Size = utf8Length before := by
  have hpos := c.utf8Size_pos
  refine ⟨c.utf8Size + utf8Length before - 1,?_,?_,?_⟩
  · rw [utf8Length_cons]
    omega
  · omega
  · omega

theorem sliceTo_append (before after : List Char) :
    sliceTo (before++after) (utf8Length before) = some before := by
  induction before with
  | nil => cases after <;> rfl
  | cons c before ih =>
    obtain ⟨n,hn,hle,hrest⟩ := utf8Length_cons_eq_succ c before
    rw [hn,cons_append,sliceTo,if_pos hle,hrest,ih,Option.map_some]

theorem sliceFrom_append (before after : List Char) :
    sliceFrom (before++after) (utf8Length before) = some after := by
  induction before with
  | nil => cases after <;> rfl
  | cons c before ih =>
    obtain ⟨n,hn,hle,hrest⟩ := utf8Length_cons_eq_succ c before
    rw [hn,cons_append,sliceFrom,if_pos hle,hrest,ih]

end Boundary

def splitInclusive : List Char → List (List Char)
  | [] => []
  | c::rest =>
    if c = '\n' then [c] :: splitInclusive rest
    else
      match splitInclusive rest with
      | [] => [[c]]
      | line::others => (c::line) :: others

def stripLineEnd (line : List Char) : List Char :=
  if line.getLast? = some '\n' then
    if line.dropLast.getLast? = some '\r' then line.dropLast.dropLast else line.dropLast
  else line

def textLines (text : List Char) : List (List Char) := (splitInclusive text).map stripLineEnd

def joinLines (lines : List (List Char)) : List Char := ['\n'].intercalate lines

theorem splitInclusive_flatten (text : List Char) : (splitInclusive text).flatten = text := by
  induction text with
  | nil => rfl
  | cons c rest ih =>
    rw [splitInclusive]
    split_ifs
    · rw [flatten_cons,ih,singleton_append]
    · split
      · rename_i hnil
        rw [hnil] at ih
        rw [← ih]
        rfl
      · rename_i line others hcons
        rw [hcons] at ih
        rw [← ih]
        rfl

def newlineOf (piece : List Char) : List Char :=
  if piece.getLast? = some '\n' then ['\n'] else []

theorem newline_of_mem_splitInclusive {text piece : List Char} (before : List (List Char))
    {after : List (List Char)} (h : splitInclusive text = before++piece::after)
    (hafter : after ≠ []) :
    piece.getLast? = some '\n' := by
  induction text generalizing before piece with
  | nil =>
    cases before <;> cases h
  | cons c rest ih =>
    rw [splitInclusive] at h
    split_ifs at h with hc
    · cases before with
      | nil =>
        obtain ⟨rfl,-⟩ := List.cons.inj h
        rw [getLast?_singleton,hc]
      | cons first before => exact ih before (List.cons.inj h).2
    · split at h
      · cases before with
        | nil => exact absurd (List.cons.inj h).2.symm hafter
        | cons first before => cases before <;> cases (List.cons.inj h).2
      · rename_i line others hsplit
        cases before with
        | nil =>
          obtain ⟨rfl,rfl⟩ := List.cons.inj h
          have hlast := ih [] hsplit
          rw [getLast?_cons,hlast,Option.getD_some]
        | cons first before =>
          refine ih (line::before) ?_
          rw [hsplit,(List.cons.inj h).2]
          rfl

theorem joinLines_append_newline {pieces lines : List (List Char)}
    (hlength : lines.length=pieces.length)
    (hnewline : ∀ before piece after, pieces=before++piece::after → after ≠ [] →
      piece.getLast? = some '\n') :
    joinLines lines ++ (pieces.getLast?.map newlineOf).getD [] =
      (List.zipWith (fun line piece => line ++ newlineOf piece) lines pieces).flatten := by
  induction lines generalizing pieces with
  | nil =>
    cases pieces with
    | nil => rfl
    | cons piece rest => cases hlength
  | cons line lines ih =>
    cases pieces with
    | nil => cases hlength
    | cons piece pieces =>
      have hrest := ih (Nat.succ.inj hlength) fun before other after heq =>
        hnewline (piece::before) other after (by rw [heq,cons_append])
      cases lines with
      | nil =>
        obtain rfl := eq_nil_of_length_eq_zero (Nat.succ.inj hlength).symm
        simp [joinLines]
      | cons second lines =>
        cases pieces with
        | nil => cases hlength
        | cons next pieces =>
          have hpiece : newlineOf piece = ['\n'] :=
            if_pos (hnewline [] piece (next::pieces) rfl (by simp))
          rw [zipWith_cons_cons,flatten_cons,← hrest,hpiece,joinLines,intercalate_cons_cons,
            ← joinLines,getLast?_cons_cons,append_assoc,append_assoc]

theorem crlf_of_infix {text : List Char} (h : ['\r', '\n'] <:+: text) :
    ∃ piece ∈ splitInclusive text, ['\r', '\n'] <:+ piece := by
  induction text with
  | nil => exact absurd (infix_nil.mp h) (by decide)
  | cons c rest ih =>
    rcases infix_cons_iff.mp h with hstart | hrest
    · obtain ⟨tail,htail⟩ := hstart
      obtain ⟨rfl,rfl⟩ := List.cons.inj htail
      exact ⟨['\r', '\n'],by simp [splitInclusive],suffix_refl _⟩
    · obtain ⟨piece,hpiece,hend⟩ := ih hrest
      rw [splitInclusive]
      split_ifs with hc
      · exact ⟨piece,mem_cons_of_mem _ hpiece,hend⟩
      · split
        · rename_i hnil
          rw [hnil] at hpiece
          cases hpiece
        · rename_i line others hsplit
          rw [hsplit] at hpiece
          rcases mem_cons.mp hpiece with rfl | hpiece
          · exact ⟨c::piece,mem_cons_self,hend.trans (suffix_cons c piece)⟩
          · exact ⟨piece,mem_cons_of_mem _ hpiece,hend⟩

theorem newline_notMem_dropLast {text line : List Char} (h : line ∈ splitInclusive text) :
    '\n' ∉ line.dropLast ∧ line ≠ [] := by
  induction text generalizing line with
  | nil => cases h
  | cons c rest ih =>
    rw [splitInclusive] at h
    split_ifs at h with hc
    · rcases mem_cons.mp h with rfl | h
      · exact ⟨by simp,by simp⟩
      · exact ih h
    · split at h
      · obtain rfl := mem_singleton.mp h
        exact ⟨by simp,by simp⟩
      · rename_i first others hsplit
        rcases mem_cons.mp h with rfl | h
        · obtain ⟨hnone,hne⟩ := ih (hsplit ▸ mem_cons_self)
          refine ⟨?_,by simp⟩
          rw [dropLast_cons_of_ne_nil hne,mem_cons,not_or]
          exact ⟨Ne.symm hc,hnone⟩
        · exact ih (hsplit ▸ mem_cons_of_mem first h)

theorem newline_notMem_textLines {text line : List Char} (h : line ∈ textLines text) :
    '\n' ∉ line := by
  obtain ⟨piece,hpiece,rfl⟩ := mem_map.mp h
  obtain ⟨hnone,hne⟩ := newline_notMem_dropLast hpiece
  unfold stripLineEnd
  split_ifs with hend hreturn
  · exact fun hin => hnone (dropLast_subset _ hin)
  · exact hnone
  · intro hin
    rw [← dropLast_append_getLast hne,mem_append,mem_singleton] at hin
    rcases hin with hin | hin
    · exact hnone hin
    · exact hend (by rw [getLast?_eq_some_getLast hne,← hin])

theorem count_joinLines {lines : List (List Char)} (h : ∀ line∈lines, '\n' ∉ line) :
    (joinLines lines).count '\n' = lines.length-1 := by
  induction lines with
  | nil => rfl
  | cons line rest ih =>
    have hline : line.count '\n' = 0 := count_eq_zero.mpr (h line mem_cons_self)
    have ih' := ih fun l hl => h l (mem_cons_of_mem line hl)
    cases rest with
    | nil => simpa [joinLines] using hline
    | cons second rest =>
      rw [joinLines,intercalate_cons_cons,count_append,count_append,hline,← joinLines,ih']
      simp
      omega

/-- The characters with the property `White_Space`, at which `split_whitespace` splits and which
`trim` takes off. -/
def isWhitespace (c : Char) : Bool :=
  let n := c.toNat
  decide (9≤n ∧ n≤13 ∨ 0x2000≤n ∧ n≤0x200A ∨
    n ∈ [0x20, 0x85, 0xA0, 0x1680, 0x2028, 0x2029, 0x202F, 0x205F, 0x3000])

section Search

variable {α : Type*} [DecidableEq α] {text needle before after : List α}

def splitLast (text needle : List α) : Option (List α × List α) :=
  (text.reverse.dropInfix? needle.reverse).map fun found => (found.2.reverse, found.1.reverse)

theorem dropInfix?_eq_some :
    text.dropInfix? needle = some (before, after) ↔
      text=before++needle++after ∧
        ∀ other more, text=other++needle++more → before.length ≤ other.length := by
  rw [dropInfix?_eq_some_iff]
  constructor
  · rintro ⟨⟨found,hsplit,hfound⟩,hfirst⟩
    obtain rfl := beq_iff_eq.mp hfound
    exact ⟨hsplit,fun other more hother => hfirst other found more hother hfound⟩
  · rintro ⟨hsplit,hfirst⟩
    refine ⟨⟨needle,hsplit,beq_self_eq_true needle⟩,?_⟩
    intro other found more hother hfound
    obtain rfl := beq_iff_eq.mp hfound
    exact hfirst other more hother

theorem exists_dropInfix? (h : needle <:+: text) :
    ∃ before after, text.dropInfix? needle = some (before, after) := by
  classical
  obtain ⟨other,more,hfound⟩ := h
  have hsome : ∃ n, ∃ other more, other.length=n ∧ text=other++needle++more :=
    ⟨_,other,more,rfl,hfound.symm⟩
  obtain ⟨before,after,hlength,hsplit⟩ := Nat.find_spec hsome
  refine ⟨before,after,dropInfix?_eq_some.mpr ⟨hsplit,?_⟩⟩
  intro other more hother
  rw [hlength]
  exact Nat.find_min' hsome ⟨other,more,rfl,hother⟩

theorem splitLast_eq_some :
    splitLast text needle = some (before, after) ↔
      text=before++needle++after ∧
        ∀ other more, text=other++needle++more → other.length≤before.length := by
  have hsplit : splitLast text needle = some (before, after) ↔
      text.reverse.dropInfix? needle.reverse = some (after.reverse, before.reverse) := by
    simp only [splitLast,Option.map_eq_some_iff,Prod.exists,Prod.mk.injEq]
    constructor
    · rintro ⟨a,b,hfound,rfl,rfl⟩
      simpa using hfound
    · intro hfound
      exact ⟨_,_,hfound,by simp,by simp⟩
  rw [hsplit,dropInfix?_eq_some]
  have hrev : ∀ x y : List α, text.reverse=x++needle.reverse++y ↔
      text=y.reverse++needle++x.reverse := by
    intro x y
    simp
  rw [hrev,reverse_reverse,reverse_reverse]
  refine and_congr_right fun htext => ?_
  have hlength := congrArg List.length htext
  constructor
  · intro hfirst other more hother
    have hle := hfirst more.reverse other.reverse ((hrev _ _).mpr (by simpa using hother))
    have hlength' := congrArg List.length hother
    simp only [length_append,length_reverse] at hle hlength hlength'
    omega
  · intro hlast other more hother
    have hother' := (hrev _ _).mp hother
    have hle := hlast _ _ hother'
    have hlength' := congrArg List.length hother'
    simp only [length_append,length_reverse] at hle hlength hlength' ⊢
    omega

theorem exists_splitLast (h : needle <:+: text) :
    ∃ before after, splitLast text needle = some (before, after) := by
  obtain ⟨before,after,hfound⟩ := exists_dropInfix? (List.reverse_infix.mpr h)
  exact ⟨_,_,by rw [splitLast,hfound,Option.map_some]⟩

theorem infix_of_splitLast (h : splitLast text needle = some (before, after)) :
    needle <:+: text := by
  obtain ⟨rfl,-⟩ := splitLast_eq_some.mp h
  exact ⟨before,after,rfl⟩

omit [DecidableEq α] in
theorem append_eq_append_of_length_le {x y z : List α} (h : x++y=z++after)
    (hle : z.length≤x.length) : ∃ part, x=z++part ∧ after=part++y := by
  rcases append_eq_append_iff.mp h with ⟨part,hz,hy⟩ | ⟨part,hx,hafter⟩
  · have hnil : part = [] := by
      have hlength := congrArg List.length hz
      rw [length_append] at hlength
      exact eq_nil_of_length_eq_zero (by omega)
    subst hnil
    exact ⟨[],by simpa using hz.symm,by simpa using hy.symm⟩
  · exact ⟨part,hx,hafter⟩

omit [DecidableEq α] in
/-- What has no separator in it is found on one side of the separator. -/
theorem occurrence_of_sep {x y : List α} {sep : α} (hsep : sep ∉ needle)
    (h : x++sep::y=before++needle++after) :
    (∃ more, x=before++needle++more) ∨
      ∃ rest, before=x++sep::rest ∧ y=rest++needle++after := by
  rcases append_eq_append_iff.mp h with ⟨part,hpart,hrest⟩ | ⟨part,hpart,-⟩
  · cases part with
    | nil => exact .inl ⟨[],by simpa using hpart.symm⟩
    | cons d part =>
      obtain ⟨rfl,rfl⟩ := List.cons.inj hrest
      rcases append_eq_append_iff.mp hpart with ⟨piece,-,hneedle⟩ | ⟨piece,hbefore,hneedle⟩
      · exact absurd (hneedle ▸ (by simp : sep∈piece++sep::part)) hsep
      · cases piece with
        | nil => exact absurd (hneedle ▸ (by simp : sep∈sep::part)) (by simpa using hsep)
        | cons e piece =>
          obtain ⟨rfl,rfl⟩ := List.cons.inj hneedle
          exact .inr ⟨piece,hbefore,by simp⟩
  · exact .inl ⟨part,hpart⟩

omit [DecidableEq α] in
theorem infix_append_sep {x y : List α} {sep : α} (hsep : sep ∉ needle) :
    needle <:+: x++sep::y ↔ needle <:+: x ∨ needle <:+: y := by
  constructor
  · rintro ⟨before,after,hfound⟩
    rcases occurrence_of_sep hsep hfound.symm with ⟨more,hx⟩ | ⟨rest,-,hy⟩
    · exact .inl ⟨before,more,hx.symm⟩
    · exact .inr ⟨rest,after,hy.symm⟩
  · rintro (h | h)
    · exact h.trans (prefix_append x _).isInfix
    · exact h.trans ⟨x ++ [sep],[],by simp⟩

end Search

end Daimonos.Framework
