import Daimonos.Framework.Decimal
import Daimonos.Framework.Text

namespace Daimonos.Agent

open Framework List

structure Skill where
  name : List Char
  description : List Char
  disableModelInvocation : Bool := false

namespace Skill

def eligible (skills : List Skill) : List Skill := skills.filter (!·.disableModelInvocation)

def header (introduction : List Char) : List Char :=
  introduction.rdropWhile isWhitespace ++ ['\n', '\n']

def line (skill : Skill) : List Char :=
  "- `".toList++skill.name ++ "`: ".toList ++
    [' '].intercalate ((skill.description.splitOnP isWhitespace).filter (· ≠ [])) ++ ['\n']

def notice (omitted : Nat) : List Char :=
  "\n[".toList ++ decimal omitted ++
    " skill(s) omitted because the catalog reached its byte budget.]\n".toList

structure Listing where
  included : List (List Char) := []
  used : Nat

def includeLines (max : Nat) (l : Listing) : List (List Char) → Listing
  | [] => l
  | line::lines =>
    if max < l.used + utf8Length line then l
    else includeLines max ⟨line::l.included,l.used + utf8Length line⟩ lines

/-- The loop that makes room for the notice; `none` if it has not ended after `rounds` rounds. -/
def shrink (max : Nat) : Nat → Listing → Nat → Option (Option (Listing × List Char))
  | 0, _, _ => none
  | rounds+1, l, omitted =>
    if l.used + utf8Length (notice omitted) ≤ max then some (some (l, notice omitted))
    else match l.included with
      | [] => some none
      | removed::included =>
        shrink max rounds ⟨included,l.used - utf8Length removed⟩ (omitted+1)

/-- The catalog within `max` bytes, its loop given one round more than there are lines listed. -/
def catalog (max : Nat) (skills : List Skill) (introduction : List Char) :
    Option (Option (List Char)) :=
  let lines := (eligible skills).map line
  let header := header introduction
  if (eligible skills).isEmpty ∨ max < utf8Length header then some none
  else
    let l := includeLines max { used := utf8Length header } lines
    let omitted := lines.length-l.included.length
    let closed :=
      if omitted=0 then some (some (l, [])) else shrink max (l.included.length+1) l omitted
    closed.map (Option.map fun (l, notice) => header++l.included.reverse.flatten++notice)

variable {max base : Nat} {l : Listing} {lines rest : List (List Char)}

/-- All of `lines` but the last ones, `rest`, are listed, and their bytes are counted from `base`. -/
structure Tallied (base : Nat) (lines rest : List (List Char)) (l : Listing) : Prop where
  lines : l.included.reverse++rest=lines
  used : l.used = base + utf8Length l.included.reverse.flatten

theorem includeLines_tallied (h : Tallied base lines rest l) (hfits : l.used ≤ max) :
    ∃ rest', Tallied base lines rest' (includeLines max l rest) ∧
      (includeLines max l rest).used ≤ max := by
  induction rest generalizing l with
  | nil => exact ⟨[],h,hfits⟩
  | cons line rest ih =>
    rw [includeLines]
    split_ifs with hmax
    · exact ⟨_,h,hfits⟩
    · apply ih ⟨?_,?_⟩ (Nat.le_of_not_lt hmax)
      · simp [← h.lines]
      · simp [h.used,Nat.add_assoc]

/-- If there is a catalog, its notice counts the lines left out and its bytes fit in `max`. -/
def Closed (max base : Nat) (lines : List (List Char)) (r : Option (Listing × List Char)) : Prop :=
  ∀ l text, r = some (l, text) → ∃ rest, Tallied base lines rest l ∧
    text = (if rest = [] then [] else notice rest.length) ∧ l.used + utf8Length text ≤ max

theorem shrink_closed (rounds : Nat) (h : Tallied base lines rest l) (hrest : rest ≠ [])
    (hrounds : l.included.length < rounds) :
    ∃ r, shrink max rounds l rest.length = some r ∧ Closed max base lines r := by
  induction rounds generalizing l rest with
  | zero => omega
  | succ rounds ih =>
    obtain ⟨included,used⟩ := l
    rw [shrink]
    split_ifs with hfits
    · refine ⟨_,rfl,?_⟩
      intro l' text heq
      cases heq
      exact ⟨rest,h,(if_neg hrest).symm,hfits⟩
    · cases included with
      | nil => exact ⟨none,rfl,nofun⟩
      | cons removed included =>
        obtain ⟨hlines,hused⟩ := h
        simp at hlines hused
        apply ih ⟨hlines,?_⟩ (cons_ne_nil _ _) (Nat.lt_of_succ_lt_succ hrounds)
        simp only
        omega

/-- The loop ends, and a catalog fits the budget, lists the eligible skills up to those it omits, and
says how many these are if there are any. -/
theorem catalog_exact (max : Nat) (skills : List Skill) (introduction : List Char) :
    ∃ result, catalog max skills introduction = some result ∧ ∀ out∈result,
      utf8Length out ≤ max ∧ ∃ listed omitted, eligible skills = listed++omitted ∧
        out = header introduction ++ (listed.map line).flatten ++
          if omitted = [] then [] else notice omitted.length := by
  unfold catalog
  extract_lets lines header l omitted closed
  split_ifs with hnone
  · exact ⟨none,rfl,nofun⟩
  obtain ⟨rest,htallied,hfits⟩ : ∃ rest, Tallied (utf8Length header) lines rest l ∧ l.used ≤ max :=
    includeLines_tallied ⟨rfl,rfl⟩ (Nat.le_of_not_lt fun h => hnone (.inr h))
  have homitted : omitted=rest.length := by simp [omitted,← htallied.lines]
  obtain ⟨r,hr,hclosed⟩ : ∃ r, closed = some r ∧ Closed max (utf8Length header) lines r := by
    by_cases hrest : rest = []
    · refine ⟨some (l, []),by simp [closed,homitted,hrest],?_⟩
      intro l' text heq
      cases heq
      exact ⟨rest,htallied,(if_pos hrest).symm,hfits⟩
    · simpa [closed,homitted,hrest] using shrink_closed _ htallied hrest (Nat.lt_succ_self _)
  refine ⟨_,congrArg _ hr,?_⟩
  intro out hout
  obtain ⟨⟨l',text⟩,hr,rfl⟩ := Option.map_eq_some_iff.mp hout
  obtain ⟨rest',htallied,htext,hfits⟩ := hclosed l' text hr
  obtain ⟨listed,omitted,hskills,hlisted,rfl⟩ := map_eq_append_iff.mp htallied.lines.symm
  refine ⟨?_,listed,omitted,hskills,?_⟩
  · rwa [utf8Length_append,utf8Length_append,← htallied.used]
  · simp [hlisted,htext,header]

/-- The notice does not fit beside the one line listed, which makes room for it. -/
example :
    let description := replicate 70 'x'
    catalog 90 [⟨['a'],description,false⟩, ⟨['b'],[],true⟩, ⟨['c'],description,false⟩] [] =
      some (some (header [] ++ notice 2)) := by
  decide +kernel

end Skill

end Daimonos.Agent
