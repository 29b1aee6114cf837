import Daimonos.Framework.Decimal

namespace Daimonos.Mcp

open Framework List

scoped instance decidableMemName (name : List Char) (names : List (List Char)) :
    Decidable (name∈names) :=
  decidable_of_iff (names.contains name = true) contains_iff_mem

def maxToolNameLen : Nat := 64

def remoteToolPrefixText : List Char := ['m', 'c', 'p', '_', '_']

def isNameChar (c : Char) : Bool := c.isAlphanum || c = '_' || c = '-'

def sanitizeChar (c : Char) : Char := if isNameChar c then c else '_'

def namespacedName (server tool : List Char) : List Char :=
  let raw := remoteToolPrefixText++server ++ ['_', '_'] ++ tool
  (raw.map sanitizeChar).take maxToolNameLen

def nameSuffix (n : Nat) : List Char := ['_', '_'] ++ decimal n

def numberedName (base : List Char) (n : Nat) : List Char :=
  let suffix := nameSuffix n
  let candidate :=
    if base.length+suffix.length > maxToolNameLen then base.take (maxToolNameLen-suffix.length)
    else base
  candidate++suffix

/-- The exposed name of a tool, or `none` if it cannot be placed, and the names used then. -/
def resolveName (server tool : List Char) (native used : List (List Char)) :
    Option (List Char) × List (List Char) :=
  let base := namespacedName server tool
  if base∈native then (none, used)
  else if base ∉ used then (some base, base::used)
  else
    match ((List.range' 2 98).map (numberedName base)).find?
        fun candidate => decide (candidate ∉ native ∧ candidate ∉ used) with
    | some candidate => (some candidate, candidate::used)
    | none => (none, used)

structure WellNamed (name : List Char) : Prop where
  nonempty : 1≤name.length
  short : name.length ≤ maxToolNameLen
  chars : ∀ c∈name, isNameChar c = true

theorem isNameChar_sanitizeChar (c : Char) : isNameChar (sanitizeChar c) = true := by
  unfold sanitizeChar
  split_ifs with h
  · exact h
  · rfl

theorem wellNamed_namespacedName (server tool : List Char) : WellNamed (namespacedName server tool) where
  nonempty := by
    unfold namespacedName remoteToolPrefixText maxToolNameLen
    simp only [length_take,length_map,length_append,length_cons]
    omega
  short := length_take_le _ _
  chars c hc := by
    obtain ⟨a,-,rfl⟩ := mem_map.mp (mem_of_mem_take hc)
    exact isNameChar_sanitizeChar a

theorem isNameChar_of_isDigit {c : Char} (h : c.isDigit=true) : isNameChar c = true := by
  unfold isNameChar Char.isAlphanum
  rw [h]
  simp

theorem isNameChar_nameSuffix {n : Nat} {c : Char} (h : c ∈ nameSuffix n) : isNameChar c = true := by
  rcases mem_append.mp h with hmark | hdigit
  · have hc : c = '_' := by simpa using hmark
    rw [hc]
    rfl
  · exact isNameChar_of_isDigit (isDigit_of_mem_decimal hdigit)

theorem length_nameSuffix (n : Nat) : (nameSuffix n).length = decimalLength n + 2 := by
  rfl

theorem numberedName_eq (base : List Char) (n : Nat) :
    numberedName base n = base.take (maxToolNameLen - (nameSuffix n).length) ++ nameSuffix n := by
  unfold numberedName
  dsimp only
  split_ifs with hlong
  · rfl
  · rw [take_of_length_le (by omega)]

theorem decimalLength_le_two {n : Nat} (h : n<100) : decimalLength n ≤ 2 := by
  rcases Nat.lt_or_ge n 10 with hlt | hge
  · rw [decimalLength_of_lt hlt]
    omega
  · rw [decimalLength_of_ge hge,decimalLength_of_lt (by omega)]

theorem wellNamed_numberedName {base : List Char} (h : WellNamed base) {n : Nat} (hn : n<100) :
    WellNamed (numberedName base n) := by
  have hsuffix := length_nameSuffix n
  have hdigits := decimalLength_le_two hn
  rw [numberedName_eq base n]
  refine ⟨?_,?_,?_⟩
  · rw [length_append]
    omega
  · rw [length_append,length_take]
    unfold maxToolNameLen
    omega
  · intro c hc
    rcases mem_append.mp hc with hbase | hmark
    · exact h.chars c (mem_of_mem_take hbase)
    · exact isNameChar_nameSuffix hmark

/-- The names that a tool of the server can be exposed under: the base name, or a numbered one. -/
def exposedNames (server tool : List Char) : List (List Char) :=
  namespacedName server tool ::
    (List.range' 2 98).map (numberedName (namespacedName server tool))

theorem wellNamed_of_mem_exposedNames {server tool name : List Char}
    (h : name ∈ exposedNames server tool) : WellNamed name := by
  have hbase := wellNamed_namespacedName server tool
  rcases mem_cons.mp h with rfl | hnumbered
  · exact hbase
  · obtain ⟨n,hn,rfl⟩ := mem_map.mp hnumbered
    rw [mem_range'_1] at hn
    exact wellNamed_numberedName hbase (by omega)

theorem of_resolveName_some {server tool name : List Char} {native used used' : List (List Char)}
    (h : resolveName server tool native used = (some name, used')) :
    name ∈ exposedNames server tool ∧ name ∉ native ∧ name ∉ used ∧ used'=name::used := by
  unfold resolveName at h
  dsimp only at h
  split_ifs at h with hnative hused
  · cases h
  · cases hfind : ((List.range' 2 98).map (numberedName (namespacedName server tool))).find?
        fun candidate => decide (candidate ∉ native ∧ candidate ∉ used) with
    | none =>
      rw [hfind] at h
      cases h
    | some candidate =>
      rw [hfind] at h
      cases h
      have hfree := find?_some hfind
      rw [decide_eq_true_eq] at hfree
      exact ⟨mem_cons_of_mem _ (mem_of_find?_eq_some hfind),hfree.1,hfree.2,rfl⟩
  · cases h
    exact ⟨mem_cons_self,hnative,hused,rfl⟩

theorem of_resolveName_none {server tool : List Char} {native used used' : List (List Char)}
    (h : resolveName server tool native used = (none, used')) :
    used'=used ∧ (namespacedName server tool ∈ native ∨
      namespacedName server tool ∈ used ∧
        ∀ n, 2≤n → n≤99 → numberedName (namespacedName server tool) n ∈ native ∨
          numberedName (namespacedName server tool) n ∈ used) := by
  unfold resolveName at h
  dsimp only at h
  split_ifs at h with hnative hused
  · cases h
    exact ⟨rfl,Or.inl hnative⟩
  · cases hfind : ((List.range' 2 98).map (numberedName (namespacedName server tool))).find?
        fun candidate => decide (candidate ∉ native ∧ candidate ∉ used) with
    | some candidate =>
      rw [hfind] at h
      cases h
    | none =>
      rw [hfind] at h
      cases h
      refine ⟨rfl,Or.inr ⟨hused,fun n hlow hhigh => ?_⟩⟩
      have hmem : numberedName (namespacedName server tool) n ∈
          (List.range' 2 98).map (numberedName (namespacedName server tool)) :=
        mem_map_of_mem (mem_range'_1.mpr ⟨hlow,by omega⟩)
      have htaken := find?_eq_none.mp hfind _ hmem
      rw [decide_eq_true_eq,Classical.not_and_iff_not_or_not,not_not,not_not] at htaken
      exact htaken
  · cases h

end Daimonos.Mcp
