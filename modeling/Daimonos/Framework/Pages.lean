import Mathlib

namespace Daimonos.Framework

open List

variable {β : Type}

/-- Read a list page by page: look at one entry more than a page holds, and go on after the page only
if all of them are readable. The second component tells whether the last look saw no unreadable
entry. -/
def readPages (size : Nat) : Nat → List (Option β) → List β × Bool
  | 0, _ => ([], false)
  | fuel+1, entries =>
    let window := entries.take (size+1)
    let readable := window.reduceOption
    if readable.length > size then
      let (rest, complete) := readPages size fuel (entries.drop size)
      (readable.take size ++ rest, complete)
    else (readable, window.all Option.isSome)

/-- How many entries reading gets to see: all of them, or those up to the end of the first look that
meets an unreadable one. -/
def pagesReach (size : Nat) (entries : List (Option β)) : Nat :=
  match entries.findIdx? Option.isNone with
  | none => entries.length
  | some i => ((i-1) / size+1) * size+1

variable {entries : List (Option β)}

theorem pagesReach_drop {size : Nat} (hsize : 0 < size)
    (hall : (entries.take (size+1)).all Option.isSome = true) (hlength : size<entries.length) :
    pagesReach size entries = size + pagesReach size (entries.drop size) := by
  have hsplit := take_append_drop size entries
  have hhead : (entries.take size).findIdx? Option.isNone = none := by
    rw [findIdx?_eq_none_iff]
    intro x hx
    have hmem : x ∈ entries.take (size+1) := (take_sublist_take_left (Nat.le_succ size)).subset hx
    simpa using all_eq_true.mp hall x hmem
  have hfind : entries.findIdx? Option.isNone =
      ((entries.drop size).findIdx? Option.isNone).map (· + size) := by
    conv_lhs => rw [← hsplit,findIdx?_append,hhead]
    rw [length_take,Nat.min_eq_left (Nat.le_of_lt hlength)]
    rfl
  unfold pagesReach
  rw [hfind]
  cases hdrop : (entries.drop size).findIdx? Option.isNone with
  | none =>
    simp only [Option.map_none,length_drop]
    omega
  | some i =>
    have hi : i≠0 := by
      intro hzero
      subst hzero
      have hget := findIdx?_eq_some_iff_getElem.mp hdrop
      obtain ⟨hlt,hnone,-⟩ := hget
      rw [getElem_drop] at hnone
      have hmem : entries[size+0] ∈ entries.take (size+1) := by
        rw [mem_take_iff_getElem]
        exact ⟨size,by omega,rfl⟩
      have hsome := all_eq_true.mp hall _ hmem
      rw [Option.isNone_iff_eq_none] at hnone
      rw [hnone] at hsome
      cases hsome
    simp only [Option.map_some]
    have hdiv : (i+size-1) / size = (i-1) / size+1 := by
      rw [show i+size-1 = (i-1) + size by omega,Nat.add_div_right _ hsize]
    rw [hdiv]
    ring

theorem of_length_reduceOption_gt {size : Nat}
    (h : (entries.take (size+1)).reduceOption.length > size) :
    size<entries.length ∧ (entries.take (size+1)).all Option.isSome = true ∧
    (entries.take size).all Option.isSome = true ∧
    (entries.take (size+1)).reduceOption.take size = (entries.take size).reduceOption := by
  have hle : (entries.take (size+1)).reduceOption.length ≤ (entries.take (size+1)).length :=
    reduceOption_length_le _
  have hwindow : (entries.take (size+1)).length = min (size+1) entries.length := length_take
  have hlength : size<entries.length := by omega
  have hall : ∀ x ∈ entries.take (size+1), x.isSome=true :=
    reduceOption_length_eq_iff.mp (by omega)
  have hpage : ∀ x ∈ entries.take size, x.isSome=true := fun x hx =>
    hall x ((take_sublist_take_left (Nat.le_succ size)).subset hx)
  have hfull : (entries.take size).reduceOption.length = size := by
    rw [reduceOption_length_eq_iff.mpr hpage,length_take]
    omega
  refine ⟨hlength,all_eq_true.mpr hall,all_eq_true.mpr hpage,?_⟩
  rw [take_add_one,reduceOption_append,take_append_of_le_length (Nat.le_of_eq hfull.symm),
    take_of_length_le (Nat.le_of_eq hfull)]

/-- Reading returns the readable entries it gets to see, each once and in order, and notices every
unreadable one. -/
theorem readPages_eq {size : Nat} (hsize : 0 < size) (fuel : Nat) (entries : List (Option β))
    (hfuel : entries.length<fuel) :
    readPages size fuel entries =
      ((entries.take (pagesReach size entries)).reduceOption, entries.all Option.isSome) := by
  induction fuel generalizing entries with
  | zero => exact absurd hfuel (Nat.not_lt_zero _)
  | succ fuel ih =>
    rw [readPages]
    by_cases hmore : (entries.take (size+1)).reduceOption.length > size
    · obtain ⟨hlength,hall,htake,hpage⟩ := of_length_reduceOption_gt hmore
      have hdrop : (entries.drop size).length < fuel := by
        rw [length_drop]
        omega
      rw [if_pos hmore,ih _ hdrop,hpage,pagesReach_drop hsize hall hlength,take_add,
        reduceOption_append]
      conv_rhs => rw [← take_append_drop size entries,all_append]
      rw [htake,Bool.true_and,take_append_drop]
    · rw [if_neg hmore]
      cases hall : (entries.take (size+1)).all Option.isSome with
      | true =>
        -- the window is the whole rest
        have heq := reduceOption_length_eq_iff.mpr (all_eq_true.mp hall)
        rw [length_take] at heq
        have hrest : entries.take (size+1) = entries := take_of_length_le (by omega)
        rw [hrest] at hall ⊢
        have hnone : entries.findIdx? Option.isNone = none := by
          rw [findIdx?_eq_none_iff]
          intro x hx
          simpa using all_eq_true.mp hall x hx
        rw [pagesReach,hnone,take_length,hall]
      | false =>
        obtain ⟨x,hx,hnone⟩ := all_eq_false.mp hall
        obtain ⟨i,hi,hget⟩ := mem_take_iff_getElem.mp hx
        have hsome : (entries.findIdx? Option.isNone).isSome := by
          rw [findIdx?_isSome,any_eq_true]
          exact ⟨x,mem_of_mem_take hx,by simpa using hnone⟩
        obtain ⟨first,hfirst⟩ := Option.isSome_iff_exists.mp hsome
        have hmin : first ≤ i := by
          obtain ⟨hlt,-,hbefore⟩ := findIdx?_eq_some_iff_getElem.mp hfirst
          by_contra hgt
          have hreadable := hbefore i (by omega)
          rw [hget] at hreadable
          cases x with
          | none => exact hreadable rfl
          | some y => exact hnone rfl
        have hdiv : (first-1) / size = 0 := Nat.div_eq_of_lt (by omega)
        have hallFalse : entries.all Option.isSome = false :=
          all_eq_false.mpr ⟨x,mem_of_mem_take hx,hnone⟩
        rw [pagesReach,hfirst,hallFalse]
        dsimp only
        rw [hdiv,Nat.zero_add,Nat.one_mul]

theorem mem_readPages_of_le {size fuel fuel' : Nat} (h : fuel≤fuel')
    {x : β} (hx : x ∈ (readPages size fuel entries).1) : x ∈ (readPages size fuel' entries).1 := by
  induction fuel generalizing fuel' entries with
  | zero => cases hx
  | succ fuel ih =>
    obtain ⟨fuel',rfl⟩ : ∃ n, fuel'=n+1 := ⟨fuel'-1,by omega⟩
    rw [readPages] at hx ⊢
    split_ifs at hx ⊢ with hmore
    · rcases mem_append.mp hx with hpage | hrest
      · exact mem_append_left _ hpage
      · exact mem_append_right _ (ih (by omega) hrest)
    · exact hx

end Daimonos.Framework
