import Mathlib.Data.List.Basic
import Mathlib.Data.List.GetD
import Mathlib.Data.List.Pairwise
import Mathlib.Tactic.Common

namespace Daimonos.Framework

open List

variable {α β ε : Type}

def touch (d : α) (i : Nat) (f : α → α) (l : List α) : List α :=
  (l ++ List.replicate (i+1-l.length) d).modify i f

theorem length_touch (d : α) (i : Nat) (f : α → α) (l : List α) :
    (touch d i f l).length = max l.length (i+1) := by
  simp only [touch,length_modify,length_append,length_replicate]
  omega

theorem touch_of_lt (d : α) {i : Nat} (f : α → α) {l : List α} (h : i < l.length) :
    touch d i f l = l.modify i f := by
  have hzero : i+1-l.length=0 := by omega
  rw [touch,hzero,replicate_zero,append_nil]

theorem getD_touch (d : α) (i : Nat) (f : α → α) (l : List α) (j : Nat) :
    (touch d i f l).getD j d = if i=j then f (l.getD i d) else l.getD j d := by
  have hgrown : ∀ k, (l ++ List.replicate (i+1-l.length) d).getD k d = l.getD k d := by
    intro k
    by_cases hk : k < l.length
    · rw [getD_append _ _ _ _ hk]
    · rw [getD_append_right _ _ _ _ (by omega),getD_eq_default l d (by omega)]
      simp only [getD_eq_getElem?_getD,getElem?_replicate]
      split_ifs <;> rfl
  rw [touch,getD_eq_getElem?_getD,getElem?_modify]
  by_cases hij : i=j
  · subst hij
    have hlt : i < (l ++ List.replicate (i+1-l.length) d).length := by
      rw [length_append,length_replicate]
      omega
    have hat := hgrown i
    rw [getD_eq_getElem?_getD,getElem?_eq_getElem hlt,Option.getD_some] at hat
    rw [getElem?_eq_getElem hlt]
    simp [hat]
  · have hat := hgrown j
    rw [getD_eq_getElem?_getD] at hat
    simp [hij,hat]

theorem touch_length (d : α) (f : α → α) (l : List α) : touch d l.length f l = l ++ [f d] := by
  have hone : l.length+1-l.length=1 := by omega
  rw [touch,hone,replicate_one]
  induction l with
  | nil => rfl
  | cons a l ih => simpa using ih

def ofSlot (events : List (Nat × ε)) (i : Nat) : List ε :=
  (events.filter fun e => e.1=i).map Prod.snd

@[simp] theorem ofSlot_append (before after : List (Nat × ε)) (i : Nat) :
    ofSlot (before++after) i = ofSlot before i ++ ofSlot after i := by
  simp [ofSlot]

@[simp] theorem ofSlot_cons_self (i : Nat) (event : ε) (after : List (Nat × ε)) :
    ofSlot ((i, event) :: after) i = event :: ofSlot after i := by
  simp [ofSlot]

theorem ofSlot_cons_of_ne {i j : Nat} (h : j≠i) (event : ε) (after : List (Nat × ε)) :
    ofSlot ((j, event) :: after) i = ofSlot after i := by
  simp [ofSlot,h]

variable {events : List (Nat × ε)}

theorem ofSlot_ne_nil_iff {i : Nat} :
    ofSlot events i ≠ [] ↔ ∃ e∈events, e.1=i := by
  rw [ofSlot,Ne,map_eq_nil_iff,filter_eq_nil_iff]
  simp

theorem getD_foldl_touch (d : α) (act : ε → α → α) (events : List (Nat × ε)) (l : List α) (j : Nat) :
    (events.foldl (fun l e => touch d e.1 (act e.2) l) l).getD j d =
      (ofSlot events j).foldl (fun a e => act e a) (l.getD j d) := by
  induction events generalizing l with
  | nil => rfl
  | cons e events ih =>
    obtain ⟨i,event⟩ := e
    rw [foldl_cons,ih,getD_touch]
    by_cases hi : i=j
    · subst hi
      simp
    · simp [hi,ofSlot_cons_of_ne]

theorem lt_length_foldl_touch (d : α) (act : ε → α → α) (events : List (Nat × ε)) (l : List α) :
    (∀ e∈events, e.1 < (events.foldl (fun l e => touch d e.1 (act e.2) l) l).length) ∧
      l.length ≤ (events.foldl (fun l e => touch d e.1 (act e.2) l) l).length := by
  induction events generalizing l with
  | nil => simp
  | cons e events ih =>
    obtain ⟨hall,hle⟩ := ih (touch d e.1 (act e.2) l)
    rw [length_touch] at hle
    rw [foldl_cons]
    refine ⟨fun e' he' => ?_,by omega⟩
    obtain rfl | he' := mem_cons.mp he'
    · omega
    · exact hall e' he'

theorem length_foldl_touch_le (d : α) (act : ε → α → α) {l : List α}
    {n : Nat} (hl : l.length≤n) (h : ∀ e∈events, e.1<n) :
    (events.foldl (fun l e => touch d e.1 (act e.2) l) l).length ≤ n := by
  induction events generalizing l with
  | nil => exact hl
  | cons e events ih =>
    refine ih ?_ fun e' he' => h e' (mem_cons_of_mem _ he')
    have he := h e mem_cons_self
    rw [length_touch]
    omega

theorem foldl_touch_eq (d : α) (act : ε → α → α) {n : Nat}
    (hall : ∀ i<n, ofSlot events i ≠ []) (hlt : ∀ e∈events, e.1<n) :
    events.foldl (fun l e => touch d e.1 (act e.2) l) [] =
      (List.range n).map fun i => (ofSlot events i).foldl (fun a e => act e a) d := by
  have hle : (events.foldl (fun l e => touch d e.1 (act e.2) l) []).length ≤ n :=
    length_foldl_touch_le d act (by simp) hlt
  have hge := (lt_length_foldl_touch d act events []).1
  have hlength : (events.foldl (fun l e => touch d e.1 (act e.2) l) []).length = n := by
    cases n with
    | zero => omega
    | succ n =>
      obtain ⟨e,he,hen⟩ := ofSlot_ne_nil_iff.mp (hall n (Nat.lt_succ_self n))
      have := hge e he
      omega
  apply ext_getElem
  · rw [hlength,length_map,length_range]
  · intro i hi hi'
    have hat := getD_foldl_touch d act events [] i
    rw [getD_eq_getElem _ _ hi] at hat
    rw [hat,getElem_map,getElem_range,getD_nil]

/-- What comes in the order of the keys is what each key has, one after the other. -/
theorem map_snd_eq_flatMap_range {l : List (Nat × β)} {n : Nat}
    (hsorted : l.Pairwise fun a b => a.1≤b.1) (hlt : ∀ a∈l, a.1<n) :
    l.map Prod.snd = (List.range n).flatMap (ofSlot l) := by
  induction n generalizing l with
  | zero =>
    have hnil : l = [] := eq_nil_iff_forall_not_mem.mpr fun a ha => absurd (hlt a ha) (by omega)
    rw [hnil]
    rfl
  | succ n ih =>
    -- the entries with the last key are at the end
    have hsplit : l = (l.filter fun a => a.1<n) ++ l.filter fun a => a.1=n := by
      induction l with
      | nil => rfl
      | cons a l ihl =>
        obtain ⟨hhead,htail⟩ := pairwise_cons.mp hsorted
        have hrest := ihl htail fun b hb => hlt b (mem_cons_of_mem _ hb)
        have ha := hlt a mem_cons_self
        by_cases hlast : a.1=n
        · have hnone : l.filter (fun b => b.1<n) = [] := by
            refine filter_eq_nil_iff.mpr fun b hb => ?_
            have := hhead b hb
            simp only [decide_eq_true_eq]
            omega
          rw [hnone,nil_append] at hrest
          simp [hlast,hnone,← hrest]
        · have hless : a.1<n := by omega
          simp [hless,hlast,← hrest]
    have hbelow := ih (hsorted.filter fun a => decide (a.1<n)) fun a ha => by
      simpa using (mem_filter.mp ha).2
    rw [range_succ,flatMap_append,flatMap_singleton]
    conv_lhs => rw [hsplit,map_append,hbelow]
    congr 1
    simp only [flatMap_def]
    congr 1
    refine map_congr_left fun i hi => ?_
    have hi' : i<n := mem_range.mp hi
    rw [ofSlot,ofSlot,filter_filter]
    congr 1
    refine filter_congr fun a _ => ?_
    simp only [Bool.and_eq_left_iff_imp,decide_eq_true_eq]
    omega

end Daimonos.Framework
