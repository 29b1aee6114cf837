import Mathlib.Data.List.Basic
import Mathlib.Tactic.Common

namespace Daimonos.Framework

open List

variable {α β : Type}

def trimFront (max : Nat) : List α → List α
  | [] => []
  | x::xs => if xs.length+1 > max then trimFront max xs else x::xs

theorem trimFront_eq_drop (max : Nat) (l : List α) : trimFront max l = l.drop (l.length-max) := by
  induction l with
  | nil => simp [trimFront]
  | cons x xs ih =>
    simp only [trimFront,length_cons]
    split_ifs with h
    · rw [ih,show xs.length+1-max = (xs.length-max) + 1 by omega,drop_succ_cons]
    · rw [show xs.length+1-max=0 by omega,drop_zero]

theorem length_trimFront (max : Nat) (l : List α) :
    (trimFront max l).length = min l.length max := by
  rw [trimFront_eq_drop,length_drop]
  omega

theorem trimFront_push (max : Nat) (l : List α) (x : α) :
    trimFront max (trimFront max l ++ [x]) = trimFront max (l ++ [x]) := by
  simp only [trimFront_eq_drop]
  have hpush : l.drop (l.length-max) ++ [x] = (l ++ [x]).drop (l.length-max) := by
    rw [drop_append_of_le_length (by omega)]
  rw [hpush,drop_drop]
  congr 1
  simp only [length_drop,length_append,length_singleton]
  omega

/-- Push to a ring of capacity `max`, which keeps nothing when the capacity is zero. -/
def retain (max : Nat) (x : α) (ring : List α) : List α :=
  if max > 0 then trimFront max (ring ++ [x]) else ring

theorem retain_trimFront (max : Nat) (l : List α) (x : α) :
    retain max x (trimFront max l) = trimFront max (l ++ [x]) := by
  unfold retain
  split_ifs with h
  · exact trimFront_push max l x
  · obtain rfl : max=0 := by omega
    simp [trimFront_eq_drop]

def numbered (l : List α) : List (Nat × α) := l.zipIdx.map fun (x, i) => (i+1, x)

@[simp] theorem length_numbered (l : List α) : (numbered l).length = l.length := by
  simp [numbered]

theorem numbered_append_singleton (l : List α) (x : α) :
    numbered (l ++ [x]) = numbered l ++ [(l.length+1, x)] := by
  simp [numbered,zipIdx_append]

theorem getElem?_numbered (l : List α) (i : Nat) :
    (numbered l)[i]? = l[i]?.map fun x => (i+1, x) := by
  simp [numbered,getElem?_zipIdx,Function.comp_def]

theorem map_fst_numbered (l : List α) : (numbered l).map (·.1) = List.range' 1 l.length := by
  apply ext_getElem?
  intro i
  rw [getElem?_map,getElem?_numbered]
  by_cases h : i < l.length
  · simp [h,Nat.add_comm]
  · simp [h]

theorem filter_numbered_drop (l : List α) (d k : Nat) (h : d≤k) :
    ((numbered l).drop d).filter (fun e => decide (k<e.1)) = (numbered l).drop k := by
  have hsplit : (numbered l).drop d =
      ((numbered l).drop d).take (k-d) ++ (numbered l).drop k := by
    have hdrop : (numbered l).drop k = ((numbered l).drop d).drop (k-d) := by
      rw [drop_drop]
      congr 1
      omega
    rw [hdrop,take_append_drop]
  have hlow : (((numbered l).drop d).take (k-d)).filter (fun e => decide (k<e.1)) = [] := by
    rw [filter_eq_nil_iff]
    intro e he
    obtain ⟨i,hi⟩ := mem_iff_getElem?.mp he
    rw [getElem?_take] at hi
    split_ifs at hi with hlt
    rw [getElem?_drop,getElem?_numbered,Option.map_eq_some_iff] at hi
    obtain ⟨x,-,rfl⟩ := hi
    simp only [decide_eq_true_eq,Nat.not_lt]
    omega
  have hhigh : ((numbered l).drop k).filter (fun e => decide (k<e.1)) = (numbered l).drop k := by
    rw [filter_eq_self]
    intro e he
    obtain ⟨i,hi⟩ := mem_iff_getElem?.mp he
    rw [getElem?_drop,getElem?_numbered,Option.map_eq_some_iff] at hi
    obtain ⟨x,-,rfl⟩ := hi
    simp only [decide_eq_true_eq]
    omega
  rw [hsplit,filter_append,hlow,hhigh,nil_append]

def modifyFirst (p : α → Bool) (f : α → α) : List α → List α
  | [] => []
  | x::xs => if p x then f x :: xs else x :: modifyFirst p f xs

def modifyLast (p : α → Bool) (f : α → α) (l : List α) : List α :=
  (modifyFirst p f l.reverse).reverse

variable {p : α → Bool} {l : List α} {f : α → α}

theorem mem_modifyFirst {y : α} (h : y ∈ modifyFirst p f l) : y∈l ∨ ∃ x∈l, p x ∧ y = f x := by
  induction l with
  | nil => cases h
  | cons x xs ih =>
    rw [modifyFirst] at h
    split_ifs at h with hp
    · rcases mem_cons.mp h with rfl | hy
      · exact Or.inr ⟨x,mem_cons_self,hp,rfl⟩
      · exact Or.inl (mem_cons_of_mem x hy)
    · rcases mem_cons.mp h with rfl | hy
      · exact Or.inl mem_cons_self
      · rcases ih hy with hold | ⟨x',hx',hp',rfl⟩
        · exact Or.inl (mem_cons_of_mem x hold)
        · exact Or.inr ⟨x',mem_cons_of_mem x hx',hp',rfl⟩

theorem modifyFirst_eq_map (h : l.Pairwise fun x y => ¬ (p x ∧ p y)) :
    modifyFirst p f l = l.map fun x => if p x then f x else x := by
  induction l with
  | nil => rfl
  | cons x xs ih =>
    obtain ⟨hx,hxs⟩ := pairwise_cons.mp h
    rw [modifyFirst,map_cons]
    split_ifs with hp
    · have hrest : xs.map (fun y => if p y then f y else y) = xs := by
        rw [map_congr_left fun y hy => if_neg fun hy' => hx y hy ⟨hp,hy'⟩,map_id']
      rw [hrest]
    · rw [ih hxs]

theorem modifyLast_eq_map (h : l.Pairwise fun x y => ¬ (p x ∧ p y)) :
    modifyLast p f l = l.map fun x => if p x then f x else x := by
  have hreverse : l.reverse.Pairwise fun x y => ¬ (p x ∧ p y) := by
    rw [pairwise_reverse]
    exact h.imp fun hxy hyx => hxy ⟨hyx.2,hyx.1⟩
  rw [modifyLast,modifyFirst_eq_map hreverse,map_reverse,reverse_reverse]

theorem map_modifyFirst {g : α → β} (h : ∀ x, g (f x) = g x)
    (l : List α) : (modifyFirst p f l).map g = l.map g := by
  induction l with
  | nil => rfl
  | cons x xs ih =>
    rw [modifyFirst]
    split_ifs
    · rw [map_cons,map_cons,h]
    · rw [map_cons,map_cons,ih]

theorem map_modifyLast {g : α → β} (h : ∀ x, g (f x) = g x)
    (l : List α) : (modifyLast p f l).map g = l.map g := by
  rw [modifyLast,map_reverse,map_modifyFirst h,map_reverse,reverse_reverse]

theorem modifyFirst_eq_self (h : ∀ x∈l, p x → f x = x) : modifyFirst p f l = l := by
  induction l with
  | nil => rfl
  | cons x xs ih =>
    rw [modifyFirst]
    split_ifs with hp
    · rw [h x mem_cons_self hp]
    · rw [ih fun y hy => h y (mem_cons_of_mem x hy)]

theorem modifyLast_eq_self (h : ∀ x∈l, p x → f x = x) : modifyLast p f l = l := by
  rw [modifyLast,modifyFirst_eq_self fun x hx => h x (mem_reverse.mp hx),reverse_reverse]

def lastNumber (p : α → Bool) (l : List α) : Option Nat :=
  ((numbered l).reverse.find? fun e => p e.2).map Prod.fst

theorem mem_numbered {n : Nat} {x : α} :
    (n, x) ∈ numbered l ↔ ∃ i, n=i+1 ∧ l[i]? = some x := by
  constructor
  · intro h
    obtain ⟨i,hi⟩ := mem_iff_getElem?.mp h
    rw [getElem?_numbered,Option.map_eq_some_iff] at hi
    obtain ⟨y,hy,heq⟩ := hi
    obtain ⟨rfl,rfl⟩ := Prod.mk.inj heq
    exact ⟨i,rfl,hy⟩
  · intro h
    obtain ⟨i,rfl,hi⟩ := h
    refine mem_iff_getElem?.mpr ⟨i,?_⟩
    rw [getElem?_numbered,hi,Option.map_some]

theorem lastNumber_eq_none (h : lastNumber p l = none) :
    ∀ x∈l, p x = false := by
  intro x hx
  obtain ⟨i,hi⟩ := mem_iff_getElem?.mp hx
  rw [lastNumber,Option.map_eq_none_iff,find?_eq_none] at h
  have hnot := h (i+1, x) (mem_reverse.mpr (mem_numbered.mpr ⟨i,rfl,hi⟩))
  simpa using hnot

theorem of_lastNumber_eq_some {n : Nat} (h : lastNumber p l = some n) :
    ∃ xs x ys, l=xs++x::ys ∧ n=xs.length+1 ∧ p x = true ∧ ∀ y∈ys, p y = false := by
  obtain ⟨e,hfind,rfl⟩ := Option.map_eq_some_iff.mp h
  obtain ⟨hp,as,bs,hsplit,has⟩ := find?_eq_some_iff_append.mp hfind
  have hnum : numbered l = bs.reverse++e::as.reverse := by
    rw [← reverse_reverse (numbered l),hsplit]
    simp
  have hl : l = (numbered l).map Prod.snd := by
    apply ext_getElem?
    intro i
    rw [getElem?_map,getElem?_numbered,Option.map_map]
    simp [Function.comp_def]
  refine ⟨bs.reverse.map Prod.snd,e.2,as.reverse.map Prod.snd,?_,?_,hp,?_⟩
  · rw [hl,hnum]
    simp
  · have hget : (numbered l)[bs.length]? = some e := by
      rw [hnum,getElem?_append_right (by simp)]
      simp
    rw [getElem?_numbered,Option.map_eq_some_iff] at hget
    obtain ⟨x,-,rfl⟩ := hget
    simp
  · intro y hy
    obtain ⟨a,ha,rfl⟩ := mem_map.mp hy
    simpa using has a (mem_reverse.mp ha)

theorem lastNumber_append_singleton (p : α → Bool) (l : List α) (x : α) :
    lastNumber p (l ++ [x]) = if p x then some (l.length+1) else lastNumber p l := by
  rw [lastNumber,numbered_append_singleton,reverse_append,reverse_singleton,
    singleton_append,find?_cons]
  cases p x <;> rfl

theorem lastNumber_le {xs ys : List α} {n : Nat}
    (h : lastNumber p (xs++ys) = some n) (hle : n≤xs.length) : ∀ y∈ys, p y = false := by
  obtain ⟨as,x,bs,heq,rfl,-,hbs⟩ := of_lastNumber_eq_some h
  have hsuffix : ys = bs.drop (xs.length - (as.length+1)) := by
    have hdrop := congrArg (List.drop xs.length) heq
    obtain ⟨k,hk⟩ : ∃ k, xs.length=as.length+1+k := ⟨xs.length - (as.length+1),by omega⟩
    rw [drop_left] at hdrop
    rw [hdrop,hk,Nat.add_sub_cancel_left,Nat.add_assoc,← drop_drop,drop_left,
      Nat.add_comm 1 k,drop_succ_cons]
  intro y hy
  rw [hsuffix] at hy
  exact hbs y (mem_of_mem_drop hy)

end Daimonos.Framework
