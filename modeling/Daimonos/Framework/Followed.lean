import Mathlib.Data.List.Basic
import Mathlib.Tactic.Common

namespace Daimonos.Framework

open List

variable {α β : Type}

/-- Every element stands in `R` to its successor; the last one to `none`. -/
def Followed (R : α → Option α → Prop) : List α → Prop
  | [] => True
  | x::xs => R x xs.head? ∧ Followed R xs

instance decidableFollowed (R : α → Option α → Prop) [∀ x y, Decidable (R x y)] :
    ∀ l : List α, Decidable (Followed R l)
  | [] => isTrue trivial
  | x::xs =>
    have := decidableFollowed R xs
    inferInstanceAs (Decidable (R x xs.head? ∧ Followed R xs))

variable {R S : α → Option α → Prop}

@[simp] theorem followed_nil : Followed R [] := trivial

@[simp] theorem followed_cons (x : α) (xs : List α) :
    Followed R (x::xs) ↔ R x xs.head? ∧ Followed R xs := Iff.rfl

variable {l : List α}

/-- `S` may rely on the successor being in the list as well. -/
theorem followed_mono (h : ∀ x∈l, ∀ next, (∀ y∈next, y∈l) → R x next → S x next)
    (hl : Followed R l) : Followed S l := by
  induction l with
  | nil => trivial
  | cons x xs ih =>
    refine ⟨h x (by simp) _ ?_ hl.1,ih ?_ hl.2⟩
    · intro y hy
      exact mem_cons_of_mem _ (mem_of_mem_head? hy)
    · intro y hy next hnext
      exact h y (by simp [hy]) next fun z hz => by simp [hnext z hz]

theorem followed_congr (h : ∀ x∈l, ∀ next, (∀ y∈next, y∈l) → (R x next ↔ S x next)) :
    Followed R l ↔ Followed S l :=
  ⟨followed_mono fun x hx next hn => (h x hx next hn).mp,
    followed_mono fun x hx next hn => (h x hx next hn).mpr⟩

theorem followed_and (l : List α) :
    Followed (fun x next => R x next ∧ S x next) l ↔ Followed R l ∧ Followed S l := by
  induction l with
  | nil => simp
  | cons x xs ih =>
    simp only [followed_cons,ih]
    tauto

theorem followed_append (xs ys : List α) :
    Followed R (xs++ys) ↔
      Followed (fun x next => R x (next.or ys.head?)) xs ∧ Followed R ys := by
  induction xs with
  | nil => simp
  | cons x xs ih => simp [ih,head?_append,and_assoc]

theorem followed_drop (n : Nat) (h : Followed R l) : Followed R (l.drop n) := by
  have hs : Followed R (l.take n ++ l.drop n) := by rwa [take_append_drop]
  exact ((followed_append _ _).mp hs).2

theorem followed_split {pre post : List α} {x : α} (h : Followed R (pre++x::post)) :
    R x post.head? :=
  ((followed_append _ _).mp h).2.1

theorem followed_map {R : β → Option β → Prop} (f : α → β) (l : List α) :
    Followed R (l.map f) ↔ Followed (fun x next => R (f x) (next.map f)) l := by
  induction l with
  | nil => simp
  | cons x xs ih => simp [ih]

/-- Put `f x` right after each `x` that has one. -/
def insertAfter (f : α → Option α) (l : List α) : List α :=
  l.flatMap fun x => x :: (f x).toList

variable (f : α → Option α)

@[simp] theorem insertAfter_nil : insertAfter f [] = [] := rfl

@[simp] theorem insertAfter_cons (f : α → Option α) (x : α) (xs : List α) :
    insertAfter f (x::xs) = x :: ((f x).toList ++ insertAfter f xs) := rfl

theorem insertAfter_append (f : α → Option α) (xs ys : List α) :
    insertAfter f (xs++ys) = insertAfter f xs ++ insertAfter f ys := by
  simp [insertAfter]

theorem insertAfter_head? (l : List α) :
    (insertAfter f l).head? = l.head? := by
  cases l <;> simp

variable {f : α → Option α}

theorem insertAfter_eq_self (h : ∀ x∈l, f x = none) :
    insertAfter f l = l := by
  induction l with
  | nil => rfl
  | cons x xs ih =>
    have hx := h x (by simp)
    have ht := ih (fun y hy => h y (by simp [hy]))
    simp [hx,ht]

theorem mem_insertAfter {y : α} :
    y ∈ insertAfter f l ↔ y∈l ∨ ∃ x∈l, f x = some y := by
  simp only [insertAfter,mem_flatMap,mem_cons,Option.mem_toList]
  constructor
  · intro hx
    obtain ⟨x,hx,rfl | hy⟩ := hx
    · exact .inl hx
    · exact .inr ⟨x,hx,hy⟩
  · intro hor
    rcases hor with hy | ⟨x,hx,hy⟩
    · exact ⟨y,hy,.inl rfl⟩
    · exact ⟨x,hx,.inr hy⟩

theorem countP_insertAfter {p : α → Bool} (h : ∀ x∈l, ∀ y, f x = some y → p y = false) :
    (insertAfter f l).countP p = l.countP p := by
  induction l with
  | nil => rfl
  | cons x xs ih =>
    have hrest := ih fun y hy => h y (mem_cons_of_mem x hy)
    have hx := h x mem_cons_self
    rw [insertAfter_cons,countP_cons,countP_cons,countP_append,hrest]
    cases hf : f x with
    | none => simp
    | some y => simp [hx y hf]

theorem followed_insertAfter (f : α → Option α) (l : List α) :
    Followed R (insertAfter f l) ↔
      Followed (fun x next => R x ((f x).or next) ∧ ∀ y ∈ f x, R y next) l := by
  induction l with
  | nil => simp
  | cons x xs ih =>
    cases hf : f x with
    | none => simp [hf,ih,insertAfter_head?]
    | some y => simp [hf,ih,insertAfter_head?,and_assoc]

/-- `l'` is `l` with elements satisfying `P` inserted; nothing is lost, moved or changed. -/
inductive Inserted (P : α → Prop) : List α → List α → Prop
  | nil : Inserted P [] []
  | keep (x : α) {l l' : List α} : Inserted P l l' → Inserted P (x::l) (x::l')
  | insert {x : α} {l l' : List α} : P x → Inserted P l l' → Inserted P l (x::l')

theorem inserted_insertAfter {P : α → Prop} (h : ∀ x y, f x = some y → P y)
    (l : List α) : Inserted P l (insertAfter f l) := by
  induction l with
  | nil => exact .nil
  | cons x xs ih =>
    cases hf : f x with
    | none => simpa [hf] using Inserted.keep x ih
    | some y => simpa [hf] using Inserted.keep x (Inserted.insert (h x y hf) ih)

end Daimonos.Framework
