import Mathlib

namespace Daimonos.Framework

open List

def decimal (n : Nat) : List Char := Nat.toDigits 10 n

variable {n : Nat}

theorem decimal_inj {m : Nat} : decimal m = decimal n ↔ m=n := by
  rw [← Nat.repr_inj,Nat.repr_eq_ofList_toDigits,Nat.repr_eq_ofList_toDigits,String.ofList_inj]
  rfl

theorem decimal_of_lt (h : n<10) : decimal n = [n.digitChar] :=
  Nat.toDigits_of_lt_base h

theorem decimal_of_ge (h : 10≤n) :
    decimal n = decimal (n/10) ++ [(n % 10).digitChar] :=
  Nat.toDigits_of_base_le (by decide) h

theorem isDigit_of_mem_decimal {c : Char} (h : c ∈ decimal n) : c.isDigit=true := by
  have hdigit : ∀ k<10, (Nat.digitChar k).isDigit = true := by decide
  induction n using Nat.strong_induction_on with
  | _ n ih =>
    rcases Nat.lt_or_ge n 10 with hn | hn
    · rw [decimal_of_lt hn,mem_singleton] at h
      rw [h]
      exact hdigit n hn
    · rw [decimal_of_ge hn,mem_append,mem_singleton] at h
      rcases h with h | rfl
      · exact ih (n/10) (Nat.div_lt_self (by omega) (by decide)) h
      · exact hdigit _ (Nat.mod_lt n (by decide))

theorem delimited_inj {α : Type} {a : α} {xs ys us vs : List α} (hx : a ∉ xs) (hy : a ∉ ys)
    (h : xs++a::us=ys++a::vs) : xs=ys ∧ us=vs := by
  induction xs generalizing ys with
  | nil =>
    cases ys with
    | nil => exact ⟨rfl,(List.cons.inj h).2⟩
    | cons y ys =>
      obtain rfl : a=y := (List.cons.inj h).1
      exact absurd mem_cons_self hy
  | cons x xs ih =>
    cases ys with
    | nil =>
      obtain rfl : x=a := (List.cons.inj h).1
      exact absurd mem_cons_self hx
    | cons y ys =>
      obtain ⟨rfl,hrest⟩ := List.cons.inj h
      obtain ⟨rfl,rfl⟩ := ih (fun hmem => hx (mem_cons_of_mem x hmem))
        (fun hmem => hy (mem_cons_of_mem x hmem)) hrest
      exact ⟨rfl,rfl⟩

def decimalLength (n : Nat) : Nat := (decimal n).length

theorem decimalLength_of_lt (h : n<10) : decimalLength n = 1 := by
  rw [decimalLength,decimal_of_lt h]
  rfl

theorem decimalLength_of_ge (h : 10≤n) :
    decimalLength n = decimalLength (n/10) + 1 := by
  rw [decimalLength,decimal_of_ge h,length_append]
  rfl

theorem decimalLength_pos (n : Nat) : 0 < decimalLength n := by
  by_cases h : n<10
  · rw [decimalLength_of_lt h]
    exact Nat.one_pos
  · rw [decimalLength_of_ge (Nat.not_lt.mp h)]
    exact Nat.succ_pos _

theorem decimalLength_mono {m : Nat} (h : m≤n) : decimalLength m ≤ decimalLength n := by
  have hn := (Nat.length_toDigits_le_iff (b := 10) (n := n) (by decide) (decimalLength_pos n)).mp
    (Nat.le_refl _)
  exact (Nat.length_toDigits_le_iff (by decide) (decimalLength_pos n)).mpr (Nat.lt_of_le_of_lt h hn)

theorem decimalLength_succ_le (n : Nat) : decimalLength (n+1) ≤ decimalLength n + 1 := by
  have hn := (Nat.length_toDigits_le_iff (b := 10) (n := n) (by decide) (decimalLength_pos n)).mp
    (Nat.le_refl _)
  refine (Nat.length_toDigits_le_iff (by decide) (Nat.succ_pos _)).mpr ?_
  omega

end Daimonos.Framework
