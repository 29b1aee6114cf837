import Mathlib.Tactic.Common

namespace Daimonos.Framework

/-- A computation that can be cut short: the states it passes through, in order, and its
result unless it was cut. -/
structure Staged (σ α : Type) where
  states : List σ
  result : Option α

namespace Staged

variable {σ τ α β : Type}

instance : Monad (Staged σ) where
  pure a := ⟨[],some a⟩
  bind x f :=
    match x.result with
    | some a => ⟨x.states ++ (f a).states,(f a).result⟩
    | none => ⟨x.states,none⟩

/-- A point at which the computation can be cut. -/
def visit (s : σ) : Staged σ Unit := ⟨[s],some ()⟩

theorem result_bind (x : Staged σ α) (f : α → Staged σ β) :
    (x >>= f).result = x.result.bind fun a => (f a).result := by
  obtain ⟨states,result⟩ := x
  cases result <;> rfl

/-- Every state passed satisfies `P`, and the result, if there is one, satisfies `Q`. -/
def Holds (P : σ → Prop) (Q : α → Prop) (x : Staged σ α) : Prop :=
  (∀ s∈x.states, P s) ∧ ∀ a, x.result = some a → Q a

variable {P : σ → Prop} {Q Q' : α → Prop} {R : β → Prop}

theorem holds_pure {a : α} (h : Q a) : Holds P Q (pure a : Staged σ α) := by
  refine ⟨by simp [pure],?_⟩
  intro _ hcase
  cases hcase
  exact h

theorem holds_visit {s : σ} {Q : Unit → Prop} (h : P s) (hq : Q ()) : Holds P Q (visit s) := by
  refine ⟨by simpa [visit] using h,?_⟩
  intro _ hcase
  exact hq

theorem holds_bind {x : Staged σ α} {f : α → Staged σ β} (hx : Holds P Q x)
    (hf : ∀ a, Q a → Holds P R (f a)) : Holds P R (x >>= f) := by
  obtain ⟨states,result⟩ := x
  cases result with
  | none => exact ⟨hx.1,by simp [bind]⟩
  | some a =>
    have ha := hf a (hx.2 a rfl)
    refine ⟨?_,ha.2⟩
    intro s hs
    rcases List.mem_append.mp hs with hs | hs
    · exact hx.1 s hs
    · exact ha.1 s hs

end Staged

end Daimonos.Framework
