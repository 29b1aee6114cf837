import Mathlib

namespace Daimonos.Framework

/-- An initial state and a guarded, executable step: `none` when the action is not enabled. -/
structure System (σ α : Type) where
  init : σ
  step : σ → α → Option σ

namespace System

variable {σ α : Type} {S : System σ α}

/-- The states of the runs whose every step meets `ok`. -/
inductive Reaches (S : System σ α) (ok : σ → α → Prop) : σ → Prop
  | init : S.Reaches ok S.init
  | step {s s' : σ} {a : α} : S.Reaches ok s → ok s a → S.step s a = some s' → S.Reaches ok s'

theorem Reaches.invariant {ok : σ → α → Prop} {I : σ → Prop} (hinit : I S.init)
    (hstep : ∀ s a s', I s → ok s a → S.step s a = some s' → I s') {s : σ}
    (h : S.Reaches ok s) : I s := by
  induction h with
  | init => exact hinit
  | step _ hok hs ih => exact hstep _ _ _ ih hok hs

/-- Replay a schedule, checking `ok` before each step. -/
def replayFrom (S : System σ α) (ok : σ → α → Prop) [∀ s a, Decidable (ok s a)] :
    σ → List α → Option σ
  | s, [] => some s
  | s, a::rest => if ok s a then (S.step s a).bind fun s' => replayFrom S ok s' rest else none

def replay (S : System σ α) (ok : σ → α → Prop) [∀ s a, Decidable (ok s a)] (acts : List α) :
    Option σ :=
  S.replayFrom ok S.init acts

theorem reaches_of_replay {ok : σ → α → Prop} [∀ s a, Decidable (ok s a)] {acts : List α} {s : σ}
    (h : S.replay ok acts = some s) : S.Reaches ok s := by
  suffices hfrom : ∀ (acts : List α) (s₀ : σ), S.Reaches ok s₀ →
      S.replayFrom ok s₀ acts = some s → S.Reaches ok s from
    hfrom acts S.init .init h
  intro acts
  induction acts with
  | nil =>
    intro s₀ h₀ hs
    cases hs
    exact h₀
  | cons a rest ih =>
    intro s₀ h₀ hs
    simp only [replayFrom] at hs
    split_ifs at hs with hok
    obtain ⟨s₁,hstep,hrest⟩ := Option.bind_eq_some_iff.mp hs
    exact ih s₁ (.step h₀ hok hstep) hrest

theorem exists_of_replay (S : System σ α) (ok : σ → α → Prop) [∀ s a, Decidable (ok s a)]
    (acts : List α) (p : σ → Prop) [DecidablePred p]
    (h : ((S.replay ok acts).any fun s => decide (p s)) = true) :
    ∃ s, S.replay ok acts = some s ∧ S.Reaches ok s ∧ p s := by
  obtain ⟨s,hs,hp⟩ := (Option.any_eq_true ..).mp h
  exact ⟨s,hs,reaches_of_replay hs,of_decide_eq_true hp⟩

theorem exists_replay_and {ok : σ → α → Prop} [∀ s a, Decidable (ok s a)] {acts : List α}
    {q : σ → Prop} (p : σ → Prop) [DecidablePred p]
    (h : ((S.replay ok acts).any fun s => decide (p s)) = true)
    (hq : ∀ s, S.Reaches ok s → p s → q s) : ∃ s, S.replay ok acts = some s ∧ q s := by
  obtain ⟨s,hs,hreach,hp⟩ := exists_of_replay S ok acts p h
  exact ⟨s,hs,hq s hreach hp⟩

end System

theorem except_map_eq_ok {ε α β : Type} {f : α → β} {x : Except ε α} {b : β} :
    x.map f = .ok b ↔ ∃ a, x = .ok a ∧ f a = b := by
  cases x with
  | error e | ok a => simp [Except.map]

section Tasks

variable {τ : Type}

def total (f : τ → Nat) (pool : List τ) : Nat := (pool.map f).sum

@[simp] theorem total_nil (f : τ → Nat) : total f [] = 0 := rfl

@[simp] theorem total_append (f : τ → Nat) (l₁ l₂ : List τ) :
    total f (l₁++l₂) = total f l₁ + total f l₂ := by
  simp [total]

@[simp] theorem total_cons (f : τ → Nat) (a : τ) (l : List τ) :
    total f (a::l) = f a + total f l := by
  simp [total]

/-- When one task moves on, the total changes by what that task held and holds. -/
theorem total_set (f : τ → Nat) {pool : List τ} {i : Nat} {a : τ} (h : pool[i]? = some a) (b : τ) :
    total f (pool.set i b) + f a = total f pool + f b := by
  induction pool generalizing i with
  | nil => simp at h
  | cons x xs ih =>
    cases i with
    | zero =>
      obtain rfl : x=a := by simpa using h
      simp only [List.set_cons_zero,total_cons]
      omega
    | succ i =>
      have hi := ih (by simpa using h)
      simp only [List.set_cons_succ,total_cons]
      omega

theorem le_total (f : τ → Nat) {pool : List τ} {a : τ} (h : a∈pool) : f a ≤ total f pool :=
  List.le_sum_of_mem (List.mem_map_of_mem h)

theorem total_eq_zero {f : τ → Nat} {pool : List τ} (h : ∀ a∈pool, f a = 0) :
    total f pool = 0 := by
  induction pool with
  | nil => rfl
  | cons x xs ih =>
    rw [total_cons,h x List.mem_cons_self,ih fun a ha => h a (List.mem_cons_of_mem x ha)]

end Tasks

end Daimonos.Framework
