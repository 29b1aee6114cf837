import Mathlib.Tactic.Common

namespace Daimonos.Framework

/-- How one step of a run ends: with a new state, with a result, or cut short. -/
inductive Step (σ ρ : Type) where
  | next (s : σ)
  | done (result : ρ)
  | cut

variable {ι σ ε ρ : Type} (step : ι → σ → List ε × Step σ ρ)

/-- Feed a list of inputs to a step function, collecting its effects. The result is
`none` when the inputs end before the run does. -/
def run : List ι → σ → List ε × Option ρ
  | [], _ => ([], none)
  | i::is, s =>
    match step i s with
    | (effects, .next s') => (effects ++ (run is s').1, (run is s').2)
    | (effects, .done result) => (effects, some result)
    | (effects, .cut) => (effects, none)

/-- Every step the run takes meets `ok` in the state it is taken from. -/
def Meets (ok : ι → σ → Prop) : List ι → σ → Prop
  | [], _ => True
  | i::is, s => ok i s ∧ ∀ s', (step i s).2 = .next s' → Meets ok is s'

section Equations

variable {step} {i : ι} {is : List ι} {s : σ}

theorem run_cons_next {s' : σ} (h : (step i s).2 = .next s') :
    (run step (i::is) s).2 = (run step is s').2 := by
  rw [run]
  split <;> simp_all

theorem run_cons_done {result : ρ} (h : (step i s).2 = .done result) :
    (run step (i::is) s).2 = some result := by
  rw [run]
  split <;> simp_all

theorem run_cons_cut (h : (step i s).2 = .cut) : (run step (i::is) s).2 = none := by
  rw [run]
  split <;> simp_all

end Equations

variable {step} {ok : ι → σ → Prop} {I : σ → Prop} {P : ε → Prop} {Q : ρ → Prop}

theorem meets_of_forall (h : ∀ i s, ok i s) (inputs : List ι) (s : σ) :
    Meets step ok inputs s := by
  induction inputs generalizing s with
  | nil => trivial
  | cons i is ih => exact ⟨h i s,fun s' _ => ih s'⟩

structure StepSound (I : σ → Prop) (P : ε → Prop) (Q : ρ → Prop) (out : List ε × Step σ ρ) :
    Prop where
  effects : ∀ e∈out.1, P e
  next : ∀ s, out.2 = .next s → I s
  done : ∀ result, out.2 = .done result → Q result

/-- The run rule: what every step establishes from the invariant, the whole run does. -/
theorem run_sound (hstep : ∀ i s, ok i s → I s → StepSound I P Q (step i s))
    (inputs : List ι) (s : σ) (hok : Meets step ok inputs s) (hs : I s) :
    (∀ e ∈ (run step inputs s).1, P e) ∧ ∀ result, (run step inputs s).2 = some result → Q result := by
  induction inputs generalizing s with
  | nil => simp [run]
  | cons i is ih =>
    have h := hstep i s hok.1 hs
    have hrest := hok.2
    simp only [run]
    split
    · rename_i effects s' heq
      rw [heq] at h hrest
      obtain ⟨heff,hres⟩ := ih s' (hrest s' rfl) (h.next s' rfl)
      refine ⟨?_,hres⟩
      intro e he
      rcases List.mem_append.mp he with he | he
      · exact h.effects e he
      · exact heff e he
    · rename_i effects result heq
      rw [heq] at h
      refine ⟨h.effects,?_⟩
      intro _ hcase
      cases hcase
      exact h.done result rfl
    · rename_i effects heq
      rw [heq] at h
      exact ⟨h.effects,by simp⟩

section Watched

variable {γ : Type} (apply : γ → ε → γ)

def watch : γ → List ε → List γ
  | _, [] => []
  | g, e::es => apply g e :: watch (apply g e) es

theorem watch_append (g : γ) (xs ys : List ε) :
    watch apply g (xs++ys) = watch apply g xs ++ watch apply (xs.foldl apply g) ys := by
  induction xs generalizing g with
  | nil => rfl
  | cons e es ih => simp [watch,ih]

theorem watch_invariant {W : γ → Prop} {es : List ε}
    (hstep : ∀ g, ∀ e∈es, W g → W (apply g e)) {g : γ} (hg : W g) :
    (∀ g' ∈ watch apply g es, W g') ∧ W (es.foldl apply g) := by
  induction es generalizing g with
  | nil => exact ⟨by simp [watch],hg⟩
  | cons e es ih =>
    have hhead := hstep g e (by simp) hg
    obtain ⟨hall,hlast⟩ := ih (fun g e' he' => hstep g e' (by simp [he'])) hhead
    refine ⟨?_,hlast⟩
    intro g' hg'
    rcases List.mem_cons.mp hg' with rfl | hg'
    · exact hhead
    · exact hall g' hg'

variable {apply} {J : σ → γ → Prop} {W : γ → Prop} {D : ρ → γ → Prop}

structure StepWatched (apply : γ → ε → γ) (J : σ → γ → Prop) (W : γ → Prop) (D : ρ → γ → Prop)
    (g : γ) (out : List ε × Step σ ρ) : Prop where
  passes : ∀ g' ∈ watch apply g out.1, W g'
  next : ∀ s, out.2 = .next s → J s (out.1.foldl apply g)
  done : ∀ result, out.2 = .done result → D result (out.1.foldl apply g)

/-- The run rule for an observer: `J` ties its state to that of the run. -/
theorem run_watched (hstep : ∀ i s g, J s g → StepWatched apply J W D g (step i s))
    (inputs : List ι) (s : σ) (g : γ) (hs : J s g) :
    (∀ g' ∈ watch apply g (run step inputs s).1, W g') ∧
      ∀ result, (run step inputs s).2 = some result →
        D result ((run step inputs s).1.foldl apply g) := by
  induction inputs generalizing s g with
  | nil => simp [run,watch]
  | cons i is ih =>
    have h := hstep i s g hs
    simp only [run]
    split
    · rename_i effects s' heq
      rw [heq] at h
      obtain ⟨hpass,hres⟩ := ih s' (effects.foldl apply g) (h.next s' rfl)
      refine ⟨?_,?_⟩
      · intro g' hg'
        rw [watch_append] at hg'
        rcases List.mem_append.mp hg' with hg' | hg'
        · exact h.passes g' hg'
        · exact hpass g' hg'
      · intro result hr
        rw [List.foldl_append]
        exact hres result hr
    · rename_i effects result heq
      rw [heq] at h
      refine ⟨h.passes,?_⟩
      intro _ hcase
      cases hcase
      exact h.done result rfl
    · rename_i effects heq
      rw [heq] at h
      exact ⟨h.passes,by simp⟩

end Watched

end Daimonos.Framework
