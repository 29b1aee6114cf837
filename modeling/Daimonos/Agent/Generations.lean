import Daimonos.Agent.RunInner

namespace Daimonos.Agent

open Framework Providers List

/-- A generation: the model it ran on and the number of provider calls it made. -/
structure Generation where
  model : String
  calls : Nat
  deriving DecidableEq

variable {cfg : AgentConfig} {round : Round} {s s' : LoopState}

def callsOf (cfg : AgentConfig) (round : Round) : Nat :=
  (attemptLoop cfg.providerRetry.maxAttempts 0 round.attempts).1

/-- The generations of the agent loop. -/
def generations (cfg : AgentConfig) : List Round → LoopState → List Generation
  | [], _ => []
  | round::rounds, s =>
    ⟨activeModel cfg s,callsOf cfg round⟩ ::
      match (iterate cfg round s).2 with
      | .next s' => generations cfg rounds s'
      | .done _ | .cut => []

def requestModels (effects : List Effect) : List String :=
  effects.filterMap fun e =>
    match e with
    | .request r => some r.model
    | _ => none

theorem requestModels_eq_nil {effects : List Effect}
    (h : ∀ e∈effects, ∀ r, e ≠ .request r) : requestModels effects = [] := by
  refine filterMap_eq_nil_iff.mpr fun e he => ?_
  cases e with
  | request r => exact absurd rfl (h _ he r)
  | _ => rfl

theorem requestModels_iterate (cfg : AgentConfig) (round : Round) (s : LoopState) :
    requestModels (iterate cfg round s).1 =
      List.replicate (callsOf cfg round) (activeModel cfg s) := by
  have happend : ∀ l₁ l₂, requestModels (l₁++l₂) = requestModels l₁ ++ requestModels l₂ :=
    fun l₁ l₂ => filterMap_append
  have hpruned : ∀ b : Bool, requestModels (if b then [.contextPruned] else []) = [] := by decide
  have hpushed : ∀ (b : Bool) messages,
      requestModels (if b then [] else [.checkpoint messages]) = [] := by
    intro b messages
    cases b <;> rfl
  have hasked : ∀ messages n r,
      requestModels (.checkpoint messages :: List.replicate n (.request r)) =
        List.replicate n r.model := by
    simp [requestModels]
  simp only [iterate]
  split
  · rw [happend,hpruned,hasked]
    rfl
  · simp only [happend,hpruned,hasked,append_assoc,nil_append]
    rw [requestModels,filterMap_cons_none rfl,← requestModels,hpushed,
      requestModels_eq_nil fun e he r => dispatch_not_request he r,append_nil,append_nil]
    rfl

theorem requestModels_run (cfg : AgentConfig) (rounds : List Round) (s : LoopState) :
    requestModels (run (iterate cfg) rounds s).1 =
      (generations cfg rounds s).flatMap fun g => List.replicate g.calls g.model := by
  induction rounds generalizing s with
  | nil => rfl
  | cons round rounds ih =>
    have hround := requestModels_iterate cfg round s
    simp only [run,generations]
    split <;> rename_i heq <;> rw [heq] at hround ⊢
    · rw [requestModels,filterMap_append,← requestModels,← requestModels,hround,ih,
        flatMap_cons]
    · simpa using hround
    · simpa using hround

theorem attemptLoop_spec (maxAttempts retries : Nat) (attempts : List LlmResponse) :
    (attemptLoop maxAttempts retries attempts).1 ≤ 1 + (maxAttempts-retries) ∧
    (∀ answer, (attemptLoop maxAttempts retries attempts).2 = some answer → answer∈attempts) ∧
    ∀ attempt ∈ attempts.take (attemptLoop maxAttempts retries attempts).1,
      attempt.retryable=false → (attemptLoop maxAttempts retries attempts).2 = some attempt := by
  induction attempts generalizing retries with
  | nil => exact ⟨Nat.le_add_right 1 _,nofun,nofun⟩
  | cons first rest ih =>
    obtain ⟨hcalls,hanswer,hfinal⟩ := ih (retries+1)
    rw [attemptLoop]
    split_ifs with hlast
    · refine ⟨Nat.le_add_right 1 _,fun answer h => Option.some.inj h ▸ mem_cons_self,?_⟩
      intro attempt hmem _
      rw [mem_singleton.mp hmem]
    · simp only [Bool.or_eq_true,not_or,Bool.not_eq_true',decide_eq_true_eq] at hlast
      refine ⟨by dsimp only; omega,fun answer h => mem_cons_of_mem _ (hanswer answer h),?_⟩
      intro attempt hmem hretryable
      rcases mem_cons.mp hmem with rfl | hmem
      · exact absurd hretryable hlast.1
      · exact hfinal attempt hmem hretryable

section Walk

variable {chain : List String} {m m' : String}

theorem idxOf_of_nextFailoverModel (hnodup : chain.Nodup)
    (h : nextFailoverModel chain m = some m') :
    chain.idxOf m' = chain.idxOf m + 1 ∧ chain.idxOf m' < chain.length := by
  obtain ⟨i,hi,hnext⟩ := Option.bind_eq_some_iff.mp h
  obtain ⟨hlt,hfound,-⟩ := List.findIdx?_eq_some_iff_getElem.mp hi
  obtain ⟨hlt',hget⟩ := List.getElem?_eq_some_iff.mp hnext
  have hm : chain[i] = m := by simpa using hfound
  rw [← hget,← hm,hnodup.idxOf_getElem,hnodup.idxOf_getElem]
  exact ⟨rfl,hlt'⟩

/-- The models of successive generations: the same, or the next of the chain. -/
def ForwardWalk (chain : List String) (models : List String) : Prop :=
  models.IsChain fun m m' => m'=m ∨ nextFailoverModel chain m = some m'

theorem ForwardWalk.not_revisited {models : List String} (hnodup : chain.Nodup)
    (h : ForwardWalk chain models) {i j k : Nat} {a b c : String} (hij : i<j) (hjk : j<k)
    (ha : models[i]? = some a) (hb : models[j]? = some b) (hc : models[k]? = some c)
    (hleft : b≠a) : c≠a := by
  have hforward : models.Pairwise fun m m' => m'=m ∨ chain.idxOf m < chain.idxOf m' := by
    have htrans : IsTrans String fun m m' => m'=m ∨ chain.idxOf m < chain.idxOf m' := by
      refine ⟨fun x y z hxy hyz => ?_⟩
      rcases hxy with rfl | hxy
      · exact hyz
      · rcases hyz with rfl | hyz
        · exact .inr hxy
        · exact .inr (hxy.trans hyz)
    refine isChain_iff_pairwise.mp (h.imp fun m m' hstep => hstep.imp_right fun hnext => ?_)
    rw [(idxOf_of_nextFailoverModel hnodup hnext).1]
    exact Nat.lt_succ_self _
  obtain ⟨hi,rfl⟩ := List.getElem?_eq_some_iff.mp ha
  obtain ⟨hj,rfl⟩ := List.getElem?_eq_some_iff.mp hb
  obtain ⟨hk,rfl⟩ := List.getElem?_eq_some_iff.mp hc
  have hless := (pairwise_iff_getElem.mp hforward i j hi hj hij).resolve_left hleft
  rcases pairwise_iff_getElem.mp hforward j k hj hk hjk with hsame | hlater
  · exact hsame ▸ hleft
  · intro heq
    rw [heq] at hlater
    exact Nat.lt_asymm hless hlater

end Walk

def remaining (cfg : AgentConfig) (s : LoopState) : Nat :=
  (cfg.autoContinues - s.autoContinuesUsed) + (cfg.errorResumes - s.errorResumesUsed) +
    (cfg.providerRetry.failoverModels.length -
      cfg.providerRetry.failoverModels.idxOf (activeModel cfg s))

theorem iterate_next (hnodup : cfg.providerRetry.failoverModels.Nodup)
    (htools : ∀ attempt∈round.attempts, attempt.stopReason≠.toolUse)
    (h : (iterate cfg round s).2 = .next s') :
    remaining cfg s' < remaining cfg s ∧ (activeModel cfg s' = activeModel cfg s ∨
      nextFailoverModel cfg.providerRetry.failoverModels (activeModel cfg s) =
        some (activeModel cfg s')) := by
  rcases iterate_step cfg round s with hcut | ⟨attempt,hanswer,hstep⟩
  · rw [hcut] at h
    cases h
  rw [hstep] at h
  have hshape : (validateResponseShape attempt).stopReason ≠ .toolUse := by
    unfold validateResponseShape
    split_ifs
    · exact nofun
    · exact htools attempt ((attemptLoop_spec _ _ _).2.1 attempt hanswer)
  unfold chooseArm at h
  split at h
  · split_ifs at h with hbudget
    · cases h
      exact ⟨by simp only [remaining,activeModel,afterGeneration]; omega,.inl rfl⟩
    · cases h
  · by_cases hretryable : (validateResponseShape attempt).retryable = true
    · rw [if_pos hretryable] at h
      split at h
      · rename_i next hnext
        cases h
        have hindex := idxOf_of_nextFailoverModel hnodup hnext
        refine ⟨?_,.inr hnext⟩
        simp only [remaining,afterGeneration]
        rw [show activeModel cfg _ = next from rfl]
        omega
      · split_ifs at h with hbudget
        · cases h
          exact ⟨by simp only [remaining,activeModel,afterGeneration]; omega,.inl rfl⟩
        · cases h
    · rw [if_neg hretryable] at h
      cases h
  · cases h
  · cases h
  · cases h
  · contradiction

theorem generations_walk (hnodup : cfg.providerRetry.failoverModels.Nodup) {rounds : List Round}
    (htools : ∀ round∈rounds, ∀ attempt∈round.attempts, attempt.stopReason≠.toolUse)
    (s : LoopState) :
    (generations cfg rounds s).length ≤ 1 + remaining cfg s ∧
      ForwardWalk cfg.providerRetry.failoverModels ((generations cfg rounds s).map (·.model)) := by
  induction rounds generalizing s with
  | nil => exact ⟨Nat.zero_le _,.nil⟩
  | cons round rounds ih =>
    simp only [generations]
    split
    · rename_i s' hnext
      obtain ⟨hless,hmodel⟩ := iterate_next hnodup (htools round mem_cons_self) hnext
      obtain ⟨hlength,hwalk⟩ := ih (fun r hr => htools r (mem_cons_of_mem round hr)) s'
      refine ⟨by simp only [length_cons]; omega,?_⟩
      cases rounds with
      | nil => exact .singleton _
      | cons next rounds => exact .cons_cons hmodel hwalk
    · exact ⟨Nat.le_add_right 1 _,.singleton _⟩
    · exact ⟨Nat.le_add_right 1 _,.singleton _⟩

theorem exists_of_mem_generations {rounds : List Round} {g : Generation}
    (hg : g ∈ generations cfg rounds s) : ∃ round, g.calls = callsOf cfg round := by
  induction rounds generalizing s with
  | nil => cases hg
  | cons round rounds ih =>
    rcases mem_cons.mp hg with rfl | hg
    · exact ⟨round,rfl⟩
    · split at hg
      · exact ih hg
      · cases hg
      · cases hg

/-- Without tool use a turn makes no more generations than its budgets and its chain allow, none with
more calls than its retries allow; the models walk down the chain, and an error that is not to be
retried is the end. -/
theorem generations_bounded (cfg : AgentConfig) (rounds : List Round) (initial : List Message)
    (hnodup : cfg.providerRetry.failoverModels.Nodup)
    (htools : ∀ round∈rounds, ∀ attempt∈round.attempts, attempt.stopReason≠.toolUse) :
    ∃ made : List Generation,
      made = generations cfg rounds { messages := initial } ∧
      requestModels (runInner cfg rounds initial).1 =
        made.flatMap (fun g => List.replicate g.calls g.model) ∧
      made.length ≤
        1+cfg.autoContinues+cfg.errorResumes+cfg.providerRetry.failoverModels.length ∧
      (∀ g∈made, g.calls≤1+cfg.providerRetry.maxAttempts) ∧
      ForwardWalk cfg.providerRetry.failoverModels (made.map (·.model)) ∧
      (∀ (i j k : Nat) (a b c : String), i<j → j<k → (made.map (·.model))[i]? = some a →
        (made.map (·.model))[j]? = some b → (made.map (·.model))[k]? = some c → b≠a → c≠a) ∧
      ∀ round (s : LoopState), ∀ attempt ∈ round.attempts.take (callsOf cfg round),
        attempt.stopReason=.error → attempt.retryable=false →
        ∃ result, (iterate cfg round s).2 = .done result ∧ result.stopReason=.error := by
  obtain ⟨hlength,hwalk⟩ := generations_walk hnodup htools { messages := initial }
  refine ⟨_,rfl,requestModels_run cfg rounds _,?_,?_,hwalk,?_,?_⟩
  · simp only [remaining] at hlength
    omega
  · intro g hg
    obtain ⟨round,hcalls⟩ := exists_of_mem_generations hg
    rw [hcalls]
    exact (attemptLoop_spec _ 0 round.attempts).1
  · exact fun i j k a b c hij hjk ha hb hc hleft =>
      hwalk.not_revisited hnodup hij hjk ha hb hc hleft
  · intro round s attempt hmem hstop hretryable
    have hanswer : answered? cfg round = some attempt :=
      (attemptLoop_spec _ 0 round.attempts).2.2 attempt hmem hretryable
    have hkept : validateResponseShape attempt = attempt := by
      simp [validateResponseShape,toolUseMissingStructuredCall,hstop]
    have harm : chooseArm cfg s (activeModel cfg s) attempt = .terminal := by
      simp [chooseArm,hstop,hretryable]
    have hstep := iterate_answered (s := s) hanswer
    rw [hkept,harm] at hstep
    exact ⟨_,hstep,by simp [settledResponse,hkept,hstop]⟩

def chainOfTwo : AgentConfig where
  model := "a"
  providerRetry := { maxAttempts := 1, failoverModels := ["a", "b"] }

/-- The first model fails for good, and the second is truncated. -/
def failedOver : List Round :=
  let overloaded : LlmResponse := { content := [], stopReason := .error, retryable := true }
  [{ files := .unavailable, attempts := [overloaded, overloaded] },
    { files := .unavailable, attempts := [overloaded, { content := [], stopReason := .maxTokens }] }]

/-- Two generations of two calls each, the second on the next model. -/
theorem generations_bounded_failedOver : ∃ made,
    made = generations chainOfTwo failedOver { messages := [.user "go"] } ∧
    made = [⟨"a",2⟩, ⟨"b",2⟩] ∧ ForwardWalk ["a", "b"] (made.map (·.model)) := by
  obtain ⟨made,hmade,-,-,-,hwalk,-⟩ :=
    generations_bounded chainOfTwo failedOver [.user "go"] (by decide) (by decide)
  exact ⟨made,hmade,by rw [hmade]; decide,hwalk⟩

end Daimonos.Agent
