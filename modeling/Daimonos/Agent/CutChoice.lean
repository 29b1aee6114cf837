import Daimonos.Agent.CompactionOutcome

namespace Daimonos.Compaction

open Providers List

section Cut

variable {messages : List Message} {target c k : Nat}

theorem mem_turnStarts : k ∈ turnStarts messages ↔ ∃ m ∈ messages[k]?, isTurnStart m = true := by
  simp only [turnStarts,mem_filterMap,mem_zipIdx_iff_getElem?,Prod.exists]
  constructor
  · rintro ⟨m,i,hm,hif⟩
    split_ifs at hif with hstart
    obtain rfl := Option.some.inj hif
    exact ⟨m,hm,hstart⟩
  · rintro ⟨m,hm,hstart⟩
    exact ⟨m,k,hm,if_pos hstart⟩

theorem pairwise_turnStarts (messages : List Message) : (turnStarts messages).Pairwise (· < ·) := by
  have hindices : messages.zipIdx.Pairwise fun a b => a.2<b.2 := by
    have hrange : (messages.zipIdx.map Prod.snd).Pairwise (· < ·) := by
      rw [zipIdx_map_snd]
      exact pairwise_lt_range'
    exact pairwise_map.mp hrange
  rw [turnStarts,pairwise_filterMap]
  refine hindices.imp fun {a b} hlt i hi j hj => ?_
  dsimp only at hi hj
  split_ifs at hi with ha
  split_ifs at hj with hb
  rw [← Option.some.inj hi,← Option.some.inj hj]
  exact hlt

theorem extendTail_spec (messages : List Message) (target : Nat) (older : List Nat) (cut : Nat)
    (h : (cut::older).Pairwise (· > ·)) :
    extendTail messages target cut older ∈ cut::older ∧
    (∀ k∈cut::older, extendTail messages target cut older < k →
      estimateTokens (messages.drop k) < target) ∧
    (target ≤ estimateTokens (messages.drop (extendTail messages target cut older)) ∨
      ∀ k∈cut::older, extendTail messages target cut older ≤ k) := by
  induction older generalizing cut with
  | nil =>
    simp only [extendTail,mem_singleton]
    exact ⟨trivial,fun k hk hlt => absurd hlt (by omega),.inr fun k hk => by omega⟩
  | cons start older ih =>
    obtain ⟨hcut,hrest⟩ := pairwise_cons.mp h
    rw [extendTail]
    split_ifs with hreached
    · refine ⟨mem_cons_self,fun k hk hlt => ?_,.inl hreached⟩
      rcases mem_cons.mp hk with rfl | hk
      · omega
      · exact absurd (hcut k hk) (by omega)
    · obtain ⟨hmem,hbelow,hstop⟩ := ih start hrest
      refine ⟨mem_cons_of_mem _ hmem,fun k hk hlt => ?_,?_⟩
      · rcases mem_cons.mp hk with rfl | hk
        · omega
        · exact hbelow k hk hlt
      · refine hstop.imp_right fun hleast k hk => ?_
        rcases mem_cons.mp hk with rfl | hk
        · exact (hcut _ hmem).le
        · exact hleast k hk

theorem chooseCut_cases (messages : List Message) (target : Nat) :
    (turnStarts messages).length < 2 ∧ chooseCut messages target = none ∨
    2 ≤ (turnStarts messages).length ∧ ∃ c ∈ turnStarts messages,
      chooseCut messages target = (if 0 < c then some c else none) ∧
      (∀ k ∈ turnStarts messages, c<k → estimateTokens (messages.drop k) < target) ∧
      (target ≤ estimateTokens (messages.drop c) ∨ ∀ k ∈ turnStarts messages, c≤k) := by
  have hsorted : (turnStarts messages).reverse.Pairwise (· > ·) :=
    pairwise_reverse.mpr (pairwise_turnStarts messages)
  have hmem : ∀ k, k ∈ (turnStarts messages).reverse ↔ k ∈ turnStarts messages := fun k =>
    mem_reverse
  have hlength : (turnStarts messages).reverse.length = (turnStarts messages).length :=
    length_reverse
  unfold chooseCut
  generalize (turnStarts messages).reverse = starts at hsorted hmem hlength ⊢
  cases starts with
  | nil =>
    refine .inl ⟨?_,rfl⟩
    rw [← hlength]
    exact Nat.zero_lt_two
  | cons newest older =>
    dsimp only
    split_ifs with hnone hpos
    · subst hnone
      exact .inl ⟨by simp [← hlength],rfl⟩
    all_goals
      have htwo : 2 ≤ (turnStarts messages).length := by
        have hpositive := length_pos_of_ne_nil hnone
        rw [← hlength,List.length_cons]
        omega
      obtain ⟨hin,hbelow,hstop⟩ := extendTail_spec messages target older newest hsorted
      refine .inr ⟨htwo,_,(hmem _).mp hin,?_,fun k hk => hbelow k ((hmem k).mpr hk),
        hstop.imp_right fun hleast k hk => hleast k ((hmem k).mpr hk)⟩
    · rw [if_pos hpos]
    · rw [if_neg hpos]

def SameTurn (messages : List Message) (i j : Nat) : Prop :=
  ∀ k ∈ turnStarts messages, k ≤ i ↔ k≤j

/-- Every call is answered in its own turn, and every result answers a call of its own turn. -/
structure AnsweredInTurn (messages : List Message) : Prop where
  calls : ∀ i, ∀ m ∈ messages[i]?, ∀ id ∈ callIds m.content,
    ∃ j, ∃ m' ∈ messages[j]?, SameTurn messages i j ∧ id ∈ resultIds m'.content
  results : ∀ i, ∀ m ∈ messages[i]?, ∀ id ∈ resultIds m.content,
    ∃ j, ∃ m' ∈ messages[j]?, SameTurn messages i j ∧ id ∈ callIds m'.content

/-- A part of a history that holds its calls together with their results. -/
def PairsWithin (part : List Message) : Prop :=
  (∀ m∈part, ∀ id ∈ callIds m.content, ∃ m'∈part, id ∈ resultIds m'.content) ∧
    ∀ m∈part, ∀ id ∈ resultIds m.content, ∃ m'∈part, id ∈ callIds m'.content

theorem mem_take_iff {m : Message} : m ∈ messages.take c ↔ ∃ i < c, m ∈ messages[i]? := by
  simp only [mem_iff_getElem?,getElem?_take]
  constructor
  · rintro ⟨i,hi⟩
    split_ifs at hi with hlt
    exact ⟨i,hlt,hi⟩
  · rintro ⟨i,hlt,hi⟩
    exact ⟨i,by rw [if_pos hlt]; exact hi⟩

theorem mem_drop_iff {m : Message} : m ∈ messages.drop c ↔ ∃ i, c ≤ i ∧ m ∈ messages[i]? := by
  simp only [mem_iff_getElem?,getElem?_drop]
  constructor
  · rintro ⟨i,hi⟩
    exact ⟨c+i,Nat.le_add_right c i,hi⟩
  · rintro ⟨i,hle,hi⟩
    exact ⟨i-c,by rw [Nat.add_sub_cancel' hle]; exact hi⟩

theorem AnsweredInTurn.parts (h : AnsweredInTurn messages) (hc : c ∈ turnStarts messages) :
    PairsWithin (messages.take c) ∧ PairsWithin (messages.drop c) := by
  simp only [PairsWithin,mem_take_iff,mem_drop_iff]
  refine ⟨⟨?_,?_⟩,⟨?_,?_⟩⟩
  · rintro m ⟨i,hi,hm⟩ id hid
    obtain ⟨j,m',hm',hsame,hid'⟩ := h.calls i m hm id hid
    exact ⟨m',⟨j,Nat.not_le.mp fun hle => absurd ((hsame c hc).mpr hle) (by omega),hm'⟩,hid'⟩
  · rintro m ⟨i,hi,hm⟩ id hid
    obtain ⟨j,m',hm',hsame,hid'⟩ := h.results i m hm id hid
    exact ⟨m',⟨j,Nat.not_le.mp fun hle => absurd ((hsame c hc).mpr hle) (by omega),hm'⟩,hid'⟩
  · rintro m ⟨i,hi,hm⟩ id hid
    obtain ⟨j,m',hm',hsame,hid'⟩ := h.calls i m hm id hid
    exact ⟨m',⟨j,(hsame c hc).mp hi,hm'⟩,hid'⟩
  · rintro m ⟨i,hi,hm⟩ id hid
    obtain ⟨j,m',hm',hsame,hid'⟩ := h.results i m hm id hid
    exact ⟨m',⟨j,(hsame c hc).mp hi,hm'⟩,hid'⟩

/-- There is a cut exactly if there are two turns and not all is to be kept; it keeps the shortest
tail of whole turns that reaches the target, or all turns, and no call is parted from its result. -/
theorem chooseCut_whole_turns (messages : List Message) (target : Nat)
    (h : AnsweredInTurn messages) :
    ((chooseCut messages target).isSome = true ↔ 2 ≤ (turnStarts messages).length ∧
      (0 ∈ turnStarts messages →
        ∃ k ∈ turnStarts messages, 0<k ∧ target ≤ estimateTokens (messages.drop k))) ∧
    ∀ c, chooseCut messages target = some c → 0 < c ∧ c ∈ turnStarts messages ∧
      (∀ k ∈ turnStarts messages, c<k → estimateTokens (messages.drop k) < target) ∧
      (target ≤ estimateTokens (messages.drop c) ∨ ∀ k ∈ turnStarts messages, c≤k) ∧
      PairsWithin (messages.take c) ∧ PairsWithin (messages.drop c) := by
  rcases chooseCut_cases messages target with ⟨hfew,hnone⟩ | ⟨htwo,c,hc,hcut,hbelow,hstop⟩
  · rw [hnone]
    refine ⟨iff_of_false (by decide) fun hboth => absurd hboth.1 (by omega),fun c hc => by cases hc⟩
  · by_cases hpos : 0 < c
    · rw [hcut,if_pos hpos]
      refine ⟨iff_of_true rfl ⟨htwo,fun hzero => ⟨c,hc,hpos,?_⟩⟩,fun c' hc' => ?_⟩
      · exact hstop.resolve_right fun hleast => absurd (hleast 0 hzero) (by omega)
      · obtain rfl := Option.some.inj hc'
        exact ⟨hpos,hc,hbelow,hstop,h.parts hc⟩
    · rw [hcut,if_neg hpos]
      obtain rfl : c=0 := by omega
      refine ⟨iff_of_false (by decide) ?_,fun c hc => by cases hc⟩
      rintro ⟨-,hreach⟩
      obtain ⟨k,hk,hkpos,hreached⟩ := hreach hc
      exact absurd (hbelow k hk hkpos) (by omega)

end Cut

def calledThenPlain : List Message :=
  [.user "a", { role := .assistant, content := [.toolCall "t" "search" .null] },
    { role := .user, content := [.toolResult "t" "x" false] }, .user "b"]

/-- The cut comes after the turn that called a tool. -/
theorem chooseCut_whole_turns_called : chooseCut calledThenPlain 0 = some 3 ∧
    PairsWithin (calledThenPlain.take 3) ∧ PairsWithin (calledThenPlain.drop 3) := by
  have hanswered : AnsweredInTurn calledThenPlain := by
    constructor
    · intro i m hm id hid
      rcases i with _ | _ | _ | _ | i <;> cases hm
      · cases hid
      · obtain rfl := mem_singleton.mp hid
        exact ⟨2,_,rfl,by unfold SameTurn; decide,mem_singleton.mpr rfl⟩
      · cases hid
      · cases hid
    · intro i m hm id hid
      rcases i with _ | _ | _ | _ | i <;> cases hm
      · cases hid
      · cases hid
      · obtain rfl := mem_singleton.mp hid
        exact ⟨1,_,rfl,by unfold SameTurn; decide,mem_singleton.mpr rfl⟩
      · cases hid
  have hcut : chooseCut calledThenPlain 0 = some 3 := by decide
  obtain ⟨-,-,-,-,hparts⟩ := (chooseCut_whole_turns calledThenPlain 0 hanswered).2 3 hcut
  exact ⟨hcut,hparts⟩

/-- Two turns that fit the target are not cut, and what stands before the first turn may be all
that is cut off. -/
theorem chooseCut_other_cuts :
    (turnStarts [.user "a", .user "b"] = [0, 1] ∧ chooseCut [.user "a", .user "b"] 100 = none) ∧
    turnStarts [{ role := .assistant, content := [.text "x"] }, .user "a", .user "b"] = [1, 2] ∧
      chooseCut [{ role := .assistant, content := [.text "x"] }, .user "a", .user "b"] 100 =
        some 1 := by
  decide

end Daimonos.Compaction

namespace Daimonos.Agent

open Providers Compaction

namespace AgentSession

/-- The cut is before the second message: that starts a turn, no tail of later turns reaches the
target, and it does, or nothing older starts a turn. -/
def EvictsOne (messages : List Message) (target : Nat) : Prop :=
  1 ∈ turnStarts messages ∧
    (∀ k ∈ turnStarts messages, 1<k → estimateTokens (messages.drop k) < target) ∧
    (target ≤ estimateTokens (messages.drop 1) ∨ 0 ∉ turnStarts messages)

theorem evictsOne_iff {messages : List Message} {target c : Nat}
    (h : chooseCut messages target = some c) : EvictsOne messages target ↔ c=1 := by
  rcases chooseCut_cases messages target with ⟨-,hnone⟩ | ⟨-,c',hc,hcut,hbelow,hstop⟩
  · rw [hnone] at h
    cases h
  · rw [hcut] at h
    split_ifs at h with hpos
    obtain rfl := Option.some.inj h
    constructor
    · rintro ⟨hone,hlater,hreach⟩
      by_contra hne
      have hlt : 1 < c' := by omega
      rcases hstop with hstop | hleast
      · exact absurd (hlater c' hc hlt) (by omega)
      · exact absurd (hleast 1 hone) (by omega)
    · rintro rfl
      refine ⟨hc,hbelow,hstop.imp_right fun hleast hzero => ?_⟩
      exact absurd (hleast 0 hzero) (by decide)

def Compacted (cfg : SessionConfig) (s s' : AgentSession) : Prop :=
  ∃ phase answers, (compact cfg phase answers s).result = some (s', true)

theorem Compacted.length_eq {cfg : SessionConfig} {s s' : AgentSession} (h : Compacted cfg s s') :
    ∃ policy c, cfg.compaction = some policy ∧ chooseCut s.messages policy.targetTokens = some c ∧
      s'.messages.length+c=s.messages.length+1 ∧ 0 < c := by
  obtain ⟨phase,answers,h⟩ := h
  obtain ⟨policy,c,t,text,hpolicy,hcut,hsummarize,-,hmessages⟩ := of_compact h
  obtain ⟨hkept,-⟩ := summarize_spec hsummarize
  refine ⟨policy,c,hpolicy,hcut,?_⟩
  rcases chooseCut_cases s.messages policy.targetTokens with ⟨-,hnone⟩ | ⟨-,c',hc,hcut',-,-⟩
  · rw [hnone] at hcut
    cases hcut
  · rw [hcut'] at hcut
    split_ifs at hcut with hpos
    obtain rfl := Option.some.inj hcut
    obtain ⟨m,hm,-⟩ := mem_turnStarts.mp hc
    have hlt := (getElem?_eq_some_iff.mp hm).1
    rw [hmessages,hkept,List.length_cons,List.length_drop]
    omega

/-- A compaction shortens the history unless it evicts a single message, and so an endless sequence
of compactions has one that does. -/
theorem compact_shorter_iff (cfg : SessionConfig) :
    (∀ s s', Compacted cfg s s' → (s'.messages.length < s.messages.length ↔
      ∀ policy∈cfg.compaction, ¬ EvictsOne s.messages policy.targetTokens)) ∧
    ∀ chain : Nat → AgentSession, (∀ n, Compacted cfg (chain n) (chain (n+1))) →
      ∃ n, ∃ policy∈cfg.compaction, EvictsOne (chain n).messages policy.targetTokens := by
  have hshorter : ∀ s s', Compacted cfg s s' → (s'.messages.length < s.messages.length ↔
      ∀ policy∈cfg.compaction, ¬ EvictsOne s.messages policy.targetTokens) := by
    intro s s' h
    obtain ⟨policy,c,hpolicy,hcut,hlength,hpos⟩ := h.length_eq
    rw [hpolicy]
    simp only [Option.mem_def,Option.some.injEq,forall_eq',evictsOne_iff hcut]
    omega
  refine ⟨hshorter,fun chain hchain => ?_⟩
  by_contra hnever
  have hdecreasing : ∀ n, (chain (n+1)).messages.length < (chain n).messages.length := fun n =>
    (hshorter _ _ (hchain n)).mpr fun policy hpolicy hone => hnever ⟨n,policy,hpolicy,hone⟩
  exact not_strictAnti_of_wellFoundedLT _
    (strictAnti_nat_of_succ_lt (f := fun n => (chain n).messages.length) hdecreasing)

/-- Four messages are cut to two. -/
theorem compact_shorter_called : ∃ s', Compacted cutConfig { messages := calledThenPlain } s' ∧
    s'.messages.length < calledThenPlain.length := by
  have hcompacted : Compacted cutConfig { messages := calledThenPlain } _ :=
    ⟨.proactiveSummary,[answered "They met." "end_turn"],rfl⟩
  refine ⟨_,hcompacted,((compact_shorter_iff cutConfig).1 _ _ hcompacted).mpr ?_⟩
  rintro policy hpolicy ⟨hone,-⟩
  exact absurd hone (by decide)

/-- A summary that is compacted again makes room for the next summary. -/
theorem summary_compacted_again : ∃ s s', Compacted cutConfig s s' ∧
    s.messages = [summaryMessage "They met.", .user "b"] ∧ s'.messages=s.messages :=
  ⟨{ messages := [summaryMessage "They met.", .user "b"] },_,
    ⟨.proactiveSummary,[answered "They met." "end_turn"],rfl⟩,rfl,rfl⟩

end AgentSession

end Daimonos.Agent
