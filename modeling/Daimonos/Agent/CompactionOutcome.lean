import Daimonos.Agent.TurnJournal
import Daimonos.Providers.AnthropicStream

namespace Daimonos.Agent

open Framework Providers Compaction

namespace AgentSession

def EndedWell (resp : LlmResponse) : Prop :=
  resp.stopReason=.endTurn ∨ resp.stopReason=.maxTokens

instance (resp : LlmResponse) : Decidable (EndedWell resp) := inferInstanceAs (Decidable (_ ∨ _))

def modelText (resp : LlmResponse) : String := trim ("\n".intercalate resp.texts)

theorem summaryText_eq_some {resp : LlmResponse} {text : String}
    (h : summaryText resp = some text) : modelText resp = text := by
  unfold summaryText at h
  simp only at h
  split_ifs at h with hblank
  cases h
  rfl

section Summarize

variable {phase : Phase} {resp : LlmResponse} {answers : List LlmResponse} {s : AgentSession}

theorem summarize_some {text : String} (h : summaryText resp = some text) (n : Nat) :
    summarize phase (n+1) (resp::answers) s =
      ⟨[(phase, s)],
        some ({ s with totalUsage := accumulateUsage s.totalUsage resp.usage }, some text)⟩ := by
  simp only [summarize,h]
  rfl

theorem summarize_none (h : summaryText resp = none) (n : Nat) :
    summarize phase (n+1) (resp::answers) s =
      ⟨(phase, s) :: (summarize phase n answers
          { s with totalUsage := accumulateUsage s.totalUsage resp.usage }).states,
        (summarize phase n answers
          { s with totalUsage := accumulateUsage s.totalUsage resp.usage }).result⟩ := by
  simp only [summarize,h]
  rfl

end Summarize

/-- The first of the answers that gives a text, if any of the first `n` does, with its place. -/
def accepted : Nat → List LlmResponse → Option (Nat × LlmResponse)
  | 0, _ | _, [] => none
  | n+1, resp::answers =>
    if (summaryText resp).isSome then some (0, resp)
    else (accepted n answers).map fun (k, resp) => (k+1, resp)

theorem summarize_spec {phase : Phase} {n : Nat} {answers : List LlmResponse} {s s' : AgentSession}
    {text : Option String} (h : (summarize phase n answers s).result = some (s', text)) :
    s'.messages=s.messages ∧ text = (accepted n answers).map (fun a => modelText a.2) ∧
      ∀ a, accepted n answers = some a →
        (summarize phase n answers s).states.length = a.1+1 ∧ answers[a.1]? = some a.2 := by
  induction n generalizing answers s with
  | zero =>
    cases h
    exact ⟨rfl,rfl,fun a ha => by cases ha⟩
  | succ n ih =>
    cases answers with
    | nil => cases h
    | cons resp answers =>
      cases hsummary : summaryText resp with
      | some t =>
        rw [summarize_some hsummary] at h ⊢
        cases h
        have haccepted : accepted (n+1) (resp::answers) = some (0, resp) := by
          simp [accepted,hsummary]
        rw [haccepted]
        refine ⟨rfl,by rw [Option.map_some,summaryText_eq_some hsummary],fun a ha => ?_⟩
        cases ha
        exact ⟨rfl,rfl⟩
      | none =>
        rw [summarize_none hsummary] at h ⊢
        obtain ⟨hmessages,htext,hplace⟩ := ih h
        have haccepted : accepted (n+1) (resp::answers) =
            (accepted n answers).map fun (k, resp) => (k+1, resp) := by
          simp [accepted,hsummary]
        rw [haccepted]
        refine ⟨hmessages,by rw [htext,Option.map_map]; rfl,fun a ha => ?_⟩
        obtain ⟨b,hb,rfl⟩ := Option.map_eq_some_iff.mp ha
        obtain ⟨hlength,hget⟩ := hplace b hb
        exact ⟨by simp [hlength],by simpa using hget⟩

theorem summaryMessage_ne (text : String) : summaryMessage text ≠ dropMarkerMessage := by
  intro heq
  have htext : "[Summary of earlier conversation: " ++ text ++ "]" =
      "[Earlier conversation truncated — summary unavailable]" := by
    simpa [summaryMessage,dropMarkerMessage,Message.user] using heq
  have hchars := congrArg String.toList htext
  simp at hchars

/-- After compaction the kept tail stands behind one message: the marker, or a summary in the words
of the last completion awaited, which ended well. -/
def Honest (cfg : SessionConfig) (phase : Phase) (answers : List LlmResponse)
    (s s' : AgentSession) : Prop :=
  ∃ policy cut, cfg.compaction = some policy ∧ chooseCut s.messages policy.targetTokens = some cut ∧
    ∃ replacement, s'.messages = replacement :: s.messages.drop cut ∧
      (replacement=dropMarkerMessage ∨
        ∃ resp, answers[(compact cfg phase answers s).states.length - 1]? = some resp ∧
          replacement = summaryMessage (modelText resp) ∧ EndedWell resp)

theorem of_compact {cfg : SessionConfig} {phase : Phase} {answers : List LlmResponse}
    {s s' : AgentSession} (h : (compact cfg phase answers s).result = some (s', true)) :
    ∃ policy cut t text, cfg.compaction = some policy ∧
      chooseCut s.messages policy.targetTokens = some cut ∧
      (summarize phase 2 answers s).result = some (t, text) ∧
      (compact cfg phase answers s).states = (summarize phase 2 answers s).states ∧
      s'.messages = (text.map summaryMessage).getD dropMarkerMessage :: t.messages.drop cut := by
  cases hcut : cfg.compaction >>= fun policy => chooseCut s.messages policy.targetTokens with
  | none =>
    simp only [compact,hcut] at h
    cases h
  | some cut =>
    obtain ⟨policy,hpolicy,hchoose⟩ := Option.bind_eq_some_iff.mp hcut
    have hcompact : compact cfg phase answers s = (summarize phase 2 answers s) >>= fun x =>
        pure ({ x.1 with
          messages := (x.2.map summaryMessage).getD dropMarkerMessage :: x.1.messages.drop cut
          lastPromptTokens := 0 }, true) := by
      simp only [compact,hcut]
    rw [hcompact] at h ⊢
    rw [Staged.result_bind] at h
    obtain ⟨⟨t,text⟩,hresult,hpure⟩ := Option.bind_eq_some_iff.mp h
    cases hpure
    refine ⟨policy,cut,t,text,hpolicy,hchoose,hresult,?_,rfl⟩
    simp [bind,pure,hresult]

/-- A summary is honest unless the first answer with a text and no error message did not end well. -/
theorem compact_honest_iff (cfg : SessionConfig) (phase : Phase) (answers : List LlmResponse)
    {s s' : AgentSession} (h : (compact cfg phase answers s).result = some (s', true)) :
    Honest cfg phase answers s s' ↔ ∀ a, accepted 2 answers = some a → EndedWell a.2 := by
  obtain ⟨policy,cut,t,text,hpolicy,hcut,hsummarize,hstates,hmessages⟩ := of_compact h
  obtain ⟨hkept,htext,hplace⟩ := summarize_spec hsummarize
  rw [hkept] at hmessages
  constructor
  · rintro ⟨policy',cut',hpolicy',hcut',replacement,hreplacement,hhonest⟩ a ha
    rw [hmessages,htext,ha] at hreplacement
    obtain ⟨rfl,-⟩ := List.cons.inj hreplacement
    obtain ⟨hlength,hget⟩ := hplace a ha
    obtain hmarker | ⟨resp,hlast,-,hwell⟩ := hhonest
    · exact (summaryMessage_ne _ hmarker).elim
    · rw [hstates,hlength,Nat.add_sub_cancel,hget] at hlast
      cases hlast
      exact hwell
  · intro hall
    refine ⟨policy,cut,hpolicy,hcut,_,hmessages,?_⟩
    cases ha : accepted 2 answers with
    | none =>
      rw [htext,ha]
      exact Or.inl rfl
    | some a =>
      obtain ⟨hlength,hget⟩ := hplace a ha
      refine Or.inr ⟨a.2,?_,?_,hall a ha⟩
      · rw [hstates,hlength,Nat.add_sub_cancel,hget]
      · rw [htext,ha]
        rfl

def twoTurns : AgentSession :=
  { messages := [.user "a", .user "b"] }

def cutConfig : SessionConfig where
  model := ""
  providerRetry := ⟨0,[]⟩
  compaction := some ⟨fun _ => true,0⟩
  cancelledTurnNote := ""

def answered (text stopReason : String) : LlmResponse :=
  Anthropic.parseBody ⟨[⟨"text",some text,none,none,none,none,none⟩],some stopReason,{}⟩

/-- A summary that ends by itself is recorded as one. -/
theorem compact_honest_end_turn :
    ∃ s', (compact cutConfig .proactiveSummary [answered "They met." "end_turn"] twoTurns).result =
        some (s', true) ∧
      Honest cutConfig .proactiveSummary [answered "They met." "end_turn"] twoTurns s' := by
  refine ⟨_,rfl,(compact_honest_iff cutConfig .proactiveSummary _ rfl).mpr fun a ha => ?_⟩
  cases ha
  exact Or.inl rfl

/-- The words of a refusal stand as the summary. -/
theorem refusal_summarises :
    ∃ s', (compact cutConfig .proactiveSummary [answered "I cannot." "refusal"] twoTurns).result =
        some (s', true) ∧
      s'.messages = [summaryMessage "I cannot.", .user "b"] ∧
      (answered "I cannot." "refusal").stopReason = .refusal ∧
      ¬ Honest cutConfig .proactiveSummary [answered "I cannot." "refusal"] twoTurns s' := by
  refine ⟨_,rfl,rfl,rfl,?_⟩
  rintro ⟨policy,cut,hpolicy,hcut,replacement,hreplacement,hhonest⟩
  obtain ⟨rfl,-⟩ := List.cons.inj hreplacement
  obtain hmarker | ⟨resp,hlast,-,hwell⟩ := hhonest
  · exact summaryMessage_ne _ hmarker
  · cases hlast
    exact absurd hwell (by decide)

end AgentSession

end Daimonos.Agent
