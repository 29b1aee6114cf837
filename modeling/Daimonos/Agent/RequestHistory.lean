import Daimonos.Agent.RunInner

namespace Daimonos.Agent

open Framework Providers ToolOutput List

/-- What a provider accepts of one message: an assistant message has content, is followed
by no other assistant message, and each of its calls has one result in the next message. -/
def RequestMessage (m : Message) (next : Option Message) : Prop :=
  m.role=.assistant → m.content ≠ [] ∧ (∀ n∈next, n.role=.user) ∧
    ∀ id ∈ callIds m.content, resultCount id next = 1

instance (m : Message) (next : Option Message) : Decidable (RequestMessage m next) :=
  inferInstanceAs (Decidable (_ → _))

def RequestValid (messages : List Message) : Prop := Followed RequestMessage messages

instance (messages : List Message) : Decidable (RequestValid messages) :=
  inferInstanceAs (Decidable (Followed _ _))

/-- A history a turn may start from: it ends with a user message, roles alternate, and
every tool call has its result in the next message. -/
structure TurnStart (messages : List Message) : Prop where
  lastUser : ∃ u, messages.getLast? = some u ∧ u.role=.user
  alternates : Followed (fun m next => ∀ n∈next, n.role≠m.role) messages
  paired : Followed (fun m next => ∀ id ∈ callIds m.content, resultCount id next = 1) messages

/-- The loop invariant at the head of each iteration. -/
structure LoopHistory (messages : List Message) : Prop where
  valid : RequestValid messages
  lastUser : ∃ u, messages.getLast? = some u ∧ u.role=.user
  answered : ∀ m∈messages, ∀ id ∈ callIds m.content, id ∈ answeredIds messages

variable {messages : List Message}

theorem TurnStart.loopHistory (h : TurnStart messages)
    (hne : ∀ m∈messages, m.role=.assistant → m.content ≠ []) : LoopHistory messages := by
  refine ⟨?_,h.lastUser,?_⟩
  · have hboth : Followed (fun m next => (∀ n∈next, n.role≠m.role) ∧
        ∀ id ∈ callIds m.content, resultCount id next = 1) messages := by
      rw [followed_and]
      exact ⟨h.alternates,h.paired⟩
    refine followed_mono ?_ hboth
    intro m hm next _ hx hr
    obtain ⟨halt,hpair⟩ := hx
    refine ⟨hne m hm hr,?_,hpair⟩
    intro n hn
    have hne := halt n hn
    rw [hr] at hne
    cases hrole : n.role with
    | user => rfl
    | assistant => exact absurd hrole hne
  · intro m hm id hid
    obtain ⟨pre,post,rfl⟩ := append_of_mem hm
    exact resultCount_pos (fun n hn => by simp [mem_of_mem_head? hn])
      (followed_split h.paired id hid)

theorem RequestValid.paired (h : RequestValid messages) :
    ToolCallsPaired messages := by
  refine followed_mono ?_ h
  intro m _ next _ hm hr
  exact (hm hr).2.2

-- Compaction inside a turn keeps the invariant: nothing in it looks at a rewritten part.

theorem answeredIds_shape (messages : List Message) :
    answeredIds (messages.map messageShape) = answeredIds messages := by
  simp [answeredIds,flatMap_map]

theorem requestValid_shape (messages : List Message) :
    RequestValid (messages.map messageShape) ↔ RequestValid messages := by
  rw [RequestValid,followed_map]
  apply followed_congr
  intro m _ next _
  cases next with
  | none | some n => simp [RequestMessage,resultCount]

theorem loopHistory_shape (messages : List Message) :
    LoopHistory (messages.map messageShape) ↔ LoopHistory messages := by
  have hlast : (∃ u, (messages.map messageShape).getLast? = some u ∧ u.role=.user) ↔
      ∃ u, messages.getLast? = some u ∧ u.role=.user := by
    simp only [getLast?_map,Option.map_eq_some_iff]
    constructor
    · intro hx
      obtain ⟨u,⟨m,hm,rfl⟩,hu⟩ := hx
      exact ⟨m,hm,hu⟩
    · intro hx
      obtain ⟨u,hm,hu⟩ := hx
      exact ⟨_,⟨u,hm,rfl⟩,hu⟩
  have hanswered : (∀ m ∈ messages.map messageShape, ∀ id ∈ callIds m.content,
        id ∈ answeredIds (messages.map messageShape)) ↔
      ∀ m∈messages, ∀ id ∈ callIds m.content, id ∈ answeredIds messages := by
    simp [answeredIds_shape]
  constructor
  · intro h
    exact ⟨(requestValid_shape messages).mp h.valid,hlast.mp h.lastUser,hanswered.mp h.answered⟩
  · intro h
    exact ⟨(requestValid_shape messages).mpr h.valid,hlast.mpr h.lastUser,
      hanswered.mpr h.answered⟩

theorem answeredIds_microcompact (files : OutputFiles) (cfg : ToolOutputConfig)
    (messages : List Message) :
    answeredIds (microcompactHistory files cfg messages).1 = answeredIds messages := by
  rw [← answeredIds_shape,microcompactHistory_shape,answeredIds_shape]

theorem LoopHistory.microcompact (h : LoopHistory messages)
    (files : OutputFiles) (cfg : ToolOutputConfig) :
    LoopHistory (microcompactHistory files cfg messages).1 := by
  rw [← loopHistory_shape,microcompactHistory_shape,loopHistory_shape]
  exact h

-- A generation and the repair after it append an assistant message and a user message.

variable {a : Message}

theorem ToolCallsPaired.push {u : Message} (h : LoopHistory messages) (hu : u.role=.user)
    (hcount : ∀ id ∈ callIds a.content, (resultIds u.content).count id = 1) :
    ToolCallsPaired (messages ++ [a, u]) := by
  refine (followed_append _ _).mpr ⟨?_,?_,?_,trivial⟩
  · refine followed_mono ?_ h.valid
    intro m _ next _ hm hr id hid
    have hc := (hm hr).2.2 id hid
    cases next with
    | none => simp [resultCount] at hc
    | some n => simpa using hc
  · intro _ id hid
    exact hcount id hid
  · intro hr
    simp [hu] at hr

theorem LoopHistory.push {u : Message} (h : LoopHistory messages)
    (hc : a.content ≠ []) (hu : u.role=.user) (hucalls : callIds u.content = [])
    (hcount : ∀ id ∈ callIds a.content, (resultIds u.content).count id = 1) :
    LoopHistory (messages ++ [a, u]) := by
  obtain ⟨last,hlast,hlastRole⟩ := h.lastUser
  refine ⟨(followed_append _ _).mpr ⟨?_,?_,?_,trivial⟩,⟨u,by simp,hu⟩,?_⟩
  · obtain ⟨init,rfl⟩ := getLast?_eq_some_iff.mp hlast
    have hsplit := (followed_append _ _).mp h.valid
    refine (followed_append _ _).mpr ⟨?_,?_,trivial⟩
    · refine followed_mono ?_ hsplit.1
      intro m _ next _ hm
      cases next with
      | none => simpa using hm
      | some n => exact hm
    · intro hr
      simp [hlastRole] at hr
  · intro _
    refine ⟨hc,by simp [hu],hcount⟩
  · intro hr
    simp [hu] at hr
  · intro m hm id hid
    rw [answeredIds_append]
    simp only [mem_append,mem_cons,not_mem_nil,or_false] at hm
    rcases hm with hm | rfl | rfl
    · exact mem_append_left _ (h.answered m hm id hid)
    · refine mem_append_right _ (mem_answeredIds.mpr ⟨u,by simp,?_⟩)
      exact count_pos_iff.mp (by rw [hcount id hid]; omega)
    · simp [hucalls] at hid

structure FreshCalls (messages : List Message) (a : Message) : Prop where
  role : a.role=.assistant
  distinct : (callIds a.content).Nodup
  fresh : ∀ id ∈ callIds a.content, id ∉ answeredIds messages ++ resultIds a.content

theorem FreshCalls.hasOrphan_iff (hf : FreshCalls messages a) (h : LoopHistory messages) :
    hasOrphanToolCalls (messages ++ [a]) = true ↔ callIds a.content ≠ [] := by
  rw [hasOrphanToolCalls_iff,answeredIds_append,answeredIds_singleton]
  constructor
  · intro hx hnil
    obtain ⟨m,hm,id,hid,hno⟩ := hx
    rcases mem_append.mp hm with hm | hm
    · exact hno (mem_append_left _ (h.answered m hm id hid))
    · obtain rfl : m=a := by simpa using hm
      simp [hnil] at hid
  · intro hne
    obtain ⟨id,hid⟩ := exists_mem_of_ne_nil _ hne
    exact ⟨a,by simp,id,hid,hf.fresh id hid⟩

theorem FreshCalls.close (hf : FreshCalls messages a) (h : LoopHistory messages) :
    closeOrphanToolCalls (messages ++ [a]) =
      if callIds a.content = [] then messages ++ [a]
      else messages ++ [a, { role := .user, content := (callIds a.content).map interruptedResult }] := by
  have hold : insertAfter (closing (answeredIds (messages ++ [a]))) messages = messages := by
    refine insertAfter_eq_self fun m hm => closing_none fun _ id hid => ?_
    rw [answeredIds_append]
    exact mem_append_left _ (h.answered m hm id hid)
  have hids : orphanIds (answeredIds (messages ++ [a])) a = callIds a.content := by
    rw [orphanIds_eq_filter _ _ hf.role,filter_eq_self]
    intro id hid
    simpa using hf.fresh id hid
  have hnew : closing (answeredIds (messages ++ [a])) a =
      if callIds a.content = [] then none
      else some { role := .user, content := (callIds a.content).map interruptedResult } := by
    simp only [closing,hids,List.isEmpty_iff]
  rw [closeOrphanToolCalls_eq,insertAfter_append,hold,insertAfter_cons,hnew]
  split_ifs <;> simp

theorem LoopHistory.close_eq (h : LoopHistory messages) :
    closeOrphanToolCalls messages = messages :=
  closeOrphanToolCalls_eq_self fun m hm _ => h.answered m hm

theorem count_interrupted {ids : List String} (hd : ids.Nodup) {id : String} (hid : id∈ids) :
    (resultIds (ids.map interruptedResult)).count id = 1 := by
  rw [resultIds_interrupted]
  exact count_eq_one_of_mem hd hid

theorem FreshCalls.close_loopHistory
    (hf : FreshCalls messages a) (h : LoopHistory messages) (hcalls : callIds a.content ≠ []) :
    LoopHistory (closeOrphanToolCalls (messages ++ [a])) := by
  rw [hf.close h,if_neg hcalls]
  refine h.push ?_ rfl (callIds_interrupted _) fun id hid => count_interrupted hf.distinct hid
  intro hnil
  simp [hnil] at hcalls

theorem LoopHistory.nudge {text : String}
    (h : LoopHistory messages) (hc : a.content ≠ []) (hcalls : callIds a.content = []) :
    LoopHistory (messages ++ [a] ++ [.user text]) := by
  rw [append_assoc]
  exact h.push hc rfl rfl (by simp [hcalls])

theorem FreshCalls.autoContinue
    (hf : FreshCalls messages a) (h : LoopHistory messages) (hc : a.content ≠ []) :
    LoopHistory (autoContinueMessages (messages ++ [a])) := by
  unfold autoContinueMessages
  split_ifs with ho
  · exact hf.close_loopHistory h ((hf.hasOrphan_iff h).mp ho)
  · have hcalls : callIds a.content = [] := by
      by_contra hne
      exact ho ((hf.hasOrphan_iff h).mpr hne)
    rw [hf.close h,if_pos hcalls]
    exact h.nudge hc hcalls

theorem FreshCalls.errorResume (hf : FreshCalls messages a) (h : LoopHistory messages) :
    LoopHistory (errorResumeMessages (messages ++ [a])) := by
  obtain ⟨last,hlast,hlastRole⟩ := h.lastUser
  by_cases hc : a.content = []
  · have hkept : popEmptyAssistant (messages ++ [a]) = messages := by
      simp [popEmptyAssistant,hf.role,hc]
    simp only [errorResumeMessages,hkept,h.close_eq,hlast,hlastRole,Option.any_some]
    simpa using h
  · have hkept : popEmptyAssistant (messages ++ [a]) = messages ++ [a] := by
      simp [popEmptyAssistant,hc]
    by_cases hcalls : callIds a.content = []
    · have ho : hasOrphanToolCalls (messages ++ [a]) = false := by
        rw [← Bool.not_eq_true,hf.hasOrphan_iff h]
        simpa using hcalls
      simp only [errorResumeMessages,hkept,ho,hf.close h,if_pos hcalls]
      simpa [hf.role] using h.nudge hc hcalls
    · have ho := (hf.hasOrphan_iff h).mpr hcalls
      simp only [errorResumeMessages,hkept,ho,Bool.not_true,Bool.false_and,Bool.false_eq_true,
        if_false]
      exact hf.close_loopHistory h hcalls

theorem FreshCalls.returned (hf : FreshCalls messages a) (h : LoopHistory messages) :
    ToolCallsPaired (closeOrphanToolCalls (messages ++ [a])) := by
  rw [hf.close h]
  split_ifs with hcalls
  · refine (followed_append _ _).mpr ⟨?_,by simp [AnsweredNext,hcalls],trivial⟩
    refine followed_mono ?_ h.valid
    intro m _ next _ hm hr id hid
    have hcount := (hm hr).2.2 id hid
    cases next with
    | none => simp [resultCount] at hcount
    | some n => simpa using hcount
  · exact ToolCallsPaired.push h rfl fun id hid => count_interrupted hf.distinct hid

/-- Responses the repairs of the loop are made for: calls with distinct ids, new to the
history unless they are run at once, a non-empty seed where the loop continues by itself,
and no failure that moves on to another model. -/
structure ResponseOk (cfg : AgentConfig) (s : LoopState) (resp : LlmResponse) : Prop where
  distinct : (callIds resp.content).Nodup
  fresh : resp.stopReason≠.toolUse →
    ∀ id ∈ callIds resp.content, id ∉ answeredIds s.messages ++ resultIds resp.content
  seed : chooseArm cfg s (activeModel cfg s) resp = .autoContinue → resp.content ≠ []
  stays : ∀ model, chooseArm cfg s (activeModel cfg s) resp ≠ .failover model

def RoundOk (cfg : AgentConfig) (round : Round) (s : LoopState) : Prop :=
  ∀ attempt, answered? cfg round = some attempt → ResponseOk cfg s (validateResponseShape attempt)

variable {s : LoopState} {cfg : AgentConfig} {resp : LlmResponse}

theorem chooseArm_toolRound {model : String} (h : chooseArm cfg s model resp = .toolRound) :
    resp.stopReason=.toolUse := by
  cases hstop : resp.stopReason with
  | toolUse => rfl
  | maxTokens =>
    simp only [chooseArm,hstop] at h
    split_ifs at h
  | error =>
    simp only [chooseArm,hstop] at h
    split_ifs at h <;> split at h <;> cases h
  | endTurn | refusal | aborted => simp [chooseArm,hstop] at h

theorem chooseArm_toolUse {model : String} (h : resp.stopReason=.toolUse) :
    chooseArm cfg s model resp = .toolRound := by
  simp [chooseArm,h]

/-- The arms that keep the loop going are only taken after a response was pushed. -/
theorem chooseArm_malformed {model : String}
    {attempt : LlmResponse} (h : toolUseMissingStructuredCall attempt = true) :
    chooseArm cfg s model (validateResponseShape attempt) = .terminal := by
  simp [validateResponseShape,h,chooseArm]

theorem toolRound_sound {round : Round}
    (hs : s.messages = messages ++ [{ role := .assistant, content := resp.content }])
    (h : LoopHistory messages) (hd : (callIds resp.content).Nodup)
    (hcalls : callIds resp.content ≠ []) :
    (∀ s', (toolRound round s resp).2 = .next s' → LoopHistory s'.messages) ∧
      ∀ result, (toolRound round s resp).2 = .done result → ToolCallsPaired result.messages := by
  unfold toolRound
  split
  · simp
  · rename_i effects t heq
    obtain ⟨hr,hc⟩ := toolLoop_results (by rw [heq])
    rw [toolCalls_ids] at hr
    have hne : t.results ≠ [] := by
      intro hnil
      rw [hnil,resultIds_nil] at hr
      exact hcalls hr.symm
    have hhist : withToolResults s.messages t.results =
        messages ++ [{ role := .assistant, content := resp.content },
          { role := .user, content := t.results }] := by
      simp [withToolResults,hne,hs]
    have hloop : LoopHistory (withToolResults s.messages t.results) := by
      rw [hhist]
      refine h.push ?_ rfl hc fun id hid => ?_
      · intro hnil
        simp only at hnil
        simp [hnil] at hcalls
      · rw [hr]
        exact count_eq_one_of_mem hd hid
    simp only [afterTools]
    split_ifs
    · refine ⟨by simp,?_⟩
      intro _ hcase
      cases hcase
      exact hloop.valid.paired
    · split
      · refine ⟨?_,by simp⟩
        intro _ hcase
        cases hcase
        exact hloop
      · refine ⟨?_,by simp⟩
        intro _ hcase
        cases hcase
        exact hloop
      · refine ⟨by simp,?_⟩
        intro _ hcase
        cases hcase
        exact hloop.valid.paired

theorem dispatch_sound {round : Round} {attempt : LlmResponse}
    (hok : ResponseOk cfg s (validateResponseShape attempt)) (h : LoopHistory s.messages) :
    (∀ s', (dispatch round (afterGeneration cfg round s attempt) (settledResponse round attempt)
        (chooseArm cfg s (activeModel cfg s) (validateResponseShape attempt))).2 = .next s' →
      LoopHistory s'.messages) ∧
    ∀ result, (dispatch round (afterGeneration cfg round s attempt) (settledResponse round attempt)
        (chooseArm cfg s (activeModel cfg s) (validateResponseShape attempt))).2 = .done result →
      ToolCallsPaired result.messages := by
  have hm := h.microcompact round.files cfg.toolOutput
  cases hmal : toolUseMissingStructuredCall attempt with
  | true =>
    rw [chooseArm_malformed hmal]
    refine ⟨by simp [dispatch],?_⟩
    intro _ hcase
    cases hcase
    simp only [afterGeneration,pushResponse,hmal,if_true,hm.close_eq]
    exact hm.valid.paired
  | false =>
    set resp := validateResponseShape attempt with hresp
    have hs : (afterGeneration cfg round s attempt).messages =
        (microcompactHistory round.files cfg.toolOutput s.messages).1 ++
          [{ role := .assistant, content := resp.content }] := by
      simp [afterGeneration,pushResponse,hmal,hresp]
    have hfresh : resp.stopReason≠.toolUse →
        FreshCalls (microcompactHistory round.files cfg.toolOutput s.messages).1
          { role := .assistant, content := resp.content } := by
      intro hstop
      refine ⟨rfl,hok.distinct,?_⟩
      rw [answeredIds_microcompact]
      exact hok.fresh hstop
    have hstop : ∀ {arm}, chooseArm cfg s (activeModel cfg s) resp = arm → arm≠.toolRound →
        resp.stopReason≠.toolUse := by
      intro arm heq hne htool
      subst heq
      exact hne (chooseArm_toolUse htool)
    cases harm : chooseArm cfg s (activeModel cfg s) resp with
    | autoContinue =>
      refine ⟨?_,by simp [dispatch]⟩
      intro _ hcase
      cases hcase
      simp only [hs]
      exact (hfresh (hstop harm (by simp))).autoContinue hm (hok.seed harm)
    | failover model => exact absurd harm (hok.stays model)
    | errorResume =>
      refine ⟨?_,by simp [dispatch]⟩
      intro _ hcase
      cases hcase
      simp only [hs]
      exact (hfresh (hstop harm (by simp))).errorResume hm
    | terminal =>
      refine ⟨by simp [dispatch],?_⟩
      intro _ hcase
      cases hcase
      simp only [hs]
      exact (hfresh (hstop harm (by simp))).returned hm
    | toolRound =>
      refine toolRound_sound hs hm hok.distinct ?_
      exact validateResponseShape_toolUse attempt (chooseArm_toolRound harm)

theorem iterate_sound (cfg : AgentConfig) (round : Round) (s : LoopState)
    (hok : RoundOk cfg round s) (h : LoopHistory s.messages) :
    StepSound (fun s => LoopHistory s.messages)
      (fun e => ∀ r, e = .request r → RequestValid r.messages)
      (fun result => ToolCallsPaired result.messages) (iterate cfg round s) := by
  refine ⟨?_,?_,?_⟩
  · intro e he r heq
    subst heq
    rw [iterate_request he]
    exact (h.microcompact round.files cfg.toolOutput).valid
  · intro s' hs'
    rcases iterate_step cfg round s with hcut | ⟨attempt,ha,hd⟩
    · simp [hcut] at hs'
    · exact (dispatch_sound (hok attempt ha) h).1 s' (by rw [← hd,hs'])
  · intro result hr
    rcases iterate_step cfg round s with hcut | ⟨attempt,ha,hd⟩
    · simp [hcut] at hr
    · exact (dispatch_sound (hok attempt ha) h).2 result (by rw [← hd,hr])

/-- Every request a turn sends, and the history it returns, for any provider whose
responses the loop's repairs are made for. -/
theorem runInner_requests_valid (cfg : AgentConfig) (rounds : List Round)
    (initial : List Message) (hstart : TurnStart initial)
    (hne : ∀ m∈initial, m.role=.assistant → m.content ≠ [])
    (hok : Meets (iterate cfg) (RoundOk cfg) rounds { messages := initial }) :
    (∀ r, .request r ∈ (runInner cfg rounds initial).1 → RequestValid r.messages) ∧
      ∀ result, (runInner cfg rounds initial).2 = some result → ToolCallsPaired result.messages := by
  obtain ⟨heff,hres⟩ := run_sound (iterate_sound cfg) rounds _ hok (hstart.loopHistory hne)
  refine ⟨?_,hres⟩
  intro r hr
  rcases mem_cons.mp hr with hr | hr
  · cases hr
  · exact heff _ hr r rfl

def transientError : LlmResponse :=
  { content := [], stopReason := .error, errorMessage := some "overloaded", retryable := true }

def twoModels : AgentConfig :=
  { model := "primary"
    providerRetry := { maxAttempts := 0, failoverModels := ["primary", "fallback"] } }

def oneModel : AgentConfig := { model := "primary", providerRetry := { maxAttempts := 0 } }

/-- A text turn: partial text cut by a transient error, then the rest of it. -/
def resumedRounds : List Round :=
  [{ files := .unavailable, attempts := [{ transientError with content := [.text "par"] }] },
    { files := .unavailable, attempts := [{ content := [.text "tial"], stopReason := .endTurn }] }]

/-- A turn that is cut by a transient error and resumed. -/
theorem runInner_requests_valid_resumed :
    (∀ r, .request r ∈ (runInner oneModel resumedRounds [.user "go"]).1 →
        RequestValid r.messages) ∧
      ∀ result, (runInner oneModel resumedRounds [.user "go"]).2 = some result →
        ToolCallsPaired result.messages := by
  refine runInner_requests_valid oneModel resumedRounds [.user "go"] ?_ (by decide) ?_
  · exact ⟨⟨.user "go",rfl,rfl⟩,by decide,by decide⟩
  · refine ⟨?_,?_⟩
    · intro attempt hcase
      cases hcase
      exact ⟨by decide,by decide,by decide,by rintro model ⟨⟩⟩
    · intro s' hcase
      cases hcase
      refine ⟨?_,by rintro _ ⟨⟩⟩
      intro attempt hcase
      cases hcase
      exact ⟨by decide,by decide,by rintro ⟨⟩,by rintro model ⟨⟩⟩

/-- Failing over after an empty transient error: the second request carries the husk. -/
theorem runInner_failover_sends_empty_assistant :
    TurnStart [.user "go"] ∧
      ¬ ∀ r, .request r ∈ (runInner twoModels
          [{ files := .unavailable, attempts := [transientError] },
            { files := .unavailable, attempts := [transientError] }] [.user "go"]).1 →
        RequestValid r.messages := by
  refine ⟨⟨⟨.user "go",rfl,rfl⟩,by decide,by decide⟩,fun h => ?_⟩
  have hbad := h
    { messages := [.user "go", { role := .assistant, content := [] }]
      model := "fallback"
      thinkingOff := false } (by decide)
  revert hbad
  decide

end Daimonos.Agent
