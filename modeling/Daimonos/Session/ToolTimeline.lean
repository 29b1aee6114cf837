import Daimonos.Session.TimelineFold

namespace Daimonos.Session

open Framework List ToolLifecycle

/-- A lifecycle operation that runs to its end before the next one starts. `authorize` suspends
where `authorize_reserved` awaits an approval, and `answer` resumes that task. -/
inductive ToolOp where
  | reserve (info : ToolCallInfo)
  | authorize (info : ToolCallInfo)
  | answer (task : Nat) (answer : Except ApprovalRequestError ApprovalResolution)
  | finish (info : ToolCallInfo) (output : String) (isError : Bool)
  | cancelAll
  | publish (event : SessionEvent)

namespace ToolLifecycle

def ending (l : ToolLifecycle) (call : Nat) : Option Ending :=
  (l.endings.find? fun e => decide (e.1=call)).map Prod.snd

/-- The output the `ToolCallFinished` of a call that ended this way carries. -/
def endingOutput (l : ToolLifecycle) : Ending → String
  | .finished _ output => output
  | .blocked => l.projectOutput "blocked"
  | .cancelled => "cancelled"

def finishCall (id : String) (ending : Ending) (l : ToolLifecycle) : ToolLifecycle :=
  match l.claim id ending with
  | none => l
  | some (call, l) =>
    l.emit (some call) (.toolCallFinished id ending.status (l.endingOutput ending))

def settle (info : ToolCallInfo) (decision : BeforeHookResult) (l : ToolLifecycle) :
    ToolLifecycle :=
  if decision.isBlock then
    (l.emit none (.toolCallUpdated info.id .failed)).finishCall info.id .blocked
  else l.emit none (.toolCallUpdated info.id .inProgress)

def perform (l : ToolLifecycle) : ToolOp → ToolLifecycle
  | .reserve info =>
    match l.reserveLocked info with
    | .error _ => l
    | .ok (call, l) => (l.addTask .done).emit (some call) (startedEvent info)
  | .authorize info =>
    match l.safety.gate info.name with
    | .needsApproval => l.addTask (.awaitingApproval info)
    | .allow => (l.addTask .done).settle info .allow
    | .block reason => (l.addTask .done).settle info (.block reason)
  | .answer i answer =>
    match l.tasks[i]? with
    | some (.awaitingApproval info) =>
      let (decision, safety) := approvalOutcome info l.safety answer
      ({ l with safety }.setTask i .done).settle info decision
    | _ => l
  | .finish info output isError =>
    match l.activeCall info.id with
    | none => l
    | some _ => (l.addTask .done).finishCall info.id (.finished isError (l.projectOutput output))
  | .cancelAll =>
    let (ids, l) := l.drain
    { l.addTask (.cancelling false []) with stream := l.stream ++ cancelEvents ids }
  | .publish event => if event.isToolCall then l else l.emit none event

def performAll (l : ToolLifecycle) (ops : List ToolOp) : ToolLifecycle := ops.foldl perform l

def timelineOf (maxEntries : Nat) (l : ToolLifecycle) : TimelineFold :=
  (TimelineFold.new maxEntries).applyAll (l.stream.map Prod.snd)

structure Recorded (l : ToolLifecycle) : Prop where
  ledger : Ledger l.calls l.active l.ending
  finished : ∀ call id status output, (some call, .toolCallFinished id status output) ∈ l.stream →
    ∃ e, l.ending call = some e ∧ status=e.status ∧ output = l.endingOutput e
  published : ∀ call e, l.ending call = some e →
    ∃ id, (some call, .toolCallFinished id e.status (l.endingOutput e)) ∈ l.stream

variable {l : ToolLifecycle}

theorem ending_append_self {call : Nat} (h : l.ending call = none) (e : Ending) :
    { l with endings := l.endings ++ [(call, e)] }.ending = Function.update l.ending call (some e) := by
  funext k
  by_cases hk : k=call
  · subst hk
    have hnone : l.endings.find? (fun e => decide (e.1=k)) = none := Option.map_eq_none_iff.mp h
    simp [ending,find?_append,hnone]
  · simp [ending,find?_append,Function.update_of_ne hk,Ne.symm hk]

theorem ending_drain (h : Ledger l.calls l.drain.1 l.ending)
    (hperm : l.drain.1.Perm l.active) : (l.perform .cancelAll).ending = fun k =>
      if k ∈ l.drain.1.map Prod.snd then some .cancelled else l.ending k := by
  funext k
  have hending : (l.perform .cancelAll).ending k = (((l.endings ++ l.active.map fun c =>
      (c.2, Ending.cancelled)).find? fun e => decide (e.1=k)).map Prod.snd) := rfl
  rw [hending,find?_append,find?_map]
  split_ifs with hk
  · obtain ⟨c,hc,rfl⟩ := List.mem_map.mp hk
    rw [Option.map_eq_none_iff.mp (h.unfinished c hc),Option.none_or]
    cases hfind : l.active.find? ((fun e => decide (e.1=c.2)) ∘ fun c => (c.2, Ending.cancelled)) with
    | none => exact absurd (find?_eq_none.mp hfind c (hperm.subset hc)) (by simp)
    | some c' => rfl
  · have hnone : l.active.find? ((fun e => decide (e.1=k)) ∘ fun c => (c.2, Ending.cancelled)) =
        none := by
      rw [find?_eq_none]
      intro c hc heq
      exact hk (of_decide_eq_true heq ▸ mem_map_of_mem (hperm.symm.subset hc))
    rw [hnone,Option.map_none,Option.or_none]
    rfl

variable {id : String}

theorem activeCall_of_mem {call : Nat}
    (hdistinct : (l.active.map Prod.fst).Nodup) (h : (id, call) ∈ l.active) :
    l.activeCall id = some call := by
  cases hcall : l.activeCall id with
  | none =>
    have := find?_eq_none.mp (Option.map_eq_none_iff.mp hcall) _ h
    simp at this
  | some call' =>
    have heq := inj_on_of_nodup_map hdistinct (mem_of_activeCall hcall) h rfl
    rw [(Prod.mk.inj heq).2]

theorem finishCall_of_activeCall {call : Nat} {e : Ending} (h : l.activeCall id = some call) :
    l.finishCall id e = { l with
        active := removeKey id l.active
        endings := l.endings ++ [(call, e)]
        stream :=
          l.stream ++ [(some call, .toolCallFinished id e.status (l.endingOutput e))] } := by
  simp only [finishCall,claim,h,Option.map_some]
  rfl

theorem finishCall_of_activeCall_none {e : Ending}
    (h : l.activeCall id = none) : l.finishCall id e = l := by
  simp only [finishCall,claim,h,Option.map_none]

theorem finishCall_active {call : Nat} {e : Ending}
    (hdistinct : (l.active.map Prod.fst).Nodup) (h : (id, call) ∈ l.active) :
    l.finishCall id e = { l with
        active := removeKey id l.active
        endings := l.endings ++ [(call, e)]
        stream :=
          l.stream ++ [(some call, .toolCallFinished id e.status (l.endingOutput e))] } :=
  finishCall_of_activeCall (activeCall_of_mem hdistinct h)

theorem finishCall_inactive {e : Ending} (h : id ∉ l.active.map Prod.fst) : l.finishCall id e = l := by
  refine finishCall_of_activeCall_none ?_
  cases hcall : l.activeCall id with
  | none => rfl
  | some call => exact absurd (mem_map_of_mem (mem_of_activeCall hcall)) h

theorem timelineOf_append (maxEntries : Nat) {l' : ToolLifecycle}
    {events : List (Option Nat × SessionEvent)} (h : l'.stream=l.stream++events) :
    timelineOf maxEntries l' = (timelineOf maxEntries l).applyAll (events.map Prod.snd) := by
  simp [timelineOf,TimelineFold.applyAll,h]

namespace Recorded

variable {l : ToolLifecycle}

theorem emit (h : Recorded l) {l' : ToolLifecycle} {tag : Option Nat} {event : SessionEvent}
    (hevent : ∀ id status output, event ≠ .toolCallFinished id status output)
    (hstream : l'.stream = l.stream ++ [(tag, event)]) (hending : l'.ending=l.ending)
    (houtput : l'.endingOutput=l.endingOutput) (hledger : Ledger l'.calls l'.active l.ending) :
    Recorded l' := by
  refine ⟨hending ▸ hledger,fun call id status output hmem => ?_,fun call e he => ?_⟩
  · rw [hending,houtput]
    rw [hstream] at hmem
    rcases mem_append.mp hmem with hold | hnew
    · exact h.finished call id status output hold
    · exact absurd (Prod.mk.inj (mem_singleton.mp hnew)).2.symm (hevent id status output)
  · rw [hending] at he
    rw [hstream,houtput]
    obtain ⟨id,hmem⟩ := h.published call e he
    exact ⟨id,mem_append_left _ hmem⟩

theorem finishCall (h : Recorded l) {id : String} {call : Nat} (e : Ending)
    (hmem : (id, call) ∈ l.active) : Recorded (l.finishCall id e) ∧
      (l.finishCall id e).ending = Function.update l.ending call (some e) := by
  have hnone := h.ledger.unfinished _ hmem
  have heq : l.finishCall id e = _ := finishCall_active h.ledger.distinct hmem
  have hending : (l.finishCall id e).ending = Function.update l.ending call (some e) :=
    heq ▸ ending_append_self hnone e
  have hstream : (l.finishCall id e).stream =
      l.stream ++ [(some call, .toolCallFinished id e.status (l.endingOutput e))] :=
    congrArg stream heq
  have houtput : (l.finishCall id e).endingOutput = l.endingOutput := by
    rw [heq]
    funext e'
    cases e' <;> rfl
  refine ⟨⟨?_,fun k id' status output hk => ?_,fun k e' hk => ?_⟩,hending⟩
  · rw [hending,congrArg calls heq,congrArg active heq]
    exact h.ledger.finish hmem e
  · rw [hending,houtput]
    rw [hstream] at hk
    rcases mem_append.mp hk with hold | hnew
    · obtain ⟨e',he',hrest⟩ := h.finished k id' status output hold
      have hne : k≠call := by
        intro heq
        subst heq
        rw [hnone] at he'
        cases he'
      exact ⟨e',(Function.update_of_ne hne _ _).trans he',hrest⟩
    · cases mem_singleton.mp hnew
      exact ⟨e,Function.update_self ..,rfl,rfl⟩
  · rw [hending] at hk
    rw [hstream,houtput]
    by_cases hne : k=call
    · subst hne
      rw [Function.update_self] at hk
      cases hk
      exact ⟨id,mem_append_right _ (mem_singleton_self _)⟩
    · obtain ⟨id',hid'⟩ := h.published k e' ((Function.update_of_ne hne _ _).symm.trans hk)
      exact ⟨id',mem_append_left _ hid'⟩

theorem cancelAll (h : Recorded l) (hdrained : Ledger l.calls l.drain.1 l.ending)
    (hending : (l.perform .cancelAll).ending = fun k =>
      if k ∈ l.drain.1.map Prod.snd then some .cancelled else l.ending k) :
    Recorded (l.perform .cancelAll) := by
  have hstream : (l.perform .cancelAll).stream = l.stream ++ cancelEvents l.drain.1 := rfl
  have hunfinished : ∀ k ∈ l.drain.1.map Prod.snd, l.ending k = none := by
    intro k hk
    obtain ⟨c,hc,rfl⟩ := List.mem_map.mp hk
    exact hdrained.unfinished c hc
  refine ⟨⟨nodup_nil,fun _ hc => absurd hc not_mem_nil,
    fun _ hc => absurd hc not_mem_nil,fun k e he => ?_⟩,
    fun k id status output hmem => ?_,fun k e he => ?_⟩
  · rw [hending] at he
    dsimp only at he
    split_ifs at he with hk
    · obtain ⟨c,hc,rfl⟩ := List.mem_map.mp hk
      obtain ⟨info,hinfo,-⟩ := hdrained.admitted c hc
      exact (List.getElem?_eq_some_iff.mp hinfo).1
    · exact h.ledger.ended k e he
  · rw [hstream] at hmem
    rw [hending]
    dsimp only
    rcases mem_append.mp hmem with hold | hnew
    · obtain ⟨e,he,hrest⟩ := h.finished k id status output hold
      rw [if_neg fun hk => by rw [hunfinished k hk] at he; cases he]
      exact ⟨e,he,hrest⟩
    · obtain ⟨hc,rfl,rfl⟩ := mem_cancelEvents.mp hnew
      rw [if_pos (mem_map_of_mem hc)]
      exact ⟨.cancelled,rfl,rfl,rfl⟩
  · rw [hending] at he
    dsimp only at he
    split_ifs at he with hk
    · cases he
      obtain ⟨⟨id,_⟩,hc,rfl⟩ := List.mem_map.mp hk
      exact ⟨id,mem_append_right _ (mem_cancelEvents.mpr ⟨hc,rfl,rfl⟩)⟩
    · obtain ⟨id,hid⟩ := h.published k e he
      exact ⟨id,mem_append_left _ hid⟩

end Recorded

structure Folded (maxEntries : Nat) (l : ToolLifecycle) : Prop where
  recorded : Recorded l
  tracks : Tracks l.calls l.active l.ending (timelineOf maxEntries l)

namespace Folded

variable {maxEntries : Nat} {l : ToolLifecycle}

theorem congr (h : Folded maxEntries l) (safety : SafetyPolicy) (tasks : List ToolTask) :
    Folded maxEntries { l with safety, tasks } :=
  ⟨⟨h.recorded.ledger,h.recorded.finished,h.recorded.published⟩,h.tracks⟩

theorem reserve (h : Folded maxEntries l) (info : ToolCallInfo)
    (hsat : (timelineOf maxEntries (l.perform (.reserve info))).reducer.nextId < u64Max) :
    Folded maxEntries (l.perform (.reserve info)) := by
  cases hreserve : l.reserveLocked info with
  | error reason =>
    simp only [perform,hreserve]
    exact h
  | ok reserved =>
    obtain ⟨call,l'⟩ := reserved
    obtain ⟨hdup,-,rfl,rfl⟩ := of_reserveLocked_eq_ok hreserve
    simp only [perform,hreserve] at hsat ⊢
    refine ⟨h.recorded.emit (fun _ _ _ => by simp [startedEvent]) rfl rfl rfl
      (h.recorded.ledger.start hdup),?_⟩
    rw [timelineOf_append maxEntries rfl] at hsat ⊢
    exact h.tracks.start h.recorded.ledger info hsat

theorem finish (h : Folded maxEntries l) (id : String) (isError : Bool) (output : String) :
    Folded maxEntries (l.finishCall id (.finished isError output)) := by
  by_cases hid : id ∈ l.active.map Prod.fst
  · obtain ⟨⟨_,call⟩,hmem,rfl⟩ := List.mem_map.mp hid
    obtain ⟨hrecorded,hending⟩ := h.recorded.finishCall (.finished isError output) hmem
    refine ⟨hrecorded,?_⟩
    rw [hending,finishCall_active h.recorded.ledger.distinct hmem,timelineOf_append maxEntries rfl]
    exact h.tracks.finish h.recorded.ledger hmem (.finished isError output)
  · rw [finishCall_inactive hid]
    exact h

theorem settle (h : Folded maxEntries l) (info : ToolCallInfo) (decision : BeforeHookResult) :
    Folded maxEntries (l.settle info decision) := by
  have hrecorded : ∀ status, Recorded (l.emit none (.toolCallUpdated info.id status)) :=
    fun status => h.recorded.emit (fun _ _ _ => by simp) rfl rfl rfl h.recorded.ledger
  unfold ToolLifecycle.settle
  split_ifs with hblock
  · by_cases hid : info.id ∈ l.active.map Prod.fst
    · obtain ⟨⟨id,call⟩,hmem,hcall⟩ := List.mem_map.mp hid
      obtain rfl : id=info.id := hcall
      obtain ⟨hfinal,hending⟩ := (hrecorded .failed).finishCall .blocked hmem
      have heq := finishCall_active (e := .blocked) (hrecorded .failed).ledger.distinct hmem
      refine ⟨hfinal,?_⟩
      rw [hending,timelineOf_append maxEntries (congrArg stream heq),
        timelineOf_append maxEntries rfl,congrArg calls heq,congrArg active heq]
      exact (h.tracks.finish h.recorded.ledger hmem .blocked).late (notMem_removeKey _ _) .failed _
    · rw [finishCall_inactive (l := l.emit none _) hid]
      refine ⟨hrecorded .failed,?_⟩
      rw [timelineOf_append maxEntries rfl]
      exact h.tracks.late hid .failed none
  · refine ⟨hrecorded .inProgress,?_⟩
    rw [timelineOf_append maxEntries rfl]
    exact h.tracks.progress h.recorded.ledger info.id

theorem publish (h : Folded maxEntries l) (event : SessionEvent)
    (hsat : (timelineOf maxEntries (l.perform (.publish event))).reducer.nextId < u64Max) :
    Folded maxEntries (l.perform (.publish event)) := by
  unfold perform at hsat ⊢
  dsimp only at hsat ⊢
  split_ifs at hsat ⊢ with htool
  · exact h
  · have hevent : event.isToolCall=false := by simpa using htool
    refine ⟨h.recorded.emit (fun _ _ _ => ?_) rfl rfl rfl h.recorded.ledger,?_⟩
    · intro heq
      subst heq
      cases hevent
    · rw [timelineOf_append maxEntries rfl] at hsat ⊢
      exact h.tracks.other hevent hsat

theorem cancelAll (h : Folded maxEntries l) : Folded maxEntries (l.perform .cancelAll) := by
  have hperm : l.drain.1.Perm l.active := perm_insertionSort _ _
  have hledger := h.recorded.ledger.perm hperm
  have hending : (l.perform .cancelAll).ending = fun k =>
      if k ∈ l.drain.1.map Prod.snd then some .cancelled else l.ending k := ending_drain hledger hperm
  refine ⟨h.recorded.cancelAll hledger hending,?_⟩
  rw [hending,timelineOf_append maxEntries rfl]
  exact (h.tracks.perm hperm).cancelAll hledger

theorem init (safety : SafetyPolicy) (maxActiveTools maxOutputBytes maxEntries : Nat) :
    Folded maxEntries (newWithOutputLimit safety maxActiveTools maxOutputBytes) where
  recorded :=
    { ledger :=
        { distinct := nodup_nil
          unfinished := fun _ hc => absurd hc not_mem_nil
          admitted := fun _ hc => absurd hc not_mem_nil
          ended := fun _ _ he => absurd he (by simp [ending,newWithOutputLimit]) }
      finished := fun _ _ _ _ hmem => absurd hmem not_mem_nil
      published := fun _ _ he => absurd he (by simp [ending,newWithOutputLimit]) }
  tracks :=
    { count := rfl
      increasing := List.Pairwise.nil
      minted := fun _ ho => absurd ho not_mem_nil
      ids := ⟨List.Pairwise.nil,fun _ he => absurd he not_mem_nil⟩
      entries := fun _ he => absurd he not_mem_nil
      tools := fun _ ht => absurd ht not_mem_nil }

theorem perform (h : Folded maxEntries l) (op : ToolOp)
    (hsat : (timelineOf maxEntries (l.perform op)).reducer.nextId < u64Max) :
    Folded maxEntries (l.perform op) := by
  cases op with
  | reserve info => exact h.reserve info hsat
  | authorize info =>
    unfold ToolLifecycle.perform
    dsimp only
    split
    · exact h.congr _ _
    · exact (h.congr _ _).settle info _
    · exact (h.congr _ _).settle info _
  | answer =>
    unfold ToolLifecycle.perform
    dsimp only
    split
    · exact (h.congr _ _).settle _ _
    · exact h
  | finish info output isError =>
    unfold ToolLifecycle.perform
    dsimp only
    split
    · exact h
    · exact (h.congr _ _).finish info.id isError _
  | cancelAll => exact h.cancelAll
  | publish event => exact h.publish event hsat

end Folded

theorem finishCall_stream (l : ToolLifecycle) (id : String) (e : Ending) :
    ∃ events, (l.finishCall id e).stream = l.stream++events := by
  unfold finishCall
  split
  · exact ⟨[],by simp⟩
  next call l' hclaim =>
    obtain ⟨-,rfl⟩ := of_claim_eq_some hclaim
    exact ⟨_,rfl⟩

theorem settle_stream (l : ToolLifecycle) (info : ToolCallInfo) (decision : BeforeHookResult) :
    ∃ events, (l.settle info decision).stream = l.stream++events := by
  unfold settle
  split_ifs
  · obtain ⟨events,hevents⟩ :=
      finishCall_stream (l.emit none (.toolCallUpdated info.id .failed)) info.id .blocked
    exact ⟨_,hevents.trans (append_assoc ..)⟩
  · exact ⟨_,rfl⟩

theorem perform_stream (l : ToolLifecycle) (op : ToolOp) :
    ∃ events, (l.perform op).stream = l.stream++events := by
  cases op with
  | reserve info =>
    cases hreserve : l.reserveLocked info with
    | error reason => exact ⟨[],by simp [perform,hreserve]⟩
    | ok reserved =>
      obtain ⟨call,l'⟩ := reserved
      obtain ⟨-,-,-,rfl⟩ := of_reserveLocked_eq_ok hreserve
      simp only [perform,hreserve]
      exact ⟨_,rfl⟩
  | authorize info =>
    unfold perform
    dsimp only
    split
    · exact ⟨[],by simp [addTask]⟩
    · exact settle_stream (l.addTask .done) info _
    · exact settle_stream (l.addTask .done) info _
  | answer i answer =>
    unfold perform
    dsimp only
    split
    next info _ =>
      exact settle_stream (setTask i .done
        { l with safety := (approvalOutcome info l.safety answer).2 }) info _
    · exact ⟨[],by simp⟩
  | finish =>
    unfold perform
    dsimp only
    split
    · exact ⟨[],by simp⟩
    · exact finishCall_stream (l.addTask .done) _ _
  | cancelAll => exact ⟨_,rfl⟩
  | publish =>
    unfold perform
    dsimp only
    split_ifs
    · exact ⟨[],by simp⟩
    · exact ⟨_,rfl⟩

/-- Until the id counter saturates, the timeline has seen what the lifecycle records. -/
theorem folded_performAll {maxEntries : Nat} (h : Folded maxEntries l) (ops : List ToolOp)
    (hsat : (timelineOf maxEntries (l.performAll ops)).reducer.nextId < u64Max) :
    Folded maxEntries (l.performAll ops) := by
  -- induction from the last operation: an unsaturated counter was unsaturated before it
  induction ops using List.reverseRecOn with
  | nil => exact h
  | append_singleton ops op ih =>
    have hlast : l.performAll (ops ++ [op]) = (l.performAll ops).perform op := by
      simp [performAll]
    rw [hlast] at hsat ⊢
    obtain ⟨events,hevents⟩ := perform_stream (l.performAll ops) op
    have hbefore := hsat
    rw [timelineOf_append maxEntries hevents] at hbefore
    exact (ih (TimelineFold.unsaturated_of_applyAll hbefore)).perform op hsat

/-- Every retained tool entry belongs to a call, and shows the status and the output of the call's
`ToolCallFinished` once that is emitted. -/
def TimelineShowsFinishes (maxEntries : Nat) (l : ToolLifecycle) : Prop :=
  ∀ e ∈ (timelineOf maxEntries l).reducer.timeline, ∀ toolCallId name title shown output truncated,
    e.entry = .tool toolCallId name title shown output truncated →
    ∃ call, (timelineOf maxEntries l).occurrences[call]? = some e.id ∧
      ∀ id status finalOutput, (some call, .toolCallFinished id status finalOutput) ∈ l.stream →
        shown=status ∧ output = some finalOutput

/-- No retained tool entry belongs to a call that was blocked, denied or cancelled. -/
def RetainedCallsFinished (maxEntries : Nat) (l : ToolLifecycle) : Prop :=
  ∀ e ∈ (timelineOf maxEntries l).reducer.timeline, e.entry.isTool →
    ∀ call < l.calls.length, (timelineOf maxEntries l).occurrences[call]? = some e.id →
      l.ending call ≠ some .blocked ∧ l.ending call ≠ some .cancelled

instance (maxEntries : Nat) (l : ToolLifecycle) : Decidable (RetainedCallsFinished maxEntries l) := by
  unfold RetainedCallsFinished
  infer_instance

theorem Folded.showsFinishes {maxEntries : Nat} (h : Folded maxEntries l)
    (hfinished : RetainedCallsFinished maxEntries l) : TimelineShowsFinishes maxEntries l := by
  intro e he toolCallId name title shown output truncated hkind
  obtain ⟨call,info,hcall,hinfo,-,hok⟩ := h.tracks.entries e he _ _ _ _ _ _ hkind
  refine ⟨call,hcall,fun id status finalOutput hmem => ?_⟩
  obtain ⟨ending,hending,rfl,rfl⟩ := h.recorded.finished call id status finalOutput hmem
  have hlt := (List.getElem?_eq_some_iff.mp hinfo).1
  obtain ⟨hblocked,hcancelled⟩ := hfinished e he (by rw [hkind]; rfl) call hlt hcall
  rw [hending] at hok hblocked hcancelled
  obtain ⟨rfl,rfl⟩ := hok
  cases ending with
  | finished => exact ⟨rfl,rfl⟩
  | blocked => exact absurd rfl hblocked
  | cancelled => exact absurd rfl hcancelled

theorem Folded.retainedFinished {maxEntries : Nat} (h : Folded maxEntries l)
    (hshows : TimelineShowsFinishes maxEntries l) : RetainedCallsFinished maxEntries l := by
  intro e he htool call _ hcall
  have hshown : ∀ ending, l.ending call = some ending → ending.shown≠none := by
    intro ending hending
    cases hkind : e.entry with
    | tool =>
      obtain ⟨k,hk,hfinish⟩ := hshows e he _ _ _ _ _ _ hkind
      obtain ⟨k',-,hk',-,-,hok⟩ := h.tracks.entries e he _ _ _ _ _ _ hkind
      obtain rfl := h.tracks.occurrence_unique hk hcall
      obtain rfl := h.tracks.occurrence_unique hk' hcall
      obtain ⟨id,hmem⟩ := h.recorded.published k' ending hending
      rw [hending] at hok
      rw [← hok.2,(hfinish _ _ _ hmem).2]
      exact Option.some_ne_none _
    | _ => simp [hkind,TimelineEntryKind.isTool] at htool
  exact ⟨fun hc => hshown _ hc rfl,fun hc => hshown _ hc rfl⟩

/-- After any sequence of lifecycle operations and other session events, the timeline shows what
the finish events carried exactly when every retained call ended by `finish`. -/
theorem timelineShowsFinishes_iff (safety : SafetyPolicy)
    (maxActiveTools maxOutputBytes maxEntries : Nat) (ops : List ToolOp)
    (hsat : (timelineOf maxEntries ((newWithOutputLimit safety maxActiveTools
      maxOutputBytes).performAll ops)).reducer.nextId < u64Max) :
    TimelineShowsFinishes maxEntries
        ((newWithOutputLimit safety maxActiveTools maxOutputBytes).performAll ops) ↔
      RetainedCallsFinished maxEntries
        ((newWithOutputLimit safety maxActiveTools maxOutputBytes).performAll ops) := by
  have hfolded := folded_performAll (Folded.init safety maxActiveTools maxOutputBytes maxEntries)
    ops hsat
  exact ⟨hfolded.retainedFinished,hfolded.showsFinishes⟩

private def execCall : ToolCallInfo := { id := "call_0", name := "exec" }

private def listCall : ToolCallInfo := { id := "call_0", name := "list_dir" }

/-- A cancelled call has left the window when its id is used again and the new call finishes. -/
def trimmedThenFinished : List ToolOp :=
  [.reserve execCall, .cancelAll, .reserve listCall, .authorize listCall,
    .finish listCall "src" false]

/-- The entry of a call is trimmed before the call finishes. -/
theorem timelineShowsFinishes_trimmedThenFinished :
    TimelineShowsFinishes 1 ((newWithOutputLimit {} 4 64).performAll trimmedThenFinished) :=
  (timelineShowsFinishes_iff {} 4 64 1 trimmedThenFinished (by decide +kernel)).mpr
    (by decide +kernel)

/-- The update that says a call failed comes before the finish event with its output. -/
theorem timeline_dropsBlockedOutput :
    let l := (newWithOutputLimit { deniedCommands := ["exec"] } 4 64).performAll
      [.reserve execCall, .authorize execCall]
    l.stream =
      [(some 0, startedEvent execCall), (none, .toolCallUpdated "call_0" .failed),
        (some 0, .toolCallFinished "call_0" .failed "blocked")] ∧
    (timelineOf 8 l).reducer.timeline.map TimelineEntry.entry =
      [.tool "call_0" "exec" "exec" .failed none false] ∧
    ¬ TimelineShowsFinishes 8 l := by
  refine ⟨by decide +kernel,by decide +kernel,fun hshows => ?_⟩
  have hfolded := folded_performAll (Folded.init { deniedCommands := ["exec"] } 4 64 8)
    [.reserve execCall, .authorize execCall] (by decide +kernel)
  exact absurd (hfolded.retainedFinished hshows) (by decide +kernel)

end ToolLifecycle

end Daimonos.Session
