import Daimonos.Framework.Keyed
import Daimonos.Session.ApprovalBroker

namespace Daimonos.Session

open Framework Function List ApprovalResolution Option

def SessionEvent.concerns (id : String) : SessionEvent → Bool
  | .approvalRequested request => decide (request.id=id)
  | .approvalResolved approvalId _ _ => decide (approvalId=id)
  | _ => false

/-- The requests and resolutions of `id` in the stream, in order. -/
def approvalEvents (id : String) (stream : List SessionEvent) : List SessionEvent :=
  stream.filter (SessionEvent.concerns id)

theorem approvalEvents_append (id : String) (stream : List SessionEvent) (event : SessionEvent) :
    approvalEvents id (stream ++ [event]) =
      approvalEvents id stream ++ if event.concerns id then [event] else [] := by
  cases h : event.concerns id <;> simp [approvalEvents,h]

@[ext] structure ApprovalView where
  pending : Bool
  unemitted : Option ApprovalResolution
  channel : Option ApprovalResolution
  accepted : List ApprovalResolution
  cleanup : List ApprovalResolution
  events : List SessionEvent

namespace ApprovalView

def absent : ApprovalView := ⟨false,none,none,[],[],[]⟩

def pendingWith (events : List SessionEvent) : ApprovalView := ⟨true,none,none,[],[],events⟩

def unemittedWith (r : ApprovalResolution) (events : List SessionEvent) : ApprovalView :=
  ⟨false,some r,some r,[r],[],events⟩

def cleaningWith (r : ApprovalResolution) (events : List SessionEvent) : ApprovalView :=
  ⟨false,none,some r,[r],[r],events⟩

def claimedWith (r : ApprovalResolution) (events : List SessionEvent) : ApprovalView :=
  ⟨false,none,some r,[r],[],events⟩

def OpenWith (v : ApprovalView) (events : List SessionEvent) : Prop :=
  v = pendingWith events ∨ ∃ r, v = unemittedWith r events

def resolve (v : ApprovalView) (r : ApprovalResolution) : ApprovalView :=
  { v with
    pending := false
    unemitted := some r
    channel := some r
    accepted := v.accepted ++ [r] }

end ApprovalView

namespace ApprovalSession

def view (id : String) (s : ApprovalSession) : ApprovalView where
  pending := (s.broker.pending id).isSome
  unemitted := s.broker.unemitted id
  channel := s.broker.channel id
  accepted := s.accepted.filter fun r => decide (r.approvalId=id)
  cleanup := s.cleanup.filter fun r => decide (r.approvalId=id)
  events := approvalEvents id s.stream

end ApprovalSession

open ApprovalView

inductive Stage where
  | opening
  | waiting
  | received (r : ApprovalResolution)
  | claimed (unemitted r : ApprovalResolution)
  | published (r : ApprovalResolution)
  | cleanedUp
  | failed

def WaiterPhase.stage : WaiterPhase → Stage
  | .emitStatus | .emitRequested => .opening
  | .awaiting | .tryRecv | .checkEligible | .updateDeadline _ | .emitDeadline _ | .pollReceiver _
  | .pollEligibility _ | .pollSleep | .waiting _ | .timerResolve | .dropped false => .waiting
  | .received r => .received r
  | .emitResolved unemitted r => .claimed unemitted r
  | .emitRunning r | .returned (.ok r) => .published r
  | .dropped true => .cleanedUp
  | .brokerClosed | .denyFailed _ _ | .denyTake _ | .denyRunning _ | .returned (.error _) => .failed

/-- A cleanup has taken the approval over, and will publish its resolution or has done so. -/
def TakenOver (request : ApprovalRequest) (v : ApprovalView) (r : ApprovalResolution) : Prop :=
  v = cleaningWith r [.approvalRequested request] ∨
    v = claimedWith r [.approvalRequested request, r.event]

def StageOk (request : ApprovalRequest) (v : ApprovalView) : Stage → Prop
  | .opening => v.OpenWith []
  | .waiting => v.OpenWith [.approvalRequested request] ∨ ∃ r, TakenOver request v r
  | .received r => v = unemittedWith r [.approvalRequested request] ∨ TakenOver request v r
  | .claimed unemitted r => unemitted=r ∧ v = claimedWith r [.approvalRequested request]
  | .published r => TakenOver request v r
  | .cleanedUp => ∃ r, TakenOver request v r
  | .failed => False

def PhaseOk (w : Waiter) (v : ApprovalView) : Prop := StageOk w.request v w.phase.stage

variable {request : ApprovalRequest} {v : ApprovalView} {stage : Stage}

/-- The four places an approval can be in; one that is pending may be answered at any time, and one
that a cleanup has taken over may be published at any time. -/
theorem StageOk.places (h : StageOk request v stage) :
    (∃ events, v = pendingWith events ∧ ∀ r, StageOk request (unemittedWith r events) stage) ∨
    ∃ r events, v = unemittedWith r events ∨ v = claimedWith r events ∨
      v = cleaningWith r events ∧ events = [.approvalRequested request] ∧
        StageOk request (claimedWith r [.approvalRequested request, r.event]) stage := by
  -- what a cleanup has taken over, in a stage that allows it
  have htaken : ∀ r, TakenOver request v r → (∀ v', TakenOver request v' r → StageOk request v' stage) →
      ∃ r events, v = unemittedWith r events ∨ v = claimedWith r events ∨
        v = cleaningWith r events ∧ events = [.approvalRequested request] ∧
          StageOk request (claimedWith r [.approvalRequested request, r.event]) stage := by
    rintro r (hv | hv) hok
    · exact ⟨r,_,Or.inr (Or.inr ⟨hv,rfl,hok _ (Or.inr rfl)⟩)⟩
    · exact ⟨r,_,Or.inr (Or.inl hv)⟩
  cases stage with
  | opening =>
    rcases h with h | ⟨r,h⟩
    · exact Or.inl ⟨_,h,fun r => Or.inr ⟨r,rfl⟩⟩
    · exact Or.inr ⟨r,_,Or.inl h⟩
  | waiting =>
    rcases h with (h | ⟨r,h⟩) | ⟨r,h⟩
    · exact Or.inl ⟨_,h,fun r => Or.inl (Or.inr ⟨r,rfl⟩)⟩
    · exact Or.inr ⟨r,_,Or.inl h⟩
    · exact Or.inr (htaken r h fun _ hv => Or.inr ⟨r,hv⟩)
  | received r =>
    rcases h with h | h
    · exact Or.inr ⟨r,_,Or.inl h⟩
    · exact Or.inr (htaken r h fun _ hv => Or.inr hv)
  | claimed unemitted r => exact Or.inr ⟨r,_,Or.inr (Or.inl h.2)⟩
  | published r => exact Or.inr (htaken r h fun _ hv => hv)
  | cleanedUp =>
    obtain ⟨r,h⟩ := h
    exact Or.inr (htaken r h fun _ hv => ⟨r,hv⟩)
  | failed => exact h.elim

theorem StageOk.resolve (h : StageOk request v stage) (hpending : v.pending)
    (r : ApprovalResolution) : StageOk request (v.resolve r) stage := by
  rcases h.places with ⟨events,rfl,hanswered⟩ | ⟨r',events,rfl | rfl | ⟨rfl,-⟩⟩
  · exact hanswered r
  · cases hpending
  · cases hpending
  · cases hpending

theorem StageOk.cleaning {r : ApprovalResolution} (h : StageOk request v stage)
    (hr : r∈v.cleanup) : v = cleaningWith r [.approvalRequested request] ∧
      StageOk request (claimedWith r [.approvalRequested request, r.event]) stage := by
  rcases h.places with ⟨events,rfl,-⟩ | ⟨r',events,rfl | rfl | ⟨rfl,rfl,hpublished⟩⟩
  · cases hr
  · cases hr
  · cases hr
  · obtain rfl : r=r' := mem_singleton.mp hr
    exact ⟨rfl,hpublished⟩

namespace ApprovalSession

/-- Every call's approval is where the call's phase says, and no other id is in use. -/
structure Settled (s : ApprovalSession) : Prop where
  registered : ∀ id w, s.waiters id = some w →
    w.request.id=id ∧ ∃ n, 1≤n ∧ n ≤ s.broker.nextId ∧ id = approvalId n
  known : ∀ id w, s.waiters id = some w → PhaseOk w (s.view id)
  unknown : ∀ id, s.waiters id = none → s.view id = absent

structure Touches (id : String) (s s' : ApprovalSession) : Prop where
  waiters : ∀ j, j≠id → s'.waiters j = s.waiters j
  view : ∀ j, j≠id → s'.view j = s.view j
  nextId : s.broker.nextId ≤ s'.broker.nextId

theorem Touches.refl (id : String) (s : ApprovalSession) : Touches id s s :=
  ⟨fun _ _ => rfl,fun _ _ => rfl,le_refl _⟩

variable {s s' : ApprovalSession} {id : String}

theorem Touches.setWaiter (h : Touches id s s')
    (w : Waiter) : Touches id s (s'.setWaiter id w) := by
  refine ⟨fun j hj => ?_,h.view,h.nextId⟩
  rw [← h.waiters j hj]
  exact update_of_ne hj _ _

theorem view_emit (id : String) (error : Option SessionEventError) (event : SessionEvent)
    (s : ApprovalSession) (h : event.concerns id = false) :
    (s.emit error event).view id = s.view id := by
  unfold emit
  split_ifs
  · rfl
  · simp [view,approvalEvents_append,h]

theorem touches_emit (id : String) (error : Option SessionEventError) (event : SessionEvent)
    (s : ApprovalSession) (h : ∀ j, j≠id → event.concerns j = false) :
    Touches id s (s.emit error event) := by
  refine ⟨fun j _ => ?_,fun j hj => view_emit j error event s (h j hj),?_⟩
  · unfold emit
    split_ifs <;> rfl
  · unfold emit
    split_ifs <;> exact le_refl _

theorem view_emit_self {error : Option SessionEventError} {event : SessionEvent}
    (herror : error ≠ some .sequenceExhausted) (h : event.concerns id = true) :
    (s.emit error event).view id = { s.view id with events := (s.view id).events ++ [event] } := by
  simp [emit,herror,view,approvalEvents_append,h]

variable {r : ApprovalResolution}

open ApprovalBroker

theorem resolve_ok {resolvedBy : String} {capabilities : List ClientCapability}
    {decision : ApprovalDecision}
    (h : s.resolve id resolvedBy capabilities decision = (.ok r, s')) :
    (s.view id).pending ∧ s'.waiters=s.waiters ∧ Touches id s s' ∧
    s'.view id = (s.view id).resolve r := by
  unfold resolve at h
  split at h
  next => cases h
  next r' broker hb =>
    obtain ⟨hp,hid,rfl⟩ := of_resolve_eq_ok hb
    obtain ⟨hr,rfl⟩ := Prod.mk.inj h
    obtain rfl : r'=r := Except.ok.inj hr
    refine ⟨hp,rfl,⟨fun _ _ => rfl,fun j hj => ?_,le_refl _⟩,?_⟩
    · have hne : r'.approvalId≠j := fun heq => hj (heq.symm.trans hid)
      simp [view,update_of_ne hj,hne]
    · simp [view,ApprovalView.resolve,hid]

theorem resolve_error {resolvedBy : String} {capabilities : List ClientCapability}
    {decision : ApprovalDecision} {error : ApprovalError}
    (h : s.resolve id resolvedBy capabilities decision = (.error error, s')) : s'=s := by
  unfold resolve at h
  split at h
  · exact (Prod.mk.inj h).2.symm
  · cases h

theorem resolve_deny (resolvedBy : String) (h : (s.broker.pending id).isSome) :
    ∃ r s', s.resolve id resolvedBy [.approveOnce] .deny = (.ok r, s') := by
  obtain ⟨request,hp⟩ := isSome_iff_exists.mp h
  simp [resolve,ApprovalBroker.resolve,ApprovalBroker.requiredCapability,hp]

theorem view_takeUnemitted (id : String) (s : ApprovalSession) :
    { s with broker := (s.broker.takeUnemitted id).2 }.view id =
      { s.view id with unemitted := none } := by
  simp [view,takeUnemitted]

theorem touches_takeUnemitted (id : String) (s : ApprovalSession) :
    Touches id s { s with broker := (s.broker.takeUnemitted id).2 } := by
  refine ⟨fun _ _ => rfl,fun j hj => ?_,le_refl _⟩
  simp [view,takeUnemitted,update_of_ne hj]

theorem view_updateDeadline (id j : String) (deadline : Nat) (paused : Bool) (s : ApprovalSession) :
    { s with broker := (s.broker.updateDeadline id deadline paused).2 }.view j = s.view j := by
  unfold updateDeadline
  split
  · rfl
  next request hp =>
    split_ifs
    · rfl
    · by_cases hj : j=id
      · subst hj
        simp [view,hp]
      · simp [view,update_of_ne hj]

theorem touches_updateDeadline (id : String) (deadline : Nat) (paused : Bool)
    (s : ApprovalSession) :
    Touches id s { s with broker := (s.broker.updateDeadline id deadline paused).2 } := by
  refine ⟨fun _ _ => rfl,fun j _ => view_updateDeadline id j deadline paused s,?_⟩
  unfold updateDeadline
  split
  · exact le_refl _
  · split_ifs <;> exact le_refl _

/-- What a cleanup leaves of one id: a pending request is denied, an unemitted answer taken over. -/
def drained (id : String) (s : ApprovalSession) : ApprovalView where
  pending := false
  unemitted := none
  channel := (s.broker.denial "session_cancelled" id).or (s.broker.channel id)
  accepted := (s.view id).accepted ++ (s.broker.denial "session_cancelled" id).toList
  cleanup := (s.view id).cleanup ++
    ((s.broker.denial "session_cancelled" id).toList ++ (s.broker.unemitted id).toList)
  events := (s.view id).events

theorem drained_of_not_pending (h : (s.view id).pending = false) :
    s.drained id =
      { s.view id with
        unemitted := none
        cleanup := (s.view id).cleanup ++ (s.view id).unemitted.toList } := by
  have hnone : s.broker.pending id = none := by simpa [view] using h
  simp [drained,view,ApprovalBroker.denial,hnone]

variable {events : List SessionEvent}

theorem drained_of_claimed (h : s.view id = claimedWith r events) :
    s.drained id = claimedWith r events := by
  rw [drained_of_not_pending (by rw [h]; rfl),h]
  rfl

theorem drained_of_cleaning (h : s.view id = cleaningWith r events) :
    s.drained id = cleaningWith r events := by
  rw [drained_of_not_pending (by rw [h]; rfl),h]
  rfl

theorem drained_of_unemitted (h : s.view id = unemittedWith r events) :
    s.drained id = cleaningWith r events := by
  rw [drained_of_not_pending (by rw [h]; rfl),h]
  rfl

theorem drained_of_pending
    (h : s.view id = pendingWith events) : ∃ r, s.drained id = cleaningWith r events := by
  have hpending : (s.broker.pending id).isSome := congrArg ApprovalView.pending h
  obtain ⟨request,hp⟩ := isSome_iff_exists.mp hpending
  have hunemitted : s.broker.unemitted id = none := congrArg ApprovalView.unemitted h
  simp [drained,h,pendingWith,cleaningWith,ApprovalBroker.denial,hp,hunemitted]

theorem drained_of_absent (h : s.view id = absent) :
    s.drained id = absent := by
  rw [drained_of_not_pending (by rw [h]; rfl),h]
  rfl

theorem drained_of_takenOver {request : ApprovalRequest} (h : TakenOver request (s.view id) r) :
    TakenOver request (s.drained id) r :=
  h.imp drained_of_cleaning drained_of_claimed

theorem drained_of_waiting {request : ApprovalRequest} (h : StageOk request (s.view id) .waiting) :
    ∃ r, TakenOver request (s.drained id) r := by
  rcases h with (hv | ⟨r,hv⟩) | ⟨r,hv⟩
  · obtain ⟨r,hr⟩ := drained_of_pending hv
    exact ⟨r,Or.inl hr⟩
  · exact ⟨r,Or.inl (drained_of_unemitted hv)⟩
  · exact ⟨r,drained_of_takenOver hv⟩

/-- A step of the call for `id` that leaves its approval where its new phase says. -/
def Advances (id : String) (w : Waiter) (s s' : ApprovalSession) : Prop :=
  Touches id s s' ∧ ∃ w', s'.waiters id = some w' ∧ w'.request=w.request ∧ PhaseOk w' (s'.view id)

variable {w : Waiter}

theorem advances_setWaiter {w' : Waiter}
    (h : Touches id s s') (hrequest : w'.request=w.request) (hok : PhaseOk w' (s'.view id)) :
    Advances id w s (s'.setWaiter id w') :=
  ⟨h.setWaiter w',w',update_self ..,hrequest,hok⟩

theorem advances_receive {w₀ : Waiter} {empty : WaiterPhase}
    (hv : StageOk w.request (s.view id) .waiting) (hrequest : w.request=w₀.request)
    (hempty : PhaseOk { w with phase := empty } (s.view id)) :
    Advances id w₀ s (s.receive id w empty) := by
  unfold receive
  rcases hv with (hv | ⟨r,hv⟩) | ⟨r,hv⟩
  · have hchannel : s.broker.channel id = none := congrArg ApprovalView.channel hv
    have hpending : (s.broker.pending id).isSome = true := congrArg ApprovalView.pending hv
    simp only [hchannel,isNone_eq_false_iff.mpr hpending,Bool.false_eq_true,if_false]
    exact advances_setWaiter (.refl id s) hrequest hempty
  · have hchannel : s.broker.channel id = some r := congrArg ApprovalView.channel hv
    simp only [hchannel]
    exact advances_setWaiter (.refl id s) hrequest (Or.inl hv)
  · have hchannel : s.broker.channel id = some r := by
      rcases hv with hv | hv <;> exact congrArg ApprovalView.channel hv
    simp only [hchannel]
    exact advances_setWaiter (.refl id s) hrequest (Or.inr hv)

theorem announce_open {request : ApprovalRequest}
    (hid : request.id=id) (hopen : (s.view id).OpenWith []) :
    Touches id s (s.emit none (.approvalRequested request)) ∧
      ((s.emit none (.approvalRequested request)).view id).OpenWith [.approvalRequested request] := by
  refine ⟨touches_emit id _ _ s fun j hj => by simp [SessionEvent.concerns,hid,Ne.symm hj],?_⟩
  rw [view_emit_self (by simp) (by simp [SessionEvent.concerns,hid])]
  rcases hopen with hv | ⟨r,hv⟩
  · exact Or.inl (by rw [hv]; rfl)
  · exact Or.inr ⟨r,by rw [hv]; rfl⟩

theorem timer_denies {request : ApprovalRequest} (hv : StageOk request (s.view id) .waiting)
    (hpending : (s.broker.pending id).isSome = true) :
    ∃ r s', s.resolve id "approval_timeout" [.approveOnce] .deny = (.ok r, s') ∧
      Touches id s s' ∧ s'.view id = unemittedWith r [.approvalRequested request] := by
  have hview : s.view id = pendingWith [.approvalRequested request] := by
    have hpending' : (s.view id).pending = true := hpending
    rcases hv with (hv | ⟨r,hv⟩) | ⟨r,hv | hv⟩
    · exact hv
    all_goals
      rw [hv] at hpending'
      cases hpending'
  obtain ⟨r,s',hres⟩ := resolve_deny "approval_timeout" hpending
  obtain ⟨-,-,htouch,hview'⟩ := resolve_ok hres
  refine ⟨r,s',hres,htouch,?_⟩
  rw [hview',hview]
  rfl

theorem publish_claimed {error : Option SessionEventError}
    (hview : s.view id = claimedWith r events) (herror : error ≠ some .sequenceExhausted) :
    Touches id s (s.emit error r.event) ∧
      (s.emit error r.event).view id = claimedWith r (events ++ [r.event]) := by
  have hmine : r.approvalId=id := by
    have hmem : r ∈ (s.view id).accepted := by simp [hview,claimedWith]
    simpa [view] using (mem_filter.mp hmem).2
  refine ⟨touches_emit id _ _ s fun j hj => ?_,?_⟩
  · simp [SessionEvent.concerns,event,hmine,Ne.symm hj]
  · rw [view_emit_self herror (by simp [SessionEvent.concerns,event,hmine]),hview]
    rfl

theorem pollWaiter_advances {env : PollEnv}
    (hw : s.waiters id = some w) (hid : w.request.id=id) (hv : PhaseOk w (s.view id))
    (hlive : w.phase.isLive) (hok : s.stepOk (.poll id env)) :
    Advances id w s (s.pollWaiter id w env) := by
  have hquiet : ∀ status, Touches id s (s.emit env.emitError (.turnStatusChanged status)) ∧
      (s.emit env.emitError (.turnStatusChanged status)).view id = s.view id :=
    fun status => ⟨touches_emit id _ _ s fun _ _ => rfl,view_emit id _ _ s rfl⟩
  unfold PhaseOk at hv
  simp only [stepOk,hw,map_some] at hok
  unfold pollWaiter
  cases hphase : w.phase with
  | emitStatus =>
    simp only [hphase,isNone_iff_eq_none] at hv hok ⊢
    obtain ⟨htouch,hview⟩ := hquiet .waitingForApproval
    rw [hok] at htouch hview ⊢
    exact advances_setWaiter htouch rfl (hview ▸ hv)
  | emitRequested =>
    simp only [hphase,isNone_iff_eq_none] at hv hok ⊢
    obtain ⟨htouch,hview⟩ := announce_open hid hv
    rw [hok]
    refine advances_setWaiter htouch rfl ?_
    split_ifs
    · exact Or.inl hview
    · exact Or.inl hview
  | awaiting | tryRecv | pollReceiver =>
    simp only [hphase] at hv ⊢
    exact advances_receive hv rfl hv
  | checkEligible =>
    simp only [hphase] at hv ⊢
    split_ifs
    · exact advances_setWaiter (.refl id s) rfl hv
    · exact advances_setWaiter (.refl id s) rfl hv
  | updateDeadline eligible =>
    simp only [hphase] at hv ⊢
    split
    · exact advances_setWaiter (.refl id s) rfl hv
    next deadline _ =>
      refine advances_setWaiter (touches_updateDeadline id deadline eligible s) rfl ?_
      rw [view_updateDeadline]
      split_ifs
      · exact hv
      · exact hv
  | emitDeadline =>
    simp only [hphase] at hv ⊢
    refine advances_setWaiter (touches_emit id _ _ s fun _ _ => rfl) rfl ?_
    rw [view_emit id _ _ s rfl]
    exact hv
  | pollEligibility =>
    simp only [hphase] at hv ⊢
    split_ifs
    · exact advances_setWaiter (.refl id s) rfl hv
    · exact advances_setWaiter (.refl id s) rfl hv
    · exact advances_setWaiter (.refl id s) rfl hv
  | pollSleep =>
    simp only [hphase] at hv ⊢
    refine advances_setWaiter (.refl id s) rfl ?_
    split_ifs
    · exact hv
    · exact hv
  | waiting =>
    simp only [hphase] at hv ⊢
    exact advances_setWaiter (.refl id s) rfl hv
  | timerResolve =>
    simp only [hphase] at hv hok ⊢
    obtain ⟨r,s',hres,htouch,hview⟩ := timer_denies hv hok
    simp only [hres]
    exact advances_setWaiter htouch rfl (Or.inl hview)
  | received r =>
    simp only [hphase] at hv ⊢
    have htouch := touches_takeUnemitted id s
    have hview := view_takeUnemitted id s
    rcases hv with hv | hv
    · have hunemitted : (s.broker.takeUnemitted id).1 = some r :=
        congrArg ApprovalView.unemitted hv
      rw [hv] at hview
      simp only [hunemitted]
      exact advances_setWaiter htouch rfl ⟨rfl,hview⟩
    · -- a cleanup has it, and this call publishes nothing
      have hunemitted : (s.broker.takeUnemitted id).1 = none := by
        rcases hv with hv | hv <;> exact congrArg ApprovalView.unemitted hv
      have hsame : { s.view id with unemitted := none } = s.view id := by
        rcases hv with hv | hv <;> rw [hv] <;> rfl
      rw [hsame] at hview
      simp only [hunemitted]
      refine advances_setWaiter htouch rfl ?_
      rw [hview]
      exact hv
  | emitResolved =>
    simp only [hphase] at hv hok ⊢
    obtain ⟨rfl,hv⟩ := hv
    obtain ⟨htouch,hview⟩ := publish_claimed hv (of_decide_eq_true hok)
    exact advances_setWaiter htouch rfl (Or.inr hview)
  | emitRunning =>
    simp only [hphase] at hv ⊢
    obtain ⟨htouch,hview⟩ := hquiet .running
    refine advances_setWaiter htouch rfl ?_
    rw [hview]
    exact hv
  | brokerClosed | denyFailed | denyTake | denyRunning =>
    rw [hphase] at hv
    exact False.elim hv
  | returned | dropped => simp [hphase,WaiterPhase.isLive] at hlive

namespace Settled

theorem init (allowAlways : Bool) (timeout : Option Nat) :
    Settled { broker := { allowAlways, timeout } } :=
  ⟨fun _ _ h => absurd h.symm (some_ne_none _),
    fun _ _ h => absurd h.symm (some_ne_none _),fun _ _ => rfl⟩

variable {s s' : ApprovalSession} {id : String}

theorem touch {w' : Waiter} (h : Settled s)
    (htouch : Touches id s s') (hw : s'.waiters id = some w') (hid : w'.request.id=id)
    (hregistered : ∃ n, 1≤n ∧ n ≤ s'.broker.nextId ∧ id = approvalId n)
    (hok : PhaseOk w' (s'.view id)) : Settled s' := by
  refine ⟨fun j w hj => ?_,fun j w hj => ?_,fun j hj => ?_⟩
  · by_cases hne : j=id
    · subst hne
      obtain rfl : w'=w := some.inj (hw.symm.trans hj)
      exact ⟨hid,hregistered⟩
    · obtain ⟨hreq,n,h1,hn,heq⟩ := h.registered j w (htouch.waiters j hne ▸ hj)
      exact ⟨hreq,n,h1,hn.trans htouch.nextId,heq⟩
  · by_cases hne : j=id
    · subst hne
      obtain rfl : w'=w := some.inj (hw.symm.trans hj)
      exact hok
    · rw [htouch.view j hne]
      exact h.known j w (htouch.waiters j hne ▸ hj)
  · have hne : j≠id := by
      intro heq
      subst heq
      exact some_ne_none w' (hw.symm.trans hj)
    rw [htouch.view j hne]
    exact h.unknown j (htouch.waiters j hne ▸ hj)

theorem touchKnown {w w' : Waiter} (h : Settled s)
    (hw : s.waiters id = some w) (htouch : Touches id s s') (hw' : s'.waiters id = some w')
    (hrequest : w'.request=w.request) (hok : PhaseOk w' (s'.view id)) : Settled s' := by
  obtain ⟨hid,n,h1,hn,heq⟩ := h.registered id w hw
  exact h.touch htouch hw' (hrequest ▸ hid) ⟨n,h1,hn.trans htouch.nextId,heq⟩ hok

theorem poll {env : PollEnv} (h : Settled s)
    (hok : s.stepOk (.poll id env)) (hs : s.step (.poll id env) = some s') : Settled s' := by
  obtain ⟨w,hw,hs⟩ := bind_eq_some_iff.mp hs
  split_ifs at hs with hlive
  cases hs
  obtain ⟨htouch,w',hw',hrequest,hphase⟩ :=
    pollWaiter_advances hw (h.registered id w hw).1 (h.known id w hw) hlive hok
  exact h.touchKnown hw htouch hw' hrequest hphase

theorem drop (h : Settled s) (hs : s.step (.drop id) = some s') : Settled s' := by
  obtain ⟨w,hw,hs⟩ := bind_eq_some_iff.mp hs
  split_ifs at hs with hawait
  cases hs
  refine h.touchKnown hw ((Touches.refl id s).setWaiter _) (update_self ..) rfl ?_
  have hv := h.known id w hw
  unfold PhaseOk at hv
  cases hphase : w.phase <;> simp only [hphase,WaiterPhase.isAwaitPoint,Bool.false_eq_true] at hawait hv
  · exact hv
  · exact hv

theorem respond {resolvedBy : String}
    {capabilities : List ClientCapability} {decision : ApprovalDecision} (h : Settled s) :
    Settled (s.resolve id resolvedBy capabilities decision).2 := by
  cases hres : s.resolve id resolvedBy capabilities decision with
  | mk result s' =>
    cases result with
    | error error => exact resolve_error hres ▸ h
    | ok r =>
      obtain ⟨hpending,hwaiters,htouch,hview⟩ := resolve_ok hres
      cases hw : s.waiters id with
      | none =>
        rw [h.unknown id hw] at hpending
        cases hpending
      | some w =>
        exact h.touchKnown hw htouch (hwaiters ▸ hw) rfl
          (hview ▸ StageOk.resolve (h.known id w hw) hpending r)

theorem remap (h : Settled s) (f : Waiter → Waiter)
    (hwaiters : ∀ id, s'.waiters id = (s.waiters id).map f)
    (hrequest : ∀ w, (f w).request = w.request) (hnext : s'.broker.nextId = s.broker.nextId)
    (hknown : ∀ id w, s.waiters id = some w → PhaseOk (f w) (s'.view id))
    (hunknown : ∀ id, s.waiters id = none → s'.view id = absent) : Settled s' := by
  refine ⟨fun id w' hw' => ?_,fun id w' hw' => ?_,fun id hid => ?_⟩
  · rw [hwaiters id,map_eq_some_iff] at hw'
    obtain ⟨w,hw,rfl⟩ := hw'
    rw [hrequest,hnext]
    exact h.registered id w hw
  · rw [hwaiters id,map_eq_some_iff] at hw'
    obtain ⟨w,hw,rfl⟩ := hw'
    exact hknown id w hw
  · rw [hwaiters id,map_eq_none_iff] at hid
    exact hunknown id hid

theorem requestApproval (h : Settled s) (request : ApprovalRequest) :
    Settled (s.requestApproval request) := by
  unfold ApprovalSession.requestApproval register
  split_ifs with hfull
  · exact h
  dsimp only
  generalize hid : approvalId (s.broker.nextId+1) = id
  have hfresh : s.waiters id = none := by
    cases hw : s.waiters id with
    | none => rfl
    | some w =>
      obtain ⟨-,n,-,hn,heq⟩ := h.registered id w hw
      have := approvalId_inj (hid.trans heq)
      omega
  have hv := h.unknown id hfresh
  refine h.touch ⟨fun j hj => update_of_ne hj _ _,fun j hj => ?_,Nat.le_succ _⟩ (update_self ..)
    rfl ⟨s.broker.nextId+1,by omega,le_refl _,hid.symm⟩ (Or.inl ?_)
  · simp [view,ApprovalSession.setWaiter,update_of_ne hj]
  · unfold view at hv ⊢
    simp only [absent,ApprovalView.mk.injEq] at hv
    simp [ApprovalSession.setWaiter,pendingWith,hv]

theorem cleaning (h : Settled s) {r : ApprovalResolution}
    (hr : r∈s.cleanup) : ∃ w, s.waiters r.approvalId = some w ∧
      s.view r.approvalId = cleaningWith r [.approvalRequested w.request] ∧
      PhaseOk w (claimedWith r [.approvalRequested w.request, r.event]) := by
  have hmem : r ∈ (s.view r.approvalId).cleanup := mem_filter.mpr ⟨hr,by simp⟩
  cases hw : s.waiters r.approvalId with
  | none =>
    rw [h.unknown _ hw] at hmem
    cases hmem
  | some w => exact ⟨w,rfl,StageOk.cleaning (h.known _ w hw) hmem⟩

theorem cleanupEmit {i : Nat} {error : Option SessionEventError} (h : Settled s)
    (hok : s.stepOk (.cleanupEmit i error)) (hs : s.step (.cleanupEmit i error) = some s') :
    Settled s' := by
  have hrecorded : error ≠ some .sequenceExhausted := of_decide_eq_true hok
  obtain ⟨r,hr,rfl⟩ := map_eq_some_iff.mp hs
  obtain ⟨hlt,hget⟩ := List.getElem?_eq_some_iff.mp hr
  have hsplit : s.cleanup = s.cleanup.take i ++ r :: s.cleanup.drop (i+1) := by
    rw [← hget,← drop_eq_getElem_cons hlt,take_append_drop]
  obtain ⟨w,hw,hv,hpublished⟩ := h.cleaning (mem_of_getElem? hr)
  have hemit : { s with cleanup := s.cleanup.eraseIdx i }.emit error r.event =
      { s with
        cleanup := s.cleanup.take i ++ s.cleanup.drop (i+1)
        stream := s.stream ++ [r.event] } := by
    simp [emit,hrecorded,eraseIdx_eq_take_drop_succ]
  rw [hemit]
  refine h.touchKnown hw ⟨fun _ _ => rfl,fun j hj => ?_,le_refl _⟩ hw rfl ?_
  · have hother : s.cleanup.filter (fun r => decide (r.approvalId=j)) =
        (s.cleanup.take i ++ s.cleanup.drop (i+1)).filter fun r => decide (r.approvalId=j) := by
      conv_lhs => rw [hsplit]
      simp [filter_append,Ne.symm hj]
    simp [view,approvalEvents_append,hother,SessionEvent.concerns,event,Ne.symm hj]
  · convert hpublished using 1
    have hmine : (s.cleanup.take i ++ s.cleanup.drop (i+1)).filter
        (fun r' => decide (r'.approvalId=r.approvalId)) = [] := by
      have hone : s.cleanup.filter (fun r' => decide (r'.approvalId=r.approvalId)) = [r] :=
        congrArg ApprovalView.cleanup hv
      rw [hsplit,filter_append,filter_cons_of_pos (by simp)] at hone
      have hlength := congrArg List.length hone
      rw [length_append,length_cons,length_singleton] at hlength
      rw [filter_append,append_eq_nil_iff,← length_eq_zero_iff,← length_eq_zero_iff]
      omega
    unfold view at hv ⊢
    simp only [cleaningWith,ApprovalView.mk.injEq] at hv
    simp [claimedWith,approvalEvents_append,hv,hmine,SessionEvent.concerns,event]

theorem mem_ids {w : Waiter} (h : Settled s) (hw : s.waiters id = some w) : id∈s.broker.ids := by
  obtain ⟨-,n,h1,hn,rfl⟩ := h.registered id w hw
  exact mem_map_of_mem (mem_range'_1.mpr ⟨h1,by omega⟩)

theorem shape (h : Settled s) (id : String) : s.view id = absent ∨
    ∃ events, s.view id = pendingWith events ∨
      ∃ r, s.view id = unemittedWith r events ∨ s.view id = claimedWith r events ∨
        s.view id = cleaningWith r events := by
  cases hw : s.waiters id with
  | none => exact Or.inl (h.unknown id hw)
  | some w =>
    rcases (h.known id w hw).places with ⟨events,hv,-⟩ | ⟨r,events,hv | hv | ⟨hv,-⟩⟩
    · exact Or.inr ⟨events,Or.inl hv⟩
    · exact Or.inr ⟨events,Or.inr ⟨r,Or.inl hv⟩⟩
    · exact Or.inr ⟨events,Or.inr ⟨r,Or.inr (Or.inl hv)⟩⟩
    · exact Or.inr ⟨events,Or.inr ⟨r,Or.inr (Or.inr hv)⟩⟩

theorem unemitted (h : Settled s) {r : ApprovalResolution}
    (hr : s.broker.unemitted id = some r) : r.approvalId=id ∧ s.broker.pending id = none := by
  have hview : (s.view id).unemitted = some r := hr
  have hshape : ∃ events, s.view id = unemittedWith r events := by
    rcases h.shape id with hv | ⟨events,hv | ⟨r',hv | hv | hv⟩⟩ <;> rw [hv] at hview
    · cases hview
    · cases hview
    · cases hview
      exact ⟨events,hv⟩
    · cases hview
    · cases hview
  obtain ⟨events,hv⟩ := hshape
  have hmem : r ∈ (s.view id).accepted := by simp [hv,unemittedWith]
  have hpending : (s.broker.pending id).isSome = false := congrArg ApprovalView.pending hv
  exact ⟨by simpa [view] using (mem_filter.mp hmem).2,by simpa using hpending⟩

theorem outside_ids (h : Settled s) (hid : id ∉ s.broker.ids) :
    s.broker.pending id = none ∧ s.broker.unemitted id = none := by
  have hv : s.view id = absent := by
    refine h.unknown id (eq_none_iff_forall_ne_some.mpr fun w hw => hid (h.mem_ids hw))
  have hpending : (s.broker.pending id).isSome = false := congrArg ApprovalView.pending hv
  exact ⟨by simpa using hpending,congrArg ApprovalView.unemitted hv⟩

theorem view_cleanup (h : Settled s) (id : String) :
    s.cleanupCancelledTurn.view id = s.drained id := by
  set denial := s.broker.denial "session_cancelled" with hdenial
  have hdenied : ∀ j r, denial j = some r → r.approvalId=j := by
    intro j r hr
    obtain ⟨request,-,rfl⟩ := map_eq_some_iff.mp hr
    rfl
  have hd := filter_filterMap_key s.broker.nodup_ids hdenied id
    fun hid => by simp [hdenial,ApprovalBroker.denial,(h.outside_ids hid).1]
  have hu := filter_filterMap_key s.broker.nodup_ids
    (fun j r hr => (h.unemitted hr).1) id fun hid => (h.outside_ids hid).2
  set drained := (s.broker.cancelAll "session_cancelled").1.filter fun r =>
    decide (r.approvalId=id) with hdrained
  have hsorted : drained.Perm ((denial id).toList ++ (s.broker.unemitted id).toList) := by
    rw [← hd,← hu,← filter_append]
    exact (perm_insertionSort _ _).filter _
  have hcleanup : drained = (denial id).toList ++ (s.broker.unemitted id).toList := by
    cases hu' : s.broker.unemitted id with
    | none =>
      rw [hu'] at hsorted
      cases hd' : denial id with
      | none | some d => simpa [hd'] using hsorted
    | some r =>
      have hd' : denial id = none := by
        simp [hdenial,ApprovalBroker.denial,(h.unemitted hu').2]
      rw [hu',hd'] at hsorted
      simpa [hd'] using hsorted
  have haccepted : (s.cleanupCancelledTurn.view id).accepted =
      (s.view id).accepted ++ (denial id).toList := by
    rw [← hd]
    exact filter_append ..
  have hlist : (s.cleanupCancelledTurn.view id).cleanup = (s.view id).cleanup ++ drained :=
    filter_append ..
  rw [hcleanup] at hlist
  exact ApprovalView.ext rfl rfl rfl haccepted hlist rfl

theorem phaseOk_cleanUp {w : Waiter} (hv : PhaseOk w (s.view id))
    (hannounced : w.phase.isOpening=false) :
    PhaseOk { w with phase := w.phase.cleanUp } (s.drained id) := by
  unfold PhaseOk at hv ⊢
  cases hphase : w.phase with
  | emitStatus | emitRequested => simp [hphase,WaiterPhase.isOpening] at hannounced
  | received r =>
    rw [hphase] at hv
    exact hv.elim (fun hv => Or.inr (Or.inl (drained_of_unemitted hv)))
      fun hv => Or.inr (drained_of_takenOver hv)
  | emitResolved unemitted r =>
    rw [hphase] at hv
    exact ⟨hv.1,drained_of_claimed hv.2⟩
  | emitRunning r =>
    rw [hphase] at hv
    exact drained_of_takenOver hv
  | returned result =>
    rw [hphase] at hv
    cases result with
    | error => exact hv.elim
    | ok r => exact drained_of_takenOver hv
  | dropped cleanedUp =>
    rw [hphase] at hv
    cases cleanedUp with
    | false => exact drained_of_waiting hv
    | true => exact hv.imp fun _ => drained_of_takenOver
  | brokerClosed | denyFailed | denyTake | denyRunning =>
    rw [hphase] at hv
    exact hv.elim
  | _ =>
    rw [hphase] at hv
    exact Or.inr (drained_of_waiting hv)

theorem cleanup (h : Settled s) (hok : s.stepOk .cleanup) (hs : s.step .cleanup = some s') :
    Settled s' := by
  cases hs
  refine h.remap (fun w => { w with phase := w.phase.cleanUp }) (fun _ => rfl) (fun _ => rfl) rfl ?_ ?_
  · intro id w hw
    have hannounced : w.phase.isOpening=false := by
      simpa [hw] using all_eq_true.mp hok _ (h.mem_ids hw)
    rw [h.view_cleanup]
    exact phaseOk_cleanUp (h.known id w hw) hannounced
  · intro id hid
    rw [h.view_cleanup]
    exact drained_of_absent (h.unknown id hid)

theorem step {a : ApprovalAction} (h : Settled s) (hok : s.stepOk a)
    (hs : s.step a = some s') : Settled s' := by
  cases a with
  | request request =>
    cases hs
    exact h.requestApproval request
  | poll => exact h.poll hok hs
  | drop => exact h.drop hs
  | respond =>
    cases hs
    exact h.respond
  | storeOnceClients | storeAlwaysClients =>
    cases hs
    exact ⟨h.registered,h.known,h.unknown⟩
  | notifyEligibility =>
    cases hs
    exact h.remap (fun w => { w with eligibilityChanged := true }) (fun _ => rfl) (fun _ => rfl) rfl
      h.known h.unknown
  | cleanup => exact h.cleanup hok hs
  | cleanupEmit => exact h.cleanupEmit hok hs

theorem of_reaches {allowAlways : Bool} {timeout : Option Nat}
    (h : (system allowAlways timeout).Reaches (fun s a => s.stepOk a) s) : Settled s :=
  h.invariant (init allowAlways timeout) fun _ _ _ hs hok hstep => hs.step hok hstep

end Settled

def acceptedFor (id : String) (s : ApprovalSession) : List ApprovalResolution :=
  s.accepted.filter fun r => decide (r.approvalId=id)

/-- One resolution for each id, acted on by its call and published once after its request. -/
structure ApprovalsOk (s : ApprovalSession) : Prop where
  resolvedOnce : ∀ id, (s.acceptedFor id).length ≤ 1
  acted : ∀ id w result, s.waiters id = some w → w.phase = .returned result →
    ∃ r, s.acceptedFor id = [r] ∧ result = .ok r
  published : ∀ id w, s.waiters id = some w →
    (∃ result, w.phase = .returned result) ∨ w.phase = .dropped true →
    (∀ r∈s.cleanup, r.approvalId≠id) → ∃ r, s.acceptedFor id = [r] ∧
      approvalEvents id s.stream = [.approvalRequested w.request, r.event]

theorem Settled.returned (h : Settled s)
    {result : Except ApprovalRequestError ApprovalResolution} (hw : s.waiters id = some w)
    (hphase : w.phase = .returned result) :
    ∃ r, result = .ok r ∧ TakenOver w.request (s.view id) r := by
  have hv := h.known id w hw
  unfold PhaseOk at hv
  rw [hphase] at hv
  cases result with
  | error error => exact hv.elim
  | ok r => exact ⟨r,rfl,hv⟩

theorem Settled.over (h : Settled s) (hw : s.waiters id = some w)
    (hover : (∃ result, w.phase = .returned result) ∨ w.phase = .dropped true) :
    ∃ r, TakenOver w.request (s.view id) r := by
  rcases hover with ⟨result,hphase⟩ | hphase
  · obtain ⟨r,-,hv⟩ := h.returned hw hphase
    exact ⟨r,hv⟩
  · have hv := h.known id w hw
    unfold PhaseOk at hv
    rw [hphase] at hv
    exact hv

theorem view_of_takenOver {request : ApprovalRequest} (h : TakenOver request (s.view id) r)
    (hclean : ∀ r∈s.cleanup, r.approvalId≠id) :
    s.view id = claimedWith r [.approvalRequested request, r.event] := by
  refine h.resolve_left fun hv => ?_
  have hmem : r ∈ (s.view id).cleanup := by simp [hv,cleaningWith]
  obtain ⟨hin,hid⟩ := mem_filter.mp hmem
  exact hclean r hin (of_decide_eq_true hid)

theorem Settled.approvalsOk (h : Settled s) : ApprovalsOk s := by
  refine ⟨fun id => ?_,fun id w result hw hphase => ?_,fun id w hw hover hclean => ?_⟩
  · show (s.view id).accepted.length ≤ 1
    rcases h.shape id with hv | ⟨events,hv | ⟨r,hv | hv | hv⟩⟩ <;> rw [hv]
    · exact Nat.zero_le 1
    · exact Nat.zero_le 1
    · exact le_refl 1
    · exact le_refl 1
    · exact le_refl 1
  · obtain ⟨r,hr,hv | hv⟩ := h.returned hw hphase
    · exact ⟨r,congrArg ApprovalView.accepted hv,hr⟩
    · exact ⟨r,congrArg ApprovalView.accepted hv,hr⟩
  · obtain ⟨r,hv⟩ := h.over hw hover
    have hpublished := view_of_takenOver hv hclean
    exact ⟨r,congrArg ApprovalView.accepted hpublished,congrArg ApprovalView.events hpublished⟩

/-- In every interleaving where the opening emissions succeed, no cleanup comes before them and no
answer slips in between a timer's firing and its own resolution, approvals are resolved, acted on
and published once. -/
theorem approvals_ok {allowAlways : Bool} {timeout : Option Nat} {s : ApprovalSession}
    (h : (system allowAlways timeout).Reaches (fun s a => s.stepOk a) s) : ApprovalsOk s :=
  (Settled.of_reaches h).approvalsOk

private def execRequest : ApprovalRequest := .unassigned "call-0" "exec" "cargo test" true

private def polls (id : String) (n : Nat) : List ApprovalAction := List.replicate n (.poll id {})

/-- A client attaches and allows the first request, the second is dropped with its prompt, and a
cleanup denies it and the third, which still waits. -/
def answeredAndDropped : List ApprovalAction :=
  [.request execRequest] ++ polls "approval-1" 9 ++ [.storeOnceClients 1, .notifyEligibility,
    .respond "approval-1" "client" [.approveOnce] .allowOnce] ++ polls "approval-1" 5 ++
    [.request execRequest] ++ polls "approval-2" 7 ++
    [.drop "approval-2", .request execRequest] ++ polls "approval-3" 7 ++ [.cleanup] ++
    polls "approval-3" 4 ++ [.cleanupEmit 1 none, .cleanupEmit 0 none]

/-- All three requests are resolved once, the dropped one by the cleanup. -/
theorem approvals_ok_answeredAndDropped : ∃ s,
    (system true (some 60000)).Reaches (fun s a => s.stepOk a) s ∧
    (s.waiters "approval-2").map Waiter.phase = some (.dropped true) ∧
    s.accepted.map decision = [.allowOnce, .deny, .deny] ∧ ApprovalsOk s := by
  obtain ⟨s,-,hreach,hphase,haccepted⟩ := System.exists_of_replay (system true (some 60000))
    (fun s a => s.stepOk a) answeredAndDropped
    (fun s => (s.waiters "approval-2").map Waiter.phase = some (.dropped true) ∧
      s.accepted.map decision = [.allowOnce, .deny, .deny]) (by decide +kernel)
  exact ⟨s,hreach,hphase,haccepted,approvals_ok hreach⟩

/-- The client's answer lands after the select has polled the receiver and before the timer's own
resolution. -/
def answerBeatsTimer : List ApprovalAction :=
  [.request execRequest] ++ polls "approval-1" 8 ++ [.storeOnceClients 1, .notifyEligibility,
    .poll "approval-1" { elapsed := true },
    .respond "approval-1" "client" [.approveOnce] .allowOnce] ++ polls "approval-1" 1

/-- The accepted answer is lost: the call fails as already resolved and nothing is published. -/
theorem approvals_answerBeatsTimer : ∃ s,
    (system true (some 60000)).Reaches (fun _ _ => True) s ∧
    s.accepted.map decision = [.allowOnce] ∧
    (s.waiters "approval-1").map Waiter.phase =
      some (.returned (.error (.broker .alreadyResolved))) ∧
    (approvalEvents "approval-1" s.stream).length = 1 ∧ ¬ ApprovalsOk s := by
  obtain ⟨s,-,hreach,haccepted,hphase,hevents⟩ := System.exists_of_replay
    (system true (some 60000)) (fun _ _ => True) answerBeatsTimer
    (fun s => s.accepted.map decision = [.allowOnce] ∧
      (s.waiters "approval-1").map Waiter.phase =
        some (.returned (.error (.broker .alreadyResolved))) ∧
      (approvalEvents "approval-1" s.stream).length = 1) (by decide +kernel)
  refine ⟨s,hreach,haccepted,hphase,hevents,fun hok => ?_⟩
  obtain ⟨w,hw,hreturned⟩ := Option.map_eq_some_iff.mp hphase
  obtain ⟨r,-,hr⟩ := hok.acted "approval-1" w _ hw hreturned
  cases hr

end ApprovalSession

end Daimonos.Session
