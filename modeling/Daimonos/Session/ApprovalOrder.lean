import Daimonos.Framework.Keyed
import Daimonos.Session.ApprovalBroker
import Daimonos.Session.SnapshotState

namespace Daimonos.Session

open Framework Function List

namespace ApprovalBroker

/-- What the initial snapshot of a session is given: the pending requests sorted by the text of their
ids. -/
def pendingRequests (b : ApprovalBroker) : List ApprovalRequest :=
  (b.ids.filterMap b.pending).insertionSort fun x y => x.id≤y.id

/-- A pending request is filed under its own id, which the broker has handed out. -/
structure Filed (b : ApprovalBroker) : Prop where
  key : ∀ id request, b.pending id = some request → request.id=id
  known : ∀ id, (b.pending id).isSome → id∈b.ids

theorem Filed.update {b b' : ApprovalBroker} (h : b.Filed) {id : String}
    {slot : Option ApprovalRequest} (hpending : b'.pending = update b.pending id slot)
    (hids : b.ids ⊆ b'.ids) (hslot : ∀ r, slot = some r → r.id=id ∧ id∈b'.ids) : b'.Filed := by
  have hfiled : ∀ id' r, b'.pending id' = some r → r.id=id' ∧ id'∈b'.ids := by
    intro id' r hr
    rw [hpending] at hr
    by_cases heq : id'=id
    · rw [heq,update_self] at hr
      exact heq ▸ hslot r hr
    · rw [update_of_ne heq] at hr
      exact ⟨h.key id' r hr,hids (h.known id' (hr ▸ rfl))⟩
  refine ⟨fun id' r hr => (hfiled id' r hr).1,?_⟩
  intro id' hsome
  obtain ⟨r,hr⟩ := Option.isSome_iff_exists.mp hsome
  exact (hfiled id' r hr).2

end ApprovalBroker

/-- The broker with the daemon's copy of the session, which attaching and resyncing clients are sent,
and a client that follows the events. `requested` are the ids in the order of the requests. -/
structure ApprovalRun where
  broker : ApprovalBroker
  requested : List String := []
  daemon : SnapshotState
  client : ViewState

/-- The broker's operations, each with the events it leads to. -/
inductive ApprovalOp where
  | request (request : ApprovalRequest)
  | resolve (approvalId resolvedBy : String) (capabilities : List ClientCapability)
      (decision : ApprovalDecision)
  | updateDeadline (approvalId : String) (deadlineUnixMs : Nat) (paused : Bool)
  | cancelAll (resolvedBy : String)
  /-- an event that is not about approvals -/
  | publish (event : SessionEvent)
  /-- the history is cleared, between turns and so with no approval pending -/
  | clear

def approvalsAfter (pending : List ApprovalRequest) : SessionEvent → List ApprovalRequest
  | .approvalRequested request => pushApproval request pending
  | .approvalResolved approvalId _ _ => dropApproval approvalId pending
  | .approvalDeadlineChanged approvalId deadlineUnixMs paused =>
    changeDeadline approvalId deadlineUnixMs paused pending
  | .conversationCleared => []
  | _ => pending

namespace ApprovalRun

/-- A session is opened: the broker is fresh, the daemon's copy begins with the initial snapshot, and
a client attaches. -/
def start (allowAlways : Bool) (timeout : Option Nat) (initial : SessionSnapshot) (maxEntries : Nat)
    (client : ViewState) : ApprovalRun :=
  let broker : ApprovalBroker := { allowAlways, timeout }
  let daemon :=
    SnapshotState.fromSnapshot { initial with pendingApprovals := broker.pendingRequests } maxEntries
  { broker, daemon, client := client.applySnapshot daemon.snapshot }

def emit (event : SessionEvent) (run : ApprovalRun) : ApprovalRun :=
  let seq := run.daemon.snapshot.seq+1
  { run with
    daemon := run.daemon.apply seq event
    client := (run.client.applyEvent seq event).2 }

def perform (run : ApprovalRun) : ApprovalOp → ApprovalRun
  | .request request =>
    match run.broker.register request with
    | .error _ => run
    | .ok (request, broker) =>
      { run with broker, requested := run.requested ++ [request.id] }.emit
        (.approvalRequested request)
  | .resolve approvalId resolvedBy capabilities decision =>
    match run.broker.resolve approvalId resolvedBy capabilities decision with
    | .error _ => run
    | .ok (resolution, broker) =>
      { run with broker := (broker.takeUnemitted approvalId).2 }.emit resolution.event
  | .updateDeadline approvalId deadlineUnixMs paused =>
    match run.broker.updateDeadline approvalId deadlineUnixMs paused with
    | (true, broker) =>
      { run with broker }.emit (.approvalDeadlineChanged approvalId deadlineUnixMs paused)
    | (false, broker) => { run with broker }
  | .cancelAll resolvedBy =>
    let (resolutions, broker) := run.broker.cancelAll resolvedBy
    resolutions.foldl (fun run resolution => run.emit resolution.event) { run with broker }
  | .publish event =>
    match event with
    | .approvalRequested _ | .approvalResolved .. | .approvalDeadlineChanged ..
    | .conversationCleared => run
    | event => run.emit event
  | .clear =>
    if run.broker.ids.all fun id => (run.broker.pending id).isNone then
      run.emit .conversationCleared
    else run

def performAll (run : ApprovalRun) (ops : List ApprovalOp) : ApprovalRun := ops.foldl perform run

/-- The client has the approvals of the daemon's copy and expects the next event. -/
structure InStep (run : ApprovalRun) : Prop where
  seq : run.client.lastSeq = run.daemon.snapshot.seq
  approvals : run.client.pendingApprovals = run.daemon.snapshot.pendingApprovals

variable {run : ApprovalRun}

theorem emit_daemon_approvals (event : SessionEvent) (run : ApprovalRun) :
    (run.emit event).daemon.snapshot.pendingApprovals =
      approvalsAfter run.daemon.snapshot.pendingApprovals event := by
  cases event <;> rfl

theorem InStep.emit (h : InStep run) (event : SessionEvent) : InStep (run.emit event) := by
  have hclient : (run.emit event).client =
      run.client.advance (run.daemon.snapshot.seq+1, event) := by
    rw [ApprovalRun.emit,ViewState.applyEvent_eq,if_pos (by rw [h.seq])]
  constructor
  · rw [hclient,ViewState.advance_lastSeq]
    cases event <;> rfl
  · rw [emit_daemon_approvals,← h.approvals,hclient]
    cases event <;> rfl

theorem InStep.withBroker (h : InStep run) (broker : ApprovalBroker) (requested : List String) :
    InStep { run with broker, requested } :=
  ⟨h.seq,h.approvals⟩

structure Listed (run : ApprovalRun) : Prop where
  inStep : InStep run
  filed : run.broker.Filed
  requested : run.requested=run.broker.ids
  live : run.daemon.snapshot.pendingApprovals = run.broker.ids.filterMap run.broker.pending

theorem Listed.request (h : Listed run) (request : ApprovalRequest) :
    Listed (run.perform (.request request)) := by
  rw [perform]
  cases hregister : run.broker.register request with
  | error error => exact h
  | ok registered =>
    obtain ⟨request',broker'⟩ := registered
    rw [ApprovalBroker.register] at hregister
    split_ifs at hregister with hexhausted
    obtain ⟨hrequest,hbroker⟩ := Prod.mk.inj (Except.ok.inj hregister)
    have hid : request'.id = approvalId (run.broker.nextId+1) := by rw [← hrequest]
    have hids : broker'.ids = run.broker.ids ++ [request'.id] := by
      rw [← hbroker,hid]
      simp [ApprovalBroker.ids,range'_1_concat,Nat.add_comm]
    have hpending : broker'.pending = update run.broker.pending request'.id (some request') := by
      rw [← hbroker,← hrequest]
    have hfresh : request'.id ∉ run.broker.ids := by
      intro hmem
      obtain ⟨i,hi,heq⟩ := mem_map.mp hmem
      have := approvalId_inj (heq.trans hid)
      have := mem_range'_1.mp hi
      omega
    refine ⟨(h.inStep.withBroker _ _).emit _,h.filed.update hpending (hids ▸ subset_append_left _ _) ?_,?_,?_⟩
    · intro r hr
      rw [← Option.some.inj hr]
      exact ⟨rfl,hids ▸ mem_append_right _ mem_cons_self⟩
    · change run.requested ++ [request'.id] = broker'.ids
      rw [hids,h.requested]
    · have hnew : run.daemon.snapshot.pendingApprovals.any
          (fun a => decide (a.id=request'.id)) = false := by
        rw [h.live,any_eq_false]
        intro a ha
        obtain ⟨id,hid',ha'⟩ := mem_filterMap.mp ha
        rw [decide_eq_true_eq,h.filed.key id a ha']
        exact fun heq => hfresh (heq ▸ hid')
      rw [emit_daemon_approvals]
      change pushApproval request' run.daemon.snapshot.pendingApprovals =
        broker'.ids.filterMap broker'.pending
      rw [pushApproval,hnew,hids,hpending,filterMap_append,
        filterMap_update_of_notMem hfresh,h.live]
      simp

theorem Listed.resolve (h : Listed run) (id resolvedBy : String)
    (capabilities : List ClientCapability) (decision : ApprovalDecision) :
    Listed (run.perform (.resolve id resolvedBy capabilities decision)) := by
  rw [perform]
  cases hresolve : run.broker.resolve id resolvedBy capabilities decision with
  | error error => exact h
  | ok resolved =>
    obtain ⟨resolution,broker'⟩ := resolved
    obtain ⟨-,hid,rfl⟩ := ApprovalBroker.of_resolve_eq_ok hresolve
    refine ⟨(h.inStep.withBroker _ _).emit _,h.filed.update rfl (Subset.refl _) nofun,
      h.requested,?_⟩
    rw [emit_daemon_approvals]
    change dropApproval resolution.approvalId run.daemon.snapshot.pendingApprovals =
      run.broker.ids.filterMap (update run.broker.pending id none)
    rw [filterMap_update_none h.filed.key,h.live,hid,dropApproval]

theorem Listed.updateDeadline (h : Listed run) (id : String)
    (deadlineUnixMs : Nat) (paused : Bool) :
    Listed (run.perform (.updateDeadline id deadlineUnixMs paused)) := by
  rw [perform,ApprovalBroker.updateDeadline]
  cases hpending : run.broker.pending id with
  | none => exact h
  | some request =>
    dsimp only
    split_ifs with hsame
    · exact h
    · refine ⟨(h.inStep.withBroker _ _).emit _,h.filed.update rfl (Subset.refl _) ?_,
        h.requested,?_⟩
      · intro r hr
        rw [← Option.some.inj hr]
        exact ⟨h.filed.key id request hpending,h.filed.known id (hpending ▸ rfl)⟩
      · rw [emit_daemon_approvals]
        change Session.changeDeadline id deadlineUnixMs paused
            run.daemon.snapshot.pendingApprovals =
          run.broker.ids.filterMap (update run.broker.pending id _)
        rw [filterMap_update_some run.broker.nodup_ids h.filed.key hpending
          fun a => { a with ineligibleDeadlineUnixMs := some deadlineUnixMs, deadlinePaused := paused },
          h.live,changeDeadline]

theorem foldl_emit_approvals (resolutions : List ApprovalResolution) (run : ApprovalRun) :
    (resolutions.foldl (fun run r => run.emit r.event) run).daemon.snapshot.pendingApprovals =
      run.daemon.snapshot.pendingApprovals.filter fun a =>
        resolutions.all fun r => decide (a.id≠r.approvalId) := by
  induction resolutions generalizing run with
  | nil => exact (filter_true _).symm
  | cons r rest ih =>
    rw [foldl_cons,ih,emit_daemon_approvals]
    change (dropApproval r.approvalId run.daemon.snapshot.pendingApprovals).filter _ = _
    rw [dropApproval,filter_filter]
    refine filter_congr fun a _ => ?_
    rw [all_cons,Bool.and_comm]

theorem InStep.foldl_emit (h : InStep run) (resolutions : List ApprovalResolution) :
    InStep (resolutions.foldl (fun run r => run.emit r.event) run) := by
  induction resolutions generalizing run with
  | nil => exact h
  | cons r rest ih => exact ih (h.emit r.event)

theorem foldl_emit_broker (resolutions : List ApprovalResolution) (run : ApprovalRun) :
    (resolutions.foldl (fun run r => run.emit r.event) run).broker = run.broker ∧
    (resolutions.foldl (fun run r => run.emit r.event) run).requested = run.requested := by
  induction resolutions generalizing run with
  | nil => exact ⟨rfl,rfl⟩
  | cons r rest ih => exact ih _

theorem Listed.cancelAll (h : Listed run) (resolvedBy : String) :
    Listed (run.perform (.cancelAll resolvedBy)) := by
  rw [perform]
  obtain ⟨hbroker,hrequested⟩ := foldl_emit_broker (run.broker.cancelAll resolvedBy).1
    { run with broker := (run.broker.cancelAll resolvedBy).2 }
  refine ⟨(h.inStep.withBroker _ _).foldl_emit _,
    ⟨fun id r hr => ?_,fun id hsome => ?_⟩,?_,?_⟩
  · rw [hbroker] at hr
    cases hr
  · rw [hbroker] at hsome
    cases hsome
  · rw [hrequested,hbroker]
    exact h.requested
  · have hnone : (run.broker.cancelAll resolvedBy).2.ids.filterMap
        (run.broker.cancelAll resolvedBy).2.pending = [] :=
      filterMap_eq_nil_iff.mpr fun _ _ => rfl
    rw [hbroker,hnone,foldl_emit_approvals,filter_eq_nil_iff]
    intro a ha
    rw [h.live] at ha
    obtain ⟨id,hid,hpending⟩ := mem_filterMap.mp ha
    -- the denial sent to it is among the resolutions
    have hdenial : ApprovalResolution.mk id a.tool .deny resolvedBy ∈
        (run.broker.cancelAll resolvedBy).1 := by
      refine (perm_insertionSort _ _).mem_iff.mpr (mem_append_left _ ?_)
      refine mem_filterMap.mpr ⟨id,hid,?_⟩
      rw [ApprovalBroker.denial,hpending]
      rfl
    rw [all_eq_true]
    intro hall
    have hne := hall _ hdenial
    rw [decide_eq_true_eq,h.filed.key id a hpending] at hne
    exact hne rfl

theorem Listed.publish (h : Listed run) (event : SessionEvent) :
    Listed (run.perform (.publish event)) := by
  cases event with
  | approvalRequested | approvalResolved | approvalDeadlineChanged | conversationCleared => exact h
  | _ => exact ⟨h.inStep.emit _,h.filed,h.requested,h.live⟩

theorem Listed.clear (h : Listed run) : Listed (run.perform .clear) := by
  rw [perform]
  split_ifs with hnone
  · refine ⟨h.inStep.emit _,h.filed,h.requested,?_⟩
    rw [emit_daemon_approvals]
    refine (filterMap_eq_nil_iff.mpr fun id hid => ?_).symm
    exact Option.isNone_iff_eq_none.mp (all_eq_true.mp hnone id hid)
  · exact h

theorem Listed.perform (h : Listed run) (op : ApprovalOp) :
    Listed (run.perform op) := by
  cases op with
  | request request => exact h.request request
  | resolve id resolvedBy capabilities decision => exact h.resolve id resolvedBy capabilities decision
  | updateDeadline id deadlineUnixMs paused => exact h.updateDeadline id deadlineUnixMs paused
  | cancelAll resolvedBy => exact h.cancelAll resolvedBy
  | publish event => exact h.publish event
  | clear => exact h.clear

theorem Listed.performAll (h : Listed run) (ops : List ApprovalOp) :
    Listed (run.performAll ops) := by
  induction ops generalizing run with
  | nil => exact h
  | cons op rest ih => exact ih (h.perform op)

end ApprovalRun

end Daimonos.Session
