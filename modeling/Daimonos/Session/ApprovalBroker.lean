import Daimonos.Framework.Transition
import Daimonos.Session.EventRouter
import Daimonos.Session.Protocol

namespace Daimonos.Session

open Framework Function

structure ApprovalResolution where
  approvalId : String
  tool : String
  decision : ApprovalDecision
  resolvedBy : String
  deriving DecidableEq

inductive ApprovalError where
  | notPending
  | alreadyResolved
  | missingCapability (capability : ClientCapability)
  | allowAlwaysUnavailable
  | idExhausted
  deriving DecidableEq

inductive ApprovalRequestError where
  | broker (error : ApprovalError)
  | event (error : SessionEventError)
  | brokerClosed
  deriving DecidableEq

def approvalId (sequence : Nat) : String := "approval-" ++ toString sequence

theorem approvalId_inj {m n : Nat} (h : approvalId m = approvalId n) : m=n := by
  have hrepr : toString m = toString n := by simpa [approvalId] using h
  exact Nat.repr_inj.mp hrepr

/-- `str::parse::<u64>`: an optional plus sign, then digits that fit. -/
def parseU64 (chars : List Char) : Option Nat :=
  let digits := if chars.head? = some '+' then chars.tail else chars
  if digits = [] ∨ ¬ digits.all Char.isDigit then none
  else
    let n := digits.foldl (fun n c => 10*n + (c.toNat - '0'.toNat)) 0
    if n≤u64Max then some n else none

def approvalSequence (approvalId : String) : Nat :=
  (("approval-".toList.isPrefixOf? approvalId.toList).bind parseU64).getD u64Max

/-- The broker's maps and counters. `channel` holds what has been sent to the receiver of an id: an
entry of `pending` owns the sender, so an id in neither has a closed channel. -/
structure ApprovalBroker where
  allowAlways : Bool
  timeout : Option Nat
  pending : String → Option ApprovalRequest := fun _ => none
  unemitted : String → Option ApprovalResolution := fun _ => none
  channel : String → Option ApprovalResolution := fun _ => none
  nextId : Nat := 0
  approveOnceClients : Nat := 0
  approveAlwaysClients : Nat := 0

namespace ApprovalBroker

def hasEligibleClient (approvalId : String) (b : ApprovalBroker) : Bool :=
  match b.pending approvalId with
  | none => false
  | some request =>
    decide (b.approveOnceClients > 0) ||
      request.allowAlwaysAvailable && decide (b.approveAlwaysClients > 0)

def register (request : ApprovalRequest) (b : ApprovalBroker) :
    Except ApprovalError (ApprovalRequest × ApprovalBroker) :=
  if b.nextId+1 > u64Max then .error .idExhausted
  else
    let nextId := b.nextId+1
    let request :=
      { request with
        id := approvalId nextId
        allowAlwaysAvailable := request.allowAlwaysAvailable && b.allowAlways }
    .ok (request, { b with nextId, pending := update b.pending request.id (some request) })

def updateDeadline (approvalId : String) (deadlineUnixMs : Nat) (paused : Bool)
    (b : ApprovalBroker) : Bool × ApprovalBroker :=
  match b.pending approvalId with
  | none => (false, b)
  | some request =>
    if request.ineligibleDeadlineUnixMs = some deadlineUnixMs ∧ request.deadlinePaused=paused then
      (false, b)
    else
      let request :=
        { request with
          ineligibleDeadlineUnixMs := some deadlineUnixMs
          deadlinePaused := paused }
      (true, { b with pending := update b.pending approvalId (some request) })

def requiredCapability : ApprovalDecision → ClientCapability
  | .allowAlways => .approveAlways
  | .allowOnce | .deny => .approveOnce

def resolve (approvalId resolvedBy : String) (capabilities : List ClientCapability)
    (decision : ApprovalDecision) (b : ApprovalBroker) :
    Except ApprovalError (ApprovalResolution × ApprovalBroker) :=
  if requiredCapability decision ∉ capabilities then
    .error (.missingCapability (requiredCapability decision))
  else
    match b.pending approvalId with
    | none =>
      .error (if approvalSequence approvalId ≤ b.nextId then .alreadyResolved else .notPending)
    | some request =>
      if decision=.allowAlways ∧ ¬ request.allowAlwaysAvailable then
        .error .allowAlwaysUnavailable
      else
        let resolution := { approvalId, tool := request.tool, decision, resolvedBy }
        .ok (resolution,
          { b with
            pending := update b.pending approvalId none
            unemitted := update b.unemitted approvalId (some resolution)
            channel := update b.channel approvalId (some resolution) })

theorem of_resolve_eq_ok {approvalId resolvedBy : String} {capabilities : List ClientCapability}
    {decision : ApprovalDecision} {b b' : ApprovalBroker} {r : ApprovalResolution}
    (h : b.resolve approvalId resolvedBy capabilities decision = .ok (r, b')) :
    (b.pending approvalId).isSome ∧ r.approvalId=approvalId ∧
    b' =
      { b with
        pending := update b.pending approvalId none
        unemitted := update b.unemitted approvalId (some r)
        channel := update b.channel approvalId (some r) } := by
  unfold resolve at h
  by_cases hcap : requiredCapability decision ∉ capabilities
  · rw [if_pos hcap] at h
    cases h
  rw [if_neg hcap] at h
  cases hp : b.pending approvalId with
  | none =>
    simp only [hp] at h
    cases h
  | some request =>
    simp only [hp] at h
    split_ifs at h with halways
    cases h
    exact ⟨rfl,rfl,rfl⟩

def ids (b : ApprovalBroker) : List String := (List.range' 1 b.nextId).map approvalId

theorem nodup_ids (b : ApprovalBroker) : b.ids.Nodup :=
  List.Nodup.map (fun _ _ h => approvalId_inj h) List.nodup_range'

def denial (resolvedBy approvalId : String) (b : ApprovalBroker) : Option ApprovalResolution :=
  (b.pending approvalId).map fun request =>
    { approvalId, tool := request.tool, decision := .deny, resolvedBy }

def cancelAll (resolvedBy : String) (b : ApprovalBroker) :
    List ApprovalResolution × ApprovalBroker :=
  let denied := b.ids.filterMap fun id => b.denial resolvedBy id
  let resolutions := denied ++ b.ids.filterMap b.unemitted
  (resolutions.insertionSort fun x y =>
      approvalSequence x.approvalId ≤ approvalSequence y.approvalId,
    { b with
      pending := fun _ => none
      unemitted := fun _ => none
      channel := fun id => (b.denial resolvedBy id).or (b.channel id) })

def takeUnemitted (approvalId : String) (b : ApprovalBroker) :
    Option ApprovalResolution × ApprovalBroker :=
  (b.unemitted approvalId, { b with unemitted := update b.unemitted approvalId none })

end ApprovalBroker

/-- Where a `request_approval` call stands. `waiting` and `awaiting` are its await points, the only
places where the prompt that owns it can be dropped. -/
inductive WaiterPhase where
  | emitStatus
  | emitRequested
  | awaiting
  | tryRecv
  | checkEligible
  | updateDeadline (eligible : Bool)
  | emitDeadline (eligible : Bool)
  | pollReceiver (eligible : Bool)
  | pollEligibility (eligible : Bool)
  | pollSleep
  | waiting (eligible : Bool)
  | timerResolve
  | received (resolution : ApprovalResolution)
  | emitResolved (unemitted resolution : ApprovalResolution)
  | emitRunning (resolution : ApprovalResolution)
  | brokerClosed
  | denyFailed (resolvedBy : String) (error : SessionEventError)
  | denyTake (error : SessionEventError)
  | denyRunning (error : SessionEventError)
  | returned (result : Except ApprovalRequestError ApprovalResolution)
  | dropped (cleanedUp : Bool)
  deriving DecidableEq

structure Waiter where
  request : ApprovalRequest
  deadline : Option Nat := none
  eligibilityChanged : Bool := false
  phase : WaiterPhase := .emitStatus

/-- What the surroundings decide during one step: how an emission ends, whether the sleep is over
and the wall clock's deadline. -/
structure PollEnv where
  emitError : Option SessionEventError := none
  elapsed : Bool := false
  deadlineUnixMs : Nat := 0

/-- A session's approvals: the broker, the calls waiting on it, the resolutions that cancellation
cleanups have drained and not yet emitted, the event stream, and the resolutions the broker
accepted, oldest first. -/
structure ApprovalSession where
  broker : ApprovalBroker
  waiters : String → Option Waiter := fun _ => none
  cleanup : List ApprovalResolution := []
  stream : List SessionEvent := []
  accepted : List ApprovalResolution := []

inductive ApprovalAction where
  | request (request : ApprovalRequest)
  | poll (approvalId : String) (env : PollEnv)
  | drop (approvalId : String)
  | respond (approvalId resolvedBy : String) (capabilities : List ClientCapability)
      (decision : ApprovalDecision)
  | storeOnceClients (count : Nat)
  | storeAlwaysClients (count : Nat)
  | notifyEligibility
  | cleanup
  /-- one of the cleanups under way emits a resolution that it drained -/
  | cleanupEmit (i : Nat) (emitError : Option SessionEventError)

def ApprovalResolution.event (r : ApprovalResolution) : SessionEvent :=
  .approvalResolved r.approvalId r.decision r.resolvedBy

namespace ApprovalSession

/-- A panicking handler leaves the event recorded; an exhausted sequence does not record it. -/
def emit (error : Option SessionEventError) (event : SessionEvent) (s : ApprovalSession) :
    ApprovalSession :=
  if error = some .sequenceExhausted then s else { s with stream := s.stream ++ [event] }

def setWaiter (approvalId : String) (w : Waiter) (s : ApprovalSession) : ApprovalSession :=
  { s with waiters := update s.waiters approvalId (some w) }

def resolve (approvalId resolvedBy : String) (capabilities : List ClientCapability)
    (decision : ApprovalDecision) (s : ApprovalSession) :
    Except ApprovalError ApprovalResolution × ApprovalSession :=
  match s.broker.resolve approvalId resolvedBy capabilities decision with
  | .error error => (.error error, s)
  | .ok (resolution, broker) =>
    (.ok resolution, { s with broker, accepted := s.accepted ++ [resolution] })

def receive (approvalId : String) (w : Waiter) (empty : WaiterPhase) (s : ApprovalSession) :
    ApprovalSession :=
  match s.broker.channel approvalId with
  | some resolution => s.setWaiter approvalId { w with phase := .received resolution }
  | none =>
    if (s.broker.pending approvalId).isNone then
      s.setWaiter approvalId { w with phase := .brokerClosed }
    else s.setWaiter approvalId { w with phase := empty }

def requestApproval (request : ApprovalRequest) (s : ApprovalSession) : ApprovalSession :=
  match s.broker.register request with
  | .error _ => s
  | .ok (request, broker) => { s with broker }.setWaiter request.id { request }

def pollWaiter (id : String) (w : Waiter) (env : PollEnv) (s : ApprovalSession) : ApprovalSession :=
  let goto (phase : WaiterPhase) (s : ApprovalSession) := s.setWaiter id { w with phase }
  match w.phase with
  | .emitStatus =>
    let s := s.emit env.emitError (.turnStatusChanged .waitingForApproval)
    match env.emitError with
    | some error => goto (.denyFailed "status_event_failed" error) s
    | none => goto .emitRequested s
  | .emitRequested =>
    let s := s.emit env.emitError (.approvalRequested w.request)
    match env.emitError with
    | some error => goto (.denyFailed "request_event_failed" error) s
    | none => goto (if s.broker.timeout.isSome then .tryRecv else .awaiting) s
  | .awaiting => s.receive id w .awaiting
  | .tryRecv => s.receive id { w with eligibilityChanged := false } .checkEligible
  | .checkEligible =>
    if s.broker.hasEligibleClient id then goto (.updateDeadline true) s
    else
      s.setWaiter id
        { w with
          deadline := some (w.deadline.getD env.deadlineUnixMs)
          phase := .updateDeadline false }
  | .updateDeadline eligible =>
    match w.deadline with
    | none => goto (.pollReceiver eligible) s
    | some deadline =>
      let (changed, broker) := s.broker.updateDeadline id deadline eligible
      goto (if changed then .emitDeadline eligible else .pollReceiver eligible) { s with broker }
  | .emitDeadline eligible =>
    goto (.pollReceiver eligible)
      (s.emit env.emitError (.approvalDeadlineChanged id (w.deadline.getD 0) eligible))
  | .pollReceiver eligible => s.receive id w (.pollEligibility eligible)
  | .pollEligibility eligible =>
    if w.eligibilityChanged then goto .tryRecv s
    else if eligible then goto (.waiting eligible) s
    else goto .pollSleep s
  | .pollSleep => goto (if env.elapsed then .timerResolve else .waiting false) s
  | .waiting eligible => goto (.pollReceiver eligible) s
  | .timerResolve =>
    match s.resolve id "approval_timeout" [.approveOnce] .deny with
    | (.ok resolution, s) => goto (.received resolution) s
    | (.error .notPending, s) => goto .tryRecv s
    | (.error error, s) => goto (.returned (.error (.broker error))) s
  | .received resolution =>
    let (unemitted, broker) := s.broker.takeUnemitted id
    match unemitted with
    | some unemitted => goto (.emitResolved unemitted resolution) { s with broker }
    | none => goto (.emitRunning resolution) { s with broker }
  | .emitResolved unemitted resolution =>
    goto (.emitRunning resolution) (s.emit env.emitError unemitted.event)
  | .emitRunning resolution =>
    goto (.returned (.ok resolution)) (s.emit env.emitError (.turnStatusChanged .running))
  | .brokerClosed =>
    goto (.returned (.error .brokerClosed)) (s.emit env.emitError (.turnStatusChanged .running))
  | .denyFailed resolvedBy error =>
    goto (.denyTake error) (s.resolve id resolvedBy [.approveOnce] .deny).2
  | .denyTake error => goto (.denyRunning error) { s with broker := (s.broker.takeUnemitted id).2 }
  | .denyRunning error =>
    goto (.returned (.error (.event error))) (s.emit env.emitError (.turnStatusChanged .running))
  | .returned _ | .dropped _ => s

end ApprovalSession

namespace WaiterPhase

def isLive : WaiterPhase → Bool
  | .returned _ | .dropped _ => false
  | _ => true

/-- The request is registered and not announced yet. -/
def isOpening : WaiterPhase → Bool
  | .emitStatus | .emitRequested => true
  | _ => false

def isAwaitPoint : WaiterPhase → Bool
  | .awaiting | .waiting _ => true
  | _ => false

def cleanUp : WaiterPhase → WaiterPhase
  | .dropped _ => .dropped true
  | phase => phase

end WaiterPhase

namespace ApprovalSession

/-- A cleanup comes at any time: also while calls wait, and while another one is emitting. -/
def cleanupCancelledTurn (s : ApprovalSession) : ApprovalSession :=
  let (resolutions, broker) := s.broker.cancelAll "session_cancelled"
  { s with
    broker
    cleanup := s.cleanup++resolutions
    accepted := s.accepted ++ s.broker.ids.filterMap fun id => s.broker.denial "session_cancelled" id
    waiters := fun id => (s.waiters id).map fun w => { w with phase := w.phase.cleanUp } }

def step (s : ApprovalSession) : ApprovalAction → Option ApprovalSession
  | .request request => some (s.requestApproval request)
  | .poll id env =>
    (s.waiters id).bind fun w => if w.phase.isLive then some (s.pollWaiter id w env) else none
  | .drop id =>
    (s.waiters id).bind fun w =>
      if w.phase.isAwaitPoint then some (s.setWaiter id { w with phase := .dropped false }) else none
  | .respond id resolvedBy capabilities decision =>
    some (s.resolve id resolvedBy capabilities decision).2
  | .storeOnceClients count => some { s with broker := { s.broker with approveOnceClients := count } }
  | .storeAlwaysClients count =>
    some { s with broker := { s.broker with approveAlwaysClients := count } }
  | .notifyEligibility =>
    some { s with waiters := fun id => (s.waiters id).map fun w => { w with eligibilityChanged := true } }
  | .cleanup => some s.cleanupCancelledTurn
  | .cleanupEmit i emitError =>
    s.cleanup[i]?.map fun resolution =>
      { s with cleanup := s.cleanup.eraseIdx i }.emit emitError resolution.event

def system (allowAlways : Bool) (timeout : Option Nat) : System ApprovalSession ApprovalAction :=
  { init := { broker := { allowAlways, timeout } }, step }

/-- The two emissions that open the request succeed, the sequence is not exhausted, the timer finds
its request still pending, and no cleanup comes between a registration and its announcement. -/
def stepOk (s : ApprovalSession) : ApprovalAction → Bool
  | .poll id env =>
    match (s.waiters id).map Waiter.phase with
    | some .emitStatus | some .emitRequested => env.emitError.isNone
    | some (.emitResolved _ _) => decide (env.emitError ≠ some .sequenceExhausted)
    | some .timerResolve => (s.broker.pending id).isSome
    | _ => true
  | .cleanup => s.broker.ids.all fun id => (s.waiters id).all fun w => !w.phase.isOpening
  | .cleanupEmit _ emitError => decide (emitError ≠ some .sequenceExhausted)
  | _ => true

end ApprovalSession

end Daimonos.Session
