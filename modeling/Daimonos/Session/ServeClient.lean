import Daimonos.Framework.Transition
import Daimonos.Session.EventRouter

namespace Daimonos.Session

open Framework

variable {ε : Type}

/-- Where the client's handler stands in a dispatch. `marking` is between the `try_send` that found
the queue full and the store to the lag flag. -/
inductive HandlerState where
  | pending
  | marking
  | finished
  deriving DecidableEq

/-- An emission that holds the dispatch lock: its handlers run in no fixed order. -/
structure Dispatch (ε : Type) where
  seq : Nat
  event : ε
  snapshotPending : Bool := true
  client : HandlerState

/-- What the client's queue holds: events, and the errors of its prompt tasks. -/
inductive Outgoing (ε : Type) where
  | event (seq : Nat) (event : ε)
  | error

def Outgoing.seq? : Outgoing ε → Option Nat
  | .event seq _ => some seq
  | .error => none

inductive RevocationCode where
  | eventQueueLagged
  | attachmentReplaced
  | sessionStopped
  deriving DecidableEq

/-- What the client is sent. `replayFrom` is not on the wire: it marks that a replay follows which
starts behind the number the client named. -/
inductive Frame (ε : Type) where
  | attachOk (seq : Nat)
  | attachDenied
  | snapshot (seq : Nat)
  | replayFrom (lastSeen : Nat)
  | event (seq : Nat) (event : ε)
  | error
  | revoked (code : RevocationCode)
  deriving DecidableEq

/-- Where `serve_client_with_policy` stands, for a client that may observe. -/
inductive ClientPhase (ε : Type) where
  | connecting (resume : Option Nat)
  | resuming (lastSeen captured : Nat)
  | attaching (captured : Nat)
  | accepting (lastSeen : Nat) (events : List (Nat × ε)) (latest : Nat)
  | sendingSnapshot (seq : Nat)
  | replaying (events : List (Nat × ε)) (latest : Nat)
  | serving
  | received (outgoing : Outgoing ε)
  | delivered
  | requesting (lastSeen : Nat)
  | syncing
  | fitting (seq : Nat)
  | draining
  | closed

def ClientPhase.listens : ClientPhase ε → Bool
  | .connecting _ | .closed => false
  | _ => true

/-- A session's router and snapshot state with the connection of one client. `snapshotSeq` is the
sequence number of the snapshot state, `watermark` the client's `snapshot_sequence`. -/
structure DaemonRun (ε : Type) where
  router : SessionEventRouter ε
  dispatch : Option (Dispatch ε) := none
  snapshotSeq : Nat
  stopped : Bool := false
  stopNotified : Bool := false
  replaced : Bool := false
  eventQueueCapacity : Nat
  phase : ClientPhase ε
  queue : List (Outgoing ε) := []
  lagged : Bool := false
  watermark : Option Nat := none
  sent : List (Frame ε) := []

inductive DaemonAction (ε : Type) where
  | emit (event : ε)
  | snapshotHandler
  | clientHandler
  | release
  | stop
  | notifyStop
  | replace
  | promptError
  | subscribe
  | replaySince
  | fit (fits : Bool)
  | send
  | recv
  | deliver
  | afterDelivery
  | sync (lastSeen : Nat)
  | clone
  | message
  | stopChanged
  | drain
  | replacementChanged
  | disconnect

namespace DaemonRun

def setPhase (phase : ClientPhase ε) (s : DaemonRun ε) : DaemonRun ε := { s with phase }

def push (frame : Frame ε) (s : DaemonRun ε) : DaemonRun ε := { s with sent := s.sent ++ [frame] }

def close (frame : Frame ε) (s : DaemonRun ε) : DaemonRun ε := (s.push frame).setPhase .closed

/-- Number an event, retain it and collect the handlers, under the dispatch lock. -/
def emit (event : ε) (s : DaemonRun ε) : Option (DaemonRun ε) :=
  if s.dispatch.isNone then
    match s.router.emitLocked event [] with
    | (.error _, router) => some { s with router }
    | (.ok seq, router) =>
      let client := if s.phase.listens then HandlerState.pending else .finished
      some { s with router, dispatch := some { seq, event, client } }
  else none

def snapshotHandler (s : DaemonRun ε) : Option (DaemonRun ε) :=
  match s.dispatch with
  | some dispatch =>
    if dispatch.snapshotPending then
      some { s with
        snapshotSeq := dispatch.seq, dispatch := some { dispatch with snapshotPending := false } }
    else none
  | none => none

/-- `try_send`; a full queue raises the lag flag, a closed one is ignored. -/
def clientHandler (s : DaemonRun ε) : Option (DaemonRun ε) :=
  match s.dispatch with
  | some dispatch =>
    match dispatch.client with
    | .pending =>
      if s.phase.listens=false then
        some { s with dispatch := some { dispatch with client := .finished } }
      else if s.queue.length < s.eventQueueCapacity then
        some { s with
          queue := s.queue ++ [.event dispatch.seq dispatch.event]
          dispatch := some { dispatch with client := .finished } }
      else some { s with dispatch := some { dispatch with client := .marking } }
    | .marking =>
      some { s with lagged := true, dispatch := some { dispatch with client := .finished } }
    | .finished => none
  | none => none

def release (s : DaemonRun ε) : Option (DaemonRun ε) :=
  match s.dispatch with
  | some { snapshotPending := false, client := .finished, .. } => some { s with dispatch := none }
  | _ => none

def promptError (s : DaemonRun ε) : Option (DaemonRun ε) :=
  if s.phase.listens ∧ s.queue.length < s.eventQueueCapacity then
    some { s with queue := s.queue ++ [.error] }
  else none

/-- `subscribe_and_capture`, under the dispatch lock. -/
def subscribe (s : DaemonRun ε) : Option (DaemonRun ε) :=
  match s.phase, s.dispatch with
  | .connecting none, none => some (s.setPhase (.attaching s.snapshotSeq))
  | .connecting (some lastSeen), none => some (s.setPhase (.resuming lastSeen s.snapshotSeq))
  | _, _ => none

/-- `replay_since`, under the dispatch lock. A client that resumes and gets no replay is sent the
snapshot captured above. -/
def replaySince (s : DaemonRun ε) : Option (DaemonRun ε) :=
  match s.phase, s.dispatch with
  | .resuming lastSeen captured, none =>
    match s.router.replaySince lastSeen with
    | .available events latest => some (s.setPhase (.accepting lastSeen events latest))
    | .snapshotRequired _ => some (s.setPhase (.attaching captured))
  | .requesting lastSeen, none =>
    match s.router.replaySince lastSeen with
    | .available events latest =>
      some ((s.push (.replayFrom lastSeen)).setPhase (.replaying events latest))
    | .snapshotRequired _ => some (s.setPhase .syncing)
  | _, _ => none

/-- The snapshot has been fitted to a frame, or is too large for one. -/
def fit (fits : Bool) (s : DaemonRun ε) : Option (DaemonRun ε) :=
  match s.phase with
  | .attaching captured =>
    if s.stopped ∨ fits=false then some (s.close .attachDenied)
    else some ((s.push (.attachOk captured)).setPhase (.sendingSnapshot captured))
  | .fitting seq =>
    if fits then some (s.setPhase (.sendingSnapshot seq)) else some ((s.push .error).setPhase .serving)
  | _ => none

def send (s : DaemonRun ε) : Option (DaemonRun ε) :=
  match s.phase with
  | .accepting lastSeen events latest =>
    some (((s.push (.attachOk latest)).push (.replayFrom lastSeen)).setPhase (.replaying events latest))
  | .replaying ((seq, event) :: rest) latest =>
    some ((s.push (.event seq event)).setPhase (.replaying rest latest))
  | .replaying [] latest => some { s with watermark := some latest, phase := .serving }
  | .sendingSnapshot seq =>
    some { s.push (.snapshot seq) with watermark := some seq, phase := .serving }
  | _ => none

def recv (s : DaemonRun ε) : Option (DaemonRun ε) :=
  match s.phase, s.queue with
  | .serving, outgoing::rest => some { s with queue := rest, phase := .received outgoing }
  | _, _ => none

/-- An event the client already has through a snapshot or a replay is dropped. -/
def passes (s : DaemonRun ε) (outgoing : Outgoing ε) : Bool :=
  !(outgoing.seq?.any fun seq => s.watermark.any fun watermark => decide (seq≤watermark))

def frame : Outgoing ε → Frame ε
  | .event seq event => .event seq event
  | .error => .error

/-- The receive branch, from the check of the lag flag on. -/
def deliver (s : DaemonRun ε) : Option (DaemonRun ε) :=
  match s.phase with
  | .received outgoing =>
    if s.lagged then some (s.close (.revoked .eventQueueLagged))
    else if s.passes outgoing then some ((s.push (frame outgoing)).setPhase .delivered)
    else some (s.setPhase .serving)
  | _ => none

def afterDelivery (s : DaemonRun ε) : Option (DaemonRun ε) :=
  match s.phase with
  | .delivered =>
    if s.stopped then some (s.close (.revoked .sessionStopped)) else some (s.setPhase .serving)
  | _ => none

/-- A `SyncRequest` comes in. -/
def sync (lastSeen : Nat) (s : DaemonRun ε) : Option (DaemonRun ε) :=
  match s.phase with
  | .serving => if s.stopped then none else some (s.setPhase (.requesting lastSeen))
  | _ => none

/-- The snapshot for a `SyncRequest` is cloned without the dispatch lock. -/
def clone (s : DaemonRun ε) : Option (DaemonRun ε) :=
  match s.phase with
  | .syncing => some (s.setPhase (.fitting s.snapshotSeq))
  | _ => none

/-- One `try_recv` of the two drain loops, which do not look at the lag flag. -/
def drain (s : DaemonRun ε) : Option (DaemonRun ε) :=
  match s.phase, s.queue with
  | .draining, outgoing::rest =>
    if s.passes outgoing then some { s.push (frame outgoing) with queue := rest }
    else some { s with queue := rest }
  | .draining, [] => some (s.close (.revoked .sessionStopped))
  | _, _ => none

def step (s : DaemonRun ε) : DaemonAction ε → Option (DaemonRun ε)
  | .emit event => s.emit event
  | .snapshotHandler => s.snapshotHandler
  | .clientHandler => s.clientHandler
  | .release => s.release
  | .stop => some { s with stopped := true }
  | .notifyStop => if s.stopped then some { s with stopNotified := true } else none
  | .replace => some { s with replaced := true }
  | .promptError => s.promptError
  | .subscribe => s.subscribe
  | .replaySince => s.replaySince
  | .fit fits => s.fit fits
  | .send => s.send
  | .recv => s.recv
  | .deliver => s.deliver
  | .afterDelivery => s.afterDelivery
  | .sync lastSeen => s.sync lastSeen
  | .clone => s.clone
  | .message =>
    match s.phase with
    | .serving => if s.stopped then some (s.setPhase .draining) else none
    | _ => none
  | .stopChanged =>
    match s.phase with
    | .serving => if s.stopNotified then some (s.setPhase .draining) else none
    | _ => none
  | .drain => s.drain
  | .replacementChanged =>
    match s.phase with
    | .serving => if s.replaced then some (s.close (.revoked .attachmentReplaced)) else none
    | _ => none
  | .disconnect => some (s.setPhase .closed)

/-- A session whose router has emitted `emissions` so far, and a client that asks to attach or to
resume. The snapshot state was built from the session and follows the router from there. -/
def opened (maxReplayEvents eventQueueCapacity : Nat) (emissions : List (ε × List Bool))
    (resume : Option Nat) : DaemonRun ε :=
  let router := (SessionEventRouter.newWithReplay maxReplayEvents).emitAll emissions
  { router, snapshotSeq := router.sequence, eventQueueCapacity, phase := .connecting resume }

def system (maxReplayEvents eventQueueCapacity : Nat) (emissions : List (ε × List Bool))
    (resume : Option Nat) : System (DaemonRun ε) (DaemonAction ε) :=
  { init := opened maxReplayEvents eventQueueCapacity emissions resume, step }

/-- A drain loop takes the next message only while the lag flag is clear. -/
def stepOk (s : DaemonRun ε) : DaemonAction ε → Bool
  | .drain => s.queue.isEmpty || !s.lagged
  | _ => true

end DaemonRun

namespace Frame

/-- The number the client stands at after a frame. -/
def place (position : Option Nat) : Frame ε → Option Nat
  | .snapshot seq => some seq
  | .replayFrom lastSeen => some lastSeen
  | .event seq _ => some seq
  | _ => position

def fits (position : Option Nat) : Frame ε → Bool
  | .event seq _ => decide (position.map (· + 1) = some seq)
  | _ => true

end Frame

def position (frames : List (Frame ε)) : Option Nat := frames.foldl Frame.place none

/-- Every event sent carries the number that follows the snapshot, replay or event before it. -/
def Contiguous (frames : List (Frame ε)) : Prop :=
  ∀ before frame after, frames=before++frame::after → frame.fits (position before)

@[simp] theorem position_append_singleton (frames : List (Frame ε)) (frame : Frame ε) :
    position (frames ++ [frame]) = frame.place (position frames) := by
  simp [position]

theorem contiguous_nil : Contiguous ([] : List (Frame ε)) := by
  intro before frame after h
  simp at h

theorem Contiguous.append {frames : List (Frame ε)} {frame : Frame ε} (h : Contiguous frames)
    (hfits : frame.fits (position frames)) : Contiguous (frames ++ [frame]) := by
  intro before other after heq
  rcases List.eq_nil_or_concat after with rfl | ⟨behind,last,rfl⟩
  · obtain ⟨rfl,hlast⟩ := List.append_inj' heq rfl
    rw [← (List.singleton_inj.mp hlast)]
    exact hfits
  · have hsplit : frames ++ [frame] = (before++other::behind) ++ [last] := by
      simpa using heq
    exact h before other behind (List.append_inj' hsplit rfl).1

end Daimonos.Session
