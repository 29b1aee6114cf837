import Daimonos.Store.WriterProtocol

namespace Daimonos.Session

open Framework Store

inductive ErrorKind where
  | interrupted
  | wouldBlock
  | timedOut
  | other

def isRetryablePersistenceError : ErrorKind → Bool
  | .interrupted | .wouldBlock | .timedOut => true
  | .other => false

inductive PersistenceHealth where
  | clean
  | dirty
  | degraded (retryable : Bool)
  | superseded
  deriving DecidableEq

/-- A payload to save. `through` is not in the source: it counts the persistence requests that were
registered when the payload was captured. -/
structure PersistenceCapture where
  generation : Nat
  content : SessionContent
  through : Nat
  deriving DecidableEq

inductive PersistenceSaveOutcome where
  | saved
  | skippedStale (storedGeneration : Nat)
  | skippedDeleted
  | superseded

structure SessionPersistenceState where
  deleted : Bool := false
  superseded : Bool := false
  lastSavedGeneration : Option Nat := none
  health : PersistenceHealth := .clean

/-- `attempts` is the retry policy's. -/
structure SessionPersistence where
  writer : SessionWriter
  store : SessionStore
  maxPreviewBytes : Nat
  attempts : Nat
  state : SessionPersistenceState := {}

namespace SessionPersistence

def setHealth (health : PersistenceHealth) (p : SessionPersistence) : SessionPersistence :=
  { p with state := { p.state with health } }

def retired (p : SessionPersistence) : Bool := p.state.deleted || p.state.superseded

def markDirty (p : SessionPersistence) : SessionPersistence :=
  if p.retired then p else p.setHealth .dirty

def markCleanIfFullyHandled (handledRequest requested : Nat) (p : SessionPersistence) :
    SessionPersistence :=
  if p.retired then p
  else if requested≤handledRequest then p.setHealth .clean
  else p.setHealth .dirty

def markDegraded (retryable : Bool) (p : SessionPersistence) : SessionPersistence :=
  if p.retired then p else p.setHealth (.degraded retryable)

def health (p : SessionPersistence) : PersistenceHealth :=
  if p.state.deleted then .clean
  else if p.state.superseded then .superseded
  else p.state.health

/-- The state lock spans the whole body. `failure` is an error of the database connection. -/
def save (capture : PersistenceCapture) (failure : Option ErrorKind) (now : Nat)
    (p : SessionPersistence) :
    Except ErrorKind PersistenceSaveOutcome × SessionPersistence :=
  if p.state.deleted then (.ok .skippedDeleted, p)
  else if p.state.superseded then (.ok .superseded, p)
  else if p.state.lastSavedGeneration.any fun last => decide (capture.generation < last) then
    (.ok (.skippedStale (p.state.lastSavedGeneration.getD 0)), p)
  else
    match failure with
    | some kind => (.error kind, p)
    | none =>
      match p.store.saveAcpGenerationResult p.writer capture.generation capture.content
          p.maxPreviewBytes now with
      | .error _ => (.error .other, p)
      | .ok (.saved _, store) =>
        (.ok .saved,
          { p with store, state := { p.state with lastSavedGeneration := some capture.generation } })
      | .ok (.stale stored, store) =>
        (.ok (.skippedStale stored),
          { p with store, state := { p.state with lastSavedGeneration := some stored } })
      | .ok (.superseded, store) =>
        (.ok .superseded, { p with store, state := { p.state with superseded := true } })

def delete (p : SessionPersistence) : SessionPersistence :=
  if p.retired then p
  else
    { p with store := (p.store.deleteWriter p.writer).2, state := { p.state with deleted := true } }

/-- This runtime's claim is the one in force. -/
def Holds (p : SessionPersistence) : Prop :=
  p.store.writerEpoch? p.writer.sessionId = some p.writer.epoch

instance (p : SessionPersistence) : Decidable p.Holds :=
  inferInstanceAs (Decidable (_=_))

def storedGeneration (p : SessionPersistence) : Option Nat :=
  p.store.generation? p.writer.sessionId

/-- What a save comes to: nothing is written and the runtime learns at most that the store is ahead
or that it lost its claim, or its capture becomes the session's row. -/
theorem save_cases (capture : PersistenceCapture) (failure : Option ErrorKind) (now : Nat)
    (p : SessionPersistence) :
    (∃ result, p.save capture failure now = (result, p) ∧ result ≠ .ok .saved ∧
      (result = .ok .skippedDeleted → p.state.deleted=true) ∧
      (result = .ok .superseded → p.state.superseded=true ∧ p.state.deleted=false)) ∨
    (∃ stored, p.save capture failure now = (.ok (.skippedStale stored),
      { p with state := { p.state with lastSavedGeneration := some stored } })) ∨
    (p.save capture failure now =
        (.ok .superseded, { p with state := { p.state with superseded := true } }) ∧
      p.state.deleted=false ∧ ¬ p.Holds) ∨
    ∃ store row, p.save capture failure now = (.ok .saved,
        { p with
          store, state := { p.state with lastSavedGeneration := some capture.generation } }) ∧
      p.Holds ∧ (∀ g∈p.storedGeneration, g < capture.generation) ∧
      row.generation = capture.generation ∧
      SessionStore.Wrote p.writer.sessionId row p.store store := by
  unfold save
  split_ifs with hdeleted hsuperseded hstale
  · exact .inl ⟨_,rfl,by simp,fun _ => hdeleted,by simp⟩
  · exact .inl ⟨_,rfl,by simp,by simp,fun _ => ⟨hsuperseded,Bool.eq_false_iff.mpr hdeleted⟩⟩
  · exact .inl ⟨_,rfl,by simp,by simp,by simp⟩
  · cases failure with
    | some kind => exact .inl ⟨_,rfl,by simp,by simp,by simp⟩
    | none =>
      cases hwrite : p.store.saveAcpGenerationResult p.writer capture.generation capture.content
          p.maxPreviewBytes now with
      | error error => exact .inl ⟨_,rfl,by simp,by simp,by simp⟩
      | ok written =>
        obtain ⟨outcome,store⟩ := written
        unfold SessionStore.saveAcpGenerationResult at hwrite
        split_ifs at hwrite with hsafe
        rcases SessionStore.of_writeRecord hwrite with
          ⟨hnot,rfl,hlost⟩ | ⟨write,row,rfl,hentitled,hraise,hrow,hwrote⟩
        · cases outcome with
          | saved write => exact absurd rfl (hnot write)
          | stale stored => exact .inr (.inl ⟨stored,rfl⟩)
          | superseded =>
            exact .inr (.inr (.inl ⟨rfl,Bool.eq_false_iff.mpr hdeleted,hlost rfl⟩))
        · have hgeneration := hrow _ rfl
          exact .inr (.inr (.inr ⟨store,row,rfl,hentitled,
            fun g hg => hgeneration ▸ hraise g hg,hgeneration,hwrote⟩))

theorem storedGeneration_wrote (p : SessionPersistence) {p' : SessionPersistence} {row : SessionRow}
    (hwriter : p'.writer=p.writer)
    (h : SessionStore.Wrote p.writer.sessionId row p.store p'.store) :
    p'.storedGeneration = some row.generation := by
  have hread := h.rows p.writer.sessionId
  rw [if_pos rfl] at hread
  change (p'.store.sessions.get? p'.writer.sessionId).map SessionRow.generation = _
  rw [hwriter,hread,Option.map_some]

end SessionPersistence

/-- Where a `persist_current` call stands. From `entered` on it has the gate. -/
inductive PersistCall where
  | registered (request : Nat)
  | announcing (request : Nat)
  | queued (request : Nat)
  | entered (request : Nat)
  | marking
  | starting
  | reading
  | capturing (handled attempts : Nat)
  | awaiting (handled attempts : Nat) (capture : PersistenceCapture)
  | returned (handled attempts : Nat) (capture : PersistenceCapture)
      (result : Except ErrorKind PersistenceSaveOutcome)
  | dirtying (handled attempts : Nat)
  | settling (handled : Nat)
  | cleaning (handled : Nat)
  | checking
  | judging (counted : Bool)
  | publishing (status : DurabilityStatus)
  | done

namespace PersistCall

def inGate : PersistCall → Bool
  | .registered _ | .announcing _ | .queued _ | .done => false
  | _ => true

def awaits : PersistCall → Bool
  | .queued _ | .capturing .. | .awaiting .. | .returned .. => true
  | _ => false

/-- `publish_completed_durability` has found every request handled and has not published yet. -/
def confirmed : PersistCall → Bool
  | .judging true | .publishing .saved => true
  | _ => false

def deliver (capture : PersistenceCapture) (result : Except ErrorKind PersistenceSaveOutcome) :
    PersistCall → PersistCall
  | .awaiting handled attempts awaited =>
    if awaited=capture then .returned handled attempts awaited result
    else .awaiting handled attempts awaited
  | call => call

end PersistCall

inductive CheckpointPhase where
  | idle
  | dirtying
  | minting (attempt : Nat)
  | awaiting (attempt : Nat) (capture : PersistenceCapture)
  | returned (attempt : Nat) (result : Except ErrorKind PersistenceSaveOutcome)
  | degrading (attempt : Nat) (kind : ErrorKind)

/-- The turn that holds the session lock. `configured` counts the requests that were registered when
`configure_turn_checkpoint` took the ids, outcomes, model and thinking level its projections carry. -/
inductive CheckpointTurn where
  | opening
  | configuring
  | running (configured : Nat) (phase : CheckpointPhase)

def CheckpointTurn.awaits : CheckpointTurn → Bool
  | .running _ .dirtying | .running _ (.minting 1) | .running _ (.degrading ..) => false
  | _ => true

def CheckpointTurn.deliver (capture : PersistenceCapture)
    (result : Except ErrorKind PersistenceSaveOutcome) : CheckpointTurn → CheckpointTurn
  | .running configured (.awaiting attempt awaited) =>
    if awaited=capture then .running configured (.returned attempt result)
    else .running configured (.awaiting attempt awaited)
  | turn => turn

inductive HealthRead where
  | loaded (requested : Nat)
  | compared (requested : Nat)
  | answered (health : PersistenceHealth)

/-- A report that requests are safe: those up to `requested` were registered, and the record in the
store had been captured when `through` of them were. -/
structure DurabilityReport where
  requested : Nat
  through : Nat
  deriving DecidableEq

/-- The ticket `handled` is complete: by the save of a payload captured at `through`, or without. -/
structure Settlement where
  handled : Nat
  through : Option Nat

/-- The persistence side of a session core: its counters and locks, the calls under way, the blocking
saves that run, also those nobody waits for any more. The last four fields record the run. -/
structure PersistRun where
  persistence : SessionPersistence
  requested : Nat := 0
  completed : Nat := 0
  generation : Nat
  status : DurabilityStatus := .saved
  gate : Option Nat := none
  calls : List PersistCall := []
  turn : Option CheckpointTurn := none
  saves : List PersistenceCapture := []
  reads : List HealthRead := []
  storedThrough : Nat := 0
  reports : List DurabilityReport := []
  settled : List Settlement := []
  coalesced : List Nat := []

inductive PersistAction where
  | register
  | advance (call : Nat)
  | capture (call : Nat) (content : SessionContent)
  | drop (call : Nat)
  | startTurn (announces : Bool)
  | checkpoint
  | advanceTurn
  | mint (content : SessionContent)
  | endTurn
  | save (save : Nat) (failure : Option ErrorKind) (now : Nat)
  | readHealth
  | advanceRead (read : Nat)
  | delete
  | elsewhere (store : SessionStore)

namespace PersistRun

def setCall (i : Nat) (call : PersistCall) (s : PersistRun) : PersistRun :=
  { s with calls := s.calls.set i call }

def setTurn (turn : Option CheckpointTurn) (s : PersistRun) : PersistRun := { s with turn }

def setPersistence (persistence : SessionPersistence) (s : PersistRun) : PersistRun :=
  { s with persistence }

def setGate (gate : Option Nat) (s : PersistRun) : PersistRun := { s with gate }

def raiseGeneration (stored : Nat) (s : PersistRun) : PersistRun :=
  { s with generation := max s.generation stored }

def complete (settlement : Settlement) (s : PersistRun) : PersistRun :=
  { s with
    completed := max s.completed settlement.handled
    settled := s.settled ++ [settlement] }

def spawnSave (capture : PersistenceCapture) (s : PersistRun) : PersistRun :=
  { s with generation := capture.generation, saves := s.saves ++ [capture] }

end PersistRun

/-- The transitions of the durability status that the router drops. -/
def DurabilityStatus.blocks (previous status : DurabilityStatus) : Bool :=
  match previous, status with
  | .superseded, _ => true
  | .degraded, .saved | .degraded, .superseded => false
  | .degraded, _ => true
  | .saving, .unsaved => true
  | _, _ => false

namespace PersistRun

def transitionDurability (status : DurabilityStatus) (s : PersistRun) : PersistRun :=
  if s.status=status ∨ s.status.blocks status then s
  else
    { s with
      status
      reports :=
        if status=.saved then s.reports ++ [⟨s.requested,s.storedThrough⟩] else s.reports }

/-- The arms of `persist_current` after a save, up to the first write to shared state. -/
def afterSave (i handled attempts : Nat) (capture : PersistenceCapture) (s : PersistRun) :
    Except ErrorKind PersistenceSaveOutcome → PersistRun
  | .ok .saved => (s.setCall i (.cleaning handled)).complete ⟨handled,some capture.through⟩
  | .ok (.skippedStale stored) => (s.setCall i (.dirtying handled attempts)).raiseGeneration stored
  | .ok .skippedDeleted => (s.setCall i .checking).complete ⟨handled,none⟩
  | .ok .superseded => (s.setCall i (.publishing .superseded)).complete ⟨handled,none⟩
  | .error kind =>
    let retry := isRetryablePersistenceError kind && decide (attempts < s.persistence.attempts)
    (s.setPersistence (s.persistence.markDegraded (isRetryablePersistenceError kind))).setCall i
      (if retry then .capturing handled attempts else .settling handled)

def advanceCall (i : Nat) (s : PersistRun) : PersistCall → Option PersistRun
  | .registered request =>
    some (s.setCall i (if s.status=.saving then .queued request else .announcing request))
  | .announcing request => some ((s.transitionDurability .unsaved).setCall i (.queued request))
  | .queued request =>
    if s.gate=none then some ((s.setGate (some i)).setCall i (.entered request)) else none
  | .entered request =>
    if request ≤ s.completed then
      some { (s.setCall i .done).setGate none with coalesced := s.coalesced ++ [request] }
    else some (s.setCall i .marking)
  | .marking => some ((s.setPersistence s.persistence.markDirty).setCall i .starting)
  | .starting => some ((s.transitionDurability .saving).setCall i .reading)
  | .reading => some (s.setCall i (.capturing s.requested 0))
  | .capturing .. | .awaiting .. => none
  | .returned handled attempts capture result => some (s.afterSave i handled attempts capture result)
  | .dirtying handled attempts =>
    some ((s.setPersistence s.persistence.markDirty).setCall i
      (if attempts < s.persistence.attempts then .capturing handled attempts
        else .publishing .unsaved))
  | .settling handled => some ((s.setCall i (.publishing .degraded)).complete ⟨handled,none⟩)
  | .cleaning handled =>
    some ((s.setCall i .checking).setPersistence
      (s.persistence.markCleanIfFullyHandled handled s.requested))
  | .checking => some (s.setCall i (.judging (decide (s.requested ≤ s.completed))))
  | .judging counted =>
    some (s.setCall i
      (.publishing (if counted ∧ s.persistence.health=.clean then .saved else .unsaved)))
  | .publishing status =>
    some (((s.transitionDurability status).setCall i .done).setGate none)
  | .done => none

def captureCall (i : Nat) (content : SessionContent) (s : PersistRun) : PersistCall → Option PersistRun
  | .capturing handled attempts =>
    let capture : PersistenceCapture :=
      { generation := s.generation+1, content, through := s.requested }
    if s.turn.isNone then
      some ((s.spawnSave capture).setCall i (.awaiting handled (attempts+1) capture))
    else none
  | _ => none

def dropCall (i : Nat) (s : PersistRun) (call : PersistCall) : Option PersistRun :=
  if call.awaits then
    if call.inGate then some ((s.setCall i .done).setGate none) else some (s.setCall i .done)
  else none

def afterCheckpoint (configured attempt : Nat) (s : PersistRun) :
    Except ErrorKind PersistenceSaveOutcome → PersistRun
  | .ok .saved | .ok .skippedDeleted =>
    (s.transitionDurability .unsaved).setTurn (some (.running configured .idle))
  | .ok .superseded =>
    (s.transitionDurability .superseded).setTurn (some (.running configured .idle))
  | .ok (.skippedStale stored) =>
    (s.raiseGeneration stored).setTurn (some (.running configured
      (if attempt < s.persistence.attempts then .minting (attempt+1) else .idle)))
  | .error kind =>
    (s.setPersistence (s.persistence.markDegraded (isRetryablePersistenceError kind))).setTurn
      (some (.running configured (.degrading attempt kind)))

def advanceTurn (s : PersistRun) : CheckpointTurn → Option PersistRun
  | .opening => some ((s.transitionDurability .unsaved).setTurn (some .configuring))
  | .configuring => some (s.setTurn (some (.running s.requested .idle)))
  | .running configured .dirtying =>
    some ((s.setPersistence s.persistence.markDirty).setTurn
      (some (.running configured (.minting 1))))
  | .running configured (.returned attempt result) =>
    some (s.afterCheckpoint configured attempt result)
  | .running configured (.degrading attempt kind) =>
    let retry := isRetryablePersistenceError kind && decide (attempt < s.persistence.attempts)
    some ((s.transitionDurability .degraded).setTurn (some (.running configured
      (if retry then .minting (attempt+1) else .idle))))
  | .running _ .idle | .running _ (.minting _) | .running _ (.awaiting ..) => none

def mintCheckpoint (content : SessionContent) (s : PersistRun) : CheckpointTurn → Option PersistRun
  | .running configured (.minting attempt) =>
    let capture : PersistenceCapture :=
      { generation := s.generation+1, content, through := configured }
    some ((s.spawnSave capture).setTurn (some (.running configured (.awaiting attempt capture))))
  | _ => none

def throughAfter (capture : PersistenceCapture) (s : PersistRun) :
    Except ErrorKind PersistenceSaveOutcome → Nat
  | .ok .saved => capture.through
  | _ => s.storedThrough

/-- A blocking save runs to its end and leaves its result to whoever still waits for it. -/
def runSave (k : Nat) (failure : Option ErrorKind) (now : Nat) (s : PersistRun)
    (capture : PersistenceCapture) : PersistRun :=
  let (result, persistence) := s.persistence.save capture failure now
  { s with
    persistence
    saves := s.saves.eraseIdx k
    calls := s.calls.map (PersistCall.deliver capture result)
    turn := s.turn.map (CheckpointTurn.deliver capture result)
    storedThrough := s.throughAfter capture result }

/-- `persistence_health`: the counters are read one after the other, then the health. -/
def advanceRead (j : Nat) (s : PersistRun) : HealthRead → Option PersistRun
  | .loaded requested =>
    some { s with
      reads :=
        s.reads.set j (if requested > s.completed then .answered .dirty else .compared requested) }
  | .compared requested =>
    some { s with
      reads := s.reads.set j (.answered s.persistence.health)
      reports :=
        if s.persistence.health=.clean then s.reports ++ [⟨requested,s.storedThrough⟩]
        else s.reports }
  | .answered _ => none

def step (s : PersistRun) : PersistAction → Option PersistRun
  | .register =>
    some { s with
      requested := s.requested+1, calls := s.calls ++ [.registered (s.requested+1)] }
  | .advance i => (s.calls[i]?).bind (s.advanceCall i)
  | .capture i content => (s.calls[i]?).bind (s.captureCall i content)
  | .drop i => (s.calls[i]?).bind (s.dropCall i)
  | .startTurn announces =>
    if s.turn.isNone then some (s.setTurn (some (if announces then .opening else .configuring)))
    else none
  | .checkpoint =>
    match s.turn with
    | some (.running configured .idle) => some (s.setTurn (some (.running configured .dirtying)))
    | _ => none
  | .advanceTurn => s.turn.bind s.advanceTurn
  | .mint content => s.turn.bind (s.mintCheckpoint content)
  | .endTurn => if s.turn.any CheckpointTurn.awaits then some (s.setTurn none) else none
  | .save k failure now => (s.saves[k]?).map (s.runSave k failure now)
  | .readHealth => some { s with reads := s.reads ++ [.loaded s.requested] }
  | .advanceRead j => (s.reads[j]?).bind (s.advanceRead j)
  | .delete => some (s.setPersistence s.persistence.delete)
  | .elsewhere store =>
    -- Another runtime's transactions on this session's rows leave its own epoch in force, or none.
    if ({ s.persistence with store } : SessionPersistence).Holds then none
    else some (s.setPersistence { s.persistence with store })

/-- A core just opened: its generation counter starts at the loaded record's generation. -/
def opened (writer : SessionWriter) (store : SessionStore) (maxPreviewBytes attempts : Nat) :
    PersistRun :=
  { persistence := { writer, store, maxPreviewBytes, attempts }
    generation := (store.generation? writer.sessionId).getD 0 }

def system (writer : SessionWriter) (store : SessionStore) (maxPreviewBytes attempts : Nat) :
    System PersistRun PersistAction :=
  { init := opened writer store maxPreviewBytes attempts, step }

/-- No request registers between the comparison that found every request handled and the publication
of `Saved` that follows from it. -/
def stepOk (s : PersistRun) : PersistAction → Bool
  | .register => s.calls.all fun call => !call.confirmed
  | _ => true

end PersistRun

end Daimonos.Session
