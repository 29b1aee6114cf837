import Daimonos.Session.ToolSession

namespace Daimonos.Session

open Framework List

/-- What the daemon answers a client that attaches or resumes, for a client that may observe. -/
inductive HandshakeMessage where
  | attachOk (sessionId : String) (seq : Nat)
  | attachDenied (reason : String)
  | event (seq : Nat) (event : SessionEvent)
  | snapshot (seq : Nat) (state : SessionSnapshot)
  deriving DecidableEq

def HandshakeMessage.isEvent : HandshakeMessage → Bool
  | .event .. => true
  | _ => false

/-- How long the message that carries a snapshot is, and how long one may be. -/
structure FrameLimits where
  encoded : SessionSnapshot → Nat
  maxFrameBytes : Nat

namespace FrameLimits

def fit (limits : FrameLimits) (snapshot : SessionSnapshot) : Except String SessionSnapshot :=
  snapshot.fitSnapshotToFrame limits.encoded limits.maxFrameBytes

def snapshotAnswer (limits : FrameLimits) (sessionId : String) (captured : SessionSnapshot) :
    List HandshakeMessage :=
  match limits.fit captured with
  | .error reason => [.attachDenied reason]
  | .ok snapshot => [.attachOk sessionId snapshot.seq, .snapshot snapshot.seq snapshot]

/-- The handshake of `serve_client_with_policy`. `captured` is the snapshot at the subscription, and
the router may have emitted events since. -/
def handshake (limits : FrameLimits) (sessionId : String) (resumeSeq : Option Nat)
    (captured : SessionSnapshot) (router : SessionEventRouter SessionEvent) : List HandshakeMessage :=
  match resumeSeq.map router.replaySince with
  | some (.available events latestSeq) =>
    .attachOk sessionId latestSeq :: events.map fun e => .event e.1 e.2
  | some (.snapshotRequired _) | none => limits.snapshotAnswer sessionId captured

end FrameLimits

namespace SessionClient

/-- `attach_inner` from the first answer on, with the messages it leaves unread. The accumulator is
the session and the sequence number of the `AttachOk`. -/
def attachInner (requested : String) (canResume : Bool) :
    Option (String × Nat) → ViewState → List HandshakeMessage →
      Except String (ViewState × List HandshakeMessage)
  | _, _, [] => .error "transport closed"
  | _, view, .attachOk sessionId seq :: rest =>
    if sessionId≠requested then .error "AttachOk session does not match requested session"
    else if canResume ∧ view.sessionId=sessionId ∧ view.lastSeq=seq then .ok (view, rest)
    else attachInner requested canResume (some (sessionId, seq)) view rest
  | none, _, .event .. :: _ => .error "replay event arrived before AttachOk"
  | some expected, view, .event seq event :: rest =>
    match view.applyEvent seq event with
    | (.gap _, _) => .error "reconnect replay contains a sequence gap"
    | (_, view) =>
      if view.lastSeq=expected.2 then .ok (view, rest)
      else attachInner requested canResume (some expected) view rest
  | none, _, .snapshot .. :: _ => .error "snapshot arrived before AttachOk"
  | some expected, view, .snapshot seq state :: rest =>
    if state.sessionId≠expected.1 then .error "snapshot session does not match AttachOk"
    else if seq≠state.seq ∨ seq≠expected.2 then
      .error "attach snapshot sequence does not match AttachOk"
    else state.validateSnapshotIds.map fun _ => (view.applySnapshot state, rest)
  | _, _, .attachDenied reason :: _ => .error reason

def receive (view : ViewState) : HandshakeMessage → Except String ViewState
  | .event seq event => .ok (view.applyEvent seq event).2
  | .snapshot seq state =>
    if seq≠state.seq then .error "snapshot envelope sequence does not match state"
    else if state.sessionId≠view.sessionId then
      .error "snapshot session does not match attached session"
    else if seq<view.lastSeq then .ok view
    else state.validateSnapshotIds.map fun _ => view.applySnapshot state
  | .attachOk .. | .attachDenied _ => .error "unexpected server message"

def attach (requested : String) (view : ViewState) (answer : List HandshakeMessage) :
    Except String ViewState :=
  (attachInner requested (decide (requested=view.sessionId)) none view answer).bind fun p =>
    p.2.foldlM receive p.1

/-- What a client sends: it resumes the session that its view shows. -/
def resumeSeq (requested : String) (view : ViewState) : Option Nat :=
  if requested=view.sessionId then some view.lastSeq else none

end SessionClient

theorem SessionSnapshot.fitSnapshotToFrame_same {encoded : SessionSnapshot → Nat}
    {maxFrameBytes : Nat} {snapshot fitted : SessionSnapshot}
    (h : snapshot.fitSnapshotToFrame encoded maxFrameBytes = .ok fitted) :
    fitted.sessionId = snapshot.sessionId ∧ fitted.seq=snapshot.seq := by
  unfold SessionSnapshot.fitSnapshotToFrame at h
  dsimp only at h
  split_ifs at h <;> cases h <;> exact ⟨rfl,rfl⟩

theorem ViewState.applySnapshot_eq {v v' : ViewState} (snapshot : SessionSnapshot)
    (h : v.maxScrollbackEntries = v'.maxScrollbackEntries) :
    v.applySnapshot snapshot = v'.applySnapshot snapshot := by
  simp only [applySnapshot,syncProjection,h]

theorem ViewState.applyEvent_size (seq : Nat) (event : SessionEvent) (v : ViewState) :
    (v.applyEvent seq event).2.maxScrollbackEntries = v.maxScrollbackEntries := by
  rw [applyEvent_eq]
  split_ifs
  · cases event <;> rfl
  · rfl
  · rfl

namespace SessionClient

variable {requested : String}

/-- A snapshot is applied whether the client waits for it or takes the `AttachOk` for the whole
answer: a snapshot with the number of the view is authoritative. -/
theorem attach_snapshotAnswer (limits : FrameLimits)
    {captured : SessionSnapshot} (hid : captured.sessionId=requested) (view : ViewState) :
    attach requested view (limits.snapshotAnswer requested captured) =
      (limits.fit captured).bind fun snapshot =>
        snapshot.validateSnapshotIds.map fun _ => view.applySnapshot snapshot := by
  unfold FrameLimits.snapshotAnswer
  cases hfit : limits.fit captured with
  | error reason => rfl
  | ok snapshot =>
    obtain ⟨hsession,-⟩ := SessionSnapshot.fitSnapshotToFrame_same hfit
    rw [hid] at hsession
    change _ = snapshot.validateSnapshotIds.map fun _ => view.applySnapshot snapshot
    by_cases hearly : decide (requested=view.sessionId) = true ∧ view.sessionId=requested ∧
        view.lastSeq=snapshot.seq
    · have hreceive : receive view (.snapshot snapshot.seq snapshot) =
          snapshot.validateSnapshotIds.map fun _ => view.applySnapshot snapshot := by
        simp [receive,hsession,hearly.2.1,hearly.2.2]
      simp only [attach,attachInner,ne_eq,not_true_eq_false,if_false,if_pos hearly]
      change List.foldlM receive view [.snapshot snapshot.seq snapshot] = _
      rw [foldlM_cons,hreceive]
      cases snapshot.validateSnapshotIds <;> rfl
    · simp only [attach,attachInner,ne_eq,not_true_eq_false,if_false,if_neg hearly,hsession,
        or_self]
      cases snapshot.validateSnapshotIds <;> rfl

theorem receive_size {view view' : ViewState} {message : HandshakeMessage}
    (h : receive view message = .ok view') : view'.maxScrollbackEntries = view.maxScrollbackEntries := by
  cases message with
  | attachOk | attachDenied => cases h
  | event seq event =>
    cases h
    exact ViewState.applyEvent_size seq event view
  | snapshot =>
    simp only [receive] at h
    split_ifs at h
    · cases h
      rfl
    · obtain ⟨-,-,rfl⟩ := except_map_eq_ok.mp h
      rfl

theorem attachInner_size {canResume : Bool} {view' : ViewState}
    {rest : List HandshakeMessage} (messages : List HandshakeMessage)
    (expected : Option (String × Nat)) (view : ViewState)
    (h : attachInner requested canResume expected view messages = .ok (view', rest)) :
    view'.maxScrollbackEntries = view.maxScrollbackEntries := by
  induction messages generalizing expected view with
  | nil => simp [attachInner] at h
  | cons message messages ih =>
    cases message with
    | attachOk =>
      simp only [attachInner] at h
      split_ifs at h
      · cases h
        rfl
      · exact ih _ view h
    | attachDenied => simp [attachInner] at h
    | event seq event =>
      cases expected with
      | none => simp [attachInner] at h
      | some expected =>
        have hsize := ViewState.applyEvent_size seq event view
        cases hnext : view.applyEvent seq event with
        | mk outcome next =>
          rw [hnext] at hsize
          cases outcome with
          | gap => simp [attachInner,hnext] at h
          | applied | duplicate =>
            simp only [attachInner,hnext] at h
            split_ifs at h
            · cases h
              exact hsize
            · exact (ih _ next h).trans hsize
    | snapshot =>
      cases expected with
      | none => simp [attachInner] at h
      | some expected =>
        simp only [attachInner] at h
        split_ifs at h
        obtain ⟨-,-,heq⟩ := except_map_eq_ok.mp h
        cases heq
        rfl

theorem attach_size {view view' : ViewState} {answer : List HandshakeMessage}
    (h : attach requested view answer = .ok view') :
    view'.maxScrollbackEntries = view.maxScrollbackEntries := by
  unfold attach at h
  cases hinner : attachInner requested (decide (requested=view.sessionId)) none view answer with
  | error reason => simp [hinner,Except.bind] at h
  | ok p =>
    rw [hinner] at h
    have hfirst := attachInner_size answer none view hinner
    have hrest : ∀ (messages : List HandshakeMessage) (v : ViewState),
        messages.foldlM receive v = .ok view' → view'.maxScrollbackEntries = v.maxScrollbackEntries := by
      intro messages
      induction messages with
      | nil =>
        intro v hv
        cases hv
        rfl
      | cons message messages ih =>
        intro v hv
        rw [foldlM_cons] at hv
        cases hreceive : receive v message with
        | error reason => simp [hreceive,bind,Except.bind] at hv
        | ok next =>
          rw [hreceive] at hv
          exact (ih next hv).trans (receive_size hreceive)
    exact (hrest p.2 p.1 h).trans hfirst

theorem attach_available_nil {view : ViewState} (hid : view.sessionId=requested) :
    attach requested view [.attachOk requested view.lastSeq] = .ok view := by
  simp only [attach,attachInner,hid,ne_eq,not_true_eq_false,if_false,decide_true,true_and,
    if_true]
  rfl

end SessionClient

inductive AttachPhase where
  | detached
  | subscribed (captured : SessionSnapshot)
  | attached
  deriving DecidableEq

/-- A client, with the incarnation that numbered the last event of its view. -/
structure LifeClient where
  view : ViewState
  reached : Nat
  phase : AttachPhase := .detached

/-- One session in the daemon: the core that is loaded, what it has emitted, and the clients. -/
structure SessionLife where
  limits : FrameLimits
  sessionId : String
  incarnation : Nat := 0
  log : List SessionEvent := []
  router : SessionEventRouter SessionEvent
  daemon : SnapshotState
  clients : List LifeClient := []

inductive LifeAction where
  | emit (event : SessionEvent) (panics : List Bool)
  | reload (persisted : OpenedFrom) (maxReplayEvents : Nat)
  | connect (maxScrollbackEntries : Nat)
  | subscribe (client : Nat)
  | answer (client : Nat)
  | deliver (client : Nat)
  | disconnect (client : Nat)

namespace SessionLife

def loaded (sessionId : String) (persisted : OpenedFrom) : SnapshotState :=
  .fromSnapshot { persisted.snapshot with sessionId, seq := 0 } persisted.maxSnapshotEntries

def opened (limits : FrameLimits) (sessionId : String) (persisted : OpenedFrom)
    (maxReplayEvents : Nat) : SessionLife where
  limits := limits
  sessionId := sessionId
  router := .newWithReplay maxReplayEvents
  daemon := loaded sessionId persisted

def emit (event : SessionEvent) (panics : List Bool) (s : SessionLife) : SessionLife :=
  match s.router.emitLocked event panics with
  | (.error .sequenceExhausted, _) => s
  | (_, router) =>
    { s with router, log := s.log ++ [event], daemon := s.daemon.apply router.sequence event }

def setClient (i : Nat) (c : LifeClient) (s : SessionLife) : SessionLife :=
  { s with clients := s.clients.set i c }

open SessionClient

/-- The answer to a client whose handler was subscribed when the snapshot was `captured`. -/
def answerTo (s : SessionLife) (view : ViewState) (captured : SessionSnapshot) :
    List HandshakeMessage :=
  s.limits.handshake s.sessionId (resumeSeq s.sessionId view) captured s.router

def step (s : SessionLife) : LifeAction → Option SessionLife
  | .emit event panics => some (s.emit event panics)
  -- an idle eviction or a restart of the daemon, and the load of what was persisted
  | .reload persisted maxReplayEvents =>
    some { s with
      incarnation := s.incarnation+1
      log := []
      router := .newWithReplay maxReplayEvents
      daemon := loaded s.sessionId persisted
      clients := s.clients.map fun c => { c with phase := .detached } }
  | .connect maxScrollbackEntries =>
    some { s with
      clients := s.clients ++
        [{ view := .withScrollbackLimit "" maxScrollbackEntries, reached := s.incarnation }] }
  | .subscribe i =>
    match s.clients[i]? with
    | some c =>
      if c.phase=.detached then
        some (s.setClient i { c with phase := .subscribed s.daemon.snapshot })
      else none
    | none => none
  | .answer i =>
    match s.clients[i]? with
    | some { view, reached, phase := .subscribed captured } =>
      match attach s.sessionId view (s.answerTo view captured) with
      | .ok view => some (s.setClient i { view, reached := s.incarnation, phase := .attached })
      | .error _ => some (s.setClient i { view, reached })
    | _ => none
  | .deliver i =>
    match s.clients[i]? with
    | some { view, reached, phase := .attached } =>
      match s.log[view.lastSeq]? with
      | some event =>
        some (s.setClient i
          { view := (view.applyEvent (view.lastSeq+1) event).2, reached, phase := .attached })
      | none => none
    | _ => none
  | .disconnect i =>
    match s.clients[i]? with
    | some c => some (s.setClient i { c with phase := .detached })
    | none => none

def system (limits : FrameLimits) (sessionId : String) (persisted : OpenedFrom)
    (maxReplayEvents : Nat) : System SessionLife LifeAction :=
  { init := opened limits sessionId persisted maxReplayEvents, step }

def freshView (s : SessionLife) (maxScrollbackEntries : Nat) (snapshot : SessionSnapshot) :
    Except String ViewState :=
  attach s.sessionId (.withScrollbackLimit "" maxScrollbackEntries)
    (s.limits.snapshotAnswer s.sessionId snapshot)

/-- The daemon's snapshot at the sequence number that the answer ends at. -/
def shownBy (s : SessionLife) (view : ViewState) (captured : SessionSnapshot) : SessionSnapshot :=
  match s.router.replaySince view.lastSeq with
  | .available .. => s.daemon.snapshot
  | .snapshotRequired _ => captured

/-- A client that resumes ends up where one that attaches does, and no event is replayed to it. -/
structure ResumesAfresh (s : SessionLife) (view : ViewState) (captured : SessionSnapshot) : Prop where
  shows : attach s.sessionId view (s.answerTo view captured) =
    s.freshView view.maxScrollbackEntries (s.shownBy view captured)
  unreplayed : ∀ message ∈ s.answerTo view captured, message.isEvent=false

/-- The watermark is none that the core could take for one of its own: it is above all its numbers, or
so far below the last that the ring has lost the event behind it. Or it is the last, and the view
happens to show what a fresh one would. -/
def SeesThrough (s : SessionLife) (view : ViewState) : Prop :=
  view.lastSeq > s.router.sequence ∨
    view.lastSeq + s.router.maxReplayEvents < s.router.sequence ∨
    (view.lastSeq=s.router.sequence ∧
      s.freshView view.maxScrollbackEntries s.daemon.snapshot = .ok view)

/-- The router has recorded what its core emitted, and every snapshot is of the session. -/
structure Lives (s : SessionLife) : Prop where
  records : s.router.Records s.router.maxReplayEvents s.log
  named : s.daemon.snapshot.sessionId = s.sessionId
  sized : ∀ c∈s.clients, 1 ≤ c.view.maxScrollbackEntries
  captured : ∀ c∈s.clients, ∀ captured, c.phase = .subscribed captured →
    captured.sessionId=s.sessionId

variable {s s' : SessionLife}

theorem lives_opened (limits : FrameLimits) (sessionId : String) (persisted : OpenedFrom)
    (maxReplayEvents : Nat) : (opened limits sessionId persisted maxReplayEvents).Lives :=
  ⟨SessionEventRouter.newWithReplay_records maxReplayEvents,rfl,by simp [opened],by simp [opened]⟩

theorem Lives.withClients (h : s.Lives) {c : LifeClient} {clients : List LifeClient}
    (hclients : ∀ c'∈clients, c'∈s.clients ∨ c'=c) (hsized : 1 ≤ c.view.maxScrollbackEntries)
    (hcaptured : ∀ captured, c.phase = .subscribed captured → captured.sessionId=s.sessionId) :
    Lives { s with clients } := by
  refine ⟨h.records,h.named,fun c' hc' => ?_,fun c' hc' => ?_⟩
  all_goals rcases hclients c' hc' with hold | rfl
  · exact h.sized c' hold
  · exact hsized
  · exact h.captured c' hold
  · exact hcaptured

theorem Lives.setClient (h : s.Lives) {i : Nat} {c : LifeClient}
    (hsized : 1 ≤ c.view.maxScrollbackEntries)
    (hcaptured : ∀ captured, c.phase = .subscribed captured → captured.sessionId=s.sessionId) :
    (s.setClient i c).Lives :=
  h.withClients (fun _ hc' => mem_or_eq_of_mem_set hc') hsized hcaptured

theorem emit_eq (event : SessionEvent) (panics : List Bool) (s : SessionLife) :
    s.emit event panics =
      if s.router.sequence+1 > u64Max then s
      else
        { s with
          router := (s.router.emitLocked event panics).2
          log := s.log ++ [event]
          daemon := s.daemon.apply (s.router.emitLocked event panics).2.sequence event } := by
  unfold SessionLife.emit SessionEventRouter.emitLocked
  split_ifs
  · rfl
  · cases hpanics : panics.any id <;> rfl

theorem Lives.emit (h : s.Lives) (event : SessionEvent) (panics : List Bool) :
    (s.emit event panics).Lives := by
  rw [emit_eq]
  split_ifs with hfull
  · exact h
  · have hrecords := SessionEventRouter.emitLocked_records h.records event panics
    have hroom : (s.log ++ [event]).length ≤ u64Max := by
      rw [length_append,length_singleton,← h.records.sequence]
      omega
    rw [take_of_length_le hroom,← hrecords.capacity] at hrecords
    refine ⟨hrecords,?_,h.sized,h.captured⟩
    rw [← h.named]
    cases event <;> rfl

theorem Lives.step (h : s.Lives) {a : LifeAction} (hstep : s.step a = some s') : s'.Lives := by
  cases a with
  | emit event panics =>
    cases hstep
    exact h.emit event panics
  | reload persisted maxReplayEvents =>
    cases hstep
    refine ⟨SessionEventRouter.newWithReplay_records maxReplayEvents,rfl,fun c hc => ?_,fun c hc => ?_⟩
    · obtain ⟨c',hc',rfl⟩ := mem_map.mp hc
      exact h.sized c' hc'
    · obtain ⟨c',-,rfl⟩ := mem_map.mp hc
      exact fun captured heq => by cases heq
  | connect =>
    cases hstep
    exact h.withClients (fun c hc => (mem_append.mp hc).imp_right mem_singleton.mp)
      (Nat.le_max_right _ _) (by rintro captured ⟨⟩)
  | subscribe =>
    simp only [SessionLife.step] at hstep
    split at hstep
    · rename_i c hc
      split_ifs at hstep
      cases hstep
      refine h.setClient (h.sized c (mem_of_getElem? hc)) fun captured heq => ?_
      cases heq
      exact h.named
    · cases hstep
  | answer =>
    simp only [SessionLife.step] at hstep
    split at hstep
    · rename_i view reached captured hc
      have hsized := h.sized _ (mem_of_getElem? hc)
      split at hstep
      · rename_i view' hattach
        cases hstep
        exact h.setClient (hsized.trans_eq (attach_size hattach).symm) (by rintro captured ⟨⟩)
      · cases hstep
        exact h.setClient hsized (by rintro captured ⟨⟩)
    · cases hstep
  | deliver =>
    simp only [SessionLife.step] at hstep
    split at hstep
    · rename_i view reached hc
      have hsized := h.sized _ (mem_of_getElem? hc)
      split at hstep
      · cases hstep
        exact h.setClient (hsized.trans_eq (ViewState.applyEvent_size ..).symm)
          (by rintro captured ⟨⟩)
      · cases hstep
    · cases hstep
  | disconnect =>
    simp only [SessionLife.step] at hstep
    split at hstep
    · rename_i c hc
      cases hstep
      exact h.setClient (h.sized c (mem_of_getElem? hc)) (by rintro captured ⟨⟩)
    · cases hstep

theorem Lives.replaySince (h : s.Lives) (lastSeen : Nat) :
    s.router.replaySince lastSeen =
      if lastSeen > s.router.sequence ∨ lastSeen + s.router.maxReplayEvents < s.router.sequence then
        .snapshotRequired s.router.sequence
      else .available ((numbered s.log).drop lastSeen) s.router.sequence := by
  have hsequence := h.records.sequence
  rw [h.records.replaySince_eq,hsequence]
  have hiff : (lastSeen > s.log.length ∨ lastSeen < s.log.length ∧
      lastSeen < s.log.length - s.router.maxReplayEvents) ↔
      (lastSeen > s.log.length ∨ lastSeen + s.router.maxReplayEvents < s.log.length) := by omega
  simp only [hiff]

theorem Lives.resumes_afresh (h : s.Lives) {c : LifeClient} {captured : SessionSnapshot}
    (hc : c∈s.clients) (hphase : c.phase = .subscribed captured)
    (hid : c.view.sessionId=s.sessionId) :
    s.ResumesAfresh c.view captured ↔ s.SeesThrough c.view := by
  have hresume : resumeSeq s.sessionId c.view = some c.view.lastSeq := if_pos hid.symm
  have hreplay := h.replaySince c.view.lastSeq
  by_cases hgone : c.view.lastSeq > s.router.sequence ∨
      c.view.lastSeq + s.router.maxReplayEvents < s.router.sequence
  · -- the core asks for a snapshot, and the client applies it
    rw [if_pos hgone] at hreplay
    have hanswer : s.answerTo c.view captured = s.limits.snapshotAnswer s.sessionId captured := by
      simp only [answerTo,FrameLimits.handshake,hresume,Option.map_some,hreplay]
    have hshown : s.shownBy c.view captured = captured := by
      simp only [shownBy,hreplay]
    have hcaptured := h.captured c hc captured hphase
    refine iff_of_true ⟨?_,fun message hmessage => ?_⟩ (or_assoc.mp (Or.inl hgone))
    · rw [hanswer,hshown,freshView,attach_snapshotAnswer _ hcaptured,
        attach_snapshotAnswer _ hcaptured]
      have hsize : c.view.maxScrollbackEntries =
          (ViewState.withScrollbackLimit "" c.view.maxScrollbackEntries).maxScrollbackEntries :=
        (Nat.max_eq_left (h.sized c hc)).symm
      simp only [ViewState.applySnapshot_eq _ hsize]
    · rw [hanswer,FrameLimits.snapshotAnswer] at hmessage
      cases hfit : s.limits.fit captured with
      | error reason =>
        rw [hfit,mem_singleton] at hmessage
        rw [hmessage]
        rfl
      | ok snapshot =>
        rw [hfit,mem_cons,mem_singleton] at hmessage
        rcases hmessage with rfl | rfl
        · rfl
        · rfl
  · -- the core takes the watermark for its own
    rw [if_neg hgone] at hreplay
    have hanswer : s.answerTo c.view captured = .attachOk s.sessionId s.router.sequence ::
        ((numbered s.log).drop c.view.lastSeq).map fun e => .event e.1 e.2 := by
      simp only [answerTo,FrameLimits.handshake,hresume,Option.map_some,hreplay]
    have hshown : s.shownBy c.view captured = s.daemon.snapshot := by
      simp only [shownBy,hreplay]
    have hsequence := h.records.sequence
    by_cases hlast : c.view.lastSeq = s.router.sequence
    · have hnone : (numbered s.log).drop c.view.lastSeq = [] :=
        drop_eq_nil_of_le (by rw [length_numbered,hlast,hsequence])
      rw [hnone,← hlast] at hanswer
      constructor
      · intro hafresh
        have hshows := hafresh.shows
        rw [hanswer,hshown,map_nil,attach_available_nil hid] at hshows
        exact Or.inr (Or.inr ⟨hlast,hshows.symm⟩)
      · intro hsees
        have hview := ((or_assoc.mpr hsees).resolve_left hgone).2
        refine ⟨?_,fun message hmessage => ?_⟩
        · rw [hanswer,hshown,map_nil,attach_available_nil hid,hview]
        · rw [hanswer,map_nil,mem_singleton] at hmessage
          rw [hmessage]
          rfl
    · refine iff_of_false (fun hafresh => ?_) fun hsees => ?_
      · -- the event behind the watermark is replayed
        obtain ⟨event,hevent⟩ : ∃ event, s.log[c.view.lastSeq]? = some event :=
          ⟨_,getElem?_eq_getElem (by omega)⟩
        have hmem : (c.view.lastSeq+1, event) ∈ (numbered s.log).drop c.view.lastSeq := by
          refine mem_of_getElem? (i := 0) ?_
          rw [getElem?_drop,Nat.add_zero,getElem?_numbered,hevent]
          rfl
        have hreplayed := hafresh.unreplayed (.event (c.view.lastSeq+1) event) (by
          rw [hanswer]
          exact mem_cons_of_mem _ (mem_map_of_mem hmem))
        cases hreplayed
      · exact hlast ((or_assoc.mpr hsees).resolve_left hgone).1

theorem lives_of_reaches {limits : FrameLimits} {sessionId : String} {persisted : OpenedFrom}
    {maxReplayEvents : Nat}
    (h : (system limits sessionId persisted maxReplayEvents).Reaches (fun _ _ => True) s) : s.Lives :=
  System.Reaches.invariant (I := Lives) (lives_opened limits sessionId persisted maxReplayEvents)
    (fun _ _ _ hlives _ hstep => hlives.step hstep) h

/-- A client that comes back with the number it reached in an earlier incarnation sees what a fresh
one does exactly when the core cannot take the number for one of its own. -/
theorem earlier_watermark_iff {limits : FrameLimits} {sessionId : String} {persisted : OpenedFrom}
    {maxReplayEvents : Nat}
    (h : (system limits sessionId persisted maxReplayEvents).Reaches (fun _ _ => True) s)
    {i : Nat} {c : LifeClient} {captured : SessionSnapshot} (hc : s.clients[i]? = some c)
    (hphase : c.phase = .subscribed captured) (hid : c.view.sessionId=s.sessionId)
    (_ : c.reached < s.incarnation) :
    s.ResumesAfresh c.view captured ↔ s.SeesThrough c.view :=
  (lives_of_reaches h).resumes_afresh (mem_of_getElem? hc) hphase hid

/-- A client that follows `events` of one incarnation and comes back to the next one once that has
emitted `later`. -/
def comesBack (events later : List SessionEvent) : List LifeAction :=
  let follow (event : SessionEvent) : List LifeAction := [.emit event [], .deliver 0]
  let emitted : List LifeAction := later.map fun event => .emit event []
  .connect 4 :: .subscribe 0 :: .answer 0 ::
    (events.flatMap follow ++ .reload { sessionId := "s" } 8 :: (emitted ++ [.subscribe 0]))

def smallSession : System SessionLife LifeAction :=
  system { encoded := fun _ => 0, maxFrameBytes := 1 } "s" { sessionId := "s" } 8

/-- The client is about to be answered, comes with a watermark of an earlier incarnation, and `p`. -/
def returns (p : ViewState → SessionSnapshot → Bool) (s : SessionLife) : Bool :=
  match s.clients[(0 : Nat)]? with
  | some { view, reached, phase := .subscribed captured } =>
    decide (view.sessionId=s.sessionId ∧ reached < s.incarnation) && p view captured
  | _ => false

theorem exists_of_returns (actions : List LifeAction)
    (p : SessionLife → ViewState → SessionSnapshot → Bool)
    (h : (smallSession.replay (fun _ _ => True) actions).map (fun s => s.returns (p s)) = some true) :
    ∃ (s : SessionLife) (c : LifeClient) (captured : SessionSnapshot),
      smallSession.Reaches (fun _ _ => True) s ∧ s.clients[0]? = some c ∧
      c.phase = .subscribed captured ∧ c.view.sessionId=s.sessionId ∧ c.reached < s.incarnation ∧
      p s c.view captured = true := by
  obtain ⟨s,hs,hreturns⟩ := Option.map_eq_some_iff.mp h
  unfold returns at hreturns
  split at hreturns
  · next view reached captured hc =>
    rw [Bool.and_eq_true,decide_eq_true_eq] at hreturns
    exact ⟨s,_,captured,System.reaches_of_replay hs,hc,rfl,hreturns.1.1,hreturns.1.2,
      hreturns.2⟩
  · cases hreturns

/-- A client comes back with a watermark above all that the new incarnation has numbered. -/
theorem earlier_watermark_above : ∃ (s : SessionLife) (c : LifeClient) (captured : SessionSnapshot),
    smallSession.Reaches (fun _ _ => True) s ∧ s.clients[0]? = some c ∧
    c.view.lastSeq > s.router.sequence ∧ s.ResumesAfresh c.view captured := by
  obtain ⟨s,c,captured,hreach,hc,hphase,hid,hreached,habove⟩ := exists_of_returns
    (comesBack [.userMessage "a" none, .assistantDelta "b"] [.userMessage "c" none])
    (fun s view _ => decide (view.lastSeq > s.router.sequence)) (by decide +kernel)
  rw [decide_eq_true_eq] at habove
  exact ⟨s,c,captured,hreach,hc,habove,
    (earlier_watermark_iff hreach hc hphase hid hreached).mpr (Or.inl habove)⟩

/-- The new core has emitted as many events as the client had seen of the old one, or one more. -/
theorem earlier_watermark_mistaken :
    (∃ (s : SessionLife) (c : LifeClient) (captured : SessionSnapshot),
      smallSession.Reaches (fun _ _ => True) s ∧ s.clients[0]? = some c ∧
      c.phase = .subscribed captured ∧ c.view.sessionId=s.sessionId ∧ c.reached < s.incarnation ∧
      attach s.sessionId c.view (s.answerTo c.view captured) ≠
        s.freshView c.view.maxScrollbackEntries (s.shownBy c.view captured)) ∧
    ∃ (s : SessionLife) (c : LifeClient) (captured : SessionSnapshot),
      smallSession.Reaches (fun _ _ => True) s ∧ s.clients[0]? = some c ∧
      c.phase = .subscribed captured ∧ c.view.sessionId=s.sessionId ∧ c.reached < s.incarnation ∧
      .event 2 (.assistantDelta "c") ∈ s.answerTo c.view captured := by
  constructor
  · have hruns := exists_of_returns (comesBack [.userMessage "a" none] [.userMessage "b" none])
      (fun s view captured => decide
        (attach s.sessionId view (s.answerTo view captured) ≠
          s.freshView view.maxScrollbackEntries (s.shownBy view captured))) (by decide +kernel)
    simpa only [decide_eq_true_eq] using hruns
  · have hruns := exists_of_returns
      (comesBack [.userMessage "a" none] [.userMessage "b" none, .assistantDelta "c"])
      (fun s view captured => decide
        (.event 2 (.assistantDelta "c") ∈ s.answerTo view captured)) (by decide +kernel)
    simpa only [decide_eq_true_eq] using hruns

end SessionLife

end Daimonos.Session
