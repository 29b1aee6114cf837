import Daimonos.Session.ServeClient

namespace Daimonos.Session

open Framework List

variable {ε : Type}

namespace DaemonRun

variable {s s' : DaemonRun ε}

def backlog (queue : List (Outgoing ε)) : List Nat := queue.filterMap Outgoing.seq?

def offered (s : DaemonRun ε) : Nat :=
  match s.dispatch with
  | none => s.router.sequence
  | some dispatch => if dispatch.client=.pending then dispatch.seq-1 else dispatch.seq

/-- The queue holds the events `x + 1` to `y` in order. Unless the handler has just found it full,
nothing that was offered is missing at its end. -/
structure Queued (s : DaemonRun ε) (x y : Nat) : Prop where
  le : x≤y
  numbers : backlog s.queue = List.range' (x+1) (y-x)
  last : (∀ dispatch∈s.dispatch, dispatch.client≠.marking) → y=s.offered

/-- The client stands where the events taken from the queue, or the watermark, have brought it. -/
def Stands (s : DaemonRun ε) (x : Nat) : Prop :=
  ∃ w, s.watermark = some w ∧ position s.sent = some (max x w)

/-- What is still to be sent, where the events up to `x` have been taken from the queue. -/
def PhaseOk (s : DaemonRun ε) (x : Nat) : ClientPhase ε → Prop
  | .connecting _ | .closed => False
  | .resuming _ captured | .attaching captured => x=captured
  | .accepting _ _ latest | .replaying _ latest => x ≤ latest
  | .sendingSnapshot seq => x ≤ seq
  | .serving | .delivered | .draining | .requesting _ => s.Stands x
  | .received (.event seq _) => seq=x ∧ ∃ k, x=k+1 ∧ s.Stands k
  | .received .error => s.Stands x
  | .syncing => s.Stands x ∧ x ≤ s.snapshotSeq
  | .fitting seq => s.Stands x ∧ x ≤ seq

/-- While no event has been lost: nothing is queued for a client that does not listen, and for one
that does the queue continues where it stands. -/
def StreamOk (s : DaemonRun ε) : Prop :=
  if s.phase.listens then ∃ x y, Queued s x y ∧ s.PhaseOk x s.phase
  else s.phase=.closed ∨ backlog s.queue = []

def ReplayOk (s : DaemonRun ε) : Prop :=
  match s.phase with
  | .accepting lastSeen events latest =>
    lastSeen ≤ latest ∧ events.map Prod.fst = List.range' (lastSeen+1) (latest-lastSeen)
  | .replaying events latest =>
    ∃ k, position s.sent = some k ∧ k ≤ latest ∧
      events.map Prod.fst = List.range' (k+1) (latest-k)
  | _ => True

/-- The snapshot state is as far as the router, but for the event being dispatched. -/
def SnapshotOk (s : DaemonRun ε) : Prop :=
  match s.dispatch with
  | none => s.snapshotSeq = s.router.sequence
  | some dispatch =>
    dispatch.seq=s.router.sequence ∧ 0<dispatch.seq ∧
      s.snapshotSeq = if dispatch.snapshotPending then dispatch.seq-1 else dispatch.seq

structure Sound (maxReplayEvents : Nat) (s : DaemonRun ε) : Prop where
  records : ∃ log, SessionEventRouter.Records maxReplayEvents log s.router
  snapshot : s.SnapshotOk
  contiguous : Contiguous s.sent
  replay : s.ReplayOk
  stream : s.lagged=false → s.StreamOk

theorem Queued.congr {x y : Nat} (h : Queued s x y) (hq : s'.queue=s.queue)
    (hd : s'.dispatch=s.dispatch) (hr : s'.router=s.router) : Queued s' x y where
  le := h.le
  numbers := hq ▸ h.numbers
  last hmark := by
    rw [offered,hd,hr]
    exact h.last (hd ▸ hmark)

theorem Stands.congr {x : Nat} (h : s.Stands x) (hw : s'.watermark=s.watermark)
    (hs : s'.sent=s.sent) : s'.Stands x := by
  rw [Stands,hw,hs]
  exact h

structure Around (s s' : DaemonRun ε) : Prop where
  phase : s'.phase=s.phase
  watermark : s'.watermark=s.watermark
  sent : s'.sent=s.sent
  lagged : s'.lagged=false → s.lagged=false
  snapshotSeq : s.snapshotSeq ≤ s'.snapshotSeq
  queued : s.phase.listens=true → s'.lagged=false → ∀ x y, Queued s x y → ∃ y', Queued s' x y'
  silent : s.phase.listens=false → s'.queue=s.queue

theorem PhaseOk.mono {x : Nat} {phase : ClientPhase ε} (h : s.PhaseOk x phase)
    (hw : s'.watermark=s.watermark) (hs : s'.sent=s.sent)
    (hseq : s.snapshotSeq ≤ s'.snapshotSeq) : s'.PhaseOk x phase := by
  cases phase with
  | connecting | closed => exact h.elim
  | resuming | attaching | accepting | replaying | sendingSnapshot => exact h
  | serving | delivered | draining | requesting => exact Stands.congr h hw hs
  | received outgoing =>
    cases outgoing with
    | event =>
      obtain ⟨hseq,k,hk,hstands⟩ := h
      exact ⟨hseq,k,hk,hstands.congr hw hs⟩
    | error => exact Stands.congr h hw hs
  | syncing => exact ⟨Stands.congr h.1 hw hs,Nat.le_trans h.2 hseq⟩
  | fitting => exact ⟨Stands.congr h.1 hw hs,h.2⟩

theorem Around.replayOk (ha : Around s s') (h : s.ReplayOk) : s'.ReplayOk := by
  unfold ReplayOk at h ⊢
  rw [ha.phase,ha.sent]
  exact h

theorem Around.streamOk (ha : Around s s') (hlagged : s'.lagged=false) (h : s.StreamOk) :
    s'.StreamOk := by
  unfold StreamOk at h ⊢
  rw [ha.phase]
  split_ifs at h ⊢ with hlistens
  · obtain ⟨x,y,hqueued,hphase⟩ := h
    obtain ⟨y',hqueued'⟩ := ha.queued hlistens hlagged x y hqueued
    exact ⟨x,y',hqueued',hphase.mono ha.watermark ha.sent ha.snapshotSeq⟩
  · rw [ha.silent (Bool.not_eq_true _ ▸ hlistens)]
    exact h

/-- Of a step of the session, only the router and the snapshot state need looking at. -/
theorem Sound.around {maxReplayEvents : Nat} (h : Sound maxReplayEvents s) (ha : Around s s')
    (hrecords : ∃ log, SessionEventRouter.Records maxReplayEvents log s'.router)
    (hsnapshot : s'.SnapshotOk) : Sound maxReplayEvents s' where
  records := hrecords
  snapshot := hsnapshot
  contiguous := ha.sent ▸ h.contiguous
  replay := ha.replayOk h.replay
  stream hlagged := ha.streamOk hlagged (h.stream (ha.lagged hlagged))

section Emission

variable {maxReplayEvents : Nat}

theorem Sound.snapshot_idle (h : Sound maxReplayEvents s) (hnone : s.dispatch=none) :
    s.snapshotSeq = s.router.sequence := by
  have hok := h.snapshot
  rwa [SnapshotOk,hnone] at hok

theorem Sound.emit (h : Sound maxReplayEvents s) {event : ε} (hs : s.emit event = some s') :
    Sound maxReplayEvents s' := by
  obtain ⟨log,hrecords⟩ := h.records
  have hnext := SessionEventRouter.emitLocked_records hrecords event []
  obtain ⟨hfree,hs⟩ := Option.ite_none_right_eq_some.mp hs
  have hnone : s.dispatch=none := Option.isNone_iff_eq_none.mp hfree
  have hsnapshot := h.snapshot_idle hnone
  unfold SessionEventRouter.emitLocked at hs hnext
  by_cases hfull : s.router.sequence+1 > u64Max
  · rw [if_pos hfull] at hs hnext
    cases hs
    exact h
  · rw [if_neg hfull] at hs hnext
    cases hs
    refine h.around ?_ ⟨_,hnext⟩ ⟨rfl,Nat.succ_pos _,by simpa using hsnapshot⟩
    refine ⟨rfl,rfl,rfl,fun hl => hl,Nat.le_refl _,fun hlistens _ x y hq => ⟨y,hq.le,
      hq.numbers,fun _ => ?_⟩,fun _ => rfl⟩
    have hlast := hq.last (by simp [hnone])
    rw [offered,hnone] at hlast
    simp [offered,hlistens,hlast]

theorem Sound.snapshotHandler (h : Sound maxReplayEvents s) (hs : s.snapshotHandler = some s') :
    Sound maxReplayEvents s' := by
  unfold DaemonRun.snapshotHandler at hs
  split at hs
  · next dispatch hdispatch =>
    split_ifs at hs with hpending
    cases hs
    have hok := h.snapshot
    unfold SnapshotOk at hok
    rw [hdispatch] at hok
    obtain ⟨hseq,hpos,hsnapshot⟩ := hok
    rw [hpending,if_pos rfl] at hsnapshot
    refine h.around ?_ h.records ⟨hseq,hpos,by simp⟩
    refine ⟨rfl,rfl,rfl,fun hl => hl,?_,fun _ _ x y hq => ⟨y,hq.le,hq.numbers,fun hmark => ?_⟩,
      fun _ => rfl⟩
    · rw [hsnapshot]
      exact Nat.sub_le _ _
    · have hlast := hq.last (by simpa [hdispatch] using hmark)
      simpa [offered,hdispatch] using hlast
  · cases hs

theorem backlog_append (queue : List (Outgoing ε)) (outgoing : Outgoing ε) :
    backlog (queue ++ [outgoing]) = backlog queue ++ outgoing.seq?.toList := by
  unfold backlog
  rw [filterMap_append]
  cases outgoing <;> rfl

theorem Queued.enqueue {x y : Nat} (h : Queued s x y) {dispatch : Dispatch ε}
    (hdispatch : s.dispatch = some dispatch) (hpending : dispatch.client=.pending)
    (hpos : 0<dispatch.seq) :
    Queued { s with
      queue := s.queue ++ [.event dispatch.seq dispatch.event]
      dispatch := some { dispatch with client := .finished } } x dispatch.seq := by
  have hlast : y=dispatch.seq-1 := by
    have hlast := h.last (by simp [hdispatch,hpending])
    simpa [offered,hdispatch,hpending] using hlast
  have hle := h.le
  refine ⟨by omega,?_,fun _ => by simp [offered]⟩
  have hcount : dispatch.seq-x = (y-x) + 1 := by omega
  rw [backlog_append,h.numbers,hcount,range'_concat]
  change _ ++ [dispatch.seq] = _
  congr 2
  omega

theorem Sound.clientHandler (h : Sound maxReplayEvents s) (hs : s.clientHandler = some s') :
    Sound maxReplayEvents s' := by
  unfold DaemonRun.clientHandler at hs
  cases hdispatch : s.dispatch with
  | none =>
    rw [hdispatch] at hs
    cases hs
  | some dispatch =>
    rw [hdispatch] at hs
    have hok := h.snapshot
    unfold SnapshotOk at hok
    rw [hdispatch] at hok
    cases hclient : dispatch.client with
    | finished =>
      simp only [hclient] at hs
      cases hs
    | marking =>
      simp only [hclient] at hs
      cases hs
      refine h.around ?_ h.records hok
      exact ⟨rfl,rfl,rfl,fun hl => (by cases hl),Nat.le_refl _,fun _ hl => (by cases hl),
        fun _ => rfl⟩
    | pending =>
      simp only [hclient] at hs
      split_ifs at hs with hlistens hroom
      · cases hs
        refine h.around ?_ h.records hok
        exact ⟨rfl,rfl,rfl,fun hl => hl,Nat.le_refl _,
          fun hl => absurd hl (Bool.not_eq_true _ ▸ hlistens),fun _ => rfl⟩
      · cases hs
        refine h.around ?_ h.records hok
        exact ⟨rfl,rfl,rfl,fun hl => hl,Nat.le_refl _,
          fun _ _ x y hq => ⟨_,hq.enqueue hdispatch hclient hok.2.1⟩,fun hl => absurd hl hlistens⟩
      · cases hs
        refine h.around ?_ h.records hok
        exact ⟨rfl,rfl,rfl,fun hl => hl,Nat.le_refl _,
          fun _ _ x y hq => ⟨y,hq.le,hq.numbers,fun hmark => absurd rfl (hmark _ rfl)⟩,
          fun _ => rfl⟩

theorem Sound.release (h : Sound maxReplayEvents s) (hs : s.release = some s') :
    Sound maxReplayEvents s' := by
  unfold DaemonRun.release at hs
  split at hs
  · next seq event hdispatch =>
    cases hs
    have hok := h.snapshot
    unfold SnapshotOk at hok
    rw [hdispatch] at hok
    refine h.around ?_ h.records (hok.2.2.trans hok.1)
    refine ⟨rfl,rfl,rfl,fun hl => hl,Nat.le_refl _,fun _ _ x y hq => ⟨y,hq.le,hq.numbers,
      fun _ => ?_⟩,fun _ => rfl⟩
    have hlast := hq.last (by simp [hdispatch])
    rw [offered,hdispatch] at hlast
    exact hlast.trans hok.1
  · cases hs

theorem Sound.promptError (h : Sound maxReplayEvents s) (hs : s.promptError = some s') :
    Sound maxReplayEvents s' := by
  unfold DaemonRun.promptError at hs
  split_ifs at hs with hroom
  cases hs
  refine h.around ?_ h.records h.snapshot
  refine ⟨rfl,rfl,rfl,fun hl => hl,Nat.le_refl _,fun _ _ x y hq => ⟨y,hq.le,?_,hq.last⟩,
    fun hl => ?_⟩
  · rw [backlog_append,hq.numbers]
    exact append_nil _
  · rw [hroom.1] at hl
    cases hl

end Emission

section Connection

variable {maxReplayEvents : Nat}

theorem Sound.streamAt (h : Sound maxReplayEvents s) (hlagged : s.lagged=false)
    {phase : ClientPhase ε} (hphase : s.phase=phase) (hlistens : phase.listens=true) :
    ∃ x y, Queued s x y ∧ s.PhaseOk x phase := by
  have hstream := h.stream hlagged
  rw [StreamOk,hphase,if_pos hlistens] at hstream
  exact hstream

theorem streamOk_of_queued {x y : Nat} (hqueued : Queued s x y) (hok : s.PhaseOk x s.phase) :
    s.StreamOk := by
  unfold StreamOk
  split_ifs with hlistens
  · exact ⟨x,y,hqueued,hok⟩
  · cases hphase : s.phase <;> simp_all [PhaseOk,ClientPhase.listens]

/-- A step of the connection that leaves the session and the queue as they are. -/
theorem Sound.moved (h : Sound maxReplayEvents s) {phase : ClientPhase ε} (hphase : s.phase=phase)
    (hlistens : phase.listens=true) (hlagged : s'.lagged=s.lagged) (hqueue : s'.queue=s.queue)
    (hsession : s'.router=s.router ∧ s'.dispatch=s.dispatch ∧ s'.snapshotSeq=s.snapshotSeq)
    (hcontiguous : Contiguous s'.sent) (hreplay : s'.ReplayOk)
    (hok : ∀ x y, Queued s x y → s.PhaseOk x phase → s'.PhaseOk x s'.phase) :
    Sound maxReplayEvents s' := by
  obtain ⟨hrouter,hdispatch,hsnapshot⟩ := hsession
  refine ⟨hrouter ▸ h.records,?_,hcontiguous,hreplay,fun hclear => ?_⟩
  · rw [SnapshotOk,hdispatch,hrouter,hsnapshot]
    exact h.snapshot
  · obtain ⟨x,y,hqueued,hx⟩ := h.streamAt (hlagged ▸ hclear) hphase hlistens
    exact streamOk_of_queued (hqueued.congr hqueue hdispatch hrouter) (hok x y hqueued hx)

theorem Sound.close (h : Sound maxReplayEvents s) {frame : Frame ε}
    (hfits : frame.fits (position s.sent)) : Sound maxReplayEvents (s.close frame) where
  records := h.records
  snapshot := h.snapshot
  contiguous := h.contiguous.append hfits
  replay := trivial
  stream _ := Or.inl rfl

theorem Sound.subscribe (h : Sound maxReplayEvents s) (hs : s.subscribe = some s') :
    Sound maxReplayEvents s' := by
  have hqueued : s.dispatch=none → s.phase.listens=false → s.phase≠.closed →
      s.lagged=false → Queued s s.snapshotSeq s.snapshotSeq := by
    intro hnone hlistens hopen hlagged
    have hstream := h.stream hlagged
    rw [StreamOk,hlistens] at hstream
    refine ⟨Nat.le_refl _,?_,fun _ => ?_⟩
    · rw [Nat.sub_self]
      exact hstream.resolve_left hopen
    · rw [offered,hnone]
      exact h.snapshot_idle hnone
  unfold DaemonRun.subscribe at hs
  split at hs
  · next hphase hnone =>
    cases hs
    exact ⟨h.records,h.snapshot,h.contiguous,trivial,fun hlagged => streamOk_of_queued
      ((hqueued hnone (by rw [hphase]; rfl) (by simp [hphase]) hlagged).congr rfl rfl rfl) rfl⟩
  · next lastSeen hphase hnone =>
    cases hs
    exact ⟨h.records,h.snapshot,h.contiguous,trivial,fun hlagged => streamOk_of_queued
      ((hqueued hnone (by rw [hphase]; rfl) (by simp [hphase]) hlagged).congr rfl rfl rfl) rfl⟩
  · cases hs

theorem Sound.replay_available (h : Sound maxReplayEvents s) {lastSeen latest : Nat}
    {events : List (Nat × ε)} (hreplay : s.router.replaySince lastSeen = .available events latest) :
    latest=s.router.sequence ∧ lastSeen ≤ latest ∧
      events.map Prod.fst = List.range' (lastSeen+1) (latest-lastSeen) := by
  obtain ⟨log,hrecords⟩ := h.records
  rw [hrecords.replaySince_eq] at hreplay
  split_ifs at hreplay with hlost
  cases hreplay
  refine ⟨hrecords.sequence.symm,by omega,?_⟩
  rw [map_drop,map_fst_numbered,drop_range']
  congr 1
  omega

theorem Queued.le_sequence {x y : Nat} (h : Queued s x y) (hnone : s.dispatch=none) :
    x ≤ s.router.sequence := by
  have hlast := h.last (by simp [hnone])
  rw [offered,hnone] at hlast
  exact Nat.le_trans h.le (Nat.le_of_eq hlast)

theorem Sound.replaySince (h : Sound maxReplayEvents s) (hs : s.replaySince = some s') :
    Sound maxReplayEvents s' := by
  unfold DaemonRun.replaySince at hs
  split at hs
  · next lastSeen captured hphase hnone =>
    cases hreplay : s.router.replaySince lastSeen with
    | available events latest =>
      rw [hreplay] at hs
      cases hs
      obtain ⟨hlatest,hle,hevents⟩ := h.replay_available hreplay
      refine h.moved hphase rfl rfl rfl ⟨rfl,rfl,rfl⟩ h.contiguous ⟨hle,hevents⟩ fun x _ hq _ => ?_
      exact (hlatest ▸ hq.le_sequence hnone : x ≤ latest)
    | snapshotRequired =>
      rw [hreplay] at hs
      cases hs
      exact h.moved hphase rfl rfl rfl ⟨rfl,rfl,rfl⟩ h.contiguous trivial fun _ _ _ hx => hx
  · next lastSeen hphase hnone =>
    cases hreplay : s.router.replaySince lastSeen with
    | available events latest =>
      rw [hreplay] at hs
      cases hs
      obtain ⟨hlatest,hle,hevents⟩ := h.replay_available hreplay
      refine h.moved hphase rfl rfl rfl ⟨rfl,rfl,rfl⟩ (h.contiguous.append rfl)
        ⟨lastSeen,position_append_singleton _ _,hle,hevents⟩ fun x _ hq _ => ?_
      exact (hlatest ▸ hq.le_sequence hnone : x ≤ latest)
    | snapshotRequired =>
      rw [hreplay] at hs
      cases hs
      refine h.moved hphase rfl rfl rfl ⟨rfl,rfl,rfl⟩ h.contiguous trivial fun x _ hq hx => ?_
      exact ⟨Stands.congr hx rfl rfl,
        (h.snapshot_idle hnone ▸ hq.le_sequence hnone : x ≤ s.snapshotSeq)⟩
  · cases hs

theorem Sound.stays (h : Sound maxReplayEvents s) {before after : ClientPhase ε}
    (hphase : s.phase=before) (hlistens : before.listens=true)
    (hreplay : (s.setPhase after).ReplayOk)
    (hok : ∀ x, s.PhaseOk x before → (s.setPhase after).PhaseOk x after) :
    Sound maxReplayEvents (s.setPhase after) :=
  h.moved hphase hlistens rfl rfl ⟨rfl,rfl,rfl⟩ h.contiguous hreplay fun x _ _ => hok x

theorem Stands.push {x : Nat} (h : s.Stands x) {frame : Frame ε}
    (hplace : ∀ position, frame.place position = position) : (s.push frame).Stands x := by
  obtain ⟨w,hw,hposition⟩ := h
  refine ⟨w,hw,?_⟩
  change position (s.sent ++ [frame]) = _
  rw [position_append_singleton,hplace]
  exact hposition

theorem Sound.fit (h : Sound maxReplayEvents s) {fits : Bool} (hs : s.fit fits = some s') :
    Sound maxReplayEvents s' := by
  unfold DaemonRun.fit at hs
  split at hs
  · next captured hphase =>
    split_ifs at hs
    · cases hs
      exact h.close rfl
    · cases hs
      exact h.moved hphase rfl rfl rfl ⟨rfl,rfl,rfl⟩ (h.contiguous.append rfl) trivial
        fun _ _ _ hx => Nat.le_of_eq hx
  · next seq hphase =>
    split_ifs at hs
    · cases hs
      exact h.moved hphase rfl rfl rfl ⟨rfl,rfl,rfl⟩ h.contiguous trivial fun _ _ _ hx => hx.2
    · cases hs
      exact h.moved hphase rfl rfl rfl ⟨rfl,rfl,rfl⟩ (h.contiguous.append rfl) trivial
        fun _ _ _ hx => (hx.1.push fun _ => rfl).congr rfl rfl
  · cases hs

theorem Sound.send (h : Sound maxReplayEvents s) (hs : s.send = some s') :
    Sound maxReplayEvents s' := by
  have hreplay := h.replay
  unfold DaemonRun.send at hs
  split at hs
  · next lastSeen events latest hphase =>
    cases hs
    rw [ReplayOk,hphase] at hreplay
    exact h.moved hphase rfl rfl rfl ⟨rfl,rfl,rfl⟩ ((h.contiguous.append rfl).append rfl)
      ⟨lastSeen,position_append_singleton _ _,hreplay⟩ fun _ _ _ hx => hx
  · next seq event rest latest hphase =>
    cases hs
    rw [ReplayOk,hphase] at hreplay
    obtain ⟨k,hk,hle,hevents⟩ := hreplay
    rw [map_cons] at hevents
    have hlt : k < latest := by
      by_contra hnot
      rw [Nat.sub_eq_zero_of_le (by omega)] at hevents
      cases hevents
    rw [show latest-k = (latest - (k+1)) + 1 by omega,range'_succ,List.cons.injEq] at hevents
    obtain ⟨hseq,hrest⟩ := hevents
    obtain rfl : seq=k+1 := hseq
    exact h.moved hphase rfl rfl rfl ⟨rfl,rfl,rfl⟩ (h.contiguous.append (by simp [Frame.fits,hk]))
      ⟨k+1,position_append_singleton _ _,hlt,hrest⟩ fun _ _ _ hx => hx
  · next latest hphase =>
    cases hs
    rw [ReplayOk,hphase] at hreplay
    obtain ⟨k,hk,hle,hevents⟩ := hreplay
    have hlatest : k=latest := by
      have hlength := congrArg List.length hevents
      simp only [map_nil,length_nil,length_range'] at hlength
      omega
    subst hlatest
    refine h.moved hphase rfl rfl rfl ⟨rfl,rfl,rfl⟩ h.contiguous trivial fun x _ _ hx => ⟨k,rfl,?_⟩
    rw [Nat.max_eq_right hx]
    exact hk
  · next seq hphase =>
    cases hs
    refine h.moved hphase rfl rfl rfl ⟨rfl,rfl,rfl⟩ (h.contiguous.append rfl) trivial
      fun x _ _ hx => ⟨seq,rfl,?_⟩
    rw [Nat.max_eq_right hx]
    exact position_append_singleton _ _
  · cases hs

theorem Queued.pop {x y : Nat} (h : Queued s x y) {outgoing : Outgoing ε}
    {rest : List (Outgoing ε)} (hqueue : s.queue=outgoing::rest) :
    (outgoing=.error ∧ Queued { s with queue := rest } x y) ∨
      ∃ event, outgoing = .event (x+1) event ∧ Queued { s with queue := rest } (x+1) y := by
  have hnumbers := h.numbers
  rw [hqueue] at hnumbers
  cases outgoing with
  | error => exact Or.inl ⟨rfl,h.le,hnumbers,h.last⟩
  | event seq event =>
    right
    change seq :: backlog rest = _ at hnumbers
    have hlt : x<y := by
      by_contra hnot
      rw [Nat.sub_eq_zero_of_le (by omega)] at hnumbers
      cases hnumbers
    rw [show y-x = (y - (x+1)) + 1 by omega,range'_succ,List.cons.injEq] at hnumbers
    exact ⟨event,by rw [hnumbers.1],hlt,hnumbers.2,h.last⟩

theorem Sound.recv (h : Sound maxReplayEvents s) (hs : s.recv = some s') :
    Sound maxReplayEvents s' := by
  unfold DaemonRun.recv at hs
  split at hs
  · next outgoing rest hphase hqueue =>
    cases hs
    refine ⟨h.records,h.snapshot,h.contiguous,trivial,fun hlagged => ?_⟩
    obtain ⟨x,y,hqueued,hx⟩ := h.streamAt hlagged hphase rfl
    rcases hqueued.pop hqueue with ⟨rfl,hpopped⟩ | ⟨event,rfl,hpopped⟩
    · exact streamOk_of_queued (hpopped.congr rfl rfl rfl) (Stands.congr hx rfl rfl)
    · exact streamOk_of_queued (hpopped.congr rfl rfl rfl) ⟨rfl,x,rfl,Stands.congr hx rfl rfl⟩
  · cases hs

/-- An event taken from the queue that passes the watermark is the next one for the client. -/
theorem Stands.passed {x : Nat} {event : ε} (h : s.Stands x)
    (hpass : s.passes (.event (x+1) event) = true) :
    (Frame.event (x+1) event).fits (position s.sent) ∧
      (s.push (.event (x+1) event)).Stands (x+1) := by
  obtain ⟨w,hw,hposition⟩ := h
  have hgt : w<x+1 := by simpa [passes,Outgoing.seq?,hw] using hpass
  refine ⟨?_,w,hw,?_⟩
  · rw [hposition,Nat.max_eq_left (by omega)]
    exact decide_eq_true rfl
  · rw [Nat.max_eq_left (by omega)]
    exact position_append_singleton _ _

theorem Stands.skipped {x : Nat} {event : ε} (h : s.Stands x)
    (hpass : ¬ s.passes (.event (x+1) event) = true) : s.Stands (x+1) := by
  obtain ⟨w,hw,hposition⟩ := h
  have hle : x+1≤w := by simpa [passes,Outgoing.seq?,hw] using hpass
  refine ⟨w,hw,?_⟩
  rw [hposition,Nat.max_eq_right (by omega),Nat.max_eq_right hle]

theorem Sound.deliver (h : Sound maxReplayEvents s) (hs : s.deliver = some s') :
    Sound maxReplayEvents s' := by
  unfold DaemonRun.deliver at hs
  split at hs
  · next outgoing hphase =>
    by_cases hlagged : s.lagged=true
    · rw [if_pos hlagged] at hs
      cases hs
      exact h.close rfl
    · rw [if_neg hlagged] at hs
      obtain ⟨x,y,hqueued,hx⟩ := h.streamAt (Bool.not_eq_true _ ▸ hlagged) hphase rfl
      cases outgoing with
      | error =>
        cases hs
        exact ⟨h.records,h.snapshot,h.contiguous.append rfl,trivial,
          fun _ => streamOk_of_queued (hqueued.congr rfl rfl rfl)
            ((Stands.push hx fun _ => rfl).congr rfl rfl)⟩
      | event =>
        obtain ⟨rfl,k,rfl,hstands⟩ := hx
        split_ifs at hs with hpass
        · cases hs
          obtain ⟨hfits,hstands'⟩ := hstands.passed hpass
          exact ⟨h.records,h.snapshot,h.contiguous.append hfits,trivial,
            fun _ => streamOk_of_queued (hqueued.congr rfl rfl rfl) (hstands'.congr rfl rfl)⟩
        · cases hs
          exact ⟨h.records,h.snapshot,h.contiguous,trivial,fun _ => streamOk_of_queued
            (hqueued.congr rfl rfl rfl) ((hstands.skipped hpass).congr rfl rfl)⟩
  · cases hs

theorem Sound.drain (h : Sound maxReplayEvents s) (hok : s.queue = [] ∨ s.lagged=false)
    (hs : s.drain = some s') : Sound maxReplayEvents s' := by
  unfold DaemonRun.drain at hs
  split at hs
  · next outgoing rest hphase hqueue =>
    have hclear : s.lagged=false := hok.resolve_left (by rw [hqueue]; exact cons_ne_nil _ _)
    obtain ⟨x,y,hqueued,hx⟩ := h.streamAt hclear hphase rfl
    -- The phase stays, so what the drained client stands at is all there is to show.
    have hdrained : ∀ (t : DaemonRun ε) (x' : Nat), t.phase=.draining → t.router=s.router →
        t.dispatch=s.dispatch → t.snapshotSeq=s.snapshotSeq → Contiguous t.sent →
        Queued t x' y → t.Stands x' → Sound maxReplayEvents t := by
      intro t x' hp hr hd hn hcontiguous hq hstands
      refine ⟨hr ▸ h.records,?_,hcontiguous,?_,fun _ => streamOk_of_queued hq (hp ▸ hstands)⟩
      · rw [SnapshotOk,hd,hr,hn]
        exact h.snapshot
      · rw [ReplayOk,hp]
        trivial
    rcases hqueued.pop hqueue with ⟨rfl,hpopped⟩ | ⟨event,rfl,hpopped⟩
    · cases hs
      exact hdrained _ x hphase rfl rfl rfl (h.contiguous.append rfl) (hpopped.congr rfl rfl rfl)
        ((Stands.push hx fun _ => rfl).congr rfl rfl)
    · split_ifs at hs with hpass
      · cases hs
        obtain ⟨hfits,hstands⟩ := Stands.passed hx hpass
        exact hdrained _ (x+1) hphase rfl rfl rfl (h.contiguous.append hfits)
          (hpopped.congr rfl rfl rfl) (hstands.congr rfl rfl)
      · cases hs
        exact hdrained _ (x+1) hphase rfl rfl rfl h.contiguous hpopped
          ((Stands.skipped hx hpass).congr rfl rfl)
  · cases hs
    exact h.close rfl
  · cases hs

theorem Sound.step (h : Sound maxReplayEvents s) {a : DaemonAction ε} (hok : s.stepOk a = true)
    (hs : s.step a = some s') : Sound maxReplayEvents s' := by
  cases a with
  | emit => exact h.emit hs
  | snapshotHandler => exact h.snapshotHandler hs
  | clientHandler => exact h.clientHandler hs
  | release => exact h.release hs
  | promptError => exact h.promptError hs
  | subscribe => exact h.subscribe hs
  | replaySince => exact h.replaySince hs
  | fit => exact h.fit hs
  | send => exact h.send hs
  | recv => exact h.recv hs
  | deliver => exact h.deliver hs
  | drain => exact h.drain (by simpa [stepOk] using hok) hs
  | stop | replace =>
    cases hs
    exact h.around ⟨rfl,rfl,rfl,fun hl => hl,Nat.le_refl _,
      fun _ _ x y hq => ⟨y,hq.congr rfl rfl rfl⟩,fun _ => rfl⟩ h.records h.snapshot
  | notifyStop =>
    simp only [DaemonRun.step] at hs
    split_ifs at hs
    cases hs
    exact h.around ⟨rfl,rfl,rfl,fun hl => hl,Nat.le_refl _,
      fun _ _ x y hq => ⟨y,hq.congr rfl rfl rfl⟩,fun _ => rfl⟩ h.records h.snapshot
  | afterDelivery =>
    simp only [DaemonRun.step,afterDelivery] at hs
    split at hs
    · next hphase =>
      split_ifs at hs
      · cases hs
        exact h.close rfl
      · cases hs
        exact h.stays hphase rfl trivial fun _ hstands => hstands
    · cases hs
  | sync =>
    simp only [DaemonRun.step,sync] at hs
    split at hs
    · next hphase =>
      split_ifs at hs
      cases hs
      exact h.stays hphase rfl trivial fun _ hstands => hstands
    · cases hs
  | clone =>
    simp only [DaemonRun.step,clone] at hs
    split at hs
    · next hphase =>
      cases hs
      exact h.stays hphase rfl trivial fun _ hstands => hstands
    · cases hs
  | message | stopChanged =>
    simp only [DaemonRun.step] at hs
    split at hs
    · next hphase =>
      split_ifs at hs
      cases hs
      exact h.stays hphase rfl trivial fun _ hstands => hstands
    · cases hs
  | replacementChanged =>
    simp only [DaemonRun.step] at hs
    split at hs
    · split_ifs at hs
      cases hs
      exact h.close rfl
    · cases hs
  | disconnect =>
    cases hs
    exact ⟨h.records,h.snapshot,h.contiguous,trivial,fun _ => Or.inl rfl⟩

end Connection

theorem sound_opened (maxReplayEvents eventQueueCapacity : Nat) (emissions : List (ε × List Bool))
    (resume : Option Nat) :
    Sound maxReplayEvents (opened maxReplayEvents eventQueueCapacity emissions resume) where
  records := ⟨_,SessionEventRouter.emitAll_records
    (SessionEventRouter.newWithReplay_records maxReplayEvents) emissions⟩
  snapshot := rfl
  contiguous := contiguous_nil
  replay := trivial
  stream _ := Or.inr rfl

/-- Whatever a client attaches, resumes or asks to sync with, and however its requests interleave
with the dispatch of events, what it is sent is a snapshot or a replay followed by the events behind
it in order, as long as no drain loop runs with the lag flag raised. -/
theorem contiguous_of_reaches {maxReplayEvents eventQueueCapacity : Nat}
    {emissions : List (ε × List Bool)} {resume : Option Nat}
    (h : (system maxReplayEvents eventQueueCapacity emissions resume).Reaches
      (fun s a => s.stepOk a) s) : Contiguous s.sent := by
  have hsound : Sound maxReplayEvents s :=
    h.invariant (sound_opened maxReplayEvents eventQueueCapacity emissions resume)
      fun _ _ _ hsound hok hs => hsound.step hok hs
  exact hsound.contiguous

/-- A client resumes behind event 1 and is replayed event 2. Event 3 is queued meanwhile and comes
next. A sync request then finds its events evicted: the snapshot it is answered with already knows
event 4, whose copy in the queue is dropped, and event 5 follows. -/
theorem contiguous_resumed :
    ∃ s, (system 1 2 [("a", []), ("b", [])] (some 1)).replay (fun s a => s.stepOk a)
        [.subscribe, .replaySince, .emit "c", .clientHandler, .snapshotHandler, .release,
          .send, .send, .send, .recv, .deliver, .afterDelivery,
          .sync 0, .replaySince, .emit "d", .snapshotHandler, .clone, .clientHandler, .fit true,
          .send, .release, .recv, .deliver, .emit "e", .clientHandler, .recv, .deliver] = some s ∧
      s.sent = [.attachOk 2, .replayFrom 1, .event 2 "b", .event 3 "c", .snapshot 4, .event 5 "e"] ∧
      Contiguous s.sent := by
  refine System.exists_replay_and (fun s => s.sent =
    [.attachOk 2, .replayFrom 1, .event 2 "b", .event 3 "c", .snapshot 4, .event 5 "e"])
    (by decide +kernel) ?_
  exact fun s hreach hsent => ⟨hsent,contiguous_of_reaches hreach⟩

/-- A queue of one overflows and the session stops. The drain loop delivers event 1, which leaves
room for event 3, and delivers that as well: the client is never told that event 2 was lost. -/
theorem drained_pastLostEvent :
    ∃ s, (system 4 1 [] none).Reaches (fun _ _ => True) s ∧
      s.sent = [.attachOk 0, .snapshot 0, .event 1 "a", .event 3 "ending", .revoked .sessionStopped] ∧
      ¬ Contiguous s.sent := by
  obtain ⟨s,-,hreach,hsent⟩ := (system 4 1 [] none).exists_of_replay (fun _ _ => True)
    [.subscribe, .fit true, .send,
      .emit "a", .snapshotHandler, .clientHandler, .release,
      .emit "b", .snapshotHandler, .clientHandler, .clientHandler, .release,
      .stop, .message, .drain,
      .emit "ending", .snapshotHandler, .clientHandler, .release, .drain, .drain]
    (fun s => s.sent = [.attachOk 0, .snapshot 0, .event 1 "a", .event 3 "ending",
      .revoked .sessionStopped]) (by decide +kernel)
  refine ⟨s,hreach,hsent,fun hcontiguous => ?_⟩
  have hfits := hcontiguous [.attachOk 0, .snapshot 0, .event 1 "a"] (.event 3 "ending")
    [.revoked .sessionStopped] hsent
  cases hfits

end DaemonRun

end Daimonos.Session
