import Daimonos.Framework.Decimal
import Daimonos.Framework.Transition
import Daimonos.Session.FrameTransport
import Daimonos.Session.FrontendState

namespace Daimonos.Session

open Framework Transport List

/-- What a session client sends: the messages `μ` of commands, and the request that a gap makes it
send while it receives. -/
inductive ClientFrame (μ : Type) where
  | command (message : μ)
  | syncRequest (lastSeenSeq : Nat)

structure FrameWrite where
  frame : List UInt8
  sent : Nat := 0
  receiving : Bool

/-- The client of a controller: its view, the bytes the socket has accepted, the write under way, and
the frames whose writing was begun. -/
structure ControllerClient where
  view : ViewState
  written : List UInt8 := []
  writing : Option FrameWrite := none
  begun : List (List UInt8) := []

/-- An event is received, a command taken from its queue, or bytes are accepted by the socket. -/
inductive ControllerAction (μ : Type) where
  | event (seq : Nat) (event : SessionEvent)
  | command (message : μ)
  | accept (bytes : Nat)

namespace ControllerClient

variable {μ : Type} {toVec : ClientFrame μ → Except String (List UInt8)} {maxFrameBytes : Nat}
  {view : ViewState} {s s' : ControllerClient}

/-- `send`, up to `write_all`; a message that cannot be encoded is not written. -/
def send (toVec : ClientFrame μ → Except String (List UInt8)) (maxFrameBytes : Nat)
    (s : ControllerClient) (message : ClientFrame μ) (receiving : Bool) : ControllerClient :=
  match encodeFrame toVec maxFrameBytes message with
  | .error _ => { s with writing := none }
  | .ok frame => { s with writing := some { frame, receiving }, begun := frame::s.begun }

/-- The `select!` of `run_controller`. A command that is taken drops the receiving future with the
write it may be in, while the write of a command is waited for. -/
def step (toVec : ClientFrame μ → Except String (List UInt8)) (maxFrameBytes : Nat)
    (s : ControllerClient) : ControllerAction μ → Option ControllerClient
  | .event seq event =>
    if s.writing.isSome then none
    else
      match s.view.applyEvent seq event with
      | (.gap _, view) =>
        some (send toVec maxFrameBytes { s with view } (.syncRequest view.lastSeq) true)
      | (_, view) => some { s with view }
  | .command message =>
    if s.writing.all (·.receiving) then some (s.send toVec maxFrameBytes (.command message) false)
    else none
  | .accept bytes =>
    match s.writing with
    | none => none
    | some w =>
      let sent := w.sent+bytes
      if bytes=0 ∨ w.frame.length < sent then none
      else some
        { s with
          written := s.written ++ (w.frame.drop w.sent).take bytes
          writing := if sent=w.frame.length then none else some { w with sent } }

def controllerClient (toVec : ClientFrame μ → Except String (List UInt8)) (maxFrameBytes : Nat)
    (view : ViewState) : System ControllerClient (ControllerAction μ) where
  init := { view }
  step := step toVec maxFrameBytes

/-- The bytes written are whole frames, and the first bytes of the frame being written. -/
def WholeFrames (s : ControllerClient) : Prop :=
  ∃ frames : List (List UInt8), (∀ frame∈frames, frame∈s.begun) ∧ ∃ part : List UInt8,
    s.written=frames.flatten++part ∧ (part = [] ∨ ∃ w, s.writing = some w ∧ part <+: w.frame)

/-- No command is taken from the queue while a frame of the receiving side is partly written. -/
def stepOk (s : ControllerClient) : ControllerAction μ → Prop
  | .command _ => s.writing.all (·.sent=0)
  | .event .. | .accept _ => True

instance (s : ControllerClient) (action : ControllerAction μ) : Decidable (stepOk s action) := by
  cases action <;> unfold stepOk <;> infer_instance

def Sound (s : ControllerClient) : Prop :=
  (∀ w, s.writing = some w → w.frame∈s.begun) ∧
  ∃ frames : List (List UInt8), (∀ frame∈frames, frame∈s.begun) ∧
    s.written = frames.flatten ++ s.writing.elim [] fun w => w.frame.take w.sent

namespace Sound

theorem send (h : Sound s) (hnone : s.writing.all (·.sent=0) = true) (message : ClientFrame μ)
    (receiving : Bool) : Sound (s.send toVec maxFrameBytes message receiving) := by
  obtain ⟨-,frames,hframes,hwritten⟩ := h
  have hwhole : s.written=frames.flatten := by
    rw [hwritten]
    cases hwriting : s.writing with
    | none => exact append_nil _
    | some w =>
      rw [hwriting] at hnone
      have hsent : w.sent=0 := by simpa using hnone
      simp [hsent]
  unfold ControllerClient.send
  split
  · exact ⟨nofun,frames,hframes,by simpa using hwhole⟩
  · refine ⟨?_,frames,fun frame hmem => mem_cons_of_mem _ (hframes frame hmem),?_⟩
    · rintro w ⟨⟩
      exact mem_cons_self
    · simpa using hwhole

theorem accept (h : Sound s) {w : FrameWrite} (hw : s.writing = some w) {bytes : Nat} :
    Sound { s with
      written := s.written ++ (w.frame.drop w.sent).take bytes
      writing :=
        if w.sent+bytes=w.frame.length then none
        else some { w with sent := w.sent+bytes } } := by
  obtain ⟨hbegun,frames,hframes,hwritten⟩ := h
  have hmem := hbegun w hw
  have hmore : s.written ++ (w.frame.drop w.sent).take bytes =
      frames.flatten ++ w.frame.take (w.sent+bytes) := by
    rw [hwritten,hw,take_add,append_assoc]
    rfl
  split_ifs with hlast
  · refine ⟨nofun,frames ++ [w.frame],?_,?_⟩
    · exact forall_mem_append.mpr ⟨hframes,forall_mem_singleton.mpr hmem⟩
    · rw [hmore,hlast,take_length,flatten_append]
      simp
  · refine ⟨?_,frames,hframes,hmore⟩
    rintro w' ⟨⟩
    exact hmem

theorem step (h : Sound s) {action : ControllerAction μ} (hok : stepOk s action)
    (hs : s.step toVec maxFrameBytes action = some s') : Sound s' := by
  cases action with
  | event =>
    simp only [ControllerClient.step] at hs
    split_ifs at hs with hwriting
    have hidle : s.writing.all (·.sent=0) = true := by
      simp [Option.not_isSome_iff_eq_none.mp hwriting]
    split at hs
    · rename_i expected view heq
      have hview : Sound { s with view } := h
      cases hs
      exact hview.send hidle _ true
    · cases hs
      exact h
  | command =>
    simp only [ControllerClient.step] at hs
    split_ifs at hs
    cases hs
    exact h.send hok _ false
  | accept =>
    simp only [ControllerClient.step] at hs
    split at hs
    · cases hs
    · rename_i w hw
      rw [Option.ite_none_left_eq_some] at hs
      cases hs.2
      exact h.accept hw

end Sound

/-- As long as commands do not come into the middle of a sync request, the client writes whole frames
one after the other. -/
theorem wholeFrames_of_reaches
    (h : (controllerClient toVec maxFrameBytes view).Reaches stepOk s) : WholeFrames s := by
  have hsound : Sound s := by
    refine h.invariant ⟨nofun,[],nofun,rfl⟩ fun s action s' hsound hok hs => ?_
    exact hsound.step hok hs
  obtain ⟨-,frames,hframes,hwritten⟩ := hsound
  refine ⟨frames,hframes,_,hwritten,?_⟩
  cases hwriting : s.writing with
  | none => exact .inl rfl
  | some w => exact .inr ⟨w,rfl, take_prefix _ _⟩

def jsonBytes (text : String) : List UInt8 := text.toList.flatMap String.utf8EncodeChar

/-- The JSON of a ping and of a sync request. -/
def pingOrSync : ClientFrame Unit → Except String (List UInt8)
  | .command _ => .ok (jsonBytes "\x7b\"type\":\"ping\"\x7d")
  | .syncRequest lastSeenSeq => .ok (jsonBytes ("\x7b\"type\":\"sync_request\",\"last_seen_seq\":" ++
      String.ofList (decimal lastSeenSeq) ++ "\x7d"))

def freshClient : System ControllerClient (ControllerAction Unit) :=
  controllerClient pingOrSync 1024 (.withScrollbackLimit "s" 9)

def pingFrame : List UInt8 := jsonBytes "\x7b\"type\":\"ping\"\x7d\n"

def syncFrame : List UInt8 := jsonBytes "\x7b\"type\":\"sync_request\",\"last_seen_seq\":0\x7d\n"

/-- An event is missed, and the request for it is written before the command comes. -/
theorem wholeFrames_of_reaches_synced : ∃ s, freshClient.replay stepOk
    [.event 2 .conversationCleared, .accept 1, .accept 41, .command (), .accept 16] = some s ∧
    s.written=syncFrame++pingFrame ∧ WholeFrames s :=
  System.exists_replay_and (fun s => s.written=syncFrame++pingFrame) (by decide +kernel)
    fun _ h hwritten => ⟨hwritten,wholeFrames_of_reaches h⟩

/-- A command comes when one byte of the request is written. -/
theorem command_cuts_frame : ∃ s, freshClient.replay (fun _ _ => True)
    [.event 2 .conversationCleared, .accept 1, .command (), .accept 16] = some s ∧
    s.written = syncFrame.take 1 ++ pingFrame ∧ ¬ WholeFrames s := by
  obtain ⟨s,hs,-,hstate⟩ := System.exists_of_replay freshClient (fun _ _ => True)
    [.event 2 .conversationCleared, .accept 1, .command (), .accept 16]
    (fun s => s.written = syncFrame.take 1 ++ pingFrame ∧ s.writing=none ∧
      s.begun = [pingFrame,syncFrame])
    (by decide +kernel)
  obtain ⟨hwritten,hwriting,hbegun⟩ := hstate
  refine ⟨s,hs,hwritten,?_⟩
  rintro ⟨frames,hframes,part,hsplit,hpart⟩
  obtain rfl : part = [] := hpart.resolve_right fun ⟨w,hw,_⟩ => absurd (hwriting.symm.trans hw) nofun
  rw [hwritten,append_nil] at hsplit
  rw [hbegun] at hframes
  cases frames with
  | nil => exact absurd hsplit (by decide +kernel)
  | cons frame frames =>
    -- two opening braces are no start of a frame
    have hframe : frame=pingFrame ∨ frame=syncFrame := by
      simpa using hframes frame mem_cons_self
    have hstart : take 2 (syncFrame.take 1 ++ pingFrame) = take 2 frame := by
      rw [hsplit,flatten_cons,take_append_of_le_length]
      rcases hframe with rfl | rfl <;> decide +kernel
    rcases hframe with rfl | rfl <;> exact absurd hstart (by decide +kernel)

end ControllerClient

end Daimonos.Session
