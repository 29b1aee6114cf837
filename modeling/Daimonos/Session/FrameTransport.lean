import Daimonos.Framework.Decimal

namespace Daimonos.Transport

open Daimonos.Framework List

inductive TransportError where
  | json (error : String)
  | frameTooLarge (maxBytes : Nat)
  | unexpectedEof

def readChunkBytes : Nat := 4096

def newline : UInt8 := 10

def carriageReturn : UInt8 := 13

/-- The read half of a socket: the bytes that are still to come, how many of them each read hands
over if it can, the buffer, and the most bytes the buffer has held. -/
structure UnixReadState where
  stream : List UInt8
  reads : Nat → Nat
  buffer : List UInt8 := []
  peak : Nat := 0

namespace UnixReadState

/-- How many bytes a read into `n` bytes gets: at least one unless the stream has ended. -/
def available (n : Nat) (s : UnixReadState) : Nat :=
  min (max 1 (s.reads 0)) (min n s.stream.length)

def extend (k : Nat) (s : UnixReadState) : UnixReadState :=
  let buffer := s.buffer ++ s.stream.take k
  { stream := s.stream.drop k
    reads := fun i => s.reads (i+1)
    buffer
    peak := max s.peak buffer.length }

theorem available_pos {n : Nat} {s : UnixReadState} (hn : 0<n) (hs : s.stream ≠ []) :
    0 < s.available n := by
  have hlength := length_pos_of_ne_nil hs
  unfold available
  omega

theorem available_le (n : Nat) (s : UnixReadState) :
    s.available n ≤ n ∧ s.available n ≤ s.stream.length := by
  unfold available
  omega

theorem extend_data (k : Nat) (s : UnixReadState) :
    (s.extend k).buffer ++ (s.extend k).stream = s.buffer++s.stream := by
  rw [extend,append_assoc,take_append_drop]

theorem extend_shorter {k : Nat} {s : UnixReadState} (hk : k≠0) (hle : k ≤ s.stream.length) :
    (s.extend k).stream.length < s.stream.length := by
  rw [extend,length_drop]
  omega

end UnixReadState

def readFrame (maxFrameBytes : Nat) (s : UnixReadState) :
    Except TransportError (Option (List UInt8)) × UnixReadState :=
  match s.buffer.idxOf? newline with
  | some position =>
    if position > maxFrameBytes then (.error (.frameTooLarge maxFrameBytes), s)
    else
      let frame := (s.buffer.take (position+1)).dropLast
      let frame := if frame.getLast? = some carriageReturn then frame.dropLast else frame
      (.ok (some frame), { s with buffer := s.buffer.drop (position+1) })
  | none =>
    if s.buffer.length > maxFrameBytes then (.error (.frameTooLarge maxFrameBytes), s)
    else
      let remaining := maxFrameBytes+1-s.buffer.length
      let read := s.available (min remaining readChunkBytes)
      if read=0 then
        if s.buffer.isEmpty then (.ok none, s) else (.error .unexpectedEof, s)
      else readFrame maxFrameBytes (s.extend read)
termination_by s.stream.length
decreasing_by
  exact UnixReadState.extend_shorter (by assumption) (s.available_le _).2

/-- `toVec` is the serializer. -/
def encodeFrame {α : Type} (toVec : α → Except String (List UInt8)) (maxFrameBytes : Nat)
    (message : α) : Except TransportError (List UInt8) :=
  match toVec message with
  | .error error => .error (.json error)
  | .ok frame =>
    if frame.length > maxFrameBytes then .error (.frameTooLarge maxFrameBytes)
    else .ok (frame ++ [newline])

def readFrames (maxFrameBytes : Nat) : Nat → UnixReadState →
    List (Except TransportError (Option (List UInt8))) × UnixReadState
  | 0, s => ([], s)
  | calls+1, s =>
    let (answer, s) := readFrame maxFrameBytes s
    let (answers, s) := readFrames maxFrameBytes calls s
    (answer::answers, s)

section Read

variable {maxFrameBytes : Nat} {s : UnixReadState} {payload rest : List UInt8}

def trimCarriageReturn (frame : List UInt8) : List UInt8 :=
  if frame.getLast? = some carriageReturn then frame.dropLast else frame

theorem idxOf?_newline (hpayload : newline ∉ payload) :
    (payload++newline::rest).idxOf? newline = some payload.length := by
  rw [idxOf?_eq_some_iff]
  refine ⟨by simp,by simp,?_⟩
  intro j hj
  rw [getElem_append_left hj]
  intro heq
  exact hpayload (heq ▸ getElem_mem hj)

theorem readFrame_buffered (hbuffer : s.buffer=payload++newline::rest)
    (hpayload : newline ∉ payload) (hlength : payload.length ≤ maxFrameBytes) :
    readFrame maxFrameBytes s =
      (.ok (some (trimCarriageReturn payload)), { s with buffer := rest }) := by
  have hframe : (s.buffer.take (payload.length+1)).dropLast = payload := by
    rw [hbuffer,take_append,Nat.add_sub_cancel_left]
    simp
  have hrest : s.buffer.drop (payload.length+1) = rest := by
    rw [hbuffer,drop_append,Nat.add_sub_cancel_left]
    simp
  rw [readFrame,hbuffer,idxOf?_newline hpayload]
  dsimp only
  rw [if_neg (Nat.not_lt.mpr hlength),← hbuffer,hframe,hrest]
  rfl

theorem readFrame_overfull (hbuffer : newline ∉ s.buffer)
    (hlength : maxFrameBytes < s.buffer.length) :
    readFrame maxFrameBytes s = (.error (.frameTooLarge maxFrameBytes), s) := by
  rw [readFrame,idxOf?_eq_none_iff.mpr hbuffer]
  rw [if_pos hlength]

theorem readFrame_ended (hbuffer : newline ∉ s.buffer) (hlength : s.buffer.length ≤ maxFrameBytes)
    (hstream : s.stream = []) :
    readFrame maxFrameBytes s =
      (if s.buffer.isEmpty then (.ok none, s) else (.error .unexpectedEof, s)) := by
  have hread : s.available (min (maxFrameBytes+1-s.buffer.length) readChunkBytes) = 0 := by
    simp [UnixReadState.available,hstream]
  rw [readFrame,idxOf?_eq_none_iff.mpr hbuffer]
  dsimp only
  rw [if_neg (Nat.not_lt.mpr hlength),hread,if_pos rfl]

/-- Reading goes on, without a change in what is to come, until a frame is complete, the buffer is
over the limit or the stream has ended; the buffer stays within one byte of the limit. -/
theorem readFrame_settles (hbuffer : s.buffer.length ≤ maxFrameBytes+1)
    (hpeak : s.peak ≤ maxFrameBytes+1) :
    ∃ t, readFrame maxFrameBytes s = readFrame maxFrameBytes t ∧
      t.buffer++t.stream=s.buffer++s.stream ∧
      t.buffer.length ≤ maxFrameBytes+1 ∧ t.peak ≤ maxFrameBytes+1 ∧
      (newline∈t.buffer ∨ maxFrameBytes<t.buffer.length ∨ t.stream = []) := by
  -- Induction on what the stream still has: a read that goes on takes at least one byte of it.
  induction hn : s.stream.length using Nat.strong_induction_on generalizing s with
  | _ n ih =>
    by_cases hsettled : newline∈s.buffer ∨ maxFrameBytes < s.buffer.length ∨ s.stream = []
    · exact ⟨s,rfl,rfl,hbuffer,hpeak,hsettled⟩
    · obtain ⟨hnone,hroom,hstream⟩ : newline ∉ s.buffer ∧ s.buffer.length ≤ maxFrameBytes ∧
          s.stream ≠ [] := by
        rw [not_or,not_or,Nat.not_lt] at hsettled
        exact hsettled
      let room := min (maxFrameBytes+1-s.buffer.length) readChunkBytes
      have hpos : 0 < s.available room := by
        refine UnixReadState.available_pos ?_ hstream
        have hchunk : 0 < readChunkBytes := by decide
        omega
      obtain ⟨hleRoom,hleStream⟩ := s.available_le room
      have hmore : readFrame maxFrameBytes s =
          readFrame maxFrameBytes (s.extend (s.available room)) := by
        rw [readFrame,idxOf?_eq_none_iff.mpr hnone]
        rw [if_neg (Nat.not_lt.mpr hroom),if_neg (Nat.ne_of_gt hpos)]
      have hlength : (s.extend (s.available room)).buffer.length ≤ maxFrameBytes+1 := by
        rw [UnixReadState.extend,length_append,length_take]
        omega
      have hpeak' : (s.extend (s.available room)).peak ≤ maxFrameBytes+1 := max_le hpeak hlength
      obtain ⟨t,hread,hdata,ht⟩ := ih _
        (hn ▸ UnixReadState.extend_shorter (Nat.ne_of_gt hpos) hleStream) hlength hpeak' rfl
      exact ⟨t,hmore.trans hread,hdata.trans (s.extend_data _),ht⟩

theorem readFrame_frame (hbuffer : s.buffer.length ≤ maxFrameBytes+1)
    (hpeak : s.peak ≤ maxFrameBytes+1)
    (hdata : s.buffer++s.stream=payload++newline::rest) (hpayload : newline ∉ payload) :
    if payload.length ≤ maxFrameBytes then
      ∃ t, readFrame maxFrameBytes s = (.ok (some (trimCarriageReturn payload)), t) ∧
        t.buffer++t.stream=rest ∧ t.buffer.length ≤ maxFrameBytes+1 ∧
        t.peak ≤ maxFrameBytes+1
    else
      ∃ t, readFrame maxFrameBytes s = (.error (.frameTooLarge maxFrameBytes), t) ∧
        t.buffer.length ≤ maxFrameBytes+1 ∧ t.peak ≤ maxFrameBytes+1 := by
  obtain ⟨t,hread,hkept,hlength,hpeak,hsettled⟩ := readFrame_settles hbuffer hpeak
  rw [hdata] at hkept
  rw [hread]
  by_cases hin : newline∈t.buffer
  · obtain ⟨before,after,hsplit,hbefore⟩ := eq_append_cons_of_mem hin
    rw [hsplit,append_assoc,cons_append] at hkept
    obtain ⟨rfl,rfl⟩ := delimited_inj hbefore hpayload hkept
    have hfits : before.length ≤ maxFrameBytes := by
      rw [hsplit,length_append,length_cons] at hlength
      omega
    rw [if_pos hfits]
    refine ⟨_,readFrame_buffered hsplit hbefore hfits,rfl,?_,hpeak⟩
    rw [hsplit,length_append,length_cons] at hlength
    show after.length ≤ maxFrameBytes+1
    omega
  · -- Without a newline in it the buffer is a part of the payload, and there is more to come.
    have hpart : t.buffer.length≤payload.length ∧ t.stream ≠ [] := by
      rcases append_eq_append_iff.mp hkept with ⟨more,rfl,hstream⟩ | ⟨more,hmore,hstream⟩
      · rw [hstream]
        simp
      · cases more with
        | nil =>
          rw [append_nil] at hmore
          rw [nil_append] at hstream
          exact ⟨hmore ▸ le_rfl,hstream ▸ cons_ne_nil newline rest⟩
        | cons b more =>
          obtain rfl : newline=b := (List.cons.inj hstream).1
          exact absurd (hmore ▸ mem_append_right payload mem_cons_self) hin
    have hover : maxFrameBytes<t.buffer.length := by
      rcases hsettled with h | h | h
      · exact absurd h hin
      · exact h
      · exact absurd h hpart.2
    rw [if_neg (by omega)]
    exact ⟨t,readFrame_overfull hin hover,hlength,hpeak⟩

theorem readFrame_end (hpeak : s.peak ≤ maxFrameBytes+1) (hdata : s.buffer++s.stream = []) :
    ∃ t, readFrame maxFrameBytes s = (.ok none, t) ∧ t.buffer++t.stream = [] ∧
      t.peak ≤ maxFrameBytes+1 := by
  obtain ⟨hbuffer,hstream⟩ := append_eq_nil_iff.mp hdata
  refine ⟨s,?_,hdata,hpeak⟩
  rw [readFrame_ended (by simp [hbuffer]) (by simp [hbuffer]) hstream,hbuffer]
  rfl

theorem readFrame_bounded (hbuffer : s.buffer.length ≤ maxFrameBytes+1)
    (hpeak : s.peak ≤ maxFrameBytes+1) :
    (readFrame maxFrameBytes s).2.buffer.length ≤ maxFrameBytes+1 ∧
      (readFrame maxFrameBytes s).2.peak ≤ maxFrameBytes+1 := by
  obtain ⟨t,hread,-,hlength,hpeak,hsettled⟩ := readFrame_settles hbuffer hpeak
  rw [hread]
  by_cases hin : newline∈t.buffer
  · obtain ⟨before,after,hsplit,hbefore⟩ := eq_append_cons_of_mem hin
    rw [hsplit,length_append,length_cons] at hlength
    rw [readFrame_buffered hsplit hbefore (by omega)]
    exact ⟨by dsimp only; omega,hpeak⟩
  · by_cases hover : maxFrameBytes<t.buffer.length
    · rw [readFrame_overfull hin hover]
      exact ⟨hlength,hpeak⟩
    · have hstream : t.stream = [] := (hsettled.resolve_left hin).resolve_left hover
      rw [readFrame_ended hin (Nat.not_lt.mp hover) hstream]
      split_ifs <;> exact ⟨hlength,hpeak⟩

end Read

section Frames

variable {α : Type} {toVec : α → Except String (List UInt8)} {maxFrameBytes : Nat}

theorem encodeFrame_tooLarge_iff {message : α} {payload : List UInt8}
    (hpayload : toVec message = .ok payload) :
    encodeFrame toVec maxFrameBytes message = .error (.frameTooLarge maxFrameBytes) ↔
      maxFrameBytes<payload.length := by
  rw [encodeFrame,hpayload]
  dsimp only
  split_ifs with hlength
  · exact ⟨fun _ => hlength,fun _ => rfl⟩
  · exact ⟨fun h => (by cases h),fun h => absurd h hlength⟩

theorem readFrame_tooLarge_iff {s : UnixReadState} {payload rest : List UInt8}
    (hbuffer : s.buffer.length ≤ maxFrameBytes+1) (hpeak : s.peak ≤ maxFrameBytes+1)
    (hdata : s.buffer++s.stream=payload++newline::rest) (hpayload : newline ∉ payload) :
    (readFrame maxFrameBytes s).1 = .error (.frameTooLarge maxFrameBytes) ↔
      maxFrameBytes<payload.length := by
  have hframe := readFrame_frame hbuffer hpeak hdata hpayload
  split_ifs at hframe with hfits
  · obtain ⟨t,hread,-⟩ := hframe
    rw [hread]
    exact ⟨fun h => (by cases h),fun h => absurd hfits (Nat.not_le.mpr h)⟩
  · obtain ⟨t,hread,-⟩ := hframe
    rw [hread]
    exact ⟨fun _ => Nat.not_le.mp hfits,fun _ => rfl⟩

theorem readFrames_payloads {payloads : List (List UInt8)}
    (hfit : ∀ p∈payloads, p.length ≤ maxFrameBytes)
    (hclean : ∀ p∈payloads, newline ∉ p ∧ p.getLast? ≠ some carriageReturn) (extra : Nat)
    {s : UnixReadState} (hbuffer : s.buffer.length ≤ maxFrameBytes+1)
    (hpeak : s.peak ≤ maxFrameBytes+1)
    (hdata : s.buffer++s.stream = payloads.flatMap fun p => p ++ [newline]) :
    (readFrames maxFrameBytes (payloads.length+extra) s).1 =
      payloads.map (fun p => .ok (some p)) ++ List.replicate extra (.ok none) := by
  induction payloads generalizing s with
  | nil =>
    rw [length_nil,Nat.zero_add,map_nil,nil_append]
    clear hfit hclean hbuffer
    induction extra generalizing s with
    | zero => rfl
    | succ extra ih =>
      obtain ⟨t,hread,hdata,hpeak⟩ := readFrame_end hpeak hdata
      rw [readFrames,hread,replicate_succ,← ih hpeak hdata]
  | cons p payloads ih =>
    obtain ⟨hnone,hreturn⟩ := hclean p mem_cons_self
    rw [flatMap_cons,append_assoc,singleton_append] at hdata
    have hframe := readFrame_frame hbuffer hpeak hdata hnone
    rw [if_pos (hfit p mem_cons_self)] at hframe
    obtain ⟨t,hread,hrest,hbuffer,hpeak⟩ := hframe
    have htrim : trimCarriageReturn p = p := if_neg hreturn
    have ih' := ih (fun q hq => hfit q (mem_cons_of_mem p hq))
      (fun q hq => hclean q (mem_cons_of_mem p hq)) hbuffer hpeak hrest
    rw [length_cons,Nat.add_right_comm,readFrames,hread,htrim,map_cons,cons_append,← ih']

theorem readFrames_bounded (maxFrameBytes calls : Nat) (s : UnixReadState)
    (hbuffer : s.buffer.length ≤ maxFrameBytes+1) (hpeak : s.peak ≤ maxFrameBytes+1) :
    (readFrames maxFrameBytes calls s).2.buffer.length ≤ maxFrameBytes+1 ∧
      (readFrames maxFrameBytes calls s).2.peak ≤ maxFrameBytes+1 := by
  induction calls generalizing s with
  | zero => exact ⟨hbuffer,hpeak⟩
  | succ calls ih =>
    obtain ⟨hbuffer,hpeak⟩ := readFrame_bounded hbuffer hpeak
    exact ih _ hbuffer hpeak

/-- Messages whose encodings fit are sent as frames that come back as those encodings, however the
stream is split into reads, and then the end of the stream. A frame is refused as too large, when
written and when read, exactly if its payload is over the limit. The buffer never holds more than
one byte over the limit. -/
theorem frames_roundTrip {messages : List α} {payloads : List (List UInt8)}
    (hpayloads : messages.map toVec = payloads.map .ok)
    (hfit : ∀ p∈payloads, p.length ≤ maxFrameBytes)
    (hclean : ∀ p∈payloads, newline ∉ p ∧ p.getLast? ≠ some carriageReturn) :
    (∃ frames : List (List UInt8), messages.map (encodeFrame toVec maxFrameBytes) = frames.map .ok ∧
      ∀ (reads : Nat → Nat) (extra : Nat),
        (readFrames maxFrameBytes (messages.length+extra) { stream := frames.flatten, reads }).1 =
          payloads.map (fun p => .ok (some p)) ++ List.replicate extra (.ok none)) ∧
    (∀ message payload, toVec message = .ok payload →
      (encodeFrame toVec maxFrameBytes message = .error (.frameTooLarge maxFrameBytes) ↔
        maxFrameBytes<payload.length)) ∧
    ∀ (stream : List UInt8) (reads : Nat → Nat) (calls : Nat),
      (readFrames maxFrameBytes calls { stream, reads }).2.peak ≤ maxFrameBytes+1 ∧
      ∀ payload rest, newline ∉ payload →
        (readFrames maxFrameBytes calls { stream, reads }).2.buffer ++
          (readFrames maxFrameBytes calls { stream, reads }).2.stream =
            payload++newline::rest →
        ((readFrame maxFrameBytes (readFrames maxFrameBytes calls { stream, reads }).2).1 =
            .error (.frameTooLarge maxFrameBytes) ↔ maxFrameBytes<payload.length) := by
  refine ⟨⟨payloads.map fun p => p ++ [newline],?_,?_⟩,?_,?_⟩
  · apply ext_getElem
    · simpa using congrArg List.length hpayloads
    · intro i hi hi'
      simp only [length_map] at hi hi'
      have hpayload : toVec messages[i] = .ok payloads[i] := by
        have hget := getElem_of_eq hpayloads (by simpa using hi)
        simpa using hget
      have hlength := hfit payloads[i] (getElem_mem hi')
      simp [encodeFrame,hpayload,hlength]
  · intro reads extra
    have hlength : messages.length = payloads.length := by
      simpa using congrArg List.length hpayloads
    rw [hlength]
    refine readFrames_payloads hfit hclean extra (Nat.zero_le _) (Nat.zero_le _) ?_
    rw [nil_append,flatMap_def]
  · intro message payload hpayload
    exact encodeFrame_tooLarge_iff hpayload
  · intro stream reads calls
    obtain ⟨hbuffer,hpeak⟩ := readFrames_bounded maxFrameBytes calls { stream, reads }
      (Nat.zero_le _) (Nat.zero_le _)
    exact ⟨hpeak,fun payload rest hpayload hdata =>
      readFrame_tooLarge_iff hbuffer hpeak hdata hpayload⟩

/-- An empty object and `[1]` under a limit of three bytes. -/
theorem frames_roundTrip_twoFrames :
    ∃ frames : List (List UInt8),
      [[123, 125], [91, 49, 93]].map (encodeFrame .ok 3) = frames.map .ok ∧
      ∀ (reads : Nat → Nat) (extra : Nat),
        (readFrames 3 ([[123, 125], [91, 49, 93]].length + extra)
          { stream := frames.flatten, reads }).1 =
          [[123, 125], [91, 49, 93]].map (fun p => .ok (some p)) ++
            List.replicate extra (.ok none) := by
  have hfit : ∀ p ∈ ([[123, 125], [91, 49, 93]] : List (List UInt8)), p.length≤3 := by decide
  have hclean : ∀ p ∈ ([[123, 125], [91, 49, 93]] : List (List UInt8)),
      newline ∉ p ∧ p.getLast? ≠ some carriageReturn := by decide
  exact (frames_roundTrip rfl hfit hclean).1

end Frames

end Daimonos.Transport
