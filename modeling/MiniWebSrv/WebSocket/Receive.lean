import MiniWebSrv.Lib.Run
import MiniWebSrv.WebSocket.Fragments

/-! # Receiving frames

The bytes of a stream of frames arrive in pieces. Each `OnRead` processes the frame in
front of the read buffer when it is complete, and never more than this one, so the
connection keeps up with the peer only if no piece completes two frames at once, or if
enough pieces follow.
-/

namespace MiniWebSrv.WebSocket.Connection

open Word Run

/-! ## The frame in front -/

section Front

variable {c : Connection} {f : Frame} {rest : List Byte}

/-- The bytes received begin with the frame. -/
def Front (c : Connection) (f : Frame) (rest : List Byte) : Prop :=
  c.readBuff.available = f.encode ++ rest

theorem Front.first (front : Front c f rest) :
    c.readBuff.mem c.readBuff.readBuff c.readBuff.readPos = f.first := by
  have byte := c.readBuff.available_getElem (i := 0) (by rw [front]; simp [Frame.encode])
  rw [Nat.add_zero] at byte
  rw [byte]
  simp only [show c.readBuff.available = f.encode ++ rest from front, Frame.encode,
    List.cons_append, List.getElem_cons_zero]

theorem second_of_start (more : List Byte) (pre : c.readBuff.available <+: f.encode ++ more)
    (two : 2 ≤ c.readBuff.available.length) :
    c.readBuff.mem c.readBuff.readBuff (c.readBuff.readPos + 1) = f.second := by
  rw [c.readBuff.available_getElem (i := 1) (by omega), pre.getElem (by omega)]
  simp [Frame.encode]

theorem determineLength_of_start (valid : f.Valid) {more : List Byte}
    (pre : c.readBuff.available <+: f.encode ++ more) {length : Nat}
    (found : determineLength c.readBuff.mem c.readBuff.getAvailableData.1
      c.readBuff.getAvailableData.2 = .known length) : length = f.encode.length := by
  have available : c.readBuff.getAvailableData.2 = c.readBuff.available.length :=
    (c.readBuff.available_length).symm
  have small := valid.encode_lt
  rw [Frame.encode_length] at small
  simp only [determineLength, available] at found
  by_cases two : c.readBuff.available.length < 2
  · simp only [if_pos two, reduceCtorEq] at found
  have second : c.readBuff.mem c.readBuff.getAvailableData.1.block
      (c.readBuff.getAvailableData.1.off + 1) = f.second := second_of_start more pre (by omega)
  simp only [if_neg two, second, valid.marker, if_pos valid.masks] at found
  rw [Frame.encode_length, Frame.headLength]
  cases wide : f.wide with
  | false =>
      have number := (valid.short_length wide).2
      have less := valid.short_marker wide
      simp only [wide, Bool.false_eq_true, if_false, if_pos less, FrameLength.known.injEq, number,
        u64] at found ⊢
      omega
  | true =>
      simp only [wide, if_true, show ¬ (126 : Byte) < 126 by decide, if_false] at found
      by_cases four : c.readBuff.available.length < 2 + 2
      · simp only [if_pos four, reduceCtorEq] at found
      have bytes : c.readBuff.mem.read (c.readBuff.getAvailableData.1.add 2) 2 = f.lengthField := by
        have read := c.readBuff.available_read (i := 2) (n := 2) (by omega)
        rw [List.prefix_iff_eq_take.mp pre] at read
        rw [show c.readBuff.getAvailableData.1.add 2 = c.readBuff.at_ (c.readBuff.readPos + 2) from rfl,
          read, List.drop_take, List.take_take]
        simp only [Frame.encode, List.drop_succ_cons, List.drop_zero, List.cons_append, Frame.lengthField,
          wide, if_true]
        rw [show min 2 (c.readBuff.available.length - 2) = 2 by omega]
        rfl
      simp only [if_neg four, FrameLength.known.injEq, readBig16, bytes, valid.wide_length wide,
        u64] at found
      simp only [if_true] at small ⊢
      omega

theorem determineLength_of_front (valid : f.Valid) (front : Front c f rest) :
    determineLength c.readBuff.mem c.readBuff.getAvailableData.1
      c.readBuff.getAvailableData.2 = .known f.encode.length := by
  cases found : determineLength c.readBuff.mem c.readBuff.getAvailableData.1
      c.readBuff.getAvailableData.2 with
  | known length =>
      have pre : c.readBuff.available <+: f.encode ++ rest := front ▸ List.prefix_rfl
      rw [determineLength_of_start valid pre found]
  | wanted n =>
      -- there are at least six bytes, eight with a 16-bit length
      have long : f.encode.length ≤ c.readBuff.available.length := by
        rw [front, List.length_append]
        exact Nat.le_add_right _ _
      rw [Frame.encode_length, Frame.headLength] at long
      have available : c.readBuff.getAvailableData.2 = c.readBuff.available.length :=
        (c.readBuff.available_length).symm
      have second : c.readBuff.mem c.readBuff.getAvailableData.1.block
          (c.readBuff.getAvailableData.1.off + 1) = f.second :=
        second_of_start rest (front ▸ List.prefix_rfl) (by omega)
      simp only [determineLength, available, second, valid.marker] at found
      rw [if_neg (by omega)] at found
      cases wide : f.wide with
      | false =>
          have less := valid.short_marker wide
          simp only [wide, Bool.false_eq_true, if_false, if_pos less, reduceCtorEq] at found
      | true =>
          simp only [wide, if_true] at long
          simp only [wide, if_true, show ¬ (126 : Byte) < 126 by decide, if_false] at found
          rw [if_neg (by omega)] at found
          exact absurd found (by simp)

/-- The pointer to the payload of the frame in front. -/
def payloadPtr (c : Connection) (f : Frame) : Ptr Nat :=
  c.readBuff.at_ (c.readBuff.readPos + (f.headLength + 4))

theorem frameHeader_of_front (valid : f.Valid) (front : Front c f rest) :
    frameHeader c.readBuff.mem c.readBuff.getAvailableData.1 f.encode.length =
      { isFin := f.isFin, isMask := true, opCode := f.opCode,
        maskPos := c.readBuff.at_ (c.readBuff.readPos + f.headLength),
        payload := c.payloadPtr f, length := f.payload.length } := by
  have long : 2 ≤ c.readBuff.available.length := by
    rw [front, List.length_append, Frame.encode_length]
    omega
  have first : c.readBuff.mem c.readBuff.getAvailableData.1.block c.readBuff.getAvailableData.1.off =
      f.first := front.first
  have second : c.readBuff.mem c.readBuff.getAvailableData.1.block
      (c.readBuff.getAvailableData.1.off + 1) = f.second :=
    second_of_start rest (front ▸ List.prefix_rfl) long
  have head : headerLength f.second = f.headLength := by
    simp only [headerLength, valid.marker, Frame.headLength]
    cases wide : f.wide with
    | true => rfl
    | false =>
        obtain ⟨lt, number⟩ := valid.short_length wide
        have less : f.payload.length.toUInt8 < 126 := by
          rw [UInt8.lt_iff_toNat_lt, number]
          exact lt
        simp only [Bool.false_eq_true, if_false, if_pos less]
  have small := valid.encode_lt
  have masks : decide (f.second &&& flagMask ≠ 0) = true := decide_eq_true valid.masks
  have distance : sub32 f.encode.length (f.headLength + 4) = f.payload.length := by
    rw [sub32_of_le (by rw [Frame.encode_length]; omega) (by simp only [size32]; omega),
      Frame.encode_length]
    omega
  simp only [frameHeader, first, second, head, masks, if_true, valid.fin, valid.op,
    FrameHeader.mk.injEq, true_and]
  refine ⟨rfl, by rw [Ptr.add_add]; rfl, ?_⟩
  simp only [Ptr.add_off, Nat.add_assoc, Nat.add_sub_cancel_left]
  exact distance

/-- The bytes of the frame in front, and those behind it. -/
theorem Front.drop (front : Front c f rest) (n : Nat) (le : n ≤ f.encode.length) :
    c.readBuff.available.drop n = f.encode.drop n ++ rest := by
  rw [front, List.drop_append_of_le_length le]

theorem maskKeyAt_of_front (front : Front c f rest) :
    maskKeyAt c.readBuff.mem (c.readBuff.at_ (c.readBuff.readPos + f.headLength)) =
      Bits.load32 f.key.1 f.key.2.1 f.key.2.2.1 f.key.2.2.2 := by
  have long : f.headLength + 4 ≤ c.readBuff.available.length := by
    rw [front, List.length_append, Frame.encode_length]
    omega
  have bytes := c.readBuff.available_read long
  rw [front.drop f.headLength (by rw [Frame.encode_length]; omega)] at bytes
  have key : (f.encode.drop f.headLength ++ rest).take 4 = f.keyBytes := by
    cases wide : f.wide <;>
      simp [Frame.encode, Frame.headLength, Frame.lengthField, Frame.keyBytes, wide]
  rw [key] at bytes
  simp only [Mem.read, Frame.keyBytes, List.cons.injEq, Ptr.add_block, Ptr.add_off] at bytes
  obtain ⟨byte0, byte1, byte2, byte3, -⟩ := bytes
  simp only [maskKeyAt]
  exact congr (congr (congr (congrArg Bits.load32 byte0) byte1) byte2) byte3

theorem payload_of_front (front : Front c f rest) :
    c.readBuff.mem.read (c.payloadPtr f) f.payload.length = WireFrame.masked f.key f.payload := by
  have long : f.headLength + 4 + f.payload.length ≤ c.readBuff.available.length := by
    rw [front, List.length_append, Frame.encode_length]
    omega
  have bytes := c.readBuff.available_read long
  rw [front.drop (f.headLength + 4) (by rw [Frame.encode_length]; omega)] at bytes
  rw [payloadPtr, bytes]
  have masked : f.encode.drop (f.headLength + 4) = WireFrame.masked f.key f.payload := by
    cases wide : f.wide <;>
      simp [Frame.encode, Frame.headLength, Frame.lengthField, Frame.keyBytes, wide]
  rw [masked, List.take_left' (WireFrame.masked_length _ _)]

end Front

/-! ## Processing -/

/-- The connection has delivered the messages `ms`, keeps the fragments of `p`, and goes on. -/
structure Delivered (c : Connection) (p : Partial) (ms : List (MessageType × List Byte)) : Prop where
  keeps : Keeps c p
  calls : c.calls = ms.map fun m => (.onMessage m.1 m.2, true)
  handler : c.myHandler = true
  queue : c.writeBuff.Idle

/-- The messages of a valid frame are made up by the rules. -/
theorem rule_of_next {f : Frame} {p p' : Partial} {new : List (MessageType × List Byte)}
    (valid : f.Valid) (next : f.next p = some (p', new)) :
    Rule p f.isFin f.opCode f.payload p' new := by
  by_cases control : f.isControl
  · simp only [Frame.next, control, if_true, Option.some.injEq, Prod.mk.injEq] at next
    obtain ⟨rfl, rfl⟩ := next
    have named : f.opCode = OpCode.ping ∨ f.opCode = OpCode.pong := by
      have all : ∀ op ∈ [OpCode.continuation, OpCode.text, OpCode.binary, OpCode.ping, OpCode.pong],
          ¬ op < OpCode.controlBegin → op = OpCode.ping ∨ op = OpCode.pong := by
        decide +kernel
      exact all f.opCode valid.opCode (by simpa [Frame.isControl] using control)
    rw [(valid.control control).1]
    exact .control named
  have data : f.opCode < OpCode.controlBegin := by simpa [Frame.isControl] using control
  simp only [Frame.next, control, Bool.false_eq_true, if_false] at next
  cases p with
  | some open_ =>
      obtain ⟨type, prior⟩ := open_
      by_cases continues : f.opCode = OpCode.continuation ∧
          prior.length + f.payload.length ≤ Config.maxFragmentedSize
      case neg => simp [continues] at next
      simp only [if_pos continues] at next
      rw [continues.1]
      cases fin : f.isFin with
      | true =>
          simp only [fin, if_true, Option.some.injEq, Prod.mk.injEq] at next
          obtain ⟨rfl, rfl⟩ := next
          exact .last continues.2
      | false =>
          simp only [fin, Bool.false_eq_true, if_false, Option.some.injEq, Prod.mk.injEq] at next
          obtain ⟨rfl, rfl⟩ := next
          exact .middle continues.2
  | none =>
      by_cases isFirst : f.opCode = OpCode.continuation
      case pos => simp [isFirst] at next
      simp only [if_neg isFirst] at next
      cases fin : f.isFin with
      | true =>
          simp only [fin, if_true, Option.some.injEq, Prod.mk.injEq] at next
          obtain ⟨rfl, rfl⟩ := next
          exact .single data isFirst
      | false =>
          simp only [fin, Bool.false_eq_true, if_false, Option.some.injEq, Prod.mk.injEq] at next
          obtain ⟨rfl, rfl⟩ := next
          exact .first data isFirst

theorem processPayload_next {c : Connection} {f : Frame} {payload : Ptr Nat} {p p' : Partial}
    {ms new : List (MessageType × List Byte)} (valid : f.Valid) (next : f.next p = some (p', new))
    (delivered : Delivered c p ms)
    (inside : payload.off + f.payload.length ≤ c.readBuff.buffLength)
    (bytes : c.readBuff.mem.read payload f.payload.length = f.payload) :
    ∃ c', c.processPayload f.isFin f.opCode payload f.payload.length = some (CloseReason.none, c') ∧
      c'.readBuff = c.readBuff ∧ c'.currFrameLength = c.currFrameLength ∧
      Delivered c' p' (ms ++ new) := by
  obtain ⟨keeps, calls, handler, queue⟩ := delivered
  obtain ⟨d, processed, settled, kept, more⟩ :=
    processPayload_follows (rule_of_next valid next) keeps queue inside bytes
  refine ⟨d, processed, settled.readBuff, settled.length, kept, ?_, settled.handler.trans handler,
    settled.queue⟩
  rw [more, calls, handler, List.map_append]

/-- The length of the frame in front is remembered, or determined from its first bytes. -/
theorem frameLength_of_front {c : Connection} {f : Frame} {rest : List Byte} (valid : f.Valid)
    (front : Front c f rest)
    (length : c.currFrameLength = unknownFrameLength ∨ c.currFrameLength = f.encode.length) :
    c.frameLength = .known f.encode.length := by
  have small := valid.encode_lt
  rcases length with unknown | known
  · simp only [frameLength, if_pos unknown]
    exact determineLength_of_front valid front
  · have other : ¬ c.currFrameLength = unknownFrameLength := by
      simp only [known, unknownFrameLength]
      omega
    rw [frameLength, if_neg other, known]

theorem processIncoming_front {c : Connection} {f : Frame} {rest : List Byte} {p p' : Partial}
    {ms new : List (MessageType × List Byte)} (valid : f.Valid) (h : c.readBuff.Valid)
    (front : Front c f rest)
    (length : c.currFrameLength = unknownFrameLength ∨ c.currFrameLength = f.encode.length)
    (next : f.next p = some (p', new)) (delivered : Delivered c p ms) :
    ∃ c', c.processIncoming = some (CloseReason.none, c') ∧ c'.readBuff.Valid ∧
      c'.readBuff.available = rest ∧ c'.currFrameLength = unknownFrameLength ∧
      Delivered c' p' (ms ++ new) := by
  have small := valid.encode_lt
  have known := frameLength_of_front valid front length
  have available : f.encode.length + rest.length = c.readBuff.dataEndPos - c.readBuff.readPos := by
    have := c.readBuff.available_length
    rw [front, List.length_append] at this
    exact this
  have sizes := Frame.encode_length f
  have dataEnd := h.inside
  -- the connection with the payload unmasked in place
  let b : StreamReadBuff Config.readBuffSize :=
    { c.readBuff with mem := c.readBuff.mem.write (c.payloadPtr f) f.payload }
  let d : Connection := { c with currFrameLength := f.encode.length, readBuff := b }
  have validB : b.Valid := ⟨h.relevant, h.data, h.inside, h.block⟩
  have inside : (c.payloadPtr f).off + f.payload.length ≤ c.readBuff.buffLength := by
    simp only [payloadPtr, StreamReadBuff.at_]
    omega
  obtain ⟨e, processed, buffer, -, done⟩ := processPayload_next (c := d) valid next
    ⟨by cases p <;> exact delivered.keeps, delivered.calls, delivered.handler, delivered.queue⟩
    inside (Mem.read_write_self _ _ _)
  have frame : processFrame { c with currFrameLength := f.encode.length }
      c.readBuff.getAvailableData.1 f.encode.length = some (CloseReason.none, e) := by
    simp only [processFrame, frameHeader_of_front valid front, if_true, if_pos inside,
      maskKeyAt_of_front front, payload_of_front front, unmask_eq, WireFrame.masked_masked]
    exact processed
  refine ⟨{ e with
    readBuff := (e.readBuff.consume f.encode.length false).2
    currFrameLength := unknownFrameLength }, ?_, ?_, ?_, rfl, ?_⟩
  · have fits : ¬ Config.maxFrameSize < f.encode.length := by
      simp only [Config.maxFrameSize]
      omega
    have all : ¬ c.readBuff.getAvailableData.2 < f.encode.length := by
      simp only [StreamReadBuff.getAvailableData, StreamReadBuff.getAvailableDataLength]
      omega
    simp only [processIncoming, known, if_neg fits, if_neg all, frame, bind, Option.bind_some]
  · rw [buffer]
    exact StreamReadBuff.consume_valid validB _ _
  · have le : f.encode.length ≤ b.getAvailableDataLength := by
      simp only [b, StreamReadBuff.getAvailableDataLength]
      omega
    rw [buffer]
    change (b.consume f.encode.length false).2.available = rest
    rw [StreamReadBuff.consume_available validB false le]
    have kept := c.readBuff.available_drop_write (f.headLength + 4) f.payload
      (n := f.encode.length) (by omega) le
    have same : b.available.drop f.encode.length = c.readBuff.available.drop f.encode.length := kept
    rw [same, front.drop _ (Nat.le_refl _), List.drop_length, List.nil_append]
  · exact ⟨by cases p' <;> exact done.keeps, done.calls, done.handler, done.queue⟩

/-- The length which the connection asks the read buffer for, when the frame in front is not
    complete. -/
def asks (c : Connection) : Option Nat :=
  match c.frameLength with
  | .wanted length => some length
  | .known length => if c.readBuff.getAvailableData.2 < length then some length else none

theorem wanted_le {mem : Mem Nat Byte} {p : Ptr Nat} {length n : Nat}
    (found : determineLength mem p length = .wanted n) : n ≤ 10 := by
  simp only [determineLength] at found
  split_ifs at found <;> simp_all <;> omega

/-- The frame in front is not complete: the connection asks for more bytes, and for as many as
    the frame has, once it knows. -/
theorem asks_of_start {c : Connection} {f : Frame} {more : List Byte} (valid : f.Valid)
    (pre : c.readBuff.available <+: f.encode ++ more)
    (incomplete : c.readBuff.available.length < f.encode.length)
    (length : c.currFrameLength = unknownFrameLength ∨ c.currFrameLength = f.encode.length) :
    ∃ n, c.asks = some n ∧ n ≤ Config.maxFrameSize ∧
      (c.frameLength = .known n → n = f.encode.length) := by
  have small := valid.encode_lt
  have available : c.readBuff.getAvailableData.2 = c.readBuff.available.length :=
    (c.readBuff.available_length).symm
  rcases length with unknown | known
  · cases found : c.frameLength with
    | wanted n =>
        have le : n ≤ 10 := by
          simp only [frameLength, if_pos unknown] at found
          exact wanted_le found
        refine ⟨n, by simp only [asks, found], ?_, by simp⟩
        simp only [Config.maxFrameSize]
        omega
    | known n =>
        have same : n = f.encode.length := by
          simp only [frameLength, if_pos unknown] at found
          exact determineLength_of_start valid pre found
        subst same
        refine ⟨_, by simp only [asks, found, available, if_pos incomplete], ?_, fun _ => rfl⟩
        simp only [Config.maxFrameSize]
        omega
  · have other : ¬ c.currFrameLength = unknownFrameLength := by
      simp only [known, unknownFrameLength]
      omega
    have found : c.frameLength = .known f.encode.length := by rw [frameLength, if_neg other, known]
    refine ⟨_, by simp only [asks, found, available, if_pos incomplete], ?_, fun _ => rfl⟩
    simp only [Config.maxFrameSize]
    omega

theorem processIncoming_asks {c : Connection} {n : Nat} (asks : c.asks = some n)
    (small : n ≤ Config.maxFrameSize) :
    c.processIncoming = (c.readBuff.requestData n).map fun b => (CloseReason.none, { c with
      readBuff := b.2
      currFrameLength := if c.frameLength = .known n then n else c.currFrameLength }) := by
  cases found : c.frameLength with
  | wanted m =>
      simp only [Connection.asks, found, Option.some.injEq] at asks
      subst asks
      simp only [processIncoming, found, awaitData, reduceCtorEq, if_false]
      cases c.readBuff.requestData m <;> rfl
  | known m =>
      simp only [Connection.asks, found] at asks
      split at asks
      · rename_i short
        obtain rfl := Option.some.inj asks
        simp only [processIncoming, found, if_neg (Nat.not_lt.mpr small), if_pos short, awaitData,
          if_true]
        cases c.readBuff.requestData m <;> rfl
      · simp at asks

/-! ## Streams -/

/-- The number of frames which are complete in the first `n` bytes of a stream. -/
def complete : List Frame → Nat → Nat
  | [], _ => 0
  | f :: rest, n =>
      if f.encode.length ≤ n then complete rest (n - f.encode.length) + 1 else 0

theorem complete_le (frames : List Frame) (n : Nat) : complete frames n ≤ frames.length := by
  induction frames generalizing n with
  | nil => exact Nat.le_refl _
  | cons f rest ih =>
      simp only [complete, List.length_cons]
      split
      · exact Nat.succ_le_succ (ih _)
      · exact Nat.zero_le _

theorem lt_complete_iff {frames : List Frame} {k n : Nat} (inside : k < frames.length) :
    k < complete frames n ↔ ((frames.take (k + 1)).flatMap Frame.encode).length ≤ n := by
  induction frames generalizing k n with
  | nil => simp at inside
  | cons f rest ih =>
      simp only [complete, List.take_succ_cons, List.flatMap_cons, List.length_append]
      by_cases fits : f.encode.length ≤ n
      · rw [if_pos fits]
        cases k with
        | zero => simp [fits]
        | succ k =>
            rw [Nat.succ_lt_succ_iff, ih (by simpa using inside)]
            omega
      · rw [if_neg fits]
        omega

theorem complete_mono (frames : List Frame) {m n : Nat} (le : m ≤ n) :
    complete frames m ≤ complete frames n := by
  induction frames generalizing m n with
  | nil => exact Nat.le_refl _
  | cons f rest ih =>
      simp only [complete]
      split
      · rw [if_pos (by omega)]
        exact Nat.succ_le_succ (ih (by omega))
      · exact Nat.zero_le _

/-- The connection has received the bytes `got` of the stream and has processed its first `done`
    frames. -/
structure Receiving (frames : List Frame) (done : Nat) (got : List Byte) (c : Connection) : Prop where
  valid : c.readBuff.Valid
  le : done ≤ frames.length
  stream : got <+: frames.flatMap Frame.encode
  split : (frames.take done).flatMap Frame.encode ++ c.readBuff.available = got
  length : c.currFrameLength = unknownFrameLength ∨
    ∃ f rest, frames.drop done = f :: rest ∧ c.currFrameLength = f.encode.length
  delivered : ∃ p ms, messages none (frames.take done) = some (p, ms) ∧ Delivered c p ms

namespace Receiving

variable {frames : List Frame} {done : Nat} {got : List Byte} {c : Connection}

/-- The bytes in the buffer begin the frames which have not been processed. -/
theorem pre (h : Receiving frames done got c) :
    c.readBuff.available <+: (frames.drop done).flatMap Frame.encode := by
  have stream := h.stream
  rw [← h.split, ← List.take_append_drop done frames, List.flatMap_append,
    List.take_append_drop] at stream
  exact (List.prefix_append_right_inj _).mp stream

theorem length_got (h : Receiving frames done got c) :
    got.length = ((frames.take done).flatMap Frame.encode).length + c.readBuff.available.length := by
  rw [← h.split, List.length_append]

theorem done_le (h : Receiving frames done got c) : done ≤ complete frames got.length := by
  cases done with
  | zero => exact Nat.zero_le _
  | succ k =>
      refine (lt_complete_iff (Nat.lt_of_succ_le h.le)).mpr ?_
      rw [h.length_got]
      exact Nat.le_add_right _ _

/-- The next frame is complete when it is in the buffer as a whole. -/
theorem next_complete (h : Receiving frames done got c) {f : Frame} {rest : List Frame}
    (next : frames.drop done = f :: rest) :
    done < complete frames got.length ↔ f.encode.length ≤ c.readBuff.available.length := by
  have inside : done < frames.length := by
    have := congrArg List.length next
    simp only [List.length_drop, List.length_cons] at this
    omega
  have taken : frames.take (done + 1) = frames.take done ++ [f] := by
    rw [List.take_add, next]
    rfl
  rw [lt_complete_iff inside, taken, List.flatMap_append, List.length_append, h.length_got]
  simp only [List.flatMap_cons, List.flatMap_nil, List.append_nil]
  omega

theorem all_done (h : Receiving frames done got c) (none_ : frames.drop done = []) :
    c.readBuff.available = [] ∧ c.currFrameLength = unknownFrameLength := by
  constructor
  · have pre := h.pre
    rw [none_] at pre
    exact List.prefix_nil.mp pre
  · rcases h.length with unknown | ⟨f, rest, next, -⟩
    · exact unknown
    · simp [none_] at next

theorem wanted_of_none (h : Receiving frames done got c) (none_ : frames.drop done = []) :
    c.frameLength = .wanted 2 := by
  obtain ⟨empty, unknown⟩ := h.all_done none_
  have nothing : c.readBuff.getAvailableData.2 = 0 := by
    have length := c.readBuff.available_length
    rw [empty] at length
    exact length.symm
  simp only [frameLength, if_pos unknown, determineLength, nothing, Nat.zero_lt_two, if_true]

theorem front_of_next (h : Receiving frames done got c) {f : Frame} {rest : List Frame}
    (next : frames.drop done = f :: rest)
    (whole : f.encode.length ≤ c.readBuff.available.length) : ∃ tail, Front c f tail := by
  have pre := h.pre
  rw [next, List.flatMap_cons] at pre
  obtain ⟨tail, front⟩ : f.encode <+: c.readBuff.available :=
    List.prefix_of_prefix_length_le (List.prefix_append _ _) pre whole
  exact ⟨tail, front.symm⟩

theorem length_of_next (h : Receiving frames done got c) {f : Frame} {rest : List Frame}
    (next : frames.drop done = f :: rest) :
    c.currFrameLength = unknownFrameLength ∨ c.currFrameLength = f.encode.length := by
  rcases h.length with unknown | ⟨f', rest', next', known⟩
  · exact Or.inl unknown
  · rw [next] at next'
    exact Or.inr ((List.cons.inj next').1 ▸ known)

end Receiving

/-! ## Reads -/

/-- A read gets no more bytes than it has room for. -/
def Fits (c : Connection) : Event → Prop
  | .onRead (some data) => data.length ≤ c.readBuff.freeLength
  | _ => True

instance (c : Connection) (e : Event) : Decidable (Fits c e) := by
  unfold Fits
  split <;> infer_instance

/-- The request for the missing bytes does not wrap around. -/
def Requestable (c : Connection) : Event → Prop
  | .onRead (some data) => ∀ n ∈ (c.received data).asks,
      ((c.received data).readBuff.requestData n).isSome
  | _ => True

/-- The bytes are in the buffer, and nothing else has changed. -/
theorem Receiving.received {frames : List Frame} {done : Nat} {got data : List Byte}
    {c : Connection} (h : Receiving frames done got c)
    (stream : got ++ data <+: frames.flatMap Frame.encode) (fits : Fits c (.onRead (some data))) :
    Receiving frames done (got ++ data) (c.received data) := by
  obtain ⟨p, ms, before, delivered⟩ := h.delivered
  refine ⟨StreamReadBuff.receive_valid h.valid fits, h.le, stream, ?_, h.length, p, ms, before,
    by cases p <;> exact delivered.keeps, delivered.calls, delivered.handler, delivered.queue⟩
  rw [show (c.received data).readBuff.available = c.readBuff.available ++ data from
    StreamReadBuff.receive_available h.valid fits, ← List.append_assoc, h.split]

theorem Receiving.asks_small {frames : List Frame} (valid : ValidStream frames) {done : Nat}
    {got : List Byte} {c : Connection} (h : Receiving frames done got c) {n : Nat}
    (asks : c.asks = some n) : n ≤ Config.maxFrameSize := by
  cases next : frames.drop done with
  | nil =>
      simp only [Connection.asks, h.wanted_of_none next, Option.some.injEq] at asks
      simp only [Config.maxFrameSize]
      omega
  | cons f rest =>
      have validF := valid.valid f (List.mem_of_mem_drop (next ▸ List.mem_cons_self))
      have pre := h.pre
      rw [next, List.flatMap_cons] at pre
      by_cases whole : f.encode.length ≤ c.readBuff.available.length
      · obtain ⟨tail, front⟩ := h.front_of_next next whole
        have known := frameLength_of_front validF front (h.length_of_next next)
        have enough : ¬ c.readBuff.getAvailableData.2 < f.encode.length := by
          rw [c.readBuff.available_length] at whole
          exact Nat.not_lt.mpr whole
        simp [Connection.asks, known, enough] at asks
      · obtain ⟨n', asks', small, -⟩ := asks_of_start validF pre (by omega) (h.length_of_next next)
        rw [asks'] at asks
        exact Option.some.inj asks ▸ small

/-- A read completes at most one more frame, as far as the connection is concerned. -/
theorem handle_receiving {frames : List Frame} (valid : ValidStream frames) {done : Nat}
    {got data : List Byte} {c : Connection} (h : Receiving frames done got c)
    (stream : got ++ data <+: frames.flatMap Frame.encode) (fits : Fits c (.onRead (some data)))
    (requestable : Requestable c (.onRead (some data))) :
    ∃ c', c.handle (.onRead (some data)) = some c' ∧
      Receiving frames (min (done + 1) (complete frames (got ++ data).length)) (got ++ data) c' := by
  obtain ⟨p, ms, before, delivered⟩ := h.delivered
  have now := h.received stream fits
  have finish : ∀ {d : Connection}, (c.received data).processIncoming =
      some (CloseReason.none, d) → c.handle (.onRead (some data)) = some d.startAsyncRead := by
    intro d processed
    have processed : processIncoming { c with
      reads := c.reads - 1, readBuff := (c.readBuff.receive data).2, silentTime := 0 } =
        some (CloseReason.none, d) := processed
    simp only [handle, onRead, processed, bind, Option.bind_some, if_true]
  have keep : ∀ {d : Connection} {k : Nat}, Receiving frames k (got ++ data) d →
      Receiving frames k (got ++ data) d.startAsyncRead := by
    intro d k h
    obtain ⟨p, ms, before, delivered⟩ := h.delivered
    exact ⟨h.valid, h.le, h.stream, h.split, h.length, p, ms, before,
      by cases p <;> exact delivered.keeps, delivered.calls, delivered.handler, delivered.queue⟩
  -- no frame is processed in this read
  have waits : ∀ {n : Nat}, (c.received data).asks = some n → n ≤ Config.maxFrameSize →
      (∀ f rest, frames.drop done = f :: rest → (c.received data).frameLength = .known n →
        n = f.encode.length) →
      (frames.drop done = [] → (c.received data).frameLength ≠ .known n) →
      min (done + 1) (complete frames (got ++ data).length) = done →
      ∃ c', c.handle (.onRead (some data)) = some c' ∧
        Receiving frames (min (done + 1) (complete frames (got ++ data).length)) (got ++ data) c' := by
    intro n asks small known unknown same
    obtain ⟨b, request⟩ := Option.isSome_iff_exists.mp (requestable n asks)
    have processed := processIncoming_asks asks small
    rw [request, Option.map_some] at processed
    obtain ⟨validB, availableB, -⟩ :=
      (StreamReadBuff.requestData_cases (show _ = some (b.1, b.2) from request)).keeps now.valid
    refine ⟨_, finish processed, ?_⟩
    rw [same]
    refine keep ⟨validB, now.le, now.stream, ?_, ?_, p, ms, before,
      by cases p <;> exact delivered.keeps, delivered.calls, delivered.handler, delivered.queue⟩
    · simp only [availableB]
      exact now.split
    · by_cases knows : (c.received data).frameLength = .known n
      · simp only [if_pos knows]
        cases next : frames.drop done with
        | nil => exact absurd knows (unknown next)
        | cons f rest => exact Or.inr ⟨f, rest, rfl, known f rest next knows⟩
      · simp only [if_neg knows]
        exact now.length
  cases next : frames.drop done with
  | nil =>
      have wants := now.wanted_of_none next
      refine waits (n := 2) (by simp only [asks, wants]) (by decide) (by simp [wants])
        (by simp [wants]) ?_
      have all : frames.length ≤ done := List.drop_eq_nil_iff.mp next
      have le := complete_le frames (got ++ data).length
      have := now.done_le
      omega
  | cons f rest =>
      obtain ⟨validF, p', new, step, after⟩ := valid.next next before
      have pre := now.pre
      rw [next, List.flatMap_cons] at pre
      by_cases whole : f.encode.length ≤ (c.received data).readBuff.available.length
      · obtain ⟨tail, front⟩ := now.front_of_next next whole
        obtain ⟨d, processed, validB, available, unknown, delivered'⟩ := processIncoming_front validF
          now.valid front (now.length_of_next next) step
          (show Delivered _ p ms from ⟨by cases p <;> exact delivered.keeps, delivered.calls,
            delivered.handler, delivered.queue⟩)
        refine ⟨_, finish processed, keep ?_⟩
        have more := (now.next_complete next).mpr whole
        have inside : done < frames.length := by
          have := complete_le frames (got ++ data).length
          omega
        have taken : frames.take (done + 1) = frames.take done ++ [f] := by
          rw [List.take_add, next]
          rfl
        rw [Nat.min_eq_left more]
        refine ⟨validB, inside, now.stream, ?_, Or.inl unknown, p', ms ++ new, after, delivered'⟩
        have split := now.split
        rw [front] at split
        rw [taken, List.flatMap_append, available, List.append_assoc, List.flatMap_cons,
          List.flatMap_nil, List.append_nil]
        exact split
      · obtain ⟨n, asks, small, known⟩ := asks_of_start validF pre (by omega)
          (now.length_of_next next)
        refine waits asks small ?_ (by simp [next]) ?_
        · intro f' rest' next' knows
          rw [next] at next'
          exact (List.cons.inj next').1 ▸ known knows
        · have less := mt (now.next_complete next).mp whole
          have := now.done_le
          omega

/-! ## Runs -/

/-- The number of frames processed after some more reads. -/
def processed (frames : List Frame) : Nat → List Byte → List (List Byte) → Nat
  | done, _, [] => done
  | done, got, data :: rest =>
      processed frames (min (done + 1) (complete frames (got ++ data).length)) (got ++ data) rest

/-- The events of some reads. -/
def readEvents (reads : List (List Byte)) : List Event := reads.map fun data => .onRead (some data)

/-- After every read there are enough reads to come for the frames which are complete in the end. -/
def KeepsUp (frames : List Frame) (reads : List (List Byte)) : Prop :=
  ∀ before after, reads = before ++ after →
    complete frames reads.flatten.length ≤ complete frames before.flatten.length + after.length

/-- No complete frame is left in the read buffer, and the handler has got exactly the messages of
    the frames which are complete in the bytes received. -/
structure CaughtUp (frames : List Frame) (got : List Byte) (c : Connection) : Prop where
  noFrameLeft : ∀ length, c.frameLength = .known length → c.readBuff.available.length < length
  calls : ∃ p ms, messages none (frames.take (complete frames got.length)) = some (p, ms) ∧
    c.calls = ms.map fun m => (.onMessage m.1 m.2, true)

theorem Receiving.caughtUp_iff {frames : List Frame} (valid : ValidStream frames) {done : Nat}
    {got : List Byte} {c : Connection} (h : Receiving frames done got c) :
    CaughtUp frames got c ↔ complete frames got.length ≤ done := by
  have le := h.done_le
  constructor
  · rintro ⟨noFrameLeft, -⟩
    by_contra behind
    cases next : frames.drop done with
    | nil =>
        have all : frames.length ≤ done := List.drop_eq_nil_iff.mp next
        have := complete_le frames got.length
        omega
    | cons f rest =>
        have whole := (h.next_complete next).mp (by omega)
        obtain ⟨tail, front⟩ := h.front_of_next next whole
        have member : f ∈ frames := List.mem_of_mem_drop (next ▸ List.mem_cons_self)
        have known := frameLength_of_front (valid.valid f member) front (h.length_of_next next)
        have := noFrameLeft _ known
        omega
  · intro all
    have same : complete frames got.length = done := by omega
    obtain ⟨p, ms, before, delivered⟩ := h.delivered
    refine ⟨?_, p, ms, by rw [same]; exact before, delivered.calls⟩
    intro length known
    cases next : frames.drop done with
    | nil =>
        rw [h.wanted_of_none next] at known
        cases known
    | cons f rest =>
        have member : f ∈ frames := List.mem_of_mem_drop (next ▸ List.mem_cons_self)
        have pre := h.pre
        rw [next, List.flatMap_cons] at pre
        have short := mt (h.next_complete next).mpr (by omega)
        have is : length = f.encode.length := by
          rcases h.length_of_next next with unknown | known'
          · simp only [frameLength, if_pos unknown] at known
            exact determineLength_of_start (valid.valid f member) pre known
          · have small := (valid.valid f member).encode_lt
            have other : ¬ c.currFrameLength = unknownFrameLength := by
              simp only [known', unknownFrameLength]
              omega
            rw [frameLength, if_neg other, FrameLength.known.injEq, known'] at known
            exact known.symm
        omega

/-- A run of reads processes one frame in each, as long as there is a complete one. -/
theorem exec_receiving {frames : List Frame} (valid : ValidStream frames) {done : Nat}
    {got : List Byte} {reads : List (List Byte)} {c : Connection} (h : Receiving frames done got c)
    (stream : got ++ reads.flatten <+: frames.flatMap Frame.encode)
    (fits : Along handle Fits c (readEvents reads))
    (requestable : Along handle Requestable c (readEvents reads)) :
    ∃ c', exec handle c (readEvents reads) = some c' ∧
      Receiving frames (processed frames done got reads) (got ++ reads.flatten) c' := by
  induction reads generalizing done got c with
  | nil => exact ⟨c, rfl, by simpa [processed] using h⟩
  | cons data rest ih =>
      rw [List.flatten_cons, ← List.append_assoc] at stream
      obtain ⟨mid, taken, next⟩ := handle_receiving valid h
        ((List.prefix_append _ _).trans stream) fits.1 requestable.1
      obtain ⟨c', run, final⟩ := ih next stream (fits.2 mid taken) (requestable.2 mid taken)
      refine ⟨c', exec_cons_some.mpr ⟨mid, taken, run⟩, ?_⟩
      rw [List.flatten_cons, ← List.append_assoc]
      exact final

/-- A run which goes through has not seen a request wrap around. -/
theorem requestable_of_exec {frames : List Frame} (valid : ValidStream frames) {done : Nat}
    {got : List Byte} {reads : List (List Byte)} {c c' : Connection}
    (h : Receiving frames done got c) (stream : got ++ reads.flatten <+: frames.flatMap Frame.encode)
    (fits : Along handle Fits c (readEvents reads))
    (run : exec handle c (readEvents reads) = some c') :
    Along handle Requestable c (readEvents reads) := by
  induction reads generalizing done got c with
  | nil => trivial
  | cons data rest ih =>
      rw [List.flatten_cons, ← List.append_assoc] at stream
      obtain ⟨mid, taken, run⟩ := exec_cons_some.mp run
      have part := (List.prefix_append _ _).trans stream
      have requestable : Requestable c (.onRead (some data)) := by
        intro n asks
        have small := (h.received part fits.1).asks_small valid asks
        have processed := processIncoming_asks asks small
        cases request : (c.received data).readBuff.requestData n with
        | some b => rfl
        | none =>
            rw [request, Option.map_none] at processed
            have processed : processIncoming { c with
              reads := c.reads - 1, readBuff := (c.readBuff.receive data).2, silentTime := 0 } =
                none := processed
            simp [handle, onRead, processed] at taken
      obtain ⟨mid', taken', next⟩ := handle_receiving valid h part fits.1 requestable
      obtain rfl : mid' = mid := Option.some.inj (taken'.symm.trans taken)
      refine ⟨requestable, fun t same => ?_⟩
      obtain rfl : mid' = t := Option.some.inj (taken'.symm.trans same)
      exact ih next stream (fits.2 mid' taken) run

theorem processed_complete_iff {frames : List Frame} {done : Nat} {got : List Byte}
    {reads : List (List Byte)} (le : done ≤ complete frames got.length) :
    complete frames (got ++ reads.flatten).length ≤ processed frames done got reads ↔
      complete frames (got ++ reads.flatten).length ≤ done + reads.length ∧
        ∀ before after, reads = before ++ after → complete frames (got ++ reads.flatten).length ≤
          complete frames (got ++ before.flatten).length + after.length := by
  induction reads generalizing done got with
  | nil =>
      simp only [processed, List.flatten_nil, List.append_nil, List.length_nil, Nat.add_zero]
      constructor
      · intro all
        refine ⟨all, fun before after split => ?_⟩
        obtain ⟨rfl, rfl⟩ := List.append_eq_nil_iff.mp split.symm
        simp
      · exact fun both => both.1
  | cons data rest ih =>
      have mono := complete_mono frames (m := got.length) (n := (got ++ data).length) (by simp)
      have step := @ih (min (done + 1) (complete frames (got ++ data).length)) (got ++ data)
        (Nat.min_le_right _ _)
      simp only [processed, List.flatten_cons, List.length_cons]
      rw [← List.append_assoc, step]
      constructor
      · rintro ⟨soon, later⟩
        refine ⟨by omega, fun before after split => ?_⟩
        cases before with
        | nil =>
            simp only [List.nil_append] at split
            subst split
            simp only [List.flatten_nil, List.append_nil, List.length_cons]
            omega
        | cons first more =>
            obtain ⟨rfl, rest_⟩ := List.cons.inj split
            have := later more after rest_
            rwa [List.flatten_cons, ← List.append_assoc]
      · rintro ⟨soon, all⟩
        constructor
        · have first := all [data] rest rfl
          simp only [List.flatten_cons, List.flatten_nil, List.append_nil] at first
          omega
        · intro before after split
          have := all (data :: before) after (by rw [split]; rfl)
          rwa [List.flatten_cons, ← List.append_assoc] at this

theorem create_receiving (readMem : Mem Nat Byte) (writeMem : Mem WriteBlock Byte)
    (frames : List Frame) : Receiving frames 0 [] (create readMem writeMem) where
  valid := StreamReadBuff.init_valid readMem
  le := Nat.zero_le _
  stream := List.nil_prefix
  split := by simp [create, startAsyncRead]
  length := Or.inl rfl
  delivered := ⟨none, [], by simp [messages], rfl, rfl, rfl,
    WriteBuffQueue.idle_init (by decide)⟩

/-- A text frame and a binary frame. -/
def twoFrames : List Frame :=
  [⟨true, OpCode.text, (1, 2, 3, 4), [0x61], false⟩, ⟨true, OpCode.binary, (5, 6, 7, 8), [], false⟩]

theorem twoFrames_valid : ValidStream twoFrames where
  valid := by
    intro f member
    rcases List.mem_cons.mp member with rfl | member
    · exact ⟨by decide, by decide, by decide⟩
    · obtain rfl := List.mem_singleton.mp member
      exact ⟨by decide, by decide, by decide⟩
  assembles := by decide

/-- The two frames, cut inside the first one's header and before the second one's last byte. -/
def threeReads : List (List Byte) :=
  [[0x81], [0x81, 1, 2, 3, 4, 0x60, 0x82, 0x80, 5, 6, 7], [8]]

/-- Both frames in one read: only the first one is processed. -/
def oneRead : List (List Byte) := [[0x81, 0x81, 1, 2, 3, 4, 0x60, 0x82, 0x80, 5, 6, 7, 8]]

end MiniWebSrv.WebSocket.Connection
