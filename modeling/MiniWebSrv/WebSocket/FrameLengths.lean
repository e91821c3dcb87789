import MiniWebSrv.WebSocket.WireReading

/-! # The length of a frame

`ProcessIncoming` and `ProcessFrame` both work out where a frame ends, each from the same bytes. They
agree unless the length field has 64 bits, where the first one counts only two bytes for it.
-/

namespace MiniWebSrv.WebSocket.Connection

open Word Run WireFrame

/-! ## What the bytes say -/

/-- The form of the length field. -/
def form : List Byte → LengthForm
  | _ :: second :: _ => LengthForm.ofMarker (second.toNat % 128)
  | _ => .short

/-- The number in the length field. -/
def stated : List Byte → Nat
  | _ :: second :: rest =>
      let marker := second.toNat % 128
      if marker < 126 then marker else number (rest.take (LengthForm.ofMarker marker).width)
  | _ => 0

def maskLength : List Byte → Nat
  | _ :: second :: _ => if 128 ≤ second.toNat then 4 else 0
  | _ => 0

/-- The sum which `ProcessIncoming` computes, as far as it does not wrap around. -/
def lengthSum (bytes : List Byte) : Nat :=
  stated bytes + (if form bytes = .short then 2 else 2 + 2) + maskLength bytes

/-- The number of bytes which `ProcessFrame` skips to get to the payload. -/
def skipped (bytes : List Byte) : Nat := 2 + (form bytes).width + maskLength bytes

theorem form_short_iff {marker : Nat} : LengthForm.ofMarker marker = .short ↔ marker < 126 := by
  simp only [LengthForm.ofMarker]
  split_ifs <;> simp [*]

theorem lengthOf_known {bytes : List Byte} {length : Nat} (known : lengthOf bytes = .known length) :
    length = u64 (lengthSum bytes) ∧ stated bytes < values (form bytes).width + 126 := by
  match bytes with
  | [] | [_] => cases known
  | first :: second :: rest =>
      simp only [lengthOf] at known
      by_cases missing : rest.length < (LengthForm.ofMarker (second.toNat % 128)).width
      · rw [if_pos missing] at known
        cases known
      rw [if_neg missing] at known
      simp only [lengthSum, form, stated, maskLength, form_short_iff]
      by_cases short : second.toNat % 128 < 126
      · rw [if_pos short] at known
        simp only [if_pos short]
        refine ⟨?_, by omega⟩
        injection known with known
        rw [← known]
        simp only [u64]
        split <;> omega
      · rw [if_neg short] at known
        simp only [if_neg short]
        have field := number_lt (rest.take (LengthForm.ofMarker (second.toNat % 128)).width)
        rw [List.length_take, Nat.min_eq_left (by omega)] at field
        refine ⟨?_, by omega⟩
        injection known with known
        rw [← known]
        simp only [u64]
        split <;> omega

theorem frameHeader_payload {mem : Mem Nat Byte} {p : Ptr Nat} {k : Nat} (length : Nat)
    (two : 2 ≤ k) : (frameHeader mem p length).payload = p.add (skipped (mem.read p k)) := by
  match k with
  | k + 2 =>
      have high : decide (mem p.block (p.off + 1) &&& flagMask ≠ 0) =
          decide (128 ≤ (mem p.block (p.off + 1)).toNat) := decide_eq_decide.mpr (high_bit _)
      have second : (p.add 1).off = p.off + 1 := rfl
      simp only [frameHeader, headerLength_eq, skipped, Mem.read, form, maskLength, second, high,
        Ptr.add_block, decide_eq_true_eq]
      by_cases isMask : 128 ≤ (mem p.block (p.off + 1)).toNat
      · rw [if_pos isMask, if_pos isMask, Ptr.add_add]
      · rw [if_neg isMask, if_neg isMask]
        rfl

/-! ## Frames contain their payload -/

/-- `ProcessIncoming` calls `ProcessFrame` with this length. -/
structure Processes (c : Connection) (length : Nat) : Prop where
  known : c.frameLength = .known length
  small : length ≤ Config.maxFrameSize
  complete : length ≤ c.readBuff.getAvailableData.2

/-- The frame of that length is taken out of the read buffer. -/
def consumed (c : Connection) (length : Nat) : Connection :=
  { c with
    readBuff := (c.readBuff.consume length false).2
    currFrameLength := unknownFrameLength }

theorem processIncoming_processes {c : Connection} {length : Nat} (processes : c.Processes length) :
    c.processIncoming =
      (processFrame { c with currFrameLength := length } c.readBuff.getAvailableData.1 length).map
        fun r => (r.1, r.2.consumed length) := by
  obtain ⟨known, small, complete⟩ := processes
  simp only [processIncoming, known, if_neg (Nat.not_lt.mpr small), if_neg (Nat.not_lt.mpr complete)]
  cases processFrame { c with currFrameLength := length } c.readBuff.getAvailableData.1 length <;> rfl

/-- The frame of that length in front of the read buffer does not reach outside itself. -/
structure Contained (c : Connection) (length : Nat) : Prop where
  exact : length = lengthSum c.readBuff.available
  header : skipped c.readBuff.available ≤ length
  payload : (frameHeader c.readBuff.mem c.readBuff.getAvailableData.1 length).payload.off +
      (frameHeader c.readBuff.mem c.readBuff.getAvailableData.1 length).length ≤
    c.readBuff.getAvailableData.1.off + length

/-- A length field of 64 bits with a number which is too small, or so large that the sum wraps
    around. -/
def Misjudged (bytes : List Byte) : Prop :=
  form bytes = .long ∧ (stated bytes < 6 ∨ 18446744073709551616 ≤ lengthSum bytes)

instance (bytes : List Byte) : Decidable (Misjudged bytes) := inferInstanceAs (Decidable (_ ∧ _))

theorem lengthSum_of_form {bytes : List Byte} (short : form bytes ≠ .long)
    (bound : stated bytes < values (form bytes).width + 126) :
    skipped bytes ≤ lengthSum bytes ∧ lengthSum bytes < 70000 := by
  have mask : maskLength bytes ≤ 4 := by
    match bytes with
    | [] | [_] => exact Nat.zero_le 4
    | _ :: second :: _ =>
        simp only [maskLength]
        split <;> omega
  simp only [lengthSum, skipped]
  cases which : form bytes with
  | short =>
      simp only [which, LengthForm.width, values, if_true] at bound ⊢
      omega
  | medium =>
      simp only [which, LengthForm.width, values, reduceCtorEq, if_false] at bound ⊢
      omega
  | long => exact absurd which short

/-- A frame which is processed contains its payload, unless its length has been misjudged. -/
theorem contained_of_processes {c : Connection} {length : Nat} (remembered : c.Remembered)
    (processes : c.Processes length) :
    Contained c length ↔ ¬Misjudged c.readBuff.available := by
  obtain ⟨known, small, complete⟩ := processes
  simp only [Config.maxFrameSize] at small
  rw [remembered.frameLength] at known
  obtain ⟨sum, bound⟩ := lengthOf_known known
  simp only [u64] at sum
  constructor
  · rintro ⟨exact_, header, -⟩ ⟨long, bad⟩
    simp only [lengthSum, skipped, long, reduceCtorEq, if_false, LengthForm.width] at *
    omega
  · intro fine
    have both : lengthSum c.readBuff.available < 18446744073709551616 ∧
        skipped c.readBuff.available ≤ lengthSum c.readBuff.available := by
      by_cases long : form c.readBuff.available = .long
      · have large : ¬(stated c.readBuff.available < 6 ∨
            18446744073709551616 ≤ lengthSum c.readBuff.available) := fun bad => fine ⟨long, bad⟩
        simp only [lengthSum, skipped, long, reduceCtorEq, if_false, LengthForm.width] at *
        omega
      · have sizes := lengthSum_of_form long bound
        omega
    have exact_ : length = lengthSum c.readBuff.available := by omega
    have header : skipped c.readBuff.available ≤ length := by omega
    have two : 2 ≤ c.readBuff.getAvailableData.2 := by
      simp only [skipped] at header
      omega
    have payload : (frameHeader c.readBuff.mem c.readBuff.getAvailableData.1 length).payload =
        c.readBuff.getAvailableData.1.add (skipped c.readBuff.available) :=
      frameHeader_payload length two
    have rest : (frameHeader c.readBuff.mem c.readBuff.getAvailableData.1 length).length =
        length - skipped c.readBuff.available := by
      have left : (frameHeader c.readBuff.mem c.readBuff.getAvailableData.1 length).length =
          sub32 length ((frameHeader c.readBuff.mem c.readBuff.getAvailableData.1 length).payload.off -
            c.readBuff.getAvailableData.1.off) := rfl
      rw [left, payload, Ptr.add_off, Nat.add_sub_cancel_left,
        sub32_of_le header (by simp only [size32]; omega)]
    refine ⟨exact_, header, ?_⟩
    rw [rest, payload, Ptr.add_off]
    omega

/-! ## Over a run -/

/-- The read buffer is in order, and the length remembered is that of the frame in front. -/
structure Reading (c : Connection) : Prop where
  valid : c.readBuff.Valid
  remembered : c.Remembered

theorem create_reading (readMem : Mem Nat Byte) (writeMem : Mem WriteBlock Byte) :
    Reading (create readMem writeMem) :=
  ⟨StreamReadBuff.init_valid readMem, Or.inl rfl⟩

theorem Reading.same {c d : Connection} (reading : Reading c) (buffer : d.readBuff = c.readBuff)
    (length : d.currFrameLength = c.currFrameLength) : Reading d := by
  obtain ⟨valid, remembered⟩ := reading
  refine ⟨buffer ▸ valid, ?_⟩
  rw [Remembered, buffer, length]
  exact remembered

theorem Reading.received {c : Connection} {data : List Byte} (reading : Reading c)
    (fits : data.length ≤ c.readBuff.freeLength) : Reading (c.received data) := by
  obtain ⟨valid, remembered⟩ := reading
  have available : (c.received data).readBuff.available = c.readBuff.available ++ data :=
    StreamReadBuff.receive_available valid fits
  refine ⟨StreamReadBuff.receive_valid valid fits, ?_⟩
  rw [Remembered, available]
  rcases remembered with unknown | known
  · exact Or.inl unknown
  · exact Or.inr (lengthOf_append data known)

theorem Reading.awaitData {c d : Connection} {n : Nat} {r : CloseReason} (reading : Reading c)
    (run : c.awaitData n = some (r, d)) : Reading d := by
  obtain ⟨valid, remembered⟩ := reading
  simp only [Connection.awaitData, bind, Option.bind_eq_some_iff, Option.some.injEq,
    Prod.mk.injEq] at run
  obtain ⟨⟨enough, b⟩, requested, -, rfl⟩ := run
  obtain ⟨valid', available, -⟩ := (StreamReadBuff.requestData_cases requested).keeps valid
  refine ⟨valid', ?_⟩
  rw [Remembered, available]
  exact remembered

/-- The order of the positions does not depend on the bytes. -/
theorem changed_valid {b : StreamReadBuff Config.readBuffSize} (valid : b.Valid)
    (mem : Mem Nat Byte) : ({ b with mem := mem } : StreamReadBuff Config.readBuffSize).Valid := by
  obtain ⟨relevant, data, inside, block⟩ := valid
  exact ⟨relevant, data, inside, block⟩

theorem processFrame_buffer {c d : Connection} {buff : Ptr Nat} {length : Nat} {r : CloseReason}
    (run : c.processFrame buff length = some (r, d)) :
    ∃ mem, d.readBuff = { c.readBuff with mem := mem } := by
  simp only [processFrame] at run
  split at run
  · split at run
    · exact ⟨_, (processPayload_buffer run).1⟩
    · cases run
  · simp only [allowMaskedOnly, Bool.not_true, Bool.false_eq_true, if_false] at run
    exact ⟨_, (processPayload_buffer run).1⟩

theorem Reading.processIncoming {c d : Connection} {r : CloseReason} (reading : Reading c)
    (run : c.processIncoming = some (r, d)) : Reading d := by
  have remembered := reading.remembered.frameLength
  simp only [Connection.processIncoming] at run
  cases found : c.frameLength with
  | wanted n =>
      simp only [found] at run
      exact reading.awaitData run
  | known length =>
      rw [found] at remembered
      have noted : Reading { c with currFrameLength := length } :=
        ⟨reading.valid, Or.inr remembered.symm⟩
      simp only [found] at run
      by_cases long : Config.maxFrameSize < length
      · simp only [if_pos long, Option.some.injEq, Prod.mk.injEq] at run
        exact run.2 ▸ noted
      simp only [if_neg long] at run
      by_cases short : c.readBuff.getAvailableData.2 < length
      · rw [if_pos short] at run
        exact noted.awaitData run
      · simp only [if_neg short, bind, Option.bind_eq_some_iff, Option.some.injEq,
          Prod.mk.injEq] at run
        obtain ⟨⟨_, e⟩, processed, -, rfl⟩ := run
        obtain ⟨mem, buffer⟩ := processFrame_buffer processed
        refine ⟨?_, Or.inl rfl⟩
        rw [buffer]
        exact StreamReadBuff.consume_valid (changed_valid reading.valid mem) length false

theorem step_reading (c : Connection) (e : Event) (d : Connection) (reading : Reading c)
    (run : c.step e = some d) : Reading d := by
  have enabled : Enabled c e := by
    by_contra disabled
    rw [step, if_neg disabled] at run
    cases run
  rw [step, if_pos enabled] at run
  by_cases isRead : ∃ result, e = .onRead result
  · obtain ⟨result, rfl⟩ := isRead
    cases result with
    | none =>
        obtain ⟨calls, handler, rfl⟩ := handle_readError run
        exact reading.same rfl rfl
    | some data =>
        have received := reading.received enabled.2
        simp only [handle, onRead, bind, Option.bind_eq_some_iff] at run
        obtain ⟨⟨reason, e⟩, processed, run⟩ := run
        have next : Reading e := received.processIncoming processed
        simp only at run
        by_cases fine : reason = CloseReason.none
        · rw [if_pos fine, Option.some.injEq] at run
          exact run ▸ next.same rfl rfl
        · simp only [if_neg fine, Option.bind_eq_some_iff, Option.some.injEq] at run
          obtain ⟨f, told, rfl⟩ := run
          have same := (onProtocolError_some told).sameInput
          exact next.same same.buffer same.length
  · have same := handle_sameInput (fun result h => isRead ⟨result, h⟩) run
    exact reading.same same.buffer same.length

/-- In every run and at every call of `ProcessFrame`, the frame contains its payload unless its
    length field has 64 bits and a number below six or close to the highest. -/
theorem contained_iff (readMem : Mem Nat Byte) (writeMem : Mem WriteBlock Byte)
    {events : List Event} {c : Connection} {data : List Byte} {length : Nat}
    (run : exec step (create readMem writeMem) events = some c)
    (enabled : Enabled c (.onRead (some data))) (processes : Processes (c.received data) length) :
    Contained (c.received data) length ↔ ¬Misjudged (c.received data).readBuff.available := by
  have reading := invariant step_reading (create_reading readMem writeMem) run
  exact contained_of_processes (reading.received enabled.2).remembered processes

/-- A text of one letter. -/
theorem contained_letter :
    Contained ((create (fun _ _ => 0) fun _ _ => 0).received [0x81, 0x01, 0x61]) 3 := by
  have run : exec step (create (fun _ _ => 0) fun _ _ => 0) [] =
      some (create (fun _ _ => 0) fun _ _ => 0) := rfl
  apply (contained_iff (fun _ _ => 0) (fun _ _ => 0) run ?_ ?_).mpr
  · decide +kernel
  · decide
  · exact ⟨by decide +kernel, by decide, by decide⟩

/-- An empty message with a length field of 64 bits is taken for a frame of four bytes, of which the
    header has ten. -/
theorem empty_reaches_outside : ¬∀ (readMem : Mem Nat Byte) (writeMem : Mem WriteBlock Byte)
    (events : List Event) (c : Connection) (data : List Byte) (length : Nat),
    exec step (create readMem writeMem) events = some c → Enabled c (.onRead (some data)) →
    Processes (c.received data) length → Contained (c.received data) length := by
  intro all
  have contained := all (fun _ _ => 0) (fun _ _ => 0) [] _ [0x82, 0x7F, 0, 0, 0, 0, 0, 0, 0, 0] 4 rfl
    (by decide) ⟨by decide +kernel, by decide, by decide⟩
  exact absurd contained.header (by decide +kernel)

/-! ## Decoding undoes encoding -/

section Front

variable {c : Connection} {f : WireFrame.Frame} {rest : List Byte}

theorem lengthOf_front (small : f.encode.length ≤ Config.maxFrameSize) (rest : List Byte) :
    lengthOf (f.encode ++ rest) = .known (f.encode.length - if f.form = .long then 6 else 0) := by
  have length := f.encode_length
  have head : (keyBytes f.mask).length = if f.mask.isSome then 4 else 0 := by
    cases f.mask <;> rfl
  rw [WireFrame.Frame.headLength, head] at length
  simp only [Config.maxFrameSize] at small
  rw [lengthOf_encode]
  simp only [u64]
  congr 1
  cases form : f.form <;> cases mask : f.mask.isSome <;>
    simp only [form, mask, LengthForm.width, reduceCtorEq, Bool.false_eq_true, if_true, if_false]
      at length ⊢ <;> omega

theorem processes_front (reading : Reading c) (front : c.readBuff.available = f.encode ++ rest)
    (small : f.encode.length ≤ Config.maxFrameSize) :
    Processes c (f.encode.length - if f.form = .long then 6 else 0) := by
  have length := c.readBuff.available_length
  rw [front, List.length_append] at length
  refine ⟨?_, by omega, ?_⟩
  · rw [reading.remembered.frameLength, front, lengthOf_front small]
  · simp only [StreamReadBuff.getAvailableData]
    omega

theorem holds_front (reading : Reading c) (front : c.readBuff.available = f.encode ++ rest) :
    Holds c.readBuff f c.readBuff.getAvailableData.1 := by
  have length := c.readBuff.available_length
  have inside := reading.valid.inside
  have start := reading.valid.data
  rw [front, List.length_append, StreamReadBuff.getAvailableDataLength] at length
  constructor
  · have bytes := Mem.take_read c.readBuff.mem c.readBuff.getAvailableData.1
      (k := f.encode.length) (n := c.readBuff.getAvailableDataLength)
      (by simp only [StreamReadBuff.getAvailableDataLength]; omega)
    rw [← bytes]
    exact (congrArg (List.take f.encode.length) front).trans List.take_left
  · simp only [StreamReadBuff.getAvailableData, StreamReadBuff.at_]
    omega

/-- What is left in the read buffer behind a frame. -/
theorem available_processed {d : Connection} {r : CloseReason} {length : Nat} (reading : Reading c)
    (processes : c.Processes length) (run : c.processIncoming = some (r, d)) :
    d.readBuff.available.length = c.readBuff.available.length - length := by
  rw [processIncoming_processes processes, Option.map_eq_some_iff] at run
  obtain ⟨⟨_, e⟩, processed, same⟩ := run
  obtain ⟨-, rfl⟩ := Prod.mk.inj same
  obtain ⟨mem, buffer⟩ := processFrame_buffer processed
  simp only [consumed, buffer]
  rw [StreamReadBuff.consume_available (changed_valid reading.valid mem) false processes.complete,
    List.length_drop, StreamReadBuff.available_length, StreamReadBuff.available_length]
  rfl

/-- A text or binary frame is a message of its own, the first part of one, or out of place. -/
theorem processPayload_first {c : Connection} {op : OpCode} (named : op = OpCode.text ∨ op = OpCode.binary)
    (fin : Bool) (payload : Ptr Nat) (length : Nat) :
    c.processPayload fin op payload length =
      if c.fragOpCode = OpCode.continuation then
        if fin then
          some (CloseReason.none,
            c.call (.onMessage (getMessageType op) (c.readBuff.mem.read payload length)))
        else
          (c.payloadBytes payload length).map fun bytes =>
            (CloseReason.none, { c with fragMsgData := bytes, fragOpCode := op })
      else
        some (CloseReason.protError, c) := by
  have data : op < OpCode.controlBegin := by
    rcases named with rfl | rfl <;> decide
  have first : op ≠ OpCode.continuation := by
    rcases named with rfl | rfl <;> decide
  have more : ¬(c.fragOpCode ≠ OpCode.continuation ∧ op = OpCode.continuation) :=
    fun both => first both.2
  simp only [processPayload, if_pos data, if_neg more, and_iff_left first, bind]
  cases fin with
  | true => simp only [if_true]
  | false =>
      simp only [Bool.false_eq_true, if_false]
      cases c.payloadBytes payload length <;> rfl

/-- The frame in front is delivered as it was sent, and consumed. -/
def Delivers (c : Connection) (f : WireFrame.Frame) (rest : List Byte) : Prop :=
  ∃ d, c.processIncoming = some (CloseReason.none, d) ∧
    d.calls = c.calls ++
      [(.onMessage (getMessageType (UInt8.ofNat f.opCode.val)) f.payload, c.myHandler)] ∧
    d.readBuff.available = rest

/-- The letter with a length field of 64 bits. -/
def longLetter : WireFrame.Frame := { letter with form := .long, fits := by decide }

end Front

end MiniWebSrv.WebSocket.Connection
