import MiniWebSrv.Lib.WireFrame
import MiniWebSrv.WebSocket.Connection

/-! # Client frames

The frames a client may send, their bytes on the wire, and the messages they make up.
This is the protocol's own view, with no buffer and no position in it. The lemmas say
what the reading functions of `Connection` find where such a frame begins.
-/

namespace MiniWebSrv.WebSocket

open Word

/-- A masked frame with a 7-bit or a 16-bit length field. -/
structure Frame where
  isFin : Bool
  opCode : OpCode
  /-- The four bytes of the mask. -/
  key : Byte × Byte × Byte × Byte
  /-- The payload before the masking. -/
  payload : List Byte
  /-- Whether the length field has 16 bits. -/
  wide : Bool
  deriving DecidableEq, Repr

namespace Frame

/-- The first byte: the opcode and the FIN flag. -/
def first (f : Frame) : Byte := f.opCode ||| if f.isFin then flagFin else 0

/-- The second byte: the mask flag and the length, or the marker of a 16-bit length. -/
def second (f : Frame) : Byte := flagMask ||| if f.wide then 126 else f.payload.length.toUInt8

def lengthField (f : Frame) : List Byte :=
  if f.wide then [(f.payload.length / 256).toUInt8, f.payload.length.toUInt8] else []

def keyBytes (f : Frame) : List Byte := [f.key.1, f.key.2.1, f.key.2.2.1, f.key.2.2.2]

def encode (f : Frame) : List Byte :=
  f.first :: f.second :: (f.lengthField ++ (f.keyBytes ++ WireFrame.masked f.key f.payload))

def isControl (f : Frame) : Bool := ¬ f.opCode < OpCode.controlBegin

/-- A data frame, or a ping or a pong; the length fits its field. -/
structure Valid (f : Frame) : Prop where
  opCode : f.opCode ∈ [OpCode.continuation, OpCode.text, OpCode.binary, OpCode.ping, OpCode.pong]
  control : f.isControl = true → f.isFin = true ∧ f.payload.length ≤ 125
  length : f.payload.length < if f.wide then 65536 else 126

/-- The length of the frame in front of the mask. -/
def headLength (f : Frame) : Nat := if f.wide then 4 else 2

theorem encode_length (f : Frame) : f.encode.length = f.headLength + 4 + f.payload.length := by
  cases wide : f.wide <;>
    simp [encode, lengthField, headLength, keyBytes, wide] <;> omega

theorem Valid.encode_lt {f : Frame} (h : f.Valid) : f.encode.length < 65544 := by
  have length := h.length
  rw [encode_length, headLength]
  split at length <;> split <;> simp_all <;> omega

/-- The length marker under the mask flag. -/
theorem Valid.marker {f : Frame} (h : f.Valid) :
    f.second &&& 0x7F = if f.wide then 126 else f.payload.length.toUInt8 := by
  have low : ∀ n : Fin 128, (flagMask ||| n.val.toUInt8) &&& 0x7F = n.val.toUInt8 := by decide
  have length := h.length
  cases wide : f.wide with
  | true =>
      rw [second, wide, if_pos rfl]
      exact low 126
  | false =>
      rw [wide] at length
      simp only [second, wide, Bool.false_eq_true, if_false] at length ⊢
      exact low ⟨f.payload.length, by omega⟩

theorem Valid.masks {f : Frame} (h : f.Valid) : f.second &&& flagMask ≠ 0 := by
  have high : ∀ n : Fin 128, (flagMask ||| n.val.toUInt8) &&& flagMask ≠ 0 := by decide
  have length := h.length
  cases wide : f.wide with
  | true =>
      rw [second, wide, if_pos rfl]
      exact high 126
  | false =>
      rw [wide] at length
      simp only [second, wide, Bool.false_eq_true, if_false] at length ⊢
      exact high ⟨f.payload.length, by omega⟩

theorem Valid.fin {f : Frame} (h : f.Valid) : decide (f.first &&& flagFin ≠ 0) = f.isFin := by
  have all : ∀ op ∈ [OpCode.continuation, OpCode.text, OpCode.binary, OpCode.ping, OpCode.pong],
      ∀ fin : Bool, decide ((op ||| if fin then flagFin else 0) &&& flagFin ≠ 0) = fin := by
    decide +kernel
  exact all f.opCode h.opCode f.isFin

theorem Valid.op {f : Frame} (h : f.Valid) : f.first &&& OpCode.mask = f.opCode := by
  have all : ∀ op ∈ [OpCode.continuation, OpCode.text, OpCode.binary, OpCode.ping, OpCode.pong],
      ∀ fin : Bool, (op ||| if fin then flagFin else 0) &&& OpCode.mask = op := by
    decide +kernel
  exact all f.opCode h.opCode f.isFin

/-- A 7-bit length, as a number. -/
theorem Valid.short_length {f : Frame} (h : f.Valid) (short : f.wide = false) :
    f.payload.length < 126 ∧ f.payload.length.toUInt8.toNat = f.payload.length := by
  have length := h.length
  simp only [short, Bool.false_eq_true, if_false] at length
  exact ⟨length, by simp; omega⟩

/-- The marker of a 7-bit length is the length. -/
theorem Valid.short_marker {f : Frame} (h : f.Valid) (short : f.wide = false) :
    f.payload.length.toUInt8 < 126 := by
  obtain ⟨length, number⟩ := h.short_length short
  rw [UInt8.lt_iff_toNat_lt, number]
  exact length

/-- The 16-bit length field, read as a number. -/
theorem Valid.wide_length {f : Frame} (h : f.Valid) (wide : f.wide = true) :
    f.lengthField.foldl (fun n b => 256 * n + b.toNat) 0 = f.payload.length := by
  have length := h.length
  simp only [wide, if_true] at length
  simp only [lengthField, wide, if_true, List.foldl_cons, List.foldl_nil]
  simp
  omega

end Frame

namespace Connection

/-- The loops of `ProcessFrame`, by words and then by bytes, undo the masking. -/
theorem unmask_eq (k0 k1 k2 k3 : Byte) (bytes : List Byte) :
    unmask (Bits.load32 k0 k1 k2 k3) bytes = WireFrame.masked (k0, k1, k2, k3) bytes := by
  obtain ⟨byte0, byte1, byte2, byte3⟩ := Bits.byteAt_load32 k0 k1 k2 k3
  fun_induction unmask (Bits.load32 k0 k1 k2 k3) bytes with
  | case1 b0 b1 b2 b3 next rest ih =>
      obtain ⟨word0, word1, word2, word3⟩ := Bits.byteAt_load32 b0 b1 b2 b3
      rw [ih]
      simp only [Bits.store32, Bits.byteAt_xor, word0, word1, word2, word3, byte0, byte1, byte2,
        byte3, WireFrame.masked, List.cons_append, List.nil_append]
  | case2 bytes short =>
      rcases bytes with _ | ⟨b0, _ | ⟨b1, _ | ⟨b2, _ | ⟨b3, _ | ⟨next, rest⟩⟩⟩⟩⟩
      · rfl
      · simp only [unmaskBytes, WireFrame.masked, byte0]
      · simp only [unmaskBytes, WireFrame.masked, Bits.byteAt_shift, byte0, byte1]
      · simp only [unmaskBytes, WireFrame.masked, Bits.byteAt_shift, byte0, byte1, byte2]
      · simp only [unmaskBytes, WireFrame.masked, Bits.byteAt_shift, byte0, byte1, byte2, byte3]
      · exact absurd rfl (short b0 b1 b2 b3 next rest)

end Connection

/-! ## Messages -/

/-- The message whose fragments have been received so far. -/
abbrev Partial := Option (MessageType × List Byte)

/-- What a frame adds: the fragments kept behind it, and the message it completes. -/
def Frame.next (p : Partial) (f : Frame) : Option (Partial × List (MessageType × List Byte)) :=
  if f.isControl then
    some (p, [])
  else
    match p with
    | some (type, data) =>
        if f.opCode = OpCode.continuation ∧
            data.length + f.payload.length ≤ Config.maxFragmentedSize then
          if f.isFin then some (none, [(type, data ++ f.payload)])
          else some (some (type, data ++ f.payload), [])
        else
          none
    | none =>
        if f.opCode = OpCode.continuation then
          none
        else if f.isFin then
          some (none, [(getMessageType f.opCode, f.payload)])
        else
          some (some (getMessageType f.opCode, f.payload), [])

/-- The messages of a sequence of frames, unless the fragmentation rules are broken. -/
def messages : Partial → List Frame → Option (Partial × List (MessageType × List Byte))
  | p, [] => some (p, [])
  | p, f :: rest => do
      let (p, ms) ← f.next p
      let (p, more) ← messages p rest
      some (p, ms ++ more)

/-- What a client may send. -/
structure ValidStream (frames : List Frame) : Prop where
  valid : ∀ f ∈ frames, f.Valid
  assembles : (messages none frames).isSome

theorem messages_append (p : Partial) (front back : List Frame) :
    messages p (front ++ back) = (messages p front).bind fun r =>
      (messages r.1 back).map fun r' => (r'.1, r.2 ++ r'.2) := by
  induction front generalizing p with
  | nil => simp [messages]
  | cons f rest ih =>
      simp only [List.cons_append, messages, bind]
      cases f.next p with
      | none => rfl
      | some r =>
          simp only [Option.bind_some, ih]
          cases messages r.1 rest with
          | none => rfl
          | some r' =>
              simp only [Option.bind_some]
              cases messages r'.1 back with
              | none => rfl
              | some r'' => simp [List.append_assoc]

/-- Each frame of a valid stream can be processed after those before it. -/
theorem ValidStream.next {frames : List Frame} (valid : ValidStream frames) {done : Nat} {f : Frame}
    {rest : List Frame} (next : frames.drop done = f :: rest) {p : Partial}
    {ms : List (MessageType × List Byte)} (before : messages none (frames.take done) = some (p, ms)) :
    f.Valid ∧ ∃ p' new, f.next p = some (p', new) ∧
      messages none (frames.take (done + 1)) = some (p', ms ++ new) := by
  have member : f ∈ frames := List.mem_of_mem_drop (next ▸ List.mem_cons_self)
  refine ⟨valid.valid f member, ?_⟩
  have all := valid.assembles
  rw [← List.take_append_drop done frames, next, messages_append, before] at all
  simp only [Option.bind_some, Option.isSome_map, messages, bind] at all
  cases step : f.next p with
  | none => simp [step] at all
  | some r =>
      obtain ⟨p', new⟩ := r
      refine ⟨p', new, rfl, ?_⟩
      rw [List.take_add, next, messages_append, before]
      simp [messages, bind, step]

end MiniWebSrv.WebSocket
