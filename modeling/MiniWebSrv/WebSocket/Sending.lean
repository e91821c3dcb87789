import MiniWebSrv.Common.WriteBuffQueueFifo
import MiniWebSrv.Lib.WireFrame
import MiniWebSrv.WebSocket.Connection

/-! # Sending messages

A message is written into the queue behind a header, whose length field depends on the length of the
message. The bytes which reach the queue are one frame with the message as its payload, unless the
length field is too narrow for the length, or no room has been found for the bytes.
-/

namespace MiniWebSrv.WebSocket.Connection

open Word WriteBuffQueue WireFrame

/-! ## The header -/

theorem big16_eq (n : Nat) : big16 n.toUInt16 = bigEndian 2 n := by
  simp only [big16, bigEndian, List.nil_append, List.cons_append, List.cons.injEq, and_true]
  constructor <;>
  · apply UInt8.toNat_inj.mp
    simp only [Nat.toUInt16_eq, UInt16.toNat_toUInt8, UInt16.toNat_shiftRight, UInt16.toNat_ofNat',
      Nat.reducePow, UInt16.reduceToNat, Nat.reduceMod, UInt8.toNat_ofNat']
    omega

theorem big64_eq (n : Nat) : big64 n.toUInt64 = bigEndian 8 n := by
  simp only [big64, bigEndian, List.nil_append, List.cons_append, List.cons.injEq, and_true]
  refine ⟨?_, ?_, ?_, ?_, ?_, ?_, ?_, ?_⟩ <;>
  · apply UInt8.toNat_inj.mp
    simp only [Nat.toUInt64_eq, UInt64.toNat_toUInt8, UInt64.toNat_shiftRight, UInt64.toNat_ofNat',
      Nat.reducePow, UInt64.reduceToNat, Nat.reduceMod, UInt8.toNat_ofNat']
    omega

/-- The form of the length field which `Allocate` chooses. -/
def formOf (length : Nat) : LengthForm :=
  if length < 126 then .short else if length < 655356 then .medium else .long

theorem formOf_fits_iff {length : Nat} (small : length < LengthForm.long.bound) :
    length < (formOf length).bound ↔ length < 65536 ∨ 655356 ≤ length := by
  simp only [LengthForm.bound] at small
  simp only [formOf]
  split
  · simp only [LengthForm.bound]
    omega
  · split
    · simp only [LengthForm.bound]
      omega
    · simp only [LengthForm.bound]
      omega

theorem messageHeader_length (type : MessageType) (length : Nat) :
    (messageHeader type length).length = 2 + (formOf length).width := by
  simp only [messageHeader, formOf]
  split
  · rfl
  · split <;> rfl

theorem messageHeader_eq (type : MessageType) (length : Nat) :
    messageHeader type length =
      UInt8.ofNat (128 + (getOpcode type).toNat) ::
        UInt8.ofNat ((formOf length).marker length) :: bigEndian (formOf length).width length := by
  have first : getOpcode type ||| flagFin = UInt8.ofNat (128 + (getOpcode type).toNat) := by
    cases type <;> decide
  simp only [messageHeader, formOf, first]
  split
  · rfl
  · split
    · rw [big16_eq]
      rfl
    · rw [big64_eq]
      rfl

theorem formOf_marker (length : Nat) :
    LengthForm.ofMarker ((UInt8.ofNat ((formOf length).marker length)).toNat % 128) =
      formOf length := by
  simp only [formOf]
  split
  · rename_i short
    have marker : (UInt8.ofNat (LengthForm.short.marker length)).toNat % 128 < 126 := by
      rw [UInt8.toNat_ofNat']
      simp only [LengthForm.marker]
      omega
    exact if_pos marker
  · split <;> rfl

def opCodeOf : MessageType → Fin 16
  | .text => 1
  | .binary => 2

/-- The frame of a message. -/
def frameOf (type : MessageType) (message : List Byte)
    (fits : message.length < (formOf message.length).bound) : WireFrame.Frame where
  fin := true
  reserved := 0
  opCode := opCodeOf type
  mask := none
  form := formOf message.length
  payload := message
  fits := fits

theorem frameOf_encode (type : MessageType) (message : List Byte)
    (fits : message.length < (formOf message.length).bound) :
    (frameOf type message fits).encode = messageHeader type message.length ++ message := by
  rw [messageHeader_eq]
  cases type with
  | text | binary =>
      simp only [WireFrame.Frame.encode, WireFrame.Frame.first, WireFrame.Frame.second,
        WireFrame.Frame.lengthField, frameOf, Option.isSome_none, Bool.false_eq_true, if_false,
        Nat.zero_add, keyBytes, covered, List.nil_append]
      rfl

/-- The bytes are one frame, of the type given and with the message as its payload. -/
def Carries (type : MessageType) (message wire : List Byte) : Prop :=
  ∃ f, decode wire = some (f, []) ∧ f.fin = true ∧ f.reserved = 0 ∧ f.opCode = opCodeOf type ∧
    f.mask = none ∧ f.payload = message

theorem carries_iff {type : MessageType} {message : List Byte}
    (small : message.length < LengthForm.long.bound) :
    Carries type message (messageHeader type message.length ++ message) ↔
      message.length < 65536 ∨ 655356 ≤ message.length := by
  rw [← formOf_fits_iff small]
  constructor
  · rintro ⟨f, decoded, -, -, -, -, rfl⟩
    have wire := encode_decode decoded
    have marked : LengthForm.ofMarker (f.second.toNat % 128) = f.form := by
      rw [f.second_marker, f.ofMarker_marker]
    simp only [WireFrame.Frame.encode, messageHeader_eq, List.cons_append, List.cons.injEq] at wire
    rw [wire.2.1, formOf_marker] at marked
    rw [marked]
    exact f.fits
  · intro fits
    refine ⟨frameOf type message fits, ?_, rfl, rfl, rfl, rfl, rfl⟩
    rw [← frameOf_encode type message fits, ← List.append_nil (frameOf type message fits).encode,
      WireFrame.Frame.decode_encode]

/-! ## Into the queue -/

/-- `Allocate`, the stores of the user and `Send`. -/
def sendMessage (c : Connection) (type : MessageType) (message : List Byte) : Option Connection := do
  let (ptr, c) ← c.allocate type message.length
  let ptr ← ptr
  let c ← c.store ptr message
  some c.send

/-- The bytes which have been committed and not been taken out for writing. -/
def pending (c : Connection) : List Byte := c.writeBuff.pendingBytes c.writeMem

/-- Sending a message commits one frame which carries it. -/
def Sends (c : Connection) (type : MessageType) (message : List Byte) : Prop :=
  ∃ d wire, c.sendMessage type message = some d ∧ d.pending = c.pending ++ wire ∧
    Carries type message wire

/-- The frame is as long as the header and the message. -/
theorem frameLength_eq {length : Nat} (short : length + 14 < size32) :
    (if length < 126 then u64 (length + 2)
      else if length < 655356 then u64 (length + (2 + 2)) else u64 (length + (2 + 8))) =
      2 + (formOf length).width + length := by
  simp only [size32] at short
  simp only [formOf, u64]
  split
  · simp only [LengthForm.width]
    omega
  · split
    · simp only [LengthForm.width]
      omega
    · simp only [LengthForm.width]
      omega

/-- Where there is room, the header and the message are committed. -/
theorem sendMessage_roomy {c : Connection} (idle : c.writeBuff.Idle) (type : MessageType)
    {message : List Byte} (short : message.length + 14 < size32)
    (room : c.writeBuff.Roundable (2 + (formOf message.length).width + message.length)) :
    ∃ d, c.sendMessage type message = some d ∧
      d.pending = c.pending ++ (messageHeader type message.length ++ message) := by
  have header := messageHeader_length type message.length
  have total : (messageHeader type message.length ++ message).length =
      2 + (formOf message.length).width + message.length := by
    rw [List.length_append, header]
  have width : (formOf message.length).width ≤ 8 := by
    cases formOf message.length <;> decide
  have short' := short
  rw [← total] at room
  simp only [size32] at short
  have pos : 0 < (messageHeader type message.length ++ message).length := by omega
  have few : (messageHeader type message.length ++ message).length ≤ max32 := by
    simp only [max32, size32]
    omega
  obtain ⟨ret, q, allocated, inside, bytes⟩ := idle.push_bytes c.writeMem pos few room
  have block : ret.off + (messageHeader type message.length ++ message).length ≤
      blockSize q ret.block := le_blockSize inside
  rw [List.length_append] at block
  have length : u32 (2 + (formOf message.length).width + message.length) =
      2 + (formOf message.length).width + message.length := u32_of_lt (by simp only [size32]; omega)
  rw [total] at allocated
  let stored : Connection := { c with
    writeBuff := q
    writeMem := c.writeMem.write ret (messageHeader type message.length ++ message) }
  refine ⟨stored.send, ?_, bytes⟩
  have front : ret.off + (messageHeader type message.length).length ≤ blockSize q ret.block := by
    omega
  have behind : (ret.add (messageHeader type message.length).length).off + message.length ≤
      blockSize q (ret.add (messageHeader type message.length).length).block := by
    rw [Ptr.add_off, Ptr.add_block]
    omega
  simp only [sendMessage, Connection.allocate, frameLength_eq short', length, allocated, store, if_pos front,
    if_pos behind, bind, Option.bind_some, Mem.write_append]
  rfl

theorem small_of_short {length : Nat} (short : length + 14 < size32) :
    length < LengthForm.long.bound := by
  simp only [size32] at short
  simp only [LengthForm.bound]
  omega

theorem sends_roomy_iff {c : Connection} (idle : c.writeBuff.Idle) (type : MessageType)
    {message : List Byte} (short : message.length + 14 < size32)
    (room : c.writeBuff.Roundable (2 + (formOf message.length).width + message.length)) :
    Sends c type message ↔ message.length < 65536 ∨ 655356 ≤ message.length := by
  obtain ⟨d, run, bytes⟩ := sendMessage_roomy idle type short room
  have carries : Carries type message (messageHeader type message.length ++ message) ↔ _ :=
    carries_iff (small_of_short short)
  rw [← carries]
  constructor
  · rintro ⟨d', wire, run', bytes', carries⟩
    obtain rfl := Option.some.inj (run'.symm.trans run)
    rw [bytes] at bytes'
    exact List.append_cancel_left bytes' ▸ carries
  · intro carries
    exact ⟨d, _, run, bytes, carries⟩

/-- A new heap buffer whose size wraps around has no bytes, and the header leaves it. -/
theorem sendMessage_wraps {c : Connection} (type : MessageType) {message : List Byte}
    (short : message.length + 14 < size32)
    (wraps : ¬c.writeBuff.Roundable (2 + (formOf message.length).width + message.length)) :
    c.sendMessage type message = none := by
  have header := messageHeader_length type message.length
  have width : (formOf message.length).width ≤ 8 := by
    cases formOf message.length <;> decide
  simp only [Roundable, not_forall, size32] at wraps
  obtain ⟨nothing, long⟩ := wraps
  have length := frameLength_eq short
  simp only [size32] at short
  have small : u32 (2 + (formOf message.length).width + message.length) =
      2 + (formOf message.length).width + message.length := u32_of_lt (by simp only [size32]; omega)
  generalize frame : 2 + (formOf message.length).width + message.length = n at *
  have empty : roundUpPowerOfTwo n 8 = 0 := by
    have sum : u32 (n + 255) = n + 255 - 4294967296 := by
      simp only [u32, size32]
      omega
    have low : (n + 255 - 4294967296) % 256 = n + 255 - 4294967296 := Nat.mod_eq_of_lt (by omega)
    simp only [roundUpPowerOfTwo, Nat.reducePow, Nat.reduceSub, sum, low, Nat.sub_self]
  have static : ({ c.writeBuff with lastAllocLength := n } :
      WriteBuffQueue Config.writeBuffSize).takeStatic n = none := by
    rw [takeStatic, if_neg]
    simp only [Config.writeBuffSize]
    omega
  have positive : n ≠ 0 := by omega
  have outside : ¬0 + (messageHeader type message.length).length ≤ 0 := by omega
  simp only [sendMessage, Connection.allocate, length, small, WriteBuffQueue.allocate,
    if_neg positive, static, takeDynamic, nothing, empty, store, blockSize, pushBack,
    List.getElem?_concat_length, Option.getD_some, if_neg outside, bind, Option.bind_none]

/-- A message is sent as one frame exactly if the length field can hold its length and there is room
    for it. -/
theorem sends_iff {c : Connection} (idle : c.writeBuff.Idle) (type : MessageType)
    {message : List Byte} (short : message.length + 14 < size32) :
    Sends c type message ↔ (message.length < 65536 ∨ 655356 ≤ message.length) ∧
      c.writeBuff.Roundable (message.length + 10) := by
  have same : (message.length < 65536 ∨ 655356 ≤ message.length) →
      (c.writeBuff.Roundable (message.length + 10) ↔
        c.writeBuff.Roundable (2 + (formOf message.length).width + message.length)) := by
    rintro (less | long)
    · have width : (formOf message.length).width ≤ 8 := by
        cases formOf message.length <;> decide
      constructor <;>
      · intro _ _
        simp only [size32]
        omega
    · have form : formOf message.length = .long := by
        rw [formOf, if_neg (by omega), if_neg (by omega)]
      have length : message.length + 10 = 2 + LengthForm.long.width + message.length := by
        simp only [LengthForm.width]
        omega
      rw [form, length]
  by_cases room : c.writeBuff.Roundable (2 + (formOf message.length).width + message.length)
  · rw [and_iff_left_of_imp fun fits => (same fits).mpr room]
    exact sends_roomy_iff idle type short room
  · constructor
    · rintro ⟨d, wire, run, -⟩
      rw [sendMessage_wraps type short room] at run
      cases run
    · rintro ⟨fits, roundable⟩
      exact absurd ((same fits).mp roundable) room

theorem sends_greeting :
    Sends (create (fun _ _ => 0) fun _ _ => 0) .text [72, 101, 108, 108, 111] := by
  apply (sends_iff (WriteBuffQueue.idle_init (by decide)) .text (by decide)).mpr
  exact ⟨Or.inl (by decide), fun _ => by decide⟩

/-- The length field of a message of 65536 bytes has two bytes, with 0 in them. -/
theorem long_message_cut : ¬∀ (c : Connection) (type : MessageType) (message : List Byte),
    c.writeBuff.Idle → message.length + 14 < size32 → Sends c type message := by
  intro all
  have length : (List.replicate 65536 (0 : Byte)).length = 65536 := List.length_replicate
  have idle : (create (fun _ _ => 0) fun _ _ => 0).writeBuff.Idle :=
    WriteBuffQueue.idle_init (by decide)
  have short : (List.replicate 65536 (0 : Byte)).length + 14 < size32 := by
    rw [length]
    decide
  have sent := all _ .binary (List.replicate 65536 0) idle short
  rw [sends_roomy_iff idle .binary short (fun _ => by rw [length]; decide), length] at sent
  omega

end MiniWebSrv.WebSocket.Connection
