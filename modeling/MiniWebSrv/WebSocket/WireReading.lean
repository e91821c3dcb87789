import MiniWebSrv.Lib.WireFrame
import MiniWebSrv.WebSocket.Fragments
import MiniWebSrv.WebSocket.Writes

/-! # Reading any frame

What `ProcessIncoming` and `ProcessFrame` find in the bytes of a frame, whether the protocol lets a
client send it or not.
-/

namespace MiniWebSrv.WebSocket

open Word WireFrame

/-! ## Bits -/

theorem marker_eq (b : Byte) : (b &&& 0x7F).toNat = b.toNat % 128 := by
  have low := Nat.and_two_pow_sub_one_eq_mod b.toNat 7
  rw [UInt8.toNat_and]
  exact low

theorem nibble_eq (b : Byte) : b &&& OpCode.mask = UInt8.ofNat (b.toNat % 16) := by
  have low := Nat.and_two_pow_sub_one_eq_mod b.toNat 4
  apply UInt8.toNat_inj.mp
  rw [UInt8.toNat_and, UInt8.toNat_ofNat', Nat.mod_eq_of_lt (by omega)]
  exact low

/-- The highest bit, which is FIN in the first byte and the mask bit in the second. -/
theorem high_bit (b : Byte) : b &&& 128 ≠ 0 ↔ 128 ≤ b.toNat := by
  have all : ∀ n : Fin 256, UInt8.ofNat n.val &&& 128 ≠ 0 ↔ 128 ≤ n.val := by decide +kernel
  have here := all ⟨b.toNat, b.toNat_lt⟩
  rwa [UInt8.ofNat_toNat] at here

/-! ## The length -/

namespace Connection

/-- What the second byte and the bytes of the length field tell about the length of the frame. -/
def lengthOf : List Byte → FrameLength
  | _ :: second :: rest =>
      let marker := second.toNat % 128
      let form := LengthForm.ofMarker marker
      let withMask := fun n => if 128 ≤ second.toNat then u64 (n + 4) else n
      if rest.length < form.width then
        .wanted (2 + form.width)
      else if marker < 126 then
        .known (withMask (marker + 2))
      else
        .known (withMask (u64 (number (rest.take form.width) + 2 + 2)))
  | _ => .wanted 2

theorem headerLength_eq (second : Byte) :
    headerLength second = 2 + (LengthForm.ofMarker (second.toNat % 128)).width := by
  have marker := marker_eq second
  simp only [headerLength, LengthForm.ofMarker, UInt8.lt_iff_toNat_lt, ← UInt8.toNat_inj, marker,
    UInt8.reduceToNat]
  split_ifs <;> rfl

theorem determineLength_eq (mem : Mem Nat Byte) (p : Ptr Nat) (n : Nat) :
    determineLength mem p n = lengthOf (mem.read p n) := by
  match n with
  | 0 | 1 => rfl
  | n + 2 =>
      have marker := marker_eq (mem p.block (p.off + 1))
      have high := high_bit (mem p.block (p.off + 1))
      have field : ∀ k, k ≤ n → (mem.read ((p.add 1).add 1) n).take k = mem.read (p.add 2) k :=
        fun k le => Mem.take_read mem (p.add 2) le
      have two : ¬n + 2 < 2 := by omega
      simp only [determineLength, lengthOf, Mem.read, if_neg two, Mem.read_length, Ptr.add_block,
        Ptr.add_off, UInt8.lt_iff_toNat_lt, ← UInt8.toNat_inj, marker, flagMask,
        UInt8.reduceToNat, LengthForm.ofMarker]
      by_cases short : (mem p.block (p.off + 1)).toNat % 128 < 126
      · simp only [if_pos short, LengthForm.width, Nat.not_lt_zero, if_false]
        exact congrArg _ (if_congr high rfl rfl)
      by_cases medium : (mem p.block (p.off + 1)).toNat % 128 = 126
      · have small : u64 (readBig16 mem (p.add 2) + 2 + 2) = readBig16 mem (p.add 2) + 2 + 2 := by
          have lt := number_lt (mem.read (p.add 2) 2)
          have same : readBig16 mem (p.add 2) = number (mem.read (p.add 2) 2) := rfl
          simp only [Mem.read_length, values] at lt
          simp only [u64, same]
          omega
        simp only [if_neg short, if_pos medium, LengthForm.width]
        by_cases enough : n < 2
        · rw [if_pos enough, if_pos (by omega)]
        · rw [if_neg enough, if_neg (by omega), field 2 (by omega)]
          have same : number (mem.read (p.add 2) 2) = readBig16 mem (p.add 2) := rfl
          rw [same, small]
          exact congrArg _ (if_congr high rfl rfl)
      · simp only [if_neg short, if_neg medium, LengthForm.width]
        by_cases enough : n < 8
        · rw [if_pos enough, if_pos (by omega)]
        · rw [if_neg enough, if_neg (by omega), field 8 (by omega)]
          exact congrArg _ (if_congr high rfl rfl)

/-- The length which the connection goes by is the one which the bytes in front tell. -/
def Remembered (c : Connection) : Prop :=
  c.currFrameLength = unknownFrameLength ∨
    lengthOf c.readBuff.available = .known c.currFrameLength

theorem Remembered.frameLength {c : Connection} (remembered : Remembered c) :
    c.frameLength = lengthOf c.readBuff.available := by
  have determined : determineLength c.readBuff.mem c.readBuff.getAvailableData.1
      c.readBuff.getAvailableData.2 = lengthOf c.readBuff.available := determineLength_eq _ _ _
  by_cases unknown : c.currFrameLength = unknownFrameLength
  · simp only [Connection.frameLength, if_pos unknown, determined]
  · simp only [Connection.frameLength, if_neg unknown]
    rcases remembered with other | known
    · exact absurd other unknown
    · exact known.symm

/-- A length which is known stays the same when more bytes follow. -/
theorem lengthOf_append {bytes : List Byte} {length : Nat} (more : List Byte)
    (known : lengthOf bytes = .known length) : lengthOf (bytes ++ more) = .known length := by
  match bytes with
  | [] | [_] => cases known
  | first :: second :: rest =>
      simp only [lengthOf, List.cons_append, List.length_append] at known ⊢
      by_cases short : rest.length < (LengthForm.ofMarker (second.toNat % 128)).width
      · rw [if_pos short] at known
        cases known
      · rw [if_neg short] at known
        rw [if_neg (by omega), List.take_append_of_le_length (by omega)]
        exact known

/-! ## The header -/

section Wire

variable {mem : Mem Nat Byte} {buff : Ptr Nat} {f : WireFrame.Frame}

/-- The length told by a frame, which is the right one unless its length field has 64 bits. -/
theorem lengthOf_encode (f : WireFrame.Frame) (rest : List Byte) :
    lengthOf (f.encode ++ rest) = .known (
      let withMask := fun n => if f.mask.isSome then u64 (n + 4) else n
      if f.form = .short then withMask (f.payload.length + 2)
      else withMask (u64 (f.payload.length + 2 + 2))) := by
  have width : f.lengthField.length = f.form.width := bigEndian_length _ _
  have number := f.length_read
  have fits := f.fits
  simp only [WireFrame.Frame.encode, List.cons_append, List.append_assoc, lengthOf,
    f.second_marker, f.second_mask, f.ofMarker_marker, List.take_left' width]
  rw [if_neg (by rw [List.length_append, width]; omega)]
  cases form : f.form with
  | short =>
      rw [form] at fits
      have less : LengthForm.short.marker f.payload.length < 126 := fits
      rw [if_pos less, if_pos rfl]
      rfl
  | medium | long =>
      have wide : ¬f.form.marker f.payload.length < 126 := by
        rw [form]
        simp only [LengthForm.marker]
        omega
      have other : ¬f.form = LengthForm.short := by
        rw [form]
        intro same
        cases same
      rw [if_neg wide] at number
      rw [form] at wide other
      rw [if_neg wide, if_neg other, number]

theorem parts_of_wire (there : mem.read buff f.encode.length = f.encode) :
    mem.read buff 2 = [f.first, f.second] ∧
      mem.read (buff.add (2 + f.form.width)) (keyBytes f.mask).length = keyBytes f.mask ∧
      mem.read (buff.add f.headLength) f.payload.length = covered f.mask f.payload := by
  have width : f.lengthField.length = f.form.width := bigEndian_length _ _
  have whole : mem.read buff f.encode.length = [f.first, f.second] ++ _ := there
  obtain ⟨bytes, behind⟩ := Mem.read_parts whole
  obtain ⟨-, behind⟩ := Mem.read_parts (n := (f.lengthField ++ _).length) behind
  obtain ⟨key, payload⟩ := Mem.read_parts (n := (keyBytes f.mask ++ _).length) behind
  simp only [Ptr.add_add, List.length_cons, List.length_nil, width, covered_length] at key payload
  exact ⟨bytes, key, payload⟩

theorem frameHeader_of_wire (there : mem.read buff f.encode.length = f.encode)
    (short : f.encode.length < size32) :
    frameHeader mem buff f.encode.length =
      { isFin := f.fin
        isMask := f.mask.isSome
        opCode := UInt8.ofNat f.opCode.val
        maskPos := buff.add (2 + f.form.width)
        payload := buff.add f.headLength
        length := f.payload.length } := by
  have bytes := (parts_of_wire there).1
  simp only [Mem.read, List.cons.injEq, Ptr.add_block, Ptr.add_off, and_true] at bytes
  obtain ⟨first, second⟩ := bytes
  have fin : decide (f.first &&& flagFin ≠ 0) = f.fin := by
    rw [Bool.eq_iff_iff, decide_eq_true_eq]
    exact (high_bit _).trans f.first_fin
  have isMask : decide (f.second &&& flagMask ≠ 0) = f.mask.isSome := by
    rw [Bool.eq_iff_iff, decide_eq_true_eq]
    exact (high_bit _).trans f.second_mask
  have payload : (if f.mask.isSome then (buff.add (2 + f.form.width)).add 4
      else buff.add (2 + f.form.width)) = buff.add f.headLength := by
    rw [WireFrame.Frame.headLength]
    cases f.mask with
    | none => rfl
    | some key => exact Ptr.add_add _ _ _
  have distance : sub32 f.encode.length (buff.off + f.headLength - buff.off) = f.payload.length := by
    have length := f.encode_length
    rw [Nat.add_sub_cancel_left, sub32_of_le (by omega) short]
    omega
  simp only [frameHeader, first, second, fin, isMask, nibble_eq, f.first_opCode, headerLength_eq,
    f.second_marker, f.ofMarker_marker, payload, Ptr.add_off, distance]

/-! ## The payload -/

/-- The connection when the payload of the frame has been unmasked in place. -/
def unmasked (c : Connection) (f : WireFrame.Frame) (buff : Ptr Nat) : Connection :=
  { c with readBuff := { c.readBuff with
      mem := c.readBuff.mem.write (buff.add f.headLength) f.payload } }

/-- The bytes of the frame are in the read buffer, behind `buff`. -/
structure Holds (b : StreamReadBuff Config.readBuffSize) (f : WireFrame.Frame) (buff : Ptr Nat) :
    Prop where
  there : b.mem.read buff f.encode.length = f.encode
  inside : buff.off + f.encode.length ≤ b.buffLength

theorem processFrame_of_wire {c : Connection} (holds : Holds c.readBuff f buff)
    (short : f.encode.length < size32) :
    c.processFrame buff f.encode.length =
      (c.unmasked f buff).processPayload f.fin (UInt8.ofNat f.opCode.val) (buff.add f.headLength)
        f.payload.length := by
  obtain ⟨there, inside⟩ := holds
  obtain ⟨-, key, payload⟩ := parts_of_wire there
  have length := f.encode_length
  have fits : (buff.add f.headLength).off + f.payload.length ≤ c.readBuff.buffLength := by
    rw [Ptr.add_off]
    omega
  simp only [processFrame, frameHeader_of_wire there short]
  cases mask : f.mask with
  | none =>
      rw [mask] at payload
      have same : c.unmasked f buff = c := by
        have bytes : c.readBuff.mem.read (buff.add f.headLength) f.payload.length = f.payload :=
          payload
        have written := Mem.write_read_self c.readBuff.mem (buff.add f.headLength) f.payload.length
        rw [bytes] at written
        rw [unmasked, written]
      rw [same]
      rfl
  | some key' =>
      obtain ⟨k0, k1, k2, k3⟩ := key'
      rw [mask] at key payload
      have keyAt : maskKeyAt c.readBuff.mem (buff.add (2 + f.form.width)) =
          Bits.load32 k0 k1 k2 k3 := by
        simp only [keyBytes, List.length_cons, List.length_nil, Mem.read, List.cons.injEq,
          Ptr.add_block, Ptr.add_off, and_true] at key
        obtain ⟨byte0, byte1, byte2, byte3⟩ := key
        simp only [maskKeyAt, Ptr.add_block, Ptr.add_off]
        exact congr (congr (congr (congrArg Bits.load32 byte0) byte1) byte2) byte3
      simp only [Option.isSome_some, if_true, if_pos fits, keyAt, payload, unmask_eq, covered,
        masked_masked]
      rfl

end Wire

/-! ## What is left alone -/

theorem processControlFrame_sameInput {c d : Connection} {op : OpCode} {payload : Ptr Nat}
    {length : Nat} {r : CloseReason}
    (run : c.processControlFrame op payload length = some (r, d)) : SameInput c d := by
  by_cases pong : op = OpCode.pong
  · simp only [processControlFrame, if_pos pong, Option.some.injEq, Prod.mk.injEq] at run
    exact run.2 ▸ .refl c
  by_cases ping : op = OpCode.ping
  · simp only [processControlFrame, if_neg pong, if_pos ping, bind, Option.bind_eq_some_iff,
      Option.some.injEq, Prod.mk.injEq] at run
    obtain ⟨⟨sent, e⟩, sends, -, rfl⟩ := run
    obtain ⟨rfl, mem, rfl⟩ := sendControlFrame_some sends
    obtain ⟨⟨reads, safe⟩, buffer, length, opCode, message⟩ :=
      (c.queued 2 mem).startAsyncWrite_sameInput
    exact ⟨⟨reads, safe⟩, buffer, length, opCode, message⟩
  by_cases close : op = OpCode.close
  · simp only [processControlFrame, if_neg pong, if_neg ping, if_pos close] at run
    cases handler : c.myHandler with
    | false =>
        simp only [handler, Bool.false_eq_true, if_false, Option.some.injEq, Prod.mk.injEq] at run
        exact run.2 ▸ .refl c
    | true =>
        simp only [handler, if_true] at run
        split at run
        · cases run
        simp only [bind, Option.bind_eq_some_iff, Option.some.injEq, Prod.mk.injEq] at run
        obtain ⟨⟨sent, e⟩, sends, -, rfl⟩ := run
        obtain ⟨rfl, mem, rfl⟩ := sendCloseInternal_some sends
        exact (Shut.told handler _ mem).sameInput
  · simp only [processControlFrame, if_neg pong, if_neg ping, if_neg close, Option.some.injEq,
      Prod.mk.injEq] at run
    exact run.2 ▸ .refl c

/-- Processing a payload does not touch the read buffer. -/
theorem processPayload_buffer {c d : Connection} {fin : Bool} {op : OpCode} {payload : Ptr Nat}
    {length : Nat} {r : CloseReason}
    (run : c.processPayload fin op payload length = some (r, d)) :
    d.readBuff = c.readBuff ∧ d.currFrameLength = c.currFrameLength := by
  by_cases data : op < OpCode.controlBegin
  case neg =>
    cases fin with
    | true =>
        simp only [processPayload, if_true, if_neg data] at run
        have same := processControlFrame_sameInput run
        exact ⟨same.buffer, same.length⟩
    | false =>
        simp only [processPayload, Bool.false_eq_true, if_false, if_neg data, Option.some.injEq,
          Prod.mk.injEq] at run
        exact run.2 ▸ ⟨rfl, rfl⟩
  case pos =>
    cases taken : c.payloadBytes payload length <;> cases fin <;>
      simp only [processPayload, Bool.false_eq_true, if_false, if_true, if_pos data, taken, bind,
        Option.bind_none, Option.bind_some] at run <;>
      split_ifs at run <;> cases run <;> exact ⟨rfl, rfl⟩

/-! ## Some frames -/

/-- A small masked frame. -/
def small (fin : Bool) (opCode : Fin 16) (payload : List Byte)
    (fits : payload.length < LengthForm.short.bound) : WireFrame.Frame where
  fin := fin
  reserved := ⟨0, Nat.succ_pos 7⟩
  opCode := opCode
  mask := some (1, 2, 3, 4)
  form := .short
  payload := payload
  fits := fits

/-- A masked text of one letter. -/
def letter : WireFrame.Frame := small true ⟨1, Nat.one_lt_succ_succ 14⟩ [0x61] (by decide)

end Connection

end MiniWebSrv.WebSocket
