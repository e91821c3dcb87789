import MiniWebSrv.WebSocket.Frame

/-! # Unmasking in place

The two loops of `ProcessFrame` over the memory of the read buffer. The first one goes on while more
than a word is left, and the second one shifts the key down by a byte for each byte.
-/

namespace MiniWebSrv.WebSocket.Connection

/-- `*(unsigned int *)p` -/
def wordAt (mem : Mem Nat Byte) (p : Ptr Nat) : BitVec 32 :=
  Bits.load32 (mem p.block p.off) (mem p.block (p.off + 1)) (mem p.block (p.off + 2))
    (mem p.block (p.off + 3))

/-- The first loop, with the distance from `ProcessPos` to `EndPos`: the memory, and where the second
    loop starts. -/
def unmaskWords (maskKey : BitVec 32) (mem : Mem Nat Byte) (processPos : Ptr Nat) (left : Nat) :
    Mem Nat Byte × Ptr Nat × Nat :=
  if 4 < left then
    unmaskWords maskKey (mem.write processPos (Bits.store32 (wordAt mem processPos ^^^ maskKey)))
      (processPos.add 4) (left - 4)
  else
    (mem, processPos, left)

/-- The second loop. -/
def unmaskTail (maskKey : BitVec 32) (mem : Mem Nat Byte) (processPos : Ptr Nat) :
    Nat → Mem Nat Byte
  | 0 => mem
  | left + 1 =>
      let byte := mem processPos.block processPos.off ^^^ Bits.byteAt maskKey 0
      unmaskTail (maskKey >>> 8) (mem.write processPos [byte]) (processPos.add 1) left

/-- Both of them, on a payload. -/
def unmaskInPlace (maskKey : BitVec 32) (mem : Mem Nat Byte) (payloadPos : Ptr Nat) (length : Nat) :
    Mem Nat Byte :=
  let words :=
    if 4 ≤ length then unmaskWords maskKey mem payloadPos length else (mem, payloadPos, length)
  unmaskTail maskKey words.1 words.2.1 words.2.2

variable (maskKey : BitVec 32) (mem : Mem Nat Byte) (p : Ptr Nat)

/-! ## The loops, in terms of the payload -/

theorem unmaskTail_eq (left : Nat) :
    unmaskTail maskKey mem p left = mem.write p (unmaskBytes maskKey (mem.read p left)) := by
  induction left generalizing maskKey mem p with
  | zero => exact (Mem.write_nil mem p).symm
  | succ left ih =>
      have behind := Mem.read_behind mem p [mem p.block p.off ^^^ Bits.byteAt maskKey 0] left
      rw [List.length_singleton] at behind
      rw [unmaskTail, ih, behind, Mem.read, unmaskBytes]
      exact Mem.write_append mem p [mem p.block p.off ^^^ Bits.byteAt maskKey 0] _

theorem unmask_read (left : Nat) :
    unmask maskKey (mem.read p (left + 5)) = Bits.store32 (wordAt mem p ^^^ maskKey) ++
      unmask maskKey (mem.read (p.add 4) (left + 1)) := by
  have whole : mem.read p (left + 5) = mem p.block p.off :: mem p.block (p.off + 1) ::
      mem p.block (p.off + 2) :: mem p.block (p.off + 3) :: mem p.block (p.off + 4) ::
      mem.read (p.add 5) left := rfl
  have rest : mem.read (p.add 4) (left + 1) =
      mem p.block (p.off + 4) :: mem.read (p.add 5) left := rfl
  rw [whole, rest, unmask, wordAt]

theorem unmask_short {bytes : List Byte} (short : bytes.length ≤ 4) :
    unmask maskKey bytes = unmaskBytes maskKey bytes := by
  rw [unmask]
  rintro b0 b1 b2 b3 next rest rfl
  simp only [List.length_cons] at short
  omega

theorem unmaskWords_eq (left : Nat) :
    unmaskTail maskKey (unmaskWords maskKey mem p left).1 (unmaskWords maskKey mem p left).2.1
      (unmaskWords maskKey mem p left).2.2 =
      mem.write p (unmask maskKey (mem.read p left)) := by
  fun_induction unmaskWords maskKey mem p left with
  | case1 mem p left more ih =>
      obtain ⟨k, rfl⟩ : ∃ k, left = k + 5 := ⟨left - 5, by omega⟩
      have behind := Mem.read_behind mem p (Bits.store32 (wordAt mem p ^^^ maskKey)) (k + 1)
      have length : (Bits.store32 (wordAt mem p ^^^ maskKey)).length = 4 := rfl
      have rest : k + 5 - 4 = k + 1 := rfl
      rw [length] at behind
      rw [ih, rest, behind, unmask_read, ← Mem.write_append, length]
  | case2 mem p left short =>
      rw [unmaskTail_eq, unmask_short]
      rw [Mem.read_length]
      omega

theorem unmaskInPlace_eq (length : Nat) :
    unmaskInPlace maskKey mem p length = mem.write p (unmask maskKey (mem.read p length)) := by
  rw [unmaskInPlace]
  split
  · exact unmaskWords_eq maskKey mem p length
  · rw [unmaskTail_eq, unmask_short]
    rw [Mem.read_length]
    omega

theorem processFrame_masked {c : Connection} {buff : Ptr Nat} {length : Nat}
    (masked : (frameHeader c.readBuff.mem buff length).isMask = true)
    (inside : (frameHeader c.readBuff.mem buff length).payload.off +
      (frameHeader c.readBuff.mem buff length).length ≤ c.readBuff.buffLength) :
    let h := frameHeader c.readBuff.mem buff length
    let mem := unmaskInPlace (wordAt c.readBuff.mem h.maskPos) c.readBuff.mem h.payload h.length
    c.processFrame buff length = { c with readBuff := { c.readBuff with mem := mem } }.processPayload
      h.isFin h.opCode h.payload h.length := by
  simp only [processFrame, if_pos masked, if_pos inside, unmaskInPlace_eq]
  rfl

/-! ## The bytes -/

variable {maskKey}

theorem unmaskBytes_getElem? (bytes : List Byte) (i : Nat) :
    (unmaskBytes maskKey bytes)[i]? = bytes[i]?.map (· ^^^ Bits.byteAt maskKey i) := by
  induction bytes generalizing maskKey i with
  | nil => rfl
  | cons b rest ih =>
      cases i with
      | zero => rfl
      | succ i => rw [unmaskBytes, List.getElem?_cons_succ, List.getElem?_cons_succ, ih,
          Bits.byteAt_shift]

theorem unmask_getElem? (bytes : List Byte) (i : Nat) :
    (unmask maskKey bytes)[i]? = bytes[i]?.map (· ^^^ Bits.byteAt maskKey (i % 4)) := by
  fun_induction unmask maskKey bytes generalizing i with
  | case1 b0 b1 b2 b3 next rest ih =>
      obtain ⟨word0, word1, word2, word3⟩ := Bits.byteAt_load32 b0 b1 b2 b3
      have first : Bits.store32 (Bits.load32 b0 b1 b2 b3 ^^^ maskKey) =
          [b0 ^^^ Bits.byteAt maskKey 0, b1 ^^^ Bits.byteAt maskKey 1,
            b2 ^^^ Bits.byteAt maskKey 2, b3 ^^^ Bits.byteAt maskKey 3] := by
        simp only [Bits.store32, Bits.byteAt_xor, word0, word1, word2, word3]
      rw [first]
      rcases i with _ | _ | _ | _ | i
      · rfl
      · rfl
      · rfl
      · rfl
      · rw [show i + 1 + 1 + 1 + 1 = i + 4 from rfl, Nat.add_mod_right]
        exact ih i
  | case2 bytes short =>
      have length : bytes.length ≤ 4 := by
        rcases bytes with _ | ⟨b0, _ | ⟨b1, _ | ⟨b2, _ | ⟨b3, _ | ⟨next, rest⟩⟩⟩⟩⟩
        case cons.cons.cons.cons.cons => exact absurd rfl (short b0 b1 b2 b3 next rest)
        all_goals simp only [List.length_cons, List.length_nil]; omega
      rw [unmaskBytes_getElem?]
      by_cases inside : i < bytes.length
      · rw [Nat.mod_eq_of_lt (by omega)]
      · rw [List.getElem?_eq_none (Nat.le_of_not_lt inside), Option.map_none, Option.map_none]

/-- The bytes of the key, by their indices. -/
theorem byteAt_key (key : Fin 4 → Byte) (i : Nat) :
    Bits.byteAt (Bits.load32 (key 0) (key 1) (key 2) (key 3)) (i % 4) = key (Fin.ofNat 4 i) := by
  obtain ⟨byte0, byte1, byte2, byte3⟩ := Bits.byteAt_load32 (key 0) (key 1) (key 2) (key 3)
  have place : i % 4 = (Fin.ofNat 4 i).val := rfl
  rw [place]
  generalize Fin.ofNat 4 i = j
  obtain ⟨_ | _ | _ | _ | n, small⟩ := j
  · exact byte0
  · exact byte1
  · exact byte2
  · exact byte3
  · omega

/-- Each byte of the payload is masked with its byte of the key, and the others are left alone. -/
theorem unmaskInPlace_bytes (key : Fin 4 → Byte) (mem : Mem Nat Byte) (payloadPos : Ptr Nat)
    (length : Nat) :
    let after := unmaskInPlace (Bits.load32 (key 0) (key 1) (key 2) (key 3)) mem payloadPos length
    (∀ i < length, after payloadPos.block (payloadPos.off + i) =
        mem payloadPos.block (payloadPos.off + i) ^^^ key (Fin.ofNat 4 i)) ∧
      ∀ block i, ¬ (block = payloadPos.block ∧ payloadPos.off ≤ i ∧ i < payloadPos.off + length) →
        after block i = mem block i := by
  intro after
  have whole : after = mem.write payloadPos (unmask (Bits.load32 (key 0) (key 1) (key 2) (key 3))
      (mem.read payloadPos length)) := unmaskInPlace_eq _ mem payloadPos length
  rw [whole]
  simp only [Mem.write, unmask_getElem?, byteAt_key]
  constructor
  · intro i inside
    have there : (mem.read payloadPos length)[i]? =
        some (mem payloadPos.block (payloadPos.off + i)) := by
      rw [List.getElem?_eq_getElem (by rw [Mem.read_length]; exact inside), Mem.read_getElem]
    rw [if_pos ⟨trivial, Nat.le_add_right _ _⟩, Nat.add_sub_cancel_left, there, Option.map_some,
      Option.getD_some]
  · intro block i outside
    split
    · rename_i here
      have behind : length ≤ i - payloadPos.off := by
        by_contra inside
        exact outside ⟨here.1, here.2, by omega⟩
      rw [List.getElem?_eq_none (by rw [Mem.read_length]; exact behind), Option.map_none,
        Option.getD_none]
    · rfl

end MiniWebSrv.WebSocket.Connection
