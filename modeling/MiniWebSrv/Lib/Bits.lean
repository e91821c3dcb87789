import Mathlib.Data.List.Basic

/-! # Words in memory

A little-endian word and its bytes, and what masking the bytes by the word gives.
-/

namespace MiniWebSrv.Bits

/-- The 32-bit word stored as the bytes `a b c d`, least significant byte first. -/
def load32 (a b c d : UInt8) : BitVec 32 := d.toBitVec ++ c.toBitVec ++ b.toBitVec ++ a.toBitVec

/-- The `i`-th byte of a word, counted from the least significant one. -/
def byteAt (w : BitVec 32) (i : Nat) : UInt8 := ⟨w.extractLsb' (8 * i) 8⟩

def store32 (w : BitVec 32) : List UInt8 := [byteAt w 0, byteAt w 1, byteAt w 2, byteAt w 3]

theorem getLsbD_load32 (a b c d : UInt8) (i : Nat) :
    (load32 a b c d).getLsbD i =
      if i < 8 then a.toBitVec.getLsbD i
      else if i < 16 then b.toBitVec.getLsbD (i - 8)
      else if i < 24 then c.toBitVec.getLsbD (i - 16)
      else d.toBitVec.getLsbD (i - 24) := by
  unfold load32
  rw [BitVec.getLsbD_append, BitVec.getLsbD_append, BitVec.getLsbD_append, Nat.sub_sub, Nat.sub_sub]
  split_ifs <;> first | rfl | omega

theorem byteAt_load32 (a b c d : UInt8) :
    byteAt (load32 a b c d) 0 = a ∧ byteAt (load32 a b c d) 1 = b ∧
      byteAt (load32 a b c d) 2 = c ∧ byteAt (load32 a b c d) 3 = d := by
  refine ⟨?_, ?_, ?_, ?_⟩ <;>
  · apply UInt8.eq_of_toBitVec_eq
    apply BitVec.eq_of_getLsbD_eq
    intro i hi
    simp only [byteAt, BitVec.getLsbD_extractLsb', hi, decide_true, Bool.true_and, getLsbD_load32]
    split_ifs <;> first | omega | (congr 1; omega)

theorem byteAt_xor (v w : BitVec 32) (i : Nat) : byteAt (v ^^^ w) i = byteAt v i ^^^ byteAt w i := by
  apply UInt8.eq_of_toBitVec_eq
  simp only [byteAt, UInt8.toBitVec_xor, BitVec.extractLsb'_xor]

/-- Shifting a word right by a byte moves the bytes down. -/
theorem byteAt_shift (w : BitVec 32) (i : Nat) : byteAt (w >>> 8) i = byteAt w (i + 1) := by
  apply UInt8.eq_of_toBitVec_eq
  apply BitVec.eq_of_getLsbD_eq
  intro j hj
  simp only [byteAt, BitVec.getLsbD_extractLsb', BitVec.getLsbD_ushiftRight]
  congr 2
  omega

end MiniWebSrv.Bits
