import MiniWebSrv.Common.Bytes
import MiniWebSrv.Lib.Base64
import MiniWebSrv.Lib.Word

/-! # The accept key

`WSResponse` answers the key of a handshake with a digest in base 64. The encoder keeps the bits
which wait for the next byte in `Acc`, and counts the bytes modulo three.
-/

namespace MiniWebSrv.WebSocket

open Word

/-- `Bin6ToBase64` -/
def bin6ToBase64 (src : Byte) : Byte :=
  if src < 26 then ch 'A' + src
  else if src < 52 then ch 'a' - 26 + src
  else if src < 62 then ch '0' - 52 + src
  else if src = 62 then ch '+'
  else ch '/'

/-- The locals of `Base64Encode`, with the bytes from `OrigTarget` to `TargetBuff`. -/
structure Base64Encoder where
  target : List Byte
  acc : Byte
  mod3 : Nat

namespace Base64Encoder

/-- `Mod3` starts at the largest `unsigned int`. -/
def start : Base64Encoder := ⟨[], 0, max32⟩

def put (e : Base64Encoder) (bytes : List Byte) : Base64Encoder :=
  { e with target := e.target ++ bytes }

/-- A turn of the loop. -/
def step (e : Base64Encoder) (currVal : Byte) : Base64Encoder :=
  let mod3 := u32 (e.mod3 + 1)
  if mod3 = 3 ∨ mod3 = 0 then
    { e.put [bin6ToBase64 (currVal >>> 2)] with acc := (currVal &&& 3) <<< 4, mod3 := 0 }
  else if mod3 = 1 then
    let acc := e.acc ||| ((currVal &&& 0xF0) >>> 4)
    { e.put [bin6ToBase64 acc] with acc := (currVal &&& 0xF) <<< 2, mod3 := mod3 }
  else if mod3 = 2 then
    let acc := e.acc ||| ((currVal &&& 0xC0) >>> 6)
    { e.put [bin6ToBase64 acc, bin6ToBase64 (currVal &&& 0x3F)] with acc := acc, mod3 := mod3 }
  else
    { e with mod3 := mod3 }

/-- What comes behind the loop. -/
def finish (e : Base64Encoder) : Base64Encoder :=
  if e.mod3 ≠ 2 then
    if e.mod3 = 0 then e.put [bin6ToBase64 e.acc, ch '=', ch '=']
    else e.put [bin6ToBase64 e.acc, ch '=']
  else
    e

end Base64Encoder

/-- `Base64Encode`: its result, and the bytes which it has written. `SrcLength` is an
    `unsigned int`. -/
def base64Encode (src : List Byte) : Nat × List Byte :=
  let srcLength := u32 src.length
  let e := ((src.take srcLength).foldl Base64Encoder.step .start).finish
  (u32 e.target.length, e.target)

/-! ## Groups of three bytes -/

theorem bin6ToBase64_letter {n : Nat} (small : n < 64) :
    bin6ToBase64 (UInt8.ofNat n) = Base64.letter n := by
  have all : ∀ n : Fin 64, bin6ToBase64 (UInt8.ofNat n.val) = Base64.letter n.val := by
    decide +kernel
  exact all ⟨n, small⟩

theorem first_bits (x : Byte) :
    bin6ToBase64 (x >>> 2) = Base64.letter (x.toNat / 4) ∧
      (x &&& 3) <<< 4 = UInt8.ofNat (x.toNat % 4 * 16) := by
  have all : ∀ n : Fin 256, bin6ToBase64 (UInt8.ofFin n >>> 2) = Base64.letter (n.val / 4) ∧
      (UInt8.ofFin n &&& 3) <<< 4 = UInt8.ofNat (n.val % 4 * 16) := by decide +kernel
  exact all x.toFin

theorem second_bits (y : Byte) :
    (y &&& 0xF0) >>> 4 = UInt8.ofNat (y.toNat / 16) ∧
      (y &&& 0xF) <<< 2 = UInt8.ofNat (y.toNat % 16 * 4) := by
  have all : ∀ n : Fin 256, (UInt8.ofFin n &&& 0xF0) >>> 4 = UInt8.ofNat (n.val / 16) ∧
      (UInt8.ofFin n &&& 0xF) <<< 2 = UInt8.ofNat (n.val % 16 * 4) := by decide +kernel
  exact all y.toFin

theorem third_bits (z : Byte) :
    (z &&& 0xC0) >>> 6 = UInt8.ofNat (z.toNat / 64) ∧
      bin6ToBase64 (z &&& 0x3F) = Base64.letter (z.toNat % 64) := by
  have all : ∀ n : Fin 256, (UInt8.ofFin n &&& 0xC0) >>> 6 = UInt8.ofNat (n.val / 64) ∧
      bin6ToBase64 (UInt8.ofFin n &&& 0x3F) = Base64.letter (n.val % 64) := by decide +kernel
  exact all z.toFin

theorem or_bits {high low : Nat} (high_ : high < 4) (low_ : low < 16) :
    UInt8.ofNat (high * 16) ||| UInt8.ofNat low = UInt8.ofNat (high * 16 + low) := by
  have all : ∀ (high : Fin 4) (low : Fin 16), UInt8.ofNat (high.val * 16) ||| UInt8.ofNat low.val =
      UInt8.ofNat (high.val * 16 + low.val) := by decide +kernel
  exact all ⟨high, high_⟩ ⟨low, low_⟩

theorem or_bits' {high low : Nat} (high_ : high < 16) (low_ : low < 4) :
    UInt8.ofNat (high * 4) ||| UInt8.ofNat low = UInt8.ofNat (high * 4 + low) := by
  have all : ∀ (high : Fin 16) (low : Fin 4), UInt8.ofNat (high.val * 4) ||| UInt8.ofNat low.val =
      UInt8.ofNat (high.val * 4 + low.val) := by decide +kernel
  exact all ⟨high, high_⟩ ⟨low, low_⟩

namespace Base64Encoder

variable {e : Base64Encoder}

/-- Between two groups. -/
def Between (e : Base64Encoder) : Prop := u32 (e.mod3 + 1) = 3 ∨ u32 (e.mod3 + 1) = 0

theorem step_first (between : e.Between) (x : Byte) :
    e.step x = ⟨e.target ++ [Base64.letter (x.toNat / 4)], UInt8.ofNat (x.toNat % 4 * 16), 0⟩ := by
  obtain ⟨letter, left⟩ := first_bits x
  have turn : u32 (e.mod3 + 1) = 3 ∨ u32 (e.mod3 + 1) = 0 := between
  simp only [step, put, if_pos turn, letter, left]

theorem step_second (target : List Byte) (x y : Byte) :
    step ⟨target, UInt8.ofNat (x.toNat % 4 * 16), 0⟩ y =
      ⟨target ++ [Base64.letter (x.toNat % 4 * 16 + y.toNat / 16)],
        UInt8.ofNat (y.toNat % 16 * 4), 1⟩ := by
  have small := y.toNat_lt
  obtain ⟨bits, left⟩ := second_bits y
  have next : u32 (0 + 1) = 1 := rfl
  simp only [step, put, next, bits, left, or_bits (show x.toNat % 4 < 4 by omega)
    (show y.toNat / 16 < 16 by omega), bin6ToBase64_letter
    (show x.toNat % 4 * 16 + y.toNat / 16 < 64 by omega), if_true]
  rfl

theorem step_third (target : List Byte) (y z : Byte) : ∃ acc,
    step ⟨target, UInt8.ofNat (y.toNat % 16 * 4), 1⟩ z =
      ⟨target ++ [Base64.letter (y.toNat % 16 * 4 + z.toNat / 64), Base64.letter (z.toNat % 64)],
        acc, 2⟩ := by
  have small := z.toNat_lt
  obtain ⟨bits, letter⟩ := third_bits z
  have next : u32 (1 + 1) = 2 := rfl
  refine ⟨UInt8.ofNat (y.toNat % 16 * 4 + z.toNat / 64), ?_⟩
  simp only [step, put, next, bits, letter, or_bits' (show y.toNat % 16 < 16 by omega)
    (show z.toNat / 64 < 4 by omega), bin6ToBase64_letter
    (show y.toNat % 16 * 4 + z.toNat / 64 < 64 by omega), if_true]
  rfl

/-- From between two groups on, the rest of the string is encoded. Of an empty rest, there is
    nothing to write if there has been a group before it. -/
theorem foldl_encode (between : e.Between) (src : List Byte) (some_ : src ≠ [] ∨ e.mod3 = 2) :
    (src.foldl step e).finish.target = e.target ++ Base64.encode src := by
  fun_induction Base64.encode src generalizing e with
  | case1 =>
      have whole : e.mod3 = 2 := some_.resolve_left fun more => more rfl
      rw [List.foldl_nil, finish, if_neg (fun part => part whole), List.append_nil]
  | case2 x =>
      rw [List.foldl_cons, List.foldl_nil, step_first between]
      simp only [finish, put, bin6ToBase64_letter (show x.toNat % 4 * 16 < 64 by omega)]
      rw [if_pos (by decide), if_true, List.append_assoc]
      rfl
  | case3 x y =>
      rw [List.foldl_cons, List.foldl_cons, List.foldl_nil, step_first between, step_second]
      simp only [finish, put, bin6ToBase64_letter (show y.toNat % 16 * 4 < 64 by omega)]
      rw [if_pos (by decide), if_neg (by decide), List.append_assoc, List.append_assoc]
      rfl
  | case4 x y z rest ih =>
      obtain ⟨acc, third⟩ := step_third (e.target ++ [Base64.letter (x.toNat / 4)] ++
          [Base64.letter (x.toNat % 4 * 16 + y.toNat / 16)]) y z
      rw [List.foldl_cons, List.foldl_cons, List.foldl_cons, step_first between, step_second, third,
        ih (Or.inl rfl) (Or.inr rfl)]
      simp only [Base64.group, List.append_assoc, List.cons_append, List.nil_append]

end Base64Encoder

/-- What is written for the bytes which the length counts. -/
theorem base64Encode_eq {src : List Byte} (some_ : src ≠ []) (counted : src.length < size32) :
    base64Encode src = (u32 (4 * ((src.length + 2) / 3)), Base64.encode src) := by
  have whole : src.take (u32 src.length) = src := by
    rw [u32_of_lt counted, List.take_length]
  have encoded : (src.foldl Base64Encoder.step .start).finish.target = Base64.encode src :=
    Base64Encoder.foldl_encode (Or.inr rfl) src (Or.inl some_)
  simp only [base64Encode, whole, encoded, Base64.encode_length]

/-- The letters of a string are counted, and what they are decoded to is the string. -/
def EncodesExactly (src : List Byte) : Prop :=
  ∃ written, base64Encode src = (4 * ((src.length + 2) / 3), written) ∧
    written.length = 4 * ((src.length + 2) / 3) ∧ Base64.decode written = some src

theorem base64Encode_exact {src : List Byte} (some_ : src ≠ [])
    (fits : 4 * ((src.length + 2) / 3) < size32) : EncodesExactly src := by
  have counted : src.length < size32 := by omega
  refine ⟨Base64.encode src, ?_, Base64.encode_length src, Base64.decode_encode src⟩
  rw [base64Encode_eq some_ counted, u32_of_lt fits]

/-- A digest. -/
theorem base64Encode_exact_digest : EncodesExactly (List.replicate 20 7) :=
  base64Encode_exact (by decide) (by decide)

/-- The length of 4 GiB is zero to the encoder, which writes one letter and one sign of padding. -/
theorem base64Encode_wraps {src : List Byte} (long : src.length = size32) :
    base64Encode src = (2, [ch 'A', ch '=']) := by
  have none_ : u32 src.length = 0 := by rw [long]; rfl
  simp only [base64Encode, none_, List.take_zero, List.foldl_nil]
  rfl

theorem base64Encode_inexact : ¬ ∀ src : List Byte, src ≠ [] → EncodesExactly src := by
  intro exact_
  have length : (List.replicate size32 (0 : Byte)).length = size32 := List.length_replicate
  have some_ : List.replicate size32 (0 : Byte) ≠ [] := by
    intro none_
    rw [none_] at length
    exact absurd length (by decide)
  obtain ⟨written, encoded, -, -⟩ := exact_ _ some_
  rw [base64Encode_wraps length, length] at encoded
  have count : 2 = 4 * ((size32 + 2) / 3) := congrArg Prod.fst encoded
  exact absurd count (by decide)

/-! ## The header -/

/-- `AuthHash`, the five words of a digest in the order of its bytes. -/
structure Digest where
  bytes : List Byte
  size : bytes.length = 20

/-- `WebSocketGUID` -/
def webSocketGUID : List Byte := text "258EAFA5-E914-47DA-95CA-C5AB0DC85B11"

/-- The constructor of `WSResponse`: `SecWebSocketAccept` is assigned from `EncStr`, which has 32
    bytes of the stack. -/
def secWebSocketAccept (sha1 : List Byte → Digest) (secWebSocketKey : List Byte)
    (encStr : List Byte) : List Byte :=
  let encoded := base64Encode (sha1 (secWebSocketKey ++ webSocketGUID)).bytes
  ((encoded.2 ++ encStr.drop encoded.2.length).set encoded.1 0).takeWhile (· ≠ 0)

theorem encode_ne_zero (bytes : List Byte) : ∀ c ∈ Base64.encode bytes, c ≠ 0 := by
  rintro c member rfl
  exact absurd (Base64.encode_printable bytes 0 member) (by decide)

/-- Whatever the stack held, the header is the digest in 28 letters. The letters and the NUL behind
    them are inside the 32 bytes. -/
theorem secWebSocketAccept_eq (sha1 : List Byte → Digest) (secWebSocketKey : List Byte)
    {encStr : List Byte} (size : encStr.length = 32) :
    secWebSocketAccept sha1 secWebSocketKey encStr =
      Base64.encode (sha1 (secWebSocketKey ++ webSocketGUID)).bytes := by
  simp only [secWebSocketAccept]
  obtain ⟨digest, twenty⟩ := sha1 (secWebSocketKey ++ webSocketGUID)
  have some_ : digest ≠ [] := by
    intro none_
    rw [none_] at twenty
    exact absurd twenty (by decide)
  have written : (Base64.encode digest).length = 28 := by rw [Base64.encode_length, twenty]
  have encoded : base64Encode digest = (28, Base64.encode digest) := by
    rw [base64Encode_eq some_ (by rw [twenty]; decide), twenty]
    rfl
  obtain ⟨first, rest, behind⟩ : ∃ first rest, encStr.drop 28 = first :: rest :=
    List.exists_cons_of_length_pos (by rw [List.length_drop, size]; decide)
  simp only [encoded, written, behind]
  rw [← written, List.set_append_right _ _ (Nat.le_refl _), Nat.sub_self, List.set_cons_zero,
    List.takeWhile_append_of_pos (by simpa using encode_ne_zero digest),
    List.takeWhile_cons_of_neg (by decide), List.append_nil]

end MiniWebSrv.WebSocket
