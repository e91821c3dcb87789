import Mathlib.Data.List.Basic

/-! # Base 64

Three bytes are written as four letters of six bits each, and one or two bytes at the end with
padding behind their letters. A text is decoded only if it is what the encoding gives: the padding
comes at the end, and the bits which no byte is made of are zero.
-/

namespace MiniWebSrv.Base64

/-- The letter of a value below 64. -/
def letter (n : Nat) : UInt8 :=
  if n < 26 then UInt8.ofNat (65 + n)
  else if n < 52 then UInt8.ofNat (97 + (n - 26))
  else if n < 62 then UInt8.ofNat (48 + (n - 52))
  else if n = 62 then 43
  else 47

def value (c : UInt8) : Option Nat :=
  if 65 ≤ c.toNat ∧ c.toNat ≤ 90 then some (c.toNat - 65)
  else if 97 ≤ c.toNat ∧ c.toNat ≤ 122 then some (c.toNat - 97 + 26)
  else if 48 ≤ c.toNat ∧ c.toNat ≤ 57 then some (c.toNat - 48 + 52)
  else if c.toNat = 43 then some 62
  else if c.toNat = 47 then some 63
  else none

/-- An equals sign. -/
def pad : UInt8 := 61

theorem value_letter {n : Nat} (small : n < 64) : value (letter n) = some n := by
  have all : ∀ n : Fin 64, value (letter n.val) = some n.val := by decide +kernel
  exact all ⟨n, small⟩

theorem letter_ne_pad {n : Nat} (small : n < 64) : letter n ≠ pad := by
  have all : ∀ n : Fin 64, letter n.val ≠ pad := by decide +kernel
  exact all ⟨n, small⟩

/-! ## Encoding -/

/-- The letters of three bytes. -/
def group (x y z : UInt8) : List UInt8 :=
  [letter (x.toNat / 4), letter (x.toNat % 4 * 16 + y.toNat / 16),
    letter (y.toNat % 16 * 4 + z.toNat / 64), letter (z.toNat % 64)]

def encode : List UInt8 → List UInt8
  | [] => []
  | [x] => [letter (x.toNat / 4), letter (x.toNat % 4 * 16), pad, pad]
  | [x, y] =>
      [letter (x.toNat / 4), letter (x.toNat % 4 * 16 + y.toNat / 16), letter (y.toNat % 16 * 4),
        pad]
  | x :: y :: z :: rest => group x y z ++ encode rest

theorem encode_length (bytes : List UInt8) :
    (encode bytes).length = 4 * ((bytes.length + 2) / 3) := by
  fun_induction encode bytes with
  | case1 => rfl
  | case2 x => simp only [List.length_cons, List.length_nil]
  | case3 x y => simp only [List.length_cons, List.length_nil]
  | case4 x y z rest ih =>
      simp only [List.length_append, ih, group, List.length_cons, List.length_nil]
      omega

theorem letter_printable (n : Nat) (small : n < 64) : 43 ≤ (letter n).toNat := by
  have all : ∀ n : Fin 64, 43 ≤ (letter n.val).toNat := by decide +kernel
  exact all ⟨n, small⟩

/-- A text in base 64 has none of the bytes which end a line or a string. -/
theorem encode_printable (bytes : List UInt8) : ∀ c ∈ encode bytes, 43 ≤ c.toNat := by
  have padding : 43 ≤ pad.toNat := by decide
  fun_induction encode bytes with
  | case1 => exact fun c none_ => absurd none_ List.not_mem_nil
  | case2 x =>
      have small := x.toNat_lt
      simp only [List.forall_mem_cons]
      exact ⟨letter_printable _ (by omega), letter_printable _ (by omega), padding, padding,
        fun c none_ => absurd none_ List.not_mem_nil⟩
  | case3 x y =>
      have small := x.toNat_lt
      have small' := y.toNat_lt
      simp only [List.forall_mem_cons]
      exact ⟨letter_printable _ (by omega), letter_printable _ (by omega),
        letter_printable _ (by omega), padding, fun c none_ => absurd none_ List.not_mem_nil⟩
  | case4 x y z rest ih =>
      have small := x.toNat_lt
      have small' := y.toNat_lt
      have small'' := z.toNat_lt
      simp only [group, List.cons_append, List.nil_append, List.forall_mem_cons]
      exact ⟨letter_printable _ (by omega), letter_printable _ (by omega),
        letter_printable _ (by omega), letter_printable _ (by omega), ih⟩

/-! ## Decoding -/

/-- Four letters without padding. -/
def whole (a b c d : UInt8) : Option (List UInt8) :=
  (value a).bind fun i => (value b).bind fun j => (value c).bind fun k => (value d).map fun l =>
    [UInt8.ofNat (i * 4 + j / 16), UInt8.ofNat (j % 16 * 16 + k / 4), UInt8.ofNat (k % 4 * 64 + l)]

/-- The letters in front of the padding of the last four. -/
def padded (a b c : UInt8) : Option (List UInt8) :=
  (value a).bind fun i => (value b).bind fun j =>
    if c = pad then
      if j % 16 = 0 then some [UInt8.ofNat (i * 4 + j / 16)] else none
    else
      (value c).bind fun k =>
        if k % 4 = 0 then some [UInt8.ofNat (i * 4 + j / 16), UInt8.ofNat (j % 16 * 16 + k / 4)]
        else none

def decode : List UInt8 → Option (List UInt8)
  | [] => some []
  | a :: b :: c :: d :: rest =>
      if d = pad then
        if rest = [] then padded a b c else none
      else
        (whole a b c d).bind fun front => (decode rest).map fun back => front ++ back
  | _ => none

theorem ofNat_parts {x : UInt8} {high low : Nat} (parts : high + low = x.toNat) :
    UInt8.ofNat (high + low) = x := by
  rw [parts, UInt8.ofNat_toNat]

theorem whole_group (x y z : UInt8) :
    whole (letter (x.toNat / 4)) (letter (x.toNat % 4 * 16 + y.toNat / 16))
      (letter (y.toNat % 16 * 4 + z.toNat / 64)) (letter (z.toNat % 64)) = some [x, y, z] := by
  have small := x.toNat_lt
  have small' := y.toNat_lt
  have small'' := z.toNat_lt
  simp only [whole, value_letter (show x.toNat / 4 < 64 by omega),
    value_letter (show x.toNat % 4 * 16 + y.toNat / 16 < 64 by omega),
    value_letter (show y.toNat % 16 * 4 + z.toNat / 64 < 64 by omega),
    value_letter (show z.toNat % 64 < 64 by omega), Option.bind_some, Option.map_some]
  rw [ofNat_parts (x := x) (by omega), ofNat_parts (x := y) (by omega),
    ofNat_parts (x := z) (by omega)]

theorem decode_encode (bytes : List UInt8) : decode (encode bytes) = some bytes := by
  fun_induction encode bytes with
  | case1 => rfl
  | case2 x =>
      have small := x.toNat_lt
      have whole : (x.toNat % 4 * 16) % 16 = 0 := by omega
      simp only [decode, padded, if_true, value_letter (show x.toNat / 4 < 64 by omega),
        value_letter (show x.toNat % 4 * 16 < 64 by omega), Option.bind_some, whole]
      rw [ofNat_parts (x := x) (by omega)]
  | case3 x y =>
      have small := x.toNat_lt
      have small' := y.toNat_lt
      have whole : (y.toNat % 16 * 4) % 4 = 0 := by omega
      simp only [decode, padded, if_true, value_letter (show x.toNat / 4 < 64 by omega),
        value_letter (show x.toNat % 4 * 16 + y.toNat / 16 < 64 by omega),
        value_letter (show y.toNat % 16 * 4 < 64 by omega), Option.bind_some, whole,
        if_neg (letter_ne_pad (show y.toNat % 16 * 4 < 64 by omega))]
      rw [ofNat_parts (x := x) (by omega), ofNat_parts (x := y) (by omega)]
  | case4 x y z rest ih =>
      have open_ := letter_ne_pad (show z.toNat % 64 < 64 by omega)
      simp only [group, List.cons_append, List.nil_append, decode, if_neg open_, whole_group,
        Option.bind_some, ih, Option.map_some]

end MiniWebSrv.Base64
