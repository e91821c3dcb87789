import Mathlib.Data.List.Induction

/-! # Frames of the WebSocket protocol

The frames with every field which a peer can set, their bytes, and how bytes are read back as
frames. Writing and reading are inverse to each other, so that bytes are one frame in at most one
way.
-/

namespace MiniWebSrv.WireFrame

/-! ## Numbers -/

/-- The `k` low bytes of a number, the most significant one first. -/
def bigEndian : Nat → Nat → List UInt8
  | 0, _ => []
  | k + 1, n => bigEndian k (n / 256) ++ [UInt8.ofNat n]

/-- The number of values of `k` bytes. -/
def values : Nat → Nat
  | 0 => 1
  | k + 1 => 256 * values k

def number (bytes : List UInt8) : Nat := bytes.foldl (fun n b => 256 * n + b.toNat) 0

@[simp] theorem bigEndian_length (k n : Nat) : (bigEndian k n).length = k := by
  induction k generalizing n with
  | zero => rfl
  | succ k ih => rw [bigEndian, List.length_append, ih, List.length_singleton]

theorem number_append (bytes : List UInt8) (b : UInt8) :
    number (bytes ++ [b]) = 256 * number bytes + b.toNat := by
  simp only [number, List.foldl_append, List.foldl_cons, List.foldl_nil]

theorem number_bigEndian {k n : Nat} (small : n < values k) : number (bigEndian k n) = n := by
  induction k generalizing n with
  | zero =>
      simp only [values] at small
      simp only [bigEndian, number, List.foldl_nil]
      omega
  | succ k ih =>
      simp only [values] at small
      rw [bigEndian, number_append, ih (by omega), UInt8.toNat_ofNat']
      omega

theorem number_lt (bytes : List UInt8) : number bytes < values bytes.length := by
  induction bytes using List.reverseRecOn with
  | nil => exact Nat.zero_lt_one
  | append_singleton front b ih =>
      have byte := b.toNat_lt
      rw [number_append, List.length_append, List.length_singleton, values]
      omega

theorem bigEndian_number (bytes : List UInt8) : bigEndian bytes.length (number bytes) = bytes := by
  induction bytes using List.reverseRecOn with
  | nil => rfl
  | append_singleton front b ih =>
      have byte := b.toNat_lt
      have high : (256 * number front + b.toNat) / 256 = number front := by omega
      have low : UInt8.ofNat (256 * number front + b.toNat) = b := by
        apply UInt8.toNat_inj.mp
        rw [UInt8.toNat_ofNat']
        omega
      rw [List.length_append, List.length_singleton, bigEndian, number_append, high, low, ih]

/-! ## Masks -/

/-- The four bytes of a mask. -/
abbrev Key := UInt8 × UInt8 × UInt8 × UInt8

/-- Each byte xor the bytes of the mask in turn. -/
def masked : Key → List UInt8 → List UInt8
  | _, [] => []
  | (k0, k1, k2, k3), b :: rest => (b ^^^ k0) :: masked (k1, k2, k3, k0) rest

@[simp] theorem masked_length (key : Key) (bytes : List UInt8) :
    (masked key bytes).length = bytes.length := by
  induction bytes generalizing key with
  | nil => rfl
  | cons b rest ih =>
      obtain ⟨k0, k1, k2, k3⟩ := key
      rw [masked, List.length_cons, List.length_cons, ih]

/-- Masking twice gives the bytes back. -/
@[simp] theorem masked_masked (key : Key) (bytes : List UInt8) :
    masked key (masked key bytes) = bytes := by
  induction bytes generalizing key with
  | nil => rfl
  | cons b rest ih =>
      obtain ⟨k0, k1, k2, k3⟩ := key
      rw [masked, masked, ih, UInt8.xor_assoc, UInt8.xor_self, UInt8.xor_zero]

/-- The payload on the wire, and back. -/
def covered : Option Key → List UInt8 → List UInt8
  | none, bytes => bytes
  | some key, bytes => masked key bytes

@[simp] theorem covered_length (mask : Option Key) (bytes : List UInt8) :
    (covered mask bytes).length = bytes.length := by
  cases mask with
  | none => rfl
  | some key => exact masked_length key bytes

@[simp] theorem covered_covered (mask : Option Key) (bytes : List UInt8) :
    covered mask (covered mask bytes) = bytes := by
  cases mask with
  | none => rfl
  | some key => exact masked_masked key bytes

def keyBytes : Option Key → List UInt8
  | none => []
  | some (k0, k1, k2, k3) => [k0, k1, k2, k3]

/-! ## Frames -/

/-- The length field: the seven bits of the second byte, or 16 or 64 bits behind it. -/
inductive LengthForm where
  | short
  | medium
  | long
  deriving DecidableEq, Repr

namespace LengthForm

/-- The number of bytes behind the second one. -/
def width : LengthForm → Nat
  | short => 0
  | medium => 2
  | long => 8

/-- The lengths which the form can carry. The highest bit of 64 has to be clear. -/
def bound : LengthForm → Nat
  | short => 126
  | medium => 65536
  | long => 9223372036854775808

/-- The seven bits of the second byte. -/
def marker (length : Nat) : LengthForm → Nat
  | short => length
  | medium => 126
  | long => 127

def ofMarker (marker : Nat) : LengthForm :=
  if marker < 126 then short else if marker = 126 then medium else long

end LengthForm

structure Frame where
  fin : Bool
  reserved : Fin 8
  opCode : Fin 16
  mask : Option Key
  form : LengthForm
  /-- Before the masking. -/
  payload : List UInt8
  fits : payload.length < form.bound
  deriving DecidableEq

namespace Frame

variable (f : Frame)

def first : UInt8 :=
  UInt8.ofNat ((if f.fin then 128 else 0) + 16 * f.reserved.val + f.opCode.val)

def second : UInt8 :=
  UInt8.ofNat ((if f.mask.isSome then 128 else 0) + f.form.marker f.payload.length)

def lengthField : List UInt8 := bigEndian f.form.width f.payload.length

def encode : List UInt8 :=
  f.first :: f.second :: (f.lengthField ++ (keyBytes f.mask ++ covered f.mask f.payload))

/-- The number of bytes in front of the payload. -/
def headLength : Nat := 2 + f.form.width + (keyBytes f.mask).length

theorem encode_length : f.encode.length = f.headLength + f.payload.length := by
  simp only [encode, headLength, lengthField, List.length_cons, List.length_append,
    bigEndian_length, covered_length]
  omega

theorem marker_lt : f.form.marker f.payload.length < 128 := by
  have fits := f.fits
  cases form : f.form <;> simp only [form, LengthForm.marker, LengthForm.bound] at fits ⊢ <;> omega

theorem ofMarker_marker : LengthForm.ofMarker (f.form.marker f.payload.length) = f.form := by
  have fits := f.fits
  cases form : f.form with
  | short =>
      rw [form] at fits
      exact if_pos fits
  | medium | long => rfl

/-- The numbers in the first two bytes. -/
theorem first_toNat : f.first.toNat =
    (if f.fin then 128 else 0) + 16 * f.reserved.val + f.opCode.val := by
  have reserved := f.reserved.isLt
  have opCode := f.opCode.isLt
  rw [first, UInt8.toNat_ofNat']
  split <;> omega

theorem second_toNat : f.second.toNat =
    (if f.mask.isSome then 128 else 0) + f.form.marker f.payload.length := by
  have marker := f.marker_lt
  rw [second, UInt8.toNat_ofNat']
  split <;> omega

theorem first_fin : 128 ≤ f.first.toNat ↔ f.fin = true := by
  have reserved := f.reserved.isLt
  have opCode := f.opCode.isLt
  rw [first_toNat]
  cases f.fin with
  | true => simp only [if_true, iff_true]; omega
  | false => simp only [Bool.false_eq_true, if_false, iff_false]; omega

theorem first_reserved : f.first.toNat / 16 % 8 = f.reserved.val := by
  have reserved := f.reserved.isLt
  have opCode := f.opCode.isLt
  rw [first_toNat]
  split <;> omega

theorem first_opCode : f.first.toNat % 16 = f.opCode.val := by
  have opCode := f.opCode.isLt
  rw [first_toNat]
  split <;> omega

theorem second_mask : 128 ≤ f.second.toNat ↔ f.mask.isSome = true := by
  have marker := f.marker_lt
  rw [second_toNat]
  cases f.mask.isSome with
  | true => simp only [if_true, iff_true]; omega
  | false => simp only [Bool.false_eq_true, if_false, iff_false]; omega

theorem second_marker : f.second.toNat % 128 = f.form.marker f.payload.length := by
  have marker := f.marker_lt
  rw [second_toNat]
  split <;> omega

end Frame

/-! ## Reading -/

/-- The mask at the front, when the frame has one. -/
def takeKey : Bool → List UInt8 → Option (Option Key × List UInt8)
  | false, bytes => some (none, bytes)
  | true, k0 :: k1 :: k2 :: k3 :: rest => some (some (k0, k1, k2, k3), rest)
  | true, _ => none

/-- The payload of a frame whose other fields have been read. -/
def takePayload (first : UInt8) (mask : Option Key) (form : LengthForm) (length : Nat)
    (bytes : List UInt8) : Option (Frame × List UInt8) :=
  if fits : (bytes.take length).length < form.bound then
    if length ≤ bytes.length then
      some ({
        fin := 128 ≤ first.toNat
        reserved := ⟨first.toNat / 16 % 8, Nat.mod_lt _ (by decide)⟩
        opCode := ⟨first.toNat % 16, Nat.mod_lt _ (by decide)⟩
        mask := mask
        form := form
        payload := covered mask (bytes.take length)
        fits := by rwa [covered_length] }, bytes.drop length)
    else
      none
  else
    none

/-- The frame at the front, and the bytes behind it. -/
def decode : List UInt8 → Option (Frame × List UInt8)
  | first :: second :: rest => do
      let marker := second.toNat % 128
      let form := LengthForm.ofMarker marker
      let length := if marker < 126 then marker else number (rest.take form.width)
      if rest.length < form.width then
        none
      else
        let (mask, rest) ← takeKey (128 ≤ second.toNat) (rest.drop form.width)
        takePayload first mask form length rest
  | _ => none

theorem takeKey_keyBytes (mask : Option Key) (rest : List UInt8) :
    takeKey mask.isSome (keyBytes mask ++ rest) = some (mask, rest) := by
  cases mask with
  | none => rfl
  | some key => rfl

theorem takeKey_some {isMask : Bool} {bytes rest : List UInt8} {mask : Option Key}
    (run : takeKey isMask bytes = some (mask, rest)) :
    mask.isSome = isMask ∧ bytes = keyBytes mask ++ rest := by
  match isMask, bytes with
  | false, bytes =>
      cases run
      exact ⟨rfl, rfl⟩
  | true, k0 :: k1 :: k2 :: k3 :: _ =>
      cases run
      exact ⟨rfl, rfl⟩
  | true, [] | true, [_] | true, [_, _] | true, [_, _, _] => cases run

namespace Frame

variable (f : Frame)

/-- The length read from the length field. -/
theorem length_read :
    (if f.form.marker f.payload.length < 126 then f.form.marker f.payload.length
      else number f.lengthField) = f.payload.length := by
  have fits := f.fits
  have wide : f.payload.length < values f.form.width →
      number f.lengthField = f.payload.length := number_bigEndian
  cases form : f.form with
  | short =>
      rw [form] at fits
      exact if_pos fits
  | medium =>
      rw [form] at fits wide
      exact wide fits
  | long =>
      rw [form] at fits wide
      apply wide
      simp only [values, LengthForm.width, LengthForm.bound] at fits ⊢
      omega

theorem takePayload_encode (rest : List UInt8) :
    takePayload f.first f.mask f.form f.payload.length (covered f.mask f.payload ++ rest) =
      some (f, rest) := by
  have length := covered_length f.mask f.payload
  have front : (covered f.mask f.payload ++ rest).take f.payload.length =
      covered f.mask f.payload := List.take_left' length
  have behind : (covered f.mask f.payload ++ rest).drop f.payload.length = rest :=
    List.drop_left' length
  have enough : f.payload.length ≤ (covered f.mask f.payload ++ rest).length := by
    rw [List.length_append, length]
    exact Nat.le_add_right _ _
  have fits := f.fits
  have fin : decide (128 ≤ f.first.toNat) = f.fin := by
    rw [Bool.eq_iff_iff, decide_eq_true_eq]
    exact f.first_fin
  simp only [takePayload, front, behind, length, dif_pos fits, if_pos enough, covered_covered, fin,
    f.first_reserved, f.first_opCode]

/-- What has been written is read. -/
theorem decode_encode (rest : List UInt8) : decode (f.encode ++ rest) = some (f, rest) := by
  have isMask : decide (128 ≤ f.second.toNat) = f.mask.isSome := by
    rw [Bool.eq_iff_iff, decide_eq_true_eq]
    exact f.second_mask
  have width : f.lengthField.length = f.form.width := bigEndian_length _ _
  have enough : ¬(f.lengthField ++
      (keyBytes f.mask ++ (covered f.mask f.payload ++ rest))).length < f.form.width := by
    rw [List.length_append, width]
    omega
  simp only [encode, List.cons_append, List.append_assoc, decode, second_marker, ofMarker_marker, isMask,
    List.take_left' width, List.drop_left' width, length_read, if_neg enough, takeKey_keyBytes,
    bind, Option.bind_some, takePayload_encode]

end Frame

theorem takePayload_some {first : UInt8} {mask : Option Key} {form : LengthForm} {length : Nat}
    {bytes rest : List UInt8} {f : Frame}
    (run : takePayload first mask form length bytes = some (f, rest)) :
    f.first = first ∧ f.mask = mask ∧ f.form = form ∧ f.payload.length = length ∧
      bytes = covered f.mask f.payload ++ rest := by
  simp only [takePayload] at run
  split at run
  case isFalse => cases run
  split at run
  case isFalse => cases run
  rename_i long
  cases run
  have byte := first.toNat_lt
  refine ⟨?_, rfl, rfl, ?_, ?_⟩
  · apply UInt8.toNat_inj.mp
    rw [Frame.first_toNat]
    by_cases high : 128 ≤ first.toNat
    · simp only [high, decide_true, if_true]
      omega
    · simp only [high, decide_false, Bool.false_eq_true, if_false]
      omega
  · rw [covered_length, List.length_take, Nat.min_eq_left long]
  · rw [covered_covered, List.take_append_drop]

/-- What has been read was written like that. -/
theorem encode_decode {bytes rest : List UInt8} {f : Frame} (run : decode bytes = some (f, rest)) :
    f.encode ++ rest = bytes := by
  match bytes with
  | [] | [_] => cases run
  | first :: second :: behind =>
      simp only [decode] at run
      by_cases short : behind.length < (LengthForm.ofMarker (second.toNat % 128)).width
      · rw [if_pos short] at run
        cases run
      simp only [if_neg short, bind, Option.bind_eq_some_iff] at run
      obtain ⟨⟨mask, body⟩, key, run⟩ := run
      obtain ⟨isMask, after⟩ := takeKey_some key
      obtain ⟨sameFirst, rfl, sameForm, length, rfl⟩ := takePayload_some run
      have width : (behind.take f.form.width).length = f.form.width := by
        rw [List.length_take, sameForm]
        omega
      have byte := second.toNat_lt
      have marker : f.form.marker f.payload.length = second.toNat % 128 ∧
          f.lengthField = behind.take f.form.width := by
        rw [← sameForm] at length
        cases form : f.form with
        | short =>
            rw [form] at sameForm
            have less : second.toNat % 128 < 126 := by
              simp only [LengthForm.ofMarker] at sameForm
              split_ifs at sameForm with less
              exact less
            rw [if_pos less] at length
            exact ⟨length, by rw [Frame.lengthField, form]; rfl⟩
        | medium | long =>
            rw [form] at sameForm width length
            have wide : ¬second.toNat % 128 < 126 := by
              intro less
              rw [LengthForm.ofMarker, if_pos less] at sameForm
              cases sameForm
            rw [if_neg wide] at length
            refine ⟨?_, ?_⟩
            · simp only [LengthForm.ofMarker, if_neg wide] at sameForm
              simp only [LengthForm.marker]
              split_ifs at sameForm with medium
              omega
            · have back := bigEndian_number (behind.take f.form.width)
              rw [form, width] at back
              rw [Frame.lengthField, form, length, back]
      have sameSecond : f.second = second := by
        apply UInt8.toNat_inj.mp
        rw [Frame.second_toNat, isMask, marker.1]
        by_cases high : 128 ≤ second.toNat
        · simp only [high, decide_true, if_true]
          omega
        · simp only [high, decide_false, Bool.false_eq_true, if_false]
          omega
      rw [sameForm] at marker
      rw [Frame.encode, sameFirst, sameSecond, marker.2, List.cons_append, List.cons_append,
        List.append_assoc, List.append_assoc, ← after, List.take_append_drop]

end MiniWebSrv.WireFrame
