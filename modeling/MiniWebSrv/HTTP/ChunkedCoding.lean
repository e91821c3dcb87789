import MiniWebSrv.Common.Bytes

/-! # The chunked transfer coding

A decoder for bodies in the chunked transfer coding, without extensions and trailers, and the
coding of a list of blocks which it undoes.
-/

namespace MiniWebSrv.HTTP.ChunkedCoding

def hexDigit (n : Nat) : Byte := if n < 10 then ch '0' + n.toUInt8 else ch 'a' + (n - 10).toUInt8

/-- The last `k` hexadecimal digits of a number. -/
def hexDigits : Nat → Nat → List Byte
  | 0, _ => []
  | k + 1, n => hexDigits k (n / 16) ++ [hexDigit (n % 16)]

def hexValue (c : Byte) : Option Nat :=
  if ch '0' ≤ c ∧ c ≤ ch '9' then some (c - ch '0').toNat
  else if ch 'a' ≤ c ∧ c ≤ ch 'f' then some ((c - ch 'a').toNat + 10)
  else if ch 'A' ≤ c ∧ c ≤ ch 'F' then some ((c - ch 'A').toNat + 10)
  else none

/-- The size of a chunk: at least one digit, and a line end. -/
def chunkSize (size : Nat) (digits : Bool) : List Byte → Option (Nat × List Byte)
  | [] => none
  | c :: rest =>
      match hexValue c with
      | some digit => chunkSize (16 * size + digit) true rest
      | none => if digits ∧ c = cr ∧ rest.head? = some lf then some (size, rest.tail) else none

/-- The data of at most `n` chunks with the final one among them, and the bytes behind it. -/
def decode : Nat → List Byte → Option (List Byte × List Byte)
  | 0, _ => none
  | n + 1, bytes =>
      match chunkSize 0 false bytes with
      | none => none
      | some (size, rest) =>
          if (rest.drop size).take 2 = [cr, lf] then
            if size = 0 then
              some ([], rest.drop 2)
            else
              (decode n (rest.drop (size + 2))).map fun decoded =>
                (rest.take size ++ decoded.1, decoded.2)
          else
            none

/-- Every chunk takes more than a byte. -/
def decodeBody (bytes : List Byte) : Option (List Byte × List Byte) := decode bytes.length bytes

/-- A chunk with its size in eight digits. -/
def chunk (data : List Byte) : List Byte :=
  hexDigits 8 data.length ++ [cr, lf] ++ data ++ [cr, lf]

def lastChunk : List Byte := text "0" ++ [cr, lf] ++ [cr, lf]

/-! ## Decoding -/

theorem hexValue_hexDigit {n : Nat} (less : n < 16) : hexValue (hexDigit n) = some n := by
  have all : ∀ n : Fin 16, hexValue (hexDigit n) = some n.val := by decide
  exact all ⟨n, less⟩

theorem hexDigits_length (k n : Nat) : (hexDigits k n).length = k := by
  induction k generalizing n with
  | zero => rfl
  | succ k ih => rw [hexDigits, List.length_append, ih, List.length_singleton]

theorem cr_of_hexDigits (k n : Nat) : cr ∉ hexDigits k n := by
  have digits : ∀ n : Fin 16, hexDigit n ≠ cr := by decide
  induction k generalizing n with
  | zero => exact List.not_mem_nil
  | succ k ih =>
      rw [hexDigits, List.mem_append, not_or]
      exact ⟨ih (n / 16), fun last =>
        digits ⟨n % 16, Nat.mod_lt n (by decide)⟩ (List.mem_singleton.mp last).symm⟩

theorem chunkSize_hexDigits {k n size : Nat} {digits : Bool} {rest : List Byte} (less : n < 16 ^ k) :
    chunkSize size digits (hexDigits k n ++ rest) =
      chunkSize (16 ^ k * size + n) (digits || k != 0) rest := by
  induction k generalizing n rest with
  | zero =>
      obtain rfl : n = 0 := by omega
      simp [hexDigits]
  | succ k ih =>
      have front : n / 16 < 16 ^ k := by
        rw [Nat.pow_succ] at less
        exact Nat.div_lt_of_lt_mul (by omega)
      have value : 16 * (16 ^ k * size + n / 16) + n % 16 = 16 ^ (k + 1) * size + n := by
        rw [Nat.pow_succ, Nat.mul_add, ← Nat.mul_assoc, Nat.mul_comm 16 (16 ^ k)]
        omega
      rw [hexDigits, List.append_assoc, ih front, List.singleton_append, chunkSize,
        hexValue_hexDigit (Nat.mod_lt n (by decide))]
      simp only [value]
      rw [show (k + 1 != 0) = true from rfl, Bool.or_true]

theorem chunkSize_chunk {data rest : List Byte} (short : data.length < 16 ^ 8) :
    chunkSize 0 false (chunk data ++ rest) = some (data.length, data ++ [cr, lf] ++ rest) := by
  have lineEnd : ∀ tail, chunkSize (16 ^ 8 * 0 + data.length) true (cr :: lf :: tail) =
      some (data.length, tail) := by
    intro tail
    rw [Nat.mul_zero, Nat.zero_add]
    rfl
  simp only [chunk, List.append_assoc]
  rw [chunkSize_hexDigits short]
  exact lineEnd _

/-- Blocks in chunks, with the final chunk behind them, are decoded to what they hold. -/
theorem decode_chunks {blocks : List (List Byte)} {n : Nat} (rest : List Byte)
    (some_ : ∀ block ∈ blocks, block ≠ []) (short : ∀ block ∈ blocks, block.length < 16 ^ 8)
    (enough : blocks.length < n) :
    decode n (blocks.flatMap chunk ++ lastChunk ++ rest) = some (blocks.flatten, rest) := by
  induction blocks generalizing n with
  | nil =>
      obtain ⟨m, rfl⟩ := Nat.exists_eq_succ_of_ne_zero (Nat.ne_of_gt enough)
      rfl
  | cons block blocks ih =>
      obtain ⟨m, rfl⟩ := Nat.exists_eq_succ_of_ne_zero (Nat.ne_zero_of_lt enough)
      have here := some_ block List.mem_cons_self
      have length : block.length ≠ 0 := fun zero => here (List.length_eq_zero_iff.mp zero)
      have later := ih (n := m) (fun block inside => some_ block (List.mem_cons_of_mem _ inside))
        (fun block inside => short block (List.mem_cons_of_mem _ inside))
        (by simp only [List.length_cons] at enough; omega)
      have front : ∀ tail, (block ++ [cr, lf] ++ tail).take block.length = block := fun tail => by
        rw [List.append_assoc, List.take_left' rfl]
      have lineEnd : ∀ tail, ((block ++ [cr, lf] ++ tail).drop block.length).take 2 = [cr, lf] :=
        fun tail => by
          rw [List.append_assoc, List.drop_left' rfl]
          rfl
      have behind : ∀ tail, (block ++ [cr, lf] ++ tail).drop (block.length + 2) = tail :=
        fun tail => List.drop_left' (by simp)
      rw [List.flatMap_cons, List.append_assoc, List.append_assoc, decode,
        chunkSize_chunk (short block List.mem_cons_self)]
      simp only [lineEnd, if_true, if_neg length, front, behind]
      rw [← List.append_assoc, later]
      rfl

theorem chunks_length (blocks : List (List Byte)) :
    blocks.length < (blocks.flatMap chunk ++ lastChunk).length := by
  induction blocks with
  | nil => decide
  | cons block blocks ih =>
      simp only [List.flatMap_cons, List.length_append, List.length_cons, chunk,
        hexDigits_length] at ih ⊢
      omega

theorem decodeBody_behind {blocks : List (List Byte)} (some_ : ∀ block ∈ blocks, block ≠ [])
    (short : ∀ block ∈ blocks, block.length < 16 ^ 8) (rest : List Byte) :
    decodeBody (blocks.flatMap chunk ++ lastChunk ++ rest) = some (blocks.flatten, rest) := by
  refine decode_chunks rest some_ short ?_
  have length := chunks_length blocks
  rw [List.length_append]
  omega

theorem decodeBody_chunks {blocks : List (List Byte)} (some_ : ∀ block ∈ blocks, block ≠ [])
    (short : ∀ block ∈ blocks, block.length < 16 ^ 8) :
    decodeBody (blocks.flatMap chunk ++ lastChunk) = some (blocks.flatten, []) := by
  have decoded := decodeBody_behind some_ short []
  rw [List.append_nil] at decoded
  exact decoded

end MiniWebSrv.HTTP.ChunkedCoding
