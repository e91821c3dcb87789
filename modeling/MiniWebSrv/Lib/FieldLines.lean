import Mathlib.Data.List.Basic

/-! # Blocks of lines

Messages which begin with lines: every line ends with the same two elements, an empty line ends the
block, and a field has its name and its value around two more. Reading such a block takes the first
one off a stream, and so does everything else which is read here.
-/

namespace MiniWebSrv.FieldLines

variable {α β : Type} {cr lf colon blank : α}

/-- The lines, and the empty one. -/
def block (cr lf : α) (lines : List (List α)) : List α :=
  (lines.flatMap fun line => line ++ [cr, lf]) ++ [cr, lf]

/-- Every line takes two elements at least. -/
theorem block_length (cr lf : α) (lines : List (List α)) :
    lines.length < (block cr lf lines).length := by
  induction lines with
  | nil => exact Nat.zero_lt_two
  | cons line lines ih =>
      simp only [block, List.flatMap_cons, List.length_append, List.length_cons,
        List.length_nil] at ih ⊢
      omega

section Lines

variable [DecidableEq α]

/-- The first line, and what is behind its end. -/
def takeLine (cr lf : α) : List α → Option (List α × List α)
  | [] => none
  | x :: rest =>
      if x = cr then
        if rest.head? = some lf then some ([], rest.tail) else none
      else
        (takeLine cr lf rest).map fun r => (x :: r.1, r.2)

/-- At most `n` lines with the empty one among them, and what is behind it. -/
def takeBlock (cr lf : α) : Nat → List α → Option (List (List α) × List α)
  | 0, _ => none
  | n + 1, bytes =>
      (takeLine cr lf bytes).bind fun r =>
        if r.1 = [] then some ([], r.2) else (takeBlock cr lf n r.2).map fun s => (r.1 :: s.1, s.2)

theorem takeLine_line {line : List α} (none_ : cr ∉ line) (rest : List α) :
    takeLine cr lf (line ++ ([cr, lf] ++ rest)) = some (line, rest) := by
  induction line with
  | nil => exact (if_pos rfl).trans (if_pos rfl)
  | cons x line ih =>
      have other : x ≠ cr := fun same => none_ (same ▸ List.mem_cons_self)
      rw [List.cons_append, takeLine, if_neg other,
        ih fun member => none_ (List.mem_cons_of_mem x member), Option.map_some]

theorem takeBlock_block {n : Nat} {lines : List (List α)}
    (whole : ∀ line ∈ lines, line ≠ [] ∧ cr ∉ line) (enough : lines.length < n) (rest : List α) :
    takeBlock cr lf n (block cr lf lines ++ rest) = some (lines, rest) := by
  induction lines generalizing n with
  | nil =>
      obtain ⟨n, rfl⟩ := Nat.exists_eq_succ_of_ne_zero (Nat.ne_of_gt enough)
      have last : takeLine cr lf ([cr, lf] ++ rest) = some ([], rest) :=
        takeLine_line List.not_mem_nil rest
      rw [block, List.flatMap_nil, List.nil_append, takeBlock, last, Option.bind_some, if_pos rfl]
  | cons line lines ih =>
      obtain ⟨n, rfl⟩ := Nat.exists_eq_succ_of_ne_zero (Nat.ne_zero_of_lt enough)
      obtain ⟨some_, none_⟩ := whole line List.mem_cons_self
      have later := ih (n := n) (fun other member => whole other (List.mem_cons_of_mem line member))
        (Nat.lt_of_succ_lt_succ enough)
      have front : block cr lf (line :: lines) ++ rest =
          line ++ ([cr, lf] ++ (block cr lf lines ++ rest)) := by
        simp only [block, List.flatMap_cons, List.append_assoc]
      rw [front, takeBlock, takeLine_line none_, Option.bind_some, if_neg some_, later,
        Option.map_some]

/-- The name and the value of a field. -/
def splitField (colon blank : α) (line : List α) : Option (List α × List α) :=
  match line.dropWhile fun x => decide (x ≠ colon) with
  | _ :: y :: value =>
      if y = blank then some (line.takeWhile fun x => decide (x ≠ colon), value) else none
  | _ => none

theorem splitField_field {name : List α} (none_ : colon ∉ name) (value : List α) :
    splitField colon blank (name ++ colon :: blank :: value) = some (name, value) := by
  have before : ∀ x ∈ name, decide (x ≠ colon) = true := by
    intro x member
    exact decide_eq_true fun same => none_ (same ▸ member)
  have behind : (name ++ colon :: blank :: value).dropWhile (fun x => decide (x ≠ colon)) =
      colon :: blank :: value := by
    rw [List.dropWhile_append_of_pos before, List.dropWhile_cons_of_neg (by simp)]
  have front : (name ++ colon :: blank :: value).takeWhile (fun x => decide (x ≠ colon)) = name := by
    rw [List.takeWhile_append_of_pos before, List.takeWhile_cons_of_neg (by simp), List.append_nil]
  simp only [splitField, behind, front, if_true]

end Lines

/-- Reading on until nothing is left, at most `n` times. -/
def readAll (read : List α → Option (β × List α)) : Nat → List α → Option (List β)
  | _, [] => some []
  | 0, _ :: _ => none
  | n + 1, x :: rest =>
      (read (x :: rest)).bind fun r => (readAll read n r.2).map fun rs => r.1 :: rs

section Reading

variable {read : List α → Option (β × List α)} {bytes : List α}

theorem readAll_zero (some_ : bytes ≠ []) : readAll read 0 bytes = none := by
  cases bytes with
  | nil => exact absurd rfl some_
  | cons x rest => rfl

theorem readAll_succ (some_ : bytes ≠ []) (n : Nat) : readAll read (n + 1) bytes =
    (read bytes).bind fun r => (readAll read n r.2).map fun rs => r.1 :: rs := by
  cases bytes with
  | nil => exact absurd rfl some_
  | cons x rest => rfl

theorem readAll_stuck (some_ : bytes ≠ []) (stuck : read bytes = none) (n : Nat) :
    readAll read n bytes = none := by
  cases n with
  | zero => exact readAll_zero some_
  | succ n => rw [readAll_succ some_, stuck, Option.bind_none]

/-- There are no more parts than elements. -/
theorem parts_length {γ : Type} {wire : γ → List α} {parts : List γ}
    (some_ : ∀ part ∈ parts, wire part ≠ []) : parts.length ≤ (parts.flatMap wire).length := by
  induction parts with
  | nil => exact Nat.le_refl _
  | cons part parts ih =>
      have here := List.length_pos_iff.mpr (some_ part List.mem_cons_self)
      have later := ih fun other member => some_ other (List.mem_cons_of_mem part member)
      rw [List.flatMap_cons, List.length_append, List.length_cons]
      omega

/-- What reads back each part reads back all of them. -/
theorem readAll_parts {γ : Type} {wire : γ → List α} {view : γ → β} {parts : List γ}
    (some_ : ∀ part ∈ parts, wire part ≠ [])
    (reads : ∀ part ∈ parts, ∀ rest, read (wire part ++ rest) = some (view part, rest)) {n : Nat}
    (enough : parts.length ≤ n) : readAll read n (parts.flatMap wire) = some (parts.map view) := by
  induction parts generalizing n with
  | nil => cases n <;> rfl
  | cons part parts ih =>
      obtain ⟨n, rfl⟩ := Nat.exists_eq_succ_of_ne_zero (Nat.ne_zero_of_lt enough)
      have later := ih (n := n) (fun other member => some_ other (List.mem_cons_of_mem part member))
        (fun other member => reads other (List.mem_cons_of_mem part member))
        (Nat.le_of_succ_le_succ enough)
      have here := List.append_ne_nil_of_left_ne_nil (some_ part List.mem_cons_self)
        (parts.flatMap wire)
      rw [List.flatMap_cons, readAll_succ here, reads part List.mem_cons_self, Option.bind_some, later,
        Option.map_some, List.map_cons]

end Reading

end MiniWebSrv.FieldLines
