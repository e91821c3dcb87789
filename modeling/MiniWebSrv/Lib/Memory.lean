import Mathlib.Data.List.Basic

/-! # Byte memory in blocks

A memory is a family of blocks, and a pointer names a block and an offset into it.
Reads and writes are over whole ranges, and the frame lemmas say which ranges a
write leaves alone. Blocks are total functions, since a buffer which nobody has
filled yet still has some contents. The size of a block is the owner's business.
-/

namespace MiniWebSrv

/-- A pointer to the `off`-th byte of a block. -/
structure Ptr (B : Type) where
  block : B
  off : Nat
  deriving DecidableEq, Repr

namespace Ptr

variable {B : Type}

def add (p : Ptr B) (n : Nat) : Ptr B := ⟨p.block, p.off + n⟩

@[simp] theorem add_block (p : Ptr B) (n : Nat) : (p.add n).block = p.block := rfl

@[simp] theorem add_off (p : Ptr B) (n : Nat) : (p.add n).off = p.off + n := rfl

@[simp] theorem add_zero (p : Ptr B) : p.add 0 = p := rfl

theorem add_add (p : Ptr B) (m n : Nat) : (p.add m).add n = p.add (m + n) := by
  simp only [add, Nat.add_assoc]

end Ptr

/-- A half-open range of `len` bytes starting at `ptr`. -/
structure Region (B : Type) where
  ptr : Ptr B
  len : Nat
  deriving DecidableEq, Repr

namespace Region

variable {B : Type}

def Disjoint (r s : Region B) : Prop :=
  r.ptr.block ≠ s.ptr.block ∨ r.ptr.off + r.len ≤ s.ptr.off ∨ s.ptr.off + s.len ≤ r.ptr.off

theorem Disjoint.symm {r s : Region B} (h : r.Disjoint s) : s.Disjoint r := by
  rcases h with other | before | after
  · exact Or.inl (Ne.symm other)
  · exact Or.inr (Or.inr before)
  · exact Or.inr (Or.inl after)

/-- Where the range ends. -/
def last (r : Region B) : Ptr B := r.ptr.add r.len

def Covers (r : Region B) (p : Ptr B) : Prop :=
  p.block = r.ptr.block ∧ r.ptr.off ≤ p.off ∧ p.off < r.last.off

/-- A range covers what a part of it does. -/
theorem Covers.of_part {r : Region B} {p : Ptr B} {from_ n : Nat} (inside : from_ + n ≤ r.len)
    (covers : (Region.mk (r.ptr.add from_) n).Covers p) : r.Covers p := by
  obtain ⟨block, above, below⟩ := covers
  simp only [last, Ptr.add_off] at above below
  refine ⟨block, ?_, ?_⟩
  · omega
  · simp only [last, Ptr.add_off]
    omega

/-- Cutting a range down to a part of it keeps it apart from the others. -/
theorem Disjoint.part {r s : Region B} (h : r.Disjoint s) (from_ n : Nat)
    (inside : from_ + n ≤ r.len) : (Region.mk (r.ptr.add from_) n).Disjoint s := by
  rcases h with other | before | after
  · exact Or.inl other
  · exact Or.inr (Or.inl (by simp only [Ptr.add_off]; omega))
  · exact Or.inr (Or.inr (by simp only [Ptr.add_off]; omega))

end Region

/-- The contents of every block. -/
abbrev Mem (B A : Type) := B → Nat → A

namespace Mem

variable {B A : Type}

/-- The `n` bytes which `p` points to. -/
def read (m : Mem B A) (p : Ptr B) : Nat → List A
  | 0 => []
  | n + 1 => m p.block p.off :: read m (p.add 1) n

@[simp] theorem read_zero (m : Mem B A) (p : Ptr B) : m.read p 0 = [] := rfl

@[simp] theorem read_length (m : Mem B A) (p : Ptr B) (n : Nat) : (m.read p n).length = n := by
  induction n generalizing p with
  | zero => rfl
  | succ n ih => simp only [read, List.length_cons, ih]

theorem read_getElem (m : Mem B A) (p : Ptr B) (n i : Nat) (inside : i < (m.read p n).length) :
    (m.read p n)[i] = m p.block (p.off + i) := by
  induction n generalizing p i with
  | zero => simp at inside
  | succ n ih =>
      cases i with
      | zero => rfl
      | succ i =>
          have rest := ih (p.add 1) i (by simpa using inside)
          simp only [read, List.getElem_cons_succ, rest, Ptr.add_block, Ptr.add_off]
          congr 1
          omega

/-- Reads agree where the memories agree. -/
theorem read_congr {m m' : Mem B A} {p p' : Ptr B} {n : Nat}
    (same : ∀ i, i < n → m p.block (p.off + i) = m' p'.block (p'.off + i)) :
    m.read p n = m'.read p' n := by
  apply List.ext_getElem (by simp)
  intro i hi _
  rw [read_getElem, read_getElem]
  exact same i (by simpa using hi)

theorem read_add (m : Mem B A) (p : Ptr B) (k n : Nat) :
    m.read p (k + n) = m.read p k ++ m.read (p.add k) n := by
  induction k generalizing p with
  | zero => simp
  | succ k ih =>
      rw [Nat.succ_add, read, read, ih, List.cons_append, Ptr.add_add, Nat.add_comm 1 k]

theorem take_read (m : Mem B A) (p : Ptr B) {k n : Nat} (le : k ≤ n) :
    (m.read p n).take k = m.read p k := by
  obtain ⟨d, rfl⟩ := Nat.exists_eq_add_of_le le
  rw [read_add, List.take_left' (read_length m p k)]

theorem drop_read (m : Mem B A) (p : Ptr B) {k n : Nat} (le : k ≤ n) :
    (m.read p n).drop k = m.read (p.add k) (n - k) := by
  obtain ⟨d, rfl⟩ := Nat.exists_eq_add_of_le le
  rw [read_add, List.drop_left' (read_length m p k), Nat.add_sub_cancel_left]

/-- What is read in one piece can be read in two. -/
theorem read_parts {m : Mem B A} {p : Ptr B} {n : Nat} {left right : List A}
    (whole : m.read p n = left ++ right) :
    m.read p left.length = left ∧ m.read (p.add left.length) right.length = right := by
  have length : n = left.length + right.length := by
    rw [← List.length_append, ← whole, read_length]
  rw [length, read_add] at whole
  exact List.append_inj whole (read_length m p _)

variable [DecidableEq B]

/-- Store `bytes` from `p` on. -/
def write (m : Mem B A) (p : Ptr B) (bytes : List A) : Mem B A := fun b i =>
  if b = p.block ∧ p.off ≤ i then (bytes[i - p.off]?).getD (m b i) else m b i

@[simp] theorem write_nil (m : Mem B A) (p : Ptr B) : m.write p [] = m := by
  funext b i
  simp [write]

theorem read_write_self (m : Mem B A) (p : Ptr B) (bytes : List A) :
    (m.write p bytes).read p bytes.length = bytes := by
  apply List.ext_getElem (by simp)
  intro i hi hb
  rw [read_getElem]
  simp [write, hb]

/-- Reading inside a range just written gives that part of it. -/
theorem read_write_inside (m : Mem B A) (p : Ptr B) {bytes : List A} {k n : Nat}
    (inside : k + n ≤ bytes.length) :
    (m.write p bytes).read (p.add k) n = (bytes.drop k).take n := by
  have whole := read_write_self m p bytes
  have part := drop_read (m.write p bytes) p (k := k) (n := bytes.length) (by omega)
  rw [whole] at part
  rw [part, take_read _ _ (by omega)]

/-- Ranges keep their contents when what is around them is copied to another place. -/
theorem read_copied (m : Mem B A) (dst : Ptr B) {src : Ptr B} {len k n : Nat}
    (inside : k + n ≤ len) :
    (m.write dst (m.read src len)).read (dst.add k) n = m.read (src.add k) n := by
  rw [read_write_inside m dst (by rw [read_length]; exact inside), drop_read _ _ (by omega),
    take_read _ _ (by omega)]

/-- A write leaves every range apart from its own alone. -/
theorem read_write_of_disjoint (m : Mem B A) {p q : Ptr B} {bytes : List A} {n : Nat}
    (apart : (Region.mk q n).Disjoint ⟨p, bytes.length⟩) :
    (m.write p bytes).read q n = m.read q n := by
  apply read_congr
  intro i hi
  simp only [write]
  split
  · rename_i hit
    rcases apart with other | before | after
    · exact absurd hit.1 other
    · simp only at before; omega
    · simp only at after
      rw [List.getElem?_eq_none (by omega), Option.getD_none]
  · rfl

/-- What lies behind a write is still there. -/
theorem read_behind (m : Mem B A) (p : Ptr B) (front : List A) (n : Nat) :
    (m.write p front).read (p.add front.length) n = m.read (p.add front.length) n :=
  read_write_of_disjoint m (Or.inr (Or.inr (Nat.le_refl _)))

/-- A write in the middle of a range replaces what has been there. -/
theorem read_write_middle {m : Mem B A} {p : Ptr B} {n : Nat} {left old right new : List A}
    (whole : m.read p n = left ++ (old ++ right)) (length : new.length = old.length) :
    (m.write (p.add left.length) new).read p n = left ++ (new ++ right) := by
  have count : n = left.length + (new.length + right.length) := by
    rw [length, ← List.length_append, ← List.length_append, ← whole, read_length]
  obtain ⟨front, behind⟩ := read_parts whole
  obtain ⟨-, back⟩ := read_parts (n := (old ++ right).length) behind
  rw [count, read_add, read_add]
  congr 1
  · rw [read_write_of_disjoint _ (Or.inr (Or.inl (by simp only [Ptr.add_off]; omega))), front]
  · congr 1
    · exact read_write_self _ _ _
    · rw [read_write_of_disjoint _ (Or.inr (Or.inr (by simp only [Ptr.add_off]; omega))), length, back]

/-- Storing what is there already changes nothing. -/
theorem write_read_self (m : Mem B A) (p : Ptr B) (n : Nat) : m.write p (m.read p n) = m := by
  funext b i
  simp only [write]
  split
  · rename_i hit
    by_cases inside : i - p.off < n
    · rw [List.getElem?_eq_getElem (by rw [read_length]; exact inside), Option.getD_some,
        read_getElem, hit.1, Nat.add_sub_cancel' hit.2]
    · rw [List.getElem?_eq_none (by rw [read_length]; exact Nat.le_of_not_lt inside),
        Option.getD_none]
  · rfl

/-- Two stores, one behind the other, are one. -/
theorem write_append (m : Mem B A) (p : Ptr B) (front behind : List A) :
    (m.write p front).write (p.add front.length) behind = m.write p (front ++ behind) := by
  funext b i
  have off : (p.add front.length).off = p.off + front.length := rfl
  simp only [write]
  by_cases here : b = p.block ∧ p.off ≤ i
  case neg =>
    have notBehind : ¬(b = (p.add front.length).block ∧ (p.add front.length).off ≤ i) :=
      fun both => here ⟨both.1, Nat.le_trans (Nat.le_add_right _ _) both.2⟩
    rw [if_neg here, if_neg here, if_neg notBehind]
  rw [if_pos here, if_pos here]
  by_cases inFront : i < p.off + front.length
  · have notBehind : ¬(b = (p.add front.length).block ∧ (p.add front.length).off ≤ i) :=
      fun both => Nat.not_le_of_lt inFront both.2
    rw [if_neg notBehind, List.getElem?_append_left (by omega)]
  · have isBehind : b = (p.add front.length).block ∧ (p.add front.length).off ≤ i :=
      ⟨here.1, Nat.le_of_not_lt inFront⟩
    rw [if_pos isBehind, List.getElem?_append_right (by omega),
      List.getElem?_eq_none (l := front) (by omega), Option.getD_none, off, Nat.sub_add_eq]

theorem write_other (m : Mem B A) {p : Ptr B} {bytes : List A} {b : B} (i : Nat)
    (other : b ≠ p.block) : m.write p bytes b i = m b i := by
  simp [write, other]

end Mem

end MiniWebSrv
