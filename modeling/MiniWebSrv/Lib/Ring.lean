import Mathlib.Data.List.Basic
import Mathlib.Data.List.Pairwise

/-! # Contiguous allocation in a circular arena

Spans of bytes are taken from an arena of `size` bytes in circular order, and given
back in the order they were taken. A span never crosses the end of the arena: when
the tail is too short, it is skipped, and the span goes to the beginning.

`used` is a position at or before the oldest live span, `free` the position behind the
youngest one. `Layout` describes both shapes of the arena (one run of spans, or one
at the end followed by one at the beginning). One byte is always left free, so
`used = free` says that there is no live span.
-/

namespace MiniWebSrv.Ring

/-- A range of the arena. -/
structure Span where
  off : Nat
  len : Nat
  deriving DecidableEq, Repr

namespace Span

/-- The position behind the last byte. -/
def stop (s : Span) : Nat := s.off + s.len

/-- The position of the byte behind it: the end of the arena is its beginning. -/
def next (size : Nat) (s : Span) : Nat :=
  if size ≤ s.stop then s.stop - size else s.stop

def Before (s t : Span) : Prop := s.stop ≤ t.off

def Apart (s t : Span) : Prop := s.Before t ∨ t.Before s

end Span

/-- The spans are non-empty, in ascending order, and inside `[lo, hi)`. -/
def Fits (lo hi : Nat) : List Span → Prop
  | [] => lo ≤ hi
  | s :: rest => lo ≤ s.off ∧ 0 < s.len ∧ Fits s.stop hi rest

namespace Fits

theorem le {lo hi : Nat} {spans : List Span} (h : Fits lo hi spans) : lo ≤ hi := by
  induction spans generalizing lo with
  | nil => exact h
  | cons s rest ih =>
      have := ih h.2.2
      have := h.1
      simp only [Span.stop] at *
      omega

theorem append_iff {lo hi : Nat} {left right : List Span} :
    Fits lo hi (left ++ right) ↔ ∃ mid, Fits lo mid left ∧ Fits mid hi right := by
  induction left generalizing lo with
  | nil =>
      constructor
      · intro h
        exact ⟨lo, Nat.le_refl lo, h⟩
      · rintro ⟨mid, le, h⟩
        cases right with
        | nil => exact Nat.le_trans le h
        | cons s rest => exact ⟨Nat.le_trans le h.1, h.2⟩
  | cons s rest ih =>
      simp only [List.cons_append, Fits, ih]
      constructor
      · rintro ⟨start, size, mid, h, h'⟩
        exact ⟨mid, ⟨start, size, h⟩, h'⟩
      · rintro ⟨mid, ⟨start, size, h⟩, h'⟩
        exact ⟨start, size, mid, h, h'⟩

theorem singleton_iff {lo hi : Nat} {s : Span} :
    Fits lo hi [s] ↔ lo ≤ s.off ∧ 0 < s.len ∧ s.stop ≤ hi := Iff.rfl

theorem mono {lo lo' hi hi' : Nat} {spans : List Span} (h : Fits lo hi spans)
    (left : lo' ≤ lo) (right : hi ≤ hi') : Fits lo' hi' spans := by
  induction spans generalizing lo lo' with
  | nil => exact Nat.le_trans left (Nat.le_trans h right)
  | cons s rest ih => exact ⟨Nat.le_trans left h.1, h.2.1, ih h.2.2 (Nat.le_refl _)⟩

/-- Dropping the first span moves the lower bound behind it. -/
theorem tail {lo hi : Nat} {s : Span} {rest : List Span} (h : Fits lo hi (s :: rest)) :
    Fits s.stop hi rest := h.2.2

theorem eq_nil {lo : Nat} {spans : List Span} (h : Fits lo lo spans) : spans = [] := by
  cases spans with
  | nil => rfl
  | cons s rest =>
      have := h.1
      have := h.2.1
      have := h.2.2.le
      simp only [Span.stop] at *
      omega

theorem stop_le {lo hi : Nat} {spans : List Span} (h : Fits lo hi spans) :
    ∀ s ∈ spans, lo ≤ s.off ∧ 0 < s.len ∧ s.stop ≤ hi := by
  induction spans generalizing lo with
  | nil => simp
  | cons s rest ih =>
      intro t member
      rcases List.mem_cons.mp member with rfl | member
      · exact ⟨h.1, h.2.1, h.2.2.le⟩
      · obtain ⟨start, size, stop⟩ := ih h.2.2 t member
        have := h.1
        exact ⟨by simp only [Span.stop] at *; omega, size, stop⟩

theorem pairwise {lo hi : Nat} {spans : List Span} (h : Fits lo hi spans) :
    spans.Pairwise Span.Before := by
  induction spans generalizing lo with
  | nil => exact .nil
  | cons s rest ih => exact .cons (fun t member => (h.2.2.stop_le t member).1) (ih h.2.2)

end Fits

/-- The two shapes of an arena whose live spans are `spans`, oldest first. -/
inductive Layout (size used free : Nat) (spans : List Span) : Prop where
  | straight (inside : free < size) (fits : Fits used free spans)
  | wrapped (tail head : List Span) (behind : free < used) (inside : used < size)
      (split : spans = tail ++ head) (fitsTail : Fits used size tail) (fitsHead : Fits 0 free head)

/-- `free` is the position behind the youngest span, modulo the wrap at the end. -/
def EndsAt (size free : Nat) (s : Span) : Prop :=
  if free = 0 then s.stop = size else s.stop = free

theorem EndsAt.of_stop {size free : Nat} {s : Span} (pos : 0 < free) (stop : s.stop = free) :
    EndsAt size free s := by
  simpa only [EndsAt, if_neg (Nat.ne_of_gt pos)] using stop

theorem EndsAt.of_size {size : Nat} {s : Span} (stop : s.stop = size) : EndsAt size 0 s := by
  simpa only [EndsAt, if_true] using stop

namespace Layout

variable {size used free : Nat} {spans : List Span}

theorem empty {size : Nat} (pos : 0 < size) : Layout size 0 0 [] :=
  .straight pos (Nat.le_refl 0)

theorem bounds (h : Layout size used free spans) : used < size ∧ free < size := by
  cases h with
  | straight inside fits => exact ⟨Nat.lt_of_le_of_lt fits.le inside, inside⟩
  | wrapped _ _ behind inside => exact ⟨inside, Nat.lt_trans behind inside⟩

theorem inside (h : Layout size used free spans) :
    ∀ s ∈ spans, 0 < s.len ∧ s.stop ≤ size := by
  intro s member
  cases h with
  | straight inside fits =>
      obtain ⟨_, pos, stop⟩ := fits.stop_le s member
      exact ⟨pos, by omega⟩
  | wrapped tail head behind inside split fitsTail fitsHead =>
      subst split
      rcases List.mem_append.mp member with member | member
      · exact (fitsTail.stop_le s member).2
      · obtain ⟨_, pos, stop⟩ := fitsHead.stop_le s member
        exact ⟨pos, by omega⟩

/-- No two live spans overlap. -/
theorem pairwise (h : Layout size used free spans) : spans.Pairwise Span.Apart := by
  cases h with
  | straight inside fits => exact fits.pairwise.imp Or.inl
  | wrapped tail head behind inside split fitsTail fitsHead =>
      subst split
      refine List.pairwise_append.mpr
        ⟨fitsTail.pairwise.imp Or.inl, fitsHead.pairwise.imp Or.inl, ?_⟩
      intro s inTail t inHead
      have afterUsed := (fitsTail.stop_le s inTail).1
      have beforeFree := (fitsHead.stop_le t inHead).2.2
      exact Or.inr (by simp only [Span.Before]; omega)

/-- Coinciding positions mean an empty arena, which may start over at any position. -/
theorem restart (h : Layout size used used spans) : spans = [] := by
  cases h with
  | straight _ fits => exact fits.eq_nil
  | wrapped _ _ behind => omega

/-- Take `len` bytes at `free`, when they fit before the end of the arena. -/
theorem take_straight (h : Layout size used free spans) (order : used ≤ free) {len : Nat}
    (pos : 0 < len) (room : free + len < size) :
    Layout size used (free + len) (spans ++ [⟨free, len⟩]) := by
  cases h with
  | straight _ fits =>
      refine .straight room (Fits.append_iff.mpr ⟨free, fits, ?_⟩)
      exact Fits.singleton_iff.mpr ⟨Nat.le_refl _, pos, Nat.le_refl _⟩
  | wrapped _ _ behind => omega

/-- Take everything up to the end of the arena. The first byte has to be free. -/
theorem take_to_end (h : Layout size used free spans) (order : used ≤ free) {len : Nat}
    (pos : 0 < len) (guard : 0 < used) (exact_ : free + len = size) :
    Layout size used 0 (spans ++ [⟨free, len⟩]) := by
  cases h with
  | straight inside fits =>
      refine .wrapped (spans ++ [⟨free, len⟩]) [] guard (by have := fits.le; omega)
        (by simp) (Fits.append_iff.mpr ⟨free, fits, ?_⟩) (Nat.le_refl 0)
      exact Fits.singleton_iff.mpr ⟨Nat.le_refl _, pos, by simp only [Span.stop]; omega⟩
  | wrapped _ _ behind => omega

/-- Skip the tail of the arena, and take `len` bytes from its beginning. -/
theorem take_front (h : Layout size used free spans) (order : used ≤ free) {len : Nat}
    (pos : 0 < len) (room : len < used) :
    Layout size used len (spans ++ [⟨0, len⟩]) := by
  cases h with
  | straight inside fits =>
      refine .wrapped spans [⟨0, len⟩] room (by have := fits.le; omega) rfl
        (fits.mono (Nat.le_refl _) (Nat.le_of_lt inside)) ?_
      exact Fits.singleton_iff.mpr ⟨Nat.le_refl _, pos, by simp only [Span.stop]; omega⟩
  | wrapped _ _ behind => omega

/-- Take `len` bytes between the two runs of a wrapped arena. -/
theorem take_between (h : Layout size used free spans) (order : free < used) {len : Nat}
    (pos : 0 < len) (room : free + len < used) :
    Layout size used (free + len) (spans ++ [⟨free, len⟩]) := by
  cases h with
  | straight inside fits => have := fits.le; omega
  | wrapped tail head behind inside split fitsTail fitsHead =>
      subst split
      refine .wrapped tail (head ++ [⟨free, len⟩]) room inside (by simp) fitsTail
        (Fits.append_iff.mpr ⟨free, fitsHead, ?_⟩)
      exact Fits.singleton_iff.mpr ⟨Nat.le_refl _, pos, Nat.le_refl _⟩

/-- Give the oldest span back. The position may reach the end, which is the beginning. -/
theorem release {s : Span} {rest : List Span} (h : Layout size used free (s :: rest)) :
    Layout size (s.next size) free rest := by
  unfold Span.next
  cases h with
  | straight inside fits =>
      have := fits.tail.le
      rw [if_neg (by omega)]
      exact .straight inside fits.tail
  | wrapped tail head behind inside split fitsTail fitsHead =>
      cases tail with
      | nil =>
          -- the whole tail run is gone, so the head run is a straight arena
          simp only [List.nil_append] at split
          subst split
          have := fitsHead.tail.le
          rw [if_neg (by omega)]
          exact .straight (by omega) fitsHead.tail
      | cons t more =>
          simp only [List.cons_append, List.cons.injEq] at split
          obtain ⟨rfl, rfl⟩ := split
          have stop := fitsTail.tail.le
          have start := fitsTail.1
          by_cases atEnd : size ≤ s.stop
          · have same : s.stop = size := by omega
            have none_ : more = [] := Fits.eq_nil (show Fits size size more from same ▸ fitsTail.tail)
            subst none_
            rw [if_pos atEnd, same, Nat.sub_self]
            exact .straight (by omega) fitsHead
          · rw [if_neg atEnd]
            have := fitsTail.2.1
            exact .wrapped more head (by simp only [Span.stop]; omega) (by omega) rfl
              fitsTail.tail fitsHead

/-- Where the youngest span lies: below `free`, or at the very end of the arena
    when `free` has wrapped to the beginning. `rest` puts a shorter span, or none, there. -/
theorem youngest {s : Span} (h : Layout size used free (spans ++ [s])) (ends : EndsAt size free s) :
    (∃ lo, used ≤ lo ∧ s.stop = free ∧ 0 < free ∧ free < size ∧ lo ≤ s.off ∧ 0 < s.len ∧
        Fits used lo spans) ∨
      (∃ tail head lo, free < used ∧ used < size ∧ spans = tail ++ head ∧ Fits used size tail ∧
        s.stop = free ∧ lo ≤ s.off ∧ 0 < s.len ∧ Fits 0 lo head) ∨
      (∃ lo, free = 0 ∧ 0 < used ∧ used ≤ lo ∧ s.stop = size ∧ lo ≤ s.off ∧ 0 < s.len ∧
        Fits used lo spans) := by
  cases h with
  | straight inside fits =>
      obtain ⟨lo, fits, start, pos, stop⟩ := Fits.append_iff.mp fits
      have stop := Fits.le stop
      have := fits.le
      have positive : free ≠ 0 := by simp only [Span.stop] at *; omega
      simp only [EndsAt, if_neg positive] at ends
      exact Or.inl ⟨lo, fits.le, ends, by omega, inside, start, pos, fits⟩
  | wrapped tail head behind inside split fitsTail fitsHead =>
      rcases List.eq_nil_or_concat' head with rfl | ⟨head, t, rfl⟩
      · rw [List.append_nil] at split
        subst split
        obtain ⟨lo, fits, start, pos, stop⟩ := Fits.append_iff.mp fitsTail
        have := fits.le
        have zero : free = 0 := by
          by_contra positive
          simp only [EndsAt, if_neg positive, Span.stop] at ends
          omega
        simp only [EndsAt, zero, if_true] at ends
        exact Or.inr (Or.inr ⟨lo, zero, by omega, fits.le, ends, start, pos, fits⟩)
      · rw [← List.append_assoc] at split
        obtain ⟨rfl, same⟩ := List.append_inj' split rfl
        obtain rfl := List.singleton_inj.mp same
        obtain ⟨lo, fits, start, pos, stop⟩ := Fits.append_iff.mp fitsHead
        have stop := Fits.le stop
        have positive : free ≠ 0 := by simp only [Span.stop] at *; omega
        simp only [EndsAt, if_neg positive] at ends
        exact Or.inr (Or.inl ⟨tail, head, lo, behind, inside, rfl, fitsTail, ends, start, pos, fits⟩)

/-- Give the last `n` bytes of the youngest span back, but not all of them. -/
theorem shrink {s : Span} (h : Layout size used free (spans ++ [s])) (ends : EndsAt size free s)
    {n : Nat} (pos : 0 < n) (less : n < s.len) :
    Layout size used (if free ≠ 0 then free - n else size - n) (spans ++ [⟨s.off, s.len - n⟩]) := by
  rcases h.youngest ends with ⟨lo, _, stop, positive, inside, start, _, fits⟩ |
      ⟨tail, head, lo, behind, inside, rfl, fitsTail, stop, start, _, fits⟩ |
      ⟨lo, rfl, _, _, stop, start, _, fits⟩
  · rw [if_pos (by omega)]
    refine .straight (by omega) (Fits.append_iff.mpr ⟨lo, fits, ?_⟩)
    exact ⟨start, by simp only; omega, by simp only [Span.stop, Fits] at *; omega⟩
  · have positive : free ≠ 0 := by simp only [Span.stop] at stop; omega
    rw [if_pos positive, List.append_assoc]
    refine .wrapped tail (head ++ [⟨s.off, s.len - n⟩]) (by omega) inside rfl fitsTail
      (Fits.append_iff.mpr ⟨lo, fits, ?_⟩)
    exact ⟨start, by simp only; omega, by simp only [Span.stop, Fits] at *; omega⟩
  · -- the span ended at the end of the arena, so the wrap is undone
    rw [if_neg (by simp)]
    refine .straight (by simp only [Span.stop] at stop; omega) (Fits.append_iff.mpr ⟨lo, fits, ?_⟩)
    exact ⟨start, by simp only; omega, by simp only [Span.stop, Fits] at *; omega⟩

/-- Give the youngest span back as a whole. -/
theorem drop_last {s : Span} (h : Layout size used free (spans ++ [s])) (ends : EndsAt size free s) :
    Layout size used (if free ≠ 0 then free - s.len else size - s.len) spans := by
  rcases h.youngest ends with ⟨lo, _, stop, positive, inside, start, pos, fits⟩ |
      ⟨tail, head, lo, behind, inside, rfl, fitsTail, stop, start, pos, fits⟩ |
      ⟨lo, rfl, _, _, stop, start, pos, fits⟩
  · rw [if_pos (by omega)]
    exact .straight (by omega)
      (fits.mono (Nat.le_refl _) (by simp only [Span.stop] at stop; omega))
  · have positive : free ≠ 0 := by simp only [Span.stop] at stop; omega
    rw [if_pos positive]
    exact .wrapped tail head (by omega) inside rfl fitsTail
      (fits.mono (Nat.le_refl _) (by simp only [Span.stop] at stop; omega))
  · rw [if_neg (by simp)]
    exact .straight (by simp only [Span.stop] at stop; omega)
      (fits.mono (Nat.le_refl _) (by simp only [Span.stop] at stop; omega))

/-- Two adjacent spans may be seen as one. -/
theorem merge {a len len' : Nat}
    (h : Layout size used free (spans ++ [⟨a, len⟩, ⟨a + len, len'⟩])) :
    Layout size used free (spans ++ [⟨a, len + len'⟩]) := by
  have joined : ∀ {lo hi : Nat} {left : List Span},
      Fits lo hi (left ++ [⟨a, len⟩, ⟨a + len, len'⟩]) → Fits lo hi (left ++ [⟨a, len + len'⟩]) := by
    intro lo hi left fits
    obtain ⟨mid, fits, start, pos, _, _, stop⟩ := Fits.append_iff.mp fits
    refine Fits.append_iff.mpr ⟨mid, fits, start, by simp only at *; omega, ?_⟩
    simp only [Span.stop, Fits] at *
    omega
  cases h with
  | straight inside fits => exact .straight inside (joined fits)
  | wrapped tail head behind inside split fitsTail fitsHead =>
      rcases List.eq_nil_or_concat' head with rfl | ⟨head, t, rfl⟩
      · rw [List.append_nil] at split
        subst split
        exact .wrapped _ [] behind inside (by simp) (joined fitsTail) fitsHead
      · rcases List.eq_nil_or_concat' head with rfl | ⟨head, t', rfl⟩
        · -- the second span would be at the very beginning, yet behind the first one
          have split' : (spans ++ [⟨a, len⟩]) ++ [⟨a + len, len'⟩] = tail ++ [t] := by simpa using split
          obtain ⟨rfl, same⟩ := List.append_inj' split' rfl
          obtain rfl := List.singleton_inj.mp same
          have first := fitsTail.stop_le ⟨a, len⟩ (by simp)
          have second := fitsHead.stop_le ⟨a + len, len'⟩ (by simp)
          simp only [Span.stop] at *
          omega
        · have split' : spans ++ [⟨a, len⟩, ⟨a + len, len'⟩] = (tail ++ head) ++ [t', t] := by
            simpa using split
          obtain ⟨rfl, same⟩ := List.append_inj' split' rfl
          simp only [List.cons.injEq, and_true] at same
          obtain ⟨rfl, rfl⟩ := same
          refine .wrapped tail (head ++ [⟨a, len + len'⟩]) behind inside (by simp) fitsTail
            (joined (by simpa using fitsHead))

/-- What is given back of the youngest span as a whole was taken at its beginning. -/
theorem youngest_off {s : Span} (h : Layout size used free (spans ++ [s]))
    (ends : EndsAt size free s) :
    (if free ≠ 0 then free - s.len else size - s.len) = s.off := by
  rcases h.youngest ends with ⟨_, _, stop, positive, _⟩ | ⟨_, _, _, _, _, _, _, stop, _, pos, _⟩ |
      ⟨_, rfl, _, _, stop, _⟩
  · rw [if_pos (by omega), ← stop, Span.stop, Nat.add_sub_cancel]
  · have positive : free ≠ 0 := by simp only [Span.stop] at stop; omega
    rw [if_pos positive, ← stop, Span.stop, Nat.add_sub_cancel]
  · rw [if_neg (by simp), ← stop, Span.stop, Nat.add_sub_cancel]

end Layout

/-! ## No gap behind the youngest span -/

/-- The youngest span ends where the next one will be taken. Without a span both positions are at
    the beginning of the arena. -/
def Gapless (size used free : Nat) (spans : List Span) : Prop :=
  match spans.getLast? with
  | some s => EndsAt size free s
  | none => used = 0 ∧ free = 0

instance {size free : Nat} {s : Span} : Decidable (EndsAt size free s) :=
  inferInstanceAs (Decidable (if free = 0 then s.stop = size else s.stop = free))

instance {size used free : Nat} {spans : List Span} : Decidable (Gapless size used free spans) :=
  match last : spans.getLast? with
  | some s => decidable_of_iff (EndsAt size free s) (by simp only [Gapless, last])
  | none => decidable_of_iff (used = 0 ∧ free = 0) (by simp only [Gapless, last])

namespace Gapless

variable {size used free : Nat} {spans : List Span}

theorem empty : Gapless size 0 0 [] := ⟨rfl, rfl⟩

theorem concat_iff {s : Span} : Gapless size used free (spans ++ [s]) ↔ EndsAt size free s := by
  simp only [Gapless, List.getLast?_concat]

/-- When the position behind the oldest span is where the next one will be taken, it is the only one,
    and there is no gap behind it. -/
theorem of_released {s : Span} {rest : List Span} (layout : Layout size used free (s :: rest))
    (met : s.next size = free) : Gapless size used free (s :: rest) := by
  obtain ⟨pos, stop⟩ := layout.inside s List.mem_cons_self
  have released := layout.release
  rw [met] at released
  rw [released.restart]
  change EndsAt size free s
  rw [Span.next] at met
  by_cases atEnd : size ≤ s.stop
  · rw [if_pos atEnd] at met
    have zero : free = 0 := by omega
    rw [zero]
    exact .of_size (Nat.le_antisymm stop atEnd)
  · rw [if_neg atEnd] at met
    have positive : 0 < free := by
      rw [← met, Span.stop]
      exact Nat.add_pos_right s.off pos
    exact .of_stop positive met

/-- Otherwise the oldest span is no matter. -/
theorem tail_iff {s : Span} {rest : List Span} (layout : Layout size used free (s :: rest))
    (apart : s.next size ≠ free) :
    Gapless size (s.next size) free rest ↔ Gapless size used free (s :: rest) := by
  cases last : rest.getLast? with
  | some t =>
      have last' : (s :: rest).getLast? = some t := by
        rw [List.getLast?_cons, last, Option.getD_some]
      simp only [Gapless, last, last']
  | none =>
      rw [List.getLast?_eq_none_iff.mp last]
      apply iff_of_false
      · rintro ⟨zero, free⟩
        exact apart (zero.trans free.symm)
      · intro ends
        change EndsAt size free s at ends
        have inside := layout.bounds.2
        rw [Span.next] at apart
        by_cases zero : free = 0
        · simp only [EndsAt, if_pos zero] at ends
          rw [if_pos (Nat.le_of_eq ends.symm), ends, Nat.sub_self] at apart
          exact apart zero.symm
        · simp only [EndsAt, if_neg zero] at ends
          rw [if_neg (by omega)] at apart
          exact apart ends

/-- Less than the youngest span is given back. -/
theorem shrink {s : Span} (layout : Layout size used free (spans ++ [s]))
    (gapless : Gapless size used free (spans ++ [s])) {n : Nat} (less : n < s.len) :
    Gapless size used (if free ≠ 0 then free - n else size - n) (spans ++ [⟨s.off, s.len - n⟩]) := by
  have ends := concat_iff.mp gapless
  have off := layout.youngest_off ends
  have inside := layout.inside s (by simp)
  rw [concat_iff]
  simp only [Span.stop] at inside
  split
  · rename_i positive
    rw [if_pos positive] at off
    simp only [EndsAt, if_neg positive, Span.stop] at ends
    exact .of_stop (by omega) (by simp only [Span.stop]; omega)
  · rename_i zero
    rw [if_neg zero] at off
    exact .of_stop (by omega) (by simp only [Span.stop]; omega)

end Gapless

end MiniWebSrv.Ring
