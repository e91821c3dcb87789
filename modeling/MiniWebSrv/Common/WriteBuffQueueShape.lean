import Mathlib.Data.List.Nodup
import Mathlib.Data.List.Perm.Basic
import MiniWebSrv.Common.WriteBuffQueue
import MiniWebSrv.Lib.Ring

/-! # The shape of a write queue

Between two calls the queue consists of the buffers being written, the pending ones
behind them, and at most one buffer whose allocation has not been committed yet. `Shape`
says this together with what the positions in the arena and the heap buffers have to do
with it, and there is one lemma for each operation which says what becomes of the shape.
-/

namespace MiniWebSrv

open Word MiniWebSrv.Ring

namespace Buffer

/-- The bytes of a buffer. -/
def region (b : Buffer) : Region WriteBlock := ⟨b.buff, b.length⟩

/-- The part of the arena which a static buffer occupies. -/
def span? (b : Buffer) : Option Span :=
  match b.buff.block with
  | .arena => some ⟨b.buff.off, b.length⟩
  | .heap _ => none

def heapId? (b : Buffer) : Option Nat :=
  match b.buff.block with
  | .arena => none
  | .heap id => some id

end Buffer

theorem Buffer.heapId?_eq_some {b : Buffer} {id : Nat} :
    b.heapId? = some id ↔ b.buff.block = .heap id := by
  cases at_ : b.buff.block <;> simp [Buffer.heapId?, at_]

def DynBuffer.heapId? (d : DynBuffer) : Option Nat :=
  match d.buff.block with
  | .arena => none
  | .heap id => some id

namespace WriteBuffQueue

variable {size : Nat}

def spans (bs : List Buffer) : List Span := bs.filterMap Buffer.span?

@[simp] theorem spans_append (bs cs : List Buffer) : spans (bs ++ cs) = spans bs ++ spans cs :=
  List.filterMap_append

/-- Heap buffers have one owner, the queue or the store, and keep the size they were
    created with. -/
structure HeapOk (bs : List Buffer) (free : List DynBuffer) (sizes : List Nat) : Prop where
  owner : (bs.filterMap Buffer.heapId? ++ free.filterMap DynBuffer.heapId?).Nodup
  queued : ∀ b ∈ bs, ∀ id, b.buff.block = .heap id →
    b.buff.off = 0 ∧ 0 < b.length ∧ b.length ≤ b.allocLength ∧ sizes[id]? = some b.allocLength
  stored : ∀ d ∈ free, ∃ id, d.buff = ⟨.heap id, 0⟩ ∧ sizes[id]? = some d.length

namespace HeapOk

variable {bs : List Buffer} {free : List DynBuffer} {sizes : List Nat}

def owners (bs : List Buffer) (free : List DynBuffer) : List Nat :=
  bs.filterMap Buffer.heapId? ++ free.filterMap DynBuffer.heapId?

theorem known (h : HeapOk bs free sizes) {id : Nat} (member : id ∈ owners bs free) :
    id < sizes.length := by
  rcases List.mem_append.mp member with member | member
  · obtain ⟨b, inQueue, same⟩ := List.mem_filterMap.mp member
    have := (h.queued b inQueue id (Buffer.heapId?_eq_some.mp same)).2.2.2
    exact (List.getElem?_eq_some_iff.mp this).1
  · obtain ⟨d, inStore, same⟩ := List.mem_filterMap.mp member
    obtain ⟨i, buff, known⟩ := h.stored d inStore
    obtain rfl : i = id := by simpa only [DynBuffer.heapId?, buff, Option.some.injEq] using same
    exact (List.getElem?_eq_some_iff.mp known).1

/-- Creating another buffer changes no recorded size. -/
theorem grow (h : HeapOk bs free sizes) (n : Nat) : HeapOk bs free (sizes ++ [n]) where
  owner := h.owner
  queued b member id block := by
    obtain ⟨off, pos, le, known⟩ := h.queued b member id block
    exact ⟨off, pos, le, (List.getElem?_append_left (List.getElem?_eq_some_iff.mp known).1).trans known⟩
  stored d member := by
    obtain ⟨id, buff, known⟩ := h.stored d member
    exact ⟨id, buff, (List.getElem?_append_left (List.getElem?_eq_some_iff.mp known).1).trans known⟩

/-- A buffer which nobody owns may join the queue. -/
theorem push (h : HeapOk bs free sizes) {id length allocLength : Nat} {state : BufferState}
    (fresh : id ∉ owners bs free) (known : sizes[id]? = some allocLength) (pos : 0 < length)
    (le : length ≤ allocLength) :
    HeapOk (bs ++ [⟨⟨.heap id, 0⟩, length, allocLength, state⟩]) free sizes where
  owner := by
    have owner := List.nodup_middle.mpr (List.nodup_cons.mpr ⟨fresh, h.owner⟩)
    rw [List.filterMap_append, List.append_assoc]
    exact owner
  queued b member i block := by
    rcases List.mem_append.mp member with member | member
    · exact h.queued b member i block
    · obtain rfl := List.mem_singleton.mp member
      obtain rfl : id = i := by simpa using block
      exact ⟨rfl, pos, le, known⟩
  stored := h.stored

/-- Static buffers are of no concern to the heap. -/
theorem static_iff {b : Buffer} {cs : List Buffer} (static : b.buff.block = .arena) :
    HeapOk (bs ++ b :: cs) free sizes ↔ HeapOk (bs ++ cs) free sizes := by
  have skip : (bs ++ b :: cs).filterMap Buffer.heapId? = (bs ++ cs).filterMap Buffer.heapId? := by
    simp only [List.filterMap_append, List.filterMap_cons, Buffer.heapId?, static]
  constructor
  · intro h
    refine ⟨skip ▸ h.owner, fun c member => h.queued c ?_, h.stored⟩
    rcases List.mem_append.mp member with member | member <;> simp [member]
  · intro h
    refine ⟨skip ▸ h.owner, fun c member id block => ?_, h.stored⟩
    rcases List.mem_append.mp member with member | member
    · exact h.queued c (by simp [member]) id block
    · rcases List.mem_cons.mp member with rfl | member
      · simp [static] at block
      · exact h.queued c (by simp [member]) id block

theorem replace {b b' : Buffer} {cs : List Buffer} (h : HeapOk (bs ++ b :: cs) free sizes)
    (buff : b'.buff = b.buff) (alloc : b'.allocLength = b.allocLength)
    (length : ∀ id, b.buff.block = .heap id → 0 < b'.length ∧ b'.length ≤ b.length) :
    HeapOk (bs ++ b' :: cs) free sizes where
  owner := by
    have same : b'.heapId? = b.heapId? := by simp only [Buffer.heapId?, buff]
    simpa only [List.filterMap_append, List.filterMap_cons, same] using h.owner
  queued c member id block := by
    rcases List.mem_append.mp member with member | member
    · exact h.queued c (by simp [member]) id block
    · rcases List.mem_cons.mp member with rfl | member
      · rw [buff] at block
        obtain ⟨off, _, le, known⟩ := h.queued b (by simp) id block
        obtain ⟨pos, shorter⟩ := length id block
        exact ⟨buff ▸ off, pos, alloc ▸ Nat.le_trans shorter le, alloc ▸ known⟩
      · exact h.queued c (by simp [member]) id block
  stored := h.stored

/-- A heap buffer may go from the queue to the store. -/
theorem store {b : Buffer} {cs : List Buffer} {id : Nat} (h : HeapOk (bs ++ b :: cs) free sizes)
    (block : b.buff.block = .heap id) :
    HeapOk (bs ++ cs) (free ++ [⟨b.buff, b.allocLength⟩]) sizes := by
  obtain ⟨off, _, _, known⟩ := h.queued b (by simp) id block
  have buff : b.buff = ⟨.heap id, 0⟩ := by
    rw [← block, ← off]
  refine ⟨?_, fun c member => h.queued c ?_, ?_⟩
  · have moved : (bs ++ cs).filterMap Buffer.heapId? ++
        (free ++ [DynBuffer.mk b.buff b.allocLength]).filterMap DynBuffer.heapId? =
        ((bs ++ cs).filterMap Buffer.heapId? ++ free.filterMap DynBuffer.heapId?) ++ [id] := by
      rw [buff, List.filterMap_append (f := DynBuffer.heapId?), ← List.append_assoc]
      rfl
    have perm := (List.perm_append_singleton id
      ((bs ++ cs).filterMap Buffer.heapId? ++ free.filterMap DynBuffer.heapId?))
    rw [moved, perm.nodup_iff]
    have owner := h.owner
    rw [List.filterMap_append, List.filterMap_cons_some (Buffer.heapId?_eq_some.mpr block),
      List.append_assoc, List.cons_append] at owner
    simpa only [List.filterMap_append, List.append_assoc] using
      (List.perm_middle.nodup_iff).mp owner
  · rcases List.mem_append.mp member with member | member <;> simp [member]
  · intro d member
    rcases List.mem_append.mp member with member | member
    · exact h.stored d member
    · obtain rfl := List.mem_singleton.mp member
      exact ⟨id, buff, known⟩

end HeapOk

/-- The buffer of an allocation which has not been committed. Its last
    `LastAllocLength` bytes are the allocation, the bytes before them were pending. -/
structure Open (q : WriteBuffQueue size) (b : Buffer) : Prop where
  state : b.state = .allocated
  pos : 0 < q.lastAllocLength
  le : q.lastAllocLength ≤ b.length
  static : ∀ s, b.span? = some s → EndsAt size q.fifoFreeBegin s
  dynamic : b.span? = none → b.length = q.lastAllocLength

structure Shape (q : WriteBuffQueue size) (ws ps : List Buffer) (last : Option Buffer) : Prop where
  queue : q.outBuffA = ws ++ ps ++ last.toList
  first : q.firstPendingI = ws.length
  writing : ∀ b ∈ ws, b.state = .writing
  pending : ∀ b ∈ ps, b.state = .pending
  uncommitted : ∀ b ∈ last, Open q b
  layout : Layout size q.fifoUsedBegin q.fifoFreeBegin (spans q.outBuffA)
  heap : HeapOk q.outBuffA q.freeBuffList q.heapSizes

namespace Shape

variable {q : WriteBuffQueue size} {ws ps : List Buffer} {last : Option Buffer}

/-- The static buffers of a queue are those in the arena. -/
theorem static_iff (h : Shape q ws ps last) {b : Buffer} (member : b ∈ q.outBuffA) :
    isStaticBuffer size b = b.span?.isSome := by
  simp only [isStaticBuffer, Buffer.span?]
  cases at_ : b.buff.block with
  | heap id => rfl
  | arena =>
      have inside := h.layout.inside ⟨b.buff.off, b.length⟩
        (List.mem_filterMap.mpr ⟨b, member, by simp only [Buffer.span?, at_]⟩)
      simp only [Span.stop] at inside
      simp only [Option.isSome_some, decide_eq_true_eq]
      omega

theorem heap_of_dynamic (h : Shape q ws ps last) {b : Buffer} (member : b ∈ q.outBuffA)
    (dynamic : isStaticBuffer size b = false) : ∃ id, b.buff.block = .heap id := by
  rw [h.static_iff member, Buffer.span?] at dynamic
  cases block : b.buff.block with
  | heap id => exact ⟨id, rfl⟩
  | arena =>
      rw [block] at dynamic
      cases dynamic

/-- A buffer of the queue lies inside the arena or inside its heap buffer. -/
theorem inside (h : Shape q ws ps last) {b : Buffer} (member : b ∈ q.outBuffA) :
    match b.buff.block with
    | .arena => b.buff.off + b.length ≤ size
    | .heap id => ∃ n, q.heapSizes[id]? = some n ∧ b.buff.off + b.length ≤ n := by
  cases at_ : b.buff.block with
  | heap id =>
      obtain ⟨off, _, le, known⟩ := h.heap.queued b member id at_
      exact ⟨b.allocLength, known, by omega⟩
  | arena =>
      exact (h.layout.inside ⟨b.buff.off, b.length⟩
        (List.mem_filterMap.mpr ⟨b, member, by simp only [Buffer.span?, at_]⟩)).2

/-- No two buffers of the queue overlap. -/
theorem disjoint (h : Shape q ws ps last) :
    q.outBuffA.Pairwise fun b c => b.region.Disjoint c.region := by
  have arena := List.pairwise_filterMap.mp h.layout.pairwise
  have heap := List.pairwise_filterMap.mp (List.nodup_append.mp h.heap.owner).1
  refine (List.pairwise_and_iff.mpr ⟨arena, heap⟩).imp ?_
  rintro b c ⟨spans, ids⟩
  simp only [Region.Disjoint, Buffer.region]
  cases hb : b.buff.block with
  | heap i =>
      cases hc : c.buff.block with
      | arena => exact Or.inl (by simp)
      | heap j =>
          have := ids i (by simp only [Buffer.heapId?, hb]) j (by simp only [Buffer.heapId?, hc])
          exact Or.inl (by simpa using this)
  | arena =>
      cases hc : c.buff.block with
      | heap j => exact Or.inl (by simp)
      | arena =>
          have := spans ⟨b.buff.off, b.length⟩ (by simp only [Buffer.span?, hb])
            ⟨c.buff.off, c.length⟩ (by simp only [Buffer.span?, hc])
          simpa only [Span.Apart, Span.Before, Span.stop] using Or.inr this

end Shape

/-! ## Empty queues -/

/-- A queue which nothing has been put into yet, with heap buffers in store perhaps. -/
structure Empty (q : WriteBuffQueue size) : Prop where
  queue : q.outBuffA = []
  first : q.firstPendingI = 0
  used : q.fifoUsedBegin = 0
  free : q.fifoFreeBegin = 0
  heap : HeapOk [] q.freeBuffList q.heapSizes

theorem empty_init (size : Nat) : Empty (init size) where
  queue := rfl
  first := rfl
  used := rfl
  free := rfl
  heap := ⟨List.nodup_nil, by simp, by simp [init]⟩

theorem Empty.shape {q : WriteBuffQueue size} (h : Empty q) (pos : 0 < size) :
    Shape q [] [] none where
  queue := by simp [h.queue]
  first := h.first
  writing := by simp
  pending := by simp
  uncommitted := by simp
  layout := by
    rw [h.queue, h.used, h.free]
    exact .empty pos
  heap := by
    rw [h.queue]
    exact h.heap

theorem Shape.reset_empty {q : WriteBuffQueue size} {ws ps : List Buffer} {last : Option Buffer}
    (h : Shape q ws ps last) (releaseDynamicBuffers : Bool) :
    Empty (q.reset releaseDynamicBuffers) := by
  refine ⟨rfl, rfl, rfl, rfl, ?_⟩
  cases releaseDynamicBuffers with
  | true => exact ⟨List.nodup_nil, by simp, by simp [reset]⟩
  | false =>
      have same : (retained size q.outBuffA).filterMap DynBuffer.heapId? =
          q.outBuffA.filterMap Buffer.heapId? := by
        rw [retained, List.filterMap_map, List.filterMap_filter]
        refine List.filterMap_congr fun b member => ?_
        have static := h.static_iff member
        cases block : b.buff.block with
        | arena => simp [static, Buffer.span?, Buffer.heapId?, block]
        | heap id =>
            simp [static, Buffer.span?, Buffer.heapId?, DynBuffer.heapId?, block]
      refine ⟨?_, by simp, fun d member => ?_⟩
      · simp only [reset, Bool.false_eq_true, if_false, List.filterMap_nil, List.nil_append,
          List.filterMap_append, same]
        exact (List.perm_append_comm.nodup_iff).mp h.heap.owner
      · rcases List.mem_append.mp member with member | member
        · exact h.heap.stored d member
        · obtain ⟨b, inside, rfl⟩ := List.mem_map.mp member
          obtain ⟨inQueue, dynamic⟩ := List.mem_filter.mp inside
          rw [h.static_iff inQueue] at dynamic
          cases block : b.buff.block with
          | arena => simp [Buffer.span?, block] at dynamic
          | heap id =>
              obtain ⟨off, _, _, known⟩ := h.heap.queued b inQueue id block
              exact ⟨id, by rw [← block, ← off], known⟩

/-! ## Allocation -/

/-- Room found in the arena extends its layout by the new span. -/
theorem takeStatic_some {q q' : WriteBuffQueue size} {length : Nat} {ret : WritePtr}
    {ss : List Span} (layout : Layout size q.fifoUsedBegin q.fifoFreeBegin ss) (pos : 0 < length)
    (taken : q.takeStatic length = some (ret, q')) :
    ∃ free, q' = { q with fifoFreeBegin := free } ∧ ret.block = .arena ∧
      EndsAt size free ⟨ret.off, length⟩ ∧
      Layout size q.fifoUsedBegin free (ss ++ [⟨ret.off, length⟩]) := by
  have bounds := layout.bounds
  by_cases short : length < size
  case neg => simp [takeStatic, short] at taken
  by_cases order : q.fifoUsedBegin ≤ q.fifoFreeBegin
  · simp only [takeStatic, getContinousFreeFIFOLength, if_pos short, if_pos order] at taken
    by_cases behind : length ≤ if q.fifoUsedBegin ≠ 0 then size - q.fifoFreeBegin
        else size - q.fifoFreeBegin - 1
    · rw [if_pos behind] at taken
      obtain ⟨rfl, rfl⟩ := Prod.mk.inj (Option.some.inj taken)
      refine ⟨_, rfl, rfl, ?_⟩
      by_cases atEnd : size ≤ q.fifoFreeBegin + length
      · have guard : q.fifoUsedBegin ≠ 0 := by
          intro zero
          rw [if_neg (by simp [zero])] at behind
          omega
        rw [if_pos guard] at behind
        rw [if_pos atEnd]
        exact ⟨.of_size (by simp only [Span.stop]; omega),
          layout.take_to_end order pos (by omega) (by omega)⟩
      · rw [if_neg atEnd]
        exact ⟨.of_stop (by omega) rfl,
          layout.take_straight order pos (by omega)⟩
    · rw [if_neg behind] at taken
      by_cases front : length ≤ if 0 < q.fifoUsedBegin then q.fifoUsedBegin - 1 else 0
      case neg => simp [front] at taken
      rw [if_pos front] at taken
      obtain ⟨rfl, rfl⟩ := Prod.mk.inj (Option.some.inj taken)
      have room : length < q.fifoUsedBegin := by split at front <;> omega
      exact ⟨length, rfl, rfl, .of_stop pos (by simp only [Span.stop]; omega),
        layout.take_front order pos room⟩
  · simp only [takeStatic, getContinousFreeFIFOLength, if_pos short, if_neg order,
      if_pos (Nat.lt_of_not_le order)] at taken
    by_cases between : length ≤ q.fifoUsedBegin - q.fifoFreeBegin - 1
    case neg => simp [between, Nat.ne_of_gt pos] at taken
    rw [if_pos between] at taken
    obtain ⟨rfl, rfl⟩ := Prod.mk.inj (Option.some.inj taken)
    refine ⟨_, rfl, rfl, ?_⟩
    rw [if_neg (by omega)]
    exact ⟨.of_stop (by omega) rfl,
      layout.take_between (by omega) pos (by omega)⟩

theorem findClose_some {length i closeLength : Nat} {free pre : List DynBuffer}
    {closeI : Option (Nat × DynBuffer)} {at_ : Nat} {close : DynBuffer}
    (place : pre.length = i)
    (before : ∀ j d, closeI = some (j, d) → (pre ++ free)[j]? = some d ∧ length ≤ d.length)
    (found : findClose length free i closeI closeLength = some (at_, close)) :
    (pre ++ free)[at_]? = some close ∧ length ≤ close.length := by
  induction free generalizing pre i closeI closeLength with
  | nil => exact before _ _ found
  | cons now rest ih =>
      simp only [findClose] at found
      have shift : pre ++ now :: rest = (pre ++ [now]) ++ rest := by simp
      rw [shift]
      rw [shift] at before
      split at found
      · rename_i better
        refine ih (by simp [place]) ?_ found
        rintro j d same
        obtain ⟨rfl, rfl⟩ := Prod.mk.inj (Option.some.inj same)
        exact ⟨by simp [← place], better.1⟩
      · exact ih (by simp [place]) before found

/-- Where no stored heap buffer is long enough, the length of a new one is rounded up without
    wrapping around. -/
def Roundable (q : WriteBuffQueue size) (length : Nat) : Prop :=
  findClose length q.freeBuffList 0 none max32 = none → length + 255 < size32

theorem takeDynamic_spec {q : WriteBuffQueue size} {length : Nat} {bs : List Buffer}
    (heap : HeapOk bs q.freeBuffList q.heapSizes) (pos : 0 < length)
    (range : Roundable q length) :
    ∃ id allocLength free sizes,
      q.takeDynamic length =
        (⟨.heap id, 0⟩, allocLength, { q with freeBuffList := free, heapSizes := sizes }) ∧
      HeapOk (bs ++ [⟨⟨.heap id, 0⟩, length, allocLength, .allocated⟩]) free sizes := by
  cases search : findClose length q.freeBuffList 0 none max32 with
  | some found =>
      obtain ⟨closeI, close⟩ := found
      obtain ⟨at_, long⟩ := findClose_some (show ([] : List DynBuffer).length = 0 from rfl) (by simp) search
      simp only [List.nil_append] at at_
      obtain ⟨inside, same⟩ := List.getElem?_eq_some_iff.mp at_
      obtain ⟨id, buff, known⟩ := heap.stored close (same ▸ List.getElem_mem inside)
      have perm := (List.getElem_cons_eraseIdx_perm inside).filterMap DynBuffer.heapId?
      rw [same, List.filterMap_cons_some (b := id) (by simp only [DynBuffer.heapId?, buff])] at perm
      have owner := ((List.Perm.append_left _ perm).nodup_iff).mpr heap.owner
      obtain ⟨fresh, owner⟩ := List.nodup_cons.mp (List.nodup_middle.mp owner)
      have less : HeapOk bs (q.freeBuffList.eraseIdx closeI) q.heapSizes :=
        ⟨owner, heap.queued, fun d member => heap.stored d (List.mem_of_mem_eraseIdx member)⟩
      exact ⟨id, close.length, q.freeBuffList.eraseIdx closeI, q.heapSizes,
        by simp only [takeDynamic, search, buff], less.push fresh known pos long⟩
  | none =>
      have fresh : q.heapSizes.length ∉ HeapOk.owners bs q.freeBuffList :=
        fun member => Nat.lt_irrefl _ (heap.known member)
      exact ⟨q.heapSizes.length, roundUpPowerOfTwo length 8, q.freeBuffList,
        q.heapSizes ++ [roundUpPowerOfTwo length 8], by simp only [takeDynamic, search],
        (heap.grow _).push fresh (by simp) pos (le_roundUpPowerOfTwo (range search))⟩

theorem span?_of_arena {b : Buffer} (block : b.buff.block = .arena) :
    b.span? = some ⟨b.buff.off, b.length⟩ := by
  simp only [Buffer.span?, block]

theorem span?_of_heap {b : Buffer} {id : Nat} (block : b.buff.block = .heap id) :
    b.span? = none := by
  simp only [Buffer.span?, block]

theorem spans_cons (bs : List Buffer) {b : Buffer} (block : b.buff.block = .arena) :
    spans (b :: bs) = ⟨b.buff.off, b.length⟩ :: spans bs := by
  simp only [spans, List.filterMap_cons, span?_of_arena block]

theorem spans_cons_heap (bs : List Buffer) {b : Buffer} {id : Nat}
    (block : b.buff.block = .heap id) : spans (b :: bs) = spans bs := by
  simp only [spans, List.filterMap_cons, span?_of_heap block]

theorem spans_last (bs : List Buffer) {b : Buffer} (block : b.buff.block = .arena) :
    spans (bs ++ [b]) = spans bs ++ [⟨b.buff.off, b.length⟩] := by
  rw [spans_append]
  simp only [spans, List.filterMap_cons, span?_of_arena block, List.filterMap_nil]

theorem spans_last_heap (bs : List Buffer) {b : Buffer} {id : Nat}
    (block : b.buff.block = .heap id) : spans (bs ++ [b]) = spans bs := by
  rw [spans_append]
  simp only [spans, List.filterMap_cons, span?_of_heap block, List.filterMap_nil, List.append_nil]

namespace Shape

variable {q : WriteBuffQueue size} {ws ps : List Buffer} {last : Option Buffer}

/-- What an allocation leaves behind: the new bytes are at the end of the last buffer,
    which is either a new one or the last pending one. -/
structure Allocated (ps ps' : List Buffer) (b : Buffer) (length : Nat) (ret : WritePtr) : Prop where
  ret : ret = b.buff.add (b.length - length)
  le : length ≤ b.length
  before : (ps' = ps ∧ b.length = length) ∨
    ∃ p, ps = ps' ++ [p] ∧ b.buff = p.buff ∧ b.length = p.length + length

/-- The bytes of an allocation lie inside the arena or inside a heap buffer. -/
theorem Allocated.inside {q' : WriteBuffQueue size} {ps' : List Buffer} {b : Buffer} {length : Nat}
    {ret : WritePtr} (allocated : Allocated ps ps' b length ret) (shape : Shape q' ws ps' (some b)) :
    match ret.block with
    | .arena => ret.off + length ≤ size
    | .heap id => ∃ n, q'.heapSizes[id]? = some n ∧ ret.off + length ≤ n := by
  have inside := shape.inside (b := b) (by simp [shape.queue])
  have le := allocated.le
  simp only [allocated.ret, Ptr.add_block, Ptr.add_off]
  cases block : b.buff.block with
  | arena =>
      simp only [block] at inside
      simp only
      omega
  | heap id =>
      simp only [block] at inside
      obtain ⟨n, known, fits⟩ := inside
      exact ⟨n, known, by omega⟩

theorem allocate_append {free length : Nat} {ret : WritePtr} {p : Buffer}
    (h : Shape q ws (ps ++ [p]) none) (pos : 0 < length) (static : p.buff.block = .arena)
    (adjacent : p.buff.add p.length = ret) (ends : EndsAt size free ⟨ret.off, length⟩)
    (layout : Layout size q.fifoUsedBegin free (spans q.outBuffA ++ [⟨ret.off, length⟩])) :
    let b := { p with length := p.length + length, state := .allocated }
    Shape (({ q with lastAllocLength := length, fifoFreeBegin := free } :
      WriteBuffQueue size).setBack b) ws ps (some b) ∧ Allocated (ps ++ [p]) ps b length ret := by
  intro b
  have queue : q.outBuffA = (ws ++ ps) ++ [p] := by simp [h.queue]
  have back : (({ q with lastAllocLength := length, fifoFreeBegin := free } :
      WriteBuffQueue size).setBack b).outBuffA = (ws ++ ps) ++ [b] := by simp [setBack, queue]
  have off : ret.off = p.buff.off + p.length := by simp [← adjacent]
  have stop : Span.stop ⟨p.buff.off, p.length + length⟩ = Span.stop ⟨ret.off, length⟩ := by
    simp only [Span.stop]
    omega
  have merged : EndsAt size free ⟨p.buff.off, p.length + length⟩ := by
    simpa only [EndsAt, stop] using ends
  rw [queue, spans_last _ static, List.append_assoc, List.singleton_append, off] at layout
  refine ⟨⟨by simp [back], h.first, h.writing, fun c member => h.pending c (by simp [member]), ?_, ?_, ?_⟩,
    ⟨by simp [b, ← adjacent], by simp [b], Or.inr ⟨p, rfl, rfl, rfl⟩⟩⟩
  · rintro c ⟨rfl⟩
    refine ⟨rfl, pos, Nat.le_add_left _ _, ?_, ?_⟩
    · intro s same
      rw [span?_of_arena (b := b) static] at same
      obtain rfl := Option.some.inj same
      exact merged
    · intro none_
      simp [span?_of_arena (b := b) static] at none_
  · rw [back, spans_last _ (b := b) static]
    exact layout.merge
  · rw [back]
    have heap := h.heap
    rw [queue, HeapOk.static_iff static] at heap
    exact (HeapOk.static_iff (b := b) static).mpr heap

theorem allocate_push {length free : Nat} (h : Shape q ws ps none) (q' : WriteBuffQueue size)
    (ret : WritePtr) (allocLength : Nat) (pos : 0 < length) (length_ : q'.lastAllocLength = length)
    (queue : q'.outBuffA = q.outBuffA) (first : q'.firstPendingI = q.firstPendingI)
    (used : q'.fifoUsedBegin = q.fifoUsedBegin) (free_ : q'.fifoFreeBegin = free)
    (ends : ret.block = .arena → EndsAt size free ⟨ret.off, length⟩)
    (layout : Layout size q.fifoUsedBegin free
      (spans (q.outBuffA ++ [⟨ret, length, allocLength, .allocated⟩])))
    (heap : HeapOk (q.outBuffA ++ [⟨ret, length, allocLength, .allocated⟩]) q'.freeBuffList
      q'.heapSizes) :
    let b := ⟨ret, length, allocLength, .allocated⟩
    Shape (q'.pushBack b) ws ps (some b) ∧ Allocated ps ps b length ret := by
  intro b
  refine ⟨⟨by simp [pushBack, queue, h.queue], first.trans h.first, h.writing, h.pending, ?_, ?_, ?_⟩,
    ⟨by simp [b], Nat.le_refl _, Or.inl ⟨rfl, rfl⟩⟩⟩
  · rintro c ⟨rfl⟩
    refine ⟨rfl, length_ ▸ pos, Nat.le_of_eq length_, ?_, fun _ => length_.symm⟩
    intro s same
    simp only [pushBack, free_]
    cases block : ret.block with
    | heap id => simp [span?_of_heap (b := b) block] at same
    | arena =>
        rw [span?_of_arena (b := b) block] at same
        exact Option.some.inj same ▸ ends block
  · simp only [pushBack, queue, used, free_]
    exact layout
  · simp only [pushBack, queue]
    exact heap

theorem allocate_spec {length : Nat} (h : Shape q ws ps none) (pos : 0 < length)
    (range : Roundable q length) :
    ∃ ret q' ps' b, q.allocate length = (some ret, q') ∧ q'.lastAllocLength = length ∧
      Shape q' ws ps' (some b) ∧ Allocated ps ps' b length ret := by
  have queue : q.outBuffA = ws ++ ps := by simp [h.queue]
  obtain ⟨ret, q', run, allocates⟩ := allocate_allocates (q := q) pos
  cases allocates with
  | @dynamic _ allocLength taken =>
      obtain ⟨id, _, free, sizes, same, heap⟩ := takeDynamic_spec
        (q := ({ q with lastAllocLength := length } : WriteBuffQueue size)) h.heap pos range
      rw [taken] at same
      cases same
      refine ⟨_, _, ps, _, run, rfl, h.allocate_push
        { q with lastAllocLength := length, freeBuffList := free, heapSizes := sizes }
        ⟨.heap id, 0⟩ allocLength pos rfl rfl rfl rfl rfl (by simp) ?_ heap⟩
      rw [spans_last_heap _ rfl]
      exact h.layout
  | pushed static =>
      obtain ⟨free, rfl, block, ends, layout⟩ := takeStatic_some
        (q := ({ q with lastAllocLength := length } : WriteBuffQueue size)) h.layout pos static
      exact ⟨ret, _, ps, _, run, rfl, h.allocate_push
        { q with lastAllocLength := length, fifoFreeBegin := free } ret length pos rfl rfl rfl rfl rfl
        (fun _ => ends) (by rw [spans_last _ block]; exact layout)
        ((HeapOk.static_iff (b := ⟨ret, length, length, .allocated⟩) block).mpr
          (by rw [List.append_nil]; exact h.heap))⟩
  | @appended _ last static found state isStatic adjacent =>
      obtain ⟨free, rfl, block, ends, layout⟩ := takeStatic_some
        (q := ({ q with lastAllocLength := length } : WriteBuffQueue size)) h.layout pos static
      -- the last buffer is pending, so it is not among those being written
      rcases List.eq_nil_or_concat' ps with rfl | ⟨ps', p, rfl⟩
      · have writing := h.writing last (by
          rw [← List.append_nil ws, ← queue]
          exact List.mem_of_getLast? found)
        rw [state] at writing
        cases writing
      · have same : last = p := by
          change q.outBuffA.getLast? = some last at found
          rw [queue, ← List.append_assoc, List.getLast?_concat] at found
          exact (Option.some.inj found).symm
        subst same
        exact ⟨ret, _, ps', _, run, rfl,
          h.allocate_append pos (arena_of_static isStatic) adjacent ends layout⟩

/-! ## Commit -/

/-- The buffer which a commit of `length` bytes puts in place of the uncommitted one. -/
def committed (q : WriteBuffQueue size) (b : Buffer) (length : Nat) : List Buffer :=
  let kept := b.length - q.lastAllocLength + min length q.lastAllocLength
  if kept = 0 then [] else [{ b with length := kept, state := .pending }]

theorem commit_spec {b : Buffer} (h : Shape q ws ps (some b)) (length : Nat) :
    Shape (q.commit length) ws (ps ++ committed q b length) none := by
  have queue : q.outBuffA = (ws ++ ps) ++ [b] := by simp [h.queue]
  have member : b ∈ q.outBuffA := by simp [queue]
  obtain ⟨state, pos, le, ends, whole⟩ := h.uncommitted b rfl
  have layout := h.layout
  have heap := h.heap
  rw [queue] at layout heap
  -- a buffer which is now pending, or nothing, in place of the uncommitted one
  have finish : ∀ (q' : WriteBuffQueue size) (bs : List Buffer), q'.outBuffA = (ws ++ ps) ++ bs →
      q'.firstPendingI = q.firstPendingI → (∀ c ∈ bs, c.state = .pending) →
      Layout size q'.fifoUsedBegin q'.fifoFreeBegin (spans ((ws ++ ps) ++ bs)) →
      HeapOk ((ws ++ ps) ++ bs) q'.freeBuffList q'.heapSizes → Shape q' ws (ps ++ bs) none := by
    intro q' bs queue' first pending layout heap
    refine ⟨by simp [queue'], first.trans h.first, h.writing, ?_, by simp, by simpa [queue'] using layout,
      by simpa [queue'] using heap⟩
    intro c member
    exact (List.mem_append.mp member).elim (h.pending c) (pending c)
  have rest {n : Nat} (kept : b.length - q.lastAllocLength + min length q.lastAllocLength = n) :
      committed q b length = if n = 0 then [] else [{ b with length := n, state := .pending }] := by
    rw [committed, kept]
  have commits := commit_commits (by rw [queue, List.getLast?_concat]) state length
  generalize q.commit length = q' at commits
  cases commits with
  | kept enough =>
      rw [rest (n := b.length) (by omega), if_neg (by omega)]
      refine finish _ [_] (by simp [setBack, queue]) rfl (by simp) ?_ ?_
      · rw [spans_append] at layout ⊢
        exact layout
      · exact heap.replace rfl rfl fun _ _ => ⟨by simp only; omega, Nat.le_refl _⟩
  | shrunk less static left =>
      have block := arena_of_static static
      rw [spans_last _ block] at layout
      rw [HeapOk.static_iff block, List.append_nil] at heap
      rw [rest (n := b.length - (q.lastAllocLength - length)) (by omega), if_neg (by omega)]
      refine finish _ [_] (by simp [setBack, giveBack, queue]) rfl (by simp) ?_ ?_
      · rw [spans_last _ (by exact block)]
        exact layout.shrink (ends _ (span?_of_arena block)) (by omega) left
      · refine (HeapOk.static_iff (by exact block)).mpr ?_
        rw [List.append_nil]
        exact heap
  | dropped less static nothing =>
      have block := arena_of_static static
      have all : q.lastAllocLength - length = b.length := by omega
      rw [spans_last _ block] at layout
      rw [HeapOk.static_iff block, List.append_nil] at heap
      rw [rest (n := 0) (by omega), if_pos rfl]
      refine finish _ [] (by simp [popBack, giveBack, queue]) rfl (by simp) ?_ ?_
      · rw [List.append_nil, all]
        exact layout.drop_last (ends _ (span?_of_arena block))
      · rw [List.append_nil]
        exact heap
  | cut less dynamic left =>
      obtain ⟨id, block⟩ := h.heap_of_dynamic member dynamic
      have whole := whole (span?_of_heap block)
      rw [spans_last_heap _ block] at layout
      rw [rest (n := length) (by omega), if_neg (Nat.ne_of_gt left)]
      refine finish _ [_] (by simp [setBack, queue]) rfl (by simp) ?_ ?_
      · rw [spans_last_heap _ (by exact block)]
        exact layout
      · exact heap.replace rfl rfl fun _ _ => ⟨left, by simp only; omega⟩
  | stored less dynamic nothing =>
      obtain ⟨id, block⟩ := h.heap_of_dynamic member dynamic
      have whole := whole (span?_of_heap block)
      rw [spans_last_heap _ block] at layout
      rw [rest (n := 0) (by omega), if_pos rfl]
      have stored := heap.store block
      rw [List.append_nil] at stored
      refine finish _ [] (by simp [popBack, queue]) rfl (by simp) ?_ ?_
      · rw [List.append_nil]
        exact layout
      · rw [List.append_nil]
        exact stored

/-! ## Pop and Release -/

theorem pop_empty (h : Shape q ws [] none) : q.pop = (none, q) := by
  have : q.outBuffA[q.firstPendingI]? = none := by simp [h.queue, h.first]
  simp only [pop, this]

theorem pop_spec {p : Buffer} {rest : List Buffer} (h : Shape q ws (p :: rest) none) :
    ∃ q', q.pop = (some (p.buff, p.length), q') ∧ q'.lastAllocLength = q.lastAllocLength ∧
      Shape q' (ws ++ [{ p with state := .writing }]) rest none := by
  have queue : q.outBuffA = ws ++ p :: rest := by simp [h.queue]
  have front : q.outBuffA[q.firstPendingI]? = some p := by simp [queue, h.first]
  refine ⟨{ q with
    outBuffA := q.outBuffA.set q.firstPendingI { p with state := .writing }
    firstPendingI := q.firstPendingI + 1 }, by simp only [pop, front], rfl, ?_⟩
  have set_ : q.outBuffA.set q.firstPendingI { p with state := .writing } =
      ws ++ { p with state := .writing } :: rest := by
    rw [queue, h.first, List.set_append_right _ _ (Nat.le_refl _), Nat.sub_self, List.set_cons_zero]
  have layout := h.layout
  have heap := h.heap
  rw [queue] at layout heap
  refine ⟨by simp [set_], by simp [h.first], ?_, fun b member => h.pending b (by simp [member]),
    by simp, ?_, ?_⟩
  · intro b member
    rcases List.mem_append.mp member with member | member
    · exact h.writing b member
    · rw [List.mem_singleton.mp member]
  · simp only [set_]
    rw [spans_append] at layout ⊢
    exact layout
  · simp only [set_]
    exact heap.replace rfl rfl fun id block => ⟨(heap.queued p (by simp) id block).2.1, Nat.le_refl _⟩

/-- Nothing is being written, so there is nothing to release. -/
theorem release_nothing (h : Shape q [] ps last) : q.release = q := by
  cases queue : q.outBuffA with
  | nil => simp only [release, queue]
  | cons front rest =>
      have state : front.state ≠ .writing := by
        have split : ps ++ last.toList = front :: rest := by rw [← queue, h.queue, List.nil_append]
        have member : front ∈ ps ++ last.toList := by simp [split]
        rcases List.mem_append.mp member with member | member
        · simp [h.pending front member]
        · simp [(h.uncommitted front (Option.mem_toList.mp member)).state]
      simp only [release, queue, if_neg state]

theorem release_spec {w : Buffer} (h : Shape q (w :: ws) ps last) :
    q.release.lastAllocLength = q.lastAllocLength ∧ Shape q.release ws ps last := by
  have queue : q.outBuffA = w :: (ws ++ ps ++ last.toList) := by simp [h.queue]
  have releases := release_releases queue (h.writing w (by simp))
  have member : w ∈ q.outBuffA := by simp [queue]
  have layout := h.layout
  have heap : HeapOk ([] ++ w :: (ws ++ ps ++ last.toList)) q.freeBuffList q.heapSizes :=
    queue ▸ h.heap
  rw [queue] at layout
  have first : q.firstPendingI - 1 = ws.length := by simp [h.first]
  have writing := fun b (member : b ∈ ws) => h.writing b (by simp [member])
  generalize q.release = q' at releases
  cases releases with
  | restarted static met =>
      have block := arena_of_static static
      have heap : HeapOk ([] ++ (ws ++ ps ++ last.toList)) q.freeBuffList q.heapSizes :=
        (HeapOk.static_iff block).mp heap
      rw [spans_cons _ block] at layout
      have released := layout.release
      rw [met] at released
      have nothing := released.restart
      refine ⟨rfl, rfl, first, writing, h.pending, ?_, ?_, heap⟩
      · intro b isLast
        obtain ⟨state, pos, le, ends, whole⟩ := h.uncommitted b isLast
        refine ⟨state, pos, le, fun s same => ?_, whole⟩
        have : s ∈ spans (ws ++ ps ++ last.toList) :=
          List.mem_filterMap.mpr ⟨b, by simp [Option.mem_toList.mpr isLast], same⟩
        rw [nothing] at this
        simp at this
      · simp only [nothing]
        exact .empty (Nat.lt_of_le_of_lt (Nat.zero_le _) layout.bounds.1)
  | passed static apart =>
      have block := arena_of_static static
      have heap : HeapOk ([] ++ (ws ++ ps ++ last.toList)) q.freeBuffList q.heapSizes :=
        (HeapOk.static_iff block).mp heap
      rw [spans_cons _ block] at layout
      refine ⟨rfl, rfl, first, writing, h.pending, ?_, layout.release, heap⟩
      intro b isLast
      obtain ⟨state, pos, le, ends, whole⟩ := h.uncommitted b isLast
      exact ⟨state, pos, le, ends, whole⟩
  | stored dynamic =>
      obtain ⟨id, block⟩ := h.heap_of_dynamic member dynamic
      rw [spans_cons_heap _ block] at layout
      refine ⟨rfl, rfl, first, writing, h.pending, ?_, layout, heap.store block⟩
      intro b isLast
      obtain ⟨state, pos, le, ends, whole⟩ := h.uncommitted b isLast
      exact ⟨state, pos, le, ends, whole⟩

end Shape

/-! ## Queues without an open allocation -/

def Idle (q : WriteBuffQueue size) : Prop := ∃ ws ps, Shape q ws ps none

theorem idle_init (pos : 0 < size) : Idle (init size) := ⟨[], [], (empty_init size).shape pos⟩

/-- An allocation finds room, and its commit leaves the queue idle again. -/
theorem Idle.push {q : WriteBuffQueue size} (idle : Idle q) (length : Nat) (pos : 0 < length)
    (range : length + 255 < size32) (kept : Nat) :
    ∃ ret q', q.allocate length = (some ret, q') ∧ Idle (q'.commit kept) ∧
      match ret.block with
      | .arena => ret.off + length ≤ size
      | .heap id => ∃ n, q'.heapSizes[id]? = some n ∧ ret.off + length ≤ n := by
  obtain ⟨ws, ps, h⟩ := idle
  obtain ⟨ret, q', ps', b, run, -, shape, allocated⟩ := h.allocate_spec pos fun _ => range
  exact ⟨ret, q', run, ⟨ws, _, shape.commit_spec kept⟩, allocated.inside shape⟩

theorem Idle.popAll {q : WriteBuffQueue size} (idle : Idle q) (n : Nat) : Idle (popAll n q).2 := by
  induction n generalizing q with
  | zero => exact idle
  | succ n ih =>
      obtain ⟨ws, ps, h⟩ := idle
      cases ps with
      | nil =>
          simp only [WriteBuffQueue.popAll, h.pop_empty]
          exact ⟨ws, [], h⟩
      | cons p rest =>
          obtain ⟨q', run, -, shape⟩ := h.pop_spec
          simp only [WriteBuffQueue.popAll, run]
          exact ih ⟨_, rest, shape⟩

end WriteBuffQueue

end MiniWebSrv
