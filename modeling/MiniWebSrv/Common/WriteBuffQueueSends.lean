import MiniWebSrv.Common.WriteBuffQueueShape
import MiniWebSrv.Lib.Run

/-! # What `Pop` returns

`Pop` goes by its index alone. Here the calls come in any order and with any lengths, as long as
there is only one allocation at a time which has not been committed.
-/

namespace MiniWebSrv.WriteBuffQueue

open Word Run MiniWebSrv.Ring

variable {size : Nat} {q q' : WriteBuffQueue size}

/-! ## Places -/

def heapIds (bs : List Buffer) : List Nat := bs.filterMap Buffer.heapId?

def storedIds (free : List DynBuffer) : List Nat := free.filterMap DynBuffer.heapId?

/-- No two buffers have a byte in common. The sizes of the heap buffers do not matter for this. -/
structure Placed (q : WriteBuffQueue size) : Prop where
  layout : Layout size q.fifoUsedBegin q.fifoFreeBegin (spans q.outBuffA)
  owner : (heapIds q.outBuffA ++ storedIds q.freeBuffList).Nodup
  known : ∀ id ∈ heapIds q.outBuffA ++ storedIds q.freeBuffList, id < q.heapSizes.length
  stored : ∀ d ∈ q.freeBuffList, ∃ id, d.heapId? = some id

/-- The allocation which has not been committed, if there is one. -/
def Opened (q : WriteBuffQueue size) : Option (Region WriteBlock) → Prop
  | none => ∀ b ∈ q.outBuffA, b.state ≠ .allocated
  | some r => ∃ front b, q.outBuffA = front ++ [b] ∧ (∀ c ∈ front, c.state ≠ .allocated) ∧
      Open q b ∧ r = ⟨b.buff.add (b.length - q.lastAllocLength), q.lastAllocLength⟩

theorem heapIds_last (bs : List Buffer) {b : Buffer} {id : Nat} (block : b.buff.block = .heap id) :
    heapIds (bs ++ [b]) = heapIds bs ++ [id] := by
  simp only [heapIds, List.filterMap_append, List.filterMap_cons, Buffer.heapId?, block,
    List.filterMap_nil]

theorem heapIds_last_static (bs : List Buffer) {b : Buffer} (block : b.buff.block = .arena) :
    heapIds (bs ++ [b]) = heapIds bs := by
  simp only [heapIds, List.filterMap_append, List.filterMap_cons, Buffer.heapId?, block,
    List.filterMap_nil, List.append_nil]

theorem heapIds_cons (bs : List Buffer) {b : Buffer} {id : Nat} (block : b.buff.block = .heap id) :
    heapIds (b :: bs) = id :: heapIds bs := by
  simp only [heapIds, List.filterMap_cons, Buffer.heapId?, block]

theorem heapIds_cons_static (bs : List Buffer) {b : Buffer} (block : b.buff.block = .arena) :
    heapIds (b :: bs) = heapIds bs := by
  simp only [heapIds, List.filterMap_cons, Buffer.heapId?, block]

theorem DynBuffer_heapId? {d : DynBuffer} {id : Nat} (block : d.buff.block = .heap id) :
    d.heapId? = some id := by
  simp only [DynBuffer.heapId?, block]

namespace Placed

theorem static_iff (h : Placed q) {b : Buffer} (member : b ∈ q.outBuffA)
    (block : b.buff.block = .arena) : isStaticBuffer size b = true := by
  have inside := h.layout.inside ⟨b.buff.off, b.length⟩
    (List.mem_filterMap.mpr ⟨b, member, span?_of_arena block⟩)
  simp only [Span.stop] at inside
  simp only [isStaticBuffer, block, decide_eq_true_eq]
  omega

theorem heap_of_dynamic (h : Placed q) {b : Buffer} (member : b ∈ q.outBuffA)
    (dynamic : isStaticBuffer size b = false) : ∃ id, b.buff.block = .heap id := by
  cases block : b.buff.block with
  | heap id => exact ⟨id, rfl⟩
  | arena => cases dynamic.symm.trans (h.static_iff member block)

/-- The buffers move between the queue and the store. -/
theorem of_perm (h : Placed q) (same : q'.heapSizes = q.heapSizes)
    (layout : Layout size q'.fifoUsedBegin q'.fifoFreeBegin (spans q'.outBuffA))
    (perm : (heapIds q'.outBuffA ++ storedIds q'.freeBuffList).Perm
      (heapIds q.outBuffA ++ storedIds q.freeBuffList))
    (stored : ∀ d ∈ q'.freeBuffList, ∃ id, d.heapId? = some id) : Placed q' where
  layout := layout
  owner := perm.nodup_iff.mpr h.owner
  known id member := by
    rw [same]
    exact h.known id (perm.mem_iff.mp member)
  stored := stored

theorem disjoint (h : Placed q) : q.outBuffA.Pairwise fun b c => b.region.Disjoint c.region := by
  have arena := List.pairwise_filterMap.mp h.layout.pairwise
  have heap := List.pairwise_filterMap.mp (List.nodup_append.mp h.owner).1
  refine (List.pairwise_and_iff.mpr ⟨arena, heap⟩).imp ?_
  rintro b c ⟨spans, ids⟩
  simp only [Region.Disjoint, Buffer.region]
  cases first : b.buff.block with
  | heap i =>
      cases second : c.buff.block with
      | arena => exact Or.inl WriteBlock.noConfusion
      | heap j =>
          have apart := ids i (by simp only [Buffer.heapId?, first]) j
            (by simp only [Buffer.heapId?, second])
          exact Or.inl fun same => apart (WriteBlock.heap.inj same)
  | arena =>
      cases second : c.buff.block with
      | heap j => exact Or.inl WriteBlock.noConfusion
      | arena =>
          exact Or.inr (spans ⟨b.buff.off, b.length⟩ (span?_of_arena first)
            ⟨c.buff.off, c.length⟩ (span?_of_arena second))

/-! ## Allocate -/

theorem takeDynamic (h : Placed q) (length : Nat) : ∃ ret id allocLength free sizes,
    q.takeDynamic length =
      (ret, allocLength, { q with freeBuffList := free, heapSizes := sizes }) ∧
    ret.block = .heap id ∧ (heapIds q.outBuffA ++ [id] ++ storedIds free).Nodup ∧
    (∀ i ∈ heapIds q.outBuffA ++ [id] ++ storedIds free, i < sizes.length) ∧
    ∀ d ∈ free, ∃ id, d.heapId? = some id := by
  cases search : findClose length q.freeBuffList 0 none max32 with
  | some found =>
      obtain ⟨closeI, close⟩ := found
      obtain ⟨at_, -⟩ := findClose_some (show ([] : List DynBuffer).length = 0 from rfl)
        (by simp) search
      rw [List.nil_append] at at_
      obtain ⟨inside, same⟩ := List.getElem?_eq_some_iff.mp at_
      obtain ⟨id, owned⟩ := h.stored close (same ▸ List.getElem_mem inside)
      have block : close.buff.block = .heap id := by
        unfold DynBuffer.heapId? at owned
        split at owned
        · cases owned
        · rename_i block
          rw [block, Option.some.inj owned]
      have perm := (List.getElem_cons_eraseIdx_perm inside).filterMap DynBuffer.heapId?
      rw [same, List.filterMap_cons_some owned] at perm
      have all : (heapIds q.outBuffA ++ [id] ++ storedIds (q.freeBuffList.eraseIdx closeI)).Perm
          (heapIds q.outBuffA ++ storedIds q.freeBuffList) := by
        rw [List.append_assoc]
        exact perm.append_left _
      refine ⟨close.buff, id, close.length, q.freeBuffList.eraseIdx closeI, q.heapSizes, ?_, block,
        all.nodup_iff.mpr h.owner, fun i member => h.known i (all.mem_iff.mp member), ?_⟩
      · simp only [WriteBuffQueue.takeDynamic, search]
      · exact fun d member => h.stored d (List.mem_of_mem_eraseIdx member)
  | none =>
      have fresh : q.heapSizes.length ∉ heapIds q.outBuffA ++ storedIds q.freeBuffList :=
        fun member => Nat.lt_irrefl _ (h.known _ member)
      have all : (heapIds q.outBuffA ++ [q.heapSizes.length] ++ storedIds q.freeBuffList).Perm
          (q.heapSizes.length :: (heapIds q.outBuffA ++ storedIds q.freeBuffList)) := by
        rw [List.append_assoc]
        exact List.perm_middle
      refine ⟨⟨.heap q.heapSizes.length, 0⟩, q.heapSizes.length, roundUpPowerOfTwo length 8,
        q.freeBuffList, q.heapSizes ++ [roundUpPowerOfTwo length 8], ?_, rfl,
        all.nodup_iff.mpr (List.nodup_cons.mpr ⟨fresh, h.owner⟩), ?_, h.stored⟩
      · simp only [WriteBuffQueue.takeDynamic, search]
      · intro i member
        rw [List.length_append, List.length_singleton]
        rcases List.mem_cons.mp (all.mem_iff.mp member) with rfl | old
        · exact Nat.lt_succ_self _
        · exact Nat.lt_succ_of_lt (h.known i old)

/-- A buffer of its own for the allocation. -/
theorem opened_push {ret : WritePtr} {length : Nat} (q' : WriteBuffQueue size)
    (allocLength : Nat) (closed : Opened q none)
    (pos : 0 < length) (last : q'.lastAllocLength = length) (queue : q'.outBuffA = q.outBuffA)
    (ends : ret.block = .arena → EndsAt size q'.fifoFreeBegin ⟨ret.off, length⟩) :
    Opened (q'.pushBack ⟨ret, length, allocLength, .allocated⟩) (some ⟨ret, length⟩) := by
  refine ⟨q.outBuffA, ⟨ret, length, allocLength, .allocated⟩, ?_, closed, ⟨rfl, ?_, ?_, ?_, ?_⟩, ?_⟩
  · rw [pushBack, queue]
  · exact last ▸ pos
  · exact Nat.le_of_eq last
  · intro s same
    cases block : ret.block with
    | heap id =>
        rw [span?_of_heap block] at same
        cases same
    | arena =>
        rw [span?_of_arena block] at same
        exact Option.some.inj same ▸ ends block
  · exact fun _ => last.symm
  · simp only [pushBack, last, Nat.sub_self, Ptr.add_zero]

theorem allocate {length : Nat} (h : Placed q) (closed : Opened q none) (pos : 0 < length) :
    ∃ ret q', q.allocate length = (some ret, q') ∧ Placed q' ∧ Opened q' (some ⟨ret, length⟩) := by
  have start : Placed ({ q with lastAllocLength := length } : WriteBuffQueue size) :=
    ⟨h.layout, h.owner, h.known, h.stored⟩
  obtain ⟨ret, q', run, allocates⟩ := allocate_allocates (q := q) pos
  refine ⟨ret, q', run, ?_⟩
  cases allocates with
  | @dynamic _ allocLength taken =>
      obtain ⟨_, id, _, free, sizes, same, block, owner, known, stored⟩ := start.takeDynamic length
      rw [taken] at same
      cases same
      refine ⟨⟨?_, ?_, ?_, stored⟩, opened_push
        { q with lastAllocLength := length, freeBuffList := free, heapSizes := sizes } allocLength
        closed pos rfl rfl ?_⟩
      · simp only [pushBack, spans_last_heap _ (b := ⟨ret, length, allocLength, .allocated⟩) block]
        exact h.layout
      · simp only [pushBack, heapIds_last _ (b := ⟨ret, length, allocLength, .allocated⟩) block]
        exact owner
      · simp only [pushBack, heapIds_last _ (b := ⟨ret, length, allocLength, .allocated⟩) block]
        exact known
      · intro arena
        rw [block] at arena
        cases arena
  | pushed static =>
      obtain ⟨free, rfl, block, ends, layout⟩ := takeStatic_some start.layout pos static
      refine ⟨h.of_perm rfl ?_ ?_ h.stored, opened_push _ length closed pos rfl rfl fun _ => ends⟩
      · simp only [pushBack, spans_last _ (b := ⟨ret, length, length, .allocated⟩) block]
        exact layout
      · simp only [pushBack,
          heapIds_last_static _ (b := ⟨ret, length, length, .allocated⟩) block]
        exact List.Perm.refl _
  | @appended _ p static found pending isStatic adjacent =>
      obtain ⟨free, rfl, block, ends, layout⟩ := takeStatic_some start.layout pos static
      have arena := arena_of_static isStatic
      have split : q.outBuffA = q.outBuffA.dropLast ++ [p] :=
        (List.dropLast_append_getLast? p found).symm
      let b := { p with length := p.length + length, state := .allocated }
      have back : (({ q with lastAllocLength := length, fifoFreeBegin := free } :
          WriteBuffQueue size).setBack b).outBuffA = q.outBuffA.dropLast ++ [b] := rfl
      have off : ret.off = p.buff.off + p.length := by
        rw [← adjacent, Ptr.add_off]
      refine ⟨?_, q.outBuffA.dropLast, b, back, ?_, ⟨rfl, pos, Nat.le_add_left _ _, ?_, ?_⟩, ?_⟩
      · refine h.of_perm rfl ?_ ?_ h.stored
        · rw [back, spans_last _ (b := b) arena]
          change Layout _ _ _ (spans q.outBuffA ++ _) at layout
          rw [split, spans_last _ arena, List.append_assoc, List.singleton_append, off] at layout
          exact layout.merge
        · rw [back, heapIds_last_static _ (b := b) arena]
          conv_rhs => rw [split, heapIds_last_static _ arena]
          exact List.Perm.refl _
      · intro c member
        apply closed
        rw [split]
        exact List.mem_append_left _ member
      · intro s same
        rw [span?_of_arena (b := b) arena] at same
        obtain rfl := Option.some.inj same
        have merged : EndsAt size free ⟨p.buff.off, p.length + length⟩ := by
          have stop : Span.stop ⟨p.buff.off, p.length + length⟩ = Span.stop ⟨ret.off, length⟩ := by
            simp only [Span.stop]
            omega
          simpa only [EndsAt, stop] using ends
        exact merged
      · intro none_
        rw [span?_of_arena (b := b) arena] at none_
        cases none_
      · simp only [setBack, b, Nat.add_sub_cancel, adjacent]

/-! ## Commit -/

theorem commit_closed (closed : Opened q none) (length : Nat) : q.commit length = q := by
  unfold commit
  split
  · rfl
  · rename_i last found
    rw [if_neg (closed last (List.mem_of_getLast? found))]

/-- Buffers which are not allocated any more, in place of the open one. -/
theorem opened_none {front bs : List Buffer} (closed : ∀ c ∈ front, c.state ≠ .allocated)
    (queue : q'.outBuffA = front ++ bs) (committed : ∀ c ∈ bs, c.state ≠ .allocated) :
    Opened q' none := by
  intro c member
  rw [queue] at member
  rcases List.mem_append.mp member with member | member
  · exact closed c member
  · exact committed c member

theorem pending_singleton {b : Buffer} (pending : b.state = .pending) :
    ∀ c ∈ [b], c.state ≠ .allocated := by
  intro c member
  obtain rfl := List.mem_singleton.mp member
  rw [pending]
  exact BufferState.noConfusion

theorem setBack_queue {front : List Buffer} {b : Buffer} (queue : q.outBuffA = front ++ [b])
    (c : Buffer) : (q.setBack c).outBuffA = front ++ [c] := by
  rw [setBack, queue, List.dropLast_concat]

theorem popBack_queue {front : List Buffer} {b : Buffer} (queue : q.outBuffA = front ++ [b]) :
    q.popBack.outBuffA = front := by
  rw [popBack, queue, List.dropLast_concat]

theorem heapIds_replace (bs : List Buffer) {b c : Buffer} (same : c.buff = b.buff) :
    heapIds (bs ++ [c]) = heapIds (bs ++ [b]) := by
  simp only [heapIds, List.filterMap_append, List.filterMap_cons, Buffer.heapId?, same]

/-- The last buffer is pending, with some of its bytes. -/
theorem shortened {front : List Buffer} {b c : Buffer} (h : Placed q)
    (queue : q.outBuffA = front ++ [b]) (closed : ∀ c ∈ front, c.state ≠ .allocated)
    (buff : c.buff = b.buff) (pending : c.state = .pending) (free : Nat)
    (layout : Layout size q.fifoUsedBegin free (spans (front ++ [c]))) :
    Placed (({ q with fifoFreeBegin := free } : WriteBuffQueue size).setBack c) ∧
      Opened (({ q with fifoFreeBegin := free } : WriteBuffQueue size).setBack c) none := by
  have back := setBack_queue (q := ({ q with fifoFreeBegin := free } : WriteBuffQueue size)) queue c
  refine ⟨h.of_perm rfl ?_ ?_ h.stored, opened_none closed back (pending_singleton pending)⟩
  · rw [back]
    exact layout
  · rw [back, queue, heapIds_replace _ buff]
    exact List.Perm.refl _

theorem commit {opened : Option (Region WriteBlock)} (h : Placed q) (open_ : Opened q opened)
    (length : Nat) : Placed (q.commit length) ∧ Opened (q.commit length) none := by
  cases opened with
  | none =>
      rw [commit_closed open_]
      exact ⟨h, open_⟩
  | some r =>
      obtain ⟨front, b, queue, closed, ⟨state, pos, le, ends, whole⟩, -⟩ := open_
      have last : q.outBuffA.getLast? = some b := by
        rw [queue, List.getLast?_concat]
      have layout := h.layout
      rw [queue] at layout
      have nothing_ : ∀ c ∈ ([] : List Buffer), c.state ≠ .allocated :=
        fun c member => absurd member List.not_mem_nil
      have member : b ∈ q.outBuffA := by
        rw [queue]
        exact List.mem_concat_self
      have commits := commit_commits last state length
      generalize q.commit length = q' at commits
      cases commits with
      | kept =>
          refine h.shortened (c := { b with state := .pending }) queue closed rfl rfl q.fifoFreeBegin ?_
          rw [spans_append] at layout ⊢
          exact layout
      | shrunk less static left =>
          have block := arena_of_static static
          rw [spans_last _ block] at layout
          refine h.shortened
            (c := ⟨b.buff, b.length - (q.lastAllocLength - length), b.allocLength, .pending⟩)
            queue closed rfl rfl _ ?_
          rw [spans_last _ (b := ⟨b.buff, b.length - (q.lastAllocLength - length), b.allocLength,
            .pending⟩) block]
          exact layout.shrink (ends _ (span?_of_arena block)) (Nat.sub_pos_of_lt less) left
      | dropped less static nothing =>
          have block := arena_of_static static
          rw [spans_last _ block] at layout
          have all : q.lastAllocLength - length = b.length := by omega
          have back := popBack_queue (q := q.giveBack (q.lastAllocLength - length)) queue
          refine ⟨h.of_perm rfl ?_ ?_ h.stored,
            opened_none closed (by rw [back, List.append_nil]) nothing_⟩
          · rw [back, all]
            exact layout.drop_last (ends _ (span?_of_arena block))
          · rw [back, queue, heapIds_last_static _ block]
            exact List.Perm.refl _
      | cut less dynamic left =>
          obtain ⟨id, block⟩ := h.heap_of_dynamic member dynamic
          rw [spans_last_heap _ block] at layout
          refine h.shortened (c := ⟨b.buff, length, b.allocLength, .pending⟩) queue closed rfl rfl
            q.fifoFreeBegin ?_
          rw [spans_last_heap _ (b := ⟨b.buff, length, b.allocLength, .pending⟩) block]
          exact layout
      | stored less dynamic nothing =>
          obtain ⟨id, block⟩ := h.heap_of_dynamic member dynamic
          rw [spans_last_heap _ block] at layout
          have back := popBack_queue queue
          refine ⟨h.of_perm rfl ?_ ?_ ?_,
            opened_none closed (by simp only [back, List.append_nil]) nothing_⟩
          · simp only [back]
            exact layout
          · simp only [back, queue, heapIds_last _ block, storedIds, List.filterMap_append,
              List.filterMap_cons, DynBuffer_heapId? (d := ⟨b.buff, b.allocLength⟩) block,
              List.filterMap_nil]
            rw [List.append_assoc]
            exact List.Perm.append_left _ List.perm_append_comm
          · intro d member
            rcases List.mem_append.mp member with member | member
            · exact h.stored d member
            · obtain rfl := List.mem_singleton.mp member
              exact ⟨id, DynBuffer_heapId? block⟩

/-! ## Pop and Release -/

theorem filterMap_set {α β : Type} (f : α → Option β) {l : List α} {i : Nat} {old new : α}
    (at_ : l[i]? = some old) (same : f new = f old) :
    (l.set i new).filterMap f = l.filterMap f := by
  induction l generalizing i with
  | nil => rfl
  | cons a rest ih =>
      cases i with
      | zero =>
          obtain rfl := Option.some.inj at_
          simp only [List.set_cons_zero, List.filterMap_cons, same]
      | succ i =>
          rw [List.getElem?_cons_succ] at at_
          simp only [List.set_cons_succ, List.filterMap_cons, ih at_]

theorem spans_set_writing {bs : List Buffer} {i : Nat} {b : Buffer} (at_ : bs[i]? = some b) :
    spans (bs.set i { b with state := .writing }) = spans bs :=
  filterMap_set Buffer.span? at_ rfl

theorem set_writing {i n : Nat} {b : Buffer} (h : Placed q) (at_ : q.outBuffA[i]? = some b) :
    Placed ({ q with
      outBuffA := q.outBuffA.set i { b with state := .writing }
      firstPendingI := n } : WriteBuffQueue size) := by
  have owners : heapIds (q.outBuffA.set i { b with state := .writing }) = heapIds q.outBuffA :=
    filterMap_set Buffer.heapId? at_ rfl
  refine h.of_perm rfl ?_ ?_ h.stored
  · simp only [spans_set_writing at_]
    exact h.layout
  · simp only [owners]
    exact List.Perm.refl _

/-- A buffer in front of the last one is not the open one, and has no byte of it. -/
theorem pop {opened : Option (Region WriteBlock)} {ptr : WritePtr} {length : Nat} (h : Placed q)
    (open_ : Opened q opened)
    (behind : opened = none ∨ q.firstPendingI + 1 ≠ q.outBuffA.length)
    (popped : q.pop = (some (ptr, length), q')) :
    Placed q' ∧ Opened q' opened ∧ ∀ r ∈ opened, (Region.mk ptr length).Disjoint r := by
  obtain ⟨ret, at_, rfl, rfl, rfl⟩ := pop_inv popped
  obtain ⟨inside, same⟩ := List.getElem?_eq_some_iff.mp at_
  refine ⟨h.set_writing at_, ?_⟩
  cases opened with
  | none =>
      refine ⟨?_, fun r member => absurd member (Option.not_mem_none r)⟩
      intro b member
      rcases List.mem_or_eq_of_mem_set member with old | rfl
      · exact open_ b old
      · exact BufferState.noConfusion
  | some r =>
      have before : q.firstPendingI + 1 ≠ q.outBuffA.length := by
        rcases behind with none_ | before
        · cases none_
        · exact before
      obtain ⟨front, b, queue, closed, ⟨state, pos, le, ends, whole⟩, region⟩ := open_
      rw [queue, List.length_append, List.length_singleton] at inside before
      have place : q.firstPendingI < front.length := by omega
      have isFront : ret ∈ front := by
        rw [queue, List.getElem?_append_left place] at at_
        exact List.mem_of_getElem? at_
      refine ⟨⟨front.set q.firstPendingI { ret with state := .writing }, b, ?_, ?_,
        ⟨state, pos, le, ends, whole⟩, region⟩, ?_⟩
      · simp only [queue, List.set_append_left _ _ place]
      · intro c member
        rcases List.mem_or_eq_of_mem_set member with old | rfl
        · exact closed c old
        · exact BufferState.noConfusion
      · rintro _ ⟨rfl⟩
        have apart := h.disjoint
        rw [queue, List.pairwise_append] at apart
        rw [region]
        exact ((apart.2.2 ret isFront b (by simp)).symm.part _ _
          (by simp only [Buffer.region]; omega)).symm

/-- Something is released from the front of the queue. -/
theorem opened_behind {curr : Buffer} {rest : List Buffer} {opened : Option (Region WriteBlock)}
    (open_ : Opened q opened) (queue : q.outBuffA = curr :: rest) (state : curr.state = .writing)
    (queue' : q'.outBuffA = rest) (last : q'.lastAllocLength = q.lastAllocLength)
    (ends : ∀ s ∈ spans rest, EndsAt size q.fifoFreeBegin s → EndsAt size q'.fifoFreeBegin s) :
    Opened q' opened := by
  cases opened with
  | none =>
      intro b member
      apply open_
      rw [queue]
      exact List.mem_cons_of_mem _ (queue' ▸ member)
  | some r =>
      obtain ⟨front, b, split, closed, ⟨isOpen, pos, le, atEnd, whole⟩, region⟩ := open_
      rw [queue] at split
      cases front with
      | nil =>
          obtain ⟨rfl, -⟩ := List.cons.inj split
          rw [state] at isOpen
          cases isOpen
      | cons first front =>
          obtain ⟨rfl, rfl⟩ := List.cons.inj split
          refine ⟨front, b, queue', fun c member => closed c (List.mem_cons_of_mem _ member),
            ⟨isOpen, last ▸ pos, last ▸ le, ?_, last ▸ whole⟩, last ▸ region⟩
          intro s same
          exact ends s (List.mem_filterMap.mpr ⟨b, by simp, same⟩) (atEnd s same)

theorem release {opened : Option (Region WriteBlock)} (h : Placed q) (open_ : Opened q opened) :
    Placed q.release ∧ Opened q.release opened := by
  rcases release_cases q with ⟨same, -⟩ | ⟨curr, rest, queue, state, releases⟩
  · rw [same]
    exact ⟨h, open_⟩
  have member : curr ∈ q.outBuffA := by
    rw [queue]
    exact List.mem_cons_self
  have layout := h.layout
  rw [queue] at layout
  generalize q.release = q' at releases
  cases releases with
  | restarted static met =>
      have block := arena_of_static static
      rw [spans_cons _ block] at layout
      have released := layout.release
      rw [met] at released
      have nothing := released.restart
      refine ⟨h.of_perm rfl ?_ ?_ h.stored, opened_behind open_ queue state rfl rfl ?_⟩
      · simp only [nothing]
        exact .empty (Nat.lt_of_le_of_lt (Nat.zero_le _) layout.bounds.1)
      · rw [queue, heapIds_cons_static _ block]
      · intro s member
        rw [nothing] at member
        exact absurd member List.not_mem_nil
  | passed static apart =>
      have block := arena_of_static static
      rw [spans_cons _ block] at layout
      refine ⟨h.of_perm rfl layout.release ?_ h.stored,
        opened_behind open_ queue state rfl rfl fun s _ ends => ends⟩
      rw [queue, heapIds_cons_static _ block]
  | stored dynamic =>
      obtain ⟨id, block⟩ := h.heap_of_dynamic member dynamic
      rw [spans_cons_heap _ block] at layout
      refine ⟨h.of_perm rfl layout ?_ ?_,
        opened_behind open_ queue state rfl rfl fun s _ ends => ends⟩
      · simp only [queue, heapIds_cons _ block, storedIds, List.filterMap_append,
          List.filterMap_cons, DynBuffer_heapId? (d := ⟨curr.buff, curr.allocLength⟩) block,
          List.filterMap_nil]
        rw [← List.append_assoc]
        exact List.perm_append_singleton _ _
      · intro d member
        rcases List.mem_append.mp member with member | member
        · exact h.stored d member
        · obtain rfl := List.mem_singleton.mp member
          exact ⟨id, DynBuffer_heapId? block⟩

end Placed

/-! ## A queue in use -/

/-- A call of the queue's user. -/
inductive Use where
  | allocate (length : Nat)
  | commit (length : Nat)
  | pop
  | release

structure Usage (size : Nat) where
  queue : WriteBuffQueue size
  /-- The allocation which has not been committed. -/
  opened : Option (Region WriteBlock)
  /-- What `Pop` has returned, and the allocation which had not been committed at that moment. -/
  sent : List (Region WriteBlock × Option (Region WriteBlock))

namespace Usage

def start (queue : WriteBuffQueue size) : Usage size := ⟨queue, none, []⟩

/-- A call, or `none` for a second allocation. -/
def step (s : Usage size) : Use → Option (Usage size)
  | .allocate length =>
      if s.opened.isNone then
        match s.queue.allocate length with
        | (some ret, queue) => some { s with queue := queue, opened := some ⟨ret, length⟩ }
        | (none, queue) => some { s with queue := queue }
      else
        none
  | .commit length => some { s with queue := s.queue.commit length, opened := none }
  | .pop =>
      match s.queue.pop with
      | (some (ptr, length), queue) =>
          some { s with queue := queue, sent := s.sent ++ [(⟨ptr, length⟩, s.opened)] }
      | (none, queue) => some { s with queue := queue }
  | .release => some { s with queue := s.queue.release }

/-- Nothing which was not committed has been returned by `Pop`. -/
def CommittedOnly (s : Usage size) : Prop :=
  ∀ sent ∈ s.sent, ∀ r ∈ sent.2, sent.1.Disjoint r

/-- `Pop` is not called while the one buffer left to it ends in an allocation which has not been
    committed. -/
def Waits (s : Usage size) : Use → Prop
  | .pop => s.opened = none ∨ s.queue.firstPendingI + 1 ≠ s.queue.outBuffA.length
  | _ => True

instance (s : Usage size) (c : Use) : Decidable (s.Waits c) :=
  match c with
  | .pop => inferInstanceAs (Decidable (_ ∨ _))
  | .allocate _ => .isTrue trivial
  | .commit _ => .isTrue trivial
  | .release => .isTrue trivial

/-- What holds between two calls. -/
structure Sound (s : Usage size) : Prop where
  placed : Placed s.queue
  opened : Opened s.queue s.opened
  committed : s.CommittedOnly

variable {s t : Usage size}

theorem step_sound (s : Usage size) (c : Use) (t : Usage size) (sound : s.Sound)
    (waits : s.Waits c) (taken : s.step c = some t) : t.Sound := by
  obtain ⟨placed, opened, committed⟩ := sound
  cases c with
  | allocate length =>
      obtain ⟨free, taken⟩ := Option.ite_none_right_eq_some.mp taken
      rw [Option.isNone_iff_eq_none] at free
      rw [free] at opened
      rcases Nat.eq_zero_or_pos length with rfl | pos
      · simp only [allocate, if_true, Option.some.injEq] at taken
        subst taken
        exact ⟨placed, free ▸ opened, committed⟩
      · obtain ⟨ret, q, run, placed, opened⟩ := placed.allocate opened pos
        simp only [run, Option.some.injEq] at taken
        subst taken
        exact ⟨placed, opened, committed⟩
  | commit length =>
      obtain rfl := Option.some.inj taken
      obtain ⟨placed, opened⟩ := placed.commit opened length
      exact ⟨placed, opened, committed⟩
  | pop =>
      cases popped : s.queue.pop with
      | mk range q =>
          cases range with
          | none =>
              simp only [step, popped, Option.some.injEq] at taken
              subst taken
              obtain ⟨rfl, -⟩ := pop_none popped
              exact ⟨placed, opened, committed⟩
          | some range =>
              obtain ⟨ptr, length⟩ := range
              simp only [step, popped, Option.some.injEq] at taken
              subst taken
              obtain ⟨placed, still, apart⟩ := placed.pop opened waits popped
              refine ⟨placed, still, ?_⟩
              intro sent member
              rcases List.mem_append.mp member with member | member
              · exact committed sent member
              · obtain rfl := List.mem_singleton.mp member
                exact apart
  | release =>
      obtain rfl := Option.some.inj taken
      obtain ⟨placed, opened⟩ := placed.release opened
      exact ⟨placed, opened, committed⟩

/-- Otherwise `Pop` returns the allocation which has not been committed. -/
theorem waits_of_committed (s : Usage size) (c : Use) (t : Usage size) (sound : s.Sound)
    (taken : s.step c = some t) (committed : t.CommittedOnly) : s.Waits c := by
  obtain ⟨placed, opened, -⟩ := sound
  cases c with
  | allocate length => trivial
  | commit length => trivial
  | release => trivial
  | pop =>
      by_contra rash
      obtain ⟨some_, last⟩ := not_or.mp rash
      rw [not_not] at last
      obtain ⟨r, isOpen⟩ := Option.ne_none_iff_exists'.mp some_
      rw [isOpen] at opened
      obtain ⟨front, b, queue, -, ⟨-, pos, le, -, -⟩, region⟩ := opened
      have at_ : s.queue.outBuffA[s.queue.firstPendingI]? = some b := by
        rw [queue, List.length_append, List.length_singleton] at last
        rw [queue, Nat.add_right_cancel last, List.getElem?_concat_length]
      simp only [step, WriteBuffQueue.pop, at_, Option.some.injEq] at taken
      subst taken
      have apart := committed (⟨b.buff, b.length⟩, s.opened) (by simp) r isOpen
      rw [region] at apart
      rcases apart with other | before | behind
      · exact other rfl
      · simp only [Ptr.add_off] at before
        omega
      · simp only [Ptr.add_off] at behind
        omega

theorem start_sound (pos : 0 < size) {q : WriteBuffQueue size} (empty : Empty q) :
    (start q).Sound := by
  have shape := empty.shape pos
  refine ⟨⟨shape.layout, shape.heap.owner, fun id member => shape.heap.known member, ?_⟩, ?_, ?_⟩
  · intro d member
    obtain ⟨id, buff, -⟩ := shape.heap.stored d member
    exact ⟨id, by rw [DynBuffer.heapId?, buff]⟩
  · intro b member
    rw [start, empty.queue] at member
    exact absurd member List.not_mem_nil
  · exact fun sent member => absurd member List.not_mem_nil

/-- Along a run `Pop` returns committed bytes only exactly if none of its calls takes the buffer
    with an open allocation. -/
theorem committed_only_iff (pos : 0 < size) {q : WriteBuffQueue size} (empty : Empty q)
    {uses : List Use} (run : exec step (start q) uses = some t) :
    Always step CommittedOnly (start q) uses ↔ Along step Waits (start q) uses :=
  always_iff_along (fun _ sound => sound.committed) step_sound waits_of_committed
    (start_sound pos empty) run

/-- An allocation behind a pending buffer, of which the pending one and later both are popped. -/
def patientUses : List Use :=
  [.allocate 2, .commit max32, .allocate 3, .commit 2, .pop, .allocate 1, .commit 1, .pop, .release]

theorem committed_only_patient :
    Always step CommittedOnly (start (init 8)) patientUses := by
  obtain ⟨t, run⟩ : ∃ t, exec step (start (init 8)) patientUses = some t :=
    Option.isSome_iff_exists.mp (by decide)
  exact (committed_only_iff (by decide) (empty_init 8) run).mpr (by decide)

/-- A pending buffer is popped with the allocation which was appended to it. -/
theorem uncommitted_popped :
    ¬∀ (size : Nat) (q : WriteBuffQueue size) (uses : List Use) (t : Usage size), 0 < size →
      Empty q → exec step (start q) uses = some t → t.CommittedOnly := by
  intro all
  obtain ⟨t, run⟩ : ∃ t, exec step (start (init 8)) [.allocate 2, .commit 2, .allocate 3, .pop] =
      some t := Option.isSome_iff_exists.mp (by decide)
  have sent : (exec step (start (init 8)) [.allocate 2, .commit 2, .allocate 3, .pop]).map sent =
      some [(⟨⟨.arena, 0⟩, 5⟩, some ⟨⟨.arena, 2⟩, 3⟩)] := by
    decide
  rw [run] at sent
  have apart := all 8 (init 8) _ t (by decide) (empty_init 8) run
    (⟨⟨.arena, 0⟩, 5⟩, some ⟨⟨.arena, 2⟩, 3⟩) (by rw [Option.some.inj sent]; exact List.mem_singleton_self _)
    _ rfl
  rcases apart with other | before | behind
  · exact other rfl
  · exact absurd before (by decide)
  · exact absurd behind (by decide)

end Usage

end MiniWebSrv.WriteBuffQueue
