import MiniWebSrv.Lib.Memory
import MiniWebSrv.Lib.Ring
import MiniWebSrv.Lib.Word

/-! # The write queue

`WriteBuffQueue<StaticWriteBuffSize, InitQueueSize>`: buffers waiting to be written, most of
them in a static arena which is used as a circular FIFO, the others on the heap.

The queue only hands out pointers, so it carries no bytes: what the callers store behind
the pointers is kept in a `Mem` beside it. `OutBuffA` is a circular buffer which grows when
it is full, that is a list, and its initial capacity (`InitQueueSize`) shows nowhere.
-/

namespace MiniWebSrv

open Word

/-- What a write pointer points into: the arena `WriteBuff`, or a heap buffer. Heap buffers
    are numbered in the order of their `new`. -/
inductive WriteBlock where
  | arena
  | heap (id : Nat)
  deriving DecidableEq, Repr

abbrev WritePtr := Ptr WriteBlock

inductive BufferState where
  /-- Waiting for `Commit()`. -/
  | allocated
  /-- Waiting for `Pop()`. -/
  | pending
  /-- Waiting for `Release()`. -/
  | writing
  deriving DecidableEq, Repr

structure DynBuffer where
  buff : WritePtr
  length : Nat
  deriving DecidableEq, Repr

structure Buffer where
  buff : WritePtr
  length : Nat
  allocLength : Nat
  state : BufferState
  deriving DecidableEq, Repr

/-- The queue over an arena of `size` bytes. Positions in the arena are offsets from
    `WriteBuff`. `heapSizes` lists the sizes of the heap buffers created so far. -/
structure WriteBuffQueue (size : Nat) where
  fifoFreeBegin : Nat
  fifoUsedBegin : Nat
  lastAllocLength : Nat
  outBuffA : List Buffer
  firstPendingI : Nat
  freeBuffList : List DynBuffer
  heapSizes : List Nat
  deriving DecidableEq, Repr

namespace WriteBuffQueue

variable {size : Nat}

/-- The constructor. -/
def init (size : Nat) : WriteBuffQueue size where
  fifoFreeBegin := 0
  fifoUsedBegin := 0
  lastAllocLength := 0
  outBuffA := []
  firstPendingI := 0
  freeBuffList := []
  heapSizes := []

def isStaticBuffer (size : Nat) (src : Buffer) : Bool :=
  match src.buff.block with
  | .arena => src.buff.off < size
  | .heap _ => false

theorem arena_of_static {b : Buffer} (static : isStaticBuffer size b = true) :
    b.buff.block = .arena := by
  cases block : b.buff.block with
  | arena => rfl
  | heap id =>
      rw [isStaticBuffer, block] at static
      cases static

/-- The heap buffers which `Reset` retains. -/
def retained (size : Nat) (outBuffA : List Buffer) : List DynBuffer :=
  (outBuffA.filter fun b => !isStaticBuffer size b).map fun b => ⟨b.buff, b.allocLength⟩

def reset (q : WriteBuffQueue size) (releaseDynamicBuffers : Bool) : WriteBuffQueue size :=
  { q with
    fifoFreeBegin := 0
    fifoUsedBegin := 0
    lastAllocLength := 0
    outBuffA := []
    firstPendingI := 0
    freeBuffList :=
      if releaseDynamicBuffers then [] else q.freeBuffList ++ retained size q.outBuffA }

/-- The free bytes from `FIFOFreeBegin` on, and those at the beginning of the arena. -/
def getContinousFreeFIFOLength (q : WriteBuffQueue size) : Nat × Nat :=
  if q.fifoUsedBegin ≤ q.fifoFreeBegin then
    -- one byte is reserved as a guard, so that a full arena does not look empty
    (if q.fifoUsedBegin ≠ 0 then size - q.fifoFreeBegin else size - q.fifoFreeBegin - 1,
      if 0 < q.fifoUsedBegin then q.fifoUsedBegin - 1 else 0)
  else
    (if q.fifoFreeBegin < q.fifoUsedBegin then q.fifoUsedBegin - q.fifoFreeBegin - 1 else 0, 0)

/-- The part of `Allocate` which looks for room in the arena. -/
def takeStatic (q : WriteBuffQueue size) (length : Nat) :
    Option (WritePtr × WriteBuffQueue size) :=
  if length < size then
    let (beginLen, fifoBeginLen) := q.getContinousFreeFIFOLength
    if length ≤ beginLen then
      let free := q.fifoFreeBegin + length
      some (⟨.arena, q.fifoFreeBegin⟩, { q with fifoFreeBegin := if size ≤ free then 0 else free })
    else if length ≤ fifoBeginLen then
      some (⟨.arena, 0⟩, { q with fifoFreeBegin := length })
    else
      none
  else
    none

/-- The loop over `FreeBuffList`, from its `i`-th element on: the shortest buffer of at least
    `length` bytes, with its position. -/
def findClose (length : Nat) : List DynBuffer → Nat → Option (Nat × DynBuffer) → Nat →
    Option (Nat × DynBuffer)
  | [], _, closeI, _ => closeI
  | now :: rest, i, closeI, closeLength =>
      if length ≤ now.length ∧ now.length < closeLength then
        findClose length rest (i + 1) (some (i, now)) now.length
      else
        findClose length rest (i + 1) closeI closeLength

/-- The part of `Allocate` which takes a heap buffer, a stored one or a new one: its pointer
    and its allocated length. -/
def takeDynamic (q : WriteBuffQueue size) (length : Nat) :
    WritePtr × Nat × WriteBuffQueue size :=
  match findClose length q.freeBuffList 0 none max32 with
  | some (closeI, close) =>
      (close.buff, close.length, { q with freeBuffList := q.freeBuffList.eraseIdx closeI })
  | none =>
      let retAllocLength := roundUpPowerOfTwo length 8
      (⟨.heap q.heapSizes.length, 0⟩, retAllocLength,
        { q with heapSizes := q.heapSizes ++ [retAllocLength] })

/-- `OutBuffA.push_back`, which grows the circular buffer when it is full. -/
def pushBack (q : WriteBuffQueue size) (b : Buffer) : WriteBuffQueue size :=
  { q with outBuffA := q.outBuffA ++ [b] }

/-- Write back what the source changes through the reference `OutBuffA.back()`. -/
def setBack (q : WriteBuffQueue size) (b : Buffer) : WriteBuffQueue size :=
  { q with outBuffA := q.outBuffA.dropLast ++ [b] }

/-- `OutBuffA.pop_back`. -/
def popBack (q : WriteBuffQueue size) : WriteBuffQueue size :=
  { q with outBuffA := q.outBuffA.dropLast }

/-- `none` is the `NULL` which the source returns for an empty allocation. -/
def allocate (q : WriteBuffQueue size) (length : Nat) : Option WritePtr × WriteBuffQueue size :=
  if length = 0 then
    (none, q)
  else
    let q : WriteBuffQueue size := { q with lastAllocLength := length }
    match q.takeStatic length with
    | some (ret, q) =>
        match q.outBuffA.getLast? with
        | some last =>
            if last.state = .pending ∧ isStaticBuffer size last ∧
                last.buff.add last.length = ret then
              -- append the new bytes to the last pending buffer
              (some ret, q.setBack { last with length := last.length + length, state := .allocated })
            else
              (some ret, q.pushBack ⟨ret, length, length, .allocated⟩)
        | none => (some ret, q.pushBack ⟨ret, length, length, .allocated⟩)
    | none =>
        let (ret, retAllocLength, q) := q.takeDynamic length
        (some ret, q.pushBack ⟨ret, length, retAllocLength, .allocated⟩)

def commit (q : WriteBuffQueue size) (length : Nat) : WriteBuffQueue size :=
  match q.outBuffA.getLast? with
  | none => q
  | some last =>
      if last.state = .allocated then
        if length < q.lastAllocLength then
          if isStaticBuffer size last then
            let shrinkLen := q.lastAllocLength - length
            let q : WriteBuffQueue size := { q with
              fifoFreeBegin :=
                if q.fifoFreeBegin ≠ 0 then q.fifoFreeBegin - shrinkLen else size - shrinkLen }
            if last.length - shrinkLen = 0 then
              q.popBack
            else
              q.setBack { last with length := last.length - shrinkLen, state := .pending }
          else if length ≠ 0 then
            q.setBack { last with length := length, state := .pending }
          else
            -- keep the memory of the heap buffer for later
            { q.popBack with
              freeBuffList := q.freeBuffList ++ [⟨last.buff, last.allocLength⟩] }
        else
          q.setBack { last with state := .pending }
      else
        q

/-- The next buffer to write: its pointer and its length, or `none` for `NULL`. -/
def pop (q : WriteBuffQueue size) : Option (WritePtr × Nat) × WriteBuffQueue size :=
  match q.outBuffA[q.firstPendingI]? with
  | some ret =>
      (some (ret.buff, ret.length),
        { q with
          outBuffA := q.outBuffA.set q.firstPendingI { ret with state := .writing }
          firstPendingI := q.firstPendingI + 1 })
  | none => (none, q)

def release (q : WriteBuffQueue size) : WriteBuffQueue size :=
  match q.outBuffA with
  | [] => q
  | curr :: rest =>
      if curr.state = .writing then
        let q : WriteBuffQueue size := { q with outBuffA := rest, firstPendingI := q.firstPendingI - 1 }
        if isStaticBuffer size curr then
          let stop := curr.buff.off + curr.length
          let used := if size ≤ stop then stop - size else stop
          if used = q.fifoFreeBegin then
            -- the arena is empty: start over at its beginning
            { q with fifoUsedBegin := 0, fifoFreeBegin := 0 }
          else
            { q with fifoUsedBegin := used }
        else
          { q with freeBuffList := q.freeBuffList ++ [⟨curr.buff, curr.allocLength⟩] }
      else
        q

/-! ## What `Allocate` does -/

/-- Where an allocation is: behind the pending buffer at the end of the queue, in a static buffer
    of its own, or in a heap buffer. -/
inductive Allocates (q : WriteBuffQueue size) (length : Nat) :
    WritePtr → WriteBuffQueue size → Prop where
  | appended {ret : WritePtr} {q' : WriteBuffQueue size} {last : Buffer}
      (static : ({ q with lastAllocLength := length } : WriteBuffQueue size).takeStatic length =
        some (ret, q'))
      (found : q'.outBuffA.getLast? = some last) (pending : last.state = .pending)
      (arena : isStaticBuffer size last = true) (adjacent : last.buff.add last.length = ret) :
      Allocates q length ret
        (q'.setBack { last with length := last.length + length, state := .allocated })
  | pushed {ret : WritePtr} {q' : WriteBuffQueue size}
      (static : ({ q with lastAllocLength := length } : WriteBuffQueue size).takeStatic length =
        some (ret, q')) :
      Allocates q length ret (q'.pushBack ⟨ret, length, length, .allocated⟩)
  | dynamic {ret : WritePtr} {q' : WriteBuffQueue size} {allocLength : Nat}
      (taken : ({ q with lastAllocLength := length } : WriteBuffQueue size).takeDynamic length =
        (ret, allocLength, q')) :
      Allocates q length ret (q'.pushBack ⟨ret, length, allocLength, .allocated⟩)

theorem allocate_allocates {q : WriteBuffQueue size} {length : Nat} (pos : 0 < length) :
    ∃ ret q', q.allocate length = (some ret, q') ∧ Allocates q length ret q' := by
  simp only [allocate, if_neg (Nat.ne_of_gt pos)]
  cases static : ({ q with lastAllocLength := length } : WriteBuffQueue size).takeStatic length with
  | none => exact ⟨_, _, rfl, .dynamic rfl⟩
  | some found =>
      obtain ⟨ret, q'⟩ := found
      simp only
      split
      · rename_i last found
        split
        · rename_i joins
          exact ⟨ret, _, rfl, .appended static found joins.1 joins.2.1 joins.2.2⟩
        · exact ⟨ret, _, rfl, .pushed static⟩
      · exact ⟨ret, _, rfl, .pushed static⟩

/-! ## What `Commit` does -/

/-- The last `n` bytes which were taken from the arena are free again. -/
def giveBack (q : WriteBuffQueue size) (n : Nat) : WriteBuffQueue size :=
  { q with fifoFreeBegin := if q.fifoFreeBegin ≠ 0 then q.fifoFreeBegin - n else size - n }

/-- What becomes of an allocated buffer `b` at the end of the queue. -/
inductive Commits (q : WriteBuffQueue size) (b : Buffer) (length : Nat) :
    WriteBuffQueue size → Prop where
  | kept (enough : q.lastAllocLength ≤ length) :
      Commits q b length (q.setBack { b with state := .pending })
  | shrunk (less : length < q.lastAllocLength) (static : isStaticBuffer size b = true)
      (left : q.lastAllocLength - length < b.length) :
      Commits q b length ((q.giveBack (q.lastAllocLength - length)).setBack
        { b with length := b.length - (q.lastAllocLength - length), state := .pending })
  | dropped (less : length < q.lastAllocLength) (static : isStaticBuffer size b = true)
      (nothing : b.length ≤ q.lastAllocLength - length) :
      Commits q b length (q.giveBack (q.lastAllocLength - length)).popBack
  | cut (less : length < q.lastAllocLength) (dynamic : isStaticBuffer size b = false)
      (left : 0 < length) :
      Commits q b length (q.setBack { b with length := length, state := .pending })
  | stored (less : 0 < q.lastAllocLength) (dynamic : isStaticBuffer size b = false)
      (nothing : length = 0) :
      Commits q b length
        { q.popBack with freeBuffList := q.freeBuffList ++ [⟨b.buff, b.allocLength⟩] }

theorem commit_commits {q : WriteBuffQueue size} {b : Buffer} (last : q.outBuffA.getLast? = some b)
    (state : b.state = .allocated) (length : Nat) : Commits q b length (q.commit length) := by
  by_cases less : length < q.lastAllocLength
  case neg =>
    simp only [commit, last, state, if_true, if_neg less]
    exact .kept (Nat.le_of_not_lt less)
  cases static : isStaticBuffer size b with
  | true =>
      by_cases nothing : b.length - (q.lastAllocLength - length) = 0
      · simp only [commit, last, state, if_true, if_pos less, static, if_pos nothing]
        exact .dropped less static (Nat.le_of_sub_eq_zero nothing)
      · simp only [commit, last, state, if_true, if_pos less, static, if_neg nothing]
        exact .shrunk less static (Nat.lt_of_sub_ne_zero nothing)
  | false =>
      by_cases left : length ≠ 0
      · simp only [commit, last, state, if_true, if_pos less, static, Bool.false_eq_true, if_false,
          if_pos left]
        exact .cut less static (Nat.pos_of_ne_zero left)
      · simp only [commit, last, state, if_true, if_pos less, static, Bool.false_eq_true, if_false,
          if_neg left]
        exact .stored (Nat.zero_lt_of_lt less) static (not_not.mp left)

/-! ## What `Release` does -/

/-- What becomes of the queue when `b`, in front of `rest`, is released: the arena is empty and starts
    over, its used bytes begin behind `b`, or `b` is a heap buffer. -/
inductive Releases (q : WriteBuffQueue size) (b : Buffer) (rest : List Buffer) :
    WriteBuffQueue size → Prop where
  | restarted (static : isStaticBuffer size b = true)
      (met : Ring.Span.next size ⟨b.buff.off, b.length⟩ = q.fifoFreeBegin) :
      Releases q b rest { q with
        outBuffA := rest
        firstPendingI := q.firstPendingI - 1
        fifoUsedBegin := 0
        fifoFreeBegin := 0 }
  | passed (static : isStaticBuffer size b = true)
      (apart : Ring.Span.next size ⟨b.buff.off, b.length⟩ ≠ q.fifoFreeBegin) :
      Releases q b rest { q with
        outBuffA := rest
        firstPendingI := q.firstPendingI - 1
        fifoUsedBegin := Ring.Span.next size ⟨b.buff.off, b.length⟩ }
  | stored (dynamic : isStaticBuffer size b = false) :
      Releases q b rest { q with
        outBuffA := rest
        firstPendingI := q.firstPendingI - 1
        freeBuffList := q.freeBuffList ++ [⟨b.buff, b.allocLength⟩] }

theorem Releases.queue {q q' : WriteBuffQueue size} {b : Buffer} {rest : List Buffer}
    (releases : Releases q b rest q') :
    q'.outBuffA = rest ∧ q'.firstPendingI = q.firstPendingI - 1 := by
  cases releases with
  | restarted => exact ⟨rfl, rfl⟩
  | passed => exact ⟨rfl, rfl⟩
  | stored => exact ⟨rfl, rfl⟩

/-- Only a buffer in front which is being written is released. -/
theorem release_cases (q : WriteBuffQueue size) :
    q.release = q ∧ (∀ b ∈ q.outBuffA.head?, b.state ≠ .writing) ∨
      ∃ b rest, q.outBuffA = b :: rest ∧ b.state = .writing ∧ Releases q b rest q.release := by
  cases queue : q.outBuffA with
  | nil =>
      refine Or.inl ⟨?_, fun b member => absurd member (Option.not_mem_none b)⟩
      simp only [release, queue]
  | cons b rest =>
  by_cases state : b.state = .writing
  case neg =>
    refine Or.inl ⟨?_, fun c member => Option.some.inj member ▸ state⟩
    simp only [release, queue, if_neg state]
  refine Or.inr ⟨b, rest, rfl, state, ?_⟩
  cases static : isStaticBuffer size b with
  | false =>
      simp only [release, queue, state, if_true, static, Bool.false_eq_true, if_false]
      exact .stored static
  | true =>
      by_cases met : Ring.Span.next size ⟨b.buff.off, b.length⟩ = q.fifoFreeBegin
      · have restarted : Releases q b rest _ := .restarted static met
        rw [Ring.Span.next, Ring.Span.stop] at met
        simp only [release, queue, state, if_true, static, if_pos met]
        exact restarted
      · have passed : Releases q b rest _ := .passed static met
        rw [Ring.Span.next, Ring.Span.stop] at met
        simp only [release, queue, state, if_true, static, if_neg met]
        exact passed

theorem release_releases {q : WriteBuffQueue size} {b : Buffer} {rest : List Buffer}
    (queue : q.outBuffA = b :: rest) (state : b.state = .writing) :
    Releases q b rest q.release := by
  rcases release_cases q with ⟨-, waiting⟩ | ⟨c, bs, queue', -, releases⟩
  · rw [queue] at waiting
    exact absurd state (waiting b rfl)
  · obtain ⟨rfl, rfl⟩ := List.cons.inj (queue.symm.trans queue')
    exact releases

/-! ## Popping everything -/

/-- The number of buffers which `Pop` has not returned yet. -/
def unpopped (q : WriteBuffQueue size) : Nat := q.outBuffA.length - q.firstPendingI

/-- At most `n` calls of `Pop`, up to the first `NULL`. -/
def popAll : Nat → WriteBuffQueue size → List (WritePtr × Nat) × WriteBuffQueue size
  | 0, q => ([], q)
  | n + 1, q =>
      match q.pop with
      | (some range, q) => let (ranges, q) := popAll n q; (range :: ranges, q)
      | (none, q) => ([], q)

theorem pop_none {q q' : WriteBuffQueue size} (run : q.pop = (none, q')) :
    q' = q ∧ q.unpopped = 0 := by
  simp only [pop] at run
  split at run
  · simp at run
  · rename_i empty
    have := List.getElem?_eq_none_iff.mp empty
    exact ⟨(Prod.mk.inj run).2.symm, by simp only [unpopped]; omega⟩

theorem pop_inv {q q' : WriteBuffQueue size} {ptr : WritePtr} {length : Nat}
    (run : q.pop = (some (ptr, length), q')) :
    ∃ ret, q.outBuffA[q.firstPendingI]? = some ret ∧ ptr = ret.buff ∧ length = ret.length ∧
      q' = { q with
        outBuffA := q.outBuffA.set q.firstPendingI { ret with state := .writing }
        firstPendingI := q.firstPendingI + 1 } := by
  unfold pop at run
  split at run
  · rename_i ret found
    cases run
    exact ⟨ret, found, rfl, rfl, rfl⟩
  · cases run

theorem pop_some {q q' : WriteBuffQueue size} {range : WritePtr × Nat}
    (run : q.pop = (some range, q')) : q.unpopped = q'.unpopped + 1 := by
  simp only [pop] at run
  split at run
  · rename_i ret found
    obtain ⟨inside, -⟩ := List.getElem?_eq_some_iff.mp found
    obtain ⟨-, rfl⟩ := Prod.mk.inj run
    simp only [unpopped, List.length_set]
    omega
  · simp at run

/-- Enough calls of `Pop` return every buffer not returned yet. -/
theorem popAll_length {n : Nat} {q : WriteBuffQueue size} (enough : q.unpopped ≤ n) :
    (popAll n q).1.length = q.unpopped := by
  induction n generalizing q with
  | zero =>
      simp only [popAll, List.length_nil]
      omega
  | succ n ih =>
      cases run : q.pop with
      | mk range q' =>
          cases range with
          | none =>
              simp only [popAll, run, List.length_nil, (pop_none run).2]
          | some range =>
              have less := pop_some run
              simp only [popAll, run, List.length_cons, ih (q := q') (by omega), less]

/-- Room is always found for a nonempty allocation. -/
theorem allocate_some (q : WriteBuffQueue size) (length : Nat) (pos : 0 < length) :
    ∃ ret q', q.allocate length = (some ret, q') := by
  obtain ⟨ret, q', run, -⟩ := allocate_allocates (q := q) pos
  exact ⟨ret, q', run⟩

end WriteBuffQueue

end MiniWebSrv
