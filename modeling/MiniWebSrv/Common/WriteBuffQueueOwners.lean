import MiniWebSrv.Common.WriteBuffQueueShape
import MiniWebSrv.Lib.Run

/-! # The owners of the heap buffers

A heap buffer is in the queue or in the store until it is deleted. What has been deleted, with what
is in the store and in the queue, is a permutation of what has been created, each with its size.
This holds whatever the calls are, so that neither the states of the buffers nor the room in the
arena play a part here.
-/

namespace MiniWebSrv.WriteBuffQueue

open Run Word

variable {size : Nat}

/-- The destructor, and `Reset(true)`: the pointers which go to `delete[]`. -/
def deletes (q : WriteBuffQueue size) : List WritePtr :=
  q.freeBuffList.map DynBuffer.buff ++
    (q.outBuffA.filter fun b => !isStaticBuffer size b).map Buffer.buff

/-- The heap buffers which have been created, with their sizes. -/
def created (sizes : List Nat) : List DynBuffer :=
  sizes.mapIdx fun id length => ⟨⟨.heap id, 0⟩, length⟩

/-- The heap buffers which exist. -/
def heapBuffers (q : WriteBuffQueue size) : List DynBuffer :=
  q.freeBuffList ++ retained size q.outBuffA

theorem deletes_eq (q : WriteBuffQueue size) : q.deletes = q.heapBuffers.map DynBuffer.buff := by
  simp only [deletes, heapBuffers, retained, List.map_append, List.map_map]
  rfl

theorem created_concat (sizes : List Nat) (length : Nat) :
    created (sizes ++ [length]) = created sizes ++ [⟨⟨.heap sizes.length, 0⟩, length⟩] := by
  rw [created, List.mapIdx_concat]
  rfl

theorem mem_created {sizes : List Nat} {d : DynBuffer} :
    d ∈ created sizes ↔ ∃ id, d.buff = ⟨.heap id, 0⟩ ∧ sizes[id]? = some d.length := by
  rw [created, List.mem_mapIdx]
  constructor
  · rintro ⟨id, inside, rfl⟩
    exact ⟨id, rfl, List.getElem?_eq_getElem inside⟩
  · rintro ⟨id, buff, known⟩
    obtain ⟨inside, same⟩ := List.getElem?_eq_some_iff.mp known
    refine ⟨id, inside, ?_⟩
    rw [same, ← buff]

theorem created_buff (sizes : List Nat) :
    (created sizes).map DynBuffer.buff = (List.range sizes.length).map fun id => ⟨.heap id, 0⟩ := by
  apply List.ext_getElem
  · simp only [created, List.length_map, List.length_mapIdx, List.length_range]
  · intro id left right
    simp only [created, List.getElem_map, List.getElem_mapIdx, List.getElem_range]

/-! ## Buffers of the queue -/

theorem isStaticBuffer_congr {b c : Buffer} (same : c.buff = b.buff) :
    isStaticBuffer size c = isStaticBuffer size b := by
  simp only [isStaticBuffer, same]

theorem isStaticBuffer_arena {b : Buffer} (block : b.buff.block = .arena) (inside : b.buff.off < size) :
    isStaticBuffer size b = true := by
  simp only [isStaticBuffer, block, inside, decide_true]

theorem isStaticBuffer_heap {b : Buffer} {id : Nat} (block : b.buff.block = .heap id) :
    isStaticBuffer size b = false := by
  simp only [isStaticBuffer, block]

theorem retained_append (bs cs : List Buffer) :
    retained size (bs ++ cs) = retained size bs ++ retained size cs := by
  simp only [retained, List.filter_append, List.map_append]

theorem retained_static {b : Buffer} (static : isStaticBuffer size b = true) :
    retained size [b] = [] := by
  simp only [retained, List.filter_cons, static, Bool.not_true, Bool.false_eq_true, if_false,
    List.filter_nil, List.map_nil]

theorem retained_dynamic {b : Buffer} (dynamic : isStaticBuffer size b = false) :
    retained size [b] = [⟨b.buff, b.allocLength⟩] := by
  simp only [retained, List.filter_cons, dynamic, Bool.not_false, if_true, List.filter_nil,
    List.map_cons, List.map_nil]

/-- Of a buffer in the queue, only the pointer and the length which it was created with count. -/
theorem retained_congr {b c : Buffer} (buff : c.buff = b.buff) (alloc : c.allocLength = b.allocLength) :
    retained size [c] = retained size [b] := by
  cases static : isStaticBuffer size b with
  | true => rw [retained_static static, retained_static ((isStaticBuffer_congr buff).trans static)]
  | false =>
      rw [retained_dynamic static, retained_dynamic ((isStaticBuffer_congr buff).trans static), buff,
        alloc]

/-! ## The ledger -/

/-- Every heap buffer is where it belongs; `gone` has those which have been deleted. -/
structure Ledger (q : WriteBuffQueue size) (gone : List DynBuffer) : Prop where
  /-- With this, `IsStaticBuffer` tells the buffers in the arena from the others. -/
  inside : 0 < size → q.fifoFreeBegin < size
  balance : (gone ++ q.heapBuffers).Perm (created q.heapSizes)

namespace Ledger

variable {q q' : WriteBuffQueue size} {gone : List DynBuffer}

theorem init (size : Nat) : Ledger (init size) [] := ⟨id, List.Perm.nil⟩

/-- The buffers change their places only. -/
theorem moved (h : Ledger q gone) (inside : 0 < size → q'.fifoFreeBegin < size)
    (sizes : q'.heapSizes = q.heapSizes) (perm : q'.heapBuffers.Perm q.heapBuffers) :
    Ledger q' gone := by
  refine ⟨inside, ?_⟩
  rw [sizes]
  exact (perm.append_left gone).trans h.balance

/-- Something new behind the queue, which is not on the heap. -/
theorem same_buffers (h : Ledger q gone) (inside : 0 < size → q'.fifoFreeBegin < size)
    (sizes : q'.heapSizes = q.heapSizes) (free : q'.freeBuffList = q.freeBuffList)
    (queue : retained size q'.outBuffA = retained size q.outBuffA) : Ledger q' gone := by
  apply h.moved inside sizes
  rw [heapBuffers, heapBuffers, free, queue]

/-! ### Allocate -/

theorem takeStatic {length : Nat} {ret : WritePtr} (h : Ledger q gone)
    (taken : q.takeStatic length = some (ret, q')) :
    ∃ free, q' = { q with fifoFreeBegin := free } ∧ free < size ∧ ret.block = .arena ∧
      ret.off < size := by
  simp only [WriteBuffQueue.takeStatic] at taken
  split at taken
  · rename_i short
    have pos : 0 < size := Nat.lt_of_le_of_lt (Nat.zero_le length) short
    have inside := h.inside pos
    split at taken
    · obtain ⟨rfl, rfl⟩ := Prod.mk.inj (Option.some.inj taken)
      refine ⟨_, rfl, ?_, rfl, inside⟩
      split
      · exact pos
      · omega
    · split at taken
      · obtain ⟨rfl, rfl⟩ := Prod.mk.inj (Option.some.inj taken)
        exact ⟨length, rfl, short, rfl, pos⟩
      · cases taken
  · cases taken

/-- A heap buffer which is handed out has been in the store, or is a new one. -/
theorem takeDynamic (h : Ledger q gone) (length : Nat) : ∃ id allocLength free sizes,
    q.takeDynamic length =
      (⟨.heap id, 0⟩, allocLength, { q with freeBuffList := free, heapSizes := sizes }) ∧
    (gone ++ (free ++ (retained size q.outBuffA ++ [DynBuffer.mk ⟨.heap id, 0⟩ allocLength]))).Perm
      (created sizes) := by
  cases search : findClose length q.freeBuffList 0 none max32 with
  | some found =>
      obtain ⟨closeI, close⟩ := found
      obtain ⟨at_, -⟩ := findClose_some (show ([] : List DynBuffer).length = 0 from rfl) (by simp) search
      rw [List.nil_append] at at_
      obtain ⟨inside, same⟩ := List.getElem?_eq_some_iff.mp at_
      have perm := List.getElem_cons_eraseIdx_perm inside
      rw [same] at perm
      have all : (q.freeBuffList.eraseIdx closeI ++ (retained size q.outBuffA ++ [close])).Perm
          q.heapBuffers := by
        rw [← List.append_assoc]
        exact (List.perm_append_singleton close _).trans (perm.append_right _)
      have balance := (all.append_left gone).trans h.balance
      obtain ⟨id, buff, known⟩ := mem_created.mp (balance.mem_iff.mp
        (List.mem_append_right _ (List.mem_append_right _ List.mem_concat_self)))
      obtain ⟨ptr, allocLength⟩ := close
      obtain rfl : ptr = ⟨.heap id, 0⟩ := buff
      refine ⟨id, allocLength, q.freeBuffList.eraseIdx closeI, q.heapSizes, ?_, balance⟩
      simp only [WriteBuffQueue.takeDynamic, search]
  | none =>
      refine ⟨q.heapSizes.length, roundUpPowerOfTwo length 8, q.freeBuffList,
        q.heapSizes ++ [roundUpPowerOfTwo length 8], ?_, ?_⟩
      · simp only [WriteBuffQueue.takeDynamic, search]
      · rw [created_concat, ← List.append_assoc, ← List.append_assoc]
        apply List.Perm.append_right
        rw [List.append_assoc]
        exact h.balance

theorem allocate (h : Ledger q gone) (length : Nat) : Ledger (q.allocate length).2 gone := by
  have start : Ledger ({ q with lastAllocLength := length } : WriteBuffQueue size) gone :=
    ⟨h.inside, h.balance⟩
  rcases Nat.eq_zero_or_pos length with rfl | pos
  · simp only [WriteBuffQueue.allocate, if_true]
    exact h
  obtain ⟨ret, q', run, allocates⟩ := allocate_allocates (q := q) pos
  rw [run]
  cases allocates with
  | dynamic taken =>
      obtain ⟨id, _, free, sizes, same, balance⟩ := start.takeDynamic length
      rw [taken] at same
      cases same
      refine ⟨h.inside, ?_⟩
      simp only [pushBack, heapBuffers, retained_append]
      rw [retained_dynamic (isStaticBuffer_heap rfl)]
      exact balance
  | pushed static =>
      obtain ⟨free, rfl, short, block, off⟩ := start.takeStatic static
      refine h.same_buffers (fun _ => short) rfl rfl ?_
      rw [pushBack, retained_append, retained_static (isStaticBuffer_arena block off), List.append_nil]
  | @appended _ last static found =>
      obtain ⟨free, rfl, short, block, off⟩ := start.takeStatic static
      have split := List.dropLast_append_getLast? last found
      refine h.same_buffers (fun _ => short) rfl rfl ?_
      conv_rhs => rw [← split]
      rw [setBack, retained_append, retained_append]
      exact congrArg _ (retained_congr rfl rfl)

/-! ### Commit, Pop and Release -/

/-- The last buffer of the queue is changed. -/
theorem setBack {front : List Buffer} {b : Buffer} {free : Nat} (c : Buffer) (h : Ledger q gone)
    (queue : q.outBuffA = front ++ [b]) (inside : 0 < size → free < size) (buff : c.buff = b.buff)
    (alloc : c.allocLength = b.allocLength) :
    Ledger (({ q with fifoFreeBegin := free } : WriteBuffQueue size).setBack c) gone := by
  refine h.same_buffers inside rfl rfl ?_
  simp only [WriteBuffQueue.setBack, queue, List.dropLast_concat, retained_append]
  exact congrArg _ (retained_congr buff alloc)

theorem giveBack_inside (h : Ledger q gone) {n : Nat} (pos : 0 < n) :
    0 < size → (q.giveBack n).fifoFreeBegin < size := by
  intro some_
  have free := h.inside some_
  simp only [giveBack]
  split <;> omega

theorem commit (h : Ledger q gone) (length : Nat) : Ledger (q.commit length) gone := by
  cases last : q.outBuffA.getLast? with
  | none =>
      simp only [WriteBuffQueue.commit, last]
      exact h
  | some b =>
  by_cases state : b.state = .allocated
  case neg =>
    simp only [WriteBuffQueue.commit, last, if_neg state]
    exact h
  have queue := (List.dropLast_append_getLast? b last).symm
  have commits := commit_commits last state length
  generalize q.commit length = q' at commits
  cases commits with
  | kept => exact h.setBack { b with state := .pending } queue h.inside rfl rfl
  | shrunk less => exact h.setBack _ queue (h.giveBack_inside (Nat.sub_pos_of_lt less)) rfl rfl
  | dropped less static =>
      refine h.same_buffers (h.giveBack_inside (Nat.sub_pos_of_lt less)) rfl rfl ?_
      conv_rhs => rw [queue, retained_append, retained_static static, List.append_nil]
      rfl
  | cut => exact h.setBack { b with length := length, state := .pending } queue h.inside rfl rfl
  | stored less dynamic =>
      refine h.moved h.inside rfl ?_
      have parts : retained size q.outBuffA =
          retained size q.outBuffA.dropLast ++ [⟨b.buff, b.allocLength⟩] := by
        rw [← retained_dynamic dynamic, ← retained_append, ← queue]
      simp only [heapBuffers, popBack, parts]
      rw [List.append_assoc]
      exact List.perm_append_comm.append_left _

theorem pop (h : Ledger q gone) : Ledger q.pop.2 gone := by
  unfold WriteBuffQueue.pop
  split
  · rename_i b found
    obtain ⟨inside, rfl⟩ := List.getElem?_eq_some_iff.mp found
    refine h.same_buffers h.inside rfl rfl ?_
    simp only
    rw [List.set_eq_take_append_cons_drop, if_pos inside, ← List.singleton_append]
    conv_rhs =>
      rw [← List.take_append_drop q.firstPendingI q.outBuffA, List.drop_eq_getElem_cons inside,
        ← List.singleton_append]
    simp only [retained_append]
    exact congrArg (fun one => retained size _ ++ (one ++ retained size _)) (retained_congr rfl rfl)
  · exact h

theorem release (h : Ledger q gone) : Ledger q.release gone := by
  rcases release_cases q with ⟨same, -⟩ | ⟨curr, rest, queue, -, releases⟩
  · rw [same]
    exact h
  have parts : retained size q.outBuffA = retained size [curr] ++ retained size rest := by
    rw [← retained_append, List.singleton_append, queue]
  generalize q.release = q' at releases
  cases releases with
  | restarted static met =>
      have same : retained size rest = retained size q.outBuffA := by
        rw [parts, retained_static static, List.nil_append]
      exact h.same_buffers id rfl rfl same
  | passed static apart =>
      have same : retained size rest = retained size q.outBuffA := by
        rw [parts, retained_static static, List.nil_append]
      exact h.same_buffers h.inside rfl rfl same
  | stored dynamic =>
      refine h.moved h.inside rfl ?_
      simp only [heapBuffers, parts, retained_dynamic dynamic]
      rw [List.append_assoc]

/-! ### Reset -/

theorem reset (h : Ledger q gone) (releaseDynamicBuffers : Bool) :
    Ledger (q.reset releaseDynamicBuffers)
      (gone ++ if releaseDynamicBuffers then q.heapBuffers else []) := by
  refine ⟨id, ?_⟩
  have balance := h.balance
  cases releaseDynamicBuffers with
  | true => simpa [WriteBuffQueue.reset, heapBuffers, retained] using balance
  | false => simpa [WriteBuffQueue.reset, heapBuffers, retained] using balance

end Ledger

/-! ## From the constructor to the destructor -/

inductive LifeCall where
  | allocate (length : Nat)
  | commit (length : Nat)
  | pop
  | release
  | reset (releaseDynamicBuffers : Bool)
  deriving DecidableEq, Repr

structure Life (size : Nat) where
  queue : WriteBuffQueue size
  /-- Whether there is an allocation which has not been committed. -/
  uncommitted : Bool
  /-- The pointers which have gone to `delete[]`. -/
  deleted : List WritePtr

namespace Life

def start (size : Nat) : Life size := ⟨WriteBuffQueue.init size, false, []⟩

/-- A call, or `none` for a second allocation. `Reset` leaves no allocation to be committed. -/
def step (s : Life size) : LifeCall → Option (Life size)
  | .allocate length =>
      if s.uncommitted then
        none
      else
        let (ret, queue) := s.queue.allocate length
        some { s with queue := queue, uncommitted := ret.isSome }
  | .commit length => some { s with queue := s.queue.commit length, uncommitted := false }
  | .pop => some { s with queue := s.queue.pop.2 }
  | .release => some { s with queue := s.queue.release }
  | .reset releaseDynamicBuffers =>
      some {
        queue := s.queue.reset releaseDynamicBuffers
        uncommitted := false
        deleted := s.deleted ++ if releaseDynamicBuffers then s.queue.deletes else [] }

/-- All deletions, those of the destructor included. -/
def destroy (s : Life size) : List WritePtr := s.deleted ++ s.queue.deletes

/-- In how many places a heap buffer is, with those where it has been deleted. -/
def places (s : Life size) (id : Nat) : Nat :=
  s.queue.outBuffA.countP (fun b => b.buff = ⟨.heap id, 0⟩) +
    s.queue.freeBuffList.countP (fun d => d.buff = ⟨.heap id, 0⟩) +
    s.deleted.count ⟨.heap id, 0⟩

/-- The heap buffers have one owner each, which knows their size, and are deleted once. -/
structure OneOwner (s : Life size) : Prop where
  once : ∀ id < s.queue.heapSizes.length, s.places id = 1
  queued : ∀ b ∈ s.queue.outBuffA, ∀ id, b.buff.block = .heap id →
    b.buff.off = 0 ∧ s.queue.heapSizes[id]? = some b.allocLength
  stored : ∀ d ∈ s.queue.freeBuffList,
    ∃ id, d.buff = ⟨.heap id, 0⟩ ∧ s.queue.heapSizes[id]? = some d.length
  destroyed : s.destroy.Perm
    ((List.range s.queue.heapSizes.length).map fun id => ⟨.heap id, 0⟩)

/-- What has been deleted, with the sizes. -/
def Kept (s : Life size) : Prop :=
  ∃ gone, s.deleted = gone.map DynBuffer.buff ∧ Ledger s.queue gone

theorem step_kept (s : Life size) (c : LifeCall) (t : Life size) (kept : s.Kept)
    (taken : s.step c = some t) : t.Kept := by
  obtain ⟨gone, deleted, ledger⟩ := kept
  cases c with
  | allocate length =>
      obtain ⟨-, taken⟩ := Option.ite_none_left_eq_some.mp taken
      obtain rfl := Option.some.inj taken
      exact ⟨gone, deleted, ledger.allocate length⟩
  | commit length =>
      obtain rfl := Option.some.inj taken
      exact ⟨gone, deleted, ledger.commit length⟩
  | pop =>
      obtain rfl := Option.some.inj taken
      exact ⟨gone, deleted, ledger.pop⟩
  | release =>
      obtain rfl := Option.some.inj taken
      exact ⟨gone, deleted, ledger.release⟩
  | reset releaseDynamicBuffers =>
      obtain rfl := Option.some.inj taken
      refine ⟨_, ?_, ledger.reset releaseDynamicBuffers⟩
      rw [List.map_append, ← deleted]
      cases releaseDynamicBuffers with
      | true => rw [if_pos rfl, if_pos rfl, deletes_eq]
      | false => rfl

/-- A heap buffer in the queue is one which `Reset` would retain. -/
theorem mem_retained {b : Buffer} {bs : List Buffer} {id : Nat} (member : b ∈ bs)
    (block : b.buff.block = .heap id) : ⟨b.buff, b.allocLength⟩ ∈ retained size bs := by
  apply List.mem_map.mpr
  refine ⟨b, List.mem_filter.mpr ⟨member, ?_⟩, rfl⟩
  rw [isStaticBuffer_heap block, Bool.not_false]

theorem count_retained (bs : List Buffer) (id : Nat) :
    ((retained size bs).map DynBuffer.buff).count ⟨.heap id, 0⟩ =
      bs.countP fun b => b.buff = ⟨.heap id, 0⟩ := by
  induction bs with
  | nil => rfl
  | cons b rest ih =>
      rw [← List.singleton_append, retained_append, List.map_append, List.count_append,
        List.countP_append, ih]
      apply congrArg (· + _)
      cases static : isStaticBuffer size b with
      | true =>
          rw [retained_static static, List.map_nil, List.count_nil, List.countP_singleton, if_neg]
          intro same
          have arena := arena_of_static static
          rw [of_decide_eq_true same] at arena
          cases arena
      | false =>
          rw [retained_dynamic static, List.map_singleton, List.count_singleton, List.countP_singleton]
          simp only [beq_iff_eq, decide_eq_true_eq]

theorem Kept.oneOwner {s : Life size} (kept : s.Kept) : s.OneOwner := by
  obtain ⟨gone, deleted, ledger⟩ := kept
  have known : ∀ d ∈ s.queue.heapBuffers,
      ∃ id, d.buff = ⟨.heap id, 0⟩ ∧ s.queue.heapSizes[id]? = some d.length := by
    intro d member
    exact mem_created.mp (ledger.balance.mem_iff.mp (List.mem_append_right gone member))
  have destroyed : s.destroy.Perm
      ((List.range s.queue.heapSizes.length).map fun id => ⟨.heap id, 0⟩) := by
    have perm := ledger.balance.map DynBuffer.buff
    rw [created_buff, List.map_append] at perm
    rw [destroy, deleted, deletes_eq]
    exact perm
  refine ⟨?_, ?_, ?_, destroyed⟩
  · intro id inside
    have nodup : ((List.range s.queue.heapSizes.length).map fun id =>
        (⟨.heap id, 0⟩ : WritePtr)).Nodup := by
      apply List.Nodup.map _ List.nodup_range
      intro i j same
      exact WriteBlock.heap.inj (congrArg Ptr.block same)
    have count := destroyed.count_eq ⟨.heap id, 0⟩
    rw [List.count_eq_one_of_mem nodup (List.mem_map.mpr ⟨id, List.mem_range.mpr inside, rfl⟩),
      destroy, deletes_eq, heapBuffers, List.map_append, List.count_append, List.count_append,
      count_retained] at count
    have stored : (s.queue.freeBuffList.map DynBuffer.buff).count ⟨.heap id, 0⟩ =
        s.queue.freeBuffList.countP fun d => d.buff = ⟨.heap id, 0⟩ := by
      rw [List.count, List.countP_map]
      apply List.countP_congr
      intro d member
      simp only [Function.comp, beq_iff_eq, decide_eq_true_eq]
    rw [places]
    omega
  · intro b member id block
    obtain ⟨i, buff, size_⟩ := known _ (List.mem_append_right _ (mem_retained member block))
    simp only at buff size_
    rw [buff] at block
    obtain rfl := WriteBlock.heap.inj block
    rw [buff]
    exact ⟨rfl, size_⟩
  · intro d member
    exact known d (List.mem_append_left _ member)

/-- Whatever the calls, each heap buffer has one owner until it is deleted, and the destructor
    deletes those which are left. -/
theorem one_owner {calls : List LifeCall} {s : Life size} (run : exec step (start size) calls = some s) :
    s.OneOwner :=
  Kept.oneOwner (invariant step_kept ⟨[], rfl, Ledger.init size⟩ run)

/-- The first buffer is committed with no bytes and used again; `Reset(true)` deletes it, and the
    destructor the one behind it. -/
def fourAllocations : List LifeCall :=
  [.allocate 300, .commit 0, .allocate 5, .commit 5, .allocate 9, .reset false, .allocate 8,
    .commit 8, .pop, .release, .reset true, .allocate 600]

theorem one_owner_four : ∃ s, exec step (start 4) fourAllocations = some s ∧
    s.queue.heapSizes = [512, 256, 768] ∧ s.deleted = [⟨.heap 0, 0⟩, ⟨.heap 1, 0⟩] ∧
    s.queue.outBuffA.map Buffer.buff = [⟨.heap 2, 0⟩] ∧ s.OneOwner := by
  have run : exec step (start 4) fourAllocations = some _ := rfl
  exact ⟨_, rfl, by decide, by decide, by decide, one_owner run⟩

end Life

end MiniWebSrv.WriteBuffQueue
