import Mathlib.Data.List.Forall2
import MiniWebSrv.Common.Bytes
import MiniWebSrv.Common.WriteBuffQueueShape
import MiniWebSrv.Lib.Run

/-! # The write queue is a byte FIFO

A `Session` is a queue in use: the queue itself, the bytes behind its pointers, and a
record of what went in and what came out. The callers fill an allocation and commit it
before they allocate or pop again; `Release` may come at any time.
-/

namespace MiniWebSrv.WriteBuffQueue

open Word Run

variable {size : Nat}

/-- A range returned by `Pop`, with the bytes which were in it at that moment. -/
structure Chunk where
  region : Region WriteBlock
  bytes : List Byte

/-- One call of the queue's user. `fill` stands for the user's stores into the allocation. -/
inductive Call where
  | allocate (length : Nat)
  | fill (data : List Byte)
  | commit (length : Nat)
  | pop
  | release

structure Session (size : Nat) where
  queue : WriteBuffQueue size
  mem : Mem WriteBlock Byte
  /-- The range allocated and not yet committed, with its data once it is filled. -/
  current : Option (Region WriteBlock × Option (List Byte))
  /-- All bytes committed, in commit order. -/
  committed : List Byte
  /-- The bytes of the ranges popped and released. -/
  released : List Byte
  /-- The ranges popped and not yet released. -/
  outstanding : List Chunk

namespace Session

def start (queue : WriteBuffQueue size) (mem : Mem WriteBlock Byte) : Session size where
  queue := queue
  mem := mem
  current := none
  committed := []
  released := []
  outstanding := []

/-- Everything that `Pop` has returned. -/
def popped (s : Session size) : List Byte := s.released ++ s.outstanding.flatMap Chunk.bytes

/-- One call, or `none` where the protocol does not allow it. -/
def step (s : Session size) : Call → Option (Session size)
  | .allocate length =>
      if s.current.isNone ∧ 0 < length ∧ length + 255 < size32 then
        match s.queue.allocate length with
        | (some ret, queue) => some { s with queue := queue, current := some (⟨ret, length⟩, none) }
        | (none, _) => none
      else
        none
  | .fill data =>
      match s.current with
      | some (region, _) =>
          if data.length = region.len then
            some { s with mem := s.mem.write region.ptr data, current := some (region, some data) }
          else
            none
      | none => none
  | .commit length =>
      match s.current with
      | some (region, some data) =>
          if length ≤ region.len ∨ length = max32 then
            some { s with
              queue := s.queue.commit length
              current := none
              committed := s.committed ++ data.take length }
          else
            none
      | _ => none
  | .pop =>
      if s.current.isNone then
        match s.queue.pop with
        | (some (ptr, len), queue) =>
            some { s with
              queue := queue
              outstanding := s.outstanding ++ [⟨⟨ptr, len⟩, s.mem.read ptr len⟩] }
        | (none, queue) => some { s with queue := queue }
      else
        none
  | .release =>
      match s.outstanding with
      | [] => some { s with queue := s.queue.release }
      | c :: rest =>
          some { s with
            queue := s.queue.release
            released := s.released ++ c.bytes
            outstanding := rest }

/-! ## The invariant -/

/-- The bytes of a buffer, as they are now. -/
def contents (mem : Mem WriteBlock Byte) (b : Buffer) : List Byte := mem.read b.buff b.length

/-- The bytes waiting in the queue. Of an uncommitted buffer only the part which was
    pending before the allocation counts. -/
def waiting (mem : Mem WriteBlock Byte) (ps : List Buffer) (last : Option Buffer) (uncommitted : Nat) :
    List Byte :=
  ps.flatMap (contents mem) ++
    last.toList.flatMap fun b => mem.read b.buff (b.length - uncommitted)

/-- A chunk popped is a buffer being written, and its bytes are still there. -/
def Holds (mem : Mem WriteBlock Byte) (c : Chunk) (w : Buffer) : Prop :=
  c.region = w.region ∧ contents mem w = c.bytes

/-- The record of the session agrees with the queue and the memory. -/
structure Tracks (s : Session size) (ws ps : List Buffer) (last : Option Buffer) : Prop where
  shape : Shape s.queue ws ps last
  outstanding : List.Forall₂ (Holds s.mem) s.outstanding ws
  committed : s.committed = s.popped ++ waiting s.mem ps last s.queue.lastAllocLength
  closed : s.current = none ↔ last = none
  current : ∀ region filled b, s.current = some (region, filled) → last = some b →
    region = ⟨b.buff.add (b.length - s.queue.lastAllocLength), s.queue.lastAllocLength⟩ ∧
      ∀ data ∈ filled, s.mem.read region.ptr region.len = data

variable {s : Session size} {ws ps : List Buffer} {last : Option Buffer}

namespace Tracks

/-- The bytes of the outstanding chunks are those of the buffers being written. -/
theorem chunks {mem : Mem WriteBlock Byte} {cs : List Chunk}
    (h : List.Forall₂ (Holds mem) cs ws) : ∀ c ∈ cs,
      mem.read c.region.ptr c.region.len = c.bytes := by
  induction h with
  | nil => simp
  | cons same _ ih =>
      intro c member
      rcases List.mem_cons.mp member with rfl | member
      · rw [same.1]
        exact same.2
      · exact ih c member

/-- Where the buffers being written are left alone, their chunks are too. -/
theorem keeps {mem mem' : Mem WriteBlock Byte} {cs : List Chunk}
    (h : List.Forall₂ (Holds mem) cs ws) (same : ∀ w ∈ ws, contents mem' w = contents mem w) :
    List.Forall₂ (Holds mem') cs ws := by
  induction h with
  | nil => exact .nil
  | cons holds _ ih =>
      exact .cons ⟨holds.1, (same _ (by simp)).trans holds.2⟩
        (ih fun w member => same w (by simp [member]))

theorem allocate {length : Nat} (h : Tracks s ws ps none) (pos : 0 < length)
    (range : Roundable s.queue length) :
    ∃ ret q' ps' b, s.queue.allocate length = (some ret, q') ∧
      Tracks { s with queue := q', current := some (⟨ret, length⟩, none) } ws ps' (some b) := by
  obtain ⟨ret, q', ps', b, run, length_, shape, allocated⟩ := h.shape.allocate_spec pos range
  refine ⟨ret, q', ps', b, run, shape, h.outstanding, ?_, by simp, ?_⟩
  · have same : waiting s.mem ps' (some b) length = waiting s.mem ps none s.queue.lastAllocLength := by
      rcases allocated.before with ⟨rfl, whole⟩ | ⟨p, rfl, buff, longer⟩
      · simp [waiting, whole]
      · simp [waiting, contents, buff, longer]
    simp only [popped, length_, same]
    exact h.committed
  · rintro region filled c ⟨rfl, rfl⟩ ⟨rfl⟩
    exact ⟨by rw [length_, allocated.ret], by simp⟩

theorem fill {b : Buffer} {region : Region WriteBlock} {filled : Option (List Byte)}
    {data : List Byte} (h : Tracks s ws ps (some b)) (current : s.current = some (region, filled))
    (length : data.length = region.len) :
    Tracks { s with mem := s.mem.write region.ptr data, current := some (region, some data) }
      ws ps (some b) := by
  obtain ⟨rfl, -⟩ := h.current _ _ b current rfl
  have le := (h.shape.uncommitted b rfl).le
  simp only at length
  have apart := h.shape.disjoint
  rw [h.shape.queue, List.pairwise_append] at apart
  -- the stores go to the end of the last buffer, apart from all the others
  have others : ∀ c ∈ ws ++ ps, contents (s.mem.write
      (b.buff.add (b.length - s.queue.lastAllocLength)) data) c = contents s.mem c := by
    intro c member
    have far := (apart.2.2 c member b (by simp)).symm.part
      (b.length - s.queue.lastAllocLength) s.queue.lastAllocLength
      (by simp only [Buffer.region]; omega)
    exact s.mem.read_write_of_disjoint (by rw [length]; exact far.symm)
  have front : (s.mem.write (b.buff.add (b.length - s.queue.lastAllocLength)) data).read b.buff
      (b.length - s.queue.lastAllocLength) =
      s.mem.read b.buff (b.length - s.queue.lastAllocLength) :=
    s.mem.read_write_of_disjoint (Or.inr (Or.inl (by simp)))
  refine ⟨h.shape, ?_, ?_, by simp, ?_⟩
  · exact keeps h.outstanding fun w member => others w (by simp [member])
  · have same : ps.flatMap (contents (s.mem.write
        (b.buff.add (b.length - s.queue.lastAllocLength)) data)) = ps.flatMap (contents s.mem) :=
      List.flatMap_congr fun c member => others c (by simp [member])
    have committed := h.committed
    simp only [waiting, Option.toList_some, List.flatMap_cons, List.flatMap_nil] at committed ⊢
    simp only [popped, same, front] at committed ⊢
    exact committed
  · rintro region' filled' c ⟨rfl, rfl⟩ ⟨rfl⟩
    refine ⟨rfl, ?_⟩
    rintro data' ⟨rfl⟩
    simp only
    rw [← length]
    exact s.mem.read_write_self _ _

theorem commit {b : Buffer} {region : Region WriteBlock} {data : List Byte} (length : Nat)
    (h : Tracks s ws ps (some b)) (current : s.current = some (region, some data)) :
    Tracks { s with
        queue := s.queue.commit length
        current := none
        committed := s.committed ++ data.take length }
      ws (ps ++ Shape.committed s.queue b length) none := by
  obtain ⟨rfl, filled⟩ := h.current _ _ b current rfl
  have filled : s.mem.read (b.buff.add (b.length - s.queue.lastAllocLength))
      s.queue.lastAllocLength = data := filled data rfl
  refine ⟨h.shape.commit_spec length, h.outstanding, ?_, by simp, by simp⟩
  have kept : (Shape.committed s.queue b length).flatMap (contents s.mem) =
      s.mem.read b.buff (b.length - s.queue.lastAllocLength) ++ data.take length := by
    have bytes : data.take length = s.mem.read (b.buff.add (b.length - s.queue.lastAllocLength))
        (min length s.queue.lastAllocLength) := by
      rw [← s.mem.take_read _ (Nat.min_le_right _ _), filled, ← List.take_take]
      rw [List.take_of_length_le (i := s.queue.lastAllocLength) (by simp [← filled])]
    rw [bytes, ← s.mem.read_add]
    simp only [Shape.committed]
    split
    · rename_i nothing
      simp [nothing]
    · simp [contents]
  have committed := h.committed
  simp only [waiting, Option.toList_some, Option.toList_none, List.flatMap_cons, List.flatMap_nil,
    List.append_nil, List.flatMap_append, kept, popped] at committed ⊢
  simp only [committed, List.append_assoc]

theorem pop_empty (h : Tracks s ws [] none) : s.queue.pop = (none, s.queue) := h.shape.pop_empty

theorem pop {p : Buffer} {rest : List Buffer} (h : Tracks s ws (p :: rest) none) :
    ∃ q', s.queue.pop = (some (p.buff, p.length), q') ∧
      Tracks { s with
          queue := q'
          outstanding := s.outstanding ++ [⟨⟨p.buff, p.length⟩, s.mem.read p.buff p.length⟩] }
        (ws ++ [{ p with state := .writing }]) rest none := by
  obtain ⟨q', run, length_, shape⟩ := h.shape.pop_spec
  refine ⟨q', run, shape, List.rel_append h.outstanding (.cons ⟨rfl, rfl⟩ .nil), ?_, ?_, by simp⟩
  · have committed := h.committed
    simp only [popped, waiting, contents, Option.toList_none, List.flatMap_append,
      List.flatMap_cons, List.flatMap_nil, List.append_nil, List.append_assoc] at committed ⊢
    exact committed
  · exact h.closed

theorem release {w : Buffer} {c : Chunk} {rest : List Chunk} (h : Tracks s (w :: ws) ps last)
    (outstanding : s.outstanding = c :: rest) :
    Tracks { s with
        queue := s.queue.release
        released := s.released ++ c.bytes
        outstanding := rest }
      ws ps last := by
  obtain ⟨length_, shape⟩ := h.shape.release_spec
  have tail := h.outstanding
  rw [outstanding] at tail
  refine ⟨shape, (List.forall₂_cons.mp tail).2, ?_, h.closed, ?_⟩
  · have committed := h.committed
    simp only [popped, outstanding, List.flatMap_cons, length_, List.append_assoc] at committed ⊢
    exact committed
  · intro region filled b current isLast
    rw [length_]
    exact h.current region filled b current isLast

end Tracks

/-- What holds between two calls. -/
def Valid (s : Session size) : Prop := ∃ ws ps last, Tracks s ws ps last

theorem step_valid (s : Session size) (c : Call) (s' : Session size) (valid : s.Valid)
    (taken : s.step c = some s') : s'.Valid := by
  obtain ⟨ws, ps, last, h⟩ := valid
  cases c with
  | allocate length =>
      by_cases allowed : s.current.isNone ∧ 0 < length ∧ length + 255 < size32
      case neg => simp only [step, if_neg allowed, reduceCtorEq] at taken
      obtain rfl := h.closed.mp (Option.isNone_iff_eq_none.mp allowed.1)
      obtain ⟨ret, q', ps', b, run, next⟩ := h.allocate allowed.2.1 fun _ => allowed.2.2
      simp only [step, if_pos allowed, run, Option.some.injEq] at taken
      exact ⟨ws, ps', some b, taken ▸ next⟩
  | fill data =>
      cases current : s.current with
      | none => simp [step, current] at taken
      | some open_ =>
          obtain ⟨region, filled⟩ := open_
          by_cases length : data.length = region.len
          case neg => simp [step, current, length] at taken
          simp only [step, current, if_pos length, Option.some.injEq] at taken
          cases last with
          | none => simp [h.closed.mpr rfl] at current
          | some b => exact ⟨ws, ps, some b, taken ▸ h.fill current length⟩
  | commit length =>
      cases current : s.current with
      | none => simp [step, current] at taken
      | some open_ =>
          obtain ⟨region, _ | data⟩ := open_
          · simp [step, current] at taken
          · by_cases allowed : length ≤ region.len ∨ length = max32
            case neg => simp [step, current, allowed] at taken
            simp only [step, current, if_pos allowed, Option.some.injEq] at taken
            cases last with
            | none => simp [h.closed.mpr rfl] at current
            | some b => exact ⟨ws, _, none, taken ▸ h.commit length current⟩
  | pop =>
      by_cases idle : s.current.isNone
      case neg => simp [step, idle] at taken
      obtain rfl := h.closed.mp (Option.isNone_iff_eq_none.mp idle)
      cases ps with
      | nil =>
          simp only [step, if_pos idle, h.pop_empty, Option.some.injEq] at taken
          exact ⟨ws, [], none, taken ▸ h⟩
      | cons p rest =>
          obtain ⟨q', run, next⟩ := h.pop
          simp only [step, if_pos idle, run, Option.some.injEq] at taken
          exact ⟨_, rest, none, taken ▸ next⟩
  | release =>
      cases outstanding : s.outstanding with
      | nil =>
          obtain rfl : ws = [] := List.forall₂_nil_left_iff.mp (outstanding ▸ h.outstanding)
          simp only [step, outstanding, h.shape.release_nothing, Option.some.injEq] at taken
          subst taken
          refine ⟨[], ps, last, h.shape, .nil, ?_, h.closed, h.current⟩
          simpa only [popped, outstanding] using h.committed
      | cons c rest =>
          cases ws with
          | nil =>
              have := h.outstanding
              simp [outstanding] at this
          | cons w ws =>
              simp only [step, outstanding, Option.some.injEq] at taken
              exact ⟨ws, ps, last, taken ▸ h.release outstanding⟩

theorem start_valid (pos : 0 < size) {q : WriteBuffQueue size} (empty : Empty q)
    (mem : Mem WriteBlock Byte) : (start q mem).Valid :=
  ⟨[], [], none, empty.shape pos, .nil, rfl, by simp [start], by simp [start]⟩

/-! ## One message -/

/-- A session which goes on with a queue in use. -/
def resume (queue : WriteBuffQueue size) (mem : Mem WriteBlock Byte) (ws ps : List Buffer) :
    Session size where
  queue := queue
  mem := mem
  current := none
  committed := ws.flatMap (contents mem) ++ waiting mem ps none queue.lastAllocLength
  released := []
  outstanding := ws.map fun w => ⟨w.region, contents mem w⟩

theorem resume_tracks {q : WriteBuffQueue size} (mem : Mem WriteBlock Byte)
    (shape : Shape q ws ps none) : Tracks (resume q mem ws ps) ws ps none := by
  have chunks : List.Forall₂ (Holds mem) (ws.map fun w => ⟨w.region, contents mem w⟩) ws := by
    generalize ws = bs
    induction bs with
    | nil => exact .nil
    | cons w rest ih => exact .cons ⟨rfl, rfl⟩ ih
  have bytes : ∀ bs : List Buffer, (bs.map fun w => (⟨w.region, contents mem w⟩ : Chunk)).flatMap
      Chunk.bytes = bs.flatMap (contents mem) := by
    intro bs
    rw [List.flatMap_map]
  refine ⟨shape, chunks, ?_, by simp [resume], by simp [resume]⟩
  simp only [resume, popped, List.nil_append, bytes]

end Session

/-- The bytes which have been committed and not popped. -/
def pendingBytes (q : WriteBuffQueue size) (mem : Mem WriteBlock Byte) : List Byte :=
  (q.outBuffA.drop q.firstPendingI).flatMap (Session.contents mem)

theorem pendingBytes_eq {q : WriteBuffQueue size} {ws ps : List Buffer} (mem : Mem WriteBlock Byte)
    (shape : Shape q ws ps none) :
    q.pendingBytes mem = Session.waiting mem ps none q.lastAllocLength := by
  simp only [pendingBytes, Session.waiting, shape.queue, shape.first, Option.toList_none,
    List.append_nil, List.drop_left, List.flatMap_nil]

/-- Bytes which are stored into an allocation and committed are pending behind those which have been
    before. -/
theorem Idle.push_bytes {q : WriteBuffQueue size} (idle : Idle q) (mem : Mem WriteBlock Byte)
    {data : List Byte} (pos : 0 < data.length) (short : data.length ≤ max32)
    (range : Roundable q data.length) :
    ∃ ret q', q.allocate data.length = (some ret, q') ∧
      (match ret.block with
        | .arena => ret.off + data.length ≤ size
        | .heap id => ∃ n, q'.heapSizes[id]? = some n ∧ ret.off + data.length ≤ n) ∧
      (q'.commit max32).pendingBytes (mem.write ret data) = q.pendingBytes mem ++ data := by
  obtain ⟨ws, ps, shape⟩ := idle
  obtain ⟨ret, q', ps', b, run, length_, shape', allocated⟩ := shape.allocate_spec pos range
  obtain ⟨ret', q'', ps'', b', run', opened⟩ := (Session.resume_tracks mem shape).allocate pos range
  have same : (some ret', q'') = (some ret, q') := run'.symm.trans run
  obtain ⟨⟨rfl⟩, rfl⟩ := Prod.mk.inj same
  have stored := opened.fill rfl (rfl : data.length = data.length)
  have committed := stored.commit max32 rfl
  refine ⟨_, _, run, allocated.inside shape', ?_⟩
  have before := (Session.resume_tracks mem shape).committed
  have after := committed.committed
  simp only [List.take_of_length_le short] at after
  rw [before] at after
  have whole : (Session.resume q mem ws ps).popped ++ (q.pendingBytes mem ++ data) =
      (Session.resume q mem ws ps).popped ++
        (q''.commit max32).pendingBytes (mem.write ret data) := by
    rw [pendingBytes_eq mem shape, pendingBytes_eq _ committed.shape, ← List.append_assoc]
    exact after
  exact (List.append_cancel_left whole).symm

namespace Session

variable {s : Session size} {ws ps : List Buffer} {last : Option Buffer}

/-! ## What the queue is good for -/

/-- Popping until the queue is empty yields all the pending bytes. -/
theorem Tracks.drain (h : Tracks s ws ps none) :
    ∃ n t, exec step s (List.replicate n .pop) = some t ∧ t.queue.pop.1 = none ∧
      t.popped = s.committed := by
  induction ps generalizing s ws with
  | nil =>
      refine ⟨0, s, rfl, by rw [h.pop_empty], ?_⟩
      simpa [waiting] using h.committed.symm
  | cons p rest ih =>
      obtain ⟨q', run, next⟩ := h.pop
      obtain ⟨n, t, more, dry, all⟩ := ih next
      refine ⟨n + 1, t, ?_, dry, all⟩
      rw [List.replicate_succ, exec_cons]
      have idle : s.current.isNone := by rw [h.closed.mpr rfl, Option.isNone_none]
      simp only [step, if_pos idle, run, Option.bind_some]
      exact more

/-- The new bytes have room of their own. -/
theorem Tracks.room {length : Nat} (h : Tracks s ws ps none) (pos : 0 < length)
    (range : length + 255 < size32) :
    ∃ ret q', s.queue.allocate length = (some ret, q') ∧
      (match ret.block with
        | .arena => ret.off + length ≤ size
        | .heap id => ∃ n, q'.heapSizes[id]? = some n ∧ ret.off + length ≤ n) ∧
      ∀ b ∈ s.queue.outBuffA, b.region.Disjoint ⟨ret, length⟩ := by
  obtain ⟨ret, q', ps', b, run, length_, shape, allocated⟩ :=
    h.shape.allocate_spec pos fun _ => range
  have le := allocated.le
  refine ⟨ret, q', run, allocated.inside shape, fun c member => ?_⟩
  have apart := shape.disjoint
  rw [shape.queue, List.pairwise_append] at apart
  have others : ∀ c ∈ ws ++ ps', c.region.Disjoint ⟨ret, length⟩ := by
    intro c member
    rw [allocated.ret]
    exact ((apart.2.2 c member b (by simp)).symm.part _ _ (by simp only [Buffer.region]; omega)).symm
  rw [h.shape.queue, Option.toList_none, List.append_nil] at member
  rcases allocated.before with ⟨rfl, -⟩ | ⟨p, rfl, buff, longer⟩
  · exact others c member
  · rw [← List.append_assoc] at member
    rcases List.mem_append.mp member with member | member
    · exact others c member
    · -- the buffer which the new bytes were appended to
      obtain rfl := List.mem_singleton.mp member
      refine Or.inr (Or.inl ?_)
      simp only [Buffer.region, allocated.ret, buff, longer, Ptr.add_off]
      omega

/-- What a byte FIFO owes its user. -/
structure Fifo (s : Session size) : Prop where
  inOrder : s.popped <+: s.committed
  stable : ∀ c ∈ s.outstanding, s.mem.read c.region.ptr c.region.len = c.bytes
  complete : s.current = none → ∃ n t, exec step s (List.replicate n .pop) = some t ∧
    t.queue.pop.1 = none ∧ t.popped = s.committed
  room : ∀ length, s.current = none → 0 < length → length + 255 < size32 →
    ∃ ret q', s.queue.allocate length = (some ret, q') ∧
      (match ret.block with
        | .arena => ret.off + length ≤ size
        | .heap id => ∃ n, q'.heapSizes[id]? = some n ∧ ret.off + length ≤ n) ∧
      ∀ b ∈ s.queue.outBuffA, b.region.Disjoint ⟨ret, length⟩

/-- Whatever the calls, the queue is a byte FIFO. -/
theorem exec_fifo (pos : 0 < size) {q : WriteBuffQueue size} (empty : Empty q)
    (mem : Mem WriteBlock Byte) (calls : List Call) {s : Session size}
    (run : exec step (start q mem) calls = some s) : s.Fifo := by
  obtain ⟨ws, ps, last, h⟩ := Run.invariant step_valid (start_valid pos empty mem) run
  have open_ : s.current = none → Tracks s ws ps none := fun idle => h.closed.mp idle ▸ h
  exact {
    inOrder := ⟨_, h.committed.symm⟩
    stable := Tracks.chunks h.outstanding
    complete := fun idle => (open_ idle).drain
    room := fun _ idle pos range => (open_ idle).room pos range }

/-- In an arena of eight bytes the third allocation skips the two bytes at the end. -/
def wrappingCalls : List Call :=
  [.allocate 4, .fill [1, 2, 3, 4], .commit max32, .pop, .allocate 3, .fill [5, 6, 7], .commit 2,
    .release, .allocate 3, .fill [8, 9, 10], .commit 3, .pop, .pop]

theorem exec_fifo_wrapping :
    ∃ s, exec step (start (init 8) fun _ _ => 0) wrappingCalls = some s ∧
      s.outstanding.map Chunk.region = [⟨⟨.arena, 4⟩, 2⟩, ⟨⟨.arena, 0⟩, 3⟩] ∧
      s.popped = [1, 2, 3, 4, 5, 6, 8, 9, 10] ∧ s.Fifo :=
  ⟨_, rfl, rfl, rfl, exec_fifo (by decide) (empty_init 8) (fun _ _ => 0) wrappingCalls rfl⟩

end Session

end MiniWebSrv.WriteBuffQueue
