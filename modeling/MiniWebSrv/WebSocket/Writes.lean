import MiniWebSrv.Lib.Run
import MiniWebSrv.WebSocket.Step

/-! # Outstanding operations

`SafeStates` has one bit for reading and one for writing. The first is right in every run.
The second is right as long as `StartAsyncWrite` never finds two buffers to write, since
its loop starts a write for each, and the first completion sets the bit again. The posted
handlers have no bit, so a connection which looks idle may be deleted under them.
-/

namespace MiniWebSrv.WebSocket.Connection

open Word Run WriteBuffQueue

/-- The event can happen: completions belong to operations started, and a read gets no more
    bytes than it has room for. -/
def Enabled (c : Connection) : Event → Prop
  | .onRead (some data) => 0 < c.reads ∧ data.length ≤ c.readBuff.freeLength
  | .onRead none => 0 < c.reads
  | .onWrite i _ => i < c.writes.length
  | .posted p => p ∈ c.posts
  | _ => True

instance (c : Connection) : (e : Event) → Decidable (Enabled c e)
  | .onRead (some _) => inferInstanceAs (Decidable (_ ∧ _))
  | .onRead none => inferInstanceAs (Decidable (_ < _))
  | .onWrite _ _ => inferInstanceAs (Decidable (_ < _))
  | .posted _ => inferInstanceAs (Decidable (_ ∈ _))
  | .onStep _ | .stop | .allocate _ _ | .deallocate | .send | .sendPing | .close _ =>
      inferInstanceAs (Decidable True)

def step (c : Connection) (e : Event) : Option Connection :=
  if Enabled c e then c.handle e else none

/-! ## The writes an event starts -/

/-- The length of the control frame which the event makes the connection send. -/
def replyLength (c : Connection) : Event → Option Nat
  | .onRead (some data) =>
      match (c.received data).incoming with
      | some .answer => some 2
      | some .shut => if c.myHandler then some 4 else none
      | some (.refuse _) => if c.myHandler then some 4 else none
      | _ => none
  | .stop => if c.myHandler then some 4 else none
  | _ => none

/-- The number of buffers waiting when a control frame of that length has joined the queue. -/
def waitingWith (c : Connection) (reply : Option Nat) : Nat :=
  match reply with
  | some length => ((c.writeBuff.allocate length).2.commit length).unpopped
  | none => 0

/-- The number of buffers which the loop of `StartAsyncWrite` finds when the event enters it. -/
def started (c : Connection) : Event → Nat
  | .onWrite _ error => if error then 0 else c.writeBuff.release.unpopped
  | .posted _ => if c.safeWrite then c.writeBuff.unpopped else 0
  | e => if c.safeWrite then c.waitingWith (c.replyLength e) else 0

/-- The connection after the completion which the event stands for. -/
def completed (c : Connection) : Event → Connection
  | .onWrite i _ => { c with writes := c.writes.eraseIdx i, safeWrite := true }
  | _ => c

/-- `n` more writes are under way in `d` than in `c`, and the bit follows. -/
structure Starts (n : Nat) (c d : Connection) : Prop where
  writes : d.writes.length = c.writes.length + n
  safe : d.safeWrite = (c.safeWrite && decide (n = 0))

theorem Starts.none (c : Connection) : Starts 0 c c := ⟨rfl, by simp⟩

theorem Starts.congr {n : Nat} {b c d e : Connection} (h : Starts n b d)
    (writes : b.writes = c.writes) (safe : b.safeWrite = c.safeWrite) (writes' : e.writes = d.writes)
    (safe' : e.safeWrite = d.safeWrite) : Starts n c e :=
  ⟨by rw [writes', h.writes, writes], by rw [safe', h.safe, safe]⟩

theorem Starts.parsed {n : Nat} {c d e : Connection} (h : Starts n c d) (parsed : Parsed d e) :
    Starts n c e := by
  obtain ⟨_, _, _, _, rfl⟩ := parsed
  exact h.congr rfl rfl rfl rfl

theorem startAsyncWrite_starts (c : Connection) :
    Starts (if c.safeWrite then c.writeBuff.unpopped else 0) c c.startAsyncWrite := by
  obtain ⟨ranges, q, same, length⟩ := c.startAsyncWrite_eq
  rw [same, ← length]
  refine ⟨List.length_append, ?_⟩
  cases ranges <;> simp

theorem queued_starts (c : Connection) (length : Nat) (mem : Mem WriteBlock Byte) :
    Starts (if c.safeWrite then ((c.writeBuff.allocate length).2.commit length).unpopped else 0) c
      (c.queued length mem).startAsyncWrite :=
  ((c.queued length mem).startAsyncWrite_starts).congr rfl rfl rfl rfl

theorem Shut.starts {c d : Connection} (shut : Shut c d) :
    Starts (if c.safeWrite then c.waitingWith (if c.myHandler then some 4 else none) else 0) c d := by
  cases shut with
  | closed handler =>
      simp only [handler, Bool.false_eq_true, if_false, waitingWith, ite_self]
      exact .none c
  | told handler reason mem =>
      simp only [handler, if_true, waitingWith]
      exact (((c.call (.onClose reason)).queuedClose reason mem).startAsyncWrite_starts).congr
        rfl rfl rfl rfl

theorem onWrite_starts (c : Connection) (error : Bool) :
    Starts (if error then 0 else c.writeBuff.release.unpopped) { c with safeWrite := true }
      (c.onWrite error) := by
  cases error with
  | true =>
      obtain ⟨_, _, same⟩ := closeHandler_eq { c with safeWrite := true } CloseReason.connError
      simp only [onWrite, if_true, same]
      exact (Starts.none _).congr rfl rfl rfl rfl
  | false =>
      exact (startAsyncWrite_starts
        { c with safeWrite := true, writeBuff := c.writeBuff.release }).congr rfl rfl rfl rfl

theorem read_starts {c c' : Connection} {data : List Byte}
    (read : Read (c.received data) (c.received data).incoming c') :
    Starts (c.started (.onRead (some data))) c c' := by
  simp only [started, replyLength]
  have quiet : ∀ {d : Connection}, Parsed (c.received data) d →
      Starts (if c.safeWrite then c.waitingWith none else 0) c d.startAsyncRead := by
    intro d parsed
    simp only [waitingWith, ite_self]
    exact ((Starts.none (c.received data)).parsed parsed).congr rfl rfl rfl rfl
  have closes : ∀ {d : Connection}, Shut (c.received data) d →
      Starts (if c.safeWrite then c.waitingWith (if c.myHandler then some 4 else none) else 0) c d :=
    fun shut => shut.starts.congr rfl rfl rfl rfl
  generalize (c.received data).incoming = x at read ⊢
  cases read with
  | waits parsed => exact quiet parsed
  | ends reason shut parsed => exact ((closes shut).parsed parsed).congr rfl rfl rfl rfl
  | goesOn reacts =>
      cases reacts with
      | deliver type msg parsed =>
          obtain ⟨_, _, _, _, rfl⟩ := parsed
          simp only [waitingWith, ite_self]
          exact (Starts.none c).congr rfl rfl rfl rfl
      | keep parsed => exact quiet parsed
      | ignore parsed => exact quiet parsed
      | answer mem parsed =>
          have starts := ((c.received data).queued_starts 2 mem).parsed parsed
          exact starts.congr rfl rfl rfl rfl
      | shut shut parsed => exact ((closes shut).parsed parsed).congr rfl rfl rfl rfl
      | refuse _ real parsed => exact absurd rfl real

/-- The events which never write. -/
theorem Starts.silent {c d : Connection} {e : Event} (none_ : c.started e = 0)
    (same : c.completed e = c) (writes : d.writes = c.writes) (safe : d.safeWrite = c.safeWrite) :
    Starts (c.started e) (c.completed e) d := by
  rw [none_, same]
  exact (Starts.none c).congr rfl rfl writes safe

theorem handle_starts {c c' : Connection} {e : Event} (run : c.handle e = some c') :
    Starts (c.started e) (c.completed e) c' := by
  have silent : (if c.safeWrite then c.waitingWith none else 0) = 0 := by
    simp only [waitingWith, ite_self]
  cases e with
  | onRead result =>
      cases result with
      | some data => exact read_starts (handle_onRead run)
      | none =>
          obtain ⟨calls, handler, rfl⟩ := handle_readError run
          exact .silent silent rfl rfl rfl
  | onWrite i error =>
      obtain rfl := Option.some.inj run
      exact onWrite_starts { c with writes := c.writes.eraseIdx i } error
  | onStep stepInterval =>
      obtain rfl := Option.some.inj run
      obtain ⟨_, _, _, same⟩ := c.onStep_eq stepInterval
      exact .silent silent rfl (by rw [same]) (by rw [same])
  | stop => exact (stop_some run).starts
  | allocate type length =>
      obtain ⟨⟨ret, d⟩, allocated, rfl⟩ := Option.map_eq_some_iff.mp run
      obtain ⟨q, mem, rfl⟩ := allocate_eq allocated
      exact .silent silent rfl rfl rfl
  | deallocate =>
      obtain rfl := Option.some.inj run
      exact .silent silent rfl rfl rfl
  | send =>
      obtain rfl := Option.some.inj run
      exact .silent silent rfl rfl rfl
  | sendPing =>
      simp only [handle, sendPing, bind, Option.bind_eq_some_iff, Option.some.injEq] at run
      obtain ⟨⟨sent, d⟩, sends, rfl⟩ := run
      obtain ⟨-, mem, rfl⟩ := sendControlFrame_some sends
      exact .silent silent rfl rfl rfl
  | close reason =>
      simp only [handle, close, bind, Option.bind_eq_some_iff, Option.some.injEq] at run
      obtain ⟨⟨sent, d⟩, sends, rfl⟩ := run
      obtain ⟨-, mem, rfl⟩ := sendCloseInternal_some sends
      exact .silent silent rfl rfl rfl
  | posted p =>
      cases p with
      | write =>
          obtain rfl := Option.some.inj run
          exact (startAsyncWrite_starts { c with posts := c.posts.erase .write }).congr rfl rfl rfl rfl
      | close =>
          obtain rfl := Option.some.inj run
          exact (startAsyncWrite_starts { c with
            posts := c.posts.erase .close, myHandler := false }).congr rfl rfl rfl rfl

/-! ## One write at a time -/

/-- At most one write is under way, and the bit tells whether there is one. -/
structure OneWrite (c : Connection) : Prop where
  atMost : c.writes.length ≤ 1
  bit : c.writes = [] ↔ c.safeWrite = true

/-- `StartAsyncWrite` finds at most one buffer to write. -/
def WritesOne (c : Connection) (e : Event) : Prop := c.started e ≤ 1

theorem completed_oneWrite {c : Connection} {e : Event} (one : OneWrite c) (enabled : Enabled c e) :
    OneWrite (c.completed e) := by
  cases e with
  | onWrite i error =>
      have atMost := one.atMost
      have inside : i < c.writes.length := enabled
      have gone : c.writes.eraseIdx i = [] := by
        apply List.eq_nil_of_length_eq_zero
        rw [List.length_eraseIdx_of_lt inside]
        omega
      exact ⟨by simp [completed, gone], by simp [completed, gone]⟩
  | _ => exact one

/-- A write is only started when there is none, so the event keeps the invariant exactly when
    it starts at most one. -/
theorem step_oneWrite (c : Connection) (e : Event) (c' : Connection) (one : OneWrite c)
    (run : c.step e = some c') : OneWrite c' ↔ WritesOne c e := by
  have enabled : Enabled c e := by
    by_cases enabled : Enabled c e
    · exact enabled
    · simp [step, enabled] at run
  rw [step, if_pos enabled] at run
  obtain ⟨atMost, bit⟩ := completed_oneWrite one enabled
  obtain ⟨writes, safe⟩ := handle_starts run
  constructor
  · rintro ⟨atMost', -⟩
    simp only [WritesOne]
    omega
  · intro guard_
    simp only [WritesOne] at guard_
    -- nothing is started while the bit is clear
    have busy : (c.completed e).safeWrite = false → c.started e = 0 := by
      intro clear
      cases e with
      | onWrite i error => simp [completed] at clear
      | _ =>
          simp only [completed] at clear
          simp [started, clear]
    cases idle : (c.completed e).safeWrite with
    | false =>
        have none_ := busy idle
        refine ⟨by omega, ?_⟩
        rw [safe, idle, Bool.false_and]
        have some_ : (c.completed e).writes ≠ [] := fun empty => by
          simp [bit.mp empty] at idle
        have pos := List.length_pos_iff.mpr some_
        simp only [Bool.false_eq_true, iff_false]
        exact List.length_pos_iff.mp (by omega)
    | true =>
        have empty := bit.mpr idle
        rw [empty, List.length_nil] at writes
        refine ⟨by omega, ?_⟩
        rw [safe, idle, Bool.true_and, decide_eq_true_iff, ← List.length_eq_zero_iff]
        omega

theorem create_oneWrite (readMem : Mem Nat Byte) (writeMem : Mem WriteBlock Byte) :
    OneWrite (create readMem writeMem) :=
  ⟨Nat.zero_le _, by simp [create, startAsyncRead]⟩

/-- At most one write is under way, throughout a run, exactly when `StartAsyncWrite` never
    finds two buffers. -/
theorem oneWrite_iff (readMem : Mem Nat Byte) (writeMem : Mem WriteBlock Byte)
    (events : List Event) {c : Connection}
    (run : exec step (create readMem writeMem) events = some c) :
    Always step OneWrite (create readMem writeMem) events ↔
      Along step WritesOne (create readMem writeMem) events :=
  always_iff_along (fun _ => id) (fun c e c' one guard_ run => (step_oneWrite c e c' one run).mpr guard_)
    (fun c e c' one run spared => (step_oneWrite c e c' one run).mp spared)
    (create_oneWrite readMem writeMem) run

/-- Three messages, one after the other, each written before the next is sent. -/
def politeSends : List Event :=
  [.allocate .text 10, .send, .posted .write, .onWrite 0 false, .allocate .binary 5000, .send,
    .posted .write, .onWrite 0 false, .sendPing, .posted .write]

theorem oneWrite_polite :
    ∃ c, exec step (create (fun _ _ => 0) fun _ _ => 0) politeSends = some c ∧
      (Always step OneWrite (create (fun _ _ => 0) fun _ _ => 0) politeSends ↔
        Along step WritesOne (create (fun _ _ => 0) fun _ _ => 0) politeSends) := by
  have runs : (exec step (create (fun _ _ => 0) fun _ _ => 0) politeSends).isSome := by
    decide +kernel
  obtain ⟨c, run⟩ := Option.isSome_iff_exists.mp runs
  exact ⟨c, run, oneWrite_iff _ _ _ run⟩

/-- Two messages which do not fit into the arena, sent before the executor gets to run. -/
def twoLongSends : List Event :=
  [.allocate .text 5000, .send, .allocate .text 5000, .send, .posted .write]

theorem two_writes_started :
    ¬ ∀ events c, exec step (create (fun _ _ => 0) fun _ _ => 0) events = some c → OneWrite c := by
  intro all
  have writes : (exec step (create (fun _ _ => 0) fun _ _ => 0) twoLongSends).map
      (fun c => (c.writes, c.safeWrite)) =
      some ([(⟨.heap 0, 0⟩, 5004), (⟨.heap 1, 0⟩, 5004)], false) := by decide +kernel
  obtain ⟨c, run, same⟩ := Option.map_eq_some_iff.mp writes
  have atMost := (all twoLongSends c run).atMost
  rw [(Prod.mk.inj same).1] at atMost
  simp at atMost

/-! ## The read side -/

/-- The read side is the same. -/
structure SameRead (c d : Connection) : Prop where
  reads : d.reads = c.reads
  safe : d.safeRead = c.safeRead

theorem SameRead.trans {c d e : Connection} (h : SameRead c d) (h' : SameRead d e) : SameRead c e :=
  ⟨h'.reads.trans h.reads, h'.safe.trans h.safe⟩

theorem Parsed.sameRead {c d : Connection} (parsed : Parsed c d) : SameRead c d := by
  obtain ⟨_, _, _, _, rfl⟩ := parsed
  exact ⟨rfl, rfl⟩

/-- Everything on the side of the input is the same. -/
structure SameInput (c d : Connection) : Prop extends SameRead c d where
  buffer : d.readBuff = c.readBuff
  length : d.currFrameLength = c.currFrameLength
  opCode : d.fragOpCode = c.fragOpCode
  message : d.fragMsgData = c.fragMsgData

theorem SameInput.refl (c : Connection) : SameInput c c := ⟨⟨rfl, rfl⟩, rfl, rfl, rfl, rfl⟩

theorem startAsyncWrite_sameInput (c : Connection) : SameInput c c.startAsyncWrite := by
  obtain ⟨ranges, q, same, -⟩ := c.startAsyncWrite_eq
  rw [same]
  exact ⟨⟨rfl, rfl⟩, rfl, rfl, rfl, rfl⟩

theorem Shut.sameInput {c d : Connection} (shut : Shut c d) : SameInput c d := by
  cases shut with
  | closed handler => exact .refl c
  | told handler reason mem =>
      obtain ⟨⟨reads, safe⟩, buffer, length, opCode, message⟩ :=
        ((c.call (.onClose reason)).queuedClose reason mem).startAsyncWrite_sameInput
      exact ⟨⟨reads, safe⟩, buffer, length, opCode, message⟩

theorem Reacts.sameRead {c d : Connection} {x : Reaction} {r : CloseReason}
    (reacts : Reacts c x r d) : SameRead c d := by
  cases reacts with
  | deliver type msg parsed => exact ⟨parsed.sameRead.reads, parsed.sameRead.safe⟩
  | keep parsed => exact parsed.sameRead
  | ignore parsed => exact parsed.sameRead
  | answer mem parsed =>
      obtain ⟨⟨reads, safe⟩, -⟩ := (c.queued 2 mem).startAsyncWrite_sameInput
      exact SameRead.trans ⟨reads, safe⟩ parsed.sameRead
  | shut shut parsed => exact shut.sameInput.toSameRead.trans parsed.sameRead
  | refuse _ real parsed => exact parsed.sameRead

/-- Events other than reads. -/
theorem handle_sameInput {c c' : Connection} {e : Event} (other : ∀ result, e ≠ .onRead result)
    (run : c.handle e = some c') : SameInput c c' := by
  cases e with
  | onRead result => exact absurd rfl (other result)
  | onWrite i error =>
      obtain rfl := Option.some.inj run
      cases error with
      | true =>
          obtain ⟨_, _, same⟩ := closeHandler_eq
            { c with writes := c.writes.eraseIdx i, safeWrite := true } CloseReason.connError
          simp only [onWrite, if_true, same]
          exact ⟨⟨rfl, rfl⟩, rfl, rfl, rfl, rfl⟩
      | false =>
          obtain ⟨⟨reads, safe⟩, buffer, length, opCode, message⟩ := startAsyncWrite_sameInput { c with
            writes := c.writes.eraseIdx i, safeWrite := true, writeBuff := c.writeBuff.release }
          exact ⟨⟨reads, safe⟩, buffer, length, opCode, message⟩
  | onStep stepInterval =>
      obtain rfl := Option.some.inj run
      obtain ⟨_, _, _, same⟩ := c.onStep_eq stepInterval
      rw [same]
      exact ⟨⟨rfl, rfl⟩, rfl, rfl, rfl, rfl⟩
  | stop => exact (stop_some run).sameInput
  | allocate type length =>
      obtain ⟨⟨ret, d⟩, allocated, rfl⟩ := Option.map_eq_some_iff.mp run
      obtain ⟨q, mem, rfl⟩ := allocate_eq allocated
      exact ⟨⟨rfl, rfl⟩, rfl, rfl, rfl, rfl⟩
  | deallocate =>
      obtain rfl := Option.some.inj run
      exact ⟨⟨rfl, rfl⟩, rfl, rfl, rfl, rfl⟩
  | send =>
      obtain rfl := Option.some.inj run
      exact ⟨⟨rfl, rfl⟩, rfl, rfl, rfl, rfl⟩
  | sendPing =>
      simp only [handle, sendPing, bind, Option.bind_eq_some_iff, Option.some.injEq] at run
      obtain ⟨⟨sent, d⟩, sends, rfl⟩ := run
      obtain ⟨-, mem, rfl⟩ := sendControlFrame_some sends
      exact ⟨⟨rfl, rfl⟩, rfl, rfl, rfl, rfl⟩
  | close reason =>
      simp only [handle, close, bind, Option.bind_eq_some_iff, Option.some.injEq] at run
      obtain ⟨⟨sent, d⟩, sends, rfl⟩ := run
      obtain ⟨-, mem, rfl⟩ := sendCloseInternal_some sends
      exact ⟨⟨rfl, rfl⟩, rfl, rfl, rfl, rfl⟩
  | posted p =>
      cases p with
      | write =>
          obtain rfl := Option.some.inj run
          obtain ⟨⟨reads, safe⟩, buffer, length, opCode, message⟩ := startAsyncWrite_sameInput { c with posts := c.posts.erase .write }
          exact ⟨⟨reads, safe⟩, buffer, length, opCode, message⟩
      | close =>
          obtain rfl := Option.some.inj run
          obtain ⟨⟨reads, safe⟩, buffer, length, opCode, message⟩ := startAsyncWrite_sameInput
            { c with posts := c.posts.erase .close, myHandler := false }
          exact ⟨⟨reads, safe⟩, buffer, length, opCode, message⟩

/-- A read is outstanding exactly while the bit is clear. -/
def ReadBit (c : Connection) : Prop := c.reads = if c.safeRead then 0 else 1

theorem step_readBit {c c' : Connection} {e : Event} (bit : ReadBit c) (run : c.step e = some c') :
    ReadBit c' := by
  have enabled : Enabled c e := by
    by_cases enabled : Enabled c e
    · exact enabled
    · simp [step, enabled] at run
  rw [step, if_pos enabled] at run
  by_cases isRead : ∃ result, e = .onRead result
  · obtain ⟨result, rfl⟩ := isRead
    have one : 0 < c.reads := by
      cases result with
      | some data => exact enabled.1
      | none => exact enabled
    have clear : c.safeRead = false := by
      cases set : c.safeRead with
      | false => rfl
      | true => simp [ReadBit, set] at bit; omega
    have last : c.reads - 1 = 0 := by simp [ReadBit, clear] at bit; omega
    cases result with
    | none =>
        obtain ⟨calls, handler, rfl⟩ := handle_readError run
        exact last
    | some data =>
        have continues : ∀ {d : Connection}, SameRead (c.received data) d →
            ReadBit d.startAsyncRead := by
          intro d same
          simp only [ReadBit, startAsyncRead, same.reads, same.safe, received, last, clear,
            Bool.false_eq_true, if_false]
        have read := handle_onRead run
        generalize (c.received data).incoming = x at read
        cases read with
        | waits parsed => exact continues parsed.sameRead
        | goesOn reacts => exact continues reacts.sameRead
        | ends reason shut parsed =>
            have same := shut.sameInput.toSameRead.trans parsed.sameRead
            simp only [ReadBit, same.reads, received, last, if_true]
  · have same := handle_sameInput (fun result h => isRead ⟨result, h⟩) run
    rw [ReadBit, same.reads, same.safe]
    exact bit

/-! ## Deletion -/

/-- A connection in the server's list. -/
structure Listed where
  connection : Connection
  deleted : Bool

namespace Listed

/-- `OnTimer` deletes the connection when its `OnStep` returns false, which runs `Stop` once
    more. After that nothing may happen to it. -/
def step (l : Listed) (e : Event) : Option Listed :=
  if l.deleted then
    none
  else
    match e with
    | .onStep stepInterval =>
        match l.connection.onStep stepInterval with
        | (true, c) => some ⟨c, false⟩
        | (false, c) => c.stop.map (⟨·, true⟩)
    | e => (l.connection.step e).map (⟨·, false⟩)

/-- Nothing refers to a connection which has been deleted. -/
def Unreferenced (l : Listed) : Prop :=
  l.deleted = true → l.connection.reads = 0 ∧ l.connection.writes = [] ∧ l.connection.posts = []

/-- The event finds no two buffers to write, and it is no tick of an idle connection, closed or
    silent for too long, while a posted handler waits for its turn. -/
def Careful (l : Listed) : Event → Prop
  | .onStep stepInterval =>
      l.connection.safeRead = true → l.connection.safeWrite = true →
        (l.connection.myHandler = false ∨
          Config.maxSilentTime < u32 (l.connection.silentTime + stepInterval)) →
        l.connection.posts = []
  | e => WritesOne l.connection e

instance (l : Listed) (e : Event) : Decidable (Careful l e) := by
  unfold Careful WritesOne
  split <;> infer_instance

/-- One bit for each direction, and nothing left behind by the deletion. -/
structure Tracked (l : Listed) : Prop where
  read : ReadBit l.connection
  write : OneWrite l.connection
  unreferenced : l.Unreferenced

end Listed

theorem onStep_false {c d : Connection} {stepInterval : Nat}
    (run : c.onStep stepInterval = (false, d)) :
    (c.safeRead = true ∧ c.safeWrite = true) ∧ d.myHandler = false ∧
      (c.myHandler = false ∨ Config.maxSilentTime < u32 (c.silentTime + stepInterval)) := by
  simp only [onStep] at run
  split at run
  · rename_i silent
    obtain ⟨_, _, same⟩ := closeHandler_eq
      { c with silentTime := u32 (c.silentTime + stepInterval) } CloseReason.connError
    have gone : d.myHandler = false := by
      rw [← (Prod.mk.inj run).2, closeHandler]
      split
      · rfl
      · rename_i closed
        simpa using closed
    have bits := (Prod.mk.inj run).1
    rw [same] at bits
    exact ⟨by simpa using bits, gone, Or.inr silent⟩
  · split at run
    · simp at run
    · rename_i closed
      obtain ⟨bits, rfl⟩ := Prod.mk.inj run
      exact ⟨by simpa using bits, by simpa using closed, Or.inl (by simpa using closed)⟩

theorem stop_closed {c : Connection} (closed : c.myHandler = false) : c.stop = some c := by
  simp [stop, onProtocolError, closeHandler, closed]

namespace Listed

theorem step_tracked (l : Listed) (e : Event) (l' : Listed) (tracked : Tracked l)
    (careful : Careful l e) (run : l.step e = some l') : Tracked l' := by
  have alive : l.deleted = false := by
    cases gone : l.deleted with
    | false => rfl
    | true => simp [step, gone] at run
  by_cases tick : ∃ stepInterval, e = .onStep stepInterval
  · obtain ⟨stepInterval, rfl⟩ := tick
    have effect := onStep_eq l.connection stepInterval
    cases ticked : l.connection.onStep stepInterval with
    | mk keep c =>
        obtain ⟨_, _, _, same⟩ := effect
        rw [ticked] at same
        simp only at same
        cases keep with
        | true =>
            simp only [step, alive, Bool.false_eq_true, if_false, ticked, Option.some.injEq] at run
            subst run same
            exact ⟨tracked.read, ⟨tracked.write.atMost, tracked.write.bit⟩, by simp [Unreferenced]⟩
        | false =>
            obtain ⟨⟨safeRead, safeWrite⟩, closed, idle⟩ := onStep_false ticked
            simp only [step, alive, Bool.false_eq_true, if_false, ticked, stop_closed closed,
              Option.map_some, Option.some.injEq] at run
            subst run same
            refine ⟨tracked.read, ⟨tracked.write.atMost, tracked.write.bit⟩, fun _ => ?_⟩
            have read := tracked.read
            rw [ReadBit, safeRead] at read
            exact ⟨read, tracked.write.bit.mpr safeWrite,
              careful safeRead safeWrite idle⟩
  · have run : (l.connection.step e).map (⟨·, false⟩) = some l' := by
      cases e with
      | onStep stepInterval => exact absurd ⟨stepInterval, rfl⟩ tick
      | _ => simpa only [step, alive, Bool.false_eq_true, if_false] using run
    have one : WritesOne l.connection e := by
      cases e with
      | onStep stepInterval => exact absurd ⟨stepInterval, rfl⟩ tick
      | _ => exact careful
    obtain ⟨c, stepped, rfl⟩ := Option.map_eq_some_iff.mp run
    exact ⟨step_readBit tracked.read stepped,
      (step_oneWrite l.connection e c tracked.write stepped).mpr one, by simp [Unreferenced]⟩

theorem create_tracked (readMem : Mem Nat Byte) (writeMem : Mem WriteBlock Byte) :
    Tracked ⟨create readMem writeMem, false⟩ :=
  ⟨rfl, create_oneWrite readMem writeMem, by simp [Unreferenced]⟩

/-- A connection which is used with care is deleted only when nothing refers to it. -/
theorem deleted_unreferenced (readMem : Mem Nat Byte) (writeMem : Mem WriteBlock Byte)
    (events : List Event) {l : Listed}
    (careful : Along step Careful ⟨create readMem writeMem, false⟩ events)
    (run : exec step ⟨create readMem writeMem, false⟩ events = some l) : l.Unreferenced :=
  (careful.invariant step_tracked (create_tracked readMem writeMem) run).unreferenced

/-- The user closes the connection, and the next tick comes after the posted handler, the
    completion of the write and the end of the peer. -/
def orderlyEnd : List Event :=
  [.close 1000, .posted .close, .onWrite 0 false, .onRead none, .onStep 1]

theorem deleted_orderly :
    ∃ l, exec step ⟨create (fun _ _ => 0) fun _ _ => 0, false⟩ orderlyEnd = some l ∧
      l.deleted = true ∧ l.Unreferenced := by
  have runs : (exec step ⟨create (fun _ _ => 0) fun _ _ => 0, false⟩ orderlyEnd).map (·.deleted) =
      some true := by decide +kernel
  obtain ⟨l, run, gone⟩ := Option.map_eq_some_iff.mp runs
  exact ⟨l, run, gone, deleted_unreferenced _ _ _ (by decide +kernel) run⟩

/-- The peer ends while the handler posted by `Close` waits, and the tick comes first. -/
def hastyEnd : List Event := [.close 1000, .onRead none, .onStep 1]

theorem deleted_with_post :
    ¬ ∀ events l, exec step ⟨create (fun _ _ => 0) fun _ _ => 0, false⟩ events = some l →
      l.Unreferenced := by
  intro all
  have left : (exec step ⟨create (fun _ _ => 0) fun _ _ => 0, false⟩ hastyEnd).map
      (fun l => (l.deleted, l.connection.posts)) = some (true, [.close]) := by decide +kernel
  obtain ⟨l, run, same⟩ := Option.map_eq_some_iff.mp left
  obtain ⟨deleted, posts⟩ := Prod.mk.inj same
  have none_ := (all hastyEnd l run deleted).2.2
  simp [posts] at none_

end Listed

end MiniWebSrv.WebSocket.Connection
