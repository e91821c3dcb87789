import MiniWebSrv.Lib.WireStream
import MiniWebSrv.WebSocket.CloseReasons
import MiniWebSrv.WebSocket.Pongs
import MiniWebSrv.WebSocket.Sending

/-! # The bytes on the wire

The messages of the handler, its pings and the answers to the peer's pings go through one queue, and
a peer reads what the completed writes have carried. Whatever the order of the reads, the posted
handlers and the ends of the writes, these are the frames in the order in which they were queued, and
none of them is left behind. The writes complete in the order in which they were started, each of
them whole and without an error; what is on the wire otherwise is not told here, although several
writes may be under way at once. Close frames are outside too: what `SendCloseInternal` stores behind
its frame may belong to somebody else.
-/

namespace MiniWebSrv

open Word Run

namespace WriteBuffQueue

/-- The range of a chunk, as `Pop` has returned it. -/
def Chunk.range (c : Chunk) : WritePtr × Nat := (c.region.ptr, c.region.len)

theorem popAll_count {size : Nat} (n : Nat) (q : WriteBuffQueue size) :
    (popAll n q).2.outBuffA.length = q.outBuffA.length := by
  induction n generalizing q with
  | zero => rfl
  | succ n ih =>
      cases run : q.pop with
      | mk range q' =>
          cases range with
          | none =>
              obtain ⟨rfl, -⟩ := pop_none run
              simp only [popAll, run]
          | some range =>
              obtain ⟨ret, -, -, -, rfl⟩ := pop_inv run
              simp only [popAll, run, ih, List.length_set]

namespace Session

variable {size : Nat} {s : Session size} {ws ps : List Buffer}

/-- Allocating, filling and committing in one go. -/
theorem Tracks.push (h : Tracks s ws ps none) (data : List Byte) (pos : 0 < data.length)
    (range : Roundable s.queue data.length) {length : Nat} (all : data.length ≤ length) :
    ∃ ret q ps', s.queue.allocate data.length = (some ret, q) ∧
      (match ret.block with
        | .arena => ret.off + data.length ≤ size
        | .heap id => ∃ n, q.heapSizes[id]? = some n ∧ ret.off + data.length ≤ n) ∧
      Tracks { s with
          queue := q.commit length
          mem := s.mem.write ret data
          current := none
          committed := s.committed ++ data } ws ps' none := by
  obtain ⟨ret, q, ps', b, run, opened⟩ := h.allocate pos range
  obtain ⟨ret', q', ps'', b', run', -, shape, allocated⟩ := h.shape.allocate_spec pos range
  obtain ⟨⟨rfl⟩, rfl⟩ := Prod.mk.inj (run'.symm.trans run)
  have stored := opened.fill rfl (rfl : data.length = data.length)
  have committed := stored.commit length rfl
  rw [List.take_of_length_le all] at committed
  exact ⟨_, _, _, run, allocated.inside shape, committed⟩

/-- Everything that is popped joins the chunks, and enough turns leave nothing behind. -/
theorem Tracks.popAll (h : Tracks s ws ps none) (n : Nat) :
    ∃ ws' ps' chunks, (WriteBuffQueue.popAll n s.queue).1 = chunks.map Chunk.range ∧
      Tracks { s with
          queue := (WriteBuffQueue.popAll n s.queue).2
          outstanding := s.outstanding ++ chunks } ws' ps' none ∧
      (ps.length < n → ps' = []) := by
  induction n generalizing s ws ps with
  | zero =>
      refine ⟨ws, ps, [], rfl, ?_, fun few => absurd few (Nat.not_lt_zero _)⟩
      simpa only [WriteBuffQueue.popAll, List.append_nil] using h
  | succ n ih =>
      cases ps with
      | nil =>
          refine ⟨ws, [], [], by simp only [WriteBuffQueue.popAll, h.pop_empty, List.map_nil], ?_,
            fun _ => rfl⟩
          simpa only [WriteBuffQueue.popAll, h.pop_empty, List.append_nil] using h
      | cons p rest =>
          obtain ⟨q, run, next⟩ := h.pop
          obtain ⟨ws', ps', chunks, ranges, tracks, dry⟩ := ih next
          refine ⟨ws', ps', ⟨⟨p.buff, p.length⟩, s.mem.read p.buff p.length⟩ :: chunks, ?_, ?_,
            fun few => dry (Nat.lt_of_succ_lt_succ few)⟩
          · simp only [WriteBuffQueue.popAll, run, List.map_cons, ranges]
            rfl
          · simpa only [WriteBuffQueue.popAll, run, List.append_assoc, List.singleton_append]
              using tracks

end Session

end WriteBuffQueue

namespace WebSocket.Connection

open WriteBuffQueue WireFrame

/-! ## The write side -/

theorem startAsyncWrite_count (c : Connection) :
    c.startAsyncWrite.writeBuff.outBuffA.length = c.writeBuff.outBuffA.length := by
  by_cases safe : c.safeWrite
  · simp only [startAsyncWrite, if_pos safe, startWrites_eq, popAll_count]
  · simp only [startAsyncWrite, if_neg safe]

/-- `committed` is everything that has been queued, `released` what the completed writes have
    carried, and the buffers of `ps` have not been taken out for writing. -/
structure Flows (c : Connection) (committed released : List Byte) (ps : List Buffer) : Prop where
  tracks : ∃ ws chunks, Session.Tracks ⟨c.writeBuff, c.writeMem, none, committed, released, chunks⟩
    ws ps none ∧ c.writes = chunks.map Chunk.range
  busy : c.safeWrite = false → c.writes ≠ []

/-- The memory of the queue with a control frame in it. -/
def controlMem (c : Connection) (opCode : OpCode) : Mem WriteBlock Byte :=
  match c.writeBuff.allocate 2 with
  | (some buff, _) => c.writeMem.write buff [flagFin ||| opCode, 0]
  | (none, _) => c.writeMem

/-- The connection when the first of its writes has completed and `StartAsyncWrite` is next. -/
def completedFirst (c : Connection) (rest : List (WritePtr × Nat)) : Connection :=
  { c with writes := rest, safeWrite := true, writeBuff := c.writeBuff.release }

namespace Flows

variable {c d : Connection} {committed released : List Byte} {ps : List Buffer}

theorem congr (h : Flows c committed released ps) (queue : d.writeBuff = c.writeBuff)
    (mem : d.writeMem = c.writeMem) (writes : d.writes = c.writes)
    (safe : d.safeWrite = c.safeWrite) : Flows d committed released ps :=
  ⟨by rw [queue, mem, writes]; exact h.tracks, by rw [writes, safe]; exact h.busy⟩

theorem idle (h : Flows c committed released ps) : c.writeBuff.Idle := by
  obtain ⟨ws, chunks, tracks, -⟩ := h.tracks
  exact ⟨ws, ps, tracks.shape⟩

/-- What has been queued has been written, or is in the queue. -/
theorem bytes (h : Flows c committed released ps) :
    released ++ c.writeBuff.queuedBytes c.writeMem = committed := by
  obtain ⟨ws, chunks, tracks, -⟩ := h.tracks
  exact tracks.queuedBytes.symm

theorem count (h : Flows c committed released ps) :
    c.writeBuff.outBuffA.length = c.writes.length + ps.length := by
  obtain ⟨ws, chunks, tracks, writes⟩ := h.tracks
  have queue := tracks.shape.queue
  have pairs := tracks.outstanding.length_eq
  simp only at queue pairs
  rw [queue, writes, Option.toList_none, List.append_nil, List.length_append, List.length_map, pairs]

theorem writes_of_busy (h : Flows c committed released ps) (noticed : ps ≠ [] → c.writes ≠ [])
    (some_ : c.writeBuff.outBuffA ≠ []) : c.writes ≠ [] := by
  intro none_
  have count := h.count
  have dry : ps = [] := by
    by_contra other
    exact noticed other none_
  rw [none_, dry] at count
  exact some_ (List.eq_nil_of_length_eq_zero count)

/-- After `StartAsyncWrite` nothing waits, or there is a write whose end it waits for. -/
theorem startAsyncWrite (h : Flows c committed released ps) :
    ∃ ps', Flows c.startAsyncWrite committed released ps' ∧
      (ps' ≠ [] → c.startAsyncWrite.writes ≠ []) := by
  cases safe : c.safeWrite with
  | false =>
      have same : c.startAsyncWrite = c := by
        rw [Connection.startAsyncWrite, safe, if_neg Bool.false_ne_true]
      rw [same]
      exact ⟨ps, h, fun _ => h.busy safe⟩
  | true =>
      obtain ⟨ws, chunks, tracks, writes⟩ := h.tracks
      obtain ⟨ws', ps', more, ranges, tracks', dry⟩ :=
        tracks.popAll (c.writeBuff.outBuffA.length + 1)
      have few : ps.length < c.writeBuff.outBuffA.length + 1 := by
        have queue := tracks.shape.queue
        simp only at queue
        rw [queue, Option.toList_none, List.append_nil, List.length_append]
        omega
      obtain rfl := dry few
      rw [Connection.startAsyncWrite, if_pos safe, startWrites_eq]
      simp only at ranges
      refine ⟨[], ⟨⟨ws', chunks ++ more, tracks', ?_⟩, ?_⟩, fun some_ => absurd rfl some_⟩
      · simp only [writes, ranges, List.map_append]
      · intro cleared empty
        simp only [safe, Bool.true_and, List.append_eq_nil_iff] at cleared empty
        simp only [empty.2, List.isEmpty_nil, reduceCtorEq] at cleared

/-- A control frame comes behind everything in the queue. -/
theorem queued (h : Flows c committed released ps) (opCode : OpCode) :
    ∃ ps', Flows (c.queued 2 (c.controlMem opCode)) (committed ++ [flagFin ||| opCode, 0]) released
      ps' := by
  obtain ⟨ws, chunks, tracks, writes⟩ := h.tracks
  have roundable : c.writeBuff.Roundable [flagFin ||| opCode, 0].length := fun _ => show 2 + 255 < size32 by decide
  obtain ⟨ret, q, ps', room, -, tracks'⟩ := tracks.push [flagFin ||| opCode, 0]
    (Nat.succ_pos 1) roundable (Nat.le_refl 2)
  simp only [List.length_cons, List.length_nil, Nat.zero_add, Nat.reduceAdd] at room
  refine ⟨ps', ⟨⟨ws, chunks, ?_, writes⟩, h.busy⟩⟩
  simpa only [Connection.queued, controlMem, room] using tracks'

/-- A message comes behind everything in the queue, and a handler is posted which will write it. -/
theorem sendMessage (h : Flows c committed released ps) {type : MessageType}
    {message : List Byte} (short : message.length + 14 < size32)
    (run : c.sendMessage type message = some d) :
    ∃ ps', Flows d (committed ++ (messageHeader type message.length ++ message)) released ps' ∧
      d.writes = c.writes ∧ .write ∈ d.posts := by
  obtain ⟨ws, chunks, tracks, writes⟩ := h.tracks
  have room : c.writeBuff.Roundable (2 + (formOf message.length).width + message.length) := by
    by_contra wraps
    rw [sendMessage_wraps type short wraps] at run
    cases run
  have header := messageHeader_length type message.length
  have total : (messageHeader type message.length ++ message).length =
      2 + (formOf message.length).width + message.length := by
    rw [List.length_append, header]
  have width : (formOf message.length).width ≤ 8 := by
    cases formOf message.length <;> decide
  have short' := short
  simp only [size32] at short
  have all : (messageHeader type message.length ++ message).length ≤ max32 := by
    simp only [max32, size32]
    omega
  obtain ⟨ret, q, ps', allocated, -, tracks'⟩ := tracks.push
    (messageHeader type message.length ++ message) (by omega) (by rwa [total]) all
  have length : u32 (2 + (formOf message.length).width + message.length) =
      2 + (formOf message.length).width + message.length := u32_of_lt (by simp only [size32]; omega)
  simp only [total] at allocated
  simp only [Connection.sendMessage, Connection.allocate, frameLength_eq short', length, allocated,
    bind, Option.bind_eq_some_iff] at run
  obtain ⟨⟨ptr, e⟩, ⟨e', front, taken⟩, ptr', found, e'', behind, sent⟩ := run
  obtain ⟨rfl, rfl⟩ := Prod.mk.inj (Option.some.inj taken)
  obtain rfl := Option.some.inj found
  obtain rfl := Option.some.inj sent
  rw [store_some behind, store_some front]
  refine ⟨ps', ⟨⟨ws, chunks, ?_, writes⟩, h.busy⟩, rfl, ?_⟩
  · simpa only [send, postWriteReq, ← Mem.write_append] using tracks'
  · simp only [send, postWriteReq, List.mem_append, List.mem_singleton, or_true]

/-- The end of the first write has carried its bytes. -/
theorem written (h : Flows c committed released ps) {range : WritePtr × Nat}
    {rest : List (WritePtr × Nat)} (writes : c.writes = range :: rest) :
    Flows (c.completedFirst rest) committed (released ++ c.writeMem.read range.1 range.2) ps := by
  obtain ⟨ws, chunks, tracks, same⟩ := h.tracks
  rw [writes] at same
  cases chunks with
  | nil => cases same
  | cons chunk chunks =>
      obtain ⟨rfl, rfl⟩ := List.cons.inj same
      cases ws with
      | nil =>
          have holds := tracks.outstanding
          cases holds
      | cons w ws =>
          have there : c.writeMem.read chunk.region.ptr chunk.region.len = chunk.bytes :=
            Session.Tracks.chunks tracks.outstanding chunk List.mem_cons_self
          refine ⟨⟨ws, chunks, ?_, rfl⟩, fun clear => Bool.noConfusion clear⟩
          simpa only [Chunk.range, there, completedFirst] using tracks.release rfl

end Flows

/-! ## Answers -/

section Answers

variable {c d : Connection}

theorem sendControlFrame_eq {opCode : OpCode} {sent : Bool}
    (run : c.sendControlFrame opCode = some (sent, d)) :
    sent = true ∧ d = c.queued 2 (c.controlMem opCode) := by
  obtain ⟨ret, q, room⟩ := c.writeBuff.allocate_some 2 (by decide)
  simp only [sendControlFrame, room, bind, Option.bind_eq_some_iff, Option.some.injEq,
    Prod.mk.injEq] at run
  obtain ⟨e, stored, rfl, rfl⟩ := run
  refine ⟨rfl, ?_⟩
  simp only [store_some stored, queued, controlMem, room]

theorem reaction_answer {isFin : Bool} {opCode : OpCode} {length : Nat}
    (answers : c.reaction isFin opCode length = .answer) : isFin = true ∧ opCode = OpCode.ping := by
  simp only [reaction] at answers
  split at answers
  · split at answers
    · split at answers
      · cases answers
      · split at answers <;> cases answers
    · split at answers
      · split at answers <;> cases answers
      · cases answers
  · split at answers
    · rename_i fin
      split at answers
      · cases answers
      · split at answers
        · rename_i ping
          exact ⟨fin, ping⟩
        · split at answers <;> cases answers
    · cases answers

/-- The connection which answers a ping. -/
def answered (c : Connection) : Connection :=
  (c.queued 2 (c.controlMem OpCode.pong)).startAsyncWrite

theorem Parsed.answered (h : Parsed c d) : Parsed c.answered d.answered := by
  obtain ⟨_, _, _, _, rfl⟩ := h
  exact Parsed.startAsyncWrite ⟨_, _, _, _, rfl⟩

theorem processPayload_ping {payload : Ptr Nat} {length : Nat} {r : CloseReason}
    (run : c.processPayload true OpCode.ping payload length = some (r, d)) : d = c.answered := by
  have control : ¬OpCode.ping < OpCode.controlBegin := by decide
  have other : ¬OpCode.ping = OpCode.pong := by decide
  simp only [processPayload, if_true, if_neg control, processControlFrame, if_neg other, bind,
    Option.bind_eq_some_iff, Option.some.injEq, Prod.mk.injEq] at run
  obtain ⟨⟨sent, e⟩, sends, -, rfl⟩ := run
  obtain ⟨rfl, rfl⟩ := sendControlFrame_eq sends
  rfl

theorem processFrame_answer {buff : Ptr Nat} {length : Nat} {r : CloseReason}
    (run : c.processFrame buff length = some (r, d))
    (fin : (frameHeader c.readBuff.mem buff length).isFin = true)
    (ping : (frameHeader c.readBuff.mem buff length).opCode = OpCode.ping) :
    Parsed c.answered d := by
  simp only [processFrame, fin, ping] at run
  split at run
  · split at run
    · rw [processPayload_ping run]
      exact Parsed.answered ⟨_, _, _, _, rfl⟩
    · cases run
  · simp only [allowMaskedOnly, Bool.not_true, Bool.false_eq_true, if_false] at run
    rw [processPayload_ping run]
    exact .refl _

theorem processIncoming_answer {r : CloseReason} (run : c.processIncoming = some (r, d))
    (answers : c.incoming = some .answer) : r = CloseReason.none ∧ Parsed c.answered d := by
  have result := processIncoming_some run
  rw [answers] at result
  obtain rfl : r = CloseReason.none := by
    cases result
    rfl
  refine ⟨rfl, ?_⟩
  simp only [incoming] at answers
  cases found : c.frameLength with
  | wanted n => simp only [found, reduceCtorEq] at answers
  | known length =>
      simp only [found] at answers
      by_cases long : Config.maxFrameSize < length
      · rw [if_pos long] at answers
        cases answers
      rw [if_neg long] at answers
      by_cases part : c.readBuff.getAvailableData.2 < length
      · rw [if_pos part] at answers
        cases answers
      rw [if_neg part] at answers
      obtain ⟨fin, ping⟩ := reaction_answer (Option.some.inj answers)
      simp only [processIncoming, found, if_neg long, if_neg part, bind, Option.bind_eq_some_iff,
        Option.some.injEq, Prod.mk.injEq] at run
      obtain ⟨⟨retVal, e⟩, processed, -, rfl⟩ := run
      have first : Parsed c { c with currFrameLength := length } := ⟨_, _, _, _, rfl⟩
      exact (first.answered.trans (processFrame_answer processed fin ping)).trans
        ⟨_, _, _, _, rfl⟩

theorem handle_answer {data : List Byte} (run : c.handle (.onRead (some data)) = some d)
    (answers : (c.received data).incoming = some .answer) :
    ∃ e, Parsed (c.received data).answered e ∧ d = e.startAsyncRead := by
  simp only [handle, onRead, bind, Option.bind_eq_some_iff] at run
  obtain ⟨⟨reason, e⟩, processed, run⟩ := run
  obtain ⟨rfl, parsed⟩ := processIncoming_answer (c := c.received data) processed answers
  simp only [if_true, Option.some.injEq] at run
  exact ⟨e, parsed, run.symm⟩

end Answers

/-! ## What is sent -/

end Connection

open Connection WireFrame

/-- What one frame of the connection is for. -/
inductive Outgoing where
  | message (type : MessageType) (msg : List Byte)
  | ping
  | pong
  deriving DecidableEq, Repr

theorem pingCode : 9 < 16 := by decide

/-- The frame of `SendPing`. -/
def keepAliveFrame : WireFrame.Frame := { pongFrame with opCode := ⟨9, pingCode⟩ }

theorem keepAliveFrame_encode : keepAliveFrame.encode = [flagFin ||| OpCode.ping, 0] := rfl

namespace Outgoing

def wire : Outgoing → List Byte
  | .message type msg => messageHeader type msg.length ++ msg
  | .ping => [flagFin ||| OpCode.ping, 0]
  | .pong => [flagFin ||| OpCode.pong, 0]

/-- The length field can hold the length. -/
def Fits : Outgoing → Prop
  | .message _ msg => msg.length < (formOf msg.length).bound
  | _ => True

instance : (o : Outgoing) → Decidable o.Fits
  | .message _ msg => inferInstanceAs (Decidable (msg.length < (formOf msg.length).bound))
  | .ping | .pong => inferInstanceAs (Decidable True)

def frame : (o : Outgoing) → o.Fits → WireFrame.Frame
  | .message type msg, fits => frameOf type msg fits
  | .ping, _ => keepAliveFrame
  | .pong, _ => pongFrame

/-- A frame as the peer takes it: it has to be whole, without a mask and without reserved bits, and
    a control frame has nothing in it. -/
def ofFrame (f : WireFrame.Frame) : Option Outgoing :=
  if f.fin ∧ f.reserved.val = 0 ∧ f.mask = none then
    match f.opCode.val with
    | 1 => some (.message .text f.payload)
    | 2 => some (.message .binary f.payload)
    | 9 => if f.payload = [] then some .ping else none
    | 10 => if f.payload = [] then some .pong else none
    | _ => none
  else
    none

theorem ofFrame_frame (o : Outgoing) (fits : o.Fits) : ofFrame (o.frame fits) = some o := by
  cases o with
  | message type msg => cases type <;> rfl
  | ping | pong => rfl

theorem frame_encode (o : Outgoing) (fits : o.Fits) : (o.frame fits).encode = o.wire := by
  cases o with
  | message type msg => exact frameOf_encode type msg fits
  | ping => exact keepAliveFrame_encode
  | pong => exact pongFrame_encode

/-- What a peer makes of the bytes which it has received so far. -/
def receivedBy (bytes : List Byte) : List (Option Outgoing) :=
  (WireFrame.readStream bytes).1.map ofFrame

variable {os : List Outgoing}

theorem exists_frames (fits : ∀ o ∈ os, o.Fits) :
    ∃ frames, encodeAll frames = os.flatMap wire ∧ frames.map ofFrame = os.map some := by
  induction os with
  | nil => exact ⟨[], rfl, rfl⟩
  | cons o rest ih =>
      obtain ⟨frames, bytes, views⟩ := ih fun p member => fits p (List.mem_cons_of_mem _ member)
      have fitting := fits o List.mem_cons_self
      refine ⟨o.frame fitting :: frames, ?_, ?_⟩
      · rw [encodeAll, List.flatMap_cons, frame_encode, List.flatMap_cons]
        exact congrArg _ bytes
      · rw [List.map_cons, ofFrame_frame, views, List.map_cons]

/-- A peer which has received a part of the bytes has read the first frames, as they were sent. -/
theorem receivedBy_part (fits : ∀ o ∈ os, o.Fits) {bytes : List Byte}
    (part : bytes <+: os.flatMap wire) : receivedBy bytes <+: os.map some := by
  obtain ⟨frames, whole, views⟩ := exists_frames fits
  rw [← whole] at part
  rw [← views]
  exact (readStream_part part).map ofFrame

theorem receivedBy_whole (fits : ∀ o ∈ os, o.Fits) :
    receivedBy (os.flatMap wire) = os.map some := by
  obtain ⟨frames, whole, views⟩ := exists_frames fits
  rw [receivedBy, ← whole, readStream_encodeAll, views]

end Outgoing

/-! ## The line to the peer -/

/-- A connection with everything that has been queued, and the bytes which the completed writes have
    carried. -/
structure Line where
  connection : Connection
  queued : List Outgoing
  sent : List Byte

/-- `Allocate`, the stores and `Send` are one act, since the send mutex is locked all the way; none of
    them comes on its own, and nothing is given back with `Deallocate`. -/
inductive Act where
  | event (e : Event)
  | message (type : MessageType) (msg : List Byte)
  /-- The oldest of the writes completes without an error, as the socket has taken all of its bytes. No
      write fails, and none completes before an older one. -/
  | written
  deriving DecidableEq, Repr

namespace Line

/-- What an event makes the connection queue. -/
def queues (c : Connection) : Event → List Outgoing
  | .onRead (some data) => if (c.received data).incoming = some .answer then [.pong] else []
  | .sendPing => [.ping]
  | _ => []

/-- The events which are acts on their own. -/
def Single : Event → Prop
  | .onWrite _ _ | .allocate _ _ | .deallocate | .send => False
  | _ => True

instance : (e : Event) → Decidable (Single e)
  | .onWrite _ _ | .allocate _ _ | .deallocate | .send => inferInstanceAs (Decidable False)
  | .onRead _ | .onStep _ | .stop | .sendPing | .close _ | .posted _ =>
      inferInstanceAs (Decidable True)

def step (l : Line) : Act → Option Line
  | .event e =>
      if Single e then
        (l.connection.step e).map fun c => ⟨c, l.queued ++ queues l.connection e, l.sent⟩
      else
        none
  | .message type msg =>
      (l.connection.sendMessage type msg).map fun c => ⟨c, l.queued ++ [.message type msg], l.sent⟩
  | .written =>
      match l.connection.writes with
      | [] => none
      | range :: _ => (l.connection.step (.onWrite 0 false)).map fun c =>
          ⟨c, l.queued, l.sent ++ l.connection.writeMem.read range.1 range.2⟩

def create (readMem : Mem Nat Byte) (writeMem : Mem WriteBlock Byte) : Line :=
  ⟨.create readMem writeMem, [], []⟩

/-- The length of a message fits into an `unsigned int`, its header included. -/
def Short : Act → Prop
  | .message _ msg => msg.length + 14 < size32
  | _ => True

instance : (a : Act) → Decidable (Short a)
  | .message _ msg => inferInstanceAs (Decidable (msg.length + 14 < size32))
  | .event _ | .written => inferInstanceAs (Decidable True)

/-- The bytes of everything that has been queued. -/
def wires (l : Line) : List Byte := l.queued.flatMap Outgoing.wire

/-- Everything queued is on its way, and what has not been taken out for writing is waited for. -/
structure Moving (l : Line) (ps : List Buffer) : Prop where
  flows : Flows l.connection l.wires l.sent ps
  noticed : ps ≠ [] → l.connection.writes ≠ [] ∨ .write ∈ l.connection.posts

/-- What holds as long as no close frame has been asked for. -/
def Flowing (l : Line) : Prop := l.connection.closeReasons = [] → ∃ ps, l.Moving ps

variable {l : Line} {c d : Connection} {ps : List Buffer}

/-- Nothing on the side of the output is touched. -/
theorem Moving.untouched (h : l.Moving ps) (queue : c.writeBuff = l.connection.writeBuff)
    (mem : c.writeMem = l.connection.writeMem) (writes : c.writes = l.connection.writes)
    (safe : c.safeWrite = l.connection.safeWrite) (posts : c.posts = l.connection.posts) :
    Moving ⟨c, l.queued ++ [], l.sent⟩ ps := by
  rw [List.append_nil]
  exact ⟨h.flows.congr queue mem writes safe, by rw [writes, posts]; exact h.noticed⟩

/-- Whatever waits is taken out, or a write comes back for it. -/
theorem Moving.started {queued : List Outgoing} {sent : List Byte}
    (flows : Flows c (queued.flatMap Outgoing.wire) sent ps) :
    ∃ ps', Moving ⟨c.startAsyncWrite, queued, sent⟩ ps' := by
  obtain ⟨ps', flows', noticed⟩ := flows.startAsyncWrite
  exact ⟨ps', flows', fun some_ => Or.inl (noticed some_)⟩

theorem wires_append (queued : List Outgoing) (o : Outgoing) :
    (queued ++ [o]).flatMap Outgoing.wire = queued.flatMap Outgoing.wire ++ o.wire := by
  rw [List.flatMap_append, List.flatMap_singleton]

theorem eq_of_shut (shut : Shut c d) (open_ : d.closeReasons = []) : d = c := by
  cases shut with
  | closed handler => rfl
  | told handler reason mem =>
      obtain ⟨ranges, q, same, -⟩ :=
        ((c.call (.onClose reason)).queuedClose reason mem).startAsyncWrite_eq
      rw [same] at open_
      simp only [queuedClose, List.append_eq_nil_iff, List.cons_ne_nil, and_false] at open_

theorem Moving.read {data : List Byte} (h : l.Moving ps)
    (run : l.connection.handle (.onRead (some data)) = some d) (open_ : d.closeReasons = []) :
    ∃ ps', Moving ⟨d, l.queued ++ queues l.connection (.onRead (some data)), l.sent⟩ ps' := by
  have received : Flows (l.connection.received data) l.wires l.sent ps :=
    h.flows.congr rfl rfl rfl rfl
  by_cases answers : (l.connection.received data).incoming = some .answer
  · obtain ⟨e, parsed, rfl⟩ := handle_answer run answers
    obtain ⟨ps', flows⟩ := received.queued OpCode.pong
    obtain ⟨ps'', moving⟩ := Moving.started (wires_append l.queued .pong ▸ flows)
    rw [queues, if_pos answers]
    obtain ⟨_, _, _, _, rfl⟩ := parsed
    exact ⟨ps'', moving.flows.congr rfl rfl rfl rfl, moving.noticed⟩
  · rw [queues, if_neg answers]
    have read := handle_onRead run
    generalize (l.connection.received data).incoming = x at read answers
    cases read with
    | waits parsed =>
        obtain ⟨_, _, _, _, rfl⟩ := parsed
        exact ⟨ps, h.untouched rfl rfl rfl rfl rfl⟩
    | ends reason shut parsed =>
        obtain ⟨_, _, _, _, rfl⟩ := parsed
        obtain rfl := eq_of_shut shut open_
        exact ⟨ps, h.untouched rfl rfl rfl rfl rfl⟩
    | goesOn reacts =>
        cases reacts with
        | answer mem parsed => exact absurd rfl answers
        | refuse _ real parsed => exact absurd rfl real
        | shut shut parsed =>
            obtain ⟨_, _, _, _, rfl⟩ := parsed
            obtain rfl := eq_of_shut shut open_
            exact ⟨ps, h.untouched rfl rfl rfl rfl rfl⟩
        | deliver _ _ parsed | keep parsed | ignore parsed =>
            obtain ⟨_, _, _, _, rfl⟩ := parsed
            exact ⟨ps, h.untouched rfl rfl rfl rfl rfl⟩

theorem Moving.event {e : Event} (h : l.Moving ps) (single : Single e)
    (run : l.connection.handle e = some d) (open_ : d.closeReasons = []) :
    ∃ ps', Moving ⟨d, l.queued ++ queues l.connection e, l.sent⟩ ps' := by
  cases e with
  | onRead result =>
      cases result with
      | some data => exact h.read run open_
      | none =>
          obtain ⟨calls, handler, rfl⟩ := handle_readError run
          exact ⟨ps, h.untouched rfl rfl rfl rfl rfl⟩
  | onWrite i error => exact single.elim
  | allocate type length => exact single.elim
  | deallocate => exact single.elim
  | send => exact single.elim
  | onStep stepInterval =>
      obtain rfl := Option.some.inj run
      obtain ⟨_, _, _, same⟩ := l.connection.onStep_eq stepInterval
      rw [same]
      exact ⟨ps, h.untouched rfl rfl rfl rfl rfl⟩
  | stop =>
      obtain rfl := eq_of_shut (stop_some run) open_
      exact ⟨ps, h.untouched rfl rfl rfl rfl rfl⟩
  | close reason =>
      rw [handle_closeReasons run, asked, List.append_eq_nil_iff] at open_
      exact absurd open_.2 (List.cons_ne_nil _ _)
  | sendPing =>
      simp only [handle, sendPing, bind, Option.bind_eq_some_iff, Option.some.injEq] at run
      obtain ⟨⟨sent, c⟩, sends, rfl⟩ := run
      obtain ⟨-, rfl⟩ := sendControlFrame_eq sends
      obtain ⟨ps', flows⟩ := h.flows.queued OpCode.ping
      refine ⟨ps', ?_, fun _ => Or.inr (List.mem_append_right _ (List.mem_singleton_self _))⟩
      exact (wires_append l.queued .ping ▸ flows).congr rfl rfl rfl rfl
  | posted p =>
      cases p with
      | write | close =>
          obtain rfl := Option.some.inj run
          simp only [queues, List.append_nil]
          exact Moving.started (h.flows.congr rfl rfl rfl rfl)

theorem handle_of_step {e : Event} (run : c.step e = some d) : c.handle e = some d := by
  by_cases enabled : Enabled c e
  · rwa [Connection.step, if_pos enabled] at run
  · simp only [Connection.step, if_neg enabled, reduceCtorEq] at run

theorem single_of_step {e : Event} {l' : Line} (run : l.step (.event e) = some l') : Single e := by
  by_contra other
  simp only [step, if_neg other, reduceCtorEq] at run

/-- Sending a message touches the queue, and posts a handler. -/
theorem sendMessage_eq {type : MessageType} {msg : List Byte}
    (run : c.sendMessage type msg = some d) :
    ∃ q mem, d = { c with writeBuff := q, writeMem := mem, posts := c.posts ++ [.write] } := by
  simp only [sendMessage, bind, Option.bind_eq_some_iff, Option.some.injEq] at run
  obtain ⟨⟨ptr, e⟩, allocated, ptr', -, e', stored, rfl⟩ := run
  obtain ⟨q, mem, rfl⟩ := allocate_eq allocated
  rw [store_some stored]
  exact ⟨_, _, rfl⟩

theorem closeReasons_of_step {a : Act} {l' : Line} (run : l.step a = some l')
    (open_ : l'.connection.closeReasons = []) : l.connection.closeReasons = [] := by
  have before : ∀ {e : Event} {c : Connection}, l.connection.step e = some c →
      c.closeReasons = [] → l.connection.closeReasons = [] := by
    intro e c run open_
    rw [handle_closeReasons (handle_of_step run), List.append_eq_nil_iff] at open_
    exact open_.1
  cases a with
  | event e =>
      rw [step, if_pos (single_of_step run)] at run
      obtain ⟨c, taken, rfl⟩ := Option.map_eq_some_iff.mp run
      exact before taken open_
  | message type msg =>
      obtain ⟨c, sends, rfl⟩ := Option.map_eq_some_iff.mp run
      obtain ⟨q, mem, rfl⟩ := sendMessage_eq sends
      exact open_
  | written =>
      simp only [step] at run
      split at run
      · cases run
      · obtain ⟨c, taken, rfl⟩ := Option.map_eq_some_iff.mp run
        exact before taken open_

theorem step_flowing (l : Line) (a : Act) (l' : Line) (flowing : l.Flowing) (short : Short a)
    (run : l.step a = some l') : l'.Flowing := by
  intro open_
  obtain ⟨ps, moving⟩ := flowing (closeReasons_of_step run open_)
  cases a with
  | event e =>
      have single := single_of_step run
      rw [step, if_pos single] at run
      obtain ⟨c, taken, rfl⟩ := Option.map_eq_some_iff.mp run
      exact moving.event single (handle_of_step taken) open_
  | message type msg =>
      obtain ⟨c, sends, rfl⟩ := Option.map_eq_some_iff.mp run
      obtain ⟨ps', flows, -, posted⟩ := moving.flows.sendMessage short sends
      refine ⟨ps', ?_, fun _ => Or.inr posted⟩
      simp only [wires, wires_append]
      exact flows
  | written =>
      simp only [step] at run
      split at run
      · cases run
      · rename_i range rest writes
        obtain ⟨c, taken, rfl⟩ := Option.map_eq_some_iff.mp run
        obtain rfl := Option.some.inj (handle_of_step taken)
        have flows := moving.flows.written writes
        simp only [onWrite, Bool.false_eq_true, if_false, writes, List.eraseIdx_cons_zero]
        exact Moving.started flows

theorem create_moving (readMem : Mem Nat Byte) (writeMem : Mem WriteBlock Byte) :
    (create readMem writeMem).Moving [] where
  flows := {
    tracks := ⟨[], [], ⟨(WriteBuffQueue.empty_init _).shape (by decide), .nil, rfl, by simp, by simp⟩, rfl⟩
    busy := fun clear => Bool.noConfusion clear }
  noticed := fun some_ => absurd rfl some_

theorem exec_flowing (readMem : Mem Nat Byte) (writeMem : Mem WriteBlock Byte) {acts : List Act}
    (short : ∀ a ∈ acts, Short a) (run : exec step (create readMem writeMem) acts = some l) :
    l.Flowing := by
  have along : ∀ (k : Line), Along step (fun _ a => Short a) k acts := by
    clear run
    induction acts with
    | nil => exact fun _ => trivial
    | cons a rest ih =>
        exact fun k => ⟨short a List.mem_cons_self,
          fun t _ => ih (fun b member => short b (List.mem_cons_of_mem a member)) t⟩
  exact (along _).invariant step_flowing (fun _ => ⟨[], create_moving readMem writeMem⟩) run

/-- The message which an act sends. -/
def message? : Act → Option Outgoing
  | .message type msg => some (.message type msg)
  | _ => none

theorem step_messages {a : Act} {l' : Line} (run : l.step a = some l') :
    l'.queued.filter (· matches .message _ _) =
      l.queued.filter (· matches .message _ _) ++ (message? a).toList := by
  cases a with
  | event e =>
      rw [step, if_pos (single_of_step run)] at run
      obtain ⟨c, taken, rfl⟩ := Option.map_eq_some_iff.mp run
      have none_ : (queues l.connection e).filter (· matches .message _ _) = [] := by
        simp only [queues]
        split
        · split <;> rfl
        · rfl
        · rfl
      simp only [List.filter_append, none_, message?, Option.toList_none]
  | message type msg =>
      obtain ⟨c, sends, rfl⟩ := Option.map_eq_some_iff.mp run
      exact List.filter_append _ _
  | written =>
      simp only [step] at run
      split at run
      · cases run
      · obtain ⟨c, taken, rfl⟩ := Option.map_eq_some_iff.mp run
        exact (List.append_nil _).symm

/-- The messages queued are those which have been sent, in their order. -/
theorem exec_messages {acts : List Act} {l' : Line} (run : exec step l acts = some l') :
    l'.queued.filter (· matches .message _ _) =
      l.queued.filter (· matches .message _ _) ++ acts.filterMap message? := by
  induction acts generalizing l with
  | nil =>
      obtain rfl := Option.some.inj run
      exact (List.append_nil _).symm
  | cons a rest ih =>
      obtain ⟨mid, taken, run⟩ := exec_cons_some.mp run
      rw [ih run, step_messages taken, List.append_assoc, List.filterMap_cons]
      cases message? a with
      | none => rfl
      | some o => rfl

/-- What the completed writes have carried, and what is in the queue, are the frames of everything
    that has been queued, in this order. So a peer reads the messages as they were sent, and in the
    order in which they were. -/
theorem sent_in_order (readMem : Mem Nat Byte) (writeMem : Mem WriteBlock Byte) {acts : List Act}
    (short : ∀ a ∈ acts, Short a) (run : exec step (create readMem writeMem) acts = some l)
    (open_ : l.connection.closeReasons = []) :
    l.sent ++ l.connection.writeBuff.queuedBytes l.connection.writeMem = l.wires ∧
      l.queued.filter (· matches .message _ _) = acts.filterMap message? ∧
      ((∀ o ∈ l.queued, o.Fits) → Outgoing.receivedBy l.sent <+: l.queued.map some) := by
  obtain ⟨ps, moving⟩ := exec_flowing readMem writeMem short run open_
  have bytes := moving.flows.bytes
  exact ⟨bytes, exec_messages run, fun fits => Outgoing.receivedBy_part fits ⟨_, bytes⟩⟩

/-- Two messages, a ping of the peer and a ping of the user; the first message has been written when
    the second one and the answer are. -/
def busyLine : List Act :=
  [.message .text [104, 105], .event (.posted .write), .message .binary [1, 2, 3],
    .event (.onRead (some [0x89, 0x80, 0, 0, 0, 0])), .written, .event .sendPing]

theorem busyLine_run :
    ∃ l, exec step (create (fun _ _ => 0) fun _ _ => 0) busyLine = some l ∧
      l.sent = [0x81, 2, 104, 105] ∧ l.connection.closeReasons = [] ∧
      l.queued = [.message .text [104, 105], .message .binary [1, 2, 3], .pong, .ping] := by
  have states : (exec step (create (fun _ _ => 0) fun _ _ => 0) busyLine).map
      (fun l => (l.sent, l.connection.closeReasons, l.queued)) = some ([0x81, 2, 104, 105], [],
        [.message .text [104, 105], .message .binary [1, 2, 3], .pong, .ping]) := by
    decide +kernel
  obtain ⟨l, run, same⟩ := Option.map_eq_some_iff.mp states
  simp only [Prod.mk.injEq] at same
  exact ⟨l, run, same⟩

theorem sent_in_order_busy :
    ∃ l, exec step (create (fun _ _ => 0) fun _ _ => 0) busyLine = some l ∧
      l.sent ++ l.connection.writeBuff.queuedBytes l.connection.writeMem =
        [0x81, 2, 104, 105, 0x82, 3, 1, 2, 3, 0x8A, 0, 0x89, 0] ∧
      Outgoing.receivedBy l.sent <+: l.queued.map some := by
  obtain ⟨l, run, sent, open_, queued⟩ := busyLine_run
  obtain ⟨bytes, -, reads⟩ := sent_in_order _ _ (by decide) run open_
  refine ⟨l, run, ?_, reads (by rw [queued]; decide)⟩
  rw [bytes, wires, queued]
  decide

/-! ## Nothing is left behind -/

/-- While there is always a write under way, the ends of the writes empty the queue. -/
theorem Moving.drain {n : Nat} (h : l.Moving ps) (noticed : ps ≠ [] → l.connection.writes ≠ [])
    (count : l.connection.writeBuff.outBuffA.length = n) :
    ∃ l', exec step l (List.replicate n .written) = some l' ∧ l'.queued = l.queued ∧
      l'.sent = l.wires := by
  induction n generalizing l ps with
  | zero =>
      have bytes := h.flows.bytes
      rw [WriteBuffQueue.queuedBytes, List.eq_nil_of_length_eq_zero count, List.flatMap_nil,
        List.append_nil] at bytes
      exact ⟨l, rfl, rfl, bytes⟩
  | succ n ih =>
      have some_ : l.connection.writes ≠ [] := by
        refine h.flows.writes_of_busy noticed fun empty => ?_
        rw [empty, List.length_nil] at count
        exact Nat.succ_ne_zero n count.symm
      cases writes : l.connection.writes with
      | nil => exact absurd writes some_
      | cons range rest =>
          have flows := h.flows.written writes
          have before := h.flows.count
          have after : (l.connection.completedFirst rest).writeBuff.outBuffA.length =
              rest.length + ps.length := flows.count
          rw [writes, List.length_cons] at before
          obtain ⟨ps', flows', noticed'⟩ := flows.startAsyncWrite
          have taken : l.step .written = some ⟨(l.connection.completedFirst rest).startAsyncWrite,
              l.queued, l.sent ++ l.connection.writeMem.read range.1 range.2⟩ := by
            have enabled : Enabled l.connection (.onWrite 0 false) := List.length_pos_of_ne_nil some_
            simp only [step, writes, Connection.step, if_pos enabled, handle, onWrite,
              Bool.false_eq_true, if_false, Option.map_some, List.eraseIdx_cons_zero,
              completedFirst]
          have fewer : (l.connection.completedFirst rest).startAsyncWrite.writeBuff.outBuffA.length =
              n := by
            rw [startAsyncWrite_count]
            omega
          obtain ⟨l', run, queued, sent⟩ := ih
            (l := ⟨_, l.queued, l.sent ++ l.connection.writeMem.read range.1 range.2⟩)
            ⟨flows', fun some_ => Or.inl (noticed' some_)⟩ noticed' fewer
          exact ⟨l', exec_cons_some.mpr ⟨_, taken, run⟩, queued, sent⟩

/-- A posted handler at most and the ends of the writes bring everything to the peer which has been
    queued. -/
theorem Moving.arrives (h : l.Moving ps) :
    ∃ first n l', (first = [] ∨ first = [.event (.posted .write)]) ∧
      exec step l (first ++ List.replicate n .written) = some l' ∧ l'.sent = l.wires := by
  by_cases busy : ps ≠ [] → l.connection.writes ≠ []
  · obtain ⟨l', drained, -, sent⟩ := h.drain busy rfl
    exact ⟨[], _, l', Or.inl rfl, drained, sent⟩
  · rw [Classical.not_imp, not_not] at busy
    have posted : .write ∈ l.connection.posts :=
      (h.noticed busy.1).resolve_left fun some_ => some_ busy.2
    have taken : l.step (.event (.posted .write)) = some
        ⟨{ l.connection with posts := l.connection.posts.erase .write }.startAsyncWrite,
          l.queued ++ [], l.sent⟩ := by
      have enabled : Enabled l.connection (.posted .write) := posted
      simp only [step, if_pos (show Single (.posted .write) from trivial), Connection.step,
        if_pos enabled, handle, Option.map_some, queues, startAsyncWriteExternal]
    have flows : Flows { l.connection with posts := l.connection.posts.erase .write } l.wires l.sent
        ps := h.flows.congr rfl rfl rfl rfl
    obtain ⟨ps', flows', noticed⟩ := flows.startAsyncWrite
    rw [List.append_nil] at taken
    obtain ⟨l', drained, -, sent⟩ := Moving.drain (l := ⟨_, l.queued, l.sent⟩)
      ⟨flows', fun some_ => Or.inl (noticed some_)⟩ noticed rfl
    exact ⟨_, _, l', Or.inr rfl, exec_cons_some.mpr ⟨_, taken, drained⟩, sent⟩

/-- Nothing is left behind: from every state on, the peer can get everything that has been queued,
    and without any more help from outside. -/
theorem queued_arrives (readMem : Mem Nat Byte) (writeMem : Mem WriteBlock Byte) {acts : List Act}
    (short : ∀ a ∈ acts, Short a) (run : exec step (create readMem writeMem) acts = some l)
    (open_ : l.connection.closeReasons = []) (fits : ∀ o ∈ l.queued, o.Fits) :
    ∃ first n l', (first = [] ∨ first = [.event (.posted .write)]) ∧
      exec step l (first ++ List.replicate n .written) = some l' ∧
      Outgoing.receivedBy l'.sent = l.queued.map some := by
  obtain ⟨ps, moving⟩ := exec_flowing readMem writeMem short run open_
  obtain ⟨first, n, l', shape, drained, sent⟩ := moving.arrives
  exact ⟨first, n, l', shape, drained, sent ▸ Outgoing.receivedBy_whole fits⟩

theorem queued_arrives_busy :
    ∃ l first n l', exec step (create (fun _ _ => 0) fun _ _ => 0) busyLine = some l ∧
      (first = [] ∨ first = [.event (.posted .write)]) ∧
      exec step l (first ++ List.replicate n .written) = some l' ∧
      Outgoing.receivedBy l'.sent =
        [some (.message .text [104, 105]), some (.message .binary [1, 2, 3]), some .pong,
          some .ping] := by
  obtain ⟨l, run, -, open_, queued⟩ := busyLine_run
  obtain ⟨first, n, l', short, drained, arrives⟩ :=
    queued_arrives _ _ (by decide) run open_ (by rw [queued]; decide)
  rw [queued] at arrives
  exact ⟨l, first, n, l', run, short, drained, arrives⟩

end Line

end WebSocket

end MiniWebSrv
