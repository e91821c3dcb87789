import MiniWebSrv.WebSocket.CloseFrames
import MiniWebSrv.WebSocket.WireReading

/-! # Pongs

A ping is answered by `SendControlFrame`, which knows the opcode of the answer and nothing else: a
pong comes with every ping, and it is empty.
-/

namespace MiniWebSrv

open Word

namespace WriteBuffQueue

variable {size : Nat} {q : WriteBuffQueue size}

/-- All bytes in the queue, those which are being written included. -/
def queuedBytes (q : WriteBuffQueue size) (mem : Mem WriteBlock Byte) : List Byte :=
  q.outBuffA.flatMap (Session.contents mem)

/-- What has been committed has been released, or is in the queue. -/
theorem Session.Tracks.queuedBytes {s : Session size} {ws ps : List Buffer}
    (h : s.Tracks ws ps none) : s.committed = s.released ++ s.queue.queuedBytes s.mem := by
  have outgoing : ∀ {cs : List Chunk} {ws : List Buffer}, List.Forall₂ (Session.Holds s.mem) cs ws →
      cs.flatMap Chunk.bytes = ws.flatMap (Session.contents s.mem) := by
    intro cs ws holds
    induction holds with
    | nil => rfl
    | cons same _ ih => rw [List.flatMap_cons, List.flatMap_cons, same.2, ih]
  rw [h.committed, Session.popped, outgoing h.outstanding]
  simp only [WriteBuffQueue.queuedBytes, Session.waiting, h.shape.queue, Option.toList_none,
    List.append_nil, List.flatMap_append, List.flatMap_nil, List.append_assoc]

theorem pop_queuedBytes (mem : Mem WriteBlock Byte) :
    q.pop.2.queuedBytes mem = q.queuedBytes mem := by
  simp only [pop]
  split
  · rename_i ret found
    obtain ⟨inside, same⟩ := List.getElem?_eq_some_iff.mp found
    have kept : (q.outBuffA.set q.firstPendingI { ret with state := .writing }).map
        (Session.contents mem) = q.outBuffA.map (Session.contents mem) := by
      have there : q.firstPendingI < (q.outBuffA.map (Session.contents mem)).length := by
        rwa [List.length_map]
      have contents : Session.contents mem { ret with state := .writing } =
          (q.outBuffA.map (Session.contents mem))[q.firstPendingI] := by
        rw [List.getElem_map, same]
        rfl
      rw [List.map_set, contents, List.set_getElem_self]
    simp only [queuedBytes, List.flatMap_def, kept]
  · rfl

theorem popAll_queuedBytes (n : Nat) (mem : Mem WriteBlock Byte) :
    (popAll n q).2.queuedBytes mem = q.queuedBytes mem := by
  induction n generalizing q with
  | zero => rfl
  | succ n ih =>
      have kept := pop_queuedBytes (q := q) mem
      cases run : q.pop with
      | mk range q' =>
          rw [run] at kept
          cases range with
          | none => simp only [popAll, run, kept]
          | some range => simp only [popAll, run, ih, kept]

theorem Idle.push_queuedBytes (idle : Idle q) (mem : Mem WriteBlock Byte) (data : List Byte)
    (pos : 0 < data.length) (range : Roundable q data.length) :
    ∃ ret q', q.allocate data.length = (some ret, q') ∧
      (match ret.block with
        | .arena => ret.off + data.length ≤ size
        | .heap id => ∃ n, q'.heapSizes[id]? = some n ∧ ret.off + data.length ≤ n) ∧
      (q'.commit data.length).queuedBytes (mem.write ret data) = q.queuedBytes mem ++ data := by
  obtain ⟨ws, ps, shape⟩ := idle
  obtain ⟨ret, q', ps', b, run, length_, shape', allocated⟩ := shape.allocate_spec pos range
  obtain ⟨ret', q'', ps'', b', run', opened⟩ := (Session.resume_tracks mem shape).allocate pos range
  have same : (some ret', q'') = (some ret, q') := run'.symm.trans run
  obtain ⟨⟨rfl⟩, rfl⟩ := Prod.mk.inj same
  have stored := opened.fill rfl (rfl : data.length = data.length)
  have committed := stored.commit data.length rfl
  refine ⟨_, _, run, allocated.inside shape', ?_⟩
  have before := (Session.resume_tracks mem shape).queuedBytes
  have after := committed.queuedBytes
  rw [before, List.take_length] at after
  exact after.symm

end WriteBuffQueue

namespace WebSocket

open WireFrame

namespace Connection

open WriteBuffQueue

variable {c : Connection} {f : WireFrame.Frame} {buff : Ptr Nat}

theorem noReserved : 0 < 8 := Nat.succ_pos 7

/-- The frame which `SendControlFrame` makes of the opcode of a pong. -/
def pongFrame : WireFrame.Frame where
  fin := true
  reserved := ⟨0, noReserved⟩
  opCode := ⟨10, by decide⟩
  mask := none
  form := .short
  payload := []
  fits := by decide

theorem pongFrame_encode : pongFrame.encode = [flagFin ||| OpCode.pong, 0] := rfl

theorem sendControlFrame_bytes (idle : c.writeBuff.Idle) (opCode : OpCode) :
    ∃ mem, c.sendControlFrame opCode = some (true, c.queued 2 mem) ∧
      (c.queued 2 mem).writeBuff.queuedBytes mem =
        c.writeBuff.queuedBytes c.writeMem ++ [flagFin ||| opCode, 0] := by
  obtain ⟨ret, q, room, inside, bytes⟩ := idle.push_queuedBytes c.writeMem
    [flagFin ||| opCode, 0] (Nat.succ_pos 1) (fun _ => show 2 + 255 < size32 by decide)
  simp only [List.length_cons, List.length_nil, Nat.zero_add, Nat.reduceAdd] at room inside bytes
  have fits : ret.off + 2 ≤ blockSize q ret.block := le_blockSize inside
  refine ⟨c.writeMem.write ret [flagFin ||| opCode, 0], ?_, ?_⟩
  · simp only [sendControlFrame, room, store, List.length_cons, List.length_nil, Nat.zero_add,
      Nat.reduceAdd, if_pos fits, queued, bind, Option.bind_some]
  · simpa only [queued, room] using bytes

theorem startAsyncWrite_queuedBytes (c : Connection) :
    c.startAsyncWrite.writeBuff.queuedBytes c.startAsyncWrite.writeMem =
      c.writeBuff.queuedBytes c.writeMem := by
  by_cases safe : c.safeWrite
  · simp only [startAsyncWrite, if_pos safe, startWrites_eq, popAll_queuedBytes]
  · simp only [startAsyncWrite, if_neg safe]

/-- A valid ping of a client. -/
structure Ping (f : WireFrame.Frame) : Prop where
  fin : f.fin = true
  reserved : f.reserved.val = 0
  opCode : f.opCode.val = 9
  masked : f.mask.isSome
  short : f.form = .short

/-- The answer to a ping: one frame comes behind everything in the queue, it is a pong with the
    payload of the ping, and a fragmented message goes on as before. -/
def AnswersPing (c : Connection) (f : WireFrame.Frame) (buff : Ptr Nat) : Prop :=
  ∃ d wire pong, c.processFrame buff f.encode.length = some (CloseReason.none, d) ∧
    d.writeBuff.queuedBytes d.writeMem = c.writeBuff.queuedBytes c.writeMem ++ wire ∧
    decode wire = some (pong, []) ∧ pong.fin = true ∧ pong.opCode.val = 10 ∧
    pong.payload = f.payload ∧ d.fragOpCode = c.fragOpCode ∧ d.fragMsgData = c.fragMsgData

/-- Whatever the payload of a ping is, the answer is the empty pong. -/
theorem processFrame_ping (idle : c.writeBuff.Idle) (ping : Ping f)
    (holds : Holds c.readBuff f buff) :
    ∃ d, c.processFrame buff f.encode.length = some (CloseReason.none, d) ∧
      d.writeBuff.queuedBytes d.writeMem =
        c.writeBuff.queuedBytes c.writeMem ++ pongFrame.encode ∧
      d.fragOpCode = c.fragOpCode ∧ d.fragMsgData = c.fragMsgData := by
  have small : f.encode.length < size32 := by
    have length := f.encode_length
    have fits := f.fits
    have key : (keyBytes f.mask).length ≤ 4 := by
      cases f.mask with
      | none => exact Nat.zero_le 4
      | some key => exact Nat.le_refl 4
    simp only [WireFrame.Frame.headLength, ping.short, LengthForm.width] at length
    simp only [ping.short, LengthForm.bound] at fits
    simp only [size32]
    omega
  have idle' : (c.unmasked f buff).writeBuff.Idle := idle
  obtain ⟨mem, sends, bytes⟩ := sendControlFrame_bytes idle' OpCode.pong
  have opCode : UInt8.ofNat f.opCode.val = OpCode.ping := by rw [ping.opCode]; rfl
  have control : ¬OpCode.ping < OpCode.controlBegin := by decide
  have other : ¬OpCode.ping = OpCode.pong := by decide
  refine ⟨((c.unmasked f buff).queued 2 mem).startAsyncWrite, ?_, ?_, ?_, ?_⟩
  · rw [processFrame_of_wire holds small, ping.fin, opCode]
    simp only [processPayload, if_true, if_neg control, processControlFrame, if_neg other, sends,
      bind, Option.bind_some]
  · rw [startAsyncWrite_queuedBytes]
    exact bytes
  · obtain ⟨ranges, q, same, -⟩ := ((c.unmasked f buff).queued 2 mem).startAsyncWrite_eq
    rw [same]
    rfl
  · obtain ⟨ranges, q, same, -⟩ := ((c.unmasked f buff).queued 2 mem).startAsyncWrite_eq
    rw [same]
    rfl

theorem pongFrame_decode : decode pongFrame.encode = some (pongFrame, []) := by
  have read := pongFrame.decode_encode []
  rwa [List.append_nil] at read

/-- Only a ping without a payload is answered with its payload. -/
theorem AnswersPing.empty (idle : c.writeBuff.Idle) (ping : Ping f)
    (holds : Holds c.readBuff f buff) (answers : AnswersPing c f buff) : f.payload = [] := by
  obtain ⟨d, run, bytes, -, -⟩ := processFrame_ping idle ping holds
  obtain ⟨d', wire, pong, run', bytes', decoded, -, -, payload, -⟩ := answers
  obtain rfl : d' = d := (Prod.mk.inj (Option.some.inj (run'.symm.trans run))).2
  obtain rfl := List.append_cancel_left (bytes'.symm.trans bytes)
  obtain rfl : pong = pongFrame :=
    (Prod.mk.inj (Option.some.inj (decoded.symm.trans pongFrame_decode))).1
  exact payload.symm

theorem answers_ping_iff (idle : c.writeBuff.Idle) (ping : Ping f)
    (holds : Holds c.readBuff f buff) : AnswersPing c f buff ↔ f.payload = [] := by
  refine ⟨AnswersPing.empty idle ping holds, fun empty => ?_⟩
  obtain ⟨d, run, bytes, opCode, message⟩ := processFrame_ping idle ping holds
  exact ⟨d, _, pongFrame, run, bytes, pongFrame_decode, rfl, rfl, empty.symm, opCode, message⟩

/-- A ping with this payload, masked with zeros. -/
def pingFrame (payload : List Byte) (fits : payload.length < 126) : WireFrame.Frame where
  fin := true
  reserved := ⟨0, noReserved⟩
  opCode := ⟨9, by decide⟩
  mask := some (0, 0, 0, 0)
  form := .short
  payload := payload
  fits := fits

/-- A new connection which has received a frame. -/
def withFrame (f : WireFrame.Frame) : Connection :=
  create (fun _ i => (f.encode[i]?).getD 0) fun _ _ => 0

theorem answers_ping_iff_empty :
    AnswersPing (withFrame (pingFrame [] (by decide))) (pingFrame [] (by decide)) ⟨0, 0⟩ ↔
      (pingFrame [] (by decide)).payload = [] :=
  answers_ping_iff (WriteBuffQueue.idle_init (by decide)) ⟨rfl, rfl, rfl, rfl, rfl⟩
    ⟨by decide, by decide⟩

/-- The payload of a keep-alive is lost. -/
theorem payload_not_returned : ¬∀ (c : Connection) (f : WireFrame.Frame) (buff : Ptr Nat),
    c.writeBuff.Idle → Ping f → Holds c.readBuff f buff → AnswersPing c f buff := by
  intro all
  have idle : (withFrame (pingFrame [7] (by decide))).writeBuff.Idle :=
    WriteBuffQueue.idle_init (by decide)
  have ping : Ping (pingFrame [7] (by decide)) := ⟨rfl, rfl, rfl, rfl, rfl⟩
  have holds : Holds (withFrame (pingFrame [7] (by decide))).readBuff (pingFrame [7] (by decide))
      ⟨0, 0⟩ := ⟨by decide, by decide⟩
  have empty := (all _ _ _ idle ping holds).empty idle ping holds
  exact absurd empty (List.cons_ne_nil 7 [])

end Connection

end WebSocket

end MiniWebSrv
