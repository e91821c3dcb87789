import MiniWebSrv.WebSocket.LifeCycle
import MiniWebSrv.WebSocket.Outgoing
import MiniWebSrv.WebSocket.Receive

/-! # The echo server

`EchoMsgHandler` sends every message back. The client's frames arrive in any pieces, and the timer,
the executor and the ends of the writes come in between; what the client gets back is what it has
sent, message by message, with a pong for each of its pings.
-/

namespace MiniWebSrv.WebSocket

open Word Run

namespace Connection

/-! ## The record of the calls

The calls are recorded and never looked at, so what has been recorded before makes no difference.
-/

section Record

variable (old : List (HandlerCall × Bool)) (c : Connection)

/-- The connection with some calls recorded before its own. -/
def before : Connection := { c with calls := old ++ c.calls }

@[simp] theorem before_call (m : HandlerCall) : (c.before old).call m = (c.call m).before old := by
  simp only [call, before, List.append_assoc]

theorem bare_before (calls : List (HandlerCall × Bool)) :
    ({ c with calls := [] } : Connection).before calls = { c with calls := calls } := by
  simp only [before, List.append_nil]

theorem before_startWrites (n : Nat) :
    (c.before old).startWrites n = (c.startWrites n).before old := by
  simp only [startWrites_eq]
  rfl

@[simp] theorem before_startAsyncWrite :
    (c.before old).startAsyncWrite = c.startAsyncWrite.before old := by
  rw [startAsyncWrite, startAsyncWrite, before_startWrites, apply_ite (before old)]
  rfl

@[simp] theorem before_store (p : WritePtr) (bytes : List Byte) :
    (c.before old).store p bytes = (c.store p bytes).map (before old) := by
  rw [store, store, apply_ite (Option.map (before old))]
  rfl

/-- A result with some calls recorded before. -/
def beforeBoth {α : Type} (x : Option (α × Connection)) : Option (α × Connection) :=
  x.map fun y => (y.1, y.2.before old)

theorem before_sendControlFrame (opCode : OpCode) :
    (c.before old).sendControlFrame opCode = beforeBoth old (c.sendControlFrame opCode) := by
  obtain ⟨ret, q, room⟩ := c.writeBuff.allocate_some 2 (by decide)
  have stored : ({ c.before old with writeBuff := q } : Connection).store ret
      [flagFin ||| opCode, 0] = _ :=
    before_store old { c with writeBuff := q } ret [flagFin ||| opCode, 0]
  have room' : (c.before old).writeBuff.allocate 2 = (some ret, q) := room
  simp only [sendControlFrame, room, room', stored, bind]
  cases ({ c with writeBuff := q } : Connection).store ret [flagFin ||| opCode, 0] <;> rfl

theorem before_sendCloseInternal (reason : CloseReason) :
    (c.before old).sendCloseInternal reason = beforeBoth old (c.sendCloseInternal reason) := by
  obtain ⟨ret, q, room⟩ := c.writeBuff.allocate_some 4 (by decide)
  have stored : ({ c.before old with writeBuff := q } : Connection).store ret
      [flagFin ||| OpCode.close, 2] = _ :=
    before_store old { c with writeBuff := q } ret [flagFin ||| OpCode.close, 2]
  have room' : (c.before old).writeBuff.allocate 4 = (some ret, q) := room
  simp only [sendCloseInternal, room, room', stored, bind]
  cases ({ c with writeBuff := q } : Connection).store ret [flagFin ||| OpCode.close, 2] with
  | none => rfl
  | some d =>
      simp only [Option.map_some, Option.bind_some, before_store]
      cases d.store (ret.add 4) (big16 reason) <;> rfl

theorem before_onProtocolError (reason : CloseReason) :
    (c.before old).onProtocolError reason = (c.onProtocolError reason).map (before old) := by
  have handler : (c.before old).myHandler = c.myHandler := rfl
  cases set : c.myHandler with
  | false => simp only [onProtocolError, handler, set, Bool.false_eq_true, if_false, Option.map_some]
  | true =>
      simp only [onProtocolError, handler, set, if_true, before_call, before_sendCloseInternal, bind,
        beforeBoth]
      cases (c.call (.onClose reason)).sendCloseInternal reason with
      | none => rfl
      | some x =>
          obtain ⟨sent, d⟩ := x
          cases sent with
          | false => rfl
          | true =>
              simp only [Option.map_some, Option.bind_some, if_true, before_startAsyncWrite]
              rfl

theorem before_processControlFrame (opCode : OpCode) (payload : Ptr Nat) (length : Nat) :
    (c.before old).processControlFrame opCode payload length =
      beforeBoth old (c.processControlFrame opCode payload length) := by
  have handler : (c.before old).myHandler = c.myHandler := rfl
  have buffer : (c.before old).readBuff = c.readBuff := rfl
  simp only [processControlFrame, handler, buffer, before_call, before_sendCloseInternal,
    before_sendControlFrame]
  by_cases pong : opCode = OpCode.pong
  · simp only [if_pos pong]
    rfl
  simp only [if_neg pong]
  by_cases ping : opCode = OpCode.ping
  · simp only [if_pos ping, bind, beforeBoth]
    cases c.sendControlFrame OpCode.pong with
    | none => rfl
    | some x =>
        obtain ⟨sent, d⟩ := x
        cases sent with
        | false => rfl
        | true => simp only [Option.map_some, Option.bind_some, if_true, before_startAsyncWrite]
  simp only [if_neg ping]
  by_cases close : opCode = OpCode.close
  · simp only [if_pos close]
    cases set : c.myHandler with
    | false => rfl
    | true =>
        simp only [if_true]
        split
        · rfl
        · generalize (if 2 ≤ length then (readBig16 c.readBuff.mem payload).toUInt16 else 0) = reason
          simp only [bind, beforeBoth]
          cases (c.call (.onClose reason)).sendCloseInternal reason with
          | none => rfl
          | some x =>
              obtain ⟨sent, d⟩ := x
              cases sent with
              | false => rfl
              | true =>
                  simp only [Option.map_some, Option.bind_some, if_true, before_startAsyncWrite]
                  rfl
  · simp only [if_neg close]
    rfl

theorem before_payloadBytes (payload : Ptr Nat) (length : Nat) :
    (c.before old).payloadBytes payload length = c.payloadBytes payload length := rfl

theorem before_processPayload (isFin : Bool) (opCode : OpCode) (payload : Ptr Nat) (length : Nat) :
    (c.before old).processPayload isFin opCode payload length =
      beforeBoth old (c.processPayload isFin opCode payload length) := by
  have fragments : (c.before old).fragOpCode = c.fragOpCode := rfl
  have message : (c.before old).fragMsgData = c.fragMsgData := rfl
  have buffer : (c.before old).readBuff = c.readBuff := rfl
  simp only [processPayload, fragments, message, buffer, before_call, before_processControlFrame,
    before_payloadBytes]
  by_cases control : ¬opCode < OpCode.controlBegin
  · simp only [if_neg control]
    cases isFin <;> rfl
  rw [not_not] at control
  simp only [if_pos control]
  cases isFin with
  | true =>
      simp only [if_true]
      by_cases more : c.fragOpCode ≠ OpCode.continuation ∧ opCode = OpCode.continuation
      · simp only [if_pos more]
        split
        · rfl
        · simp only [bind]
          cases c.payloadBytes payload length with
          | none => rfl
          | some bytes =>
              simp only [Option.bind_some, beforeBoth, Option.map_some, call, before,
                List.append_assoc]
      · simp only [if_neg more]
        split <;> rfl
  | false =>
      simp only [Bool.false_eq_true, if_false]
      by_cases more : c.fragOpCode ≠ OpCode.continuation ∧ opCode = OpCode.continuation
      · simp only [if_pos more]
        split
        · rfl
        · simp only [bind]
          cases c.payloadBytes payload length <;> rfl
      · simp only [if_neg more]
        split
        · simp only [bind]
          cases c.payloadBytes payload length <;> rfl
        · rfl

theorem before_processFrame (buff : Ptr Nat) (length : Nat) :
    (c.before old).processFrame buff length = beforeBoth old (c.processFrame buff length) := by
  have buffer : (c.before old).readBuff = c.readBuff := rfl
  simp only [processFrame, buffer]
  split
  · split
    · exact before_processPayload old { c with readBuff := { c.readBuff with mem := _ } } _ _ _ _
    · rfl
  · exact before_processPayload old c _ _ _ _

theorem before_awaitData (length : Nat) :
    (c.before old).awaitData length = beforeBoth old (c.awaitData length) := by
  have buffer : (c.before old).readBuff = c.readBuff := rfl
  simp only [awaitData, buffer, bind]
  cases c.readBuff.requestData length <;> rfl

theorem before_processIncoming :
    (c.before old).processIncoming = beforeBoth old c.processIncoming := by
  have buffer : (c.before old).readBuff = c.readBuff := rfl
  have known : (c.before old).frameLength = c.frameLength := rfl
  simp only [processIncoming, buffer, known]
  cases c.frameLength with
  | wanted length => exact before_awaitData old c length
  | known length =>
      simp only
      split
      · rfl
      · split
        · exact before_awaitData old { c with currFrameLength := length } length
        · have left := congrArg (fun x : Option (CloseReason × Connection) => x.bind fun y =>
              some (y.1, ({ y.2 with
                readBuff := (y.2.readBuff.consume length false).2
                currFrameLength := unknownFrameLength } : Connection)))
            (before_processFrame old { c with currFrameLength := length }
              c.readBuff.getAvailableData.1 length)
          refine left.trans ?_
          simp only [bind, beforeBoth]
          cases ({ c with currFrameLength := length } : Connection).processFrame
            c.readBuff.getAvailableData.1 length <;> rfl

theorem before_onRead (data : List Byte) :
    (c.before old).handle (.onRead (some data)) =
      (c.handle (.onRead (some data))).map (before old) := by
  have processed : Connection.processIncoming ((c.before old).received data) = _ :=
    before_processIncoming old (c.received data)
  have left : (c.before old).handle (.onRead (some data)) = _ :=
    congrArg (fun x => x.bind fun y => if y.1 = CloseReason.none then some y.2.startAsyncRead else
      (y.2.onProtocolError y.1).bind fun d => some { d with safeRead := true }) processed
  have right : c.handle (.onRead (some data)) = (c.received data).processIncoming.bind fun y =>
    if y.1 = CloseReason.none then some y.2.startAsyncRead else
      (y.2.onProtocolError y.1).bind fun d => some { d with safeRead := true } := rfl
  rw [left, right, beforeBoth]
  cases (c.received data).processIncoming with
  | none => rfl
  | some y =>
      obtain ⟨reason, d⟩ := y
      simp only [Option.map_some, Option.bind_some]
      split
      · rfl
      · rw [before_onProtocolError]
        cases d.onProtocolError reason <;> rfl

end Record

/-! ## What a read makes the connection send -/

section Pings

variable {frames : List Frame} {done : Nat} {got : List Byte} {c : Connection}

theorem incoming_of_asks {n : Nat} (asks : c.asks = some n) (small : n ≤ Config.maxFrameSize) :
    c.incoming = none := by
  simp only [Connection.asks] at asks
  simp only [incoming]
  cases found : c.frameLength with
  | wanted length => rfl
  | known length =>
      simp only [found] at asks
      split at asks
      · rename_i part
        obtain rfl := Option.some.inj asks
        simp only [if_neg (Nat.not_lt.mpr small), if_pos part]
      · cases asks

theorem Receiving.answers_iff (valid : ValidStream frames) (h : Receiving frames done got c) :
    c.incoming = some .answer ↔
      done < complete frames got.length ∧ ∃ f ∈ frames[done]?, f.opCode = OpCode.ping := by
  cases next : frames.drop done with
  | nil =>
      have all : frames.length ≤ done := List.drop_eq_nil_iff.mp next
      have le := complete_le frames got.length
      have wants := h.wanted_of_none next
      constructor
      · intro answers
        simp only [incoming, wants, reduceCtorEq] at answers
      · rintro ⟨less, -⟩
        omega
  | cons f rest =>
      have here : frames[done]? = some f := by
        rw [← Nat.add_zero done, ← List.getElem?_drop, next]
        rfl
      have validF := valid.valid f (List.mem_of_mem_drop (next ▸ List.mem_cons_self))
      have small := validF.encode_lt
      rw [h.next_complete next, here]
      by_cases whole : f.encode.length ≤ c.readBuff.available.length
      · obtain ⟨tail, front⟩ := h.front_of_next next whole
        have known := frameLength_of_front validF front (h.length_of_next next)
        have enough : ¬c.readBuff.getAvailableData.2 < f.encode.length := by
          rw [c.readBuff.available_length] at whole
          exact Nat.not_lt.mpr whole
        have short : ¬Config.maxFrameSize < f.encode.length := by
          simp only [Config.maxFrameSize]
          omega
        have reacts : c.incoming = some (c.reaction f.isFin f.opCode f.payload.length) := by
          simp only [incoming, known, if_neg short, if_neg enough,
            frameHeader_of_front validF front]
        rw [reacts]
        constructor
        · intro answers
          exact ⟨whole, f, rfl, (reaction_answer (Option.some.inj answers)).2⟩
        · rintro ⟨-, g, same, ping⟩
          obtain rfl := Option.some.inj same
          have control : f.isControl = true := by rw [Frame.isControl, ping]; decide
          rw [(validF.control control).1, ping]
          rfl
      · have pre := h.pre
        rw [next, List.flatMap_cons] at pre
        obtain ⟨n, asks, small, -⟩ := asks_of_start validF pre (by omega) (h.length_of_next next)
        rw [incoming_of_asks asks small]
        exact ⟨fun answers => absurd answers (Option.some_ne_none _).symm,
          fun both => absurd both.1 whole⟩

/-- Nothing but the record of the calls, the handler and the queue may be touched. -/
theorem Receiving.same {d : Connection} (h : Receiving frames done got c) (same : SameInput c d)
    (calls : d.calls = c.calls) (handler : d.myHandler = true) (idle : d.writeBuff.Idle) :
    Receiving frames done got d := by
  obtain ⟨p, ms, before, delivered⟩ := h.delivered
  refine ⟨same.buffer ▸ h.valid, h.le, h.stream, same.buffer ▸ h.split, same.length ▸ h.length, p, ms,
    before, ?_, calls ▸ delivered.calls, handler, idle⟩
  have keeps := delivered.keeps
  cases p <;> simpa only [Keeps, same.opCode, same.message] using keeps

end Pings

end Connection

open Connection WriteBuffQueue

/-! ## What the client gets back -/

/-- The message as it is sent back. -/
def echoed (m : MessageType × List Byte) : Outgoing := .message m.1 m.2

/-- What a frame is answered with: a ping with a pong, and the message which it completes with that
    message. -/
def Frame.answer (p : Partial) (f : Frame) : List Outgoing :=
  (if f.opCode = OpCode.ping then [.pong] else []) ++
    ((f.next p).map fun r => r.2.map echoed).getD []

/-- What the frames are answered with. -/
def replies : Partial → List Frame → List Outgoing
  | _, [] => []
  | p, f :: rest => f.answer p ++ ((f.next p).map fun r => replies r.1 rest).getD []

theorem replies_append {p p' : Partial} {front : List Frame} {ms : List (MessageType × List Byte)}
    (assembles : messages p front = some (p', ms)) (back : List Frame) :
    replies p (front ++ back) = replies p front ++ replies p' back := by
  induction front generalizing p ms with
  | nil =>
      obtain ⟨rfl, -⟩ := Prod.mk.inj (Option.some.inj assembles)
      rfl
  | cons f rest ih =>
      simp only [messages, bind, Option.bind_eq_some_iff, Option.some.injEq, Prod.mk.injEq]
        at assembles
      obtain ⟨⟨q, new⟩, next, ⟨q', more⟩, later, rfl, -⟩ := assembles
      simp only [List.cons_append, replies, next, Option.map_some, Option.getD_some, ih later,
        List.append_assoc]

theorem replies_messages {p p' : Partial} {frames : List Frame}
    {ms : List (MessageType × List Byte)} (assembles : messages p frames = some (p', ms)) :
    (replies p frames).filter (· matches .message _ _) = ms.map echoed := by
  induction frames generalizing p ms with
  | nil =>
      obtain ⟨-, rfl⟩ := Prod.mk.inj (Option.some.inj assembles)
      rfl
  | cons f rest ih =>
      simp only [messages, bind, Option.bind_eq_some_iff, Option.some.injEq, Prod.mk.injEq]
        at assembles
      obtain ⟨⟨q, new⟩, next, ⟨q', more⟩, later, rfl, rfl⟩ := assembles
      have pongs : (if f.opCode = OpCode.ping then [Outgoing.pong] else []).filter
          (· matches .message _ _) = [] := by
        split <;> rfl
      have kept : (new.map echoed).filter (· matches .message _ _) = new.map echoed := by
        refine List.filter_eq_self.mpr fun o member => ?_
        obtain ⟨m, -, rfl⟩ := List.mem_map.mp member
        rfl
      simp only [replies, Frame.answer, next, Option.map_some, Option.getD_some, List.filter_append,
        pongs, kept, ih later, List.nil_append, List.map_append]

theorem Frame.next_short {f : Frame} {p p' : Partial} {new : List (MessageType × List Byte)}
    (valid : f.Valid) (next : f.next p = some (p', new)) :
    ∀ m ∈ new, m.2.length ≤ Config.maxFragmentedSize := by
  have length := valid.length
  have small : f.payload.length < 65536 := by
    split at length <;> omega
  intro m member
  have rule := rule_of_next valid next
  generalize f.isFin = isFin at rule
  generalize f.opCode = opCode at rule
  generalize f.payload = payload at rule small
  cases rule with
  | single data named =>
      rw [List.mem_singleton.mp member]
      simp only [Config.maxFragmentedSize]
      omega
  | last fits =>
      rw [List.mem_singleton.mp member, List.length_append]
      exact fits
  | _ => cases member

/-! ## The server -/

namespace EchoMsgHandler

/-- What the handler does when it is called: `OnMessage` locks the send mutex, allocates, copies the
    message and sends it; `OnStep` is empty, and `OnClose` deletes the handler. -/
def acts : HandlerCall → List Act
  | .onMessage type msg => [.message type msg]
  | .onStep _ => []
  | .onClose _ => []

end EchoMsgHandler

namespace Echo

/-- What happens to the server from outside. -/
def Outside : Act → Prop
  | .event (.onRead _) | .event (.onStep _) | .event (.posted _) | .written => True
  | _ => False

instance : (a : Act) → Decidable (Outside a)
  | .event (.onRead _) | .event (.onStep _) | .event (.posted _) | .written =>
      inferInstanceAs (Decidable True)
  | .message _ _ | .event (.onWrite _ _) | .event .stop | .event (.allocate _ _)
  | .event .deallocate | .event .send | .event .sendPing | .event (.close _) =>
      inferInstanceAs (Decidable False)

/-- The calls which the act has made. -/
def newCalls (l l' : Line) : List (HandlerCall × Bool) :=
  l'.connection.calls.drop l.connection.calls.length

/-- An act, with the handler at work. The handler is called in the middle of `OnRead`, but what is
    left of it then does not touch the queue. -/
def step (l : Line) (a : Act) : Option Line :=
  if Outside a then do
    let l' ← l.step a
    if ∀ m ∈ newCalls l l', m.2 = true then
      exec Line.step l' ((newCalls l l').flatMap fun m => EchoMsgHandler.acts m.1)
    else
      none
  else
    none

/-- The bytes which the client has sent. -/
def received : List Act → List Byte
  | [] => []
  | .event (.onRead (some data)) :: rest => data ++ received rest
  | _ :: rest => received rest

/-- The client's bytes `got` have come, its first `done` frames have been processed, and everything
    which answers them has been queued. -/
structure Echoing (frames : List Frame) (done : Nat) (got : List Byte) (l : Line) : Prop where
  receiving : ∃ calls, Receiving frames done got { l.connection with calls := calls }
  queued : l.queued = replies none (frames.take done)
  moving : ∃ ps, l.Moving ps
  open_ : l.connection.closeReasons = []

variable {frames : List Frame} {done : Nat} {got data : List Byte} {l l' : Line}

/-- Sending touches the queue alone. -/
def SentFrom (c d : Connection) : Prop :=
  ∃ q mem posts, d = { c with writeBuff := q, writeMem := mem, posts := posts }

theorem exec_sends {ps : List Buffer} {new : List (MessageType × List Byte)} (moving : l.Moving ps)
    (short : ∀ m ∈ new, m.2.length ≤ Config.maxFragmentedSize) :
    ∃ l' ps', exec Line.step l (new.map fun m => .message m.1 m.2) = some l' ∧ l'.Moving ps' ∧
      l'.queued = l.queued ++ new.map echoed ∧ SentFrom l.connection l'.connection := by
  induction new generalizing l ps with
  | nil => exact ⟨l, ps, rfl, moving, (List.append_nil _).symm, _, _, _, rfl⟩
  | cons m rest ih =>
      obtain ⟨type, msg⟩ := m
      have small : msg.length ≤ Config.maxFragmentedSize := short (type, msg) List.mem_cons_self
      simp only [Config.maxFragmentedSize] at small
      have fits : msg.length + 14 < size32 := by
        simp only [size32]
        omega
      have width : (formOf msg.length).width ≤ 8 := by
        cases formOf msg.length <;> decide
      have room : l.connection.writeBuff.Roundable (2 + (formOf msg.length).width + msg.length) := by
        intro _
        simp only [size32]
        omega
      obtain ⟨d, sends, -⟩ := sendMessage_roomy moving.flows.idle type fits room
      obtain ⟨ps', flows, -, posted⟩ := moving.flows.sendMessage fits sends
      have taken : l.step (.message type msg) = some ⟨d, l.queued ++ [.message type msg], l.sent⟩ := by
        simp only [Line.step, sends, Option.map_some]
      have next : Line.Moving ⟨d, l.queued ++ [.message type msg], l.sent⟩ ps' := by
        refine ⟨?_, fun _ => Or.inr posted⟩
        simp only [Line.wires, Line.wires_append]
        exact flows
      obtain ⟨l', ps'', run, moving', queued, same⟩ :=
        ih next fun m member => short m (List.mem_cons_of_mem _ member)
      refine ⟨l', ps'', exec_cons_some.mpr ⟨_, taken, run⟩, moving', ?_, ?_⟩
      · rw [queued, List.append_assoc]
        rfl
      · obtain ⟨_, _, rfl⟩ := Line.sendMessage_eq sends
        obtain ⟨_, _, _, same⟩ := same
        exact ⟨_, _, _, same⟩

theorem closeReasons_of_read {c d : Connection}
    (run : c.handle (.onRead (some data)) = some d) (handler : d.myHandler = true) :
    d.closeReasons = c.closeReasons := by
  have open_ : ∀ {e : Connection}, Shut (c.received data) e → e.myHandler = true →
      e.closeReasons = c.closeReasons := by
    intro e shut handler
    cases shut with
    | closed => rfl
    | told => exact Bool.noConfusion handler
  have read := handle_onRead run
  generalize (c.received data).incoming = x at read
  cases read with
  | waits parsed =>
      obtain ⟨_, _, _, _, rfl⟩ := parsed
      rfl
  | ends reason shut parsed =>
      obtain ⟨_, _, _, _, rfl⟩ := parsed
      have same := open_ shut handler
      exact same
  | goesOn reacts =>
      cases reacts with
      | answer mem parsed =>
          obtain ⟨_, _, _, _, rfl⟩ := parsed
          exact startAsyncWrite_closeReasons _
      | refuse _ real parsed => exact absurd rfl real
      | shut shut parsed =>
          obtain ⟨_, _, _, _, rfl⟩ := parsed
          have same := open_ shut handler
          exact same
      | deliver _ _ parsed | keep parsed | ignore parsed =>
          obtain ⟨_, _, _, _, rfl⟩ := parsed
          rfl

theorem replies_of_read (valid : ValidStream frames) {p p' : Partial}
    {ms ms' : List (MessageType × List Byte)} (before : messages none (frames.take done) = some (p, ms))
    {n : Nat} (le : n ≤ frames.length)
    (after : messages none (frames.take (min (done + 1) n)) = some (p', ms')) (done_le : done ≤ n) :
    ∃ new, ms' = ms ++ new ∧ (∀ m ∈ new, m.2.length ≤ Config.maxFragmentedSize) ∧
      replies none (frames.take (min (done + 1) n)) = replies none (frames.take done) ++
        ((if done < n ∧ ∃ f ∈ frames[done]?, f.opCode = OpCode.ping then [.pong] else []) ++
          new.map echoed) := by
  by_cases more : done < n
  · have inside : done < frames.length := by omega
    have next : frames.drop done = frames[done] :: frames.drop (done + 1) :=
      List.drop_eq_getElem_cons inside
    obtain ⟨validF, q, new, step, whole⟩ := valid.next next before
    rw [Nat.min_eq_left more] at after ⊢
    obtain ⟨-, rfl⟩ := Prod.mk.inj (Option.some.inj (after.symm.trans whole))
    refine ⟨new, rfl, Frame.next_short validF step, ?_⟩
    have taken : frames.take (done + 1) = frames.take done ++ [frames[done]] := by
      rw [List.take_add, next]
      rfl
    have here : (∃ f ∈ frames[done]?, f.opCode = OpCode.ping) ↔
        frames[done].opCode = OpCode.ping := by
      simp only [List.getElem?_eq_getElem inside, Option.mem_def, Option.some.injEq, exists_eq_left']
    rw [taken, replies_append before]
    simp only [replies, Frame.answer, step, Option.map_some, Option.getD_some, List.append_nil, here,
      more, true_and]
  · have same : min (done + 1) n = done := by omega
    rw [same] at after ⊢
    obtain ⟨-, rfl⟩ := Prod.mk.inj (Option.some.inj (before.symm.trans after))
    refine ⟨[], (List.append_nil ms).symm, List.forall_mem_nil _, ?_⟩
    simp only [more, false_and, if_false, List.map_nil, List.append_nil]

/-- A read which has room and whose request does not wrap around is served: the frame which has
    become complete is answered, behind everything that has been queued. -/
theorem Echoing.read (valid : ValidStream frames) (h : Echoing frames done got l)
    (stream : got ++ data <+: frames.flatMap Frame.encode)
    (enabled : Enabled l.connection (.onRead (some data)))
    (requestable : Requestable l.connection (.onRead (some data))) :
    ∃ l', step l (.event (.onRead (some data))) = some l' ∧
      Echoing frames (min (done + 1) (complete frames (got ++ data).length)) (got ++ data) l' := by
  obtain ⟨⟨old, receiving⟩, queued, ⟨ps, moving⟩, open_⟩ := h
  let bare : Connection := { l.connection with calls := [] }
  have own : bare.before l.connection.calls = l.connection := bare_before l.connection _
  have fresh : ({ l.connection with calls := old } : Connection) = bare.before old :=
    (bare_before l.connection old).symm
  rw [fresh] at receiving
  obtain ⟨d', handled, after⟩ := handle_receiving valid receiving stream enabled.2 requestable
  rw [before_onRead] at handled
  obtain ⟨d, run, rfl⟩ := Option.map_eq_some_iff.mp handled
  have taken : l.connection.handle (.onRead (some data)) = some (d.before l.connection.calls) := by
    have served := before_onRead l.connection.calls bare data
    rwa [own, run, Option.map_some] at served
  obtain ⟨p, ms, assembled, delivered⟩ := receiving.delivered
  obtain ⟨p', ms', assembled', delivered'⟩ := after.delivered
  obtain ⟨new, rfl, short, answers⟩ := replies_of_read valid assembled (complete_le _ _) assembled'
    (receiving.received stream enabled.2).done_le
  -- the record of the calls grows by those of the new messages
  have calls : d.calls = new.map fun m => (.onMessage m.1 m.2, true) := by
    have all := delivered'.calls
    have some_ := delivered.calls
    simp only [bare, before, List.append_nil, List.map_append] at all some_
    rw [some_] at all
    exact List.append_cancel_left all
  have handler : (d.before l.connection.calls).myHandler = true := delivered'.handler
  have closeReasons := (closeReasons_of_read taken handler).trans open_
  obtain ⟨ps', moving'⟩ := moving.read taken closeReasons
  have pongs : Line.queues l.connection (.onRead (some data)) =
      if done < complete frames (got ++ data).length ∧
        ∃ f ∈ frames[done]?, f.opCode = OpCode.ping then [.pong] else [] := by
    have now := (receiving.received stream enabled.2).answers_iff valid
    have same : (l.connection.received data).incoming = ((bare.before old).received data).incoming :=
      rfl
    simp only [Line.queues, same, now]
  obtain ⟨l', ps'', sends, moving'', queued', sent⟩ := exec_sends moving' short
  obtain ⟨_, _, _, sent⟩ := sent
  refine ⟨l', ?_, ⟨old ++ d.calls, ?_⟩, ?_, ⟨ps'', moving''⟩, ?_⟩
  · have made : newCalls l ⟨d.before l.connection.calls, l.queued ++ Line.queues l.connection
        (.onRead (some data)), l.sent⟩ = new.map fun m => (.onMessage m.1 m.2, true) := by
      simp only [newCalls, before, List.drop_left, calls]
    have asked : (new.map fun m => (HandlerCall.onMessage m.1 m.2, true)).flatMap
        (fun m => EchoMsgHandler.acts m.1) = new.map fun m => Act.message m.1 m.2 := by
      rw [List.flatMap_map, List.map_eq_flatMap]
      rfl
    have set : ∀ m ∈ new.map fun m => (HandlerCall.onMessage m.1 m.2, true), m.2 = true := by
      intro m member
      obtain ⟨_, -, rfl⟩ := List.mem_map.mp member
      rfl
    simp only [step, if_pos (show Outside (.event (.onRead (some data))) from trivial), Line.step,
      if_pos (show Line.Single (.onRead (some data)) from trivial), Connection.step, if_pos enabled,
      taken, Option.map_some, bind, Option.bind_some, made, if_pos set, asked]
    exact sends
  · rw [sent]
    exact after.same ⟨⟨rfl, rfl⟩, rfl, rfl, rfl, rfl⟩ rfl handler (sent ▸ moving''.flows.idle)
  · rw [queued', queued, pongs, answers, List.append_assoc]
  · rw [sent]
    exact closeReasons

/-- An act besides the reads leaves the input alone. -/
theorem Echoing.other {a : Act} {e : Event} (h : Echoing frames done got l)
    (run : l.step a = some l') (handled : l.connection.handle e = some l'.connection)
    (other : ∀ result, e ≠ .onRead result) (quiet : l.connection.asked e = [])
    (queued : l'.queued = l.queued) (short : Line.Short a)
    (handler : l'.connection.myHandler = true) : Echoing frames done got l' := by
  obtain ⟨⟨old, receiving⟩, before, moving, open_⟩ := h
  have closeReasons : l'.connection.closeReasons = [] := by
    rw [handle_closeReasons handled, open_, quiet, List.append_nil]
  obtain ⟨ps, moving'⟩ := Line.step_flowing l a l' (fun _ => moving) short run closeReasons
  obtain ⟨⟨reads, safe⟩, buffer, length, opCode, message⟩ := handle_sameInput other handled
  exact ⟨⟨old, receiving.same ⟨⟨reads, safe⟩, buffer, length, opCode, message⟩ rfl handler
    moving'.flows.idle⟩, queued.trans before, ⟨ps, moving'⟩, closeReasons⟩

theorem calls_of_other {c d : Connection} {e : Event} (run : c.handle e = some d)
    (outside : Outside (.event e) ∨ ∃ i error, e = .onWrite i error)
    (other : ∀ data, e ≠ .onRead (some data)) :
    (d.calls.drop c.calls.length).flatMap (fun m => EchoMsgHandler.acts m.1) = [] ∧
      ∀ result, e = .onRead result → d.myHandler = false := by
  have closes : ∀ (b : Connection) (reason : CloseReason),
      (b.closeHandler reason).myHandler = false ∧
        ((b.closeHandler reason).calls.drop b.calls.length).flatMap
          (fun m => EchoMsgHandler.acts m.1) = [] := by
    intro b reason
    cases set : b.myHandler with
    | false => simp only [closeHandler, set, Bool.false_eq_true, if_false, List.drop_length,
        List.flatMap_nil, and_self]
    | true =>
        simp only [closeHandler, set, if_true, call, List.drop_left, List.flatMap_cons,
          List.flatMap_nil, EchoMsgHandler.acts, List.append_nil, and_self]
  have nothing : ∀ {b : Connection}, b.calls = c.calls →
      (b.calls.drop c.calls.length).flatMap (fun m => EchoMsgHandler.acts m.1) = [] := by
    intro b same
    rw [same, List.drop_length, List.flatMap_nil]
  cases e with
  | onRead result =>
      cases result with
      | some data => exact absurd rfl (other data)
      | none =>
          obtain rfl := Option.some.inj run
          have closed := closes { c with reads := c.reads - 1, safeRead := true } CloseReason.connError
          exact ⟨closed.2, fun _ _ => closed.1⟩
  | onWrite i error =>
      obtain rfl := Option.some.inj run
      refine ⟨?_, fun _ same => Event.noConfusion same⟩
      cases error with
      | true => exact (closes { c with writes := c.writes.eraseIdx i, safeWrite := true } _).2
      | false =>
          have same := startAsyncWrite_handler { c with
            writes := c.writes.eraseIdx i, safeWrite := true, writeBuff := c.writeBuff.release }
          exact nothing same.1
  | onStep stepInterval =>
      obtain rfl := Option.some.inj run
      refine ⟨?_, fun _ same => Event.noConfusion same⟩
      simp only [onStep]
      split
      · exact (closes { c with silentTime := u32 (c.silentTime + stepInterval) } _).2
      · split
        · simp only [call, List.drop_left, List.flatMap_cons, List.flatMap_nil, EchoMsgHandler.acts,
            List.append_nil]
        · exact nothing rfl
  | posted p =>
      cases p with
      | write | close =>
          obtain rfl := Option.some.inj run
          exact ⟨nothing (startAsyncWrite_handler _).1, fun _ same => Event.noConfusion same⟩
  | _ =>
      rcases outside with outside | ⟨i, error, same⟩
      · exact outside.elim
      · cases same

/-- A read which has gone through has not seen a request wrap around. -/
theorem Echoing.requestable (valid : ValidStream frames) (h : Echoing frames done got l)
    (stream : got ++ data <+: frames.flatMap Frame.encode)
    (fits : Fits l.connection (.onRead (some data))) {c : Connection}
    (run : l.connection.handle (.onRead (some data)) = some c) :
    Requestable l.connection (.onRead (some data)) := by
  obtain ⟨old, receiving⟩ := h.receiving
  let bare : Connection := { l.connection with calls := [] }
  have own : bare.before l.connection.calls = l.connection := bare_before l.connection _
  have fresh : ({ l.connection with calls := old } : Connection) = bare.before old :=
    (bare_before l.connection old).symm
  rw [fresh] at receiving
  have served := before_onRead l.connection.calls bare data
  rw [own, run] at served
  obtain ⟨d, bareRun, -⟩ := Option.map_eq_some_iff.mp served.symm
  have oldRun := before_onRead old bare data
  rw [bareRun, Option.map_some] at oldRun
  have whole : got ++ [data].flatten <+: frames.flatMap Frame.encode := by
    rwa [List.flatten_cons, List.flatten_nil, List.append_nil]
  exact (requestable_of_exec valid receiving whole ⟨fits, fun _ _ => trivial⟩
    (exec_cons_some.mpr ⟨_, oldRun, rfl⟩)).1

theorem step_echoing (valid : ValidStream frames) {a : Act} (h : Echoing frames done got l)
    (stream : got ++ received [a] <+: frames.flatMap Frame.encode) (run : step l a = some l')
    (alive : l'.connection.myHandler = true) :
    ∃ more, Echoing frames more (got ++ received [a]) l' := by
  have outside : Outside a := by
    by_contra inside
    simp only [step, if_neg inside, reduceCtorEq] at run
  simp only [step, if_pos outside, bind, Option.bind_eq_some_iff] at run
  obtain ⟨mid, taken, run⟩ := run
  by_cases set : ∀ m ∈ newCalls l mid, m.2 = true
  case neg => simp only [if_neg set, reduceCtorEq] at run
  have stays : ∀ {e : Event}, l.connection.handle e = some mid.connection →
      (Outside (.event e) ∨ ∃ i error, e = .onWrite i error) → (∀ data, e ≠ .onRead (some data)) →
      mid = l' ∧ ∀ result, e = .onRead result → mid.connection.myHandler = false := by
    intro e handled outside other
    obtain ⟨nothing, closed⟩ := calls_of_other handled outside other
    rw [if_pos set, newCalls, nothing] at run
    exact ⟨Option.some.inj run, closed⟩
  cases a with
  | message type msg => exact outside.elim
  | written =>
      have taken' := taken
      simp only [Line.step] at taken
      split at taken
      · cases taken
      · obtain ⟨c, wrote, rfl⟩ := Option.map_eq_some_iff.mp taken
        have handled := Line.handle_of_step wrote
        obtain ⟨rfl, -⟩ := stays handled (Or.inr ⟨0, false, rfl⟩) fun _ => Event.noConfusion
        refine ⟨done, ?_⟩
        simp only [received, List.append_nil]
        exact h.other taken' handled (fun _ => Event.noConfusion) rfl rfl trivial alive
  | event e =>
      have taken' := taken
      have single := Line.single_of_step taken
      rw [Line.step, if_pos single] at taken
      obtain ⟨c, stepped, rfl⟩ := Option.map_eq_some_iff.mp taken
      have handled := Line.handle_of_step stepped
      cases e with
      | onRead result =>
          cases result with
          | none =>
              obtain ⟨rfl, closed⟩ := stays handled (Or.inl outside) fun _ same => by cases same
              have gone : c.myHandler = false := closed none rfl
              rw [alive] at gone
              cases gone
          | some data =>
              simp only [received, List.append_nil] at stream ⊢
              have enabled : Enabled l.connection (.onRead (some data)) := by
                by_contra refused
                simp only [Connection.step, if_neg refused, reduceCtorEq] at stepped
              have requestable := h.requestable valid stream enabled.2 handled
              obtain ⟨k, served, echoing⟩ := h.read valid stream enabled requestable
              rw [if_pos set] at run
              have again : step l (.event (.onRead (some data))) = some l' := by
                simp only [step, if_pos outside, bind, taken', Option.bind_some, if_pos set]
                exact run
              obtain rfl := Option.some.inj (served.symm.trans again)
              exact ⟨_, echoing⟩
      | onStep | posted =>
          obtain ⟨rfl, -⟩ := stays handled (Or.inl outside) fun _ => Event.noConfusion
          refine ⟨done, ?_⟩
          simp only [received, List.append_nil]
          exact h.other taken' handled (fun _ => Event.noConfusion) rfl (List.append_nil _) trivial alive
      | _ => exact outside.elim

/-! ## Runs -/

theorem handler_of_handle {c d : Connection} {e : Event} (run : c.handle e = some d)
    (alive : d.myHandler = true) : c.myHandler = true := by
  have back : ∀ {b : Connection}, Turn b d → b.myHandler = true := by
    intro b turn
    cases turn with
    | silent calls kept => exact kept alive
    | told handler => exact handler
  by_cases isRead : ∃ data, e = .onRead (some data)
  · obtain ⟨data, rfl⟩ := isRead
    rcases read_turn (handle_onRead run) with ⟨-, turn⟩ | ⟨-, handler, -⟩
    · have before := back turn
      exact before
    · exact handler ▸ alive
  · exact back (handle_turn (fun data same => isRead ⟨data, same⟩) run)

theorem handler_of_step {a : Act} (run : l.step a = some l')
    (alive : l'.connection.myHandler = true) : l.connection.myHandler = true := by
  cases a with
  | event e =>
      rw [Line.step, if_pos (Line.single_of_step run)] at run
      obtain ⟨c, taken, rfl⟩ := Option.map_eq_some_iff.mp run
      exact handler_of_handle (Line.handle_of_step taken) alive
  | message type msg =>
      obtain ⟨c, sends, rfl⟩ := Option.map_eq_some_iff.mp run
      obtain ⟨q, mem, rfl⟩ := Line.sendMessage_eq sends
      exact alive
  | written =>
      simp only [Line.step] at run
      split at run
      · cases run
      · obtain ⟨c, taken, rfl⟩ := Option.map_eq_some_iff.mp run
        exact handler_of_handle (Line.handle_of_step taken) alive

theorem line_of_step {a : Act} (run : step l a = some l') :
    ∃ acts, exec Line.step l acts = some l' := by
  by_cases outside : Outside a
  case neg => simp only [step, if_neg outside, reduceCtorEq] at run
  simp only [step, if_pos outside, bind, Option.bind_eq_some_iff] at run
  obtain ⟨mid, taken, run⟩ := run
  split at run
  · exact ⟨_, exec_cons_some.mpr ⟨mid, taken, run⟩⟩
  · cases run

theorem handler_of_exec {acts : List Act} (run : exec step l acts = some l')
    (alive : l'.connection.myHandler = true) : l.connection.myHandler = true := by
  have line : ∀ {k k' : Line} {acts : List Act}, exec Line.step k acts = some k' →
      k'.connection.myHandler = true → k.connection.myHandler = true :=
    fun {k} _ _ run alive => Run.invariant
      (P := fun m : Line => m.connection.myHandler = true → k.connection.myHandler = true)
      (fun _ _ _ back taken alive => back (handler_of_step taken alive)) id run alive
  refine Run.invariant
    (P := fun m : Line => m.connection.myHandler = true → l.connection.myHandler = true)
    (fun _ _ _ back taken alive => ?_) id run alive
  obtain ⟨acts, run⟩ := line_of_step taken
  exact back (line run alive)

theorem received_cons (a : Act) (rest : List Act) :
    received (a :: rest) = received [a] ++ received rest := by
  cases a with
  | event e =>
      cases e with
      | onRead result =>
          cases result with
          | none => rfl
          | some data => simp only [received, List.append_nil]
      | _ => rfl
  | _ => rfl

theorem exec_echoing (valid : ValidStream frames) {acts : List Act}
    (h : Echoing frames done got l)
    (stream : got ++ received acts <+: frames.flatMap Frame.encode)
    (run : exec step l acts = some l') (alive : l'.connection.myHandler = true) :
    ∃ more, Echoing frames more (got ++ received acts) l' := by
  induction acts generalizing l done got with
  | nil =>
      obtain rfl := Option.some.inj run
      exact ⟨done, by rwa [received, List.append_nil]⟩
  | cons a rest ih =>
      obtain ⟨mid, taken, run⟩ := exec_cons_some.mp run
      rw [received_cons, ← List.append_assoc] at stream ⊢
      obtain ⟨more, next⟩ := step_echoing valid h ((List.prefix_append _ _).trans stream) taken
        (handler_of_exec run alive)
      exact ih next stream run

theorem create_echoing (readMem : Mem Nat Byte) (writeMem : Mem WriteBlock Byte)
    (frames : List Frame) : Echoing frames 0 [] (Line.create readMem writeMem) where
  receiving := ⟨[], create_receiving readMem writeMem frames⟩
  queued := rfl
  moving := ⟨[], Line.create_moving readMem writeMem⟩
  open_ := rfl

/-- Every frame which is there in whole has been processed. -/
def NoFrameLeft (c : Connection) : Prop :=
  ∀ length, c.frameLength = .known length → c.readBuff.available.length < length

theorem Echoing.caught_up (valid : ValidStream frames) (h : Echoing frames done got l)
    (noFrameLeft : NoFrameLeft l.connection) : done = complete frames got.length := by
  obtain ⟨old, receiving⟩ := h.receiving
  have le := receiving.done_le
  by_contra other
  have inside := complete_le frames got.length
  have next : frames.drop done = frames[done] :: frames.drop (done + 1) :=
    List.drop_eq_getElem_cons (by omega)
  have whole := (receiving.next_complete next).mp (by omega)
  obtain ⟨tail, front⟩ := receiving.front_of_next next whole
  have validF := valid.valid _ (List.mem_of_mem_drop (next ▸ List.mem_cons_self))
  have known := frameLength_of_front validF front (receiving.length_of_next next)
  have part := noFrameLeft _ known
  exact absurd whole (Nat.not_le_of_lt part)

/-- The answers to the first frames come first. -/
theorem replies_take (valid : ValidStream frames) (n : Nat) :
    replies none (frames.take n) <+: replies none frames := by
  have all := valid.assembles
  rw [← List.take_append_drop n frames, messages_append] at all
  cases before : messages none (frames.take n) with
  | none =>
      rw [before] at all
      cases all
  | some r =>
      have whole := replies_append before (frames.drop n)
      rw [List.take_append_drop] at whole
      exact ⟨_, whole.symm⟩

theorem Echoing.sent (h : Echoing frames done got l) :
    l.sent ++ l.connection.writeBuff.queuedBytes l.connection.writeMem =
      (replies none (frames.take done)).flatMap Outgoing.wire := by
  obtain ⟨ps, moving⟩ := h.moving
  rw [moving.flows.bytes, Line.wires, h.queued]

/-- Whatever comes in between, the client gets its messages back, with a pong for each ping, as it
    has sent them and in this order; and it has got all of them when no frame is left in the read
    buffer and nothing in the queue. -/
theorem echo_in_order (readMem : Mem Nat Byte) (writeMem : Mem WriteBlock Byte)
    (valid : ValidStream frames) (fits : ∀ o ∈ replies none frames, o.Fits) {acts : List Act}
    (stream : received acts <+: frames.flatMap Frame.encode)
    (run : exec step (Line.create readMem writeMem) acts = some l)
    (alive : l.connection.myHandler = true) :
    Outgoing.receivedBy l.sent <+: (replies none frames).map some ∧
      (NoFrameLeft l.connection →
        l.connection.writeBuff.queuedBytes l.connection.writeMem = [] →
          Outgoing.receivedBy l.sent =
            (replies none (frames.take (complete frames (received acts).length))).map some) := by
  obtain ⟨done, h⟩ := exec_echoing valid (create_echoing readMem writeMem frames) stream run alive
  have bytes := h.sent
  have part := replies_take valid done
  have fits' : ∀ o ∈ replies none (frames.take done), o.Fits :=
    fun o member => fits o (part.subset member)
  refine ⟨(Outgoing.receivedBy_part fits' ⟨_, bytes⟩).trans (part.map some), ?_⟩
  intro noFrameLeft empty
  have all := h.caught_up valid noFrameLeft
  rw [List.nil_append] at all
  rw [empty, List.append_nil] at bytes
  rw [bytes, ← all]
  exact Outgoing.receivedBy_whole fits'

/-- A text message in two fragments, with a ping between them. -/
def greeting : List Frame :=
  [⟨false, OpCode.text, (1, 2, 3, 4), [0x68], false⟩, ⟨true, OpCode.ping, (0, 0, 0, 0), [], false⟩,
    ⟨true, OpCode.continuation, (5, 6, 7, 8), [0x69], false⟩]

theorem greeting_valid : ValidStream greeting where
  valid := by
    intro f member
    simp only [greeting, List.mem_cons, List.not_mem_nil, or_false] at member
    rcases member with rfl | rfl | rfl <;> exact ⟨by decide, by decide, by decide⟩
  assembles := by decide

/-- The frames come in four pieces, with a tick of the timer and the end of a write among them. -/
def greeted : List Act :=
  [.event (.onRead (some [0x01, 0x81, 1, 2])), .event (.onStep 5),
    .event (.onRead (some [3, 4, 0x69, 0x89])), .event (.onRead (some [0x80, 0, 0, 0, 0])), .written,
    .event (.onRead (some [0x80, 0x81, 5, 6, 7, 8, 0x6C]))]

theorem greeted_run :
    ∃ l, exec step (Line.create (fun _ _ => 0) fun _ _ => 0) greeted = some l ∧
      l.connection.myHandler = true ∧ l.sent = [0x8A, 0] ∧ NoFrameLeft l.connection := by
  have states : (exec step (Line.create (fun _ _ => 0) fun _ _ => 0) greeted).map
      (fun l => (l.connection.myHandler, l.sent, l.connection.frameLength)) =
        some (true, [0x8A, 0], .wanted 2) := by decide +kernel
  obtain ⟨l, run, same⟩ := Option.map_eq_some_iff.mp states
  simp only [Prod.mk.injEq] at same
  refine ⟨l, run, same.1, same.2.1, fun length known => ?_⟩
  rw [same.2.2] at known
  cases known

theorem echo_in_order_greeted :
    ∃ l, exec step (Line.create (fun _ _ => 0) fun _ _ => 0) greeted = some l ∧
      l.sent = [0x8A, 0] ∧
      Outgoing.receivedBy l.sent <+: [some .pong, some (.message .text [0x68, 0x69])] := by
  obtain ⟨l, run, alive, sent, -⟩ := greeted_run
  exact ⟨l, run, sent, (echo_in_order _ _ greeting_valid (by decide) (by decide) run alive).1⟩

/-! ## Nothing is left behind -/

theorem step_of_write {a : Act} (write : a = .event (.posted .write) ∨ a = .written)
    (run : l.step a = some l') : step l a = some l' := by
  have same : l'.connection.calls = l.connection.calls := by
    rcases write with rfl | rfl
    · rw [Line.step, if_pos (show Line.Single (.posted .write) from trivial)] at run
      obtain ⟨c, taken, rfl⟩ := Option.map_eq_some_iff.mp run
      obtain rfl := Option.some.inj (Line.handle_of_step taken)
      exact (startAsyncWrite_handler { l.connection with
        posts := l.connection.posts.erase .write }).1
    · simp only [Line.step] at run
      split at run
      · cases run
      · obtain ⟨c, taken, rfl⟩ := Option.map_eq_some_iff.mp run
        obtain rfl := Option.some.inj (Line.handle_of_step taken)
        have quiet := startAsyncWrite_handler { l.connection with
          writes := l.connection.writes.eraseIdx 0
          safeWrite := true
          writeBuff := l.connection.writeBuff.release }
        exact quiet.1
  have outside : Outside a := by
    rcases write with rfl | rfl <;> trivial
  have none_ : newCalls l l' = [] := by rw [newCalls, same, List.drop_length]
  simp only [step, if_pos outside, run, bind, Option.bind_some, none_,
    if_pos (List.forall_mem_nil _), List.flatMap_nil, exec_nil]

theorem exec_of_writes {acts : List Act}
    (writes : ∀ a ∈ acts, a = .event (.posted .write) ∨ a = .written)
    (run : exec Line.step l acts = some l') : exec step l acts = some l' := by
  induction acts generalizing l with
  | nil => exact run
  | cons a rest ih =>
      obtain ⟨mid, taken, run⟩ := exec_cons_some.mp run
      exact exec_cons_some.mpr ⟨mid, step_of_write (writes a List.mem_cons_self) taken,
        ih (fun b member => writes b (List.mem_cons_of_mem a member)) run⟩

/-- Once no frame is left in the read buffer, the client gets all its messages back without any more
    help of its own. -/
theorem echo_arrives (readMem : Mem Nat Byte) (writeMem : Mem WriteBlock Byte)
    (valid : ValidStream frames) (fits : ∀ o ∈ replies none frames, o.Fits) {acts : List Act}
    (stream : received acts <+: frames.flatMap Frame.encode)
    (run : exec step (Line.create readMem writeMem) acts = some l)
    (alive : l.connection.myHandler = true) (noFrameLeft : NoFrameLeft l.connection) :
    ∃ more l', (∀ a ∈ more, a = .event (.posted .write) ∨ a = .written) ∧
      exec step l more = some l' ∧
      Outgoing.receivedBy l'.sent =
        (replies none (frames.take (complete frames (received acts).length))).map some := by
  obtain ⟨done, h⟩ := exec_echoing valid (create_echoing readMem writeMem frames) stream run alive
  obtain ⟨ps, moving⟩ := h.moving
  obtain ⟨first, n, l', shape, drained, sent⟩ := moving.arrives
  have writes : ∀ a ∈ first ++ List.replicate n .written,
      a = .event (.posted .write) ∨ a = .written := by
    intro a member
    rcases List.mem_append.mp member with early | late
    · rcases shape with rfl | rfl
      · cases early
      · exact Or.inl (List.mem_singleton.mp early)
    · exact Or.inr (List.eq_of_mem_replicate late)
  have all := h.caught_up valid noFrameLeft
  rw [List.nil_append] at all
  refine ⟨_, l', writes, exec_of_writes writes drained, ?_⟩
  rw [sent, Line.wires, h.queued, ← all]
  exact Outgoing.receivedBy_whole fun o member => fits o ((replies_take valid done).subset member)

theorem echo_arrives_greeted :
    ∃ l more l', exec step (Line.create (fun _ _ => 0) fun _ _ => 0) greeted = some l ∧
      exec step l more = some l' ∧
      Outgoing.receivedBy l'.sent = [some .pong, some (.message .text [0x68, 0x69])] := by
  obtain ⟨l, run, alive, -, noFrameLeft⟩ := greeted_run
  obtain ⟨more, l', -, drained, arrives⟩ :=
    echo_arrives _ _ greeting_valid (by decide) (by decide) run alive noFrameLeft
  exact ⟨l, more, l', run, drained, arrives⟩

end Echo

end MiniWebSrv.WebSocket
