import MiniWebSrv.Common.WriteBuffQueueShape
import MiniWebSrv.WebSocket.Frame
import MiniWebSrv.WebSocket.Step

/-! # Fragments

How a message is made up of frames, and what `ProcessFrame` does with the payload of a frame
which keeps to that, or which does not.
-/

namespace MiniWebSrv.WebSocket

/-- What a frame adds to the fragments received so far, where the protocol allows it there: the
    fragments behind it, and the message it completes. -/
inductive Rule : Partial → Bool → OpCode → List Byte → Partial → List (MessageType × List Byte) → Prop
  /-- A control frame may come between the fragments. -/
  | control {p : Partial} {op : OpCode} {data : List Byte} (named : op = OpCode.ping ∨ op = OpCode.pong) :
      Rule p true op data p []
  | single {op : OpCode} {data : List Byte} (isData : op < OpCode.controlBegin)
      (first : op ≠ OpCode.continuation) : Rule none true op data none [(getMessageType op, data)]
  | first {op : OpCode} {data : List Byte} (isData : op < OpCode.controlBegin)
      (first : op ≠ OpCode.continuation) :
      Rule none false op data (some (getMessageType op, data)) []
  | middle {type : MessageType} {prior data : List Byte}
      (short : prior.length + data.length ≤ Config.maxFragmentedSize) :
      Rule (some (type, prior)) false OpCode.continuation data (some (type, prior ++ data)) []
  | last {type : MessageType} {prior data : List Byte}
      (short : prior.length + data.length ≤ Config.maxFragmentedSize) :
      Rule (some (type, prior)) true OpCode.continuation data none [(type, prior ++ data)]

namespace Connection

open WriteBuffQueue

/-- The connection has the fragments of `p`. -/
def Keeps (c : Connection) : Partial → Prop
  | none => c.fragOpCode = OpCode.continuation
  | some (type, data) => c.fragOpCode ≠ OpCode.continuation ∧
      getMessageType c.fragOpCode = type ∧ c.fragMsgData = data

theorem sendControlFrame_idle {c : Connection} (idle : c.writeBuff.Idle) (opCode : OpCode) :
    ∃ mem, c.sendControlFrame opCode = some (true, c.queued 2 mem) ∧
      (c.queued 2 mem).writeBuff.Idle := by
  obtain ⟨ret, q', room, next, inside⟩ := idle.push 2 (by decide) (by decide) 2
  have fits : ret.off + 2 ≤ blockSize q' ret.block := le_blockSize inside
  refine ⟨c.writeMem.write ret [flagFin ||| opCode, 0], ?_, ?_⟩
  · simp only [sendControlFrame, room, store, List.length_cons, List.length_nil, Nat.zero_add,
      if_pos fits, queued, bind, Option.bind_some]
  · simpa only [queued, room] using next

theorem startAsyncWrite_idle {c : Connection} (idle : c.writeBuff.Idle) :
    c.startAsyncWrite.writeBuff.Idle := by
  by_cases safe : c.safeWrite
  · simp only [startAsyncWrite, if_pos safe, startWrites_eq]
    exact idle.popAll _
  · simpa only [startAsyncWrite, if_neg safe] using idle

/-- What processing the payload of a frame leaves alone. -/
structure Settled (c d : Connection) : Prop where
  readBuff : d.readBuff = c.readBuff
  length : d.currFrameLength = c.currFrameLength
  handler : d.myHandler = c.myHandler
  queue : d.writeBuff.Idle

/-- A frame which obeys the fragmentation rules is processed as they say. -/
theorem processPayload_follows {c : Connection} {fin : Bool} {op : OpCode} {data : List Byte}
    {payload : Ptr Nat} {p p' : Partial} {new : List (MessageType × List Byte)}
    (rule : Rule p fin op data p' new) (keeps : Keeps c p) (queue : c.writeBuff.Idle)
    (inside : payload.off + data.length ≤ c.readBuff.buffLength)
    (bytes : c.readBuff.mem.read payload data.length = data) :
    ∃ d, c.processPayload fin op payload data.length = some (CloseReason.none, d) ∧
      Settled c d ∧ Keeps d p' ∧
      d.calls = c.calls ++ new.map fun m => (.onMessage m.1 m.2, c.myHandler) := by
  have taken : c.payloadBytes payload data.length = some data := by
    simp only [payloadBytes, if_pos inside, bytes]
  have continues : OpCode.continuation < OpCode.controlBegin := by decide
  cases rule with
  | control named =>
      have control : ¬op < OpCode.controlBegin := by
        rcases named with rfl | rfl <;> decide
      simp only [processPayload, if_true, if_neg control, List.map_nil, List.append_nil]
      rcases named with rfl | rfl
      · obtain ⟨mem, sends, idle⟩ := sendControlFrame_idle queue OpCode.pong
        obtain ⟨ranges, q, same, -⟩ := (c.queued 2 mem).startAsyncWrite_eq
        refine ⟨(c.queued 2 mem).startAsyncWrite, ?_, ⟨?_, ?_, ?_, startAsyncWrite_idle idle⟩, ?_, ?_⟩
        · have other : ¬OpCode.ping = OpCode.pong := by decide
          simp only [processControlFrame, if_neg other, if_true, sends, bind, Option.bind_some]
        · rw [same]
          rfl
        · rw [same]
          rfl
        · rw [same]
          rfl
        · rw [same]
          cases p <;> exact keeps
        · rw [same]
          rfl
      · exact ⟨c, by simp only [processControlFrame, if_true], ⟨rfl, rfl, rfl, queue⟩, keeps, rfl⟩
  | single isData first =>
      have more : ¬(c.fragOpCode ≠ OpCode.continuation ∧ op = OpCode.continuation) :=
        fun both => first both.2
      have fresh : c.fragOpCode = OpCode.continuation ∧ op ≠ OpCode.continuation := ⟨keeps, first⟩
      refine ⟨c.call (.onMessage (getMessageType op) (c.readBuff.mem.read payload data.length)), ?_,
        ⟨rfl, rfl, rfl, queue⟩, keeps, ?_⟩
      · simp only [processPayload, if_true, if_pos isData, if_neg more, if_pos fresh]
      · rw [bytes]
        rfl
  | first isData first =>
      have more : ¬(c.fragOpCode ≠ OpCode.continuation ∧ op = OpCode.continuation) :=
        fun both => first both.2
      have fresh : c.fragOpCode = OpCode.continuation ∧ op ≠ OpCode.continuation := ⟨keeps, first⟩
      refine ⟨{ c with fragMsgData := data, fragOpCode := op }, ?_, ⟨rfl, rfl, rfl, queue⟩,
        ⟨first, rfl, rfl⟩, (List.append_nil _).symm⟩
      simp only [processPayload, Bool.false_eq_true, if_false, if_pos isData, if_neg more,
        if_pos fresh, taken, bind, Option.bind_some]
  | @middle type prior _ short =>
      obtain ⟨fragment, type_, prior_⟩ := keeps
      have more : c.fragOpCode ≠ OpCode.continuation ∧ True := ⟨fragment, trivial⟩
      have fits : ¬Config.maxFragmentedSize < c.fragMsgData.length + data.length := by
        rw [prior_]
        exact Nat.not_lt.mpr short
      refine ⟨{ c with fragMsgData := c.fragMsgData ++ data }, ?_, ⟨rfl, rfl, rfl, queue⟩,
        ⟨fragment, type_, by rw [← prior_]⟩, (List.append_nil _).symm⟩
      simp only [processPayload, Bool.false_eq_true, if_false, if_pos continues, if_pos more,
        if_neg fits, taken, bind, Option.bind_some]
  | @last type prior _ short =>
      obtain ⟨fragment, type_, prior_⟩ := keeps
      have more : c.fragOpCode ≠ OpCode.continuation ∧ True := ⟨fragment, trivial⟩
      have fits : ¬Config.maxFragmentedSize < c.fragMsgData.length + data.length := by
        rw [prior_]
        exact Nat.not_lt.mpr short
      let e : Connection := { c with fragMsgData := c.fragMsgData ++ data }
      let told : Connection := e.call (.onMessage (getMessageType e.fragOpCode) e.fragMsgData)
      refine ⟨{ told with fragMsgData := [], fragOpCode := OpCode.continuation }, ?_,
        ⟨rfl, rfl, rfl, queue⟩, rfl, ?_⟩
      · simp only [processPayload, if_true, if_pos continues, if_pos more, if_neg fits, taken, bind,
          Option.bind_some]
        rfl
      · simp only [told, e, call, type_, prior_, List.map_cons, List.map_nil]

end Connection

end MiniWebSrv.WebSocket
