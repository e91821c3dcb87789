import MiniWebSrv.WebSocket.Connection

/-! # What an event can do

`Reaction` says what the frame in front of the read buffer makes the connection do, and
the lemmas here say what each event does to the calls, the handler, the write queue and
the outstanding operations. Everything about runs is proved from these.
-/

namespace MiniWebSrv.WebSocket.Connection

open Word WriteBuffQueue

/-! ## Writing -/

theorem startWrites_eq (n : Nat) (c : Connection) :
    c.startWrites n = { c with
      writeBuff := (popAll n c.writeBuff).2
      safeWrite := c.safeWrite && (popAll n c.writeBuff).1.isEmpty
      writes := c.writes ++ (popAll n c.writeBuff).1 } := by
  induction n generalizing c with
  | zero => simp [startWrites, popAll]
  | succ n ih =>
      cases run : c.writeBuff.pop with
      | mk range q =>
          cases range with
          | none => simp [startWrites, popAll, run]
          | some range => simp [startWrites, popAll, run, ih]

/-- Every buffer not popped yet is written when the write side is idle, and nothing happens
    when it is not. -/
theorem startAsyncWrite_eq (c : Connection) :
    ∃ ranges q, c.startAsyncWrite = { c with
        writeBuff := q
        safeWrite := c.safeWrite && ranges.isEmpty
        writes := c.writes ++ ranges } ∧
      ranges.length = (if c.safeWrite then c.writeBuff.unpopped else 0) := by
  by_cases safe : c.safeWrite
  · refine ⟨(popAll (c.writeBuff.outBuffA.length + 1) c.writeBuff).1,
      (popAll (c.writeBuff.outBuffA.length + 1) c.writeBuff).2, ?_, ?_⟩
    · simp only [startAsyncWrite, if_pos safe, startWrites_eq]
    · rw [if_pos safe]
      exact popAll_length (by simp only [unpopped]; omega)
  · refine ⟨[], c.writeBuff, ?_, by simp [safe]⟩
    simp only [startAsyncWrite, if_neg safe, List.isEmpty_nil, Bool.and_true, List.append_nil]

/-- A control frame of `length` bytes joins the queue, and is written at once when the write
    side is idle. -/
def queued (c : Connection) (length : Nat) (mem : Mem WriteBlock Byte) : Connection :=
  { c with
    writeBuff := (c.writeBuff.allocate length).2.commit length
    writeMem := mem }

/-- A close frame joins the queue. -/
def queuedClose (c : Connection) (reason : CloseReason) (mem : Mem WriteBlock Byte) : Connection :=
  { c.queued 4 mem with closeReasons := c.closeReasons ++ [reason] }

theorem store_some {c c' : Connection} {p : WritePtr} {bytes : List Byte}
    (run : c.store p bytes = some c') : c' = { c with writeMem := c.writeMem.write p bytes } := by
  simp only [store] at run
  split at run
  · exact (Option.some.inj run).symm
  · simp at run

/-- `Allocate` puts a header into the queue's memory. -/
theorem allocate_eq {c d : Connection} {type : MessageType} {length : Nat} {ret : Option WritePtr}
    (run : c.allocate type length = some (ret, d)) :
    ∃ q mem, d = { c with writeBuff := q, writeMem := mem } := by
  simp only [allocate] at run
  split at run
  · simp only [bind, Option.bind_eq_some_iff, Option.some.injEq, Prod.mk.injEq] at run
    obtain ⟨e, stored, -, rfl⟩ := run
    rw [store_some stored]
    exact ⟨_, _, rfl⟩
  · obtain ⟨-, rfl⟩ := Prod.mk.inj (Option.some.inj run)
    exact ⟨_, _, rfl⟩

theorem sendControlFrame_some {c c' : Connection} {opCode : OpCode} {sent : Bool}
    (run : c.sendControlFrame opCode = some (sent, c')) :
    sent = true ∧ ∃ mem, c' = c.queued 2 mem := by
  obtain ⟨ret, q, room⟩ := c.writeBuff.allocate_some 2 (by decide)
  simp only [sendControlFrame, room, bind, Option.bind_eq_some_iff, Option.some.injEq,
    Prod.mk.injEq] at run
  obtain ⟨c1, stored, rfl, rfl⟩ := run
  refine ⟨rfl, c.writeMem.write ret [flagFin ||| opCode, 0], ?_⟩
  simp only [store_some stored, queued, room]

theorem sendCloseInternal_some {c c' : Connection} {reason : CloseReason} {sent : Bool}
    (run : c.sendCloseInternal reason = some (sent, c')) :
    sent = true ∧ ∃ mem, c' = c.queuedClose reason mem := by
  obtain ⟨ret, q, room⟩ := c.writeBuff.allocate_some 4 (by decide)
  simp only [sendCloseInternal, room, bind, Option.bind_eq_some_iff, Option.some.injEq,
    Prod.mk.injEq] at run
  obtain ⟨c1, stored1, c2, stored2, rfl, rfl⟩ := run
  refine ⟨rfl, (c.writeMem.write ret [flagFin ||| OpCode.close, 2]).write (ret.add 4)
    (big16 reason), ?_⟩
  simp only [store_some stored2, store_some stored1, queuedClose, queued, room]

/-- The handler, when there is one, is told, a close frame is queued and the handler is
    forgotten. -/
inductive Shut (c : Connection) : Connection → Prop
  | closed (handler : c.myHandler = false) : Shut c c
  | told (handler : c.myHandler = true) (reason : CloseReason) (mem : Mem WriteBlock Byte) :
      Shut c { ((c.call (.onClose reason)).queuedClose reason mem).startAsyncWrite with
        myHandler := false }

/-- `OnClose` and forgetting the handler touch nothing else. -/
theorem closeHandler_eq (c : Connection) (reason : CloseReason) :
    ∃ calls handler, c.closeHandler reason = { c with calls := calls, myHandler := handler } := by
  simp only [closeHandler]
  split
  · exact ⟨_, _, rfl⟩
  · exact ⟨_, _, rfl⟩

theorem handle_readError {c d : Connection} (run : c.handle (.onRead none) = some d) :
    ∃ calls handler, d = { c with
      reads := c.reads - 1, safeRead := true, calls := calls, myHandler := handler } := by
  obtain rfl := Option.some.inj run
  exact closeHandler_eq { c with reads := c.reads - 1, safeRead := true } CloseReason.connError

theorem onStep_eq (c : Connection) (stepInterval : Nat) : ∃ silentTime calls handler,
    (c.onStep stepInterval).2 = { c with
      silentTime := silentTime, calls := calls, myHandler := handler } := by
  simp only [onStep]
  split
  · obtain ⟨_, _, same⟩ := closeHandler_eq
      { c with silentTime := u32 (c.silentTime + stepInterval) } CloseReason.connError
    rw [same]
    exact ⟨_, _, _, rfl⟩
  · split
    · exact ⟨_, _, _, rfl⟩
    · exact ⟨_, _, _, rfl⟩

theorem onProtocolError_some {c c' : Connection} {reason : CloseReason}
    (run : c.onProtocolError reason = some c') : Shut c c' := by
  cases handler : c.myHandler with
  | false =>
      simp only [onProtocolError, handler, Bool.false_eq_true, if_false, Option.some.injEq] at run
      exact run ▸ .closed handler
  | true =>
      simp only [onProtocolError, handler, if_true, bind, Option.bind_eq_some_iff] at run
      obtain ⟨⟨sent, c1⟩, sends, run⟩ := run
      obtain ⟨rfl, mem, rfl⟩ := sendCloseInternal_some sends
      simp only [if_true, Option.some.injEq] at run
      exact run ▸ .told handler reason mem

/-! ## Frames -/

/-- What a frame makes the connection do. -/
inductive Reaction where
  /-- A message is complete. -/
  | deliver
  /-- A fragment is kept. -/
  | keep
  | ignore
  /-- A ping is answered. -/
  | answer
  /-- The peer closes the connection. -/
  | shut
  | refuse (reason : CloseReason)
  deriving DecidableEq, Repr

def reaction (c : Connection) (isFin : Bool) (opCode : OpCode) (length : Nat) : Reaction :=
  if opCode < OpCode.controlBegin then
    if c.fragOpCode ≠ OpCode.continuation ∧ opCode = OpCode.continuation then
      if Config.maxFragmentedSize < c.fragMsgData.length + length then
        .refuse CloseReason.sizeLimit
      else if isFin then .deliver else .keep
    else if c.fragOpCode = OpCode.continuation ∧ opCode ≠ OpCode.continuation then
      if isFin then .deliver else .keep
    else
      .refuse CloseReason.protError
  else if isFin then
    if opCode = OpCode.pong then .ignore
    else if opCode = OpCode.ping then .answer
    else if opCode = OpCode.close then .shut
    else .refuse CloseReason.protError
  else
    .refuse CloseReason.protError

/-- What the bytes received so far make the connection do, if they make it do anything. -/
def incoming (c : Connection) : Option Reaction :=
  match c.frameLength with
  | .wanted _ => none
  | .known length =>
      if Config.maxFrameSize < length then
        some (.refuse CloseReason.sizeLimit)
      else if c.readBuff.getAvailableData.2 < length then
        none
      else
        let h := frameHeader c.readBuff.mem c.readBuff.getAvailableData.1 length
        some (c.reaction h.isFin h.opCode h.length)

/-- Only what belongs to the parsing of frames may differ. -/
def Parsed (c c' : Connection) : Prop := ∃ length b opCode data,
  c' = { c with
    currFrameLength := length, readBuff := b, fragOpCode := opCode, fragMsgData := data }

theorem Parsed.refl (c : Connection) : Parsed c c := ⟨_, _, _, _, rfl⟩

theorem Parsed.trans {c c' c'' : Connection} (h : Parsed c c') (h' : Parsed c' c'') :
    Parsed c c'' := by
  obtain ⟨_, _, _, _, rfl⟩ := h
  obtain ⟨_, _, _, _, rfl⟩ := h'
  exact ⟨_, _, _, _, rfl⟩

/-- Writing does not look at what belongs to the parsing. -/
theorem Parsed.startAsyncWrite {c c' : Connection} (h : Parsed c c') :
    Parsed c.startAsyncWrite c'.startAsyncWrite := by
  obtain ⟨_, _, _, _, rfl⟩ := h
  by_cases safe : c.safeWrite
  · simp only [Connection.startAsyncWrite, safe, if_true, startWrites_eq]
    exact ⟨_, _, _, _, rfl⟩
  · simp only [Connection.startAsyncWrite, if_neg safe]
    exact ⟨_, _, _, _, rfl⟩

theorem Parsed.queued {c c' : Connection} (h : Parsed c c') (length : Nat)
    (mem : Mem WriteBlock Byte) : Parsed (c.queued length mem) (c'.queued length mem) := by
  obtain ⟨_, _, _, _, rfl⟩ := h
  exact ⟨_, _, _, _, rfl⟩

theorem Parsed.queuedClose {c c' : Connection} (h : Parsed c c') (reason : CloseReason)
    (mem : Mem WriteBlock Byte) : Parsed (c.queuedClose reason mem) (c'.queuedClose reason mem) := by
  obtain ⟨_, _, _, _, rfl⟩ := h
  exact ⟨_, _, _, _, rfl⟩

theorem Parsed.call {c c' : Connection} (h : Parsed c c') (m : HandlerCall) :
    Parsed (c.call m) (c'.call m) := by
  obtain ⟨_, _, _, _, rfl⟩ := h
  exact ⟨_, _, _, _, rfl⟩

theorem Parsed.myHandler {c c' : Connection} (h : Parsed c c') : c'.myHandler = c.myHandler := by
  obtain ⟨_, _, _, _, rfl⟩ := h
  rfl

theorem Parsed.shut {c c' d : Connection} (h : Parsed c c') (shut : Shut c' d) :
    ∃ d', Shut c d' ∧ Parsed d' d := by
  cases shut with
  | closed handler => exact ⟨c, .closed (h.myHandler ▸ handler), h⟩
  | told handler reason mem =>
      refine ⟨_, .told (h.myHandler ▸ handler) reason mem, ?_⟩
      obtain ⟨_, _, _, _, same⟩ := ((h.call (.onClose reason)).queuedClose reason mem).startAsyncWrite
      rw [same]
      exact ⟨_, _, _, _, rfl⟩

/-- The connection behind a reaction, with the reason which `ProcessIncoming` returns. -/
inductive Reacts (c : Connection) : Reaction → CloseReason → Connection → Prop
  | deliver {c' : Connection} (type : MessageType) (msg : List Byte)
      (parsed : Parsed (c.call (.onMessage type msg)) c') : Reacts c .deliver CloseReason.none c'
  | keep {c' : Connection} (parsed : Parsed c c') : Reacts c .keep CloseReason.none c'
  | ignore {c' : Connection} (parsed : Parsed c c') : Reacts c .ignore CloseReason.none c'
  | answer {c' : Connection} (mem : Mem WriteBlock Byte)
      (parsed : Parsed (c.queued 2 mem).startAsyncWrite c') : Reacts c .answer CloseReason.none c'
  | shut {c' d : Connection} (shut : Shut c d) (parsed : Parsed d c') :
      Reacts c .shut CloseReason.none c'
  | refuse {c' : Connection} (reason : CloseReason) (real : reason ≠ CloseReason.none)
      (parsed : Parsed c c') : Reacts c (.refuse reason) reason c'

theorem Reacts.after {c c' d : Connection} {x : Reaction} {r : CloseReason}
    (reacts : Reacts c x r c') (h : Parsed c' d) : Reacts c x r d := by
  cases reacts with
  | deliver type msg parsed => exact .deliver type msg (parsed.trans h)
  | keep parsed => exact .keep (parsed.trans h)
  | ignore parsed => exact .ignore (parsed.trans h)
  | answer mem parsed => exact .answer mem (parsed.trans h)
  | shut shut parsed => exact .shut shut (parsed.trans h)
  | refuse _ real parsed => exact .refuse _ real (parsed.trans h)

theorem Reacts.before {c c' d : Connection} {x : Reaction} {r : CloseReason} (h : Parsed c c')
    (reacts : Reacts c' x r d) : Reacts c x r d := by
  cases reacts with
  | deliver type msg parsed => exact .deliver type msg ((h.call _).trans parsed)
  | keep parsed => exact .keep (h.trans parsed)
  | ignore parsed => exact .ignore (h.trans parsed)
  | answer mem parsed => exact .answer mem ((h.queued 2 mem).startAsyncWrite.trans parsed)
  | shut shut parsed =>
      obtain ⟨d', shut, inner⟩ := h.shut shut
      exact .shut shut (inner.trans parsed)
  | refuse _ real parsed => exact .refuse _ real (h.trans parsed)

theorem processControlFrame_some {c c' : Connection} {opCode : OpCode} {payload : Ptr Nat}
    {length : Nat} {r : CloseReason}
    (run : c.processControlFrame opCode payload length = some (r, c'))
    (control : ¬ opCode < OpCode.controlBegin) : Reacts c (c.reaction true opCode length) r c' := by
  simp only [reaction, if_neg control, if_true]
  by_cases pong : opCode = OpCode.pong
  · simp only [processControlFrame, if_pos pong, Option.some.injEq, Prod.mk.injEq] at run
    obtain ⟨rfl, rfl⟩ := run
    rw [if_pos pong]
    exact .ignore (.refl c)
  simp only [processControlFrame, if_neg pong] at run
  rw [if_neg pong]
  by_cases ping : opCode = OpCode.ping
  · simp only [if_pos ping, bind, Option.bind_eq_some_iff, Option.some.injEq, Prod.mk.injEq] at run
    obtain ⟨⟨sent, c1⟩, sends, rfl, rfl⟩ := run
    obtain ⟨rfl, mem, rfl⟩ := sendControlFrame_some sends
    rw [if_pos ping]
    exact .answer mem (.refl _)
  rw [if_neg ping] at run ⊢
  by_cases close : opCode = OpCode.close
  · rw [if_pos close] at run ⊢
    cases handler : c.myHandler with
    | false =>
        simp only [handler, Bool.false_eq_true, if_false, Option.some.injEq, Prod.mk.injEq] at run
        obtain ⟨rfl, rfl⟩ := run
        exact .shut (.closed handler) (.refl c)
    | true =>
        simp only [handler, if_true] at run
        split at run
        · simp at run
        · simp only [bind, Option.bind_eq_some_iff, Option.some.injEq, Prod.mk.injEq] at run
          obtain ⟨⟨sent, c1⟩, sends, rfl, rfl⟩ := run
          obtain ⟨rfl, mem, rfl⟩ := sendCloseInternal_some sends
          exact .shut (.told handler _ mem) (.refl _)
  · simp only [if_neg close, Option.some.injEq, Prod.mk.injEq] at run ⊢
    obtain ⟨rfl, rfl⟩ := run
    exact .refuse _ (by decide) (.refl c)

theorem processPayload_some {c c' : Connection} {isFin : Bool} {opCode : OpCode} {payload : Ptr Nat}
    {length : Nat} {r : CloseReason}
    (run : c.processPayload isFin opCode payload length = some (r, c')) :
    Reacts c (c.reaction isFin opCode length) r c' := by
  by_cases data : opCode < OpCode.controlBegin
  case neg =>
    cases isFin with
    | true =>
        simp only [processPayload, if_true, if_neg data] at run
        exact processControlFrame_some run data
    | false =>
        simp only [processPayload, Bool.false_eq_true, if_false, if_neg data, Option.some.injEq,
          Prod.mk.injEq] at run
        obtain ⟨rfl, rfl⟩ := run
        simp only [reaction, if_neg data, Bool.false_eq_true, if_false]
        exact .refuse _ (by decide) (.refl c)
  case pos =>
    by_cases more : c.fragOpCode ≠ OpCode.continuation ∧ opCode = OpCode.continuation
    · by_cases long : Config.maxFragmentedSize < c.fragMsgData.length + length
      · cases isFin <;>
        · simp only [processPayload, Bool.false_eq_true, if_false, if_true, if_pos data, if_pos more,
            if_pos long, Option.some.injEq, Prod.mk.injEq] at run
          obtain ⟨rfl, rfl⟩ := run
          simp only [reaction, if_pos data, if_pos more, if_pos long]
          exact .refuse _ (by decide) (.refl c)
      · cases isFin with
        | true =>
            simp only [processPayload, if_true, if_pos data, if_pos more, if_neg long, bind,
              Option.bind_eq_some_iff, Option.some.injEq, Prod.mk.injEq] at run
            obtain ⟨bytes, -, rfl, rfl⟩ := run
            simp only [reaction, if_pos data, if_pos more, if_neg long, if_true]
            exact .deliver _ _ ⟨_, _, _, _, rfl⟩
        | false =>
            simp only [processPayload, Bool.false_eq_true, if_false, if_pos data, if_pos more,
              if_neg long, bind, Option.bind_eq_some_iff, Option.some.injEq, Prod.mk.injEq] at run
            obtain ⟨bytes, -, rfl, rfl⟩ := run
            simp only [reaction, if_pos data, if_pos more, if_neg long, Bool.false_eq_true, if_false]
            exact .keep ⟨_, _, _, _, rfl⟩
    · by_cases first : c.fragOpCode = OpCode.continuation ∧ opCode ≠ OpCode.continuation
      · cases isFin with
        | true =>
            simp only [processPayload, if_true, if_pos data, if_neg more, if_pos first,
              Option.some.injEq, Prod.mk.injEq] at run
            obtain ⟨rfl, rfl⟩ := run
            simp only [reaction, if_pos data, if_neg more, if_pos first, if_true]
            exact .deliver _ _ (.refl _)
        | false =>
            simp only [processPayload, Bool.false_eq_true, if_false, if_pos data, if_neg more,
              if_pos first, bind, Option.bind_eq_some_iff, Option.some.injEq, Prod.mk.injEq] at run
            obtain ⟨bytes, -, rfl, rfl⟩ := run
            simp only [reaction, if_pos data, if_neg more, if_pos first, Bool.false_eq_true, if_false]
            exact .keep ⟨_, _, _, _, rfl⟩
      · cases isFin <;>
        · simp only [processPayload, Bool.false_eq_true, if_false, if_true, if_pos data, if_neg more,
            if_neg first, Option.some.injEq, Prod.mk.injEq] at run
          obtain ⟨rfl, rfl⟩ := run
          simp only [reaction, if_pos data, if_neg more, if_neg first]
          exact .refuse _ (by decide) (.refl c)

theorem processFrame_some {c c' : Connection} {buff : Ptr Nat} {length : Nat} {r : CloseReason}
    (run : c.processFrame buff length = some (r, c')) :
    Reacts c (c.reaction (frameHeader c.readBuff.mem buff length).isFin
      (frameHeader c.readBuff.mem buff length).opCode
      (frameHeader c.readBuff.mem buff length).length) r c' := by
  simp only [processFrame] at run
  split at run
  · split at run
    · have reacts := processPayload_some run
      exact .before ⟨_, _, _, _, rfl⟩ reacts
    · simp at run
  · simp only [allowMaskedOnly, Bool.not_true, Bool.false_eq_true, if_false] at run
    exact processPayload_some run

/-- What `ProcessIncoming` does, when it does anything but wait for more bytes. -/
theorem processIncoming_some {c c' : Connection} {r : CloseReason}
    (run : c.processIncoming = some (r, c')) :
    match c.incoming with
    | none => r = CloseReason.none ∧ Parsed c c'
    | some x => Reacts c x r c' := by
  have waits : ∀ {d : Connection} {n : Nat}, Parsed c d → d.awaitData n = some (r, c') →
      r = CloseReason.none ∧ Parsed c c' := by
    intro d n parsed run
    simp only [awaitData, bind, Option.bind_eq_some_iff, Option.some.injEq, Prod.mk.injEq] at run
    obtain ⟨⟨enough, b⟩, -, rfl, rfl⟩ := run
    exact ⟨rfl, parsed.trans ⟨_, _, _, _, rfl⟩⟩
  simp only [processIncoming] at run
  simp only [incoming]
  cases found : c.frameLength with
  | wanted n =>
      simp only [found] at run
      exact waits (.refl c) run
  | known length =>
      simp only [found] at run
      by_cases long : Config.maxFrameSize < length
      · simp only [if_pos long, Option.some.injEq, Prod.mk.injEq] at run ⊢
        obtain ⟨rfl, rfl⟩ := run
        exact .refuse _ (by decide) ⟨_, _, _, _, rfl⟩
      simp only [if_neg long] at run ⊢
      by_cases short : c.readBuff.getAvailableData.2 < length
      · rw [if_pos short] at run ⊢
        exact waits ⟨_, _, _, _, rfl⟩ run
      · simp only [if_neg short, bind, Option.bind_eq_some_iff, Option.some.injEq,
          Prod.mk.injEq] at run ⊢
        obtain ⟨⟨retVal, c1⟩, processed, rfl, rfl⟩ := run
        have reacts := processFrame_some processed
        have reacts := Reacts.before (c := c) ⟨_, _, _, _, rfl⟩ reacts
        exact reacts.after ⟨_, _, _, _, rfl⟩

/-! ## Reads -/

/-- The connection when the bytes of a read are in its buffer and nothing else is done yet. -/
def received (c : Connection) (data : List Byte) : Connection :=
  { c with reads := c.reads - 1, readBuff := (c.readBuff.receive data).2, silentTime := 0 }

/-- The connection which `OnRead` leaves behind. -/
inductive Read (c : Connection) : Option Reaction → Connection → Prop
  | waits {d : Connection} (parsed : Parsed c d) : Read c none d.startAsyncRead
  | goesOn {d : Connection} {x : Reaction} (reacts : Reacts c x CloseReason.none d) :
      Read c (some x) d.startAsyncRead
  | ends {d e : Connection} (reason : CloseReason) (shut : Shut c d) (parsed : Parsed d e) :
      Read c (some (.refuse reason)) { e with safeRead := true }

theorem handle_onRead {c c' : Connection} {data : List Byte}
    (run : c.handle (.onRead (some data)) = some c') :
    Read (c.received data) (c.received data).incoming c' := by
  simp only [handle, onRead, bind, Option.bind_eq_some_iff] at run
  obtain ⟨⟨reason, d⟩, processed, run⟩ := run
  have result := processIncoming_some (c := c.received data) processed
  simp only at run
  by_cases fine : reason = CloseReason.none
  · rw [if_pos fine, Option.some.injEq] at run
    subst fine run
    cases incoming : (c.received data).incoming with
    | none =>
        rw [incoming] at result
        exact .waits result.2
    | some x =>
        rw [incoming] at result
        exact .goesOn result
  · simp only [if_neg fine, Option.bind_eq_some_iff, Option.some.injEq] at run
    obtain ⟨e, told, rfl⟩ := run
    cases incoming : (c.received data).incoming with
    | none =>
        rw [incoming] at result
        exact absurd result.1 fine
    | some x =>
        rw [incoming] at result
        cases result with
        | refuse _ real parsed =>
            obtain ⟨d', shut, after⟩ := parsed.shut (onProtocolError_some told)
            exact .ends reason shut after
        | _ => exact absurd rfl fine

theorem stop_some {c c' : Connection} (run : c.stop = some c') : Shut c c' := by
  simp only [stop, bind, Option.bind_eq_some_iff, Option.some.injEq] at run
  obtain ⟨d, told, rfl⟩ := run
  have shut := onProtocolError_some told
  have gone : d.myHandler = false := by
    cases shut with
    | closed handler => exact handler
    | told handler reason mem => rfl
  simpa only [closeHandler, gone, Bool.false_eq_true, if_false] using shut

end MiniWebSrv.WebSocket.Connection
