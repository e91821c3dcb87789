import MiniWebSrv.Lib.Run
import MiniWebSrv.WebSocket.Frame
import MiniWebSrv.WebSocket.Step

/-! # The reasons of close frames

Some close reasons are for the connection's own use, and must not be sent. A close frame is
requested by the user, by a protocol error, by `Stop`, and in answer to the peer's close frame.
The last of them takes its reason from the peer.
-/

namespace MiniWebSrv.WebSocket

open Word Run

/-- Not marked 'Must not be sent'. -/
def CloseReason.Sendable (reason : CloseReason) : Prop :=
  reason ≠ CloseReason.none ∧ reason ≠ CloseReason.unknownCode ∧ reason ≠ CloseReason.connError

instance (reason : CloseReason) : Decidable reason.Sendable := inferInstanceAs (Decidable (_ ∧ _))

namespace Connection

/-! ## The payload of a close frame -/

/-- The reason in the payload of a close frame, which need not be there. -/
def closeCode : List Byte → CloseReason
  | high :: low :: _ => (256 * high.toNat + low.toNat).toUInt16
  | _ => CloseReason.none

/-- The payload of the frame of `length` bytes at `buff`, without its mask. -/
def framePayload (mem : Mem Nat Byte) (buff : Ptr Nat) (length : Nat) : List Byte :=
  let h := frameHeader mem buff length
  let bytes := mem.read h.payload h.length
  if h.isMask then unmask (maskKeyAt mem h.maskPos) bytes else bytes

/-- The reason which the close frame in front of the read buffer asks to echo, when there is
    a close frame as a whole. -/
def closeFrame (c : Connection) : Option CloseReason :=
  match c.incoming, c.frameLength with
  | some .shut, .known length =>
      some (closeCode (framePayload c.readBuff.mem c.readBuff.getAvailableData.1 length))
  | _, _ => none

theorem unmask_length (key : BitVec 32) (bytes : List Byte) :
    (unmask key bytes).length = bytes.length := by
  have all : ∀ (key : BitVec 32) (bytes : List Byte),
      (unmaskBytes key bytes).length = bytes.length := by
    intro key bytes
    induction bytes generalizing key with
    | nil => rfl
    | cons b rest ih => rw [unmaskBytes, List.length_cons, List.length_cons, ih]
  fun_induction unmask key bytes with
  | case1 b0 b1 b2 b3 next rest ih =>
      simp only [List.length_append, ih, List.length_cons, Bits.store32, List.length_nil]
      omega
  | case2 bytes short => exact all key bytes

/-- What `ProcessControlFrame` reads is the reason in the payload. -/
theorem closeCode_read (mem : Mem Nat Byte) (payload : Ptr Nat) (length : Nat) :
    (if 2 ≤ length then (readBig16 mem payload).toUInt16 else 0) =
      closeCode (mem.read payload length) := by
  match length with
  | 0 => rfl
  | 1 => rfl
  | n + 2 =>
      rw [if_pos (Nat.le_add_left 2 n), show n + 2 = 2 + n by omega, Mem.read_add]
      simp only [readBig16, Mem.read, List.foldl_cons, List.foldl_nil, List.cons_append,
        closeCode, Nat.mul_zero, Nat.zero_add]

/-! ## What a step asks for -/

theorem startAsyncWrite_closeReasons (c : Connection) :
    c.startAsyncWrite.closeReasons = c.closeReasons := by
  obtain ⟨ranges, q, same, -⟩ := c.startAsyncWrite_eq
  rw [same]

theorem sendControlFrame_closeReasons {c d : Connection} {opCode : OpCode} {sent : Bool}
    (run : c.sendControlFrame opCode = some (sent, d)) : d.closeReasons = c.closeReasons := by
  obtain ⟨-, mem, rfl⟩ := sendControlFrame_some run
  rfl

theorem sendCloseInternal_closeReasons {c d : Connection} {reason : CloseReason} {sent : Bool}
    (run : c.sendCloseInternal reason = some (sent, d)) :
    d.closeReasons = c.closeReasons ++ [reason] := by
  obtain ⟨-, mem, rfl⟩ := sendCloseInternal_some run
  rfl

theorem onProtocolError_closeReasons {c d : Connection} {reason : CloseReason}
    (run : c.onProtocolError reason = some d) :
    d.closeReasons = c.closeReasons ++ if c.myHandler then [reason] else [] := by
  cases handler : c.myHandler with
  | false =>
      simp only [onProtocolError, handler, Bool.false_eq_true, if_false, Option.some.injEq] at run
      rw [← run, if_neg Bool.false_ne_true, List.append_nil]
  | true =>
      simp only [onProtocolError, handler, if_true, bind, Option.bind_eq_some_iff,
        Option.some.injEq] at run
      obtain ⟨⟨sent, e⟩, sends, rfl⟩ := run
      obtain ⟨rfl, mem, rfl⟩ := sendCloseInternal_some sends
      simp only [if_true, startAsyncWrite_closeReasons]
      rfl

theorem processControlFrame_closeReasons {c d : Connection} {opCode : OpCode} {payload : Ptr Nat}
    {length : Nat} {r : CloseReason}
    (run : c.processControlFrame opCode payload length = some (r, d)) :
    d.closeReasons = c.closeReasons ++
      if opCode = OpCode.close ∧ c.myHandler then
        [closeCode (c.readBuff.mem.read payload length)]
      else [] := by
  by_cases pong : opCode = OpCode.pong
  · simp only [processControlFrame, if_pos pong, Option.some.injEq, Prod.mk.injEq] at run
    have other : ¬(opCode = OpCode.close ∧ c.myHandler = true) := by
      intro both
      exact absurd (pong.symm.trans both.1) (by decide)
    rw [if_neg other, List.append_nil, run.2]
  by_cases ping : opCode = OpCode.ping
  · simp only [processControlFrame, if_neg pong, if_pos ping, bind, Option.bind_eq_some_iff,
      Option.some.injEq, Prod.mk.injEq] at run
    obtain ⟨⟨sent, e⟩, sends, -, rfl⟩ := run
    have other : ¬(opCode = OpCode.close ∧ c.myHandler = true) := by
      intro both
      exact absurd (ping.symm.trans both.1) (by decide)
    rw [if_neg other, List.append_nil, ← sendControlFrame_closeReasons sends]
    cases sent with
    | true => exact startAsyncWrite_closeReasons e
    | false => rfl
  by_cases close : opCode = OpCode.close
  · cases handler : c.myHandler with
    | false =>
        simp only [processControlFrame, if_neg pong, if_neg ping, if_pos close, handler,
          Bool.false_eq_true, if_false, Option.some.injEq, Prod.mk.injEq] at run
        rw [if_neg (fun both => Bool.false_ne_true both.2), List.append_nil, run.2]
    | true =>
        simp only [processControlFrame, if_neg pong, if_neg ping, if_pos close, handler,
          if_true] at run
        split at run
        · cases run
        · simp only [bind, Option.bind_eq_some_iff, Option.some.injEq, Prod.mk.injEq] at run
          obtain ⟨⟨sent, e⟩, sends, -, rfl⟩ := run
          obtain ⟨rfl, mem, rfl⟩ := sendCloseInternal_some sends
          have both : opCode = OpCode.close ∧ true = true := ⟨close, rfl⟩
          rw [if_pos both, ← closeCode_read]
          simp only [if_true, startAsyncWrite_closeReasons]
          rfl
  · simp only [processControlFrame, if_neg pong, if_neg ping, if_neg close, Option.some.injEq,
      Prod.mk.injEq] at run
    rw [if_neg (fun both => close both.1), List.append_nil, run.2]

/-! ## What a frame asks for -/

theorem Parsed.closeReasons {c d : Connection} (h : Parsed c d) :
    d.closeReasons = c.closeReasons := by
  obtain ⟨_, _, _, _, rfl⟩ := h
  rfl

theorem reaction_shut {c : Connection} {isFin : Bool} {opCode : OpCode} {length : Nat}
    (shut : c.reaction isFin opCode length = .shut) :
    isFin = true ∧ opCode = OpCode.close := by
  simp only [reaction] at shut
  split_ifs at shut with data more long fin
  all_goals try cases shut
  rename_i final pong ping close
  exact ⟨final, close⟩

theorem reaction_refuse {c : Connection} {isFin : Bool} {opCode : OpCode} {length : Nat}
    {reason : CloseReason} (refuse : c.reaction isFin opCode length = .refuse reason) :
    reason.Sendable := by
  simp only [reaction] at refuse
  split_ifs at refuse <;> cases refuse <;> decide

theorem refuse_sendable {c : Connection} {reason : CloseReason}
    (incoming : c.incoming = some (.refuse reason)) : reason.Sendable := by
  simp only [Connection.incoming] at incoming
  cases found : c.frameLength with
  | wanted n => simp only [found, reduceCtorEq] at incoming
  | known length =>
      simp only [found] at incoming
      split_ifs at incoming
      · cases incoming
        decide
      · exact reaction_refuse (Option.some.inj incoming)

/-- Only an answer to a close frame asks for a close frame itself. -/
theorem Reacts.closeReasons {c d : Connection} {x : Reaction} {r : CloseReason}
    (reacts : Reacts c x r d) (other : x ≠ .shut) : d.closeReasons = c.closeReasons := by
  cases reacts with
  | deliver type msg parsed => exact parsed.closeReasons
  | keep parsed => exact parsed.closeReasons
  | ignore parsed => exact parsed.closeReasons
  | answer mem parsed => exact parsed.closeReasons.trans (startAsyncWrite_closeReasons _)
  | shut shut parsed => exact absurd rfl other
  | refuse reason real parsed => exact parsed.closeReasons

theorem processPayload_control {c : Connection} {opCode : OpCode} {payload : Ptr Nat} {length : Nat}
    (control : ¬opCode < OpCode.controlBegin) :
    c.processPayload true opCode payload length = c.processControlFrame opCode payload length := by
  rw [processPayload, if_pos rfl, if_neg control]

theorem processFrame_closeReasons {c d : Connection} {buff : Ptr Nat} {length : Nat}
    {r : CloseReason} (run : c.processFrame buff length = some (r, d))
    (fin : (frameHeader c.readBuff.mem buff length).isFin = true)
    (close : (frameHeader c.readBuff.mem buff length).opCode = OpCode.close) :
    d.closeReasons = c.closeReasons ++
      if c.myHandler then [closeCode (framePayload c.readBuff.mem buff length)] else [] := by
  have control : ¬OpCode.close < OpCode.controlBegin := by decide
  simp only [processFrame, fin, close, processPayload_control control] at run
  simp only [framePayload]
  cases mask : (frameHeader c.readBuff.mem buff length).isMask with
  | true =>
      rw [if_pos mask] at run
      split at run
      · have asks := processControlFrame_closeReasons run
        have count := unmask_length
          (maskKeyAt c.readBuff.mem (frameHeader c.readBuff.mem buff length).maskPos)
          (c.readBuff.mem.read (frameHeader c.readBuff.mem buff length).payload
            (frameHeader c.readBuff.mem buff length).length)
        rw [Mem.read_length] at count
        have back := Mem.read_write_self c.readBuff.mem
          (frameHeader c.readBuff.mem buff length).payload
          (unmask (maskKeyAt c.readBuff.mem (frameHeader c.readBuff.mem buff length).maskPos)
            (c.readBuff.mem.read (frameHeader c.readBuff.mem buff length).payload
              (frameHeader c.readBuff.mem buff length).length))
        rw [count] at back
        simpa only [back, true_and, if_true] using asks
      · cases run
  | false =>
      rw [if_neg (by rw [mask]; exact Bool.false_ne_true)] at run
      simp only [allowMaskedOnly, Bool.not_true, Bool.false_eq_true, if_false] at run
      have asks := processControlFrame_closeReasons run
      simpa only [true_and, Bool.false_eq_true, if_false] using asks

theorem processIncoming_closeReasons {c d : Connection} {r : CloseReason}
    (run : c.processIncoming = some (r, d)) :
    d.closeReasons = c.closeReasons ++ if c.myHandler then c.closeFrame.toList else [] := by
  have result := processIncoming_some run
  cases incoming : c.incoming with
  | none =>
      rw [incoming] at result
      simp only [closeFrame, incoming, Option.toList_none, ite_self, List.append_nil]
      exact result.2.closeReasons
  | some x =>
      rw [incoming] at result
      by_cases shut : x = .shut
      case neg =>
        have nothing : c.closeFrame = none := by
          cases x with
          | shut => exact absurd rfl shut
          | deliver | keep | ignore | answer | refuse => simp only [closeFrame, incoming]
        simp only [nothing, Option.toList_none, ite_self, List.append_nil]
        exact Reacts.closeReasons result shut
      subst shut
      simp only [Connection.incoming] at incoming
      cases found : c.frameLength with
      | wanted n => simp only [found, reduceCtorEq] at incoming
      | known length =>
          simp only [found] at incoming
          by_cases long : Config.maxFrameSize < length
          · rw [if_pos long] at incoming
            cases incoming
          rw [if_neg long] at incoming
          by_cases short : c.readBuff.getAvailableData.2 < length
          · rw [if_pos short] at incoming
            cases incoming
          rw [if_neg short] at incoming
          obtain ⟨fin, close⟩ := reaction_shut (Option.some.inj incoming)
          simp only [processIncoming, found, if_neg long, if_neg short, bind,
            Option.bind_eq_some_iff, Option.some.injEq, Prod.mk.injEq] at run
          obtain ⟨⟨retVal, e⟩, processed, rfl, rfl⟩ := run
          have asks := processFrame_closeReasons processed fin close
          have front : c.closeFrame =
              some (closeCode (framePayload c.readBuff.mem c.readBuff.getAvailableData.1 length)) := by
            simp only [closeFrame, Connection.incoming, found, if_neg long, if_neg short, incoming]
          simpa only [front, Option.toList_some] using asks

/-! ## Runs -/

/-- The reasons which the event makes `SendCloseInternal` be called with. -/
def asked (c : Connection) : Event → List CloseReason
  | .onRead (some data) =>
      if c.myHandler then
        match (c.received data).incoming with
        | some (.refuse reason) => [reason]
        | _ => (c.received data).closeFrame.toList
      else
        []
  | .stop => if c.myHandler then [CloseReason.exit] else []
  | .close reason => [reason]
  | _ => []

theorem onRead_closeReasons {c d : Connection} {data : List Byte}
    (run : c.handle (.onRead (some data)) = some d) :
    d.closeReasons = c.closeReasons ++ c.asked (.onRead (some data)) := by
  simp only [handle, onRead, bind, Option.bind_eq_some_iff] at run
  obtain ⟨⟨reason, e⟩, processed, run⟩ := run
  have asks := processIncoming_closeReasons (c := c.received data) processed
  have result := processIncoming_some (c := c.received data) processed
  have handler : (c.received data).myHandler = c.myHandler := rfl
  have before : (c.received data).closeReasons = c.closeReasons := rfl
  rw [handler, before] at asks
  simp only at run
  by_cases fine : reason = CloseReason.none
  · rw [if_pos fine, Option.some.injEq] at run
    subst fine run
    have going : (match (c.received data).incoming with
        | some (.refuse reason) => [reason]
        | _ => (c.received data).closeFrame.toList) = (c.received data).closeFrame.toList := by
      cases incoming : (c.received data).incoming with
      | none => rfl
      | some x =>
          rw [incoming] at result
          cases result with
          | refuse _ real parsed => exact absurd rfl real
          | deliver | keep | ignore | answer | shut => rfl
    simp only [asked, going]
    exact asks
  · simp only [if_neg fine, Option.bind_eq_some_iff, Option.some.injEq] at run
    obtain ⟨f, told, rfl⟩ := run
    have told := onProtocolError_closeReasons told
    cases incoming : (c.received data).incoming with
    | none =>
        rw [incoming] at result
        exact absurd result.1 fine
    | some x =>
        rw [incoming] at result
        cases result with
        | refuse _ real parsed =>
            rw [parsed.closeReasons, parsed.myHandler] at told
            simp only [asked, incoming]
            exact told
        | deliver | keep | ignore | answer | shut => exact absurd rfl fine

theorem closeHandler_closeReasons (c : Connection) (reason : CloseReason) :
    (c.closeHandler reason).closeReasons = c.closeReasons := by
  obtain ⟨calls, handler, same⟩ := c.closeHandler_eq reason
  rw [same]

theorem onWrite_closeReasons (c : Connection) (error : Bool) :
    (c.onWrite error).closeReasons = c.closeReasons := by
  cases error with
  | false =>
      rw [onWrite, if_neg Bool.false_ne_true, startAsyncWrite_closeReasons]
  | true =>
      rw [onWrite, if_pos rfl, closeHandler_closeReasons]

theorem onStep_closeReasons (c : Connection) (stepInterval : Nat) :
    (c.onStep stepInterval).2.closeReasons = c.closeReasons := by
  obtain ⟨silentTime, calls, handler, same⟩ := c.onStep_eq stepInterval
  rw [same]

/-- Every event asks for the close frames which `asked` lists, and for no others. -/
theorem handle_closeReasons {c d : Connection} {e : Event} (run : c.handle e = some d) :
    d.closeReasons = c.closeReasons ++ c.asked e := by
  have quiet : d.closeReasons = c.closeReasons → d.closeReasons = c.closeReasons ++ [] := by
    intro same
    rw [same, List.append_nil]
  cases e with
  | onRead result =>
      cases result with
      | some data => exact onRead_closeReasons run
      | none =>
          obtain rfl := Option.some.inj run
          exact quiet (closeHandler_closeReasons _ _)
  | onWrite i error =>
      obtain rfl := Option.some.inj run
      exact quiet (onWrite_closeReasons _ _)
  | onStep stepInterval =>
      obtain rfl := Option.some.inj run
      exact quiet (onStep_closeReasons c stepInterval)
  | stop =>
      simp only [handle, stop, bind, Option.bind_eq_some_iff, Option.some.injEq] at run
      obtain ⟨f, told, rfl⟩ := run
      rw [closeHandler_closeReasons]
      exact onProtocolError_closeReasons told
  | allocate type length =>
      obtain ⟨⟨ret, f⟩, made, rfl⟩ := Option.map_eq_some_iff.mp run
      obtain ⟨q, mem, rfl⟩ := allocate_eq made
      exact quiet rfl
  | deallocate | send =>
      obtain rfl := Option.some.inj run
      exact quiet rfl
  | sendPing =>
      simp only [handle, sendPing, bind, Option.bind_eq_some_iff, Option.some.injEq] at run
      obtain ⟨⟨sent, f⟩, sends, rfl⟩ := run
      have same := sendControlFrame_closeReasons sends
      exact quiet same
  | close reason =>
      simp only [handle, close, bind, Option.bind_eq_some_iff, Option.some.injEq] at run
      obtain ⟨⟨sent, f⟩, sends, rfl⟩ := run
      have asks := sendCloseInternal_closeReasons sends
      exact asks
  | posted p =>
      cases p with
      | write | close =>
          obtain rfl := Option.some.inj run
          exact quiet (startAsyncWrite_closeReasons _)

/-- A close frame which the handler is still there for has a reason which may be sent. -/
def ClosesProperly (c : Connection) : Event → Prop
  | .onRead (some data) =>
      c.myHandler = true → ∀ reason ∈ (c.received data).closeFrame, reason.Sendable
  | _ => True

instance (c : Connection) : (e : Event) → Decidable (ClosesProperly c e)
  | .onRead (some data) =>
      @forall_prop_decidable _ _ _ fun _ => Option.decidableForallMem (c.received data).closeFrame
  | .onRead none | .onWrite _ _ | .onStep _ | .stop | .allocate _ _ | .deallocate | .send | .sendPing
  | .close _ | .posted _ => inferInstanceAs (Decidable True)

/-- The peer alone decides whether the reasons of a step may be sent. -/
theorem asked_sendable_iff {c : Connection} {e : Event}
    (user : ∀ reason, e = .close reason → reason.Sendable) :
    (∀ reason ∈ c.asked e, reason.Sendable) ↔ ClosesProperly c e := by
  cases e with
  | onRead result =>
      cases result with
      | none => exact ⟨fun _ => trivial, fun _ => List.forall_mem_nil _⟩
      | some data =>
          cases handler : c.myHandler with
          | false =>
              simp only [asked, ClosesProperly, handler, Bool.false_eq_true, if_false,
                List.not_mem_nil, false_implies, implies_true]
          | true =>
              simp only [asked, ClosesProperly, handler, if_true, true_implies]
              cases incoming : (c.received data).incoming with
              | none => simp only [Option.mem_toList, Option.mem_def]
              | some x =>
                  cases x with
                  | refuse reason =>
                      have nothing : (c.received data).closeFrame = none := by
                        simp only [closeFrame, incoming]
                      have sendable := refuse_sendable incoming
                      simp only [nothing, List.mem_singleton, forall_eq, sendable, Option.not_mem_none,
                        false_implies, implies_true]
                  | deliver | keep | ignore | answer | shut => simp only [Option.mem_toList, Option.mem_def]
  | stop =>
      refine ⟨fun _ => trivial, fun _ reason inside => ?_⟩
      simp only [asked] at inside
      split at inside
      · rw [List.mem_singleton.mp inside]
        decide
      · cases inside
  | close reason =>
      refine ⟨fun _ => trivial, fun _ asked inside => ?_⟩
      rw [List.mem_singleton.mp inside]
      exact user reason rfl
  | onWrite | onStep | allocate | deallocate | send | sendPing | posted =>
      exact ⟨fun _ => trivial, fun _ => List.forall_mem_nil _⟩

/-- The close frames which are requested in a run have reasons which may be sent if and only if
    the close frames of the peer have them. -/
theorem closeReasons_sendable_iff (readMem : Mem Nat Byte) (writeMem : Mem WriteBlock Byte)
    {events : List Event} {t : Connection}
    (user : ∀ reason, .close reason ∈ events → reason.Sendable)
    (run : exec handle (create readMem writeMem) events = some t) :
    (∀ reason ∈ t.closeReasons, reason.Sendable) ↔
      Along handle ClosesProperly (create readMem writeMem) events := by
  have all : ∀ (c : Connection), exec handle c events = some t →
      ((∀ reason ∈ t.closeReasons, reason.Sendable) ↔
        (∀ reason ∈ c.closeReasons, reason.Sendable) ∧ Along handle ClosesProperly c events) := by
    clear run
    induction events with
    | nil =>
        intro c run
        cases run
        simp only [Along, and_true]
    | cons e rest ih =>
        intro c run
        obtain ⟨mid, taken, run⟩ := exec_cons_some.mp run
        have asks := handle_closeReasons taken
        have sendable := asked_sendable_iff (c := c) (e := e) fun reason same =>
          user reason (same ▸ List.mem_cons_self)
        rw [ih (fun reason inside => user reason (List.mem_cons_of_mem e inside)) mid run, asks]
        simp only [Along, next_iff taken, List.forall_mem_append, sendable, and_assoc]
  have first : ∀ reason ∈ (create readMem writeMem).closeReasons, reason.Sendable :=
    List.forall_mem_nil _
  exact (all _ run).trans ⟨fun both => both.2, fun along => ⟨first, along⟩⟩

/-- A polite close frame of the peer, answered and written, behind a ping. -/
def goodbye : List Event :=
  [.onRead (some [0x89, 0x80, 0, 0, 0, 0]), .onWrite 0 false,
    .onRead (some [0x88, 0x82, 0, 0, 0, 0, 0x03, 0xE8]), .onWrite 0 false, .close CloseReason.normal]

theorem closeReasons_sendable_goodbye :
    ∃ t, exec handle (create (fun _ _ => 0) fun _ _ => 0) goodbye = some t ∧
      t.closeReasons = [CloseReason.normal, CloseReason.normal] ∧
      ∀ reason ∈ t.closeReasons, reason.Sendable := by
  have reasons : (exec handle (create (fun _ _ => 0) fun _ _ => 0) goodbye).map (·.closeReasons) =
      some [CloseReason.normal, CloseReason.normal] := by decide +kernel
  obtain ⟨t, run, same⟩ := Option.map_eq_some_iff.mp reasons
  have user : ∀ reason, Event.close reason ∈ goodbye → reason.Sendable := by
    intro reason inside
    simp only [goodbye, List.mem_cons, reduceCtorEq, Event.close.injEq, List.not_mem_nil, or_false,
      false_or] at inside
    subst inside
    decide
  exact ⟨t, run, same, (closeReasons_sendable_iff _ _ user run).mpr (by decide +kernel)⟩

/-- An empty close frame of the peer. -/
theorem empty_close_answered :
    ¬∀ events t, exec handle (create (fun _ _ => 0) fun _ _ => 0) events = some t →
      (∀ reason, Event.close reason ∈ events → reason.Sendable) →
      ∀ reason ∈ t.closeReasons, reason.Sendable := by
  intro all
  have reasons : (exec handle (create (fun _ _ => 0) fun _ _ => 0)
      [.onRead (some [0x88, 0x80, 0, 0, 0, 0])]).map (·.closeReasons) =
      some [CloseReason.none] := by decide +kernel
  obtain ⟨t, run, same⟩ := Option.map_eq_some_iff.mp reasons
  have user : ∀ reason, Event.close reason ∈ [Event.onRead (some [0x88, 0x80, 0, 0, 0, 0])] →
      reason.Sendable := by
    intro reason inside
    cases inside with
    | tail _ inside => cases inside
  have sendable := all _ t run user CloseReason.none (by rw [same]; exact List.mem_singleton_self _)
  exact absurd rfl sendable.1

end Connection

end MiniWebSrv.WebSocket
