import MiniWebSrv.Lib.Run
import MiniWebSrv.WebSocket.WireReading

/-! # Messages out of frames

Frames are given to `ProcessFrame` one after another. As long as they keep to the fragmentation rules
their messages are delivered, and the first one which does not is refused. Which frames a client may
not send at all is another matter, and `ProcessFrame` hardly looks at it.
-/

namespace MiniWebSrv.WebSocket.Connection

open Word Run WireFrame

/-! ## Frames which break the rules -/

/-- The frame would make the message longer than it may be. -/
def Exceeds : Partial → OpCode → List Byte → Prop
  | some (_, prior), op, data =>
      op = OpCode.continuation ∧ Config.maxFragmentedSize < prior.length + data.length
  | none, _, _ => False

instance : (p : Partial) → (op : OpCode) → (data : List Byte) → Decidable (Exceeds p op data)
  | some _, _, _ => inferInstanceAs (Decidable (_ ∧ _))
  | none, _, _ => inferInstanceAs (Decidable False)

/-- The opcodes of everything but a close frame. -/
def Named (op : OpCode) : Prop :=
  op ∈ [OpCode.continuation, OpCode.text, OpCode.binary, OpCode.ping, OpCode.pong]

instance (op : OpCode) : Decidable (Named op) := inferInstanceAs (Decidable (_ ∈ _))

theorem processPayload_breaks {c : Connection} {fin : Bool} {op : OpCode} {data : List Byte}
    (payload : Ptr Nat) {p : Partial} (named : Named op) (keeps : Keeps c p)
    (broken : ¬∃ p' new, Rule p fin op data p' new) :
    c.processPayload fin op payload data.length =
      some (if Exceeds p op data then CloseReason.sizeLimit else CloseReason.protError, c) := by
  by_cases isData : op < OpCode.controlBegin
  case neg =>
    have control : op = OpCode.ping ∨ op = OpCode.pong := by
      have all : ∀ op ∈ [OpCode.continuation, OpCode.text, OpCode.binary, OpCode.ping, OpCode.pong],
          ¬op < OpCode.controlBegin → op = OpCode.ping ∨ op = OpCode.pong := by
        decide +kernel
      exact all op named isData
    have other : op ≠ OpCode.continuation := by
      rcases control with rfl | rfl <;> decide
    have small : ¬Exceeds p op data := by
      intro exceeds
      cases p with
      | none => exact exceeds
      | some open_ => exact other exceeds.1
    cases fin with
    | true => exact absurd ⟨p, [], .control control⟩ broken
    | false => simp only [processPayload, Bool.false_eq_true, if_false, if_neg isData, if_neg small]
  case pos =>
    cases p with
    | none =>
        have continues : op = OpCode.continuation := by
          by_contra first
          cases fin with
          | true => exact broken ⟨_, _, .single isData first⟩
          | false => exact broken ⟨_, _, .first isData first⟩
        have idle : c.fragOpCode = OpCode.continuation := keeps
        have nothing : ¬Exceeds none op data := id
        subst continues
        cases fin <;>
          simp only [processPayload, idle, isData, nothing, ne_eq, not_true, false_and, and_false,
            Bool.false_eq_true, if_true, if_false]
    | some open_ =>
        obtain ⟨type, prior⟩ := open_
        obtain ⟨fragment, -, rfl⟩ := keeps
        by_cases continues : op = OpCode.continuation
        · subst continues
          have long : Config.maxFragmentedSize < c.fragMsgData.length + data.length := by
            by_contra short
            cases fin with
            | true => exact broken ⟨_, _, .last (Nat.le_of_not_lt short)⟩
            | false => exact broken ⟨_, _, .middle (Nat.le_of_not_lt short)⟩
          have exceeds : Exceeds (some (type, c.fragMsgData)) OpCode.continuation data := ⟨rfl, long⟩
          cases fin <;>
            simp only [processPayload, isData, fragment, long, exceeds, ne_eq, not_false_iff, true_and,
              Bool.false_eq_true, if_true, if_false]
        · have small : ¬Exceeds (some (type, c.fragMsgData)) op data := fun exceeds =>
            continues exceeds.1
          cases fin <;>
            simp only [processPayload, isData, fragment, continues, small, ne_eq, not_false_iff,
              and_false, false_and, Bool.false_eq_true, if_true, if_false]

/-! ## Frames one after another -/

/-- A frame which is given to `ProcessFrame`, and where it is. -/
structure Given where
  frame : WireFrame.Frame
  readBuff : StreamReadBuff Config.readBuffSize
  buff : Ptr Nat
  holds : Holds readBuff frame buff

/-- A frame which a client may send, if it fits in between the others. -/
structure WellFormed (f : WireFrame.Frame) : Prop where
  masked : f.mask.isSome
  reserved : f.reserved = 0
  named : Named (UInt8.ofNat f.opCode.val)
  control : 8 ≤ f.opCode.val → f.payload.length ≤ 125
  small : f.encode.length ≤ Config.maxFrameSize

def give (c : Connection) (g : Given) : Option (CloseReason × Connection) :=
  processFrame { c with readBuff := g.readBuff } g.buff g.frame.encode.length

/-- A frame is given, and `CR_NONE` is returned. -/
def accept (c : Connection) (g : Given) : Option Connection :=
  (c.give g).bind fun r => if r.1 = CloseReason.none then some r.2 else none

/-- What the rules make of a sequence of frames. -/
inductive Assembles : Partial → List WireFrame.Frame → Partial → List (MessageType × List Byte) → Prop
  | nil (p : Partial) : Assembles p [] p []
  | cons {p p' p'' : Partial} {f : WireFrame.Frame} {frames : List WireFrame.Frame}
      {new more : List (MessageType × List Byte)}
      (rule : Rule p f.fin (UInt8.ofNat f.opCode.val) f.payload p' new)
      (rest : Assembles p' frames p'' more) : Assembles p (f :: frames) p'' (new ++ more)

/-- The connection between two frames, with the messages of all before. -/
structure Between (p : Partial) (calls : List (HandlerCall × Bool)) (c : Connection) : Prop where
  keeps : Keeps c p
  handler : c.myHandler = true
  queue : c.writeBuff.Idle
  calls : c.calls = calls

/-- The calls which deliver messages. -/
def deliveries (ms : List (MessageType × List Byte)) : List (HandlerCall × Bool) :=
  ms.map fun m => (.onMessage m.1 m.2, true)

theorem WellFormed.short {f : WireFrame.Frame} (wellFormed : WellFormed f) :
    f.encode.length < size32 := by
  have small := wellFormed.small
  simp only [Config.maxFrameSize] at small
  simp only [size32]
  omega

theorem give_eq {c : Connection} {g : Given} (wellFormed : WellFormed g.frame) :
    ∃ (d : Connection) (payload : Ptr Nat),
      c.give g = d.processPayload g.frame.fin (UInt8.ofNat g.frame.opCode.val) payload
        g.frame.payload.length ∧
      d = { c with readBuff := d.readBuff } ∧
      payload.off + g.frame.payload.length ≤ d.readBuff.buffLength ∧
      d.readBuff.mem.read payload g.frame.payload.length = g.frame.payload := by
  let given : Connection := { c with readBuff := g.readBuff }
  have length := g.frame.encode_length
  have inside := g.holds.inside
  have holds : Holds given.readBuff g.frame g.buff := g.holds
  refine ⟨given.unmasked g.frame g.buff, g.buff.add g.frame.headLength,
    processFrame_of_wire holds wellFormed.short, rfl, ?_, Mem.read_write_self _ _ _⟩
  have same : (given.unmasked g.frame g.buff).readBuff.buffLength = g.readBuff.buffLength := rfl
  rw [same, Ptr.add_off]
  omega

theorem accept_follows {c : Connection} {g : Given} {p p' : Partial}
    {new : List (MessageType × List Byte)} {calls : List (HandlerCall × Bool)}
    (wellFormed : WellFormed g.frame) (between : Between p calls c)
    (rule : Rule p g.frame.fin (UInt8.ofNat g.frame.opCode.val) g.frame.payload p' new) :
    ∃ d, c.accept g = some d ∧ Between p' (calls ++ deliveries new) d := by
  obtain ⟨keeps, handler, queue, rfl⟩ := between
  obtain ⟨d, payload, given, same, inside, bytes⟩ := give_eq (c := c) wellFormed
  have keeps' : Keeps d p := by
    rw [same]
    cases p <;> exact keeps
  have queue' : d.writeBuff.Idle := by
    rw [same]
    exact queue
  have handler' : d.myHandler = true := by
    rw [same]
    exact handler
  have calls' : d.calls = c.calls := by rw [same]
  obtain ⟨e, processed, settled, kept, more⟩ := processPayload_follows rule keeps' queue' inside bytes
  refine ⟨e, ?_, kept, settled.handler.trans handler', settled.queue, ?_⟩
  · simp only [accept, given, processed, Option.bind_some, if_true]
  · rw [more, calls', handler', deliveries]

theorem give_breaks {c : Connection} {g : Given} {p : Partial} {calls : List (HandlerCall × Bool)}
    (wellFormed : WellFormed g.frame) (between : Between p calls c)
    (broken : ¬∃ p' new, Rule p g.frame.fin (UInt8.ofNat g.frame.opCode.val) g.frame.payload p' new) :
    ∃ e, c.give g = some (
        if Exceeds p (UInt8.ofNat g.frame.opCode.val) g.frame.payload then CloseReason.sizeLimit
        else CloseReason.protError, e) ∧ e.calls = calls := by
  obtain ⟨keeps, handler, queue, rfl⟩ := between
  obtain ⟨d, payload, given, same, -, -⟩ := give_eq (c := c) wellFormed
  have keeps' : Keeps d p := by
    rw [same]
    cases p <;> exact keeps
  refine ⟨d, ?_, ?_⟩
  · rw [given, processPayload_breaks payload wellFormed.named keeps' broken]
  · rw [same]

/-- Frames which keep to the rules are accepted, and their messages delivered. -/
theorem exec_assembles {c : Connection} {gs : List Given} {p p' : Partial}
    {ms : List (MessageType × List Byte)} {calls : List (HandlerCall × Bool)}
    (wellFormed : ∀ g ∈ gs, WellFormed g.frame) (between : Between p calls c)
    (assembles : Assembles p (gs.map Given.frame) p' ms) :
    ∃ d, exec accept c gs = some d ∧ Between p' (calls ++ deliveries ms) d := by
  induction gs generalizing c p ms calls with
  | nil =>
      cases assembles
      exact ⟨c, rfl, by simpa only [deliveries, List.map_nil, List.append_nil] using between⟩
  | cons g rest ih =>
      rw [List.map_cons] at assembles
      cases assembles with
      | cons rule others =>
          obtain ⟨d, accepted, next⟩ :=
            accept_follows (wellFormed g List.mem_cons_self) between rule
          obtain ⟨e, run, last⟩ :=
            ih (fun g' member => wellFormed g' (List.mem_cons_of_mem g member)) next others
          refine ⟨e, exec_cons_some.mpr ⟨d, accepted, run⟩, ?_⟩
          simpa only [deliveries, List.map_append, List.append_assoc] using last

/-- A frame which is the first to be received. -/
theorem received_holds {f : WireFrame.Frame} (small : f.encode.length ≤ Config.readBuffSize) :
    Holds ((StreamReadBuff.init Config.readBuffSize fun _ _ => 0).receive f.encode).2 f ⟨0, 0⟩ := by
  obtain ⟨_, same⟩ := StreamReadBuff.receive_spec (b := .init Config.readBuffSize fun _ _ => 0) small
  rw [same]
  refine ⟨Mem.read_write_self _ _ _, ?_⟩
  rw [Nat.zero_add]
  exact small

def inFront (f : WireFrame.Frame) (small : f.encode.length ≤ Config.readBuffSize) : Given where
  frame := f
  readBuff := ((StreamReadBuff.init Config.readBuffSize fun _ _ => 0).receive f.encode).2
  buff := ⟨0, 0⟩
  holds := received_holds small

/-- What the protocol forbids, without extensions. -/
def Forbidden (f : WireFrame.Frame) : Prop :=
  f.mask = none ∨ f.reserved.val ≠ 0 ∨ (3 ≤ f.opCode.val ∧ f.opCode.val ≤ 7) ∨ 11 ≤ f.opCode.val ∨
    (8 ≤ f.opCode.val ∧ (f.fin = false ∨ 125 < f.payload.length))

/-- The frame is a protocol error, nothing is delivered and the fragments stay as they are. -/
def Refused (c : Connection) (f : WireFrame.Frame) (buff : Ptr Nat) : Prop :=
  ∃ d, c.processFrame buff f.encode.length = some (CloseReason.protError, d) ∧
    d.calls = c.calls ∧ d.fragMsgData = c.fragMsgData

/-- What `ProcessFrame` does look at. -/
def Checked (c : Connection) (f : WireFrame.Frame) : Prop :=
  if f.opCode.val < 8 then c.fragOpCode = OpCode.continuation ↔ f.opCode.val = 0
  else f.fin = false ∨ 10 < f.opCode.val

theorem processControlFrame_error_iff {c d : Connection} {op : OpCode} {payload : Ptr Nat}
    {length : Nat} :
    c.processControlFrame op payload length = some (CloseReason.protError, d) ↔
      d = c ∧ op ≠ OpCode.pong ∧ op ≠ OpCode.ping ∧ op ≠ OpCode.close := by
  constructor
  · intro run
    have other : CloseReason.none ≠ CloseReason.protError := by decide
    by_cases pong : op = OpCode.pong
    · simp only [processControlFrame, if_pos pong, Option.some.injEq, Prod.mk.injEq] at run
      exact absurd run.1 other
    by_cases ping : op = OpCode.ping
    · simp only [processControlFrame, if_neg pong, if_pos ping, bind, Option.bind_eq_some_iff,
        Option.some.injEq, Prod.mk.injEq] at run
      obtain ⟨_, _, none_, _⟩ := run
      exact absurd none_ other
    by_cases close : op = OpCode.close
    · simp only [processControlFrame, if_neg pong, if_neg ping, if_pos close] at run
      split at run
      · split at run
        · cases run
        · simp only [bind, Option.bind_eq_some_iff, Option.some.injEq, Prod.mk.injEq] at run
          obtain ⟨_, _, none_, _⟩ := run
          exact absurd none_ other
      · simp only [Option.some.injEq, Prod.mk.injEq] at run
        exact absurd run.1 other
    · simp only [processControlFrame, if_neg pong, if_neg ping, if_neg close, Option.some.injEq,
        Prod.mk.injEq, true_and] at run
      exact ⟨run.symm, pong, ping, close⟩
  · rintro ⟨rfl, pong, ping, close⟩
    simp only [processControlFrame, if_neg pong, if_neg ping, if_neg close]

/-- When a payload is a protocol error. -/
theorem processPayload_error_iff {c d : Connection} {fin : Bool} {op : OpCode} {payload : Ptr Nat}
    {length : Nat} :
    c.processPayload fin op payload length = some (CloseReason.protError, d) ↔
      d = c ∧ if op < OpCode.controlBegin then
        c.fragOpCode = OpCode.continuation ↔ op = OpCode.continuation
      else fin = false ∨ (op ≠ OpCode.pong ∧ op ≠ OpCode.ping ∧ op ≠ OpCode.close) := by
  by_cases data : op < OpCode.controlBegin
  case neg =>
    rw [if_neg data]
    cases fin with
    | true =>
        simp only [processPayload, if_true, if_neg data, Bool.true_eq_false, false_or]
        exact processControlFrame_error_iff
    | false =>
        simp only [processPayload, Bool.false_eq_true, if_false, if_neg data, true_or, and_true,
          Option.some.injEq, Prod.mk.injEq, true_and]
        exact eq_comm
  case pos =>
    rw [if_pos data]
    by_cases same : c.fragOpCode = OpCode.continuation ↔ op = OpCode.continuation
    · have more : ¬(c.fragOpCode ≠ OpCode.continuation ∧ op = OpCode.continuation) := by
        rintro ⟨fragment, continues⟩
        exact fragment (same.mpr continues)
      have first : ¬(c.fragOpCode = OpCode.continuation ∧ op ≠ OpCode.continuation) := by
        rintro ⟨idle, starts⟩
        exact starts (same.mp idle)
      have error : c.processPayload fin op payload length = some (CloseReason.protError, c) := by
        cases fin <;>
          simp only [processPayload, Bool.false_eq_true, if_false, if_true, if_pos data, if_neg more,
            if_neg first]
      rw [error]
      simp only [Option.some.injEq, Prod.mk.injEq, true_and, same, and_true]
      exact eq_comm
    · simp only [same, and_false, iff_false]
      intro run
      by_cases idle : c.fragOpCode = OpCode.continuation
      · have starts : op ≠ OpCode.continuation := fun continues =>
          same ⟨fun _ => continues, fun _ => idle⟩
        have more : ¬(c.fragOpCode ≠ OpCode.continuation ∧ op = OpCode.continuation) :=
          fun both => both.1 idle
        have first : c.fragOpCode = OpCode.continuation ∧ op ≠ OpCode.continuation := ⟨idle, starts⟩
        cases taken : c.payloadBytes payload length <;> cases fin <;>
          simp only [processPayload, Bool.false_eq_true, if_false, if_true, if_pos data, taken, bind,
            if_neg more, if_pos first, Option.bind_none, Option.bind_some] at run <;>
          cases run
      · have continues : op = OpCode.continuation := by
          by_contra starts
          exact same ⟨fun fragment => absurd fragment idle, fun both => absurd both starts⟩
        have more : c.fragOpCode ≠ OpCode.continuation ∧ op = OpCode.continuation :=
          ⟨idle, continues⟩
        cases taken : c.payloadBytes payload length <;> cases fin <;>
          simp only [processPayload, Bool.false_eq_true, if_false, if_true, if_pos data, taken, bind,
            if_pos more, Option.bind_none, Option.bind_some] at run <;>
          split at run <;> cases run

/-- Whether the protocol allows a frame or not: it is refused exactly if it is found out. -/
theorem refused_iff {c : Connection} {f : WireFrame.Frame} {buff : Ptr Nat}
    (holds : Holds c.readBuff f buff) (short : f.encode.length < size32) :
    Refused c f buff ↔ Checked c f := by
  have codes : ∀ op : Fin 16, (UInt8.ofNat op.val < OpCode.controlBegin ↔ op.val < 8) ∧
      (UInt8.ofNat op.val = OpCode.continuation ↔ op.val = 0) ∧
      (¬op.val < 8 → ((UInt8.ofNat op.val ≠ OpCode.pong ∧ UInt8.ofNat op.val ≠ OpCode.ping ∧
        UInt8.ofNat op.val ≠ OpCode.close) ↔ 10 < op.val)) := by decide
  obtain ⟨isData, continues, control⟩ := codes f.opCode
  have idle : (c.unmasked f buff).fragOpCode = c.fragOpCode := rfl
  simp only [Refused, processFrame_of_wire holds short, Checked, processPayload_error_iff, isData,
    continues, idle]
  by_cases data : f.opCode.val < 8
  · simp only [if_pos data]
    constructor
    · rintro ⟨d, ⟨-, checked⟩, -⟩
      exact checked
    · intro checked
      exact ⟨_, ⟨rfl, checked⟩, rfl, rfl⟩
  · simp only [if_neg data, control data]
    constructor
    · rintro ⟨d, ⟨-, checked⟩, -⟩
      exact checked
    · intro checked
      exact ⟨_, ⟨rfl, checked⟩, rfl, rfl⟩

/-- A new connection with the frame in its read buffer. -/
def receiving (f : WireFrame.Frame) (fits : f.encode.length ≤ Config.readBuffSize) : Connection :=
  { create (fun _ _ => 0) fun _ _ => 0 with readBuff := (inFront f fits).readBuff }

/-- A ping in fragments. -/
theorem refused_ping : Refused (receiving (small false 9 [] (by decide)) (by decide))
    (small false 9 [] (by decide)) ⟨0, 0⟩ := by
  apply (refused_iff ?_ ?_).mpr
  · exact Or.inl rfl
  · exact received_holds (by decide)
  · decide

/-- The letter without its mask. -/
def bare : WireFrame.Frame := { letter with mask := none }

theorem bare_accepted : ¬∀ (c : Connection) (f : WireFrame.Frame) (buff : Ptr Nat),
    Holds c.readBuff f buff → f.encode.length < size32 → Forbidden f → Refused c f buff := by
  intro all
  obtain ⟨d, run, -⟩ := all (receiving bare (by decide)) bare ⟨0, 0⟩
    (received_holds (by decide)) (by decide) (Or.inl rfl)
  have accepted : ((receiving bare (by decide)).processFrame ⟨0, 0⟩ bare.encode.length).map Prod.fst =
      some CloseReason.none := by decide +kernel
  rw [run] at accepted
  cases accepted

end MiniWebSrv.WebSocket.Connection
