import MiniWebSrv.Lib.Run
import MiniWebSrv.WebSocket.Step

/-! # The life cycle of the message handler

A handler is called until its `OnClose`, and `OnClose` is the last call it gets. The one
thing which can go wrong is a message which becomes complete when there is no handler any
more: `ProcessFrame` passes it on without looking.
-/

namespace MiniWebSrv.WebSocket.Connection

open Run

/-- The calls of a handler's life: none through null, and nothing after `OnClose`. -/
structure LifeCycle (calls : List (HandlerCall × Bool)) : Prop where
  set : ∀ m ∈ calls, m.2 = true
  once : (calls.filter fun m => m.1 matches .onClose _).length ≤ 1
  last : ∀ before reason set after, calls = before ++ (.onClose reason, set) :: after → after = []

/-- No message becomes complete in this event while there is no handler. -/
def Deliverable (c : Connection) : Event → Prop
  | .onRead (some data) => (c.received data).incoming = some .deliver → c.myHandler = true
  | _ => True

/-- A handler which is still there has not been closed. -/
structure Alive (c : Connection) : Prop where
  set : ∀ m ∈ c.calls, m.2 = true
  open_ : c.myHandler = true → ∀ m ∈ c.calls, ∀ reason, m.1 ≠ .onClose reason
  closed : ∀ before reason set after, c.calls = before ++ (.onClose reason, set) :: after → after = []

/-- What an event may do to the handler. -/
inductive Turn (c c' : Connection) : Prop
  | silent (calls : c'.calls = c.calls) (kept : c'.myHandler = true → c.myHandler = true)
  | told (handler : c.myHandler = true) (m : HandlerCall) (calls : c'.calls = c.calls ++ [(m, true)])
      (last : ∀ reason, m = .onClose reason → c'.myHandler = false)

theorem Turn.alive {c c' : Connection} (turn : Turn c c') (alive : Alive c) : Alive c' := by
  obtain ⟨set, open_, closed⟩ := alive
  cases turn with
  | silent calls kept =>
      rw [← calls] at set closed
      exact ⟨set, fun handler => calls ▸ open_ (kept handler), closed⟩
  | told handler m calls last =>
      have none_ := open_ handler
      refine ⟨?_, ?_, ?_⟩
      · intro n member
        rw [calls] at member
        rcases List.mem_append.mp member with old | new
        · exact set n old
        · rw [List.mem_singleton.mp new]
      · intro handler' n member reason same
        rw [calls] at member
        rcases List.mem_append.mp member with old | new
        · exact none_ n old reason same
        · rw [List.mem_singleton.mp new] at same
          rw [last reason same] at handler'
          exact Bool.noConfusion handler'
      · intro before reason set' after split
        rw [calls] at split
        rcases List.eq_nil_or_concat' after with empty | ⟨init, n, rfl⟩
        · exact empty
        · -- the close is not the last call, so it was there before
          rw [← List.cons_append, ← List.append_assoc] at split
          obtain ⟨old, -⟩ := List.append_inj' split rfl
          have member : (.onClose reason, set') ∈ c.calls := by simp [old]
          exact absurd rfl (none_ _ member reason)

theorem Alive.lifeCycle {c : Connection} (alive : Alive c) : LifeCycle c.calls := by
  obtain ⟨set, open_, closed⟩ := alive
  refine ⟨set, ?_, closed⟩
  by_cases none_ : ∃ m ∈ c.calls, ∃ reason, m.1 = .onClose reason
  · obtain ⟨⟨m, flag⟩, member, reason, rfl⟩ := none_
    obtain ⟨before, after, split⟩ := List.append_of_mem member
    obtain rfl := closed before reason flag after split
    -- an earlier close would be followed by this one
    have clean : before.filter (fun m => m.1 matches .onClose _) = [] := by
      refine List.filter_eq_nil_iff.mpr fun n early => ?_
      cases kind : n with
      | mk call set' =>
          cases call with
          | onClose r =>
              obtain ⟨front, rest, split'⟩ := List.append_of_mem (kind ▸ early)
              have := closed front r set' (rest ++ [(.onClose reason, flag)])
                (by rw [split, split', List.append_assoc, List.cons_append])
              simp at this
          | _ => simp
    rw [split, List.filter_append, clean, List.nil_append]
    exact List.length_filter_le _ _
  · have clean : c.calls.filter (fun m => m.1 matches .onClose _) = [] := by
      refine List.filter_eq_nil_iff.mpr fun n member => ?_
      cases kind : n with
      | mk call set' =>
          cases call with
          | onClose r => exact absurd ⟨n, member, r, by rw [kind]⟩ none_
          | _ => simp
    rw [clean]
    exact Nat.zero_le _

/-! ## One event -/

theorem startAsyncWrite_handler (c : Connection) :
    c.startAsyncWrite.calls = c.calls ∧ c.startAsyncWrite.myHandler = c.myHandler := by
  obtain ⟨ranges, q, same, -⟩ := c.startAsyncWrite_eq
  rw [same]
  exact ⟨rfl, rfl⟩

/-- Nothing but what is not the handler's has changed. -/
theorem Turn.of_same {c c' : Connection} (calls : c'.calls = c.calls)
    (handler : c'.myHandler = c.myHandler) : Turn c c' :=
  .silent calls fun set => handler ▸ set

theorem Turn.after {c c' d : Connection} (turn : Turn c c') (calls : d.calls = c'.calls)
    (handler : d.myHandler = c'.myHandler) : Turn c d := by
  cases turn with
  | silent same kept => exact .silent (calls.trans same) fun set => kept (handler ▸ set)
  | told set m same last =>
      exact .told set m (calls.trans same) fun reason close => handler.trans (last reason close)

theorem Turn.before {b c d : Connection} (turn : Turn b d) (calls : b.calls = c.calls)
    (handler : b.myHandler = c.myHandler) : Turn c d := by
  cases turn with
  | silent same kept => exact .silent (same.trans calls) fun set => handler ▸ kept set
  | told set m same last => exact .told (handler ▸ set) m (calls ▸ same) last

theorem Turn.parsed {c c' d : Connection} (turn : Turn c c') (parsed : Parsed c' d) : Turn c d := by
  obtain ⟨_, _, _, _, rfl⟩ := parsed
  exact turn.after rfl rfl

theorem Shut.turn {c d : Connection} (shut : Shut c d) : Turn c d := by
  cases shut with
  | closed handler => exact .of_same rfl rfl
  | told handler reason mem =>
      refine .told handler (.onClose reason) ?_ fun _ _ => rfl
      simp only [startAsyncWrite_handler, queuedClose, queued, call, handler]

theorem closeHandler_turn (c : Connection) (reason : CloseReason) :
    Turn c (c.closeHandler reason) := by
  cases handler : c.myHandler with
  | false =>
      simp only [closeHandler, handler, Bool.false_eq_true, if_false]
      exact .of_same rfl rfl
  | true =>
      simp only [closeHandler, handler, if_true]
      exact .told handler (.onClose reason) (by simp only [call, handler]) fun _ _ => rfl

theorem onStep_turn (c : Connection) (stepInterval : Nat) : Turn c (c.onStep stepInterval).2 := by
  simp only [onStep]
  split
  · exact (closeHandler_turn { c with silentTime := Word.u32 (c.silentTime + stepInterval) }
      CloseReason.connError).before rfl rfl
  · split
    · rename_i handler
      exact .told handler (.onStep stepInterval) (by simp only [call, handler]) (by simp)
    · exact .of_same rfl rfl

theorem onWrite_turn (c : Connection) (error : Bool) : Turn c (c.onWrite error) := by
  cases error with
  | true => exact (closeHandler_turn { c with safeWrite := true } CloseReason.connError).before rfl rfl
  | false =>
      obtain ⟨calls, handler⟩ :=
        startAsyncWrite_handler { c with safeWrite := true, writeBuff := c.writeBuff.release }
      exact .of_same calls handler

/-- The events other than a successful read, which process no frame. -/
theorem handle_turn {c c' : Connection} {e : Event} (other : ∀ data, e ≠ .onRead (some data))
    (run : c.handle e = some c') : Turn c c' := by
  cases e with
  | onRead result =>
      cases result with
      | some data => exact absurd rfl (other data)
      | none =>
          obtain rfl := Option.some.inj run
          exact (closeHandler_turn { c with reads := c.reads - 1, safeRead := true } _).before rfl rfl
  | onWrite i error =>
      obtain rfl := Option.some.inj run
      exact (onWrite_turn { c with writes := c.writes.eraseIdx i } error).before rfl rfl
  | onStep stepInterval =>
      obtain rfl := Option.some.inj run
      exact c.onStep_turn stepInterval
  | stop => exact (stop_some run).turn
  | allocate type length =>
      obtain ⟨⟨ret, d⟩, allocated, rfl⟩ := Option.map_eq_some_iff.mp run
      obtain ⟨q, mem, rfl⟩ := allocate_eq allocated
      exact .of_same rfl rfl
  | deallocate =>
      obtain rfl := Option.some.inj run
      exact .of_same rfl rfl
  | send =>
      obtain rfl := Option.some.inj run
      exact .of_same rfl rfl
  | sendPing =>
      simp only [handle, sendPing, bind, Option.bind_eq_some_iff, Option.some.injEq] at run
      obtain ⟨⟨sent, d⟩, sends, rfl⟩ := run
      obtain ⟨-, mem, rfl⟩ := sendControlFrame_some sends
      exact .of_same rfl rfl
  | close reason =>
      simp only [handle, close, bind, Option.bind_eq_some_iff, Option.some.injEq] at run
      obtain ⟨⟨sent, d⟩, sends, rfl⟩ := run
      obtain ⟨-, mem, rfl⟩ := sendCloseInternal_some sends
      exact .of_same rfl rfl
  | posted p =>
      cases p with
      | write =>
          obtain rfl := Option.some.inj run
          obtain ⟨calls, handler⟩ := startAsyncWrite_handler { c with posts := c.posts.erase .write }
          exact .of_same calls handler
      | close =>
          obtain rfl := Option.some.inj run
          obtain ⟨calls, handler⟩ := startAsyncWrite_handler
            { c with posts := c.posts.erase .close, myHandler := false }
          exact .silent calls fun set => absurd (handler.symm.trans set) (by simp)

/-- A read which completes a message calls the handler, whether there is one or not. -/
theorem read_turn {c c' : Connection} {x : Option Reaction} (read : Read c x c') :
    (x ≠ some .deliver ∧ Turn c c') ∨
      x = some .deliver ∧ c'.myHandler = c.myHandler ∧
        ∃ type msg, c'.calls = c.calls ++ [(.onMessage type msg, c.myHandler)] := by
  have quiet : ∀ {d : Connection}, Parsed c d → Turn c d.startAsyncRead := fun parsed =>
    ((Turn.of_same rfl rfl).parsed parsed).after rfl rfl
  cases read with
  | waits parsed => exact Or.inl ⟨by simp, quiet parsed⟩
  | ends reason shut parsed => exact Or.inl ⟨by simp, (shut.turn.parsed parsed).after rfl rfl⟩
  | goesOn reacts =>
      cases reacts with
      | deliver type msg parsed =>
          obtain ⟨_, _, _, _, rfl⟩ := parsed
          exact Or.inr ⟨rfl, rfl, type, msg, rfl⟩
      | keep parsed => exact Or.inl ⟨by simp, quiet parsed⟩
      | ignore parsed => exact Or.inl ⟨by simp, quiet parsed⟩
      | answer mem parsed =>
          obtain ⟨calls, handler⟩ := (c.queued 2 mem).startAsyncWrite_handler
          have turn : Turn c (c.queued 2 mem).startAsyncWrite := .of_same calls handler
          exact Or.inl ⟨by simp, (turn.parsed parsed).after rfl rfl⟩
      | shut shut parsed => exact Or.inl ⟨by simp, (shut.turn.parsed parsed).after rfl rfl⟩
      | refuse _ real parsed => exact absurd rfl real

theorem handle_alive (c : Connection) (e : Event) (c' : Connection) (alive : Alive c)
    (deliverable : Deliverable c e) (run : c.handle e = some c') : Alive c' := by
  by_cases isRead : ∃ data, e = .onRead (some data)
  · obtain ⟨data, rfl⟩ := isRead
    have alive : Alive (c.received data) := ⟨alive.set, alive.open_, alive.closed⟩
    rcases read_turn (handle_onRead run) with ⟨-, turn⟩ | ⟨complete, handler, type, msg, calls⟩
    · exact turn.alive alive
    · have set : (c.received data).myHandler = true := deliverable complete
      exact (Turn.told set (.onMessage type msg) (set ▸ calls) (by simp)).alive alive
  · exact (handle_turn (fun data same => isRead ⟨data, same⟩) run).alive alive

/-- A message completed without a handler is a call through null. -/
theorem handle_deliverable (c : Connection) (e : Event) (c' : Connection)
    (run : c.handle e = some c') (cycle : LifeCycle c'.calls) : Deliverable c e := by
  by_cases isRead : ∃ data, e = .onRead (some data)
  · obtain ⟨data, rfl⟩ := isRead
    intro complete
    rcases read_turn (handle_onRead run) with ⟨other, -⟩ | ⟨-, handler, type, msg, calls⟩
    · exact absurd complete other
    · exact cycle.set (.onMessage type msg, c.myHandler) (by simp [calls, received])
  · cases e with
    | onRead result =>
        cases result with
        | none => trivial
        | some data => exact absurd ⟨data, rfl⟩ isRead
    | _ => trivial

/-! ## Runs -/

theorem create_alive (readMem : Mem Nat Byte) (writeMem : Mem WriteBlock Byte) :
    Alive (create readMem writeMem) :=
  ⟨by simp [create, startAsyncRead], by simp [create, startAsyncRead],
    by simp [create, startAsyncRead]⟩

/-- Whatever happens in whatever order, the handler's life cycle is kept exactly as long as
    no message becomes complete without a handler. -/
theorem handler_lifeCycle_iff (readMem : Mem Nat Byte) (writeMem : Mem WriteBlock Byte)
    (events : List Event) {c : Connection}
    (run : exec handle (create readMem writeMem) events = some c) :
    Always handle (fun d => LifeCycle d.calls) (create readMem writeMem) events ↔
      Along handle Deliverable (create readMem writeMem) events :=
  always_iff_along (fun _ => Alive.lifeCycle) handle_alive
    (fun c e c' _ run cycle => handle_deliverable c e c' run cycle) (create_alive readMem writeMem)
    run

/-- A message, a ping, and a close frame whose answer is written before the peer hangs up. -/
def closing : List Event :=
  [.onRead (some [0x81, 0x81, 1, 2, 3, 4, 0x60]), .onStep 1, .onRead (some [0x89, 0x80, 0, 0, 0, 0]),
    .onWrite 0 false, .onRead (some [0x88, 0x80, 0, 0, 0, 0]), .onWrite 0 false, .onRead none]

theorem handler_lifeCycle_closing :
    ∃ c, exec handle (create (fun _ _ => 0) fun _ _ => 0) closing = some c ∧
      (Always handle (fun d => LifeCycle d.calls) (create (fun _ _ => 0) fun _ _ => 0) closing ↔
        Along handle Deliverable (create (fun _ _ => 0) fun _ _ => 0) closing) := by
  have runs : (exec handle (create (fun _ _ => 0) fun _ _ => 0) closing).isSome := by
    decide +kernel
  obtain ⟨c, run⟩ := Option.isSome_iff_exists.mp runs
  exact ⟨c, run, handler_lifeCycle_iff _ _ _ run⟩

/-- A close frame and a text frame, both masked with zeros and empty. -/
def closeThenText : List Event :=
  [.onRead (some [0x88, 0x80, 0, 0, 0, 0]), .onRead (some [0x81, 0x80, 0, 0, 0, 0])]

theorem handler_called_after_close :
    ¬ ∀ events c, exec handle (create (fun _ _ => 0) fun _ _ => 0) events = some c →
      LifeCycle c.calls := by
  intro all
  have calls : (exec handle (create (fun _ _ => 0) fun _ _ => 0) closeThenText).map (·.calls) =
      some [(.onClose 0, true), (.onMessage .text [], false)] := by decide +kernel
  obtain ⟨c, run, same⟩ := Option.map_eq_some_iff.mp calls
  have null := (all closeThenText c run).set (.onMessage .text [], false) (by simp [same])
  exact Bool.noConfusion null

end MiniWebSrv.WebSocket.Connection
