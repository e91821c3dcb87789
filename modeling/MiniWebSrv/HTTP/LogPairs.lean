import Mathlib.Data.List.Count
import Mathlib.Data.List.Nodup
import Mathlib.Data.List.Pairwise
import MiniWebSrv.HTTP.ServerLog

/-! # Paired log events

The destructor of an HTTP connection calls `OnConnectionFinished`, the one of a WebSocket connection
does not. The log is balanced exactly in the runs in which no WebSocket connection is deleted.
-/

namespace MiniWebSrv.HTTP

open Run ServerLog

namespace ServerLog

/-- The objects which the call announces. -/
def Call.announces : Call → List Object
  | .onConnection connection _ isAllowed => if isAllowed then [connection] else []
  | .onRequest _ upgradeConn => upgradeConn.toList
  | _ => []

def Announced (calls : List Call) (o : Object) : Prop := ∃ m ∈ calls, o ∈ m.announces

theorem announced_concat {calls : List Call} {m : Call} {o : Object} :
    Announced (calls ++ [m]) o ↔ Announced calls o ∨ o ∈ m.announces := by
  simp only [Announced, List.mem_append, List.mem_singleton, or_and_right, exists_or,
    exists_eq_left]

/-- The objects whose addresses the call may put into `ConnMap`. -/
def Call.entries : Call → List Object
  | .onWebSocket connection _ _ => [connection]
  | m => m.announces

theorem connMap_concat (calls : List Call) (m : Call) :
    connMap (calls ++ [m]) = (OStream.call ⟨connMap calls⟩ m).connMap := by
  simp only [connMap, List.foldl_append, List.foldl_cons, List.foldl_nil]

namespace OStream

variable {l : OStream} {a connection : Nat}

theorem put_isSome {holder : ConnDataHolder} (found : ((l.put connection holder).connMap a).isSome) :
    (l.connMap a).isSome ∨ connection = a := by
  simp only [put] at found
  split at found
  · rename_i same
    exact Or.inr same.symm
  · exact Or.inl found

theorem erase_isSome (found : ((l.erase connection).connMap a).isSome) :
    (l.connMap a).isSome ∧ connection ≠ a := by
  simp only [erase] at found
  split at found
  · cases found
  · rename_i other
    exact ⟨found, Ne.symm other⟩

/-- An address comes into the map as an entry of a call. -/
theorem call_isSome {m : Call} (found : ((l.call m).connMap a).isSome) :
    (l.connMap a).isSome ∨ ∃ o ∈ m.entries, o.addr = a := by
  cases m with
  | onConnection connection sourceAddr isAllowed =>
      cases isAllowed with
      | false => exact Or.inl found
      | true =>
          apply (put_isSome found).imp id
          exact fun same => ⟨connection, List.mem_singleton_self _, same⟩
  | onConnectionFinished connection =>
      simp only [call, onConnectionFinished] at found
      split at found
      · exact Or.inl (erase_isSome found).1
      · exact Or.inl found
  | onRequest connection upgradeConn =>
      cases upgradeConn with
      | none =>
          simp only [call, onRequest, Option.map_none] at found
          split at found <;> exact Or.inl found
      | some self =>
          simp only [call, onRequest, Option.map_some] at found
          split at found
          · split at found
            · apply (put_isSome (erase_isSome found).1).imp id
              exact fun same => ⟨self, List.mem_singleton_self _, same⟩
            · exact Or.inl found
          · exact Or.inl found
  | onWebSocket connection resource isSuccess =>
      cases isSuccess with
      | false => exact Or.inl found
      | true =>
          apply (put_isSome found).imp id
          exact fun same => ⟨connection, List.mem_singleton_self _, same⟩

theorem finished_isSome {o : Object} (found : ((l.call (.onConnectionFinished o)).connMap a).isSome) :
    (l.connMap a).isSome ∧ o.addr ≠ a := by
  simp only [call, onConnectionFinished] at found
  split at found
  · exact erase_isSome found
  · rename_i missing
    refine ⟨found, ?_⟩
    intro same
    rw [← same, missing] at found
    cases found

end OStream

end ServerLog

/-! ## The books -/

/-- What the log says about the objects: those in the list, the one which waits to be accepted and
    those which have been deleted. -/
structure Books (created : Nat) (listed waiting deleted : List Object) (log : List Call) : Prop where
  nodup : (listed ++ waiting ++ deleted).Nodup
  old : ∀ o ∈ listed ++ waiting ++ deleted, o.id < created
  announced : ∀ o ∈ listed, Announced log o
  unannounced : ∀ o ∈ waiting, ¬Announced log o
  known : ∀ o, Announced log o → o ∈ listed ∨ o ∈ deleted
  finished : ∀ o, Announced log o →
    log.count (.onConnectionFinished o) = if o ∈ deleted then 1 else 0
  silent : ∀ o, ¬Announced log o → log.count (.onConnectionFinished o) = 0
  connMap : ∀ a, (connMap log a).isSome → ∃ o ∈ listed, o.addr = a

theorem count_other {calls : List Call} {m : Call} {o : Object} (other : m ≠ .onConnectionFinished o) :
    (calls ++ [m]).count (.onConnectionFinished o) = calls.count (.onConnectionFinished o) := by
  rw [List.count_append, List.count_singleton, if_neg (by simpa using other), Nat.add_zero]

namespace Books

variable {created : Nat} {listed listed' waiting deleted : List Object} {log : List Call}

theorem init : Books 0 [] [] [] [] where
  nodup := List.nodup_nil
  old o member := absurd member List.not_mem_nil
  announced o member := absurd member List.not_mem_nil
  unannounced o member := absurd member List.not_mem_nil
  known o announced := by
    obtain ⟨m, member, -⟩ := announced
    cases member
  finished o announced := by
    obtain ⟨m, member, -⟩ := announced
    cases member
  silent o _ := rfl
  connMap a found := by cases found

theorem perm (books : Books created listed waiting deleted log) (same : listed'.Perm listed) :
    Books created listed' waiting deleted log where
  nodup := ((same.append_right waiting).append_right deleted).nodup_iff.mpr books.nodup
  old o member := books.old o (((same.append_right waiting).append_right deleted).mem_iff.mp member)
  announced o member := books.announced o (same.mem_iff.mp member)
  unannounced := books.unannounced
  known o announced := (books.known o announced).imp same.mem_iff.mpr id
  finished := books.finished
  silent := books.silent
  connMap a found := by
    obtain ⟨o, member, at_⟩ := books.connMap a found
    exact ⟨o, same.mem_iff.mpr member, at_⟩

/-- A call which announces nothing and ends nothing. -/
theorem tell {m : Call} (books : Books created listed waiting deleted log) (quiet : m.announces = [])
    (other : ∀ o, m ≠ .onConnectionFinished o) (entries : ∀ o ∈ m.entries, o ∈ listed) :
    Books created listed waiting deleted (log ++ [m]) := by
  have same (o : Object) : Announced (log ++ [m]) o ↔ Announced log o := by
    simp only [announced_concat, quiet, List.not_mem_nil, or_false]
  refine ⟨books.nodup, books.old, ?_, ?_, ?_, ?_, ?_, ?_⟩
  · intro o member
    exact (same o).mpr (books.announced o member)
  · intro o member announced
    exact books.unannounced o member ((same o).mp announced)
  · intro o announced
    exact books.known o ((same o).mp announced)
  · intro o announced
    rw [count_other (other o)]
    exact books.finished o ((same o).mp announced)
  · intro o unannounced
    rw [count_other (other o)]
    exact books.silent o (mt (same o).mpr unannounced)
  · intro a found
    rw [connMap_concat] at found
    rcases OStream.call_isSome found with before | ⟨o, member, at_⟩
    · exact books.connMap a before
    · exact ⟨o, entries o member, at_⟩

/-- A new object waits. -/
theorem place (books : Books created listed waiting deleted log) (addr : Nat) :
    Books (created + 1) listed (waiting ++ [Object.mk created addr]) deleted log := by
  have fresh : Object.mk created addr ∉ listed ++ waiting ++ deleted := fun member =>
    Nat.lt_irrefl _ (books.old _ member)
  have all : (listed ++ (waiting ++ [Object.mk created addr]) ++ deleted).Perm
      (Object.mk created addr :: (listed ++ waiting ++ deleted)) := by
    rw [← List.append_assoc, List.append_assoc, List.singleton_append]
    exact List.perm_middle
  refine ⟨all.nodup_iff.mpr (List.nodup_cons.mpr ⟨fresh, books.nodup⟩), ?_, books.announced, ?_,
    books.known, books.finished, books.silent, books.connMap⟩
  · intro o member
    rcases List.mem_cons.mp (all.mem_iff.mp member) with rfl | before
    · exact Nat.lt_succ_self _
    · exact Nat.lt_succ_of_lt (books.old o before)
  · intro o member announced
    rcases List.mem_append.mp member with before | here
    · exact books.unannounced o before announced
    · rw [List.mem_singleton.mp here] at announced
      apply fresh
      rcases books.known _ announced with isListed | gone
      · exact List.mem_append_left _ (List.mem_append_left _ isListed)
      · exact List.mem_append_right _ gone

/-- A waiting object is announced and put into the list. -/
theorem announce {m : Call} {o : Object} (books : Books created listed (waiting ++ [o]) deleted log)
    (announces : m.announces = [o]) (other : ∀ o, m ≠ .onConnectionFinished o)
    (entries : m.entries = [o]) : Books created (listed ++ [o]) waiting deleted (log ++ [m]) := by
  have all : (listed ++ [o] ++ waiting ++ deleted).Perm (listed ++ (waiting ++ [o]) ++ deleted) := by
    rw [List.append_assoc listed]
    exact (List.perm_append_comm.append_left listed).append_right deleted
  have present : Announced (log ++ [m]) o := by
    rw [announced_concat, announces]
    exact Or.inr (List.mem_singleton_self o)
  have same {p : Object} (apart : p ≠ o) : Announced (log ++ [m]) p ↔ Announced log p := by
    rw [announced_concat, announces, List.mem_singleton, or_iff_left apart]
  have nodup := all.nodup_iff.mpr books.nodup
  have unannounced := books.unannounced o (List.mem_append_right _ (List.mem_singleton_self o))
  have split := List.nodup_append.mp nodup
  have split' := List.nodup_append.mp split.1
  have inList : o ∈ listed ++ [o] := List.mem_append_right _ (List.mem_singleton_self o)
  have alive : o ∉ deleted := fun gone =>
    split.2.2 o (List.mem_append_left _ inList) o gone rfl
  refine ⟨nodup, fun p member => books.old p (all.mem_iff.mp member), ?_, ?_, ?_, ?_, ?_, ?_⟩
  · intro p member
    rw [announced_concat, announces]
    exact (List.mem_append.mp member).imp (books.announced p) id
  · intro p member announced
    have apart : p ≠ o := fun equal => split'.2.2 o inList o (equal ▸ member) rfl
    exact books.unannounced p (List.mem_append_left _ member) ((same apart).mp announced)
  · intro p announced
    by_cases equal : p = o
    · exact Or.inl (equal ▸ inList)
    · exact (books.known p ((same equal).mp announced)).imp (List.mem_append_left _) id
  · intro p announced
    rw [count_other (other p)]
    by_cases equal : p = o
    · rw [equal, if_neg alive, books.silent o unannounced]
    · exact books.finished p ((same equal).mp announced)
  · intro p quiet
    rw [count_other (other p)]
    apply books.silent
    intro announced
    exact quiet (announced_concat.mpr (Or.inl announced))
  · intro a found
    rw [connMap_concat] at found
    rcases OStream.call_isSome found with before | ⟨p, member, at_⟩
    · obtain ⟨p, isListed, at_⟩ := books.connMap a before
      exact ⟨p, List.mem_append_left _ isListed, at_⟩
    · rw [entries] at member
      exact ⟨p, List.mem_append_right _ member, at_⟩

/-- A waiting object is deleted, without a word. -/
theorem drop {o : Object} (books : Books created listed (waiting ++ [o]) deleted log) :
    Books created listed waiting (deleted ++ [o]) log := by
  have all : (listed ++ waiting ++ (deleted ++ [o])).Perm (listed ++ (waiting ++ [o]) ++ deleted) := by
    rw [← List.append_assoc listed, List.append_assoc (listed ++ waiting)]
    exact List.perm_append_comm.append_left _
  have unannounced := books.unannounced o (List.mem_append_right _ (List.mem_singleton_self o))
  refine ⟨all.nodup_iff.mpr books.nodup, fun p member => books.old p (all.mem_iff.mp member),
    books.announced, fun p member => books.unannounced p (List.mem_append_left _ member), ?_, ?_,
    books.silent, books.connMap⟩
  · intro p announced
    exact (books.known p announced).imp id (List.mem_append_left _)
  · intro p announced
    have apart : p ≠ o := fun equal => unannounced (equal ▸ announced)
    have same : p ∈ deleted ++ [o] ↔ p ∈ deleted := by
      rw [List.mem_append, List.mem_singleton, or_iff_left apart]
    simp only [same]
    exact books.finished p announced

theorem announce_only {m : Call} {o : Object} (books : Books created listed [o] deleted log)
    (announces : m.announces = [o]) (other : ∀ o, m ≠ .onConnectionFinished o)
    (entries : m.entries = [o]) : Books created (listed ++ [o]) [] deleted (log ++ [m]) := by
  rw [← List.nil_append [o]] at books
  exact books.announce announces other entries

theorem drop_only {o : Object} (books : Books created listed [o] deleted log) :
    Books created listed [] (deleted ++ [o]) log := by
  rw [← List.nil_append [o]] at books
  exact books.drop

/-- An object of the list is deleted, and its destructor tells the log. -/
theorem finish {o : Object} (books : Books created (o :: listed) waiting deleted log) :
    Books created listed waiting (deleted ++ [o]) (log ++ [.onConnectionFinished o]) := by
  have all : (listed ++ waiting ++ (deleted ++ [o])).Perm (o :: listed ++ waiting ++ deleted) := by
    rw [← List.append_assoc]
    exact List.perm_append_singleton o _
  have announced := books.announced o List.mem_cons_self
  have alive : o ∉ deleted := fun gone =>
    (List.nodup_append.mp books.nodup).2.2 o (List.mem_append_left _ List.mem_cons_self) o gone rfl
  have same (p : Object) : Announced (log ++ [.onConnectionFinished o]) p ↔ Announced log p := by
    rw [announced_concat]
    exact or_iff_left List.not_mem_nil
  refine ⟨all.nodup_iff.mpr books.nodup, fun p member => books.old p (all.mem_iff.mp member),
    ?_, ?_, ?_, ?_, ?_, ?_⟩
  · intro p member
    exact (same p).mpr (books.announced p (List.mem_cons_of_mem o member))
  · intro p member
    exact mt (same p).mp (books.unannounced p member)
  · intro p announced
    rcases books.known p ((same p).mp announced) with isListed | gone
    · rcases List.mem_cons.mp isListed with rfl | other
      · exact Or.inr (List.mem_append_right _ (List.mem_singleton_self p))
      · exact Or.inl other
    · exact Or.inr (List.mem_append_left _ gone)
  · intro p announced
    have before := books.finished p ((same p).mp announced)
    by_cases equal : p = o
    · rw [equal] at before ⊢
      rw [List.count_append, List.count_singleton_self, before, if_neg alive,
        if_pos (List.mem_append_right _ (List.mem_singleton_self o))]
    · have member : p ∈ deleted ++ [o] ↔ p ∈ deleted := by
        rw [List.mem_append, List.mem_singleton, or_iff_left equal]
      rw [count_other fun finished => equal (Call.onConnectionFinished.inj finished).symm]
      simp only [member]
      exact before
  · intro p quiet
    have apart : p ≠ o := fun equal => quiet ((same p).mpr (equal ▸ announced))
    rw [count_other fun finished => apart (Call.onConnectionFinished.inj finished).symm]
    exact books.silent p (mt (same p).mpr quiet)
  · intro a found
    rw [connMap_concat] at found
    obtain ⟨before, other⟩ := OStream.finished_isSome found
    obtain ⟨p, isListed, at_⟩ := books.connMap a before
    rcases List.mem_cons.mp isListed with rfl | others
    · exact absurd at_ other
    · exact ⟨p, others, at_⟩

end Books

/-! ## The list of connections -/

namespace ConnectionBase

/-- The connection has been started. There is nothing to hand over as long as `ProtocolHandler`
    runs. -/
def Ready : ConnectionBase → Prop
  | .http c => c.myLog = true ∧ (c.isDeletable = false → c.nextConn = none)
  | .webSocket _ => True

/-- `OnStep` does not return false for a WebSocket connection. -/
def stays : ConnectionBase → Bool
  | .http _ => true
  | .webSocket w => (w.connection.onStep LoggedServer.stepDurationSeconds).1

theorem webSockets_subset {c : ConnectionBase} {w : WebSocketConn} (member : w ∈ c.webSockets) :
    w.self ∈ c.objects := by
  cases c with
  | http c => exact List.mem_cons_of_mem _ (List.mem_map_of_mem member)
  | webSocket v =>
      rw [List.mem_singleton.mp member]
      exact List.mem_singleton_self _

/-- A connection without a WebSocket connection is an HTTP connection with nothing to hand over. -/
theorem plain {c : ConnectionBase} (none_ : c.webSockets = []) :
    ∃ h, c = .http h ∧ h.nextConn = none := by
  cases c with
  | http h => exact ⟨h, rfl, Option.toList_eq_nil_iff.mp none_⟩
  | webSocket w => cases none_

end ConnectionBase

theorem HttpConn.onStep_eq (c : HttpConn) (stepInterval : Nat) :
    ∃ (active : Bool) (silentTime : Nat), c.onStep stepInterval =
      (active, { c with nextConn := none, silentTime := silentTime }, c.nextConn) := by
  refine ⟨(c.onStep stepInterval).1, (c.onStep stepInterval).2.1.silentTime, ?_⟩
  cases next : c.nextConn <;> simp [HttpConn.onStep, next]

theorem objects_webSockets (ws : List WebSocketConn) :
    (ws.map ConnectionBase.webSocket).flatMap ConnectionBase.objects =
      ws.map WebSocketConn.self := by
  rw [List.flatMap_map, List.map_eq_flatMap]
  rfl

/-- The objects of a list in which one connection has been replaced. -/
theorem objects_set {conns : List ConnectionBase} {i : Nat} {c c' : ConnectionBase}
    (at_ : conns[i]? = some c) (more : List Object) (same : c'.objects.Perm (c.objects ++ more)) :
    ((conns.set i c').flatMap ConnectionBase.objects).Perm
      (conns.flatMap ConnectionBase.objects ++ more) := by
  obtain ⟨inside, rfl⟩ := List.getElem?_eq_some_iff.mp at_
  have split : conns = conns.take i ++ conns[i] :: conns.drop (i + 1) := by
    rw [← List.drop_eq_getElem_cons inside, List.take_append_drop]
  rw [List.set_eq_take_append_cons_drop, if_pos inside]
  conv_rhs => rw [split]
  apply List.perm_iff_count.mpr
  intro o
  have count := same.count_eq o
  simp only [List.flatMap_append, List.flatMap_cons, List.count_append] at count ⊢
  omega

namespace LoggedServer

variable {s t : LoggedServer}

structure Kept (s : LoggedServer) : Prop where
  books : Books s.created (s.connLst.flatMap ConnectionBase.objects)
    (s.nextConn.toList.map HttpConn.self) s.deleted s.log
  ready : ∀ c ∈ s.connLst, c.Ready
  waiting : ∀ c ∈ s.nextConn, c.myLog = false ∧ c.nextConn = none

/-! ### The loop of `OnTimer` -/

section Loop

variable {l : Loop} {c : ConnectionBase} {rest : List ConnectionBase} {created : Nat}
  {waiting : List Object}

/-- In the middle of the loop, with the connections which it has not reached yet. -/
structure Mid (created : Nat) (waiting : List Object) (l : Loop) (rest : List ConnectionBase) :
    Prop where
  books : Books created ((l.connLst ++ l.nextConnLst ++ rest).flatMap ConnectionBase.objects) waiting
    l.deleted l.log
  ready : ∀ c ∈ l.connLst ++ l.nextConnLst ++ rest, c.Ready

/-- An HTTP connection hands over what it has, and stays or is deleted. -/
theorem step_http (l : Loop) (h : HttpConn) : ∃ (active : Bool) (silentTime : Nat),
    l.step (.http h) = {
      connLst := l.connLst ++
        if active then [.http { h with nextConn := none, silentTime := silentTime }] else []
      nextConnLst := l.nextConnLst ++ h.nextConn.toList.map .webSocket
      log := l.log ++ if active then [] else h.finished
      deleted := l.deleted ++ if active then [] else [h.self] } := by
  obtain ⟨active, silentTime, stepped⟩ := h.onStep_eq stepDurationSeconds
  refine ⟨active, silentTime, ?_⟩
  simp only [Loop.step, ConnectionBase.onStep, stepped]
  cases active <;> cases h.nextConn <;>
    simp [ConnectionBase.finished, HttpConn.finished, ConnectionBase.objects]

theorem Mid.step (mid : Mid created waiting l (c :: rest)) (stays : c.stays = true) :
    Mid created waiting (l.step c) rest := by
  have books := mid.books
  have ready (d : ConnectionBase) (member : d ∈ l.connLst ++ l.nextConnLst ++ rest) : d.Ready := by
    apply mid.ready
    rcases List.mem_append.mp member with before | later
    · exact List.mem_append_left _ before
    · exact List.mem_append_right _ (List.mem_cons_of_mem c later)
  cases c with
  | webSocket w =>
      cases stepped : w.connection.onStep stepDurationSeconds with
      | mk active connection =>
          have active_ : active = true := by
            simpa only [ConnectionBase.stays, stepped] using stays
          subst active_
          simp only [Loop.step, ConnectionBase.onStep, stepped, if_true]
          refine ⟨books.perm ?_, ?_⟩
          · apply List.perm_iff_count.mpr
            intro o
            simp only [List.flatMap_append, List.flatMap_cons, List.count_append,
              List.flatMap_nil, List.append_nil, ConnectionBase.objects]
            omega
          · intro d member
            simp only [List.mem_append, List.mem_singleton] at member
            rcases member with ((early | rfl) | next) | later
            · exact ready d (by simp only [early, List.mem_append, true_or])
            · trivial
            · exact ready d (by simp only [next, List.mem_append, true_or, or_true])
            · exact ready d (by simp only [later, List.mem_append, or_true])
  | http h =>
      obtain ⟨active, silentTime, stepped⟩ := step_http l h
      obtain ⟨myLog, -⟩ := mid.ready (.http h) (by simp)
      rw [stepped]
      have handed (d : ConnectionBase) (member : d ∈ h.nextConn.toList.map .webSocket) : d.Ready := by
        obtain ⟨w, -, rfl⟩ := List.mem_map.mp member
        trivial
      cases active with
      | true =>
          refine ⟨?_, ?_⟩
          · simp only [if_true, List.append_nil]
            apply books.perm
            apply List.perm_iff_count.mpr
            intro o
            simp only [List.flatMap_append, List.flatMap_cons, List.count_append, List.flatMap_nil,
              List.append_nil, objects_webSockets, ConnectionBase.objects, List.count_cons,
              Option.toList_none, List.map_nil, List.count_nil]
            omega
          · intro d member
            simp only [if_true, List.mem_append, List.mem_singleton] at member
            rcases member with ((early | rfl) | next | here) | later
            · exact ready d (by simp only [early, List.mem_append, true_or])
            · exact ⟨myLog, fun _ => rfl⟩
            · exact ready d (by simp only [next, List.mem_append, true_or, or_true])
            · exact handed d here
            · exact ready d (by simp only [later, List.mem_append, or_true])
      | false =>
          have finished : h.finished = [.onConnectionFinished h.self] := if_pos myLog
          refine ⟨?_, ?_⟩
          · simp only [Bool.false_eq_true, if_false, List.append_nil, finished]
            apply Books.finish
            apply books.perm
            apply List.perm_iff_count.mpr
            intro o
            simp only [List.flatMap_append, List.flatMap_cons, List.count_append, objects_webSockets,
              ConnectionBase.objects, List.count_cons]
            omega
          · intro d member
            simp only [Bool.false_eq_true, if_false, List.append_nil, List.mem_append] at member
            rcases member with (early | next | here) | later
            · exact ready d (by simp only [early, List.mem_append, true_or])
            · exact ready d (by simp only [next, List.mem_append, true_or, or_true])
            · exact handed d here
            · exact ready d (by simp only [later, List.mem_append, or_true])

theorem Mid.all (mid : Mid created waiting l rest) (stays : ∀ c ∈ rest, c.stays = true) :
    Mid created waiting (rest.foldl Loop.step l) [] := by
  induction rest generalizing l with
  | nil => exact mid
  | cons c rest ih =>
      have next := mid.step (stays c List.mem_cons_self)
      exact ih next fun d member => stays d (List.mem_cons_of_mem c member)

end Loop

/-! ### The steps -/

theorem place_some {addr : Nat} {self : Object} (placed : s.place addr = some self) :
    self = ⟨s.created, addr⟩ := by
  unfold place at placed
  split at placed
  · cases placed
  · exact (Option.some.inj placed).symm

theorem restartAccept_kept {addr : Nat} (kept : Kept s) (taken : s.restartAccept addr = some t) :
    Kept t := by
  unfold restartAccept at taken
  split at taken
  case isFalse =>
    cases taken
    exact kept
  split at taken
  · cases taken
    exact kept
  · rename_i next
    obtain ⟨self, placed, taken⟩ := Option.bind_eq_some_iff.mp taken
    cases place_some placed
    cases taken
    have books := kept.books.place addr
    rw [next] at books
    refine ⟨books, kept.ready, ?_⟩
    intro c isNext
    cases isNext
    exact ⟨rfl, rfl⟩

theorem onAccept_kept {error allowed : Bool} {sourceAddr : UInt32} {addr : Nat} (kept : Kept s)
    (taken : s.onAccept error allowed sourceAddr addr = some t) : Kept t := by
  unfold onAccept at taken
  split at taken
  · exact restartAccept_kept kept taken
  split at taken
  · cases taken
  rename_i c next
  have books := kept.books
  rw [next] at books
  obtain ⟨myLog, empty⟩ := kept.waiting c next
  have nobody (d : HttpConn) (isNext : d ∈ (none : Option HttpConn)) :
      d.myLog = false ∧ d.nextConn = none := by cases isNext
  have objects : ConnectionBase.objects (.http c) = [c.self] := by
    simp only [ConnectionBase.objects, empty, Option.toList_none, List.map_nil]
  cases allowed with
  | true =>
      apply restartAccept_kept _ taken
      refine ⟨?_, ?_, nobody⟩
      · have announced := books.announce_only (m := .onConnection c.self sourceAddr true) rfl
          (fun _ => Call.noConfusion) rfl
        simp only [List.flatMap_append, List.flatMap_cons, List.flatMap_nil, List.append_nil]
        exact objects ▸ announced
      · intro d member
        rcases List.mem_append.mp member with before | here
        · exact kept.ready d before
        · cases List.mem_singleton.mp here
          exact ⟨rfl, fun _ => empty⟩
  | false =>
      apply restartAccept_kept _ taken
      refine ⟨?_, kept.ready, nobody⟩
      have told := Books.tell (m := .onConnection c.self sourceAddr false) books rfl
        (fun _ => Call.noConfusion) fun _ member => absurd member List.not_mem_nil
      have silent : c.finished = [] := if_neg (by rw [myLog]; exact Bool.false_ne_true)
      rw [silent, List.append_nil, objects]
      exact told.drop_only

/-- No connection but those which are no WebSocket connections, and have none, is deleted. -/
theorem finish_all {created : Nat} {waiting deleted : List Object} {log : List Call}
    {conns : List ConnectionBase}
    (books : Books created (conns.flatMap ConnectionBase.objects) waiting deleted log)
    (ready : ∀ c ∈ conns, c.Ready) (plain : ∀ c ∈ conns, c.webSockets = []) :
    Books created [] waiting (deleted ++ conns.flatMap ConnectionBase.objects)
      (log ++ conns.flatMap ConnectionBase.finished) := by
  induction conns generalizing deleted log with
  | nil =>
      simp only [List.flatMap_nil, List.append_nil]
      exact books
  | cons c rest ih =>
      obtain ⟨h, rfl, empty⟩ := ConnectionBase.plain (plain c List.mem_cons_self)
      obtain ⟨myLog, -⟩ := ready (.http h) List.mem_cons_self
      have objects : ConnectionBase.objects (.http h) = [h.self] := by
        simp only [ConnectionBase.objects, empty, Option.toList_none, List.map_nil]
      have finished : ConnectionBase.finished (.http h) = [.onConnectionFinished h.self] :=
        if_pos myLog
      rw [List.flatMap_cons, objects] at books
      have later := ih books.finish (fun d member => ready d (List.mem_cons_of_mem _ member))
        fun d member => plain d (List.mem_cons_of_mem _ member)
      rw [List.flatMap_cons, List.flatMap_cons, objects, finished, ← List.append_assoc,
        ← List.append_assoc]
      exact later

theorem stop_kept (kept : Kept s)
    (plain : s.runTh = true → ∀ c ∈ s.connLst, c.webSockets = []) (taken : s.stop = some t) :
    Kept t := by
  unfold stop at taken
  split at taken
  case isFalse =>
    cases taken
    exact kept
  rename_i runTh
  split at taken
  · cases taken
  rename_i c next
  cases taken
  obtain ⟨myLog, empty⟩ := kept.waiting c next
  have objects : ConnectionBase.objects (.http c) = [c.self] := by
    simp only [ConnectionBase.objects, empty, Option.toList_none, List.map_nil]
  have silent : c.finished = [] := if_neg (by rw [myLog]; exact Bool.false_ne_true)
  have books := finish_all kept.books kept.ready (plain runTh)
  rw [next] at books
  refine ⟨?_, fun d member => absurd member List.not_mem_nil, fun d isNext => by cases isNext⟩
  rw [objects, silent, List.append_nil]
  exact books.drop_only

theorem stopAll_same {conns conns' : List ConnectionBase} (taken : stopAll conns = some conns') :
    conns'.flatMap ConnectionBase.objects = conns.flatMap ConnectionBase.objects ∧
      ((∀ c ∈ conns, c.Ready) → ∀ c ∈ conns', c.Ready) := by
  induction conns generalizing conns' with
  | nil =>
      cases taken
      exact ⟨rfl, id⟩
  | cons c rest ih =>
      obtain ⟨d, stopped, taken⟩ := Option.bind_eq_some_iff.mp taken
      obtain ⟨rest', stopped', taken⟩ := Option.bind_eq_some_iff.mp taken
      cases taken
      obtain ⟨objects, ready⟩ := ih stopped'
      have here : d.objects = c.objects ∧ (c.Ready → d.Ready) := by
        cases c with
        | http h =>
            cases stopped
            exact ⟨rfl, id⟩
        | webSocket w =>
            obtain ⟨connection, -, stopped⟩ := Option.bind_eq_some_iff.mp stopped
            cases stopped
            exact ⟨rfl, id⟩
      refine ⟨?_, ?_⟩
      · rw [List.flatMap_cons, List.flatMap_cons, here.1, objects]
      · intro all e member
        rcases List.mem_cons.mp member with rfl | later
        · exact here.2 (all c List.mem_cons_self)
        · exact ready (fun f member => all f (List.mem_cons_of_mem c member)) e later

/-! ### What happens on a connection -/

section OnConn

variable {i : Nat} {c c' : ConnectionBase}

theorem ready_set (kept : Kept s) (ready : c'.Ready) : ∀ d ∈ s.connLst.set i c', d.Ready := by
  intro d member
  rcases List.mem_or_eq_of_mem_set member with before | rfl
  · exact kept.ready d before
  · exact ready

theorem update_kept (kept : Kept s) (at_ : s.connLst[i]? = some c) (same : c'.objects = c.objects)
    (ready : c'.Ready) : Kept (s.update i c') := by
  refine ⟨?_, ready_set kept ready, kept.waiting⟩
  have here : c'.objects.Perm (c.objects ++ []) := by rw [same, List.append_nil]
  have perm := objects_set at_ [] here
  rw [List.append_nil] at perm
  exact kept.books.perm perm

theorem tell_kept {m : Call} (kept : Kept s) (quiet : m.announces = [])
    (other : ∀ o, m ≠ .onConnectionFinished o)
    (entries : ∀ o ∈ m.entries, o ∈ s.connLst.flatMap ConnectionBase.objects) :
    Kept (s.tell m) :=
  ⟨kept.books.tell quiet other entries, kept.ready, kept.waiting⟩

theorem handle_self {w w' : WebSocketConn} {e : WebSocket.Connection.Event}
    (taken : w.handle e = some w') : w'.self = w.self := by
  unfold WebSocketConn.handle at taken
  split at taken
  · cases taken
  · cases taken
  · obtain ⟨connection, -, same⟩ := Option.bind_eq_some_iff.mp taken
    cases same
    rfl

theorem progress_kept {h : HttpConn} {p : Progress} (kept : Kept s)
    (at_ : s.connLst[i]? = some (.http h)) (busy : h.isDeletable = false)
    (taken : s.progress i h p = some t) : Kept t := by
  have member : ConnectionBase.http h ∈ s.connLst := List.mem_of_getElem? at_
  obtain ⟨myLog, idle⟩ := kept.ready _ member
  have empty := idle busy
  cases p with
  | transfer =>
      cases taken
      exact update_kept kept at_ rfl ⟨myLog, idle⟩
  | onWebSocket resource isSuccess =>
      cases taken
      apply tell_kept kept rfl (fun _ => Call.noConfusion)
      intro o entry
      rw [List.mem_singleton.mp entry]
      exact List.mem_flatMap.mpr ⟨_, member, List.mem_cons_self⟩
  | onRequest =>
      cases taken
      have same : ConnectionBase.objects (.http { h with nextConn := none }) =
          ConnectionBase.objects (.http h) := by
        simp only [ConnectionBase.objects, empty]
      have updated := update_kept kept at_ same ⟨myLog, fun _ => rfl⟩
      exact tell_kept updated rfl (fun _ => Call.noConfusion) fun o entry =>
        absurd entry List.not_mem_nil
  | upgrade addr readMem writeMem =>
      obtain ⟨self, placed, taken⟩ := Option.bind_eq_some_iff.mp taken
      cases place_some placed
      cases taken
      refine ⟨?_, ready_set kept ⟨myLog, fun still => by cases still⟩, kept.waiting⟩
      have announced := (kept.books.place addr).announce
        (m := .onRequest h.self (some ⟨s.created, addr⟩)) rfl (fun _ => Call.noConfusion) rfl
      apply announced.perm
      apply objects_set at_
      simp only [ConnectionBase.objects, empty, Option.toList_some, Option.toList_none, List.map_cons,
        List.map_nil, List.cons_append, List.nil_append]
      exact List.Perm.refl _
  | ends =>
      cases taken
      exact update_kept kept at_ rfl ⟨myLog, fun still => by cases still⟩

theorem onConn_kept {e : ConnEvent} (kept : Kept s) (at_ : s.connLst[i]? = some c)
    (taken : s.onConn i c e = some t) : Kept t := by
  cases c with
  | http h =>
      cases e with
      | progress p =>
          simp only [onConn] at taken
          split at taken
          · cases taken
          · rename_i busy
            exact progress_kept kept at_ (Bool.eq_false_iff.mpr busy) taken
      | webSocket e =>
          obtain ⟨w, next, taken⟩ := Option.bind_eq_some_iff.mp taken
          obtain ⟨w', handled, taken⟩ := Option.bind_eq_some_iff.mp taken
          cases taken
          obtain ⟨myLog, idle⟩ := kept.ready _ (List.mem_of_getElem? at_)
          apply update_kept kept at_
          · simp only [ConnectionBase.objects, next, Option.toList_some, List.map_cons, List.map_nil,
              handle_self handled]
          · refine ⟨myLog, fun busy => ?_⟩
            cases next.symm.trans (idle busy)
  | webSocket w =>
      cases e with
      | progress p => cases taken
      | webSocket e =>
          obtain ⟨w', handled, taken⟩ := Option.bind_eq_some_iff.mp taken
          cases taken
          have ready : ConnectionBase.Ready (.webSocket w') := trivial
          apply update_kept kept at_ _ ready
          simp only [ConnectionBase.objects, handle_self handled]

end OnConn

/-! ## Over a run -/

/-- The step deletes no WebSocket connection: none times out or is closed and idle in `OnTimer`, and
    there is none any more when the server stops. -/
def SparesWebSockets (s : LoggedServer) : Event → Prop
  | .onTimer error => error = false → ∀ c ∈ s.connLst, c.stays = true
  | .stop => s.runTh = true → ∀ c ∈ s.connLst, c.webSockets = []
  | _ => True

theorem step_kept (s : LoggedServer) (e : Event) (t : LoggedServer) (kept : Kept s)
    (spares : s.SparesWebSockets e) (taken : s.step e = some t) : Kept t := by
  cases e with
  | run addr =>
      simp only [step, LoggedServer.run] at taken
      split at taken
      · cases taken
        exact kept
      · exact restartAccept_kept (s := { s with isRunning := true, runTh := true })
          ⟨kept.books, kept.ready, kept.waiting⟩ taken
  | onAccept error allowed sourceAddr addr => exact onAccept_kept kept taken
  | onTimer error =>
      cases taken
      cases error with
      | true => exact kept
      | false =>
          have start : Mid s.created (s.nextConn.toList.map HttpConn.self)
              ⟨[], [], s.log, s.deleted⟩ s.connLst := ⟨kept.books, kept.ready⟩
          obtain ⟨books, ready⟩ := start.all (spares rfl)
          rw [List.append_nil] at books ready
          exact ⟨books, ready, kept.waiting⟩
  | onConn i e =>
      obtain ⟨c, at_, taken⟩ := Option.bind_eq_some_iff.mp taken
      exact onConn_kept kept at_ taken
  | stopInternal =>
      obtain ⟨conns, stopped, taken⟩ := Option.bind_eq_some_iff.mp taken
      cases taken
      obtain ⟨objects, ready⟩ := stopAll_same stopped
      exact ⟨objects ▸ kept.books, ready kept.ready, kept.waiting⟩
  | stop => exact stop_kept kept spares taken

/-- What has been announced is finished once it has been deleted, and only once. The map has only
    addresses of objects which exist. -/
structure Paired (s : LoggedServer) : Prop where
  finished : ∀ o, Announced s.log o →
    s.log.count (.onConnectionFinished o) = if o ∈ s.deleted then 1 else 0
  connMap : ∀ a, (connMap s.log a).isSome → ∃ o ∈ s.objects, o.addr = a

theorem Kept.paired (kept : Kept s) : Paired s := by
  refine ⟨kept.books.finished, ?_⟩
  intro a found
  obtain ⟨o, member, at_⟩ := kept.books.connMap a found
  exact ⟨o, List.mem_append_left _ member, at_⟩

/-! ### A WebSocket connection is deleted -/

/-- What the loop tells the log and deletes: the destructor of a WebSocket connection tells it
    nothing. -/
structure Calls (l l' : Loop) (conns : List ConnectionBase) : Prop where
  log : ∃ calls, l'.log = l.log ++ calls ∧
    ∀ m ∈ calls, ∃ h, .http h ∈ conns ∧ m = .onConnectionFinished h.self
  kept : ∀ o ∈ l.deleted, o ∈ l'.deleted
  deleted : ∀ w, .webSocket w ∈ conns → ConnectionBase.stays (.webSocket w) = false →
    w.self ∈ l'.deleted

theorem step_calls (l : Loop) (c : ConnectionBase) : Calls l (l.step c) [c] := by
  cases c with
  | http h =>
      obtain ⟨active, silentTime, stepped⟩ := step_http l h
      rw [stepped]
      refine ⟨⟨_, rfl, ?_⟩, fun o gone => List.mem_append_left _ gone, ?_⟩
      · intro m member
        refine ⟨h, List.mem_singleton_self _, ?_⟩
        cases active with
        | true => cases member
        | false =>
            simp only [Bool.false_eq_true, if_false, HttpConn.finished] at member
            split at member
            · exact List.mem_singleton.mp member
            · cases member
      · intro w member
        cases List.mem_singleton.mp member
  | webSocket v =>
      cases stepped : v.connection.onStep stepDurationSeconds with
      | mk active connection =>
          simp only [Loop.step, ConnectionBase.onStep, stepped]
          cases active with
          | true =>
              refine ⟨⟨[], (List.append_nil _).symm, fun m member => by cases member⟩,
                fun o gone => gone, ?_⟩
              intro w member leaves
              cases List.mem_singleton.mp member
              simp only [ConnectionBase.stays, stepped] at leaves
              cases leaves
          | false =>
              refine ⟨⟨[], rfl, fun m member => by cases member⟩,
                fun o gone => List.mem_append_left _ gone, ?_⟩
              intro w member leaves
              cases List.mem_singleton.mp member
              exact List.mem_append_right _ (List.mem_singleton_self _)

theorem loop_calls (l : Loop) (conns : List ConnectionBase) :
    Calls l (conns.foldl Loop.step l) conns := by
  induction conns generalizing l with
  | nil =>
      exact ⟨⟨[], (List.append_nil _).symm, fun m member => by cases member⟩, fun _ gone => gone,
        fun w member => by cases member⟩
  | cons c rest ih =>
      obtain ⟨⟨first, log, finished⟩, kept, gone⟩ := step_calls l c
      obtain ⟨⟨later, log', finished'⟩, kept', gone'⟩ := ih (l.step c)
      refine ⟨⟨first ++ later, ?_, ?_⟩, fun o before => kept' o (kept o before), ?_⟩
      · rw [List.foldl_cons, log', log, List.append_assoc]
      · intro m member
        rcases List.mem_append.mp member with early | late
        · obtain ⟨h, here, same⟩ := finished m early
          exact ⟨h, List.mem_cons.mpr (Or.inl (List.mem_singleton.mp here)), same⟩
        · obtain ⟨h, here, same⟩ := finished' m late
          exact ⟨h, List.mem_cons_of_mem c here, same⟩
      · intro w member leaves
        rcases List.mem_cons.mp member with rfl | here
        · exact kept' _ (gone w (List.mem_singleton_self _) leaves)
        · exact gone' w here leaves

/-- A WebSocket connection is not the object of an HTTP connection. -/
theorem self_ne (kept : Kept s) {c : ConnectionBase} {w : WebSocketConn} {h : HttpConn}
    (inList : c ∈ s.connLst) (member : w ∈ c.webSockets) (http : .http h ∈ s.connLst) :
    w.self ≠ h.self := by
  have nodup := (List.nodup_append.mp (List.nodup_append.mp kept.books.nodup).1).1
  obtain ⟨each, apart⟩ := List.nodup_flatMap.mp nodup
  intro same
  by_cases equal : c = .http h
  · subst equal
    have own := (List.nodup_cons.mp (each _ inList)).1
    exact own (same ▸ List.mem_map_of_mem member)
  · have symm : Std.Symm (Function.onFun List.Disjoint ConnectionBase.objects) :=
      ⟨fun _ _ disjoint o right left => disjoint left right⟩
    have disjoint := apart.forall inList http equal
    exact disjoint (ConnectionBase.webSockets_subset member) (same ▸ List.mem_cons_self)

/-- Its end is missing in the log. -/
theorem unpaired (kept : Kept s) {c : ConnectionBase} {w : WebSocketConn} {calls : List Call}
    (inList : c ∈ s.connLst) (member : w ∈ c.webSockets) (log : t.log = s.log ++ calls)
    (finished : ∀ m ∈ calls, ∃ h, .http h ∈ s.connLst ∧ m = .onConnectionFinished h.self)
    (gone : w.self ∈ t.deleted) : ¬Paired t := by
  intro paired
  have listed : w.self ∈ s.connLst.flatMap ConnectionBase.objects :=
    List.mem_flatMap.mpr ⟨c, inList, ConnectionBase.webSockets_subset member⟩
  have announced := kept.books.announced _ listed
  have alive : w.self ∉ s.deleted := fun before =>
    (List.nodup_append.mp kept.books.nodup).2.2 _ (List.mem_append_left _ listed) _ before rfl
  have before := kept.books.finished _ announced
  have still : Announced t.log w.self := by
    obtain ⟨m, told, announces⟩ := announced
    rw [log]
    exact ⟨m, List.mem_append_left _ told, announces⟩
  have none_ : calls.count (.onConnectionFinished w.self) = 0 := by
    apply List.count_eq_zero.mpr
    intro told
    obtain ⟨h, http, same⟩ := finished _ told
    exact self_ne kept inList member http (Call.onConnectionFinished.inj same)
  have after := paired.finished _ still
  rw [log, List.count_append, before, none_, if_neg alive, if_pos gone] at after
  cases after

theorem spares_of_paired (s : LoggedServer) (e : Event) (t : LoggedServer) (kept : Kept s)
    (taken : s.step e = some t) (paired : Paired t) : s.SparesWebSockets e := by
  cases e with
  | run addr => trivial
  | onAccept error allowed sourceAddr addr => trivial
  | onConn i e => trivial
  | stopInternal => trivial
  | onTimer error =>
      intro good c inList
      cases c with
      | http h => rfl
      | webSocket w =>
          by_contra leaves
          rw [Bool.not_eq_true] at leaves
          cases taken
          subst good
          obtain ⟨⟨calls, log, finished⟩, -, gone⟩ :=
            loop_calls ⟨[], [], s.log, s.deleted⟩ s.connLst
          exact unpaired kept inList (List.mem_singleton_self w) log finished (gone w inList leaves)
            paired
  | stop =>
      intro runTh c inList
      apply List.eq_nil_iff_forall_not_mem.mpr
      intro w member
      simp only [step, LoggedServer.stop, runTh, if_true] at taken
      split at taken
      · cases taken
      rename_i d next
      cases taken
      have silent : d.finished = [] :=
        if_neg (by rw [(kept.waiting d next).1]; exact Bool.false_ne_true)
      have finished (m : Call) (told : m ∈ s.connLst.flatMap ConnectionBase.finished) :
          ∃ h, .http h ∈ s.connLst ∧ m = .onConnectionFinished h.self := by
        obtain ⟨b, here, told⟩ := List.mem_flatMap.mp told
        cases b with
        | webSocket v => cases told
        | http h =>
            have started := (kept.ready _ here).1
            simp only [ConnectionBase.finished, HttpConn.finished, started, if_true] at told
            exact ⟨h, here, List.mem_singleton.mp told⟩
      refine unpaired kept inList member ?_ finished ?_ paired
      · simp only [silent, List.append_nil]
      · apply List.mem_append_left
        apply List.mem_append_right
        exact List.mem_flatMap.mpr ⟨c, inList, ConnectionBase.webSockets_subset member⟩

theorem init_kept (maxSilentTime : Nat) : Kept (init maxSilentTime) :=
  ⟨Books.init, fun c member => absurd member List.not_mem_nil, fun c isNext => by cases isNext⟩

/-- Every connection which has been announced gets one `OnConnectionFinished` when it is deleted, and
    `ConnMap` has live addresses only, exactly in the runs which delete no WebSocket connection. -/
theorem paired_iff (maxSilentTime : Nat) {events : List Event}
    (taken : exec step (init maxSilentTime) events = some t) :
    Always step Paired (init maxSilentTime) events ↔
      Along step SparesWebSockets (init maxSilentTime) events :=
  always_iff_along (fun _ => Kept.paired) step_kept spares_of_paired (init_kept maxSilentTime) taken

instance (s : LoggedServer) (e : Event) : Decidable (s.SparesWebSockets e) :=
  match e with
  | .onTimer error => inferInstanceAs (Decidable (error = false → _))
  | .stop => inferInstanceAs (Decidable (s.runTh = true → ∀ c ∈ s.connLst, c.webSockets = []))
  | .run _ | .onAccept _ _ _ _ | .onConn _ _ | .stopInternal => .isTrue trivial

/-- A connection is upgraded, and handed over in the next tick. -/
def upgraded : List Event :=
  [.run 1, .onAccept false true 2130706433 2, .onConn 0 (.progress (.onWebSocket [] true)),
    .onConn 0 (.progress (.upgrade 3 (fun _ _ => 0) fun _ _ => 0)), .onTimer false]

theorem paired_upgraded :
    Always step Paired (init 30) (upgraded ++ [.onAccept false false 2130706433 1, .onTimer false]) := by
  obtain ⟨t, taken⟩ : ∃ t, exec step (init 30)
      (upgraded ++ [.onAccept false false 2130706433 1, .onTimer false]) = some t :=
    Option.isSome_iff_exists.mp (by decide +kernel)
  exact (paired_iff 30 taken).mpr (by decide +kernel)

/-- The WebSocket connection is closed and deleted, and its address stays in the map. -/
theorem unfinished_webSocket :
    ¬∀ (maxSilentTime : Nat) (events : List Event) (t : LoggedServer),
      exec step (init maxSilentTime) events = some t → Paired t := by
  intro all
  let events : List Event := upgraded ++ [.onConn 0 (.webSocket (.close 1000)),
    .onConn 0 (.webSocket (.posted .close)), .onConn 0 (.webSocket (.onWrite 0 false)),
    .onConn 0 (.webSocket (.onRead none)), .onTimer false]
  have left : (exec step (init 30) events).map
      (fun t => ((connMap t.log 3).isSome, t.objects.map Object.addr)) = some (true, [2]) := by
    decide +kernel
  obtain ⟨t, taken, same⟩ := Option.map_eq_some_iff.mp left
  obtain ⟨found, objects⟩ := Prod.mk.inj same
  obtain ⟨o, member, at_⟩ := (all 30 events t taken).connMap 3 found
  have live : 3 ∈ [2] := by
    rw [← objects, ← at_]
    exact List.mem_map_of_mem member
  cases List.mem_singleton.mp live

end LoggedServer

end MiniWebSrv.HTTP
