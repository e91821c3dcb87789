import Mathlib.Algebra.BigOperators.Group.List.Basic
import Mathlib.Algebra.GroupWithZero.Nat
import Mathlib.Data.List.Nodup
import Mathlib.Logic.Function.Basic
import MiniWebSrv.Lib.Run
import MiniWebSrv.Lib.Word

/-! # The server's connections

`HTTP::Server` from the first `RestartAccept` on: the list of connections, the one which waits to be
accepted, and the counters. The connections are names here, given in the order of creation. What a
connection answers in `OnTimer` is up to it.
-/

namespace MiniWebSrv.HTTP

open Word Run

abbrev ConnId := Nat

/-- What the server does with a connection. -/
inductive Touch where
  | getSocket (conn : ConnId)
  | start (conn : ConnId)
  /-- With the result of `OnStep`. -/
  | onStep (conn : ConnId) (active : Bool)
  | getResponseCount (conn : ConnId)
  | delete (conn : ConnId)
  deriving DecidableEq, Repr

def Touch.conn : Touch → ConnId
  | .getSocket c | .start c | .onStep c _ | .getResponseCount c | .delete c => c

/-- What a connection answers to `OnStep`: the result, whether it hands over a fresh connection, and
    how many responses there have been since it was asked the last time. -/
structure Answer where
  active : Bool
  handsOver : Bool
  responses : Nat
  deriving DecidableEq, Repr

structure Server where
  connCount : Nat
  totalConnCount : Nat
  totalRespCount : Nat
  baseRespCount : Nat
  connLst : List ConnId
  nextConn : Option ConnId
  isRunning : Bool
  /-- Whether an `async_accept` is outstanding. -/
  accepting : Bool
  /-- Whether an `async_wait` is outstanding. -/
  waiting : Bool
  /-- The number of connections created so far. -/
  created : Nat
  /-- The `ResponseCount` of each connection, before it wraps around. -/
  responseCounts : ConnId → Nat
  /-- The connections which have been put into `ConnLst`. -/
  listed : List ConnId
  touches : List Touch

namespace Server

/-! ## The events -/

def restartAccept (s : Server) : Server :=
  if s.isRunning then
    match s.nextConn with
    | some c => { s with accepting := true, touches := s.touches ++ [.getSocket c] }
    | none => { s with
        nextConn := some s.created
        created := s.created + 1
        accepting := true
        touches := s.touches ++ [.getSocket s.created] }
  else
    s

def restartTimer (s : Server) : Server :=
  if s.isRunning then { s with waiting := true } else s

/-- The variables of `OnTimer` and what its loop changes. `connLst` has the connections in front of
    `NowI`. -/
structure Loop where
  connLst : List ConnId
  nextConnLst : List ConnId
  activeConnCount : Nat
  currRespCount : Nat
  baseRespCount : Nat
  created : Nat
  responseCounts : ConnId → Nat
  touches : List Touch

/-- `OnStep` and what its result makes the loop do with the connection. -/
def Loop.ask (answers : ConnId → Answer) (l : Loop) (c : ConnId) : Loop :=
  let count := l.responseCounts c + (answers c).responses
  let l := { l with
    responseCounts := Function.update l.responseCounts c count
    touches := l.touches ++ [Touch.onStep c (answers c).active, Touch.getResponseCount c] }
  if (answers c).active then
    { l with
      connLst := l.connLst ++ [c]
      activeConnCount := u32 (l.activeConnCount + 1)
      currRespCount := u32 (l.currRespCount + u32 count) }
  else
    { l with
      baseRespCount := u32 (l.baseRespCount + u32 count)
      touches := l.touches ++ [Touch.delete c] }

/-- One turn of the loop. -/
def Loop.step (answers : ConnId → Answer) (l : Loop) (c : ConnId) : Loop :=
  let l := l.ask answers c
  if (answers c).handsOver then
    { l with nextConnLst := l.nextConnLst ++ [l.created], created := l.created + 1 }
  else
    l

/-- The accept has completed; `allowed` is the answer of the connection filter. -/
def onAccept (s : Server) (error allowed : Bool) : Option Server :=
  let s := { s with accepting := false }
  if error then
    some s.restartAccept
  else
    match s.nextConn with
    | none => none
    | some c =>
        if allowed then
          some (restartAccept { s with
            totalConnCount := u32 (s.totalConnCount + 1)
            connLst := s.connLst ++ [c]
            listed := s.listed ++ [c]
            nextConn := none
            touches := s.touches ++ [.start c] })
        else
          some (restartAccept { s with
            nextConn := none
            touches := s.touches ++ [.getSocket c, .delete c] })

def onTimer (s : Server) (error : Bool) (answers : ConnId → Answer) : Server :=
  let s := { s with waiting := false }
  if error then
    s
  else
    let l := s.connLst.foldl (Loop.step answers) {
      connLst := []
      nextConnLst := []
      activeConnCount := 0
      currRespCount := 0
      baseRespCount := s.baseRespCount
      created := s.created
      responseCounts := s.responseCounts
      touches := s.touches }
    restartTimer { s with
      connLst := l.connLst ++ l.nextConnLst
      listed := s.listed ++ l.nextConnLst
      connCount := l.activeConnCount
      totalRespCount := u32 (l.baseRespCount + l.currRespCount)
      baseRespCount := l.baseRespCount
      created := l.created
      responseCounts := l.responseCounts
      touches := l.touches }

inductive Event where
  | onAccept (error allowed : Bool)
  | onTimer (error : Bool) (answers : ConnId → Answer)

def step (s : Server) : Event → Option Server
  | .onAccept error allowed => if s.accepting then s.onAccept error allowed else none
  | .onTimer error answers => if s.waiting then some (s.onTimer error answers) else none

/-- `Run`, up to the two operations it starts. -/
def run : Server :=
  restartTimer (restartAccept {
    connCount := 0
    totalConnCount := 0
    totalRespCount := 0
    baseRespCount := 0
    connLst := []
    nextConn := none
    isRunning := true
    accepting := false
    waiting := false
    created := 0
    responseCounts := fun _ => 0
    listed := []
    touches := [] })

/-! ## The loop -/

/-- The sum of the responses of some connections. -/
def total (counts : ConnId → Nat) (cs : List ConnId) : Nat := (cs.map counts).sum

theorem total_append (counts : ConnId → Nat) (left right : List ConnId) :
    total counts (left ++ right) = total counts left + total counts right := by
  rw [total, List.map_append, List.sum_append]
  rfl

theorem total_congr {counts counts' : ConnId → Nat} {cs : List ConnId}
    (same : ∀ c ∈ cs, counts c = counts' c) : total counts cs = total counts' cs := by
  rw [total, List.map_congr_left same]
  rfl

theorem total_cons (counts : ConnId → Nat) (c : ConnId) (cs : List ConnId) :
    total counts (c :: cs) = counts c + total counts cs := by
  rw [total, List.map_cons, List.sum_cons]
  rfl

theorem total_zero {counts : ConnId → Nat} {cs : List ConnId} (zero : ∀ c ∈ cs, counts c = 0) :
    total counts cs = 0 := by
  induction cs with
  | nil => rfl
  | cons c rest ih =>
      rw [total_cons, zero c List.mem_cons_self, ih fun d member =>
        zero d (List.mem_cons_of_mem c member)]

theorem total_split (counts : ConnId → Nat) (cs : List ConnId) (p : ConnId → Bool) :
    total counts cs = total counts (cs.filter p) + total counts (cs.filter fun c => !p c) := by
  induction cs with
  | nil => rfl
  | cons c rest ih =>
      cases holds : p c with
      | true =>
          rw [List.filter_cons_of_pos holds, List.filter_cons_of_neg (by simp [holds]), total_cons,
            total_cons, ih, Nat.add_assoc]
      | false =>
          rw [List.filter_cons_of_neg (by simp [holds]), List.filter_cons_of_pos (by simp [holds]),
            total_cons, total_cons, ih, Nat.add_left_comm]

/-- What the loop does with one connection. -/
def touchesOf (answers : ConnId → Answer) (c : ConnId) : List Touch :=
  [.onStep c (answers c).active, .getResponseCount c] ++
    if (answers c).active then [] else [.delete c]

/-- The loop has dealt with the connections in `done`. -/
structure Stepped (s : Server) (answers : ConnId → Answer) (done : List ConnId) (l : Loop) : Prop where
  connLst : l.connLst = done.filter fun c => (answers c).active
  next : l.nextConnLst.Nodup ∧ ∀ c ∈ l.nextConnLst, s.created ≤ c ∧ c < l.created
  created : s.created ≤ l.created
  active : l.activeConnCount = u32 (done.countP fun c => (answers c).active)
  curr : l.currRespCount = u32 (total l.responseCounts (done.filter fun c => (answers c).active))
  base : l.baseRespCount =
    u32 (s.baseRespCount + total l.responseCounts (done.filter fun c => !(answers c).active))
  counts : ∀ c, l.responseCounts c =
    s.responseCounts c + if c ∈ done then (answers c).responses else 0
  touches : l.touches = s.touches ++ done.flatMap (touchesOf answers)

theorem stepped_ask {s : Server} {answers : ConnId → Answer} {done : List ConnId} {l : Loop}
    {c : ConnId} (stepped : Stepped s answers done l) (new : c ∉ done) :
    Stepped s answers (done ++ [c]) (l.ask answers c) := by
  obtain ⟨connLst, next, created, active, curr, base, counts, touches⟩ := stepped
  let count := l.responseCounts c + (answers c).responses
  have before : ∀ p : ConnId → Bool, total (Function.update l.responseCounts c count) (done.filter p) =
      total l.responseCounts (done.filter p) := by
    intro p
    apply total_congr
    intro d member
    apply Function.update_of_ne
    rintro rfl
    exact new (List.mem_of_mem_filter member)
  have here : total (Function.update l.responseCounts c count) [c] = count := by
    simp only [total, List.map_cons, List.map_nil, List.sum_cons, List.sum_nil,
      Function.update_self, Nat.add_zero]
  have counts' : ∀ d, Function.update l.responseCounts c count d =
      s.responseCounts d + if d ∈ done ++ [c] then (answers d).responses else 0 := by
    intro d
    by_cases same : d = c
    · subst same
      have known := counts d
      rw [if_neg new] at known
      rw [Function.update_self, if_pos (List.mem_append_right _ List.mem_cons_self)]
      simp only [count]
      omega
    · have only : d ∈ done ++ [c] ↔ d ∈ done := by
        rw [List.mem_append, List.mem_singleton, or_iff_left same]
      rw [Function.update_of_ne same, counts d]
      simp only [only]
  cases stays : (answers c).active with
  | true =>
      have asked : l.ask answers c = { l with
          responseCounts := Function.update l.responseCounts c count
          touches := l.touches ++ [Touch.onStep c true, Touch.getResponseCount c]
          connLst := l.connLst ++ [c]
          activeConnCount := u32 (l.activeConnCount + 1)
          currRespCount := u32 (l.currRespCount + u32 count) } := by
        simp only [Loop.ask, stays, if_true, count]
      have yes : [c].filter (fun c => (answers c).active) = [c] := by
        rw [List.filter_singleton, stays, cond_true]
      have no : [c].filter (fun c => !(answers c).active) = [] := by
        rw [List.filter_singleton, stays, Bool.not_true, cond_false]
      rw [asked]
      refine ⟨?_, next, created, ?_, ?_, ?_, counts', ?_⟩
      · rw [List.filter_append, yes, ← connLst]
      · simp only [active, List.countP_append, List.countP_singleton, stays, if_true, u32, size32]
        omega
      · simp only [List.filter_append, yes, total_append, before, here, curr, u32, size32]
        omega
      · simp only [List.filter_append, no, List.append_nil, before, base]
      · simp only [touches, List.flatMap_append, List.flatMap_cons, List.flatMap_nil, touchesOf,
          stays, if_true, List.append_nil, List.append_assoc]
  | false =>
      have asked : l.ask answers c = { l with
          responseCounts := Function.update l.responseCounts c count
          baseRespCount := u32 (l.baseRespCount + u32 count)
          touches := l.touches ++ [Touch.onStep c false, Touch.getResponseCount c] ++
            [Touch.delete c] } := by
        simp only [Loop.ask, stays, Bool.false_eq_true, if_false, count]
      have yes : [c].filter (fun c => (answers c).active) = [] := by
        rw [List.filter_singleton, stays, cond_false]
      have no : [c].filter (fun c => !(answers c).active) = [c] := by
        rw [List.filter_singleton, stays, Bool.not_false, cond_true]
      rw [asked]
      refine ⟨?_, next, created, ?_, ?_, ?_, counts', ?_⟩
      · rw [List.filter_append, yes, List.append_nil, ← connLst]
      · simp only [active, List.countP_append, List.countP_singleton, stays, Bool.false_eq_true,
          if_false, Nat.add_zero]
      · simp only [List.filter_append, yes, List.append_nil, before, curr]
      · simp only [List.filter_append, no, total_append, before, here, base, u32, size32]
        omega
      · simp only [touches, List.flatMap_append, List.flatMap_cons, List.flatMap_nil, touchesOf,
          stays, Bool.false_eq_true, if_false, List.append_nil, List.append_assoc]

theorem stepped_step {s : Server} {answers : ConnId → Answer} {done : List ConnId} {l : Loop}
    {c : ConnId} (stepped : Stepped s answers done l) (new : c ∉ done) :
    Stepped s answers (done ++ [c]) (l.step answers c) := by
  have asked := stepped_ask stepped new
  cases hands : (answers c).handsOver with
  | false => simpa only [Loop.step, hands, Bool.false_eq_true, if_false] using asked
  | true =>
      obtain ⟨connLst, ⟨nodup, fresh⟩, created, active, curr, base, counts, touches⟩ := asked
      simp only [Loop.step, hands, if_true]
      refine ⟨connLst, ⟨?_, ?_⟩, Nat.le_succ_of_le created, active, curr, base, counts, touches⟩
      · apply List.Nodup.append nodup (List.nodup_singleton _)
        intro d member single
        rw [List.mem_singleton.mp single] at member
        exact Nat.lt_irrefl _ (fresh _ member).2
      · intro d member
        rcases List.mem_append.mp member with old | single
        · exact ⟨(fresh d old).1, Nat.lt_succ_of_lt (fresh d old).2⟩
        · rw [List.mem_singleton.mp single]
          exact ⟨created, Nat.lt_succ_self _⟩

/-- The loop deals with every connection of a list without repetitions. -/
theorem stepped_all {s : Server} {answers : ConnId → Answer} {done rest : List ConnId} {l : Loop}
    (stepped : Stepped s answers done l) (nodup : (done ++ rest).Nodup) :
    Stepped s answers (done ++ rest) (rest.foldl (Loop.step answers) l) := by
  induction rest generalizing done l with
  | nil => simpa only [List.append_nil, List.foldl_nil] using stepped
  | cons c rest ih =>
      have new : c ∉ done := by
        intro member
        exact (List.disjoint_of_nodup_append nodup) member List.mem_cons_self
      have next := stepped_step stepped new
      rw [List.append_cons] at nodup ⊢
      exact ih next nodup

/-! ## The books -/

/-- Nothing is touched behind its deletion. -/
def Untouched (touches : List Touch) : Prop :=
  touches.Pairwise fun before after => ∀ c, before = .delete c → after.conn ≠ c

/-- What the fields of a server say about each other. -/
structure Books (created : Nat) (nextConn : Option ConnId) (connLst listed : List ConnId)
    (base all : Nat) (counts : ConnId → Nat) (touches : List Touch) : Prop where
  nodup : listed.Nodup
  old : ∀ c ∈ listed, c < created
  next : ∀ c ∈ nextConn, c < created ∧ c ∉ listed ∧ Touch.delete c ∉ touches
  known : ∀ t ∈ touches, t.conn < created
  live : connLst = listed.filter fun c => Touch.onStep c false ∉ touches
  stepped : ∀ c, Touch.onStep c false ∈ touches → c ∈ listed ∧ Touch.delete c ∈ touches
  deleted : ∀ c ∈ listed, Touch.delete c ∈ touches → Touch.onStep c false ∈ touches
  untouched : Untouched touches
  base : base = u32 (total counts (listed.filter fun c => Touch.onStep c false ∈ touches))
  all : all = u32 (total counts listed)
  fresh : ∀ c, c ∉ listed → counts c = 0

/-- The books of a server are kept. -/
def Kept (s : Server) : Prop :=
  Books s.created s.nextConn s.connLst s.listed s.baseRespCount s.totalRespCount s.responseCounts
    s.touches

section Books

variable {created : Nat} {nextConn : Option ConnId} {connLst listed : List ConnId}
  {base all : Nat} {counts : ConnId → Nat} {touches : List Touch}

theorem untouched_append {new : List Touch} (untouched : Untouched touches) (new_ : Untouched new)
    (alive : ∀ t ∈ new, Touch.delete t.conn ∉ touches) : Untouched (touches ++ new) := by
  apply List.pairwise_append.mpr
  refine ⟨untouched, new_, ?_⟩
  rintro before member after later c rfl same
  exact alive after later (same ▸ member)

/-- A call which is neither `OnStep` nor a deletion. -/
theorem Books.touch (books : Books created nextConn connLst listed base all counts touches)
    {t : Touch} (step : ∀ c, t ≠ .onStep c false) (delete : ∀ c, t ≠ .delete c)
    (old : t.conn < created) (alive : Touch.delete t.conn ∉ touches) :
    Books created nextConn connLst listed base all counts (touches ++ [t]) := by
  have stepped : ∀ c, Touch.onStep c false ∈ touches ++ [t] ↔ Touch.onStep c false ∈ touches := by
    intro c
    rw [List.mem_append, List.mem_singleton, or_iff_left (Ne.symm (step c))]
  have deleted : ∀ c, Touch.delete c ∈ touches ++ [t] ↔ Touch.delete c ∈ touches := by
    intro c
    rw [List.mem_append, List.mem_singleton, or_iff_left (Ne.symm (delete c))]
  refine ⟨books.nodup, books.old, ?_, ?_, ?_, ?_, ?_, ?_, ?_, books.all, books.fresh⟩
  · intro c isNext
    rw [deleted]
    exact books.next c isNext
  · intro u member
    rcases List.mem_append.mp member with before | here
    · exact books.known u before
    · rw [List.mem_singleton.mp here]
      exact old
  · simp only [stepped]
    exact books.live
  · intro c
    rw [stepped, deleted]
    exact books.stepped c
  · intro c
    rw [stepped, deleted]
    exact books.deleted c
  · apply untouched_append books.untouched (List.pairwise_singleton _ _)
    intro u member
    rw [List.mem_singleton.mp member]
    exact alive
  · simp only [stepped]
    exact books.base

/-- The waiting connection is deleted. -/
theorem Books.reject {c : ConnId}
    (books : Books created (some c) connLst listed base all counts touches) :
    Books created none connLst listed base all counts (touches ++ [.delete c]) := by
  obtain ⟨old, unlisted, alive⟩ := books.next c rfl
  have stepped : ∀ d, Touch.onStep d false ∈ touches ++ [.delete c] ↔
      Touch.onStep d false ∈ touches := by
    intro d
    rw [List.mem_append, List.mem_singleton, or_iff_left Touch.noConfusion]
  refine ⟨books.nodup, books.old, ?_, ?_, ?_, ?_, ?_, ?_, ?_, books.all, books.fresh⟩
  · intro d isNext
    cases isNext
  · intro t member
    rcases List.mem_append.mp member with before | here
    · exact books.known t before
    · rw [List.mem_singleton.mp here]
      exact old
  · simp only [stepped]
    exact books.live
  · intro d failed
    obtain ⟨isListed, gone⟩ := books.stepped d ((stepped d).mp failed)
    exact ⟨isListed, List.mem_append_left _ gone⟩
  · intro d isListed gone
    rw [stepped]
    rcases List.mem_append.mp gone with before | here
    · exact books.deleted d isListed before
    · cases List.mem_singleton.mp here
      exact absurd isListed unlisted
  · apply untouched_append books.untouched (List.pairwise_singleton _ _)
    intro t member
    rw [List.mem_singleton.mp member]
    exact alive
  · simp only [stepped]
    exact books.base

/-- The waiting connection is put into the list. -/
theorem Books.accept {c : ConnId}
    (books : Books created (some c) connLst listed base all counts touches) :
    Books created none (connLst ++ [c]) (listed ++ [c]) base all counts touches := by
  obtain ⟨old, unlisted, alive⟩ := books.next c rfl
  have active : Touch.onStep c false ∉ touches := fun failed =>
    unlisted (books.stepped c failed).1
  have fresh := books.fresh c unlisted
  refine ⟨?_, ?_, ?_, books.known, ?_, ?_, ?_, books.untouched, ?_, ?_, ?_⟩
  · apply List.Nodup.append books.nodup (List.nodup_singleton c)
    intro d member single
    rw [List.mem_singleton.mp single] at member
    exact unlisted member
  · intro d member
    rcases List.mem_append.mp member with before | here
    · exact books.old d before
    · rw [List.mem_singleton.mp here]
      exact old
  · intro d isNext
    cases isNext
  · rw [List.filter_append, List.filter_singleton, decide_eq_true active, cond_true, ← books.live]
  · intro d failed
    obtain ⟨isListed, gone⟩ := books.stepped d failed
    exact ⟨List.mem_append_left _ isListed, gone⟩
  · intro d member gone
    rcases List.mem_append.mp member with before | here
    · exact books.deleted d before gone
    · rw [List.mem_singleton.mp here] at gone
      exact absurd gone alive
  · rw [List.filter_append, List.filter_singleton, decide_eq_false active, cond_false,
      List.append_nil]
    exact books.base
  · rw [total_append, books.all]
    simp only [total, List.map_cons, List.map_nil, List.sum_cons, List.sum_nil, fresh, Nat.add_zero]
  · intro d unlisted'
    exact books.fresh d fun isListed => unlisted' (List.mem_append_left _ isListed)

/-- A new connection waits. -/
theorem Books.create (books : Books created none connLst listed base all counts touches) :
    Books (created + 1) (some created) connLst listed base all counts touches := by
  refine ⟨books.nodup, ?_, ?_, ?_, books.live, books.stepped, books.deleted, books.untouched,
    books.base, books.all, books.fresh⟩
  · intro c isListed
    exact Nat.lt_succ_of_lt (books.old c isListed)
  · intro c isNext
    obtain rfl := Option.some.inj isNext
    refine ⟨Nat.lt_succ_self _, ?_, ?_⟩
    · intro isListed
      exact Nat.lt_irrefl _ (books.old _ isListed)
    · intro gone
      exact Nat.lt_irrefl _ (books.known _ gone)
  · intro t member
    exact Nat.lt_succ_of_lt (books.known t member)

end Books

/-! ## A tick -/

section Tick

variable {answers : ConnId → Answer} {connLst : List ConnId}

theorem conn_of_touchesOf {c : ConnId} {t : Touch} (member : t ∈ touchesOf answers c) : t.conn = c := by
  simp only [touchesOf, List.mem_append, List.mem_cons, List.not_mem_nil, or_false] at member
  rcases member with (rfl | rfl) | gone
  · rfl
  · rfl
  · cases stays : (answers c).active with
    | true =>
        rw [stays, if_pos rfl] at gone
        cases gone
    | false =>
        rw [stays, if_neg Bool.false_ne_true] at gone
        rw [List.mem_singleton.mp gone]
        rfl

theorem conn_of_new {t : Touch} (member : t ∈ connLst.flatMap (touchesOf answers)) :
    t.conn ∈ connLst := by
  obtain ⟨c, isListed, here⟩ := List.mem_flatMap.mp member
  rw [conn_of_touchesOf here]
  exact isListed

theorem onStep_new_iff {c : ConnId} {active : Bool} :
    Touch.onStep c active ∈ connLst.flatMap (touchesOf answers) ↔
      c ∈ connLst ∧ (answers c).active = active := by
  constructor
  · intro member
    obtain ⟨d, isListed, here⟩ := List.mem_flatMap.mp member
    obtain rfl : c = d := conn_of_touchesOf here
    refine ⟨isListed, ?_⟩
    cases stays : (answers c).active <;> cases active <;>
      simp_all [touchesOf]
  · rintro ⟨isListed, rfl⟩
    exact List.mem_flatMap.mpr ⟨c, isListed, List.mem_append_left _ List.mem_cons_self⟩

theorem delete_new_iff {c : ConnId} :
    Touch.delete c ∈ connLst.flatMap (touchesOf answers) ↔
      c ∈ connLst ∧ (answers c).active = false := by
  constructor
  · intro member
    obtain ⟨d, isListed, here⟩ := List.mem_flatMap.mp member
    obtain rfl : c = d := conn_of_touchesOf here
    refine ⟨isListed, ?_⟩
    cases stays : (answers c).active with
    | false => rfl
    | true => simp [touchesOf, stays] at here
  · rintro ⟨isListed, stops⟩
    refine List.mem_flatMap.mpr ⟨c, isListed, List.mem_append_right _ ?_⟩
    rw [stops, if_neg Bool.false_ne_true]
    exact List.mem_singleton_self _

theorem untouched_new (nodup : connLst.Nodup) :
    Untouched (connLst.flatMap (touchesOf answers)) := by
  apply List.pairwise_flatMap.mpr
  constructor
  · intro c _
    cases stays : (answers c).active <;> simp [touchesOf, stays]
  · refine nodup.imp ?_
    rintro c d apart before member after later e rfl same
    have left : e = c := conn_of_touchesOf member
    have right := conn_of_touchesOf later
    exact apart (left.symm.trans (same.symm.trans right))

variable {s : Server} {l : Loop}

/-- The listed connections whose `OnStep` has returned false, before or in this tick. -/
theorem Kept.mem_connLst (kept : Kept s) {c : ConnId} :
    c ∈ s.connLst ↔ c ∈ s.listed ∧ Touch.onStep c false ∉ s.touches := by
  rw [kept.live, List.mem_filter, decide_eq_true_eq]

theorem failed_iff (kept : Kept s) (stepped : Stepped s answers s.connLst l) {c : ConnId}
    (isListed : c ∈ s.listed) : Touch.onStep c false ∈ l.touches ↔
      Touch.onStep c false ∈ s.touches ∨ (answers c).active = false := by
  rw [stepped.touches, List.mem_append, onStep_new_iff, kept.mem_connLst]
  constructor
  · rintro (before | ⟨-, stops⟩)
    · exact Or.inl before
    · exact Or.inr stops
  · rintro (before | stops)
    · exact Or.inl before
    · by_cases before : Touch.onStep c false ∈ s.touches
      · exact Or.inl before
      · exact Or.inr ⟨⟨isListed, before⟩, stops⟩

theorem filter_live (kept : Kept s) (stepped : Stepped s answers s.connLst l) :
    s.listed.filter (fun c => Touch.onStep c false ∉ l.touches) = l.connLst := by
  rw [stepped.connLst, kept.live, List.filter_filter]
  apply List.filter_congr
  intro c isListed
  have iff := failed_iff kept stepped isListed
  by_cases before : Touch.onStep c false ∈ s.touches <;> cases stays : (answers c).active <;>
    simp [iff, before, stays]

theorem filter_gone (kept : Kept s) (stepped : Stepped s answers s.connLst l)
    (counts : ConnId → Nat) :
    total counts (s.listed.filter fun c => Touch.onStep c false ∈ l.touches) =
      total counts (s.listed.filter fun c => Touch.onStep c false ∈ s.touches) +
        total counts (s.connLst.filter fun c => !(answers c).active) := by
  rw [total_split counts (s.listed.filter fun c => Touch.onStep c false ∈ l.touches)
    fun c => Touch.onStep c false ∈ s.touches, kept.live, List.filter_filter, List.filter_filter,
    List.filter_filter]
  congr 2
  · apply List.filter_congr
    intro c isListed
    have iff := failed_iff kept stepped isListed
    by_cases before : Touch.onStep c false ∈ s.touches <;> simp [iff, before]
  · apply List.filter_congr
    intro c isListed
    have iff := failed_iff kept stepped isListed
    by_cases before : Touch.onStep c false ∈ s.touches <;> cases stays : (answers c).active <;>
      simp [iff, before, stays]

/-- The loop touches no connection which it creates. -/
theorem Kept.known_tick (kept : Kept s) (stepped : Stepped s answers s.connLst l) :
    ∀ t ∈ l.touches, t.conn < s.created := by
  intro t member
  rw [stepped.touches] at member
  rcases List.mem_append.mp member with before | here
  · exact kept.known t before
  · exact kept.old _ (kept.mem_connLst.mp (conn_of_new here)).1

/-- `BaseRespCount` has the responses of all the connections whose `OnStep` has returned false. -/
theorem Kept.base_tick (kept : Kept s) (stepped : Stepped s answers s.connLst l) :
    l.baseRespCount =
      u32 (total l.responseCounts (s.listed.filter fun c => Touch.onStep c false ∈ l.touches)) := by
  have before : total l.responseCounts (s.listed.filter fun c => Touch.onStep c false ∈ s.touches) =
      total s.responseCounts (s.listed.filter fun c => Touch.onStep c false ∈ s.touches) := by
    apply total_congr
    intro c member
    have failed := of_decide_eq_true (List.mem_filter.mp member).2
    rw [stepped.counts, if_neg fun here => (kept.mem_connLst.mp here).2 failed, Nat.add_zero]
  rw [stepped.base, filter_gone kept stepped, before, kept.base]
  simp only [u32, size32]
  omega

theorem Kept.tick (kept : Kept s) (stepped : Stepped s answers s.connLst l) :
    Books l.created s.nextConn (l.connLst ++ l.nextConnLst) (s.listed ++ l.nextConnLst)
      l.baseRespCount (u32 (l.baseRespCount + l.currRespCount)) l.responseCounts l.touches := by
  have nodup := kept.nodup
  have later : ∀ c ∈ l.nextConnLst, c ∉ s.listed := by
    intro c handed isListed
    have old := kept.old c isListed
    have new := (stepped.next.2 c handed).1
    exact Nat.not_lt.mpr new old
  have inList : ∀ c ∈ s.connLst, c ∈ s.listed := fun c member => (kept.mem_connLst.mp member).1
  have known := kept.known_tick stepped
  have untouched : ∀ c ∈ l.nextConnLst, ∀ t ∈ l.touches, t.conn ≠ c := by
    intro c handed t member same
    have old := known t member
    have new := (stepped.next.2 c handed).1
    exact Nat.not_lt.mpr new (same ▸ old)
  have calm : l.nextConnLst.filter (fun c => Touch.onStep c false ∉ l.touches) = l.nextConnLst := by
    apply List.filter_eq_self.mpr
    intro c handed
    exact decide_eq_true fun failed => untouched c handed _ failed rfl
  have none_ : l.nextConnLst.filter (fun c => Touch.onStep c false ∈ l.touches) = [] := by
    apply List.filter_eq_nil_iff.mpr
    intro c handed
    rw [decide_eq_true_eq]
    exact fun failed => untouched c handed _ failed rfl
  have quiet : ∀ c, c ∉ s.listed → l.responseCounts c = 0 := by
    intro c unlisted
    rw [stepped.counts, kept.fresh c unlisted, if_neg fun member => unlisted (inList c member)]
  have silent : total l.responseCounts l.nextConnLst = 0 :=
    total_zero fun c handed => quiet c (later c handed)
  have base := kept.base_tick stepped
  refine ⟨?_, ?_, ?_, ?_, ?_, ?_, ?_, ?_, ?_, ?_, ?_⟩
  · exact List.Nodup.append nodup stepped.next.1 fun c isListed handed => later c handed isListed
  · intro c member
    rcases List.mem_append.mp member with isListed | handed
    · exact Nat.lt_of_lt_of_le (kept.old c isListed) stepped.created
    · exact (stepped.next.2 c handed).2
  · intro c isNext
    obtain ⟨old, unlisted, alive⟩ := kept.next c isNext
    refine ⟨Nat.lt_of_lt_of_le old stepped.created, ?_, ?_⟩
    · intro member
      rcases List.mem_append.mp member with isListed | handed
      · exact unlisted isListed
      · have new := (stepped.next.2 c handed).1
        exact Nat.not_lt.mpr new old
    · intro member
      rw [stepped.touches] at member
      rcases List.mem_append.mp member with gone | gone
      · exact alive gone
      · exact unlisted (inList c (delete_new_iff.mp gone).1)
  · intro t member
    exact Nat.lt_of_lt_of_le (known t member) stepped.created
  · rw [List.filter_append, filter_live kept stepped, calm]
  · intro c failed
    rw [stepped.touches] at failed ⊢
    rcases List.mem_append.mp failed with old | new
    · obtain ⟨isListed, gone⟩ := kept.stepped c old
      exact ⟨List.mem_append_left _ isListed, List.mem_append_left _ gone⟩
    · have here := onStep_new_iff.mp new
      exact ⟨List.mem_append_left _ (inList c here.1),
        List.mem_append_right _ (delete_new_iff.mpr here)⟩
  · intro c member gone
    rcases List.mem_append.mp member with isListed | handed
    · rw [stepped.touches] at gone ⊢
      rcases List.mem_append.mp gone with old | new
      · exact List.mem_append_left _ (kept.deleted c isListed old)
      · exact List.mem_append_right _ (onStep_new_iff.mpr (delete_new_iff.mp new))
    · exact absurd rfl (untouched c handed _ gone)
  · rw [stepped.touches]
    apply untouched_append kept.untouched
    · apply untouched_new
      rw [kept.live]
      exact nodup.filter _
    · intro t member gone
      have here := kept.mem_connLst.mp (conn_of_new member)
      exact here.2 (kept.deleted _ here.1 gone)
  · rw [List.filter_append, none_, List.append_nil]
    exact base
  · have all := total_split l.responseCounts s.listed fun c => Touch.onStep c false ∈ l.touches
    have live : (s.listed.filter fun c => !decide (Touch.onStep c false ∈ l.touches)) = l.connLst := by
      rw [← filter_live kept stepped]
      simp only [decide_not]
    rw [live, stepped.connLst] at all
    rw [total_append, silent, all, base, stepped.curr]
    simp only [u32, size32]
    omega
  · intro c unlisted
    exact quiet c fun isListed => unlisted (List.mem_append_left _ isListed)

end Tick

/-! ## Over a run -/

theorem restartAccept_kept {s : Server} (kept : Kept s) : Kept s.restartAccept := by
  by_cases running : s.isRunning
  case neg => simpa only [restartAccept, if_neg running] using kept
  simp only [restartAccept, if_pos running]
  cases next : s.nextConn with
  | none =>
      have books : Books s.created none s.connLst s.listed s.baseRespCount s.totalRespCount
          s.responseCounts s.touches := next ▸ kept
      obtain ⟨old, -, alive⟩ := books.create.next s.created rfl
      exact books.create.touch (t := .getSocket s.created) (fun _ => Touch.noConfusion)
        (fun _ => Touch.noConfusion) old alive
  | some c =>
      obtain ⟨old, -, alive⟩ := kept.next c next
      have books := Books.touch kept (t := .getSocket c) (fun _ => Touch.noConfusion)
        (fun _ => Touch.noConfusion) old alive
      rw [next] at books
      exact books

theorem restartTimer_eq (s : Server) :
    s.restartTimer = { s with waiting := s.isRunning || s.waiting } := by
  unfold restartTimer
  split
  case isTrue running => rw [running, Bool.true_or]
  case isFalse stopped =>
    have off := Bool.eq_false_iff.mpr stopped
    rw [off, Bool.false_or, ← off]

theorem restartTimer_kept {s : Server} (kept : Kept s) : Kept s.restartTimer := by
  rw [restartTimer_eq]
  exact kept

theorem onAccept_kept {s t : Server} {error allowed : Bool} (kept : Kept s)
    (taken : s.onAccept error allowed = some t) : Kept t := by
  cases error with
  | true =>
      simp only [onAccept, if_true, Option.some.injEq] at taken
      exact taken ▸ restartAccept_kept kept
  | false =>
      simp only [onAccept, Bool.false_eq_true, if_false] at taken
      cases next : s.nextConn with
      | none =>
          rw [next] at taken
          cases taken
      | some c =>
          have books : Books s.created (some c) s.connLst s.listed s.baseRespCount s.totalRespCount
              s.responseCounts s.touches := next ▸ kept
          obtain ⟨old, -, alive⟩ := kept.next c next
          rw [next] at taken
          cases allowed with
          | true =>
              simp only [if_true, Option.some.injEq] at taken
              have started := books.touch (t := .start c) (fun _ => Touch.noConfusion)
                (fun _ => Touch.noConfusion) old alive
              exact taken ▸ restartAccept_kept started.accept
          | false =>
              simp only [Bool.false_eq_true, if_false, Option.some.injEq] at taken
              have closed := books.touch (t := .getSocket c) (fun _ => Touch.noConfusion)
                (fun _ => Touch.noConfusion) old alive
              have rejected := closed.reject
              rw [List.append_assoc, List.singleton_append] at rejected
              exact taken ▸ restartAccept_kept rejected

/-- The loop of a tick, over all the connections listed. -/
theorem stepped_tick {s : Server} (kept : Kept s) (answers : ConnId → Answer) :
    Stepped s answers s.connLst (s.connLst.foldl (Loop.step answers) {
      connLst := []
      nextConnLst := []
      activeConnCount := 0
      currRespCount := 0
      baseRespCount := s.baseRespCount
      created := s.created
      responseCounts := s.responseCounts
      touches := s.touches }) := by
  have nodup : ([] ++ s.connLst).Nodup := by
    rw [List.nil_append, kept.live]
    exact kept.nodup.filter _
  have base : s.baseRespCount < size32 := by
    rw [kept.base]
    exact u32_lt _
  refine stepped_all ⟨rfl, ⟨List.nodup_nil, ?_⟩, Nat.le_refl _, rfl, rfl, ?_, ?_, ?_⟩ nodup
  · intro c handed
    cases handed
  · exact (u32_of_lt base).symm
  · intro c
    rw [if_neg List.not_mem_nil, Nat.add_zero]
  · rw [List.flatMap_nil, List.append_nil]

theorem onTimer_kept {s : Server} (error : Bool) (answers : ConnId → Answer) (kept : Kept s) :
    Kept (s.onTimer error answers) := by
  cases error with
  | true => exact kept
  | false =>
      simp only [onTimer, Bool.false_eq_true, if_false]
      exact restartTimer_kept (kept.tick (stepped_tick kept answers))

theorem step_kept (s : Server) (e : Event) (t : Server) (kept : Kept s) (taken : s.step e = some t) :
    Kept t := by
  cases e with
  | onAccept error allowed =>
      simp only [step] at taken
      split at taken
      · exact onAccept_kept kept taken
      · cases taken
  | onTimer error answers =>
      simp only [step] at taken
      split at taken
      · exact Option.some.inj taken ▸ onTimer_kept error answers kept
      · cases taken

theorem run_kept : Kept run := by
  apply restartTimer_kept
  apply restartAccept_kept
  have empty : ∀ {p : ConnId → Prop}, ∀ c ∈ ([] : List ConnId), p c := by
    intro p c member
    cases member
  refine ⟨List.nodup_nil, empty, ?_, ?_, rfl, ?_, empty, List.Pairwise.nil, rfl, rfl, fun _ _ => rfl⟩
  · intro c next
    cases next
  · intro t member
    cases member
  · intro c member
    cases member

/-! ## What the books say -/

theorem untouched_count {touches : List Touch} (untouched : Untouched touches) (c : ConnId) :
    touches.count (.delete c) ≤ 1 := by
  induction touches with
  | nil => exact Nat.zero_le 1
  | cons t rest ih =>
      obtain ⟨first, untouched⟩ := List.pairwise_cons.mp untouched
      by_cases gone : t = .delete c
      · subst gone
        have none_ : Touch.delete c ∉ rest := fun member => first _ member c rfl rfl
        rw [List.count_cons_self, List.count_eq_zero_of_not_mem none_]
      · rw [List.count_cons_of_ne gone]
        exact ih untouched

/-- Each connection put into the list is there once until its `OnStep` returns false, and it is
    deleted once when it does. -/
structure Accounted (s : Server) : Prop where
  once : ∀ c, s.connLst.count c =
    if c ∈ s.listed ∧ Touch.onStep c false ∉ s.touches then 1 else 0
  deletedOnce : ∀ c ∈ s.listed, s.touches.count (.delete c) =
    if Touch.onStep c false ∈ s.touches then 1 else 0
  untouched : Untouched s.touches

theorem Kept.accounted {s : Server} (kept : Kept s) : Accounted s := by
  have nodup : s.connLst.Nodup := by
    rw [kept.live]
    exact kept.nodup.filter _
  refine ⟨?_, ?_, kept.untouched⟩
  · intro c
    by_cases live : c ∈ s.connLst
    · rw [if_pos (kept.mem_connLst.mp live), List.count_eq_one_of_mem nodup live]
    · rw [if_neg (live ∘ kept.mem_connLst.mpr), List.count_eq_zero_of_not_mem live]
  · intro c isListed
    by_cases failed : Touch.onStep c false ∈ s.touches
    · have gone := List.count_pos_iff.mpr (kept.stepped c failed).2
      have once := untouched_count kept.untouched c
      rw [if_pos failed]
      omega
    · rw [if_neg failed, List.count_eq_zero_of_not_mem]
      exact failed ∘ kept.deleted c isListed

/-- A tick asks each connection listed, deletes those whose `OnStep` has returned false, and adds up
    the counters. -/
structure Ticked (s t : Server) (answers : ConnId → Answer) : Prop where
  asked : ∃ new, t.touches = s.touches ++ new ∧
    (∀ c active, Touch.onStep c active ∈ new ↔ c ∈ s.connLst ∧ (answers c).active = active) ∧
    ∀ c, Touch.onStep c false ∈ new → Touch.delete c ∈ new
  counts : ∀ c, t.responseCounts c =
    s.responseCounts c + if c ∈ s.connLst then (answers c).responses else 0
  connCount : t.connCount = u32 (s.connLst.countP fun c => (answers c).active)
  respCount : t.totalRespCount = u32 (total t.responseCounts t.listed)

/-- Two connections; the first one ends in the second tick and hands over a third. -/
def twoConnections : List Event :=
  [.onAccept false true, .onTimer false fun _ => ⟨true, false, 2⟩, .onAccept false true,
    .onTimer false fun c => if c = 0 then ⟨false, true, 1⟩ else ⟨true, false, 4⟩]

end Server

end MiniWebSrv.HTTP
