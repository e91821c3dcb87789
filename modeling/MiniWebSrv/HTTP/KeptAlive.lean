import MiniWebSrv.HTTP.Pipelining
import MiniWebSrv.HTTP.ResponseLifetime

/-! # Responses which keep their connection

`ResponseHandler` returns whether the connection may be kept. For a response with a known length
this is decided in the loop over its body, and nowhere else.
-/

namespace MiniWebSrv

open Run Word

namespace WriteBuffQueue.Session

variable {size : Nat} {s t : Session size}

theorem idle_iff : s.Idle ↔ s.Valid ∧ s.current = none ∧ s.outstanding = [] := by
  constructor
  · intro idle
    have none_ := idle.outstanding
    obtain ⟨ps, tracks⟩ := idle
    exact ⟨⟨[], ps, none, tracks⟩, tracks.closed.mpr rfl, none_⟩
  · rintro ⟨⟨ws, ps, last, tracks⟩, closed, none_⟩
    obtain rfl := tracks.closed.mp closed
    obtain rfl : ws = [] := List.forall₂_nil_left_iff.mp (none_ ▸ tracks.outstanding)
    exact ⟨ps, tracks⟩

theorem exec_valid {calls : List Call} (valid : s.Valid) (run : exec step s calls = some t) :
    t.Valid :=
  Run.invariant step_valid valid run

theorem writeBlock_idle {allocLength length : Nat} {store : List Byte → List Byte} (idle : s.Idle)
    (stored : s.writeBlock allocLength store length = some t) : t.Idle := by
  obtain ⟨valid, closed, none_⟩ := idle_iff.mp idle
  obtain ⟨a, allocated, stored⟩ := Option.bind_eq_some_iff.mp stored
  have aValid := step_valid s _ a valid allocated
  have aNone : a.outstanding = [] := by
    simp only [step, closed] at allocated
    split at allocated
    · split at allocated
      · exact Option.some.inj allocated ▸ none_
      · cases allocated
    · cases allocated
  cases current : a.current with
  | none =>
      rw [current] at stored
      cases stored
  | some range =>
      simp only [current] at stored
      refine idle_iff.mpr ⟨exec_valid aValid stored, ?_⟩
      obtain ⟨b, filled, rest⟩ := exec_cons_some.mp stored
      obtain ⟨u, committed, last⟩ := exec_cons_some.mp rest
      obtain rfl := Option.some.inj last
      have bNone : b.outstanding = [] := by
        simp only [step, current] at filled
        split at filled
        · exact Option.some.inj filled ▸ aNone
        · cases filled
      simp only [step] at committed
      split at committed
      · split at committed
        · exact Option.some.inj committed ▸ ⟨rfl, bNone⟩
        · cases committed
      · cases committed

theorem write_idle (idle : s.Idle) (written : exec step s [.pop, .release] = some t) : t.Idle := by
  obtain ⟨valid, closed, none_⟩ := idle_iff.mp idle
  refine idle_iff.mpr ⟨exec_valid valid written, ?_⟩
  obtain ⟨a, taken, rest⟩ := exec_cons_some.mp written
  obtain ⟨u, released, last⟩ := exec_cons_some.mp rest
  obtain rfl := Option.some.inj last
  simp only [step, closed, Option.isNone_none, if_true] at taken
  split at taken
  · obtain rfl := Option.some.inj taken
    simp only [step, none_, List.nil_append, Option.some.injEq] at released
    subst released
    exact ⟨rfl, rfl⟩
  · obtain rfl := Option.some.inj taken
    simp only [step, none_, Option.some.injEq] at released
    subst released
    exact ⟨rfl, rfl⟩

end WriteBuffQueue.Session

namespace HTTP.ResponseLifetime

open WriteBuffQueue

/-! ## Between two responses -/

namespace Handler

variable {h t : Handler}

theorem leave_writeBuff (h : Handler) (retVal : Bool) : (h.leave retVal).writeBuff = h.writeBuff := by
  unfold leave responded
  split <;> rfl

theorem writeAll_writeBuff (h : Handler) (retVal : Bool) :
    (h.writeAll retVal).writeBuff = h.writeBuff := by
  unfold writeAll
  split
  · rfl
  · exact h.leave_writeBuff retVal

theorem afterHeaders_writeBuff (h : Handler) : h.afterHeaders.writeBuff = h.writeBuff := by
  unfold afterHeaders
  split
  · exact h.writeAll_writeBuff false
  · rfl

theorem afterNext_writeBuff (h : Handler) (isFinished : Bool) :
    (h.afterNext isFinished).writeBuff = h.writeBuff := by
  unfold afterNext
  split
  · split
    · exact h.writeAll_writeBuff true
    split
    · exact h.writeAll_writeBuff false
    · rfl
  · rfl

theorem writeNext_writeBuff (h : Handler) (isFinished : Bool) :
    (h.writeNext isFinished).writeBuff = h.writeBuff := by
  unfold writeNext
  split
  · rfl
  · exact h.afterNext_writeBuff isFinished

/-- Whatever is queued has been committed, and nothing is being written between two events. -/
def Quiet (h : Handler) : Prop := h.phase = .ended ∨ h.writeBuff.Idle

theorem onCreate_idle {resp : NewResponse} (idle : h.writeBuff.Idle)
    (taken : h.onCreate resp = some t) : t.writeBuff.Idle := by
  obtain ⟨w, stored, rfl⟩ := Option.map_eq_some_iff.mp taken
  have wIdle := Session.writeBlock_idle idle stored
  split
  · exact wIdle
  · rw [afterHeaders_writeBuff]
    exact wIdle

theorem onRead_idle {read : ReadResult} (idle : h.writeBuff.Idle)
    (taken : h.onRead read = some t) : t.writeBuff.Idle := by
  unfold onRead at taken
  split at taken
  · obtain ⟨w, stored, rfl⟩ := Option.map_eq_some_iff.mp taken
    rw [writeNext_writeBuff]
    exact Session.writeBlock_idle idle stored
  · obtain ⟨w, stored, taken⟩ := Option.bind_eq_some_iff.mp taken
    have wIdle := Session.writeBlock_idle idle stored
    simp only at taken
    split at taken
    · obtain ⟨v, closed, rfl⟩ := Option.map_eq_some_iff.mp taken
      rw [writeAll_writeBuff]
      exact Session.writeBlock_idle wIdle closed
    · obtain rfl := Option.some.inj taken
      rw [writeNext_writeBuff]
      exact wIdle

theorem afterWrite_idle (idle : h.writeBuff.Idle) (taken : h.afterWrite = some t) :
    t.writeBuff.Idle := by
  unfold afterWrite at taken
  split at taken
  · rw [← Option.some.inj taken, afterHeaders_writeBuff]
    exact idle
  · rw [← Option.some.inj taken, afterNext_writeBuff]
    exact idle
  · rw [← Option.some.inj taken, writeAll_writeBuff]
    exact idle
  · cases taken

theorem step_quiet (h : Handler) (e : Event) (t : Handler) (quiet : h.Quiet)
    (taken : h.step e = some t) : t.Quiet := by
  rcases quiet with ended | idle
  · rw [step_ended ended] at taken
    cases taken
  cases e with
  | noRequest thrown =>
      obtain ⟨-, taken⟩ := Option.ite_none_right_eq_some.mp taken
      exact Or.inl (Option.some.inj taken ▸ rfl)
  | create resp =>
      obtain ⟨-, taken⟩ := Option.ite_none_right_eq_some.mp taken
      exact Or.inr (onCreate_idle idle taken)
  | write thrown =>
      cases thrown with
      | none =>
          obtain ⟨w, written, taken⟩ := Option.bind_eq_some_iff.mp taken
          have wIdle := Session.write_idle idle written
          exact Or.inr (afterWrite_idle (h := { h with writeBuff := w }) wIdle taken)
      | some thrown =>
          obtain ⟨-, taken⟩ := Option.ite_none_right_eq_some.mp taken
          obtain ⟨w, -, rfl⟩ := Option.map_eq_some_iff.mp taken
          exact Or.inl rfl
  | read result =>
      cases result with
      | ok read =>
          obtain ⟨-, taken⟩ := Option.ite_none_right_eq_some.mp taken
          exact Or.inr (onRead_idle idle taken)
      | error thrown =>
          obtain ⟨-, taken⟩ := Option.ite_none_right_eq_some.mp taken
          exact Or.inl (Option.some.inj taken ▸ rfl)

theorem exec_quiet {maxHeadersLength : Nat} {mem : Mem WriteBlock Byte} {events : List Event}
    (run : exec step (start maxHeadersLength mem) events = some h) : h.Quiet :=
  Run.invariant step_quiet (Or.inr (.start (by decide) (empty_init _) mem)) run

end Handler

end HTTP.ResponseLifetime

/-! ## What the loop returns -/

namespace HTTP.Responding

variable {h : Responding} {read : ReadResult} {reads : List ReadResult}

/-- `RetVal` of the loop, from the `left` bytes of the length on. -/
def retVal : Nat → List ReadResult → Bool
  | _, [] => false
  | left, read :: rest =>
      if read.isFinished ∨ left ≤ read.outLength then read.isFinished && left ≤ read.outLength
      else retVal (left - read.outLength) rest

/-- The read which is the first to report the end is the one with which the data comes to its
    length. -/
def EndsTogether (length : Nat) (reads : List ReadResult) : Prop :=
  ∃ front final rest, reads = front ++ final :: rest ∧
    (∀ read ∈ front, read.isFinished = false) ∧ final.isFinished = true ∧
    (front.map ReadResult.outLength).sum < length ∧
    (front.map ReadResult.outLength).sum + final.outLength = length

theorem retVal_iff {left : Nat} (some_ : 0 < left)
    (sum : (reads.map ReadResult.outLength).sum = left) :
    retVal left reads = true ↔ EndsTogether left reads := by
  induction reads generalizing left with
  | nil =>
      rw [List.map_nil, List.sum_nil] at sum
      omega
  | cons read rest ih =>
      rw [List.map_cons, List.sum_cons] at sum
      by_cases leaves : read.isFinished = true ∨ left ≤ read.outLength
      · rw [retVal, if_pos leaves, Bool.and_eq_true, decide_eq_true_iff]
        constructor
        · rintro ⟨finished, whole⟩
          refine ⟨[], read, rest, rfl, ?_, finished, some_, ?_⟩
          · exact fun other inside => absurd inside List.not_mem_nil
          · rw [List.map_nil, List.sum_nil]
            omega
        · rintro ⟨front, final, behind, same, unfinished, finished, short, whole⟩
          cases front with
          | nil =>
              obtain ⟨rfl, rfl⟩ := List.cons.inj same
              rw [List.map_nil, List.sum_nil] at whole
              exact ⟨finished, by omega⟩
          | cons first front =>
              obtain ⟨rfl, -⟩ := List.cons.inj same
              rw [List.map_cons, List.sum_cons] at short
              rw [unfinished read List.mem_cons_self] at leaves
              rcases leaves with false_ | long
              · cases false_
              · omega
      · rw [retVal, if_neg leaves]
        obtain ⟨unfinished, long⟩ := not_or.mp leaves
        rw [ih (by omega) (by omega)]
        constructor
        · rintro ⟨front, final, behind, rfl, before, finished, short, whole⟩
          refine ⟨read :: front, final, behind, rfl, ?_, finished, ?_, ?_⟩
          · exact List.forall_mem_cons.mpr ⟨Bool.eq_false_of_not_eq_true unfinished, before⟩
          · rw [List.map_cons, List.sum_cons]
            omega
          · rw [List.map_cons, List.sum_cons]
            omega
        · rintro ⟨front, final, behind, same, before, finished, short, whole⟩
          cases front with
          | nil =>
              obtain ⟨rfl, -⟩ := List.cons.inj same
              exact absurd finished unfinished
          | cons first front =>
              obtain ⟨rfl, rfl⟩ := List.cons.inj same
              rw [List.map_cons, List.sum_cons] at short whole
              exact ⟨front, final, behind, rfl, fun other inside =>
                before other (List.mem_cons_of_mem read inside), finished, by omega, by omega⟩

/-- A turn of the loop: where it comes to, and what it returns if it is the last one. -/
theorem knownLengthStep_result (idle : h.writeBuff.Idle) (looping : h.result = none)
    (obeys : read.Obeys BuildConfig.writeBuffSize) : ∃ t, h.knownLengthStep read = some t ∧
      t.writeBuff.Idle ∧ t.respLength = h.respLength - read.outLength ∧
      t.result = if read.isFinished ∨ h.respLength ≤ read.outLength then
          some ((read.isFinished && h.respLength ≤ read.outLength) && !h.nextConn)
        else none := by
  obtain ⟨w, old, -, stored, wIdle, -⟩ := idle.writeBlock
    (by decide) (by decide) (fun _ (_ : _ = BuildConfig.writeBuffSize) => obeys.1) obeys.2
  obtain ⟨v, written, vIdle, -⟩ := wIdle.writeNext
  have left : (if read.outLength ≤ h.respLength then h.respLength - read.outLength else 0) =
      h.respLength - read.outLength := by
    split <;> omega
  have whole : h.respLength - read.outLength = 0 ↔ h.respLength ≤ read.outLength := by omega
  simp only [knownLengthStep, looping, stored, Option.bind_some, written, left, whole]
  by_cases both : read.isFinished = true ∧ h.respLength ≤ read.outLength
  · rw [if_pos both]
    obtain ⟨t, run, tIdle, -, -, result, rest⟩ := leave_some (h := { h with
      writeBuff := v
      respLength := h.respLength - read.outLength
      totalWriteLength := u64 (h.totalWriteLength + read.outLength) }) vIdle true
    refine ⟨t, run, tIdle, rest, ?_⟩
    rw [result, if_pos (Or.inl both.1), both.1, decide_eq_true both.2]
    rfl
  · rw [if_neg both]
    by_cases leaves : read.isFinished = true ∨ h.respLength ≤ read.outLength
    · rw [if_pos leaves, if_pos leaves]
      obtain ⟨t, run, tIdle, -, -, result, rest⟩ := leave_some (h := { h with
        writeBuff := v
        respLength := h.respLength - read.outLength
        totalWriteLength := u64 (h.totalWriteLength + read.outLength) }) vIdle false
      refine ⟨t, run, tIdle, rest, ?_⟩
      have neither : (read.isFinished && decide (h.respLength ≤ read.outLength)) = false := by
        rw [← Bool.not_eq_true, Bool.and_eq_true, decide_eq_true_iff]
        exact both
      rw [result, neither]
    · rw [if_neg leaves, if_neg leaves]
      exact ⟨_, rfl, vIdle, rfl, rfl⟩

end HTTP.Responding

/-! ## Where the handler goes from there -/

namespace HTTP.ResponseLifetime

open WriteBuffQueue

/-- A write which goes through, or a `Read` which returns. -/
def Event.Completes : Event → Prop
  | .write none => True
  | .read (.ok _) => True
  | _ => False

theorem Event.Completes.eq {e : Event} (completes : e.Completes) :
    e = .write none ∨ ∃ read, e = .read (.ok read) := by
  cases e with
  | noRequest thrown => cases completes
  | create resp => cases completes
  | write thrown =>
      cases thrown with
      | none => exact Or.inl rfl
      | some thrown => cases completes
  | read result =>
      cases result with
      | error thrown => cases completes
      | ok read => exact Or.inr ⟨read, rfl⟩

/-- What the calls of `Read` come to. -/
def readsOf (events : List Event) : List ReadResult :=
  events.filterMap fun
    | .read (.ok read) => some read
    | _ => none

/-- `ResponseHandler` has returned. -/
def Phase.Returned (phase : Phase) : Prop := phase = .request ∨ phase = .ended

/-- From behind the header block `ResponseHandler` comes to `t`, where it has returned. `reads` is
    what the response has to read. -/
def Returns (h : Handler) (reads : List ReadResult) (t : Handler) : Prop :=
  ∃ events, (∀ e ∈ events, e.Completes) ∧ readsOf events <+: reads ∧
    exec Handler.step h events = some t ∧ t.phase.Returned

theorem writes_complete (n : Nat) : ∀ e ∈ Handler.writes n, e.Completes := by
  intro e member
  obtain rfl := List.eq_of_mem_replicate member
  trivial

theorem readsOf_writes (n : Nat) : readsOf (Handler.writes n) = [] := by
  apply List.filterMap_eq_nil_iff.mpr
  intro e member
  obtain rfl := List.eq_of_mem_replicate member
  rfl

theorem readsOf_append (left right : List Event) :
    readsOf (left ++ right) = readsOf left ++ readsOf right :=
  List.filterMap_append

namespace Handler

variable {h t u : Handler} {reads : List ReadResult}

/-- The phase behind `ResponseHandler`. -/
def behind (h : Handler) (result : Bool) : Phase :=
  if result = true ∧ h.resp.isKeepAlive = true then .request else .ended

theorem behind_returned (h : Handler) (result : Bool) : (h.behind result).Returned := by
  unfold behind
  split
  · exact Or.inl rfl
  · exact Or.inr rfl

theorem follow_phase {r : Responding} {result : Bool} (done : r.result = some result) :
    (h.follow r).phase = h.behind result := by
  simp only [follow, done, responded, behind]
  split <;> rfl

/-- A turn of the loop. -/
theorem turn_events {length : Nat} {read : ReadResult} (phase : h.phase = .read)
    (known : h.resp.length = some length) (stays : h.resp.upgrades = false)
    (idle : h.writeBuff.Idle) (obeys : read.Obeys BuildConfig.writeBuffSize) :
    ∃ k t, exec step h (.read (.ok read) :: writes k) = some t ∧
      if read.isFinished ∨ h.respLength ≤ read.outLength then
        t.phase = h.behind (read.isFinished && h.respLength ≤ read.outLength)
      else
        t.phase = .read ∧ t.resp = h.resp ∧ t.writeBuff.Idle ∧
          t.respLength = h.respLength - read.outLength := by
  obtain ⟨r, turn, rIdle, left, result⟩ :=
    Responding.knownLengthStep_result (h := h.responding) idle rfl obeys
  obtain ⟨k, run⟩ := knownLengthStep_events phase known idle obeys turn
  refine ⟨k, h.follow r, run, ?_⟩
  have nextConn : h.responding.nextConn = false := stays
  rw [nextConn, Bool.not_false, Bool.and_true] at result
  change r.respLength = h.respLength - read.outLength at left
  change r.result = if read.isFinished = true ∨ h.respLength ≤ read.outLength then _ else _ at result
  split
  · rename_i leaves
    rw [if_pos leaves] at result
    exact follow_phase result
  · rename_i leaves
    rw [if_neg leaves] at result
    have next : h.follow r = { h with
        writeBuff := r.writeBuff
        respLength := r.respLength
        totalWriteLength := r.totalWriteLength
        phase := .read } := by
      simp only [follow, result]
    rw [next]
    exact ⟨rfl, rfl, rIdle, left⟩

/-- The loop leaves the body. -/
theorem body_events {length : Nat} (phase : h.phase = .read) (known : h.resp.length = some length)
    (stays : h.resp.upgrades = false) (idle : h.writeBuff.Idle)
    (obeys : ∀ read ∈ reads, read.Obeys BuildConfig.writeBuffSize) (some_ : reads ≠ [])
    (last : ∀ read ∈ reads.getLast?, read.isFinished = true) :
    ∃ events t, (∀ e ∈ events, e.Completes) ∧ readsOf events <+: reads ∧
      exec step h events = some t ∧ t.phase = h.behind (Responding.retVal h.respLength reads) := by
  induction reads generalizing h with
  | nil => exact absurd rfl some_
  | cons read rest ih =>
      obtain ⟨k, t, run, next⟩ := turn_events phase known stays idle (obeys read List.mem_cons_self)
      have complete : ∀ e ∈ Event.read (.ok read) :: writes k, e.Completes :=
        List.forall_mem_cons.mpr ⟨trivial, writes_complete k⟩
      have taken : readsOf (.read (.ok read) :: writes k) = [read] := by
        rw [← List.singleton_append, readsOf_append, readsOf_writes]
        rfl
      by_cases leaves : read.isFinished = true ∨ h.respLength ≤ read.outLength
      · rw [if_pos leaves] at next
        refine ⟨_, t, complete, ?_, run, ?_⟩
        · rw [taken]
          exact ⟨rest, rfl⟩
        · rw [next, Responding.retVal, if_pos leaves]
      · rw [if_neg leaves] at next
        obtain ⟨tPhase, tResp, tIdle, tLeft⟩ := next
        have more : rest ≠ [] := by
          rintro rfl
          exact leaves (Or.inl (last read rfl))
        obtain ⟨events, u, later, inside, runs, ends⟩ := ih tPhase (tResp ▸ known) (tResp ▸ stays)
          tIdle (fun other member => obeys other (List.mem_cons_of_mem read member)) more
          (fun other member => last other (by rw [List.getLast?_cons_of_ne_nil more]; exact member))
        refine ⟨(.read (.ok read) :: writes k) ++ events, u, ?_, ?_, ?_, ?_⟩
        · exact List.forall_mem_append.mpr ⟨complete, later⟩
        · rw [readsOf_append, taken]
          exact (List.prefix_cons_inj read).mpr inside
        · exact exec_append_some.mpr ⟨t, run, runs⟩
        · rw [ends, Responding.retVal, if_neg leaves, tLeft, behind, behind, tResp]

/-- The write of the header block. -/
theorem created_events {b : Handler} {resp : NewResponse} {length : Nat} (idle : h.writeBuff.Idle)
    (known : resp.length = some length) (created : h.step (.create resp) = some b) :
    ∃ k, ∃ u : Handler, exec step b (writes k) = some u.afterHeaders ∧ u.writeBuff.Idle ∧ u.resp = resp ∧
      u.respLength = length ∧ u.totalWriteLength = 0 := by
  obtain ⟨-, created⟩ := Option.ite_none_right_eq_some.mp created
  obtain ⟨w, stored, made⟩ := Option.map_eq_some_iff.mp created
  have wIdle := Session.writeBlock_idle idle stored
  have left : resp.length.getD 0 = length := by
    rw [known, Option.getD_some]
  obtain ⟨ps, tracks⟩ := wIdle
  rcases Session.Idle.write tracks with ⟨-, none_⟩ | ⟨p, rest, v, -, some_, written, next, -⟩
  · simp only [none_] at made
    subst made
    exact ⟨0, _, rfl, ⟨ps, tracks⟩, rfl, left, rfl⟩
  · simp only [some_] at made
    subst made
    refine ⟨1, { h with
      phase := .headers
      writeBuff := v
      resp := resp
      currResp := h.created
      respLength := resp.length.getD 0
      totalWriteLength := 0
      created := h.created + 1 }, ?_, ⟨rest, next⟩, rfl, left, rfl⟩
    exact write_event (h := { h with
      phase := .headers
      writeBuff := w
      resp := resp
      currResp := h.created
      respLength := resp.length.getD 0
      totalWriteLength := 0
      created := h.created + 1 }) [] written

/-- A response with a known length from its header block on. An empty one is not read. -/
theorem served {b : Handler} {resp : NewResponse} {length : Nat} (idle : h.writeBuff.Idle)
    (known : resp.length = some length) (stays : resp.upgrades = false)
    (created : h.step (.create resp) = some b)
    (obeys : ∀ read ∈ reads, read.Obeys BuildConfig.writeBuffSize)
    (some_ : length ≠ 0 → reads ≠ []) (last : ∀ read ∈ reads.getLast?, read.isFinished = true) :
    ∃ t, Returns b reads t ∧ (t.phase = .request ↔
      (length ≠ 0 ∧ Responding.retVal length reads = true) ∧ resp.isKeepAlive = true) := by
  obtain ⟨k, u, wrote, uIdle, rfl, rfl, clear⟩ := created_events idle known created
  by_cases empty : u.respLength = 0
  · obtain ⟨r, left, -, -, -, result, -⟩ := Responding.leave_some
      (h := ⟨u.writeBuff, u.respLength, 0, u.resp.upgrades, none⟩) uIdle false
    have run : Responding.knownLength u.writeBuff u.respLength u.resp.upgrades = some r := by
      rw [Responding.knownLength, if_pos empty]
      exact left
    obtain ⟨n, all⟩ := knownLength_events known uIdle clear run
    have ended : (u.follow r).phase = .ended := by
      rw [follow_phase result, Bool.false_and, behind, if_neg]
      exact fun both => Bool.false_ne_true both.1
    refine ⟨u.follow r, ⟨writes k ++ writes n, ?_, ?_, ?_, Or.inr ended⟩, ?_⟩
    · exact List.forall_mem_append.mpr ⟨writes_complete k, writes_complete n⟩
    · rw [readsOf_append, readsOf_writes, readsOf_writes]
      exact List.nil_prefix
    · exact exec_append_some.mpr ⟨_, wrote, all⟩
    · rw [ended]
      constructor
      · intro request
        cases request
      · exact fun kept => absurd empty kept.1.1
  · have looping : u.afterHeaders = { u with phase := .read } := if_neg fun both => empty both.2
    obtain ⟨events, t, complete, inside, run, ends⟩ := body_events (h := { u with phase := .read })
      rfl known stays uIdle obeys (some_ empty) last
    refine ⟨t, ⟨writes k ++ events, ?_, ?_, ?_, ?_⟩, ?_⟩
    · exact List.forall_mem_append.mpr ⟨writes_complete k, complete⟩
    · rw [readsOf_append, readsOf_writes]
      exact inside
    · rw [looping] at wrote
      exact exec_append_some.mpr ⟨_, wrote, run⟩
    · rw [ends]
      exact behind_returned _ _
    · rw [ends]
      unfold behind
      split
      · rename_i both
        exact ⟨fun _ => ⟨⟨empty, both.1⟩, both.2⟩, fun _ => rfl⟩
      · rename_i other
        constructor
        · intro request
          cases request
        · exact fun kept => absurd ⟨kept.1.2, kept.2⟩ other

/-! ## There is one way to go -/

theorem returned_stays (returned : h.phase.Returned) {e : Event} (completes : e.Completes) :
    h.step e = none := by
  rcases completes.eq with rfl | ⟨read, rfl⟩
  · apply Option.bind_eq_none_iff.mpr
    intro w _
    rcases returned with phase | phase
    · simp only [afterWrite, phase]
    · simp only [afterWrite, phase]
  · apply if_neg
    rcases returned with phase | phase
    · simp only [phase, reduceCtorEq, not_false_eq_true]
    · simp only [phase, reduceCtorEq, not_false_eq_true]

/-- Two events which may come next. -/
theorem next_event {e f : Event} (first : e.Completes) (second : f.Completes)
    (taken : h.step e = some t) (other : h.step f = some u) :
    e = f ∨ ∃ read read', e = .read (.ok read) ∧ f = .read (.ok read') := by
  have reading : ∀ {read : ReadResult} {v : Handler}, h.step (.read (.ok read)) = some v →
      h.phase = .read := fun taken => (Option.ite_none_right_eq_some.mp taken).1
  have writing : ∀ {v : Handler}, h.step (.write none) = some v → h.phase ≠ .read := by
    intro v taken phase
    obtain ⟨w, -, taken⟩ := Option.bind_eq_some_iff.mp taken
    simp only [afterWrite, phase, reduceCtorEq] at taken
  rcases first.eq with rfl | ⟨read, rfl⟩
  · rcases second.eq with rfl | ⟨read', rfl⟩
    · exact Or.inl rfl
    · exact absurd (reading other) (writing taken)
  · rcases second.eq with rfl | ⟨read', rfl⟩
    · exact absurd (reading taken) (writing other)
    · exact Or.inr ⟨read, read', rfl, rfl⟩

theorem returns_unique (first : Returns h reads t) (second : Returns h reads u) : t = u := by
  obtain ⟨events, complete, inside, run, returned⟩ := first
  obtain ⟨others, complete', inside', run', returned'⟩ := second
  induction events generalizing h others reads with
  | nil =>
      obtain rfl := Option.some.inj run
      cases others with
      | nil => exact Option.some.inj run'
      | cons f rest =>
          rw [exec_cons, returned_stays returned (complete' f List.mem_cons_self)] at run'
          cases run'
  | cons e rest ih =>
      obtain ⟨mid, taken, onward⟩ := exec_cons_some.mp run
      cases others with
      | nil =>
          obtain rfl := Option.some.inj run'
          rw [returned_stays returned' (complete e List.mem_cons_self)] at taken
          cases taken
      | cons f rest' =>
          obtain ⟨mid', taken', onward'⟩ := exec_cons_some.mp run'
          have later := fun g member => complete g (List.mem_cons_of_mem e member)
          have later' := fun g member => complete' g (List.mem_cons_of_mem f member)
          rcases next_event (complete e List.mem_cons_self) (complete' f List.mem_cons_self) taken
            taken' with rfl | ⟨read, read', rfl, rfl⟩
          · obtain rfl := Option.some.inj (taken.symm.trans taken')
            rcases (complete e List.mem_cons_self).eq with rfl | ⟨read, rfl⟩
            · exact ih later inside onward rest' later' inside' onward'
            · obtain ⟨more, rfl⟩ := inside
              obtain ⟨more', same⟩ := inside'
              have tail := (List.cons.inj same).2
              exact ih later ⟨more, rfl⟩ onward rest' later' ⟨more', tail⟩ onward'
          · obtain ⟨more, rfl⟩ := inside
            obtain ⟨more', same⟩ := inside'
            obtain ⟨head, tail⟩ := List.cons.inj same
            subst head
            obtain rfl := Option.some.inj (taken.symm.trans taken')
            exact ih later ⟨more, rfl⟩ onward rest' later' ⟨more', tail⟩ onward'

/-! ## Completed responses -/

variable {H : Type} {c : Connection H} {b : Handler} {maxHeadersLength : Nat}
  {mem : Mem WriteBlock Byte} {events : List Event} {headers : List Byte} {length : Nat}

theorem isKeepAlive_true (version : c.currVersion = .v11)
    (open_ : ∀ header ∈ c.headerA, header.intName = .connection →
      Connection.compareLowercaseSimple (c.valueOf header) (text "close") = false) :
    c.isKeepAlive = true := by
  simp only [Connection.isKeepAlive, version, List.all_eq_true, decide_eq_true_eq]
  rintro header member ⟨connection, close⟩
  rw [open_ header member connection] at close
  cases close

/-- Of a response with a known length whose data comes to that length, the connection is kept
    exactly if the response is not empty and reports its end with the read which completes it. -/
theorem kept_alive_iff (version : c.currVersion = .v11)
    (open_ : ∀ header ∈ c.headerA, header.intName = .connection →
      Connection.compareLowercaseSimple (c.valueOf header) (text "close") = false)
    (run : exec step (start maxHeadersLength mem) events = some h)
    (created : h.step (.create ⟨headers, some length, false, c.isKeepAlive⟩) = some b)
    (obeys : ∀ read ∈ reads, read.Obeys BuildConfig.writeBuffSize)
    (sum : (reads.map ReadResult.outLength).sum = length)
    (last : ∀ read ∈ reads.getLast?, read.isFinished = true) :
    ((∃ t, Returns b reads t) ∧ ∀ t, Returns b reads t → t.phase = .request) ↔
      Responding.EndsTogether length reads := by
  have request := (Option.ite_none_right_eq_some.mp created).1
  have idle : h.writeBuff.Idle := by
    rcases exec_quiet run with ended | idle
    · rw [request] at ended
      cases ended
    · exact idle
  have some_ : length ≠ 0 → reads ≠ [] := by
    rintro some_ rfl
    exact some_ sum.symm
  obtain ⟨t, returns, ends⟩ := served idle rfl rfl created obeys some_ last
  have kept : t.phase = .request ↔ Responding.EndsTogether length reads := by
    rw [ends]
    constructor
    · rintro ⟨⟨some_, true_⟩, -⟩
      exact (Responding.retVal_iff (Nat.pos_of_ne_zero some_) sum).mp true_
    · intro together
      obtain ⟨front, final, rest, same, unfinished, finished, short, whole⟩ := together
      have pos : 0 < length := Nat.lt_of_le_of_lt (Nat.zero_le _) short
      refine ⟨⟨Nat.ne_of_gt pos, (Responding.retVal_iff pos sum).mpr ?_⟩,
        isKeepAlive_true version open_⟩
      exact ⟨front, final, rest, same, unfinished, finished, short, whole⟩
  rw [← kept]
  constructor
  · exact fun all => all.2 t returns
  · exact fun request => ⟨⟨t, returns⟩, fun u other => returns_unique returns other ▸ request⟩

/-- A byte, and two bytes with the end of the response. -/
def threeBytes : List ReadResult :=
  [⟨List.replicate BuildConfig.writeBuffSize 0, 1, false⟩, Responding.twoBytes]

theorem threeBytes_obeys : ∀ read ∈ threeBytes, read.Obeys BuildConfig.writeBuffSize := by
  intro read member
  rcases List.mem_pair.mp member with rfl | rfl
  · exact ⟨List.length_replicate, by decide⟩
  · exact Responding.twoBytes_obeys

/-- The response to the first request. -/
def firstResponse (length : Nat) : NewResponse :=
  ⟨[104], some length, false, Pipeline.started.isKeepAlive⟩

theorem kept_alive_iff_three :
    ∃ b, (start 64 fun _ _ => 0).step (.create (firstResponse 3)) = some b ∧
      (∃ t, Returns b threeBytes t) ∧ ∀ t, Returns b threeBytes t → t.phase = .request := by
  obtain ⟨b, created⟩ : ∃ b, (start 64 fun _ _ => 0).step (.create (firstResponse 3)) = some b :=
    Option.isSome_iff_exists.mp (by decide +kernel)
  have run : exec step (start 64 fun _ _ => 0) [] = some (start 64 fun _ _ => 0) := rfl
  refine ⟨b, created, (kept_alive_iff (c := Pipeline.started) rfl ?_ run created
    threeBytes_obeys rfl ?_).mpr ?_⟩
  · exact fun header member => absurd member List.not_mem_nil
  · intro read member
    obtain rfl := Option.some.inj member
    rfl
  · refine ⟨[⟨List.replicate BuildConfig.writeBuffSize 0, 1, false⟩], Responding.twoBytes, [], rfl,
      ?_, rfl, by decide, by decide⟩
    intro read member
    obtain rfl := List.mem_singleton.mp member
    rfl

/-- The connection is closed behind an empty response. -/
theorem empty_response_closes :
    ¬∀ (c : Connection Recorder) (maxHeadersLength length : Nat) (mem : Mem WriteBlock Byte)
      (events : List Event) (headers : List Byte) (h b : Handler) (reads : List ReadResult),
      c.currVersion = .v11 →
      (∀ header ∈ c.headerA, header.intName = .connection →
        Connection.compareLowercaseSimple (c.valueOf header) (text "close") = false) →
      exec step (start maxHeadersLength mem) events = some h →
      h.step (.create ⟨headers, some length, false, c.isKeepAlive⟩) = some b →
      (∀ read ∈ reads, read.Obeys BuildConfig.writeBuffSize) →
      (reads.map ReadResult.outLength).sum = length →
      (∀ read ∈ reads.getLast?, read.isFinished = true) →
      (∃ t, Returns b reads t) ∧ ∀ t, Returns b reads t → t.phase = .request := by
  intro all
  obtain ⟨b, created⟩ : ∃ b, (start 64 fun _ _ => 0).step (.create (firstResponse 0)) = some b :=
    Option.isSome_iff_exists.mp (by decide +kernel)
  have none_ : ∀ read ∈ ([] : List ReadResult), read.Obeys BuildConfig.writeBuffSize :=
    fun read member => absurd member List.not_mem_nil
  have last : ∀ read ∈ ([] : List ReadResult).getLast?, read.isFinished = true :=
    fun read member => absurd member (Option.not_mem_none read)
  have kept := all Pipeline.started 64 0 (fun _ _ => 0) [] [104] _ b [] rfl
    (fun header member => absurd member List.not_mem_nil) rfl created none_ rfl last
  have idle : (start 64 fun _ _ => 0).writeBuff.Idle := .start (by decide) (empty_init _) _
  obtain ⟨t, returns, ends⟩ := served idle rfl rfl created none_ (fun some_ => absurd rfl some_) last
  exact (ends.mp (kept.2 t returns)).1.1 rfl

end Handler

end HTTP.ResponseLifetime

end MiniWebSrv
