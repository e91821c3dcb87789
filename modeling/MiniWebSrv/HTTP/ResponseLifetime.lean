import MiniWebSrv.HTTP.ResponseFraming

/-! # The life of a response

`ProtocolHandler` around `ResponseHandler`, up to the calls which may throw: the writes to the
socket, and `Read` of the response. Each of them is an event with its outcome. The responses are
names here, given in the order in which `Create` has returned them.
-/

namespace MiniWebSrv.HTTP

open Word Run WriteBuffQueue

abbrev RespId := Nat

/-- What the calls throw. The handlers of `ProtocolHandler` tell these two apart. -/
inductive Thrown where
  | forcedUnwind
  | other
  deriving DecidableEq, Repr

/-- A response which `Create` has returned, and the request which it is for. -/
structure NewResponse where
  /-- The header block. -/
  headers : List Byte
  /-- `GetLength`; `none` where the length is not known. -/
  length : Option Nat
  /-- Whether `Upgrade` returns another connection. -/
  upgrades : Bool
  /-- Whether the request wants its connection to be kept. -/
  isKeepAlive : Bool
  deriving DecidableEq, Repr

namespace ResponseLifetime

inductive Phase where
  /-- In `HeaderHandler` or `ContentHandler`. -/
  | request
  /-- In `WriteNext` behind the header block. -/
  | headers
  /-- In `Read`. -/
  | read
  /-- In `WriteNext` behind a `Read`. -/
  | next (isFinished : Bool)
  /-- In `WriteAll`, with the value of `RetVal`. -/
  | all (retVal : Bool)
  /-- `ProtocolHandler` has ended. -/
  | ended
  deriving DecidableEq, Repr

structure Handler where
  phase : Phase
  maxHeadersLength : Nat
  writeBuff : Session BuildConfig.writeBuffSize
  /-- What `CurrResp` is, and which one. -/
  resp : NewResponse
  currResp : RespId
  respLength : Nat
  totalWriteLength : Nat
  isDeletable : Bool
  /-- The number of responses created so far. -/
  created : Nat
  /-- The responses which have been deleted. -/
  deleted : List RespId

inductive Event where
  /-- `HeaderHandler` or `ContentHandler` has returned false, or has thrown. -/
  | noRequest (thrown : Option Thrown)
  | create (resp : NewResponse)
  /-- An `async_write` has completed. -/
  | write (thrown : Option Thrown)
  | read (result : Except Thrown ReadResult)

/-- Whether the call has left `ResponseHandler` with an exception. -/
def Event.throws : Event → Bool
  | .write (some _) => true
  | .read (.error _) => true
  | _ => false

namespace Handler

/-! ## The handlers -/

/-- `ProtocolHandler` ends. -/
def stop (h : Handler) (thrown : Option Thrown) : Handler :=
  { h with phase := .ended, isDeletable := h.isDeletable || thrown ≠ some .forcedUnwind }

/-- `ResponseHandler` has returned. -/
def responded (h : Handler) (result : Bool) : Handler :=
  if result ∧ h.resp.isKeepAlive then { h with phase := .request } else h.stop none

/-- Behind `WriteAll`. -/
def leave (h : Handler) (retVal : Bool) : Handler :=
  { h with deleted := h.deleted ++ [h.currResp] }.responded (retVal && !h.resp.upgrades)

/-- `WriteAll` up to its next write. -/
def writeAll (h : Handler) (retVal : Bool) : Handler :=
  match h.writeBuff.queue.pop.1 with
  | some _ => { h with phase := .all retVal }
  | none => h.leave retVal

/-- Behind the header block. -/
def afterHeaders (h : Handler) : Handler :=
  if h.resp.length.isSome ∧ h.respLength = 0 then h.writeAll false else { h with phase := .read }

/-- Behind `WriteNext` in a turn of the loop. A response whose length is not known is not finished
    there. -/
def afterNext (h : Handler) (isFinished : Bool) : Handler :=
  match h.resp.length with
  | some _ =>
      if isFinished ∧ h.respLength = 0 then h.writeAll true
      else if isFinished ∨ h.respLength = 0 then h.writeAll false
      else { h with phase := .read }
  | none => { h with phase := .read }

/-- `WriteNext` up to its write. -/
def writeNext (h : Handler) (isFinished : Bool) : Handler :=
  match h.writeBuff.queue.pop.1 with
  | some _ => { h with phase := .next isFinished }
  | none => h.afterNext isFinished

/-- `ResponseHandler` from `Create` to the first write. -/
def onCreate (h : Handler) (resp : NewResponse) : Option Handler :=
  (h.writeBuff.writeBlock h.maxHeadersLength (Responding.storeAt 0 resp.headers)
      resp.headers.length).map fun writeBuff =>
    let h := { h with
      writeBuff := writeBuff
      resp := resp
      currResp := h.created
      respLength := resp.length.getD 0
      totalWriteLength := 0
      created := h.created + 1 }
    match writeBuff.queue.pop.1 with
    | some _ => { h with phase := .headers }
    | none => h.afterHeaders

/-- A turn of the loop from `Read` to the write behind it. -/
def onRead (h : Handler) (read : ReadResult) : Option Handler :=
  match h.resp.length with
  | some _ =>
      (h.writeBuff.writeBlock BuildConfig.writeBuffSize (fun _ => read.targetBuff)
          read.outLength).map fun writeBuff =>
        { h with
          writeBuff := writeBuff
          respLength := if read.outLength ≤ h.respLength then h.respLength - read.outLength else 0
          totalWriteLength := u64 (h.totalWriteLength + read.outLength) }.writeNext read.isFinished
  | none =>
      let commitLength := if read.outLength ≠ 0 then
          read.outLength + Responding.chunkHeaderLen + Responding.chunkFooterLength
        else 0
      (h.writeBuff.writeBlock BuildConfig.writeBuffSize (Responding.storeChunk read)
          commitLength).bind fun writeBuff =>
        let h := { h with
          writeBuff := writeBuff
          totalWriteLength := u64 (h.totalWriteLength + read.outLength) }
        if read.isFinished ∨ read.outLength = 0 then
          (writeBuff.writeBlock ChunkedCoding.lastChunk.length (fun _ => ChunkedCoding.lastChunk)
              ChunkedCoding.lastChunk.length).map fun writeBuff =>
            { h with writeBuff := writeBuff }.writeAll true
        else
          some (h.writeNext false)

/-- The write has gone through. -/
def afterWrite (h : Handler) : Option Handler :=
  match h.phase with
  | .headers => some h.afterHeaders
  | .next isFinished => some (h.afterNext isFinished)
  | .all retVal => some (h.writeAll retVal)
  | _ => none

def isWriting (h : Handler) : Bool :=
  match h.phase with
  | .headers => true
  | .next _ => true
  | .all _ => true
  | _ => false

def step (h : Handler) : Event → Option Handler
  | .noRequest thrown => if h.phase = .request then some (h.stop thrown) else none
  | .create resp => if h.phase = .request then h.onCreate resp else none
  | .read (.ok read) => if h.phase = .read then h.onRead read else none
  | .read (.error thrown) => if h.phase = .read then some (h.stop (some thrown)) else none
  | .write none =>
      (exec Session.step h.writeBuff [.pop, .release]).bind fun writeBuff =>
        { h with writeBuff := writeBuff }.afterWrite
  | .write (some thrown) =>
      if h.isWriting then
        (h.writeBuff.step .pop).map fun writeBuff => { h with writeBuff := writeBuff }.stop (some thrown)
      else
        none

/-- `ProtocolHandler` at its beginning. -/
def start (maxHeadersLength : Nat) (mem : Mem WriteBlock Byte) : Handler where
  phase := .request
  maxHeadersLength := maxHeadersLength
  writeBuff := .start (.init _) mem
  resp := ⟨[], none, false, false⟩
  currResp := 0
  respLength := 0
  totalWriteLength := 0
  isDeletable := false
  created := 0
  deleted := []

/-! ## Without an exception -/

section

variable {h : Handler}

/-- The loop of `HTTP/ResponseHandler` which the handler is in. -/
def responding (h : Handler) : Responding :=
  ⟨h.writeBuff, h.respLength, h.totalWriteLength, h.resp.upgrades, none⟩

/-- The handler where the loop has come to. -/
def follow (h : Handler) (r : Responding) : Handler :=
  let h := { h with
    writeBuff := r.writeBuff
    respLength := r.respLength
    totalWriteLength := r.totalWriteLength }
  match r.result with
  | none => { h with phase := .read }
  | some result => { h with deleted := h.deleted ++ [h.currResp] }.responded result

/-- The events of some writes. -/
def writes (n : Nat) : List Event := List.replicate n (.write none)

theorem write_event {w : Session BuildConfig.writeBuffSize} (events : List Event)
    (written : exec Session.step h.writeBuff [.pop, .release] = some w) :
    exec step h (.write none :: events) =
      ({ h with writeBuff := w }.afterWrite).bind fun t => exec step t events := by
  rw [exec_cons, step, written, Option.bind_some]

theorem writeLoop_events {n : Nat} {ps : List Buffer} {w : Session BuildConfig.writeBuffSize}
    (tracks : Session.Tracks h.writeBuff [] ps none) (enough : ps.length ≤ n)
    (run : Session.writeLoop n h.writeBuff = some w) (retVal : Bool) :
    ∃ k, exec step (h.writeAll retVal) (writes k) = some ({ h with writeBuff := w }.leave retVal) := by
  induction n generalizing h ps with
  | zero =>
      obtain rfl := List.length_eq_zero_iff.mp (Nat.le_zero.mp enough)
      obtain rfl := Option.some.inj run
      refine ⟨0, ?_⟩
      rw [writeAll, tracks.pop_empty]
      rfl
  | succ n ih =>
      rcases Session.Idle.write tracks with ⟨-, none_⟩ | ⟨p, rest, t, rfl, some_, written, next, -⟩
      · rw [Session.writeLoop, none_] at run
        obtain rfl := Option.some.inj run
        refine ⟨0, ?_⟩
        rw [writeAll, none_]
        rfl
      · simp only [Session.writeLoop, some_, written, Option.bind_some] at run
        have fewer : rest.length ≤ n := by
          rw [List.length_cons] at enough
          omega
        obtain ⟨k, later⟩ := ih (h := { h with phase := .all retVal, writeBuff := t }) next fewer run
        refine ⟨k + 1, ?_⟩
        rw [writeAll, some_]
        exact (write_event (h := { h with phase := .all retVal }) (writes k) written).trans later

theorem leave_events {r t : Responding} (same : h.responding = r) (idle : h.writeBuff.Idle)
    (retVal : Bool) (run : r.leave retVal = some t) :
    ∃ k, exec step (h.writeAll retVal) (writes k) = some (h.follow t) := by
  subst same
  obtain ⟨w, all, rfl⟩ := Option.map_eq_some_iff.mp run
  obtain ⟨ps, tracks⟩ := idle
  have unpopped : h.writeBuff.queue.unpopped = ps.length := by
    rw [WriteBuffQueue.unpopped, tracks.shape.queue, tracks.shape.first]
    simp
  exact writeLoop_events tracks (Nat.le_of_eq unpopped.symm) all retVal

theorem writeNext_events {w : Session BuildConfig.writeBuffSize} {t : Handler}
    (run : h.writeBuff.writeNext = some w) (isFinished : Bool)
    (rest : ∃ k, exec step ({ h with writeBuff := w }.afterNext isFinished) (writes k) = some t) :
    ∃ k, exec step (h.writeNext isFinished) (writes k) = some t := by
  cases waits : h.writeBuff.queue.pop.1 with
  | none =>
      simp only [Session.writeNext, waits, Option.some.injEq] at run
      subst run
      rw [Handler.writeNext, waits]
      exact rest
  | some written =>
      simp only [Session.writeNext, waits] at run
      obtain ⟨k, rest⟩ := rest
      refine ⟨k + 1, ?_⟩
      rw [Handler.writeNext, waits]
      exact (write_event (h := { h with phase := .next isFinished }) (writes k) run).trans rest

/-- Behind the header block of a response whose length is known. -/
theorem knownLength_events {length : Nat} {r : Responding} (known : h.resp.length = some length)
    (idle : h.writeBuff.Idle) (clear : h.totalWriteLength = 0)
    (run : Responding.knownLength h.writeBuff h.respLength h.resp.upgrades = some r) :
    ∃ k, exec step h.afterHeaders (writes k) = some (h.follow r) := by
  unfold Responding.knownLength at run
  by_cases empty : h.respLength = 0
  · rw [if_pos empty] at run
    rw [afterHeaders, if_pos ⟨by rw [known]; rfl, empty⟩]
    apply leave_events _ idle false run
    rw [responding, clear]
  · rw [if_neg empty] at run
    obtain rfl := Option.some.inj run
    have same : (⟨h.writeBuff, h.respLength, 0, h.resp.upgrades, none⟩ : Responding) =
        h.responding := by
      rw [responding, clear]
    refine ⟨0, ?_⟩
    rw [afterHeaders, if_neg fun both => empty both.2, same]
    rfl

/-- A turn of the loop for a response whose length is known. -/
theorem knownLengthStep_events {length : Nat} {r : Responding} {read : ReadResult}
    (phase : h.phase = .read) (known : h.resp.length = some length) (idle : h.writeBuff.Idle)
    (obeys : read.Obeys BuildConfig.writeBuffSize)
    (turn : h.responding.knownLengthStep read = some r) :
    ∃ k, exec step h (.read (.ok read) :: writes k) = some (h.follow r) := by
  obtain ⟨w, old, -, stored, wIdle, -⟩ := idle.writeBlock (by decide) (by decide)
    (fun _ (_ : _ = BuildConfig.writeBuffSize) => obeys.1) obeys.2
  obtain ⟨v, written, vIdle, -⟩ := wIdle.writeNext
  let left := if read.outLength ≤ h.respLength then h.respLength - read.outLength else 0
  let total := u64 (h.totalWriteLength + read.outLength)
  let behind := { h with writeBuff := v, respLength := left, totalWriteLength := total }
  have taken : h.step (.read (.ok read)) = some (Handler.writeNext
      { h with writeBuff := w, respLength := left, totalWriteLength := total } read.isFinished) := by
    simp only [step, phase, if_true, onRead, known, stored, Option.map_some, left, total]
  simp only [Responding.knownLengthStep, responding, stored, written, Option.bind_some] at turn
  have turn : (if read.isFinished = true ∧ left = 0 then behind.responding.leave true
      else if read.isFinished = true ∨ left = 0 then behind.responding.leave false
      else some behind.responding) = some r := turn
  have rest : ∃ k, exec step (behind.afterNext read.isFinished) (writes k) = some (h.follow r) := by
    unfold afterNext
    simp only [behind, known]
    by_cases complete : read.isFinished = true ∧ left = 0
    · rw [if_pos complete] at turn ⊢
      exact leave_events rfl vIdle true turn
    rw [if_neg complete] at turn ⊢
    by_cases cut : read.isFinished = true ∨ left = 0
    · rw [if_pos cut] at turn ⊢
      exact leave_events rfl vIdle false turn
    rw [if_neg cut] at turn ⊢
    obtain rfl := Option.some.inj turn
    exact ⟨0, rfl⟩
  obtain ⟨k, run⟩ := writeNext_events
    (h := { h with writeBuff := w, respLength := left, totalWriteLength := total })
    written read.isFinished rest
  refine ⟨k, ?_⟩
  rw [exec_cons, taken, Option.bind_some]
  exact run

theorem chunkedStep_events {r : Responding} {read : ReadResult} (phase : h.phase = .read)
    (unknown : h.resp.length = none) (idle : h.writeBuff.Idle) (obeys : read.Obeys Responding.chunkRoom)
    (turn : h.responding.chunkedStep read = some r) :
    ∃ k, exec step h (.read (.ok read) :: writes k) = some (h.follow r) := by
  obtain ⟨w, stored, wIdle, -⟩ := Responding.writeChunk (h := h.responding) idle obeys
  have stored_ : h.writeBuff.writeBlock BuildConfig.writeBuffSize (Responding.storeChunk read)
      (if read.outLength ≠ 0 then
        read.outLength + Responding.chunkHeaderLen + Responding.chunkFooterLength
      else 0) = some w := stored
  simp only [Responding.chunkedStep, responding, stored_, Option.bind_some] at turn
  by_cases last : read.isFinished = true ∨ read.outLength = 0
  · rw [if_pos last] at turn
    obtain ⟨v, old, -, closed, vIdle, -⟩ := wIdle.writeBlock (by decide) (by decide)
      (fun _ (_ : _ = ChunkedCoding.lastChunk.length) => rfl) (Nat.le_refl _)
    simp only [Responding.finish, closed, Option.bind_some] at turn
    have taken : h.step (.read (.ok read)) = some (Handler.writeAll { h with
        writeBuff := v
        totalWriteLength := u64 (h.totalWriteLength + read.outLength) } true) := by
      simp only [step, phase, if_true, onRead, unknown, stored_, Option.bind_some, if_pos last, closed,
        Option.map_some]
    obtain ⟨k, run⟩ := leave_events (h := { h with
      writeBuff := v
      totalWriteLength := u64 (h.totalWriteLength + read.outLength) }) rfl vIdle true turn
    refine ⟨k, ?_⟩
    rw [exec_cons, taken, Option.bind_some]
    exact run
  · rw [if_neg last] at turn
    obtain ⟨v, written, rfl⟩ := Option.map_eq_some_iff.mp turn
    have taken : h.step (.read (.ok read)) = some (Handler.writeNext { h with
        writeBuff := w
        totalWriteLength := u64 (h.totalWriteLength + read.outLength) } false) := by
      simp only [step, phase, if_true, onRead, unknown, stored_, Option.bind_some, if_neg last]
    obtain ⟨k, run⟩ := writeNext_events (h := { h with
      writeBuff := w
      totalWriteLength := u64 (h.totalWriteLength + read.outLength) }) written false ⟨0, rfl⟩
    refine ⟨k, ?_⟩
    rw [exec_cons, taken, Option.bind_some, run]
    simp only [afterNext, unknown]
    rfl

end

/-! ## Who has been deleted -/

/-- All the responses have been deleted. -/
def Settled (h : Handler) : Prop := h.deleted = List.range h.created

/-- All the responses have been deleted but the current one, which is the last one. -/
structure Held (h : Handler) : Prop where
  created : h.created = h.currResp + 1
  deleted : h.deleted = List.range h.currResp

/-- `ResponseHandler` holds a response from `Create` on until it returns. -/
def Kept (h : Handler) : Prop :=
  match h.phase with
  | .request => h.Settled
  | .ended => h.Settled
  | _ => h.Held

variable {h t : Handler}

theorem Settled.stop (settled : h.Settled) (thrown : Option Thrown) : Kept (h.stop thrown) := settled

theorem Settled.responded (settled : h.Settled) (result : Bool) : Kept (h.responded result) := by
  unfold Handler.responded
  split
  · exact settled
  · exact settled.stop none

theorem Held.leave (held : h.Held) (retVal : Bool) : Kept (h.leave retVal) := by
  have settled : { h with deleted := h.deleted ++ [h.currResp] }.Settled := by
    rw [Settled, held.created, held.deleted, List.range_succ]
  exact settled.responded _

theorem Held.writeAll (held : h.Held) (retVal : Bool) : Kept (h.writeAll retVal) := by
  unfold Handler.writeAll
  split
  · exact ⟨held.created, held.deleted⟩
  · exact held.leave retVal

theorem Held.afterHeaders (held : h.Held) : Kept h.afterHeaders := by
  unfold Handler.afterHeaders
  split
  · exact held.writeAll false
  · exact ⟨held.created, held.deleted⟩

theorem Held.afterNext (held : h.Held) (isFinished : Bool) : Kept (h.afterNext isFinished) := by
  unfold Handler.afterNext
  split
  · split
    · exact held.writeAll true
    split
    · exact held.writeAll false
    · exact ⟨held.created, held.deleted⟩
  · exact ⟨held.created, held.deleted⟩

theorem Held.writeNext (held : h.Held) (isFinished : Bool) : Kept (h.writeNext isFinished) := by
  unfold Handler.writeNext
  split
  · exact ⟨held.created, held.deleted⟩
  · exact held.afterNext isFinished

theorem Settled.onCreate {resp : NewResponse} (settled : h.Settled)
    (taken : h.onCreate resp = some t) : Kept t := by
  obtain ⟨writeBuff, -, rfl⟩ := Option.map_eq_some_iff.mp taken
  split
  · exact ⟨rfl, settled⟩
  · apply Held.afterHeaders
    exact ⟨rfl, settled⟩

theorem Held.onRead {read : ReadResult} (held : h.Held) (taken : h.onRead read = some t) :
    Kept t := by
  unfold Handler.onRead at taken
  split at taken
  · obtain ⟨writeBuff, -, rfl⟩ := Option.map_eq_some_iff.mp taken
    apply Held.writeNext
    exact ⟨held.created, held.deleted⟩
  · obtain ⟨writeBuff, -, taken⟩ := Option.bind_eq_some_iff.mp taken
    simp only at taken
    split at taken
    · obtain ⟨writeBuff, -, rfl⟩ := Option.map_eq_some_iff.mp taken
      apply Held.writeAll
      exact ⟨held.created, held.deleted⟩
    · obtain rfl := Option.some.inj taken
      apply Held.writeNext
      exact ⟨held.created, held.deleted⟩

theorem Kept.afterWrite (kept : h.Kept) (taken : h.afterWrite = some t) : Kept t := by
  unfold Handler.afterWrite at taken
  split at taken
  · rename_i phase
    rw [Kept, phase] at kept
    exact Option.some.inj taken ▸ Held.afterHeaders kept
  · rename_i phase
    rw [Kept, phase] at kept
    exact Option.some.inj taken ▸ Held.afterNext kept _
  · rename_i phase
    rw [Kept, phase] at kept
    exact Option.some.inj taken ▸ Held.writeAll kept _
  · cases taken

theorem Kept.settled (kept : h.Kept) (phase : h.phase = .request) : h.Settled := by
  rw [Kept, phase] at kept
  exact kept

theorem Kept.held (kept : h.Kept) (phase : h.phase = .read) : h.Held := by
  rw [Kept, phase] at kept
  exact kept

theorem Kept.written (kept : h.Kept) (writeBuff : Session BuildConfig.writeBuffSize) :
    Kept { h with writeBuff := writeBuff } := by
  unfold Kept at kept ⊢
  cases phase : h.phase with
  | request =>
      rw [phase] at kept
      exact kept
  | ended =>
      rw [phase] at kept
      exact kept
  | headers =>
      rw [phase] at kept
      exact ⟨kept.created, kept.deleted⟩
  | read =>
      rw [phase] at kept
      exact ⟨kept.created, kept.deleted⟩
  | next isFinished =>
      rw [phase] at kept
      exact ⟨kept.created, kept.deleted⟩
  | all retVal =>
      rw [phase] at kept
      exact ⟨kept.created, kept.deleted⟩

/-- A step without an exception. -/
theorem Kept.step {e : Event} (kept : h.Kept) (calm : e.throws = false)
    (taken : h.step e = some t) : Kept t := by
  cases e with
  | noRequest thrown =>
      obtain ⟨phase, taken⟩ := Option.ite_none_right_eq_some.mp taken
      exact Option.some.inj taken ▸ (kept.settled phase).stop thrown
  | create resp =>
      obtain ⟨phase, taken⟩ := Option.ite_none_right_eq_some.mp taken
      exact (kept.settled phase).onCreate taken
  | write thrown =>
      cases thrown with
      | none =>
          obtain ⟨writeBuff, -, taken⟩ := Option.bind_eq_some_iff.mp taken
          exact (kept.written writeBuff).afterWrite taken
      | some thrown => cases calm
  | read result =>
      cases result with
      | ok read =>
          obtain ⟨phase, taken⟩ := Option.ite_none_right_eq_some.mp taken
          exact (kept.held phase).onRead taken
      | error thrown => cases calm

/-- An exception goes through `ResponseHandler` and ends `ProtocolHandler`, and the response which
    is held there is left behind. -/
theorem Kept.thrown {e : Event} (kept : h.Kept) (throws : e.throws = true)
    (taken : h.step e = some t) : t.phase = .ended ∧ t.Held := by
  cases e with
  | noRequest thrown => cases throws
  | create resp => cases throws
  | write thrown =>
      cases thrown with
      | none => cases throws
      | some thrown =>
          obtain ⟨writing, taken⟩ := Option.ite_none_right_eq_some.mp taken
          obtain ⟨writeBuff, -, rfl⟩ := Option.map_eq_some_iff.mp taken
          have held : h.Held := by
            cases phase : h.phase with
            | headers => rw [Kept, phase] at kept; exact kept
            | next isFinished => rw [Kept, phase] at kept; exact kept
            | all retVal => rw [Kept, phase] at kept; exact kept
            | request => rw [isWriting, phase] at writing; cases writing
            | read => rw [isWriting, phase] at writing; cases writing
            | ended => rw [isWriting, phase] at writing; cases writing
          exact ⟨rfl, held.created, held.deleted⟩
  | read result =>
      cases result with
      | ok read => cases throws
      | error thrown =>
          obtain ⟨phase, taken⟩ := Option.ite_none_right_eq_some.mp taken
          obtain rfl := Option.some.inj taken
          have held := kept.held phase
          exact ⟨rfl, held.created, held.deleted⟩

theorem step_ended (ended : h.phase = .ended) (e : Event) : h.step e = none := by
  have other : ∀ p : Phase, p ≠ .ended → h.phase ≠ p := fun p ne same => ne (same.symm.trans ended)
  cases e with
  | noRequest thrown => exact if_neg (other .request Phase.noConfusion)
  | create resp => exact if_neg (other .request Phase.noConfusion)
  | write thrown =>
      cases thrown with
      | none =>
          apply Option.bind_eq_none_iff.mpr
          intro writeBuff _
          simp only [afterWrite, ended]
      | some thrown =>
          apply if_neg
          rw [isWriting, ended]
          exact Bool.false_ne_true
  | read result =>
      cases result with
      | ok read => exact if_neg (other .read Phase.noConfusion)
      | error thrown => exact if_neg (other .read Phase.noConfusion)

theorem run_kept {events : List Event} (kept : h.Kept) (run : exec step h events = some t) :
    ((∀ e ∈ events, e.throws = false) ∧ t.Kept) ∨
      ((∃ e ∈ events, e.throws = true) ∧ t.phase = .ended ∧ t.Held) := by
  induction events generalizing h with
  | nil =>
      left
      exact ⟨fun e member => absurd member List.not_mem_nil, Option.some.inj run ▸ kept⟩
  | cons e rest ih =>
      obtain ⟨mid, taken, run⟩ := exec_cons_some.mp run
      cases throws : e.throws with
      | true =>
          right
          obtain ⟨ended, held⟩ := kept.thrown throws taken
          cases rest with
          | nil =>
              obtain rfl := Option.some.inj run
              exact ⟨⟨e, List.mem_cons_self, throws⟩, ended, held⟩
          | cons next rest =>
              rw [exec_cons, step_ended ended next] at run
              cases run
      | false =>
          rcases ih (kept.step throws taken) run with ⟨calm, after⟩ | ⟨⟨f, member, thrown⟩, after⟩
          · left
            refine ⟨?_, after⟩
            intro f member
            rcases List.mem_cons.mp member with rfl | member
            · exact throws
            · exact calm f member
          · right
            exact ⟨⟨f, List.mem_cons_of_mem e member, thrown⟩, after⟩

theorem start_kept (maxHeadersLength : Nat) (mem : Mem WriteBlock Byte) :
    Kept (start maxHeadersLength mem) := rfl

/-- When `ProtocolHandler` has ended, each response which it has got has been deleted once, unless
    a write or a `Read` has thrown. -/
theorem deleted_once_iff {maxHeadersLength : Nat} {mem : Mem WriteBlock Byte} {events : List Event}
    (run : exec step (start maxHeadersLength mem) events = some h) (ended : h.phase = .ended) :
    (∀ r < h.created, h.deleted.count r = 1) ↔ ∀ e ∈ events, e.throws = false := by
  rcases run_kept (start_kept maxHeadersLength mem) run with ⟨calm, kept⟩ | ⟨⟨e, member, throws⟩, -, held⟩
  · have settled : h.Settled := by
      rw [Kept, ended] at kept
      exact kept
    constructor
    · exact fun _ => calm
    · intro _ r created
      rw [settled]
      exact List.count_eq_one_of_mem List.nodup_range (List.mem_range.mpr created)
  · constructor
    · intro once
      have last := once h.currResp (by rw [held.created]; exact Nat.lt_succ_self _)
      rw [held.deleted, List.count_eq_zero_of_not_mem List.not_mem_range_self] at last
      cases last
    · intro calm
      rw [calm e member] at throws
      cases throws

/-- A response without a body. -/
def emptyResponse : NewResponse := ⟨[104], some 0, false, false⟩

theorem deleted_once_iff_empty : ∃ h,
    exec step (start 64 fun _ _ => 0) [.create emptyResponse, .write none] = some h ∧
      h.phase = .ended ∧ ∀ r < h.created, h.deleted.count r = 1 := by
  have seen : (exec step (start 64 fun _ _ => 0) [.create emptyResponse, .write none]).map
      (fun h => h.phase) = some .ended := by
    decide +kernel
  obtain ⟨h, run, ended⟩ := Option.map_eq_some_iff.mp seen
  refine ⟨h, run, ended, (deleted_once_iff run ended).mpr ?_⟩
  intro e member
  rcases List.mem_cons.mp member with rfl | member
  · rfl
  · obtain rfl := List.mem_singleton.mp member
    rfl

/-- The client is gone when the header block is written. -/
theorem failed_write_leaks :
    ¬∀ (events : List Event) (h : Handler),
      exec step (start 64 fun _ _ => 0) events = some h → h.phase = .ended →
        ∀ r < h.created, h.deleted.count r = 1 := by
  intro once
  have seen : (exec step (start 64 fun _ _ => 0) [.create emptyResponse, .write (some .other)]).map
      (fun h => (h.phase, h.created, h.deleted)) = some (.ended, 1, []) := by
    decide +kernel
  obtain ⟨h, run, same⟩ := Option.map_eq_some_iff.mp seen
  simp only [Prod.mk.injEq] at same
  obtain ⟨ended, created, deleted⟩ := same
  have last := once _ h run ended 0 (by rw [created]; exact Nat.lt_succ_self 0)
  rw [deleted] at last
  cases last

end Handler

end ResponseLifetime

end MiniWebSrv.HTTP
