import MiniWebSrv.Common.WriteBuffQueueFifo
import MiniWebSrv.HTTP.ChunkedCoding

/-! # Responses

`Connection::ResponseHandler` behind the header block: it reads the response into blocks of the
write queue, and writes them to the socket. What a call of `Read` does is up to the response, and
the calls are the events here. A response whose length is known is sent as it is, and another one
in the chunked coding.
-/

namespace MiniWebSrv

open Word Run

namespace WriteBuffQueue.Session

variable {size : Nat}

/-- `Allocate` and `Commit`, and between them the stores into the allocation: what they make of
    the bytes which are there. -/
def writeBlock (s : Session size) (allocLength : Nat) (store : List Byte → List Byte)
    (length : Nat) : Option (Session size) :=
  (s.step (.allocate allocLength)).bind fun s =>
    match s.current with
    | some (region, _) =>
        exec step s [.fill (store (s.mem.read region.ptr region.len)), .commit length]
    | none => none

/-- `WriteNext` -/
def writeNext (s : Session size) : Option (Session size) :=
  match s.queue.pop.1 with
  | some _ => exec step s [.pop, .release]
  | none => some s

/-- At most `n` turns of the loop of `WriteAll`. -/
def writeLoop : Nat → Session size → Option (Session size)
  | 0, s => some s
  | n + 1, s =>
      match s.queue.pop.1 with
      | some _ => (exec step s [.pop, .release]).bind (writeLoop n)
      | none => some s

def writeAll (s : Session size) : Option (Session size) := writeLoop s.queue.unpopped s

/-- Nothing is being written, and there is no allocation. -/
def Idle (s : Session size) : Prop := ∃ ps, Tracks s [] ps none

namespace Idle

variable {s : Session size} {ps : List Buffer}

theorem outstanding (idle : s.Idle) : s.outstanding = [] := by
  obtain ⟨ps, tracks⟩ := idle
  exact List.forall₂_nil_right_iff.mp tracks.outstanding

theorem start (pos : 0 < size) {q : WriteBuffQueue size} (empty : Empty q)
    (mem : Mem WriteBlock Byte) : (Session.start q mem).Idle :=
  ⟨[], empty.shape pos, .nil, rfl, by simp [Session.start], by simp [Session.start]⟩

/-- The block is committed with the bytes which have been stored. -/
theorem writeBlock (idle : s.Idle) {allocLength length : Nat} {store : List Byte → List Byte}
    (pos : 0 < allocLength) (range : allocLength + 255 < size32)
    (fills : ∀ old, old.length = allocLength → (store old).length = allocLength)
    (le : length ≤ allocLength) : ∃ t old, old.length = allocLength ∧
      s.writeBlock allocLength store length = some t ∧ t.Idle ∧
      t.committed = s.committed ++ (store old).take length := by
  obtain ⟨ps, tracks⟩ := idle
  have free : s.current = none := tracks.closed.mpr rfl
  obtain ⟨ret, q, ps', b, run, next⟩ := tracks.allocate pos fun _ => range
  have allocated : s.step (.allocate allocLength) =
      some { s with queue := q, current := some (⟨ret, allocLength⟩, none) } := by
    simp only [step, free, Option.isNone_none, pos, range, and_self, if_true, run]
  have old : (s.mem.read ret allocLength).length = allocLength := Mem.read_length ..
  have filled := next.fill rfl (fills _ old)
  refine ⟨_, _, old, ?_, ⟨_, filled.commit length rfl⟩, rfl⟩
  rw [Session.writeBlock, allocated]
  simp only [Option.bind_some, exec, step, fills _ old, if_true, le, true_or]

/-- The next buffer, if there is one, is written and released. -/
theorem write (tracks : Tracks s [] ps none) :
    (ps = [] ∧ s.queue.pop.1 = none) ∨ ∃ p rest t, ps = p :: rest ∧
      s.queue.pop.1 = some (p.buff, p.length) ∧ exec step s [.pop, .release] = some t ∧
      Tracks t [] rest none ∧ t.committed = s.committed := by
  have none_ := outstanding ⟨ps, tracks⟩
  have free : s.current = none := tracks.closed.mpr rfl
  cases ps with
  | nil => exact Or.inl ⟨rfl, by rw [tracks.pop_empty]⟩
  | cons p rest =>
      obtain ⟨q, run, next⟩ := tracks.pop
      rw [none_, List.nil_append] at next
      refine Or.inr ⟨p, rest, _, rfl, by rw [run], ?_, next.release rfl, rfl⟩
      simp only [exec, step, free, Option.isNone_none, if_true, run, none_, List.nil_append,
        Option.bind_some]

theorem writeNext (idle : s.Idle) :
    ∃ t, s.writeNext = some t ∧ t.Idle ∧ t.committed = s.committed := by
  obtain ⟨ps, tracks⟩ := idle
  obtain ⟨-, none_⟩ | ⟨p, rest, t, -, some_, run, next, same⟩ := write tracks
  · exact ⟨s, by simp only [Session.writeNext, none_], ⟨ps, tracks⟩, rfl⟩
  · exact ⟨t, by simp only [Session.writeNext, some_, run], ⟨rest, next⟩, same⟩

theorem writeLoop {n : Nat} (tracks : Tracks s [] ps none) (enough : ps.length ≤ n) :
    ∃ t, writeLoop n s = some t ∧ Tracks t [] [] none ∧ t.committed = s.committed := by
  induction n generalizing s ps with
  | zero =>
      obtain rfl := List.length_eq_zero_iff.mp (Nat.le_zero.mp enough)
      exact ⟨s, rfl, tracks, rfl⟩
  | succ n ih =>
      obtain ⟨rfl, none_⟩ | ⟨p, rest, t, rfl, some_, run, next, same⟩ := write tracks
      · exact ⟨s, by simp only [Session.writeLoop, none_], tracks, rfl⟩
      · obtain ⟨u, more, last, kept⟩ := ih next (by simp only [List.length_cons] at enough; omega)
        exact ⟨u, by simp only [Session.writeLoop, some_, run, Option.bind_some, more], last,
          kept.trans same⟩

/-- Everything committed has been written. -/
theorem writeAll (idle : s.Idle) : ∃ t, s.writeAll = some t ∧ t.Idle ∧
    t.committed = s.committed ∧ t.released = t.committed := by
  obtain ⟨ps, tracks⟩ := idle
  have unpopped : s.queue.unpopped = ps.length := by
    rw [WriteBuffQueue.unpopped, tracks.shape.queue, tracks.shape.first]
    simp
  obtain ⟨t, run, last, same⟩ := writeLoop tracks (Nat.le_of_eq unpopped.symm)
  refine ⟨t, run, ⟨[], last⟩, same, ?_⟩
  have committed := last.committed
  rw [popped, outstanding ⟨[], last⟩] at committed
  simpa [waiting] using committed.symm

end Idle

end WriteBuffQueue.Session

namespace HTTP

def BuildConfig.writeBuffSize : Nat := 24 * 1024

/-- A call of `IResponse::Read`. -/
structure ReadResult where
  /-- The bytes from `TargetBuff` on, as the call leaves them. -/
  targetBuff : List Byte
  outLength : Nat
  isFinished : Bool
  deriving DecidableEq, Repr

namespace ReadResult

/-- `OutLength` is within the buffer. -/
def Obeys (read : ReadResult) (maxLength : Nat) : Prop :=
  read.targetBuff.length = maxLength ∧ read.outLength ≤ maxLength

instance (read : ReadResult) (maxLength : Nat) : Decidable (read.Obeys maxLength) :=
  inferInstanceAs (Decidable (_ ∧ _))

def data (read : ReadResult) : List Byte := read.targetBuff.take read.outLength

theorem Obeys.data_length {read : ReadResult} {maxLength : Nat} (obeys : read.Obeys maxLength) :
    read.data.length = read.outLength := by
  rw [data, List.length_take, obeys.1]
  exact Nat.min_eq_left obeys.2

end ReadResult

/-- `ResponseHandler` behind its header block. -/
structure Responding where
  writeBuff : WriteBuffQueue.Session BuildConfig.writeBuffSize
  /-- What is left of `RespLength`, in the loop for a known length. -/
  respLength : Nat
  totalWriteLength : Nat
  /-- Whether `Upgrade` will return another connection. -/
  nextConn : Bool
  /-- What `ResponseHandler` has returned, once its loop has been left. -/
  result : Option Bool

namespace Responding

/-- Behind the loop, with the value of `RetVal`. -/
def leave (h : Responding) (retVal : Bool) : Option Responding :=
  h.writeBuff.writeAll.map fun writeBuff =>
    { h with writeBuff := writeBuff, result := some (retVal && !h.nextConn) }

/-! ## A known length -/

/-- At the loop, which an empty response does not enter. -/
def knownLength (writeBuff : WriteBuffQueue.Session BuildConfig.writeBuffSize)
    (respLength : Nat) (nextConn : Bool) : Option Responding :=
  let h : Responding := ⟨writeBuff, respLength, 0, nextConn, none⟩
  if respLength = 0 then h.leave false else some h

/-- A turn of the loop. -/
def knownLengthStep (h : Responding) (read : ReadResult) : Option Responding :=
  match h.result with
  | some _ => none
  | none =>
      (h.writeBuff.writeBlock BuildConfig.writeBuffSize (fun _ => read.targetBuff)
          read.outLength).bind fun writeBuff =>
        writeBuff.writeNext.bind fun writeBuff =>
          let h : Responding := { h with
            writeBuff := writeBuff
            respLength := if read.outLength ≤ h.respLength then h.respLength - read.outLength else 0
            totalWriteLength := u64 (h.totalWriteLength + read.outLength) }
          if read.isFinished ∧ h.respLength = 0 then h.leave true
          else if read.isFinished ∨ h.respLength = 0 then h.leave false
          else some h

/-! ## The chunked coding -/

def chunkHeaderLen : Nat := 8 + 2
def chunkFooterLength : Nat := 2

/-- `data` stored over the bytes from the `off`-th on. -/
def storeAt (off : Nat) (data bytes : List Byte) : List Byte :=
  bytes.take off ++ data ++ bytes.drop (off + data.length)

/-- `Read`, and the header and the footer around what it has stored. -/
def storeChunk (read : ReadResult) (bytes : List Byte) : List Byte :=
  let bytes := storeAt chunkHeaderLen read.targetBuff bytes
  if read.outLength ≠ 0 then
    -- the terminator of the string comes where the line feed goes
    let bytes := storeAt 0 (ChunkedCoding.hexDigits 8 read.outLength ++ [cr, 0]) bytes
    let bytes := storeAt (8 + 1) [lf] bytes
    let bytes := storeAt (read.outLength + chunkHeaderLen) [cr] bytes
    storeAt (read.outLength + chunkHeaderLen + 1) [lf] bytes
  else
    bytes

/-- The final chunk. -/
def finish (h : Responding) : Option Responding :=
  (h.writeBuff.writeBlock ChunkedCoding.lastChunk.length (fun _ => ChunkedCoding.lastChunk)
      ChunkedCoding.lastChunk.length).bind fun writeBuff =>
    { h with writeBuff := writeBuff }.leave true

def chunked (writeBuff : WriteBuffQueue.Session BuildConfig.writeBuffSize) (nextConn : Bool) :
    Responding :=
  ⟨writeBuff, 0, 0, nextConn, none⟩

/-- A turn of the loop. -/
def chunkedStep (h : Responding) (read : ReadResult) : Option Responding :=
  match h.result with
  | some _ => none
  | none =>
      let commitLength :=
        if read.outLength ≠ 0 then read.outLength + chunkHeaderLen + chunkFooterLength else 0
      (h.writeBuff.writeBlock BuildConfig.writeBuffSize (storeChunk read) commitLength).bind
        fun writeBuff =>
          let h : Responding := { h with
            writeBuff := writeBuff
            totalWriteLength := u64 (h.totalWriteLength + read.outLength) }
          if read.isFinished ∨ read.outLength = 0 then
            h.finish
          else
            writeBuff.writeNext.map fun writeBuff => { h with writeBuff := writeBuff }

end Responding

end HTTP

end MiniWebSrv
