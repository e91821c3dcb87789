import Mathlib.Algebra.GroupWithZero.Nat
import MiniWebSrv.HTTP.ResponseHandler

/-! # Where a response ends

A client finds the end of a response by its length, or by its final chunk. The bytes which
`ResponseHandler` queues behind the header block are looked at here, for a queue in which nothing
is being written and whatever the calls of `Read` do.
-/

namespace MiniWebSrv.HTTP.Responding

open Word Run WriteBuffQueue

variable {s : Session BuildConfig.writeBuffSize} {h t : Responding} {read : ReadResult}
  {reads : List ReadResult}

theorem leave_some (idle : h.writeBuff.Idle) (retVal : Bool) : ∃ t, h.leave retVal = some t ∧
    t.writeBuff.Idle ∧ t.writeBuff.committed = h.writeBuff.committed ∧
    t.writeBuff.released = t.writeBuff.committed ∧ t.result = some (retVal && !h.nextConn) ∧
    t.respLength = h.respLength := by
  obtain ⟨w, run, next, same, written⟩ := idle.writeAll
  exact ⟨{ h with writeBuff := w, result := some (retVal && !h.nextConn) },
    by rw [leave, run, Option.map_some], next, same, written, rfl, rfl⟩

/-! ## A known length -/

/-- `total` bytes have been read so far of a response with that length. -/
structure Read (s : Session BuildConfig.writeBuffSize) (length total : Nat) (h : Responding) :
    Prop where
  idle : h.writeBuff.Idle
  queued : h.writeBuff.committed.length = s.committed.length + total
  left : h.respLength = length - total
  complete : h.result = some true → length ≤ total

theorem knownLengthStep_read {length total : Nat} (before : Read s length total h)
    (looping : h.result = none) (obeys : read.Obeys BuildConfig.writeBuffSize) :
    ∃ t, h.knownLengthStep read = some t ∧ Read s length (total + read.outLength) t := by
  obtain ⟨idle, queued, left, -⟩ := before
  obtain ⟨w, old, -, stored, wIdle, committed⟩ := idle.writeBlock
    (by decide) (by decide) (fun _ (_ : _ = BuildConfig.writeBuffSize) => obeys.1) obeys.2
  obtain ⟨v, written, vIdle, same⟩ := wIdle.writeNext
  have length' : v.committed.length = s.committed.length + (total + read.outLength) := by
    have data := obeys.data_length
    rw [ReadResult.data] at data
    rw [same, committed, List.length_append, data, queued, Nat.add_assoc]
  have left' : (if read.outLength ≤ h.respLength then h.respLength - read.outLength else 0) =
      length - (total + read.outLength) := by
    split <;> omega
  simp only [knownLengthStep, looping, stored, Option.bind_some, written, left']
  split
  · rename_i last
    obtain ⟨t, run, tIdle, kept, -, -, rest⟩ := leave_some (h := { h with
      writeBuff := v
      respLength := length - (total + read.outLength)
      totalWriteLength := u64 (h.totalWriteLength + read.outLength) }) vIdle true
    exact ⟨t, run, tIdle, by rw [kept]; exact length', rest, fun _ => by omega⟩
  · split
    · obtain ⟨t, run, tIdle, kept, -, result, rest⟩ := leave_some (h := { h with
        writeBuff := v
        respLength := length - (total + read.outLength)
        totalWriteLength := u64 (h.totalWriteLength + read.outLength) }) vIdle false
      exact ⟨t, run, tIdle, by rw [kept]; exact length', rest, fun yes => by
        rw [result] at yes
        cases yes⟩
    · refine ⟨_, rfl, vIdle, length', rfl, ?_⟩
      intro finished
      cases finished

theorem knownLength_read (idle : s.Idle) (length : Nat) (nextConn : Bool) :
    ∃ t, knownLength s length nextConn = some t ∧ Read s length 0 t := by
  unfold knownLength
  split
  · rename_i empty
    obtain ⟨t, run, tIdle, kept, -, result, rest⟩ :=
      leave_some (h := ⟨s, length, 0, nextConn, none⟩) idle false
    exact ⟨t, run, tIdle, by rw [kept]; rfl, rest, fun yes => by omega⟩
  · exact ⟨_, rfl, idle, rfl, rfl, nofun⟩

theorem exec_read {length total : Nat} (before : Read s length total h)
    (obeys : ∀ read ∈ reads, read.Obeys BuildConfig.writeBuffSize)
    (run : exec knownLengthStep h reads = some t) :
    Read s length (total + (reads.map ReadResult.outLength).sum) t := by
  induction reads generalizing h total with
  | nil => exact Option.some.inj run ▸ before
  | cons read reads ih =>
      obtain ⟨mid, taken, run⟩ := exec_cons_some.mp run
      have looping : h.result = none := by
        cases result : h.result with
        | none => rfl
        | some _ => rw [knownLengthStep, result] at taken; cases taken
      obtain ⟨t, same, next⟩ := knownLengthStep_read before looping (obeys read List.mem_cons_self)
      obtain rfl := Option.some.inj (same.symm.trans taken)
      have all := ih next (fun read inside => obeys read (List.mem_cons_of_mem _ inside)) run
      rw [Nat.add_assoc] at all
      exact all

/-- The bytes queued behind the header block. -/
def body (s : Session BuildConfig.writeBuffSize) (h : Responding) : List Byte :=
  h.writeBuff.committed.drop s.committed.length

/-- The body is no longer than it was announced to be, and has that length if the connection is
    kept. -/
def Framed (s : Session BuildConfig.writeBuffSize) (length : Nat) (h : Responding) : Prop :=
  (body s h).length ≤ length ∧ (h.result = some true → (body s h).length = length)

theorem Read.body_length {length total : Nat} (done : Read s length total t) :
    (body s t).length = total := by
  rw [body, List.length_drop, done.queued]
  omega

/-- A response with a known length is framed by it exactly as long as its reads do not come to
    more than that. -/
theorem knownLength_framed_iff (idle : s.Idle) (length : Nat) (nextConn : Bool)
    (obeys : ∀ read ∈ reads, read.Obeys BuildConfig.writeBuffSize)
    (start : knownLength s length nextConn = some h)
    (run : exec knownLengthStep h reads = some t) :
    Framed s length t ↔ (reads.map ReadResult.outLength).sum ≤ length := by
  obtain ⟨first, same, before⟩ := knownLength_read idle length nextConn
  obtain rfl := Option.some.inj (same.symm.trans start)
  have done := exec_read before obeys run
  have bytes := done.body_length
  rw [Nat.zero_add] at bytes
  rw [Framed, bytes]
  exact ⟨And.left, fun le => ⟨le, fun yes => by have := done.complete yes; omega⟩⟩

/-- A queue without anything in it. -/
def emptyQueue : Session BuildConfig.writeBuffSize := .start (.init _) fun _ _ => 0

theorem emptyQueue_idle : emptyQueue.Idle := .start (by decide) (empty_init _) _

/-- Two bytes and the end of the response. -/
def twoBytes : ReadResult := ⟨List.replicate BuildConfig.writeBuffSize 0, 2, true⟩

theorem twoBytes_obeys : twoBytes.Obeys BuildConfig.writeBuffSize :=
  ⟨List.length_replicate, by decide⟩

/-- A response with any length but 0 which has two bytes. -/
theorem twoBytes_run (length : Nat) (some_ : length ≠ 0) : ∃ h t,
    knownLength emptyQueue length false = some h ∧ exec knownLengthStep h [twoBytes] = some t ∧
      Read emptyQueue length 2 t := by
  obtain ⟨h, start, before⟩ := knownLength_read emptyQueue_idle length false
  have looping : h.result = none := by
    rw [knownLength, if_neg some_] at start
    exact congrArg Responding.result (Option.some.inj start).symm
  obtain ⟨t, run, done⟩ := knownLengthStep_read before looping twoBytes_obeys
  exact ⟨h, t, start, by rw [exec_cons, run]; rfl, done⟩

theorem knownLength_framed_iff_two : ∃ t, (∃ h, knownLength emptyQueue 2 false = some h ∧
    exec knownLengthStep h [twoBytes] = some t) ∧ Framed emptyQueue 2 t := by
  obtain ⟨h, t, start, run, -⟩ := twoBytes_run 2 (by decide)
  exact ⟨t, ⟨h, start, run⟩, (knownLength_framed_iff emptyQueue_idle 2 false
    (fun read inside => List.mem_singleton.mp inside ▸ twoBytes_obeys) start run).mpr (by decide)⟩

/-- Two bytes are sent for a response which has announced one. -/
theorem one_announced :
    ¬∀ (s : Session BuildConfig.writeBuffSize) (length : Nat) (nextConn : Bool)
      (reads : List ReadResult) (h t : Responding), s.Idle →
      (∀ read ∈ reads, read.Obeys BuildConfig.writeBuffSize) →
      knownLength s length nextConn = some h → exec knownLengthStep h reads = some t →
      Framed s length t := by
  intro framed
  obtain ⟨h, t, start, run, done⟩ := twoBytes_run 1 (by decide)
  have within := (framed emptyQueue 1 false [twoBytes] h t emptyQueue_idle
    (fun read inside => List.mem_singleton.mp inside ▸ twoBytes_obeys) start run).1
  rw [done.body_length] at within
  exact absurd within (by decide)

/-! ## The chunked coding -/

def chunkRoom : Nat := BuildConfig.writeBuffSize - chunkHeaderLen - chunkFooterLength

theorem storeAt_between (front middle back data : List Byte) {off : Nat} (place : front.length = off)
    (same : middle.length = data.length) :
    storeAt off data (front ++ (middle ++ back)) = front ++ (data ++ back) := by
  rw [storeAt, List.take_left' place, ← List.append_assoc front middle,
    List.drop_left' (by rw [List.length_append, place, same]), List.append_assoc]

theorem storeAt_byte (front back : List Byte) (old new : Byte) {off : Nat}
    (place : front.length = off) :
    storeAt off [new] (front ++ ([old] ++ back)) = front ++ ([new] ++ back) :=
  storeAt_between _ _ _ _ place rfl

theorem allocation_parts {old : List Byte} (length : old.length = BuildConfig.writeBuffSize) :
    ∃ header middle footer, old = header ++ (middle ++ footer) ∧ header.length = chunkHeaderLen ∧
      middle.length = chunkRoom ∧ footer.length = chunkFooterLength := by
  have parts : chunkHeaderLen + chunkRoom + chunkFooterLength = BuildConfig.writeBuffSize := by decide
  refine ⟨old.take chunkHeaderLen, (old.drop chunkHeaderLen).take chunkRoom,
    (old.drop chunkHeaderLen).drop chunkRoom, ?_, ?_, ?_, ?_⟩
  · rw [List.take_append_drop, List.take_append_drop]
  · rw [List.length_take]
    omega
  · rw [List.length_take, List.length_drop]
    omega
  · rw [List.length_drop, List.length_drop]
    omega

theorem storeChunk_spec {old : List Byte} (obeys : read.Obeys chunkRoom)
    (length : old.length = BuildConfig.writeBuffSize) :
    (storeChunk read old).length = BuildConfig.writeBuffSize ∧
      (read.outLength ≠ 0 →
        (storeChunk read old).take (read.outLength + chunkHeaderLen + chunkFooterLength) =
          ChunkedCoding.chunk read.data) := by
  obtain ⟨header, middle, footer, rfl, headerLen, middleLen, footerLen⟩ := allocation_parts length
  have dataLen := obeys.data_length
  obtain ⟨buffLen, le⟩ := obeys
  have placed : storeAt chunkHeaderLen read.targetBuff (header ++ (middle ++ footer)) =
      header ++ (read.targetBuff ++ footer) :=
    storeAt_between _ _ _ _ headerLen (middleLen.trans buffLen.symm)
  obtain ⟨x, y, rest, behind⟩ : ∃ x y rest, read.targetBuff ++ footer = read.data ++ x :: y :: rest := by
    have left : 2 ≤ ((read.targetBuff ++ footer).drop read.outLength).length := by
      rw [List.length_drop, List.length_append, footerLen, buffLen]
      simp only [chunkFooterLength]
      omega
    match tail : (read.targetBuff ++ footer).drop read.outLength, left with
    | x :: y :: rest, _ =>
        refine ⟨x, y, rest, ?_⟩
        have front : (read.targetBuff ++ footer).take read.outLength = read.data :=
          List.take_append_of_le_length (by omega)
        rw [← tail, ← front, List.take_append_drop]
  by_cases zero : read.outLength = 0
  · refine ⟨?_, fun some_ => absurd zero some_⟩
    simp only [storeChunk, zero, ne_eq, not_true, if_false, placed]
    simp only [List.length_append] at length ⊢
    omega
  · have digits := ChunkedCoding.hexDigits_length 8 read.outLength
    have first : storeAt 0 (ChunkedCoding.hexDigits 8 read.outLength ++ [cr, 0])
        (header ++ (read.targetBuff ++ footer)) =
          (ChunkedCoding.hexDigits 8 read.outLength ++ [cr]) ++ ([0] ++
            (read.data ++ x :: y :: rest)) := by
      have placed := storeAt_between [] header (read.targetBuff ++ footer)
        (ChunkedCoding.hexDigits 8 read.outLength ++ [cr, 0]) rfl
        (by rw [headerLen, List.length_append, digits]; rfl)
      rw [List.nil_append, List.nil_append] at placed
      rw [List.length_nil] at placed
      rw [placed, behind]
      simp
    have second : storeAt (8 + 1) [lf] ((ChunkedCoding.hexDigits 8 read.outLength ++ [cr]) ++ ([0] ++
        (read.data ++ x :: y :: rest))) =
          (ChunkedCoding.hexDigits 8 read.outLength ++ [cr, lf] ++ read.data) ++ ([x] ++
            y :: rest) := by
      rw [storeAt_byte _ _ _ _ (by rw [List.length_append, digits]; rfl)]
      simp
    have third : storeAt (read.outLength + chunkHeaderLen) [cr]
        ((ChunkedCoding.hexDigits 8 read.outLength ++ [cr, lf] ++ read.data) ++ ([x] ++ y :: rest)) =
          (ChunkedCoding.hexDigits 8 read.outLength ++ [cr, lf] ++ read.data ++ [cr]) ++ ([y] ++
            rest) := by
      rw [storeAt_byte _ _ _ _ (by
        simp only [List.length_append, digits, dataLen, List.length_cons, List.length_nil,
          chunkHeaderLen]
        omega)]
      simp
    have fourth : storeAt (read.outLength + chunkHeaderLen + 1) [lf]
        ((ChunkedCoding.hexDigits 8 read.outLength ++ [cr, lf] ++ read.data ++ [cr]) ++ ([y] ++
          rest)) = ChunkedCoding.chunk read.data ++ rest := by
      rw [storeAt_byte _ _ _ _ (by
        simp only [List.length_append, digits, dataLen, List.length_cons, List.length_nil,
          chunkHeaderLen]
        omega)]
      simp [ChunkedCoding.chunk, dataLen]
    have stored : storeChunk read (header ++ (middle ++ footer)) =
        ChunkedCoding.chunk read.data ++ rest := by
      simp only [storeChunk, ne_eq, zero, not_false_eq_true, if_true, placed, first, second, third,
        fourth]
    have chunkLen : (ChunkedCoding.chunk read.data).length =
        read.outLength + chunkHeaderLen + chunkFooterLength := by
      simp only [ChunkedCoding.chunk, List.length_append, ChunkedCoding.hexDigits_length, dataLen,
        List.length_cons, List.length_nil, chunkHeaderLen, chunkFooterLength]
      omega
    have whole := congrArg List.length behind
    rw [stored]
    refine ⟨?_, fun _ => List.take_left' chunkLen⟩
    simp only [List.length_append, List.length_cons] at length whole ⊢
    simp only [chunkFooterLength, chunkHeaderLen] at *
    omega

/-- The last read of a response. -/
def Last (read : ReadResult) : Prop := read.isFinished ∨ read.outLength = 0

instance (read : ReadResult) : Decidable (Last read) := inferInstanceAs (Decidable (_ ∨ _))

/-- The reads up to the last one. -/
def untilLast : List ReadResult → List ReadResult
  | [] => []
  | read :: reads => if Last read then [read] else read :: untilLast reads

theorem untilLast_subset (reads : List ReadResult) : untilLast reads ⊆ reads := by
  induction reads with
  | nil => exact List.Subset.refl _
  | cons read reads ih =>
      rw [untilLast]
      split
      · exact List.cons_subset_cons read (List.nil_subset reads)
      · exact List.cons_subset_cons read ih

/-- The data of the reads which have any. -/
def blocks (reads : List ReadResult) : List (List Byte) :=
  (reads.map ReadResult.data).filter fun data => data ≠ []

theorem blocks_cons (read : ReadResult) (reads : List ReadResult) :
    blocks (read :: reads) = (if read.data ≠ [] then [read.data] else []) ++ blocks reads := by
  by_cases empty : read.data = []
  · simp [blocks, empty]
  · simp [blocks, empty]

theorem blocks_flatten (reads : List ReadResult) :
    (blocks reads).flatten = reads.flatMap ReadResult.data := by
  induction reads with
  | nil => rfl
  | cons read reads ih =>
      rw [blocks_cons, List.flatten_append, ih, List.flatMap_cons]
      by_cases empty : read.data = []
      · rw [if_neg (not_not.mpr empty), empty]
        rfl
      · rw [if_pos empty, List.flatten_singleton]

/-- The chunk of a read, if it has one. -/
theorem writeChunk (idle : h.writeBuff.Idle) (obeys : read.Obeys chunkRoom) :
    ∃ w, h.writeBuff.writeBlock BuildConfig.writeBuffSize (storeChunk read)
        (if read.outLength ≠ 0 then read.outLength + chunkHeaderLen + chunkFooterLength else 0) =
      some w ∧ w.Idle ∧
      w.committed = h.writeBuff.committed ++ (blocks [read]).flatMap ChunkedCoding.chunk := by
  have dataLen := obeys.data_length
  have room : chunkRoom + chunkHeaderLen + chunkFooterLength = BuildConfig.writeBuffSize := by decide
  have fits : (if read.outLength ≠ 0 then read.outLength + chunkHeaderLen + chunkFooterLength else 0) ≤
      BuildConfig.writeBuffSize := by
    have le := obeys.2
    split <;> omega
  obtain ⟨w, old, length, stored, next, committed⟩ := idle.writeBlock (by decide) (by decide)
    (fun old length => (storeChunk_spec obeys length).1) fits
  refine ⟨w, stored, next, ?_⟩
  rw [committed, blocks_cons]
  by_cases zero : read.outLength = 0
  · have empty : read.data = [] := List.length_eq_zero_iff.mp (dataLen.trans zero)
    rw [if_neg (not_not.mpr zero), if_neg (not_not.mpr empty), List.take_zero]
    rfl
  · have some_ : read.data ≠ [] := fun empty => zero (by rw [← dataLen, empty]; rfl)
    rw [if_pos zero, if_pos some_, (storeChunk_spec obeys length).2 zero]
    simp [blocks]

theorem finish_spec (idle : h.writeBuff.Idle) : ∃ t, h.finish = some t ∧ t.writeBuff.Idle ∧
    t.writeBuff.committed = h.writeBuff.committed ++ ChunkedCoding.lastChunk ∧
    t.writeBuff.released = t.writeBuff.committed ∧ t.result = some (!h.nextConn) := by
  obtain ⟨w, old, -, stored, next, committed⟩ := idle.writeBlock
    (by decide) (by decide)
    (fun _ (_ : _ = ChunkedCoding.lastChunk.length) => rfl) (Nat.le_refl _)
  obtain ⟨t, run, tIdle, kept, written, result, -⟩ :=
    leave_some (h := { h with writeBuff := w }) next true
  refine ⟨t, by rw [finish, stored, Option.bind_some, run], tIdle, ?_, written, result⟩
  rw [kept, committed, List.take_length]

theorem chunkedStep_more (idle : h.writeBuff.Idle) (looping : h.result = none)
    (obeys : read.Obeys chunkRoom) (more : ¬Last read) :
    ∃ t, h.chunkedStep read = some t ∧ t.writeBuff.Idle ∧ t.result = none ∧
      t.nextConn = h.nextConn ∧ t.writeBuff.committed =
        h.writeBuff.committed ++ (blocks [read]).flatMap ChunkedCoding.chunk := by
  obtain ⟨w, stored, next, committed⟩ := writeChunk idle obeys
  obtain ⟨v, written, vIdle, same⟩ := next.writeNext
  refine ⟨⟨v, h.respLength, u64 (h.totalWriteLength + read.outLength), h.nextConn, none⟩, ?_, vIdle,
    rfl, rfl, same.trans committed⟩
  have goesOn : ¬(read.isFinished = true ∨ read.outLength = 0) := more
  simp only [chunkedStep, looping, stored, Option.bind_some, if_neg goesOn, written, Option.map_some]

theorem chunkedStep_last (idle : h.writeBuff.Idle) (looping : h.result = none)
    (obeys : read.Obeys chunkRoom) (last : Last read) :
    ∃ t, h.chunkedStep read = some t ∧ t.writeBuff.Idle ∧ t.result = some (!h.nextConn) ∧
      t.writeBuff.released = t.writeBuff.committed ∧ t.writeBuff.committed =
        h.writeBuff.committed ++ (blocks [read]).flatMap ChunkedCoding.chunk ++
          ChunkedCoding.lastChunk := by
  obtain ⟨w, stored, next, committed⟩ := writeChunk idle obeys
  obtain ⟨t, run, tIdle, all, written, result⟩ := finish_spec (h := { h with
    writeBuff := w
    totalWriteLength := u64 (h.totalWriteLength + read.outLength)
    result := none }) next
  refine ⟨t, ?_, tIdle, result, written, all.trans (by rw [← committed])⟩
  have isLast : read.isFinished = true ∨ read.outLength = 0 := last
  simp only [chunkedStep, looping, stored, Option.bind_some, if_pos isLast, run]

theorem chunked_run (idle : h.writeBuff.Idle) (looping : h.result = none)
    (obeys : ∀ read ∈ reads, read.Obeys chunkRoom) (ends : ∃ read ∈ reads, Last read) :
    ∃ t, exec chunkedStep h (untilLast reads) = some t ∧ t.writeBuff.Idle ∧
      t.result = some (!h.nextConn) ∧ t.writeBuff.released = t.writeBuff.committed ∧
      t.writeBuff.committed = h.writeBuff.committed ++
        (blocks (untilLast reads)).flatMap ChunkedCoding.chunk ++ ChunkedCoding.lastChunk := by
  induction reads generalizing h with
  | nil => simp at ends
  | cons read reads ih =>
      have here := obeys read List.mem_cons_self
      by_cases last : Last read
      · obtain ⟨t, run, spec⟩ := chunkedStep_last idle looping here last
        refine ⟨t, ?_, ?_⟩
        · rw [untilLast, if_pos last, exec_cons, run]
          rfl
        · rw [untilLast, if_pos last]
          exact spec
      · obtain ⟨mid, taken, next, looping, sameConn, committed⟩ :=
          chunkedStep_more idle looping here last
        have later : ∃ read ∈ reads, Last read := by
          obtain ⟨other, inside, isLast⟩ := ends
          rcases List.mem_cons.mp inside with rfl | inside
          · exact absurd isLast last
          · exact ⟨other, inside, isLast⟩
        obtain ⟨t, run, tIdle, result, written, all⟩ := ih next looping
          (fun read inside => obeys read (List.mem_cons_of_mem _ inside)) later
        refine ⟨t, ?_, tIdle, by rw [result, sameConn], written, ?_⟩
        · rw [untilLast, if_neg last, exec_cons, taken]
          exact run
        · rw [all, committed, untilLast, if_neg last, blocks_cons read (untilLast reads),
            blocks_cons read []]
          simp [blocks]

/-- A response with an unknown length is decoded to the data of its reads, up to the last one, and
    there is nothing behind its final chunk. -/
theorem chunked_round_trip (idle : s.Idle) (nextConn : Bool)
    (obeys : ∀ read ∈ reads, read.Obeys chunkRoom) (ends : ∃ read ∈ reads, Last read) :
    ∃ t, exec chunkedStep (chunked s nextConn) (untilLast reads) = some t ∧
      t.result = some (!nextConn) ∧ t.writeBuff.released = t.writeBuff.committed ∧
      t.writeBuff.committed = s.committed ++ body s t ∧
      ChunkedCoding.decodeBody (body s t) = some ((untilLast reads).flatMap ReadResult.data, []) := by
  obtain ⟨t, run, -, result, written, committed⟩ := chunked_run (h := chunked s nextConn) idle rfl
    obeys ends
  have sent : body s t = (blocks (untilLast reads)).flatMap ChunkedCoding.chunk ++
      ChunkedCoding.lastChunk := by
    rw [body, committed, List.append_assoc]
    exact List.drop_left' rfl
  refine ⟨t, run, result, written, ?_, ?_⟩
  · rw [sent, committed, List.append_assoc]
    rfl
  · rw [sent, ← blocks_flatten]
    refine ChunkedCoding.decodeBody_chunks (fun block inside => ?_) fun block inside => ?_
    · exact of_decide_eq_true (List.mem_filter.mp inside).2
    · obtain ⟨read, there, rfl⟩ := List.mem_map.mp (List.mem_filter.mp inside).1
      have here := obeys read (untilLast_subset reads there)
      have room : chunkRoom < 16 ^ 8 := by decide
      rw [here.data_length]
      exact Nat.lt_of_le_of_lt here.2 room

/-- A read with data, and an empty one behind it. -/
def shortReads : List ReadResult :=
  [⟨text "ab" ++ List.replicate (chunkRoom - 2) 0, 2, false⟩, ⟨List.replicate chunkRoom 0, 0, false⟩,
    ⟨List.replicate chunkRoom 1, 1, true⟩]

theorem chunked_round_trip_short :
    ∃ t, exec chunkedStep (chunked emptyQueue true) (untilLast shortReads) = some t ∧
      t.result = some false ∧
      ChunkedCoding.decodeBody (body emptyQueue t) = some (text "ab", []) := by
  have obeys : ∀ read ∈ shortReads, read.Obeys chunkRoom := by
    intro read inside
    simp only [shortReads, List.mem_cons, List.not_mem_nil, or_false] at inside
    rcases inside with rfl | rfl | rfl
    · exact ⟨by rw [List.length_append, List.length_replicate]; decide, by decide⟩
    · exact ⟨List.length_replicate, by decide⟩
    · exact ⟨List.length_replicate, by decide⟩
  obtain ⟨t, run, result, -, -, decoded⟩ := chunked_round_trip emptyQueue_idle true obeys
    ⟨⟨List.replicate chunkRoom 0, 0, false⟩, by simp [shortReads], Or.inr rfl⟩
  have data : (untilLast shortReads).flatMap ReadResult.data = text "ab" := by decide +kernel
  exact ⟨t, run, result, by rw [decoded, data]⟩

end MiniWebSrv.HTTP.Responding
