import MiniWebSrv.HTTP.Client

/-! # The responses of a connection

`ResponseHandler` as a whole, header block and body, and the loop of `ProtocolHandler` around it,
which sends one response behind the other until one of them does not keep the connection. A client
which takes the responses off the stream finds each of them as it was made, as long as none of those
which must end with their header block has the final chunk behind it.
-/

namespace MiniWebSrv.HTTP

open Word Run WriteBuffQueue FieldLines Responding

/-- A response as `ResponseHandler` finds it. -/
structure Reply where
  head : ResponseHead
  reads : List ReadResult
  /-- Whether `Upgrade` returns another connection. -/
  nextConn : Bool
  /-- What the version and the headers of the request say. -/
  isKeepAlive : Bool

namespace Reply

/-- `GetLength` is not `~0`. -/
def Known (a : Reply) : Prop := a.head.respLength ≠ 18446744073709551615

instance (a : Reply) : Decidable a.Known := inferInstanceAs (Decidable (_ ≠ _))

/-- `ResponseHandler` -/
def respond (maxHeadersLength : Nat) (s : Session BuildConfig.writeBuffSize) (a : Reply) :
    Option Responding :=
  (a.head.send maxHeadersLength s).bind fun s =>
    if a.Known then
      (knownLength s a.head.respLength.toNat a.nextConn).bind fun h => exec knownLengthStep h a.reads
    else
      exec chunkedStep (chunked s a.nextConn) a.reads

end Reply

/-- `ProtocolHandler`, as far as its responses go. -/
structure Serving where
  writeBuff : Session BuildConfig.writeBuffSize
  isOpen : Bool

/-- A turn of the loop. -/
def Serving.step (maxHeadersLength : Nat) (s : Serving) (a : Reply) : Option Serving :=
  if s.isOpen then
    (a.respond maxHeadersLength s.writeBuff).bind fun h =>
      h.result.map fun retVal => ⟨h.writeBuff, retVal && a.isKeepAlive⟩
  else
    none

namespace Reply

/-! ## The body -/

/-- The reads come to `left` bytes, and none is made before them or behind them for nothing. -/
def Exactly : Nat → List ReadResult → Prop
  | left, [] => left = 0
  | left, read :: reads =>
      left ≠ 0 ∧ read.outLength ≤ left ∧ (read.isFinished → read.outLength = left) ∧
        Exactly (left - read.outLength) reads

/-- All the reads of the loop have been made, and the last of them has read the end of a response
    whose length is known. -/
def Whole (a : Reply) : Prop :=
  if a.Known then
    (∀ read ∈ a.reads, read.Obeys BuildConfig.writeBuffSize) ∧
      Exactly a.head.respLength.toNat a.reads
  else
    (∀ read ∈ a.reads, read.Obeys chunkRoom) ∧ untilLast a.reads = a.reads ∧
      ∃ read ∈ a.reads, Last read

def body (a : Reply) : List Byte := a.reads.flatMap ReadResult.data

/-- The body on its way. -/
def coded (a : Reply) : List Byte :=
  if a.Known then
    a.body
  else
    (blocks a.reads).flatMap ChunkedCoding.chunk ++ ChunkedCoding.lastChunk

/-- What `ResponseHandler` returns. -/
def retVal (a : Reply) : Bool :=
  (if a.Known then a.reads.any (·.isFinished) else true) && !a.nextConn

/-- Whether another request is read. -/
def kept (a : Reply) : Bool := a.retVal && a.isKeepAlive

variable {a : Reply} {h : Responding} {left n : Nat} {reads : List ReadResult}

theorem Exactly.length (exactly : Exactly left reads) (obeys : ∀ read ∈ reads, read.Obeys n) :
    (reads.flatMap ReadResult.data).length = left := by
  induction reads generalizing left with
  | nil => exact exactly.symm
  | cons read reads ih =>
      obtain ⟨-, le, -, rest⟩ := exactly
      have later := ih rest fun other member => obeys other (List.mem_cons_of_mem read member)
      rw [List.flatMap_cons, List.length_append, later, (obeys read List.mem_cons_self).data_length]
      omega

/-- The turns of the loop for a known length. -/
theorem exec_exactly (idle : h.writeBuff.Idle) (looping : h.result = none) (some_ : h.respLength ≠ 0)
    (obeys : ∀ read ∈ reads, read.Obeys BuildConfig.writeBuffSize)
    (exactly : Exactly h.respLength reads) :
    ∃ t, exec knownLengthStep h reads = some t ∧ t.writeBuff.Idle ∧
      t.writeBuff.committed = h.writeBuff.committed ++ reads.flatMap ReadResult.data ∧
      t.writeBuff.released = t.writeBuff.committed ∧
      t.result = some (reads.any (·.isFinished) && !h.nextConn) := by
  induction reads generalizing h with
  | nil => exact absurd exactly some_
  | cons read reads ih =>
      obtain ⟨-, le, finished, rest⟩ := exactly
      have here := obeys read List.mem_cons_self
      obtain ⟨w, old, -, stored, wIdle, committed⟩ := idle.writeBlock
        (by decide) (by decide) (fun _ (_ : _ = BuildConfig.writeBuffSize) => here.1) here.2
      obtain ⟨v, written, vIdle, same⟩ := wIdle.writeNext
      rw [committed] at same
      have left' : (if read.outLength ≤ h.respLength then h.respLength - read.outLength else 0) =
          h.respLength - read.outLength := if_pos le
      have more : h.respLength - read.outLength ≠ 0 → read.isFinished = false := by
        intro some_
        cases isFinished : read.isFinished with
        | false => rfl
        | true =>
            have := finished isFinished
            omega
      have step : h.knownLengthStep read =
          let t : Responding := { h with
            writeBuff := v
            respLength := h.respLength - read.outLength
            totalWriteLength := u64 (h.totalWriteLength + read.outLength) }
          if h.respLength - read.outLength = 0 then t.leave read.isFinished else some t := by
        simp only [knownLengthStep, looping, stored, Option.bind_some, written, left']
        by_cases last : h.respLength - read.outLength = 0
        · cases read.isFinished <;> simp [last]
        · simp [last, more last]
      rw [exec_cons, step]
      by_cases last : h.respLength - read.outLength = 0
      · have none_ : reads = [] := by
          cases reads with
          | nil => rfl
          | cons other reads => exact absurd last rest.1
        subst none_
        obtain ⟨t, run, tIdle, kept, released, result, -⟩ := leave_some (h := { h with
          writeBuff := v
          respLength := h.respLength - read.outLength
          totalWriteLength := u64 (h.totalWriteLength + read.outLength) }) vIdle read.isFinished
        refine ⟨t, ?_, tIdle, ?_, released, ?_⟩
        · rw [if_pos last, run]
          rfl
        · rw [kept, List.flatMap_singleton]
          exact same
        · rw [result, List.any_cons, List.any_nil, Bool.or_false]
      · obtain ⟨t, run, tIdle, all, released, result⟩ := ih (h := { h with
          writeBuff := v
          respLength := h.respLength - read.outLength
          totalWriteLength := u64 (h.totalWriteLength + read.outLength) }) vIdle looping last
          (fun other member => obeys other (List.mem_cons_of_mem read member)) rest
        refine ⟨t, ?_, tIdle, ?_, released, ?_⟩
        · rw [if_neg last, Option.bind_some, run]
        · rw [all, same, List.flatMap_cons, List.append_assoc, ReadResult.data]
        · rw [result, List.any_cons, more last, Bool.false_or]

/-! ## One response -/

/-- A response which is sent whole, with a header block which a client takes for what it is. A
    response without a body has no length but 0. -/
structure Proper (maxHeadersLength : Nat) (a : Reply) : Prop where
  clock : Header.FourDigits a.head.currTime
  clean : a.head.Clean
  fits : a.head.Fits maxHeadersLength
  whole : a.Whole
  bodiless : Client.bodiless a.head.respCode.toNat → a.Known → a.head.respLength = 0

/-- The headers. -/
def fields (maxHeadersLength : Nat) (a : Reply) : List (List Byte × List Byte) :=
  match TimeUtils.gmTime a.head.currTime with
  | some tm => a.head.fields tm maxHeadersLength
  | none => []

/-- The header block and the body. -/
def wire (maxHeadersLength : Nat) (a : Reply) : List Byte :=
  match TimeUtils.gmTime a.head.currTime with
  | some tm => block cr lf (a.head.lines tm maxHeadersLength) ++ a.coded
  | none => []

/-- What a client should find. -/
def received (maxHeadersLength : Nat) (a : Reply) : Client.Received :=
  ⟨a.head.respCode.toNat, a.fields maxHeadersLength,
    if Client.bodiless a.head.respCode.toNat then [] else a.body⟩

theorem Whole.length (whole : a.Whole) (known : a.Known) :
    a.body.length = a.head.respLength.toNat := by
  rw [Whole, if_pos known] at whole
  exact whole.2.length whole.1

theorem Whole.codes (whole : a.Whole) : a.head.Codes a.coded a.body := by
  by_cases known : a.Known
  · have coded : a.coded = a.body := if_pos known
    have told : a.head.respLength ≠ 18446744073709551615 := known
    rw [ResponseHead.Codes, if_pos told]
    exact ⟨coded, whole.length known⟩
  · have untold : ¬a.head.respLength ≠ 18446744073709551615 := known
    rw [ResponseHead.Codes, if_neg untold]
    rw [Whole, if_neg known] at whole
    refine ⟨blocks a.reads, fun block inside => ?_, if_neg known, (blocks_flatten a.reads).symm⟩
    obtain ⟨member, some_⟩ := List.mem_filter.mp inside
    obtain ⟨read, there, rfl⟩ := List.mem_map.mp member
    have here := whole.1 read there
    have room : chunkRoom < 16 ^ 8 := by decide
    refine ⟨of_decide_eq_true some_, ?_⟩
    rw [here.data_length]
    exact Nat.lt_of_le_of_lt here.2 room

/-- A whole response comes behind what has been committed before, and all of it is written. -/
theorem respond_proper {maxHeadersLength : Nat} (range : maxHeadersLength + 255 < size32)
    (proper : a.Proper maxHeadersLength) {s : Session BuildConfig.writeBuffSize} (idle : s.Idle) :
    ∃ t, a.respond maxHeadersLength s = some t ∧ t.writeBuff.Idle ∧
      t.writeBuff.committed = s.committed ++ a.wire maxHeadersLength ∧
      t.writeBuff.released = t.writeBuff.committed ∧ t.result = some a.retVal := by
  obtain ⟨u, tm, made, sent, uIdle, header⟩ := a.head.send_fits idle range proper.clock proper.fits
  rw [ResponseHead.block_eq] at header
  have wire : a.wire maxHeadersLength =
      block cr lf (a.head.lines tm maxHeadersLength) ++ a.coded := by rw [Reply.wire, made]
  have whole := proper.whole
  rw [respond, sent, Option.bind_some, wire, ← List.append_assoc, ← header, retVal]
  by_cases known : a.Known
  · have coded : a.coded = a.reads.flatMap ReadResult.data := if_pos known
    rw [Whole, if_pos known] at whole
    obtain ⟨obeys, exactly⟩ := whole
    rw [if_pos known, if_pos known, coded]
    by_cases empty : a.head.respLength.toNat = 0
    · have none_ : a.reads = [] := by
        cases reads : a.reads with
        | nil => rfl
        | cons read rest =>
            rw [reads] at exactly
            exact absurd empty exactly.1
      obtain ⟨t, run, tIdle, kept, released, result, -⟩ := leave_some
        (h := ⟨u, a.head.respLength.toNat, 0, a.nextConn, none⟩) uIdle false
      refine ⟨t, ?_, tIdle, ?_, released, ?_⟩
      · rw [knownLength, if_pos empty, none_, run]
        rfl
      · rw [kept, none_, List.flatMap_nil, List.append_nil]
      · rw [result, none_, List.any_nil]
    · rw [knownLength, if_neg empty]
      exact exec_exactly (h := ⟨u, a.head.respLength.toNat, 0, a.nextConn, none⟩) uIdle rfl empty
        obeys exactly
  · have coded : a.coded = (blocks a.reads).flatMap ChunkedCoding.chunk ++
        ChunkedCoding.lastChunk := if_neg known
    rw [Whole, if_neg known] at whole
    obtain ⟨obeys, all, ends⟩ := whole
    obtain ⟨t, run, tIdle, result, released, committed⟩ := chunked_run
      (h := chunked u a.nextConn) uIdle rfl obeys ends
    rw [if_neg known, if_neg known, coded, ← List.append_assoc]
    rw [all] at run committed
    exact ⟨t, run, tIdle, committed, released, result⟩

/-! ## What the client reads -/

theorem Proper.lines {maxHeadersLength : Nat} (proper : a.Proper maxHeadersLength) :
    ∃ tm, Header.Proper tm ∧ a.fields maxHeadersLength = a.head.fields tm maxHeadersLength ∧
      a.wire maxHeadersLength = block cr lf (a.head.lines tm maxHeadersLength) ++ a.coded := by
  obtain ⟨tm, made, whole, -⟩ := Header.gmTime_proper proper.clock
  exact ⟨tm, whole, by rw [fields, made], by rw [wire, made]⟩

theorem Proper.wire_some {maxHeadersLength : Nat} (proper : a.Proper maxHeadersLength) :
    a.wire maxHeadersLength ≠ [] := by
  obtain ⟨tm, -, -, wire⟩ := proper.lines
  rw [wire]
  exact List.append_ne_nil_of_left_ne_nil (List.append_ne_nil_of_right_ne_nil _ (List.cons_ne_nil _ _)) _

/-- A response without a body ends with its header block. -/
def Ends (a : Reply) : Prop := Client.bodiless a.head.respCode.toNat → a.Known

/-- A response which ends where it should is read as it was made. -/
theorem Proper.read {maxHeadersLength : Nat} (proper : a.Proper maxHeadersLength) (ends : a.Ends)
    (rest : List Byte) : Client.readResponse (a.wire maxHeadersLength ++ rest) =
      some (a.received maxHeadersLength, rest) := by
  obtain ⟨tm, whole, fields, wire⟩ := proper.lines
  rw [received, fields, wire]
  cases bodiless : Client.bodiless a.head.respCode.toNat with
  | false => exact ResponseHead.readResponse_coded proper.clean whole _ bodiless proper.whole.codes rest
  | true =>
      have known := ends bodiless
      have length := proper.whole.length known
      rw [proper.bodiless bodiless known] at length
      have none_ : a.coded = [] := (if_pos known).trans (List.length_eq_zero_iff.mp length)
      rw [none_, List.append_nil, ResponseHead.readResponse_block proper.clean whole, bodiless]
      rfl

theorem Proper.read_spoiled {maxHeadersLength : Nat} (proper : a.Proper maxHeadersLength)
    (ends : ¬a.Ends) (rest : List Byte) : ∃ r, Client.readResponse (a.wire maxHeadersLength ++ rest) =
      some (r, a.coded ++ rest) ∧ a.coded ≠ [] ∧ Client.readResponse (a.coded ++ rest) = none := by
  obtain ⟨bodiless, unknown⟩ := Classical.not_imp.mp ends
  obtain ⟨tm, whole, -, wire⟩ := proper.lines
  refine ⟨⟨a.head.respCode.toNat, a.head.fields tm maxHeadersLength, []⟩, ?_, ?_, ?_⟩
  · rw [wire, List.append_assoc, ResponseHead.readResponse_block proper.clean whole, if_pos bodiless]
  · rw [coded, if_neg unknown]
    exact List.append_ne_nil_of_right_ne_nil _ (List.cons_ne_nil _ _)
  · exact ResponseHead.readResponse_chunks (not_not.mp unknown) proper.whole.codes rest

theorem readResponses_wire {maxHeadersLength : Nat} {answers : List Reply}
    (proper : ∀ a ∈ answers, a.Proper maxHeadersLength) (ends : ∀ a ∈ answers, a.Ends) :
    Client.readResponses (answers.flatMap (wire maxHeadersLength)) =
      some (answers.map (received maxHeadersLength)) :=
  readAll_parts (fun a member => (proper a member).wire_some)
    (fun a member => (proper a member).read (ends a member))
    (parts_length fun a member => (proper a member).wire_some)

theorem readAll_spoiled {maxHeadersLength : Nat} {answers : List Reply}
    (proper : ∀ a ∈ answers, a.Proper maxHeadersLength) (spoiled : ∃ a ∈ answers, ¬a.Ends) (n : Nat) :
    readAll Client.readResponse n (answers.flatMap (wire maxHeadersLength)) = none := by
  induction answers generalizing n with
  | nil => simp at spoiled
  | cons a answers ih =>
      have here := proper a List.mem_cons_self
      rw [List.flatMap_cons]
      have some_ : a.wire maxHeadersLength ++ answers.flatMap (wire maxHeadersLength) ≠ [] :=
        List.append_ne_nil_of_left_ne_nil here.wire_some _
      cases n with
      | zero => exact readAll_zero some_
      | succ n =>
          rw [readAll_succ some_]
          by_cases ends : a.Ends
          · have later : ∃ a ∈ answers, ¬a.Ends := by
              obtain ⟨other, member, bad⟩ := spoiled
              rcases List.mem_cons.mp member with rfl | member
              · exact absurd ends bad
              · exact ⟨other, member, bad⟩
            rw [here.read ends, Option.bind_some,
              ih (fun other member => proper other (List.mem_cons_of_mem a member)) later,
              Option.map_none]
          · obtain ⟨r, read, left, stuck⟩ := here.read_spoiled ends
              (answers.flatMap (wire maxHeadersLength))
            rw [read, Option.bind_some,
              readAll_stuck (List.append_ne_nil_of_left_ne_nil left _) stuck, Option.map_none]

end Reply

namespace Serving

open Reply

variable {s t : Serving} {answers : List Reply} {maxHeadersLength : Nat}

/-- Everything queued so far has been written. -/
structure Settled (s : Serving) : Prop where
  idle : s.writeBuff.Idle
  written : s.writeBuff.released = s.writeBuff.committed

/-- The responses up to the first which does not keep the connection. -/
def served {α : Type} (kept : α → Bool) : List α → List α
  | [] => []
  | a :: rest => if kept a then a :: served kept rest else [a]

theorem served_subset {α : Type} (kept : α → Bool) (all : List α) : served kept all ⊆ all := by
  induction all with
  | nil => exact List.Subset.refl _
  | cons a rest ih =>
      rw [served]
      split
      · exact List.cons_subset_cons a ih
      · exact List.cons_subset_cons a (List.nil_subset rest)

theorem served_map {α β : Type} (view : α → β) (kept : β → Bool) (all : List α) :
    served kept (all.map view) = (served (kept ∘ view) all).map view := by
  induction all with
  | nil => rfl
  | cons a rest ih =>
      rw [List.map_cons, served, served, ih]
      simp only [Function.comp_apply]
      split <;> rfl

theorem served_congr {α : Type} {kept kept' : α → Bool} {all : List α}
    (same : ∀ a ∈ all, kept a = kept' a) : served kept all = served kept' all := by
  induction all with
  | nil => rfl
  | cons a rest ih =>
      rw [served, served, same a List.mem_cons_self,
        ih fun other member => same other (List.mem_cons_of_mem a member)]

/-- What the client sees of the responses from here on. -/
def sent (s t : Serving) : List Byte :=
  t.writeBuff.committed.drop s.writeBuff.committed.length

theorem step_proper (range : maxHeadersLength + 255 < size32) {a : Reply}
    (proper : a.Proper maxHeadersLength) (settled : s.Settled) (isOpen : s.isOpen = true) :
    ∃ t, s.step maxHeadersLength a = some t ∧ t.Settled ∧ t.isOpen = a.kept ∧
      t.writeBuff.committed = s.writeBuff.committed ++ a.wire maxHeadersLength := by
  obtain ⟨h, run, idle, committed, released, result⟩ := respond_proper range proper settled.idle
  refine ⟨⟨h.writeBuff, a.retVal && a.isKeepAlive⟩, ?_, ⟨idle, released⟩, rfl, committed⟩
  rw [step, if_pos isOpen, run, Option.bind_some, result, Option.map_some]

theorem exec_served (range : maxHeadersLength + 255 < size32)
    (proper : ∀ a ∈ answers, a.Proper maxHeadersLength) (settled : s.Settled)
    (isOpen : s.isOpen = true) :
    ∃ t, exec (step maxHeadersLength) s (served kept answers) = some t ∧ t.Settled ∧
      t.isOpen = answers.all kept ∧ t.writeBuff.committed =
        s.writeBuff.committed ++ (served kept answers).flatMap (wire maxHeadersLength) := by
  induction answers generalizing s with
  | nil => exact ⟨s, rfl, settled, isOpen, (List.append_nil _).symm⟩
  | cons a answers ih =>
      obtain ⟨mid, taken, next, stays, committed⟩ :=
        step_proper range (proper a List.mem_cons_self) settled isOpen
      rw [served, List.all_cons]
      cases kept : a.kept with
      | false =>
          refine ⟨mid, ?_, next, by rw [stays, kept, Bool.false_and], ?_⟩
          · rw [if_neg Bool.false_ne_true, exec_cons, taken]
            rfl
          · rw [if_neg Bool.false_ne_true, List.flatMap_singleton]
            exact committed
      | true =>
          obtain ⟨t, run, last, open_, all⟩ := ih
            (fun other member => proper other (List.mem_cons_of_mem a member)) next (stays.trans kept)
          refine ⟨t, ?_, last, by rw [open_, Bool.true_and], ?_⟩
          · rw [if_pos rfl, exec_cons, taken]
            exact run
          · rw [all, committed, if_pos rfl, List.flatMap_cons, List.append_assoc]

/-- A client which reads what is sent finds every response, and nothing else, as long as no response
    without a body is sent in the chunked coding. -/
theorem read_iff (range : maxHeadersLength + 255 < size32)
    (proper : ∀ a ∈ answers, a.Proper maxHeadersLength) (settled : s.Settled)
    (isOpen : s.isOpen = true) :
    ∃ t, exec (step maxHeadersLength) s (served kept answers) = some t ∧ t.Settled ∧
      t.isOpen = answers.all kept ∧ t.writeBuff.committed = s.writeBuff.committed ++ sent s t ∧
      (Client.readResponses (sent s t) = some ((served kept answers).map (received maxHeadersLength)) ↔
        ∀ a ∈ served kept answers, a.Ends) := by
  obtain ⟨t, run, last, open_, all⟩ := exec_served range proper settled isOpen
  have bytes : sent s t = (served kept answers).flatMap (wire maxHeadersLength) := by
    rw [sent, all]
    exact List.drop_left' rfl
  have proper : ∀ a ∈ served kept answers, a.Proper maxHeadersLength :=
    fun a member => proper a (served_subset kept answers member)
  refine ⟨t, run, last, open_, by rw [bytes, all], ?_⟩
  rw [bytes]
  refine ⟨fun read a member => ?_, readResponses_wire proper⟩
  by_contra spoiled
  rw [Client.readResponses, readAll_spoiled proper ⟨a, member, spoiled⟩] at read
  cases read

/-- A page of two bytes. -/
def page : Reply where
  head :=
    { serverName := text "EHTTP"
      respCode := 200
      contentType := text "text/html"
      contentTypeCharset := none
      writeCORSHeaders := false
      currTime := 784111777
      respLength := 2
      extraHeaders := [] }
  reads := [twoBytes]
  nextConn := false
  isKeepAlive := true

/-- A response without a body, from a coroutine which leaves the length unknown. -/
def noContent : Reply :=
  { page with
    head := { page.head with respCode := 204, respLength := 18446744073709551615 }
    reads := [⟨List.replicate chunkRoom 0, 0, true⟩] }

theorem page_proper : page.Proper 4096 where
  clock := ResponseHead.redirection_clock 0
  clean := ⟨by decide +kernel, by decide +kernel, nofun, nofun, by decide⟩
  fits := by
    refine ⟨by decide +kernel, by decide +kernel, by decide +kernel, ?_, by decide +kernel⟩
    intro header member
    cases member
  whole := by
    rw [Whole, if_pos (by decide)]
    exact ⟨fun read member => List.mem_singleton.mp member ▸ twoBytes_obeys, by decide, by decide,
      fun _ => rfl, rfl⟩
  bodiless := by decide

theorem noContent_proper : noContent.Proper 4096 where
  clock := ResponseHead.redirection_clock 0
  clean := ⟨by decide +kernel, by decide +kernel, nofun, nofun, by decide⟩
  fits := by
    refine ⟨by decide +kernel, by decide +kernel, by decide +kernel, ?_, by decide +kernel⟩
    intro header member
    cases member
  whole := by
    rw [Whole, if_neg (by decide)]
    refine ⟨fun read member => ?_, rfl, _, List.mem_singleton_self _, Or.inl rfl⟩
    rw [List.mem_singleton.mp member]
    exact ⟨List.length_replicate, Nat.zero_le _⟩
  bodiless := fun _ known => absurd rfl known

/-- The responses behind one without content are lost. -/
theorem read_iff_no_content : ∃ t, exec (step 4096) ⟨emptyQueue, true⟩
      (served kept [noContent, page]) = some t ∧
    Client.readResponses (sent ⟨emptyQueue, true⟩ t) ≠
      some ((served kept [noContent, page]).map (received 4096)) := by
  have proper : ∀ a ∈ [noContent, page], a.Proper 4096 := by
    intro a member
    simp only [List.mem_cons, List.not_mem_nil, or_false] at member
    rcases member with rfl | rfl
    · exact noContent_proper
    · exact page_proper
  obtain ⟨t, run, -, -, -, read⟩ := read_iff (s := ⟨emptyQueue, true⟩) (by decide) proper
    ⟨emptyQueue_idle, rfl⟩ rfl
  refine ⟨t, run, fun all => ?_⟩
  have ends := read.mp all noContent List.mem_cons_self (by decide)
  exact ends rfl

end Serving

end MiniWebSrv.HTTP
