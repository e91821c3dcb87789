import MiniWebSrv.HTTP.Pages

/-! # Coroutine responses

`CoroResponse` makes a response which is read of a coroutine which writes: each `Read` lets the
coroutine run from one `Write` to the next. What comes to the client is what has been written, up to
the first `Write` of nothing or to the return. If the coroutine has set a length, that is the content
as well, but then the connection is never kept, since no `Read` reports the end with a byte.
-/

namespace MiniWebSrv.HTTP

open Word Run Responding RespSource

/-- A coroutine behind `Finalize`, as far as it goes with a block: what it leaves there, and the
    `Length` of the `Write` which suspends it, or `none` if it returns. -/
structure Coro (S : Type) where
  resume : S → List Byte → List Byte × Option (Nat × S)

/-- The fields of `SimpleResponse`, and `ResponseLength`. -/
structure ResponseParams where
  responseCode : UInt32
  contentType : List Byte
  headers : List ExtraHeader
  responseLength : UInt64

/-- What the constructors put there. -/
def ResponseParams.initial : ResponseParams := ⟨500, text "text/plain", [], 18446744073709551615⟩

structure CoroResponse (S : Type) extends ResponseParams where
  /-- `RespGen`, or `none` when the coroutine has returned. -/
  respGen : Option S

namespace Coro

variable {S : Type} (coro : Coro S)

/-- `CoroResponse::Read`. To resume a coroutine which has returned is undefined. -/
def read (undefined : List Byte → ReadResult) (respGen : Option S) (targetBuff : List Byte) :
    ReadResult × Option S :=
  match respGen with
  | none => (undefined targetBuff, none)
  | some s =>
      match (coro.resume s targetBuff).2 with
      | some (length, next) =>
          (⟨(coro.resume s targetBuff).1, length, decide (length = 0)⟩, some next)
      | none => (⟨(coro.resume s targetBuff).1, 0, true⟩, none)

/-- What the coroutine writes into the blocks which it gets. -/
def written : S → List (List Byte) → List (List Byte)
  | _, [] => []
  | s, buff :: buffs =>
      match (coro.resume s buff).2 with
      | some (length, next) =>
          if length = 0 then [] else (coro.resume s buff).1.take length :: written next buffs
      | none => []

/-- Whether it comes to an end with these blocks. -/
def Finishes : S → List (List Byte) → Prop
  | _, [] => False
  | s, buff :: buffs =>
      match (coro.resume s buff).2 with
      | some (length, next) => length = 0 ∨ Finishes next buffs
      | none => True

/-- It stays within the block, and writes no more than what is in there. -/
def Within (size : Nat) : Prop :=
  ∀ s buff, buff.length = size → (coro.resume s buff).1.length = size ∧
    ∀ suspended ∈ (coro.resume s buff).2, suspended.1 ≤ size

variable {coro} (undefined : List Byte → ReadResult) {size : Nat}

theorem read_isFinished (s : S) (buff : List Byte) :
    (coro.read undefined (some s) buff).1.isFinished =
      decide ((coro.read undefined (some s) buff).1.outLength = 0) := by
  cases resumed : (coro.resume s buff).2 <;> simp only [read, resumed, decide_true]

theorem last_iff (s : S) (buff : List Byte) : Last (coro.read undefined (some s) buff).1 ↔
    (coro.read undefined (some s) buff).1.isFinished = true := by
  rw [Last, read_isFinished, decide_eq_true_iff, or_self]

theorem read_obeys (within : coro.Within size) {s : S} {buff : List Byte}
    (length : buff.length = size) : (coro.read undefined (some s) buff).1.Obeys size := by
  obtain ⟨stored, room⟩ := within s buff length
  cases resumed : (coro.resume s buff).2 with
  | none =>
      simp only [read, resumed]
      exact ⟨stored, Nat.zero_le _⟩
  | some suspended =>
      simp only [read, resumed]
      exact ⟨stored, room suspended resumed⟩

theorem written_cons (s : S) (buff : List Byte) (buffs : List (List Byte)) :
    (Last (coro.read undefined (some s) buff).1 ∧ coro.written s (buff :: buffs) = [] ∧
      (coro.read undefined (some s) buff).1.data = []) ∨
    ∃ next, ¬Last (coro.read undefined (some s) buff).1 ∧
      (coro.read undefined (some s) buff).2 = some next ∧
      coro.written s (buff :: buffs) =
        (coro.read undefined (some s) buff).1.data :: coro.written next buffs ∧
      (coro.Finishes s (buff :: buffs) → coro.Finishes next buffs) := by
  cases resumed : (coro.resume s buff).2 with
  | none =>
      simp only [read, written, resumed]
      exact Or.inl ⟨Or.inl rfl, trivial, rfl⟩
  | some suspended =>
      obtain ⟨length, next⟩ := suspended
      simp only [read, written, Finishes, resumed]
      by_cases none_ : length = 0
      · rw [if_pos none_]
        exact Or.inl ⟨Or.inr none_, rfl, by rw [none_]; rfl⟩
      · rw [if_neg none_]
        refine Or.inr ⟨next, ?_, rfl, rfl, fun finishes => finishes.resolve_left none_⟩
        rw [Last]
        simpa using none_

/-- The loop for an unknown length reads what the coroutine writes. -/
theorem chunkedReads_written (within : coro.Within size) {s : S} {buffs : List (List Byte)}
    (sizes : ∀ buff ∈ buffs, buff.length = size) (finishes : coro.Finishes s buffs) :
    (∀ read_ ∈ chunkedReads (coro.read undefined) (some s) buffs, read_.Obeys size) ∧
      untilLast (chunkedReads (coro.read undefined) (some s) buffs) =
        chunkedReads (coro.read undefined) (some s) buffs ∧
      (∃ read_ ∈ chunkedReads (coro.read undefined) (some s) buffs, Last read_) ∧
      (chunkedReads (coro.read undefined) (some s) buffs).flatMap ReadResult.data =
        (coro.written s buffs).flatten := by
  induction buffs generalizing s with
  | nil => cases finishes
  | cons buff buffs ih =>
      have obeys := read_obeys undefined within (s := s) (sizes buff List.mem_cons_self)
      rw [chunkedReads]
      rcases written_cons undefined s buff buffs with
        ⟨last, none_, data⟩ | ⟨next, more, goesOn, writes, later⟩
      · rw [if_pos last, untilLast, if_pos last, none_, List.flatMap_singleton, data]
        exact ⟨fun read_ member => List.mem_singleton.mp member ▸ obeys, rfl,
          ⟨_, List.mem_singleton_self _, last⟩, rfl⟩
      · obtain ⟨all, until_, ⟨read_, member, last⟩, whole⟩ := ih
          (fun other member => sizes other (List.mem_cons_of_mem buff member)) (later finishes)
        rw [if_neg more, untilLast, if_neg more, goesOn, until_, writes, List.flatMap_cons, whole]
        exact ⟨List.forall_mem_cons.mpr ⟨obeys, all⟩, rfl,
          ⟨read_, List.mem_cons_of_mem _ member, last⟩, rfl⟩

/-- The loop for a known length reads what the coroutine writes, and no end behind it. -/
theorem knownReads_written (within : coro.Within size) {s : S} {buffs : List (List Byte)}
    (sizes : ∀ buff ∈ buffs, buff.length = size) {left : Nat}
    (length : (coro.written s buffs).flatten.length = left) :
    (∀ read_ ∈ knownReads (coro.read undefined) left (some s) buffs, read_.Obeys size) ∧
      Reply.Exactly left (knownReads (coro.read undefined) left (some s) buffs) ∧
      (knownReads (coro.read undefined) left (some s) buffs).flatMap ReadResult.data =
        (coro.written s buffs).flatten ∧
      (knownReads (coro.read undefined) left (some s) buffs).any (·.isFinished) = false := by
  induction buffs generalizing s left with
  | nil =>
      obtain rfl : left = 0 := length.symm
      exact ⟨List.forall_mem_nil _, rfl, rfl, rfl⟩
  | cons buff buffs ih =>
      have obeys := read_obeys undefined within (s := s) (sizes buff List.mem_cons_self)
      rcases written_cons undefined s buff buffs with
        ⟨last, none_, data⟩ | ⟨next, more, goesOn, writes, later⟩
      · obtain rfl : left = 0 := by rw [← length, none_]; rfl
        rw [knownReads, if_pos rfl, none_]
        exact ⟨List.forall_mem_nil _, rfl, rfl, rfl⟩
      · have count := obeys.data_length
        have finished : (coro.read undefined (some s) buff).1.isFinished = false :=
          Bool.eq_false_of_not_eq_true fun ended => more (Or.inl ended)
        have some_ : (coro.read undefined (some s) buff).1.outLength ≠ 0 := fun none_ =>
          more (Or.inr none_)
        rw [writes, List.flatten_cons, List.length_append, count] at length
        have rest : (coro.written next buffs).flatten.length =
            left - (coro.read undefined (some s) buff).1.outLength := by omega
        obtain ⟨all, exactly, whole, ends⟩ := ih
          (fun other member => sizes other (List.mem_cons_of_mem buff member)) rest
        rw [knownReads, if_neg (by omega), finished, if_neg Bool.false_ne_true, goesOn, writes,
          List.flatMap_cons, whole, List.any_cons, ends, finished]
        refine ⟨List.forall_mem_cons.mpr ⟨obeys, all⟩, ⟨by omega, by omega, ?_, exactly⟩, rfl, rfl⟩
        intro ended
        cases finished.symm.trans ended

end Coro

namespace CoroResponse

variable {S : Type} (coro : Coro S) (undefined : List Byte → ReadResult)

def Known (r : CoroResponse S) : Prop := r.responseLength ≠ 18446744073709551615

instance (r : CoroResponse S) : Decidable r.Known := inferInstanceAs (Decidable (_ ≠ _))

/-- The header block. There is no character set in it. -/
def head (r : CoroResponse S) (h : Heading) : ResponseHead where
  serverName := h.serverName
  respCode := r.responseCode
  contentType := r.contentType
  contentTypeCharset := none
  writeCORSHeaders := h.writeCORSHeaders
  currTime := h.currTime
  respLength := r.responseLength
  extraHeaders := r.headers.map some

/-- What `ResponseHandler` reads of it into these blocks. -/
def answer (r : CoroResponse S) (h : Heading) (buffs : List (List Byte)) (isKeepAlive : Bool) :
    Reply where
  head := r.head h
  reads :=
    if r.Known then knownReads (coro.read undefined) r.responseLength.toNat r.respGen buffs
    else chunkedReads (coro.read undefined) r.respGen buffs
  nextConn := false
  isKeepAlive := isKeepAlive

/-- The room in a block. -/
def blockSize (r : CoroResponse S) : Nat :=
  if r.Known then BuildConfig.writeBuffSize else chunkRoom

def textLength (r : CoroResponse S) : Nat :=
  r.contentType.length + (r.headers.map ExtraHeader.lineLength).sum

/-- A response of which the coroutine writes this content, in blocks which are enough for it, and comes
    to an end or to the length which it has set. Its headers are taken for what they are. -/
structure Proper (r : CoroResponse S) (s : S) (buffs : List (List Byte)) (content : List Byte) :
    Prop where
  finalized : r.respGen = some s
  sizes : ∀ buff ∈ buffs, buff.length = r.blockSize
  within : coro.Within r.blockSize
  writes : (coro.written s buffs).flatten = content
  ends : if r.Known then content.length = r.responseLength.toNat else coro.Finishes s buffs
  responseCode : r.responseCode.toNat < 1000
  contentType : cr ∉ r.contentType
  headers : ∀ h ∈ r.headers, h.Clean
  bodiless : Client.bodiless r.responseCode.toNat → r.Known ∧ content = []

variable {coro} {r : CoroResponse S} {s : S} {buffs : List (List Byte)} {content : List Byte}
  {h : Heading} {maxHeadersLength : Nat}

theorem reduceOption_head (r : CoroResponse S) (h : Heading) :
    (r.head h).extraHeaders.reduceOption = r.headers := by
  rw [head, List.reduceOption, List.filterMap_map]
  exact List.filterMap_some

theorem head_textLength (r : CoroResponse S) (h : Heading) :
    (r.head h).textLength = r.textLength + h.serverName.length := by
  rw [ResponseHead.textLength, reduceOption_head, textLength]
  dsimp only [head]
  rw [Option.getD_none, List.length_nil]
  omega

/-- The loop reads all that is written. -/
theorem Proper.whole (proper : r.Proper coro s buffs content) (h : Heading) (isKeepAlive : Bool) :
    (r.answer coro undefined h buffs isKeepAlive).Whole ∧
      (r.answer coro undefined h buffs isKeepAlive).body = content ∧
      (r.answer coro undefined h buffs isKeepAlive).kept = (!decide r.Known && isKeepAlive) := by
  obtain ⟨start, sizes, within, rfl, ends, -, -, -, -⟩ := proper
  have known_ : (r.answer coro undefined h buffs isKeepAlive).Known ↔ r.Known := Iff.rfl
  rw [Reply.Whole, Reply.body, Reply.kept, Reply.retVal]
  by_cases known : r.Known
  · have size : r.blockSize = BuildConfig.writeBuffSize := if_pos known
    rw [if_pos known] at ends
    obtain ⟨obeys, exactly, whole, unfinished⟩ :=
      Coro.knownReads_written undefined within sizes ends
    have reads : (r.answer coro undefined h buffs isKeepAlive).reads =
        knownReads (coro.read undefined) r.responseLength.toNat (some s) buffs := by
      rw [answer, if_pos known, start]
    rw [if_pos (known_.mpr known), if_pos (known_.mpr known), reads, unfinished, decide_eq_true known]
    exact ⟨⟨size ▸ obeys, exactly⟩, whole, rfl⟩
  · have size : r.blockSize = chunkRoom := if_neg known
    rw [if_neg known] at ends
    obtain ⟨obeys, until_, last, whole⟩ :=
      Coro.chunkedReads_written undefined within sizes ends
    have reads : (r.answer coro undefined h buffs isKeepAlive).reads =
        chunkedReads (coro.read undefined) (some s) buffs := by
      rw [answer, if_neg known, start]
    rw [if_neg (known_.not.mpr known), if_neg (known_.not.mpr known), reads, decide_eq_false known]
    exact ⟨⟨size ▸ obeys, until_, last⟩, whole, rfl⟩

theorem Proper.answer (proper : r.Proper coro s buffs content) (heading : h.Sound)
    (small : maxHeadersLength ≤ 2147483647)
    (room : r.textLength + h.serverName.length + 200 ≤ maxHeadersLength) (isKeepAlive : Bool) :
    (r.answer coro undefined h buffs isKeepAlive).Proper maxHeadersLength ∧
      (r.answer coro undefined h buffs isKeepAlive).Ends := by
  obtain ⟨whole, body, -⟩ := proper.whole undefined h isKeepAlive
  have fits : (r.head h).Fits maxHeadersLength :=
    ResponseHead.fits_of_room proper.responseCode small (head_textLength r h ▸ room)
  have clean : (r.head h).Clean := ⟨heading.serverName, proper.contentType, nofun,
    fun g member => proper.headers g (reduceOption_head r h ▸ member),
    Nat.lt_trans proper.responseCode (by decide)⟩
  refine ⟨⟨heading.clock, clean, fits, whole, fun bodiless known => ?_⟩,
    fun bodiless => (proper.bodiless bodiless).1⟩
  have length := whole.length known
  rw [body, (proper.bodiless bodiless).2] at length
  exact UInt64.toNat_inj.mp length.symm

/-! ## The end of the connection -/

/-- Not at the end of a response which keeps the connection, and not behind the last byte. -/
structure Ending (h : Responding) : Prop where
  result : h.result ≠ some true
  left : h.result = none → h.respLength ≠ 0

theorem leave_ending {h t : Responding} (left : h.leave false = some t) : Ending t := by
  obtain ⟨w, -, rfl⟩ := Option.map_eq_some_iff.mp left
  exact ⟨by simp only [Bool.false_and, ne_eq, Option.some.injEq, Bool.false_eq_true,
    not_false_eq_true], nofun⟩

theorem knownLengthStep_ending {h t : Responding} {read : ReadResult} (ending : Ending h)
    (silent : read.isFinished → read.outLength = 0) (step : h.knownLengthStep read = some t) :
    Ending t := by
  unfold knownLengthStep at step
  split at step
  · cases step
  · rename_i looping
    have some_ := ending.left looping
    obtain ⟨w, -, step⟩ := Option.bind_eq_some_iff.mp step
    obtain ⟨v, -, step⟩ := Option.bind_eq_some_iff.mp step
    dsimp only at step
    generalize left : (if read.outLength ≤ h.respLength then h.respLength - read.outLength else 0) =
      respLength at step
    split at step
    · rename_i last
      rw [silent last.1, if_pos (Nat.zero_le _), Nat.sub_zero] at left
      exact absurd (left.trans last.2) some_
    · split at step
      · exact leave_ending step
      · rename_i more
        obtain rfl := Option.some.inj step
        refine ⟨fun done => ?_, fun _ empty => more (Or.inr empty)⟩
        cases looping.symm.trans done

theorem exec_ending {h t : Responding} {reads : List ReadResult} (ending : Ending h)
    (silent : ∀ read ∈ reads, read.isFinished → read.outLength = 0)
    (run : exec knownLengthStep h reads = some t) : Ending t := by
  induction reads generalizing h with
  | nil => exact Option.some.inj run ▸ ending
  | cons read reads ih =>
      obtain ⟨mid, step, run⟩ := exec_cons_some.mp run
      exact ih (knownLengthStep_ending ending (silent read List.mem_cons_self) step)
        (fun other member => silent other (List.mem_cons_of_mem read member)) run

theorem knownReads_silent (left : Nat) (s : S) (buffs : List (List Byte)) :
    ∀ read ∈ knownReads (coro.read undefined) left (some s) buffs,
      read.isFinished → read.outLength = 0 := by
  induction buffs generalizing s left with
  | nil => exact List.forall_mem_nil _
  | cons buff buffs ih =>
      have here : (coro.read undefined (some s) buff).1.isFinished = _ :=
        Coro.read_isFinished undefined s buff
      rw [knownReads]
      split
      · exact List.forall_mem_nil _
      · refine List.forall_mem_cons.mpr ⟨fun ended => ?_, ?_⟩
        · rw [here] at ended
          exact of_decide_eq_true ended
        · split
          · exact List.forall_mem_nil _
          · rename_i more
            rcases coro.written_cons undefined s buff buffs with ⟨last, -⟩ | ⟨next, -, goesOn, -⟩
            · exact absurd ((Coro.last_iff undefined s buff).mp last) more
            · rw [goesOn]
              exact ih _ next

/-- A coroutine which sets a length ends the connection, whatever it does then. -/
theorem known_closes (known : r.Known) (finalized : r.respGen = some s) {isKeepAlive : Bool}
    {u t : Serving}
    (step : u.step maxHeadersLength (r.answer coro undefined h buffs isKeepAlive) = some t) :
    t.isOpen = false := by
  unfold Serving.step at step
  split at step
  · obtain ⟨done, responded, step⟩ := Option.bind_eq_some_iff.mp step
    obtain ⟨retVal, result, rfl⟩ := Option.map_eq_some_iff.mp step
    obtain ⟨sent, -, responded⟩ := Option.bind_eq_some_iff.mp responded
    rw [if_pos (show (r.answer coro undefined h buffs isKeepAlive).Known from known)] at responded
    obtain ⟨start, entered, run⟩ := Option.bind_eq_some_iff.mp responded
    have first : Ending start := by
      unfold knownLength at entered
      split at entered
      · exact leave_ending entered
      · rename_i some_
        obtain rfl := Option.some.inj entered
        exact ⟨nofun, fun _ => some_⟩
    have reads : (r.answer coro undefined h buffs isKeepAlive).reads =
        knownReads (coro.read undefined) r.responseLength.toNat (some s) buffs := by
      rw [answer, if_pos known, finalized]
    rw [reads] at run
    have last := exec_ending first (knownReads_silent undefined _ s buffs) run
    cases retVal with
    | false => rfl
    | true => exact absurd result last.result
  · cases step

/-! ## What the client reads -/

/-- What a client should read of a coroutine response. -/
structure ReadAs (r : CoroResponse S) (h : Heading) (content : List Byte) (a : Client.Received) :
    Prop where
  code : a.code = r.responseCode.toNat
  contentType : Client.lookup (text "content-type") a.fields = some (Header.cString r.contentType)
  length : Client.lookup (text "content-length") a.fields =
    if r.Known then some (decimalDigits r.responseLength.toNat) else none
  coding : Client.lookup (text "transfer-encoding") a.fields =
    if r.Known then none else some (text "chunked")
  body : a.body = content
  fields : ∀ name ∉ ResponseHead.frontNames ++ [text "content-length", text "transfer-encoding"],
    Client.lookup name a.fields = Client.lookup name (r.headers.map ExtraHeader.field)

/-- What a coroutine writes comes to the client, whatever has been in the blocks. The connection is
    kept only if the coroutine has left the length unknown. -/
theorem written_arrives (proper : r.Proper coro s buffs content) (heading : h.Sound)
    (small : maxHeadersLength ≤ 2147483647)
    (room : r.textLength + h.serverName.length + 200 ≤ maxHeadersLength) {u : Serving}
    (settled : u.Settled) (isOpen : u.isOpen = true) (isKeepAlive : Bool) :
    ∃ t wire a, u.step maxHeadersLength (r.answer coro undefined h buffs isKeepAlive) = some t ∧
      t.Settled ∧ t.isOpen = (!decide r.Known && isKeepAlive) ∧
      t.writeBuff.committed = u.writeBuff.committed ++ wire ∧ wire ≠ [] ∧
      (∀ rest, Client.readResponse (wire ++ rest) = some (a, rest)) ∧ r.ReadAs h content a := by
  obtain ⟨-, body, kept⟩ := proper.whole undefined h isKeepAlive
  obtain ⟨answer, ends⟩ := proper.answer undefined heading small room isKeepAlive
  obtain ⟨t, step, next, stays, committed⟩ :=
    Serving.step_proper (ResponseHead.range_of_small small) answer settled isOpen
  obtain ⟨tm, -, fields, -⟩ := answer.lines
  have all := ResponseHead.keptHeaders_of_room (r := r.head h) proper.responseCode small
    (head_textLength r h ▸ room)
  refine ⟨t, _, _, step, next, stays.trans kept, committed, answer.wire_some, answer.read ends,
    rfl, ?_, ?_, ?_, ?_, fun name other => ?_⟩
  · rw [Reply.received, fields]
    exact ResponseHead.lookup_contentType (r.head h) tm maxHeadersLength
  · rw [Reply.received, fields]
    exact ResponseHead.lookup_contentLength answer.clean tm maxHeadersLength
  · rw [Reply.received, fields]
    exact ResponseHead.lookup_transferEncoding answer.clean tm maxHeadersLength
  · rw [Reply.received, body]
    split
    · rename_i bodiless
      exact (proper.bodiless bodiless).2.symm
    · rfl
  · rw [Reply.received, fields]
    have looked := ResponseHead.lookup_fields other (r.head h) tm maxHeadersLength
    rw [all, reduceOption_head] at looked
    exact looked

/-- Six bytes in two writes, with a length of six. -/
def threeByThree : Coro Nat where
  resume n buff :=
    if n < 2 then (storeAt 0 (((text "abcdef").drop (3 * n)).take 3) buff, some (3, n + 1))
    else (buff, none)

def sixBytes : CoroResponse Nat where
  toResponseParams := { ResponseParams.initial with responseCode := 200, responseLength := 6 }
  respGen := some 0

theorem threeByThree_within {size : Nat} (room : 3 ≤ size) : threeByThree.Within size := by
  rintro n buff rfl
  by_cases more : n < 2
  · have piece : (((text "abcdef").drop (3 * n)).take 3).length ≤ 3 := List.length_take_le _ _
    simp only [threeByThree, if_pos more]
    refine ⟨storeAt_length (by omega), ?_⟩
    rintro _ ⟨⟩
    exact room
  · simp only [threeByThree, if_neg more]
    exact ⟨trivial, fun _ => nofun⟩

theorem sixBytes_proper : sixBytes.Proper threeByThree 0
    (List.replicate 2 (List.replicate BuildConfig.writeBuffSize 7)) (text "abcdef") where
  finalized := rfl
  sizes buff member := by
    rw [List.eq_of_mem_replicate member]
    exact List.length_replicate
  within := threeByThree_within (by decide)
  writes := by decide +kernel
  ends := rfl
  responseCode := by decide
  contentType := by decide
  headers _ := nofun
  bodiless := by decide

theorem sampleHeading_sound : Heading.Sound ⟨text "EHTTP", false, 784111777⟩ :=
  ⟨by decide +kernel, ResponseHead.redirection_clock 0⟩

theorem known_closes_six : ∃ t, Serving.step 4096 ⟨emptyQueue, true⟩
      (sixBytes.answer threeByThree (fun buff => ⟨buff, 0, true⟩) ⟨text "EHTTP", false, 784111777⟩
        (List.replicate 2 (List.replicate BuildConfig.writeBuffSize 7)) true) = some t ∧
    t.isOpen = false := by
  have small : 4096 ≤ 2147483647 := by decide
  obtain ⟨answer, -⟩ := sixBytes_proper.answer (fun buff => ⟨buff, 0, true⟩) sampleHeading_sound
    small (by decide +kernel) true
  obtain ⟨t, step, -⟩ := Serving.step_proper (s := ⟨emptyQueue, true⟩) (by decide) answer
    ⟨emptyQueue_idle, rfl⟩ rfl
  exact ⟨t, step, known_closes _ (by decide) rfl step⟩

theorem written_arrives_six : ∃ t wire a, Serving.step 4096 ⟨emptyQueue, true⟩
      (sixBytes.answer threeByThree (fun buff => ⟨buff, 0, true⟩) ⟨text "EHTTP", false, 784111777⟩
        (List.replicate 2 (List.replicate BuildConfig.writeBuffSize 7)) true) = some t ∧
    t.isOpen = false ∧ Client.readResponse wire = some (a, []) ∧ a.body = text "abcdef" := by
  have small : 4096 ≤ 2147483647 := by decide
  obtain ⟨t, wire, a, step, -, stays, -, -, read, readAs⟩ := written_arrives
    (u := ⟨emptyQueue, true⟩) (fun buff => ⟨buff, 0, true⟩) sixBytes_proper sampleHeading_sound small
    (by decide +kernel) ⟨emptyQueue_idle, rfl⟩ rfl true
  exact ⟨t, wire, a, step, stays, List.append_nil wire ▸ read [], readAs.body⟩

end CoroResponse

end MiniWebSrv.HTTP
