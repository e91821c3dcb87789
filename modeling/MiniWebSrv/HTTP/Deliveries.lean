import MiniWebSrv.HTTP.Exchanges
import MiniWebSrv.HTTP.ZipStreaming

/-! # What is delivered

The loops of `ResponseHandler` read a response into the blocks which they have allocated. The
built-in responses are readers of a content which they put out block by block, whatever has been in
the blocks before, and report the end with the last byte of it; so what comes to the client is that
content.
-/

namespace MiniWebSrv.HTTP

open Word Run Responding RespSource

/-! ## Readers -/

section Readers

variable {S : Type} (read : S → List Byte → ReadResult × S)

/-- The reads of the loop for a known length, with the blocks which it allocates. -/
def knownReads : Nat → S → List (List Byte) → List ReadResult
  | _, _, [] => []
  | left, s, buff :: buffs =>
      if left = 0 then
        []
      else
        (read s buff).1 ::
          if (read s buff).1.isFinished then []
          else knownReads (left - (read s buff).1.outLength) (read s buff).2 buffs

/-- The reads of the loop for an unknown length. -/
def chunkedReads : S → List (List Byte) → List ReadResult
  | _, [] => []
  | s, buff :: buffs =>
      (read s buff).1 :: if Last (read s buff).1 then [] else chunkedReads (read s buff).2 buffs

/-- A call fills the block with the next bytes of the content, and tells its end. -/
structure Gives (holds : S → List Byte → Prop) (s : S) (content buff : List Byte) : Prop where
  stored : (read s buff).1.targetBuff.length = buff.length
  count : (read s buff).1.outLength = min buff.length content.length
  data : (read s buff).1.data = content.take buff.length
  finished : (read s buff).1.isFinished = decide (content.length ≤ buff.length)
  kept : buff.length < content.length → holds (read s buff).2 (content.drop buff.length)

/-- Every call with a block of this size does, as long as there is something left. -/
def Delivers (size : Nat) (holds : S → List Byte → Prop) : Prop :=
  ∀ s content buff, holds s content → content ≠ [] → buff.length = size →
    Gives read holds s content buff

variable {read} {size : Nat} {holds : S → List Byte → Prop}

theorem knownReads_delivers (delivers : Delivers read size holds) {s : S} {content : List Byte}
    (holds_ : content ≠ [] → holds s content) {buffs : List (List Byte)}
    (sizes : ∀ buff ∈ buffs, buff.length = size) (room : content.length ≤ size * buffs.length) :
    (∀ read_ ∈ knownReads read content.length s buffs, read_.Obeys size) ∧
      Reply.Exactly content.length (knownReads read content.length s buffs) ∧
      (knownReads read content.length s buffs).flatMap ReadResult.data = content ∧
      (knownReads read content.length s buffs).any (·.isFinished) = decide (content ≠ []) := by
  induction buffs generalizing s content with
  | nil =>
      obtain rfl : content = [] := List.length_eq_zero_iff.mp (Nat.le_zero.mp room)
      exact ⟨fun _ => nofun, rfl, rfl, rfl⟩
  | cons buff buffs ih =>
      by_cases empty : content = []
      · subst empty
        exact ⟨fun _ => nofun, rfl, rfl, rfl⟩
      · have length : content.length ≠ 0 := fun zero => empty (List.length_eq_zero_iff.mp zero)
        have here := sizes buff List.mem_cons_self
        obtain ⟨stored, count, data, finished, kept⟩ := delivers s content buff (holds_ empty) empty here
        have obeys : (read s buff).1.Obeys size := ⟨stored.trans here, by rw [count]; omega⟩
        rw [knownReads, if_neg length, finished, count]
        by_cases last : content.length ≤ buff.length
        · rw [decide_eq_true last, if_pos rfl]
          refine ⟨fun read_ member => List.mem_singleton.mp member ▸ obeys, ?_, ?_, ?_⟩
          · exact ⟨length, by rw [count]; omega, fun _ => by rw [count]; omega, by
              rw [count, Reply.Exactly]
              omega⟩
          · rw [List.flatMap_singleton, data, List.take_of_length_le last]
          · rw [List.any_cons, finished, decide_eq_true last, decide_eq_true empty]
            rfl
        · have more := Nat.lt_of_not_le last
          have dropped : (content.drop buff.length).length = content.length - min buff.length content.length := by
            rw [List.length_drop]
            omega
          have some_ : content.drop buff.length ≠ [] := by
            intro none_
            rw [none_, List.length_nil] at dropped
            omega
          obtain ⟨all, exactly, whole, ends⟩ := ih (fun _ => kept more)
            (fun other member => sizes other (List.mem_cons_of_mem buff member)) (by
              rw [dropped]
              rw [List.length_cons, Nat.mul_succ] at room
              omega)
          rw [dropped] at all exactly whole ends
          rw [decide_eq_false last, if_neg Bool.false_ne_true]
          refine ⟨?_, ?_, ?_, ?_⟩
          · intro read_ member
            rcases List.mem_cons.mp member with rfl | member
            · exact obeys
            · exact all read_ member
          · refine ⟨length, by rw [count]; omega, fun ended => ?_, by rw [count]; exact exactly⟩
            rw [finished, decide_eq_false last] at ended
            cases ended
          · rw [List.flatMap_cons, whole, data, List.take_append_drop]
          · rw [List.any_cons, ends, finished, decide_eq_false last, decide_eq_true some_,
              decide_eq_true empty]
            rfl

theorem chunkedReads_delivers (delivers : Delivers read size holds) (pos : 0 < size) {s : S}
    {content : List Byte} (holds_ : holds s content) (some_ : content ≠ []) {buffs : List (List Byte)}
    (sizes : ∀ buff ∈ buffs, buff.length = size) (room : content.length ≤ size * buffs.length) :
    (∀ read_ ∈ chunkedReads read s buffs, read_.Obeys size) ∧
      untilLast (chunkedReads read s buffs) = chunkedReads read s buffs ∧
      (∃ read_ ∈ chunkedReads read s buffs, Last read_) ∧
      (chunkedReads read s buffs).flatMap ReadResult.data = content := by
  induction buffs generalizing s content with
  | nil => exact absurd (List.length_eq_zero_iff.mp (Nat.le_zero.mp room)) some_
  | cons buff buffs ih =>
      have length := List.length_pos_iff.mpr some_
      have here := sizes buff List.mem_cons_self
      obtain ⟨stored, count, data, finished, kept⟩ := delivers s content buff holds_ some_ here
      have obeys : (read s buff).1.Obeys size := ⟨stored.trans here, by rw [count]; omega⟩
      have ends : Last (read s buff).1 ↔ content.length ≤ buff.length := by
        rw [Last, finished, count, decide_eq_true_iff]
        omega
      rw [chunkedReads]
      by_cases last : content.length ≤ buff.length
      · rw [if_pos (ends.mpr last), untilLast, if_pos (ends.mpr last)]
        refine ⟨fun read_ member => List.mem_singleton.mp member ▸ obeys, rfl,
          ⟨_, List.mem_singleton_self _, ends.mpr last⟩, ?_⟩
        rw [List.flatMap_singleton, data, List.take_of_length_le last]
      · have more := Nat.lt_of_not_le last
        have dropped := List.length_drop (l := content) (i := buff.length)
        have left : content.drop buff.length ≠ [] := by
          intro none_
          rw [none_, List.length_nil] at dropped
          omega
        obtain ⟨all, until_, ⟨read_, member, isLast⟩, whole⟩ := ih (kept more) left
          (fun other member => sizes other (List.mem_cons_of_mem buff member)) (by
            rw [dropped]
            rw [List.length_cons, Nat.mul_succ] at room
            omega)
        rw [if_neg (fun isLast => last (ends.mp isLast)), untilLast,
          if_neg (fun isLast => last (ends.mp isLast)), until_]
        refine ⟨?_, rfl, ⟨read_, List.mem_cons_of_mem _ member, isLast⟩, ?_⟩
        · intro other inside
          rcases List.mem_cons.mp inside with rfl | inside
          · exact obeys
          · exact all other inside
        · rw [List.flatMap_cons, whole, data, List.take_append_drop]

end Readers

/-! ## The built-in responses -/

namespace RespSource

theorem InStream.read_enough {s : InStream} {content : List Byte} (working : s.fail = false)
    (there : content <+: s.rest) {n : Nat} (inside : n ≤ content.length) :
    (s.read n).1 = content.take n ∧ (s.read n).2.fail = false ∧
      content.drop n <+: (s.read n).2.rest := by
  obtain ⟨behind, whole⟩ := there
  have enough : ¬s.rest.length < n := by
    rw [← whole, List.length_append]
    omega
  simp only [InStream.read, working, Bool.false_eq_true, if_false, decide_eq_false enough]
  refine ⟨?_, trivial, behind, ?_⟩
  · rw [← whole, List.take_append_of_le_length inside]
  · rw [← whole, List.drop_append_of_le_length inside]

theorem data_stored (content buff : List Byte) (isFinished : Bool) :
    (ReadResult.mk (storeAt 0 (content.take (min buff.length content.length)) buff)
      (min buff.length content.length) isFinished).data = content.take buff.length := by
  have length : (content.take (min buff.length content.length)).length =
      min buff.length content.length := List.length_take_of_le (Nat.min_le_right _ _)
  rw [ReadResult.data, storeAt_take _ _ (Nat.le_of_eq length.symm), List.take_take, Nat.min_self,
    ← List.take_eq_take_min]

theorem stored_length (content buff : List Byte) :
    (storeAt 0 (content.take (min buff.length content.length)) buff).length = buff.length := by
  refine storeAt_length ?_
  rw [List.length_take]
  omega

namespace FSResponse

/-- An open file with this content left of it, and perhaps with more behind that. -/
structure Holds (r : FSResponse) (content : List Byte) : Prop where
  opened : r.fileSize < notModifiedSize
  left : r.filePos + content.length = r.fileSize
  working : r.inS.fail = false
  there : content <+: r.inS.rest

theorem delivers {size : Nat} (range : size < size32) :
    Delivers (fun r buff => FSResponse.read r buff buff.length) size Holds := by
  rintro r content buff ⟨opened, left, working, there⟩ some_ rfl
  have length := List.length_pos_iff.mpr some_
  have differs : r.fileSize ≠ notModifiedSize := Nat.ne_of_lt opened
  rw [notModifiedSize] at opened
  have rem : u64 (r.fileSize + 18446744073709551616 - r.filePos) = content.length := by
    simp only [u64]
    omega
  have asked : (if content.length < buff.length then u32 content.length else buff.length) =
      min buff.length content.length := by
    simp only [u32, size32] at range ⊢
    split <;> omega
  have next : u64 (r.filePos + min buff.length content.length) =
      r.filePos + min buff.length content.length := by
    simp only [u64]
    omega
  obtain ⟨stored, still, behind⟩ := InStream.read_enough working there
    (Nat.min_le_right buff.length content.length)
  have got : r.read buff buff.length =
      (⟨storeAt 0 (content.take (min buff.length content.length)) buff,
          min buff.length content.length, decide (content.length ≤ buff.length)⟩,
        { r with
          filePos := r.filePos + min buff.length content.length
          inS := (r.inS.read (min buff.length content.length)).2 }) := by
    have ends : r.filePos + min buff.length content.length = r.fileSize ↔
        content.length ≤ buff.length := by omega
    simp only [read, if_pos differs, rem, asked, next, stored, still, Bool.false_eq_true, or_false,
      ends]
  refine ⟨?_, ?_, ?_, ?_, ?_⟩
  · rw [got, stored_length]
  · rw [got]
  · rw [got, data_stored]
  · rw [got]
  · intro more
    rw [Nat.min_eq_left (Nat.le_of_lt more)] at got still behind
    rw [got]
    refine ⟨opened, ?_, still, behind⟩
    rw [List.length_drop]
    dsimp only
    omega

end FSResponse

theorem StringResponse.delivers {size : Nat} (range : size < size32) :
    Delivers (fun r buff => StringResponse.read r buff buff.length) size
      fun r content => r.rest = content := by
  rintro ⟨content⟩ _ buff rfl some_ rfl
  have length := List.length_pos_iff.mpr some_
  have read : u32 (min buff.length content.length) = min buff.length content.length :=
    u32_of_lt (by omega)
  have ends : content.drop (min buff.length content.length) = [] ↔ content.length ≤ buff.length := by
    rw [List.drop_eq_nil_iff]
    omega
  have got : StringResponse.read ⟨content⟩ buff buff.length =
      (⟨storeAt 0 (content.take (min buff.length content.length)) buff,
          min buff.length content.length, decide (content.length ≤ buff.length)⟩,
        ⟨content.drop (min buff.length content.length)⟩) := by
    simp only [StringResponse.read, read, ends]
  refine ⟨?_, ?_, ?_, ?_, ?_⟩
  · rw [got, stored_length]
  · rw [got]
  · rw [got, data_stored]
  · rw [got]
  · intro more
    rw [got, Nat.min_eq_left (Nat.le_of_lt more)]

/-- A page is printed in one piece if its terminator has room behind it. -/
theorem CommonErrorResponse.delivers {size : Nat} (range : size ≤ 2147483647) :
    Delivers (fun e buff => (CommonErrorResponse.read e buff buff.length, e)) size
      fun e content => content = e.page ∧ e.page.length < size := by
  rintro e _ buff ⟨rfl, short⟩ some_ rfl
  have buff_ : buff.length ≠ 0 := by omega
  have printed : snprintf buff.length e.page = (e.page ++ [0], e.page.length) := by
    rw [snprintf, if_neg buff_, if_pos (by omega), List.take_of_length_le (by omega)]
  have got : e.read buff buff.length =
      ⟨storeAt 0 (e.page ++ [0]) buff, e.page.length, true⟩ := by
    simp only [CommonErrorResponse.read, printed]
  refine ⟨?_, ?_, ?_, ?_, fun more => by omega⟩
  · rw [got]
    refine storeAt_length ?_
    rw [List.length_append, List.length_singleton]
    omega
  · rw [got, Nat.min_eq_right (Nat.le_of_lt short)]
  · rw [got, ReadResult.data, storeAt_take _ _ (by simp), List.take_left,
      List.take_of_length_le (Nat.le_of_lt short)]
  · rw [got, decide_eq_true (Nat.le_of_lt short)]

namespace ZipResponse

theorem headerStart : 0 < 10 := by decide

/-- A deflated member with this content left of it, all of it with the header in front, or a part
    behind that. -/
def Holds (r : ZipResponse) (content : List Byte) : Prop :=
  r.fileSize ≠ notModifiedSize ∧
    ((r.cState = .header ⟨0, headerStart⟩ ∧ ∃ behind, content = gzipHeaderA ++ behind ∧
        ({ r with cState := .body } : ZipResponse).Left behind) ∨
      r.Left content)

theorem Holds.sends {behind : Nat → Byte} {r : ZipResponse} {content buff : List Byte}
    (holds : r.Holds content) (room : 10 ≤ buff.length) :
    (readLoop behind buff.length r buff.length buff).Sends buff.length buff.length content buff := by
  rcases holds.2 with ⟨state, rest, rfl, left⟩ | left
  · have header : gzipHeaderA.length ≤ buff.length := room
    rw [readLoop_header state room]
    refine LoopEnd.Sends.cons header (Nat.le_refl _) rfl ?_
    rw [Nat.sub_self]
    refine readLoop_left (Nat.sub_le _ _) ?_ left
    rw [storeAt_length (by rw [Nat.zero_add]; exact header)]
  · exact readLoop_left (Nat.le_refl _) rfl left

theorem delivers (behind : Nat → Byte) {size : Nat} (room : 10 ≤ size) (range : size < size32) :
    Delivers (fun r buff => ZipResponse.read behind r buff buff.length) size Holds := by
  rintro r content buff holds some_ rfl
  have sends : (readLoop behind buff.length r buff.length buff).Sends buff.length buff.length content
      buff := holds.sends room
  obtain ⟨data, finished, kept⟩ := read_sends holds.1 sends range
  refine ⟨?_, ?_, data, finished, fun more => ⟨?_, .inr (kept more)⟩⟩
  · simp only [read, if_pos holds.1]
    exact readLoop_length (Nat.le_refl _) rfl
  · simp only [read, if_pos holds.1, sends.counted]
    rw [sub32_of_le (Nat.sub_le _ _) range]
    omega
  · simp only [read, if_pos holds.1]
    exact fun same => holds.1 ((readLoop_fileSize _ _ _ _).symm.trans same)

end ZipResponse

namespace Response

/-- `GetLength` -/
def getLength : Response → Nat
  | .commonError _ | .redirect => 18446744073709551615
  | .fs r => r.getLength
  | .zip r => r.getLength
  | .string r => r.rest.length
  | .corsPreflight | .ws => 0

/-- What is left for the client. -/
def Holds (size : Nat) : Response → List Byte → Prop
  | .commonError e, content => content = e.page ∧ e.page.length < size
  | .fs r, content => r.Holds content
  | .zip r, content => r.Holds content
  | .string r, content => r.rest = content
  | .redirect, _ | .corsPreflight, _ | .ws, _ => False

/-- A response which has not been read, with its whole content behind it. A deflated file has its
    header in front, and one which has not been modified has no content. -/
def Intact : Response → List Byte → Prop
  | .commonError e, content => content = e.page ∧ e.page.length < chunkRoom
  | .fs r, content => r.fileSize = notModifiedSize ∧ content = [] ∨ r.filePos = 0 ∧ r.Holds content
  | .zip r, content =>
      r.fileSize = notModifiedSize ∧ content = [] ∨
        r.Holds content ∧ r.fileSize = content.length ∧ r.fileSize < notModifiedSize
  | .string r, content => r.rest = content ∧ content.length < notModifiedSize
  | .redirect, content | .corsPreflight, content | .ws, content => content = []

theorem delivers (behind : Nat → Byte) {size : Nat} (room : 10 ≤ size) (range : size ≤ 2147483647) :
    Delivers (fun r buff => Response.read behind r buff buff.length) size (Holds size) := by
  have range' : size < size32 := Nat.lt_of_le_of_lt range (by decide)
  intro r content buff holds some_ length
  cases r with
  | commonError e =>
      obtain ⟨stored, count, data, finished, kept⟩ :=
        CommonErrorResponse.delivers range e content buff holds some_ length
      exact ⟨stored, count, data, finished, kept⟩
  | fs r =>
      obtain ⟨stored, count, data, finished, kept⟩ :=
        FSResponse.delivers range' r content buff holds some_ length
      exact ⟨stored, count, data, finished, kept⟩
  | zip r =>
      obtain ⟨stored, count, data, finished, kept⟩ :=
        ZipResponse.delivers behind room range' r content buff holds some_ length
      exact ⟨stored, count, data, finished, kept⟩
  | string r =>
      obtain ⟨stored, count, data, finished, kept⟩ :=
        StringResponse.delivers range' r content buff holds some_ length
      exact ⟨stored, count, data, finished, kept⟩
  | redirect | corsPreflight | ws => cases holds

theorem page_some (e : CommonErrorResponse) : e.page ≠ [] := by
  unfold CommonErrorResponse.page
  exact List.append_ne_nil_of_right_ne_nil _ (by decide)

/-- The length which is announced is that of the content. -/
theorem Intact.known {r : Response} {content : List Byte} (intact : r.Intact content)
    (known : r.getLength ≠ 18446744073709551615) (size : Nat) :
    r.getLength = content.length ∧ content.length < 18446744073709551615 ∧
      (content ≠ [] → r.Holds size content) := by
  cases r with
  | commonError e | redirect => exact absurd rfl known
  | fs r =>
      rcases intact with ⟨unmodified, rfl⟩ | ⟨start, holds⟩
      · have length : r.getLength = 0 := if_neg (not_not_intro unmodified)
        exact ⟨length, by decide, fun some_ => absurd rfl some_⟩
      · have opened := holds.opened
        have left := holds.left
        rw [start, Nat.zero_add] at left
        have length : r.getLength = r.fileSize := if_pos (Nat.ne_of_lt opened)
        exact ⟨length.trans left.symm, left ▸ opened, fun _ => holds⟩
  | zip r =>
      rcases intact with ⟨unmodified, rfl⟩ | ⟨holds, left, opened⟩
      · have length : r.getLength = 0 := if_neg (not_not_intro unmodified)
        exact ⟨length, by decide, fun some_ => absurd rfl some_⟩
      · have length : r.getLength = r.fileSize := if_pos holds.1
        exact ⟨length.trans left, left ▸ opened, fun _ => holds⟩
  | string r =>
      obtain ⟨rfl, short⟩ := intact
      exact ⟨rfl, short, fun _ => rfl⟩
  | corsPreflight | ws =>
      obtain rfl : content = [] := intact
      exact ⟨rfl, by decide, fun some_ => absurd rfl some_⟩

/-- Only pages about errors and redirections leave their length open. -/
theorem Intact.unknown {r : Response} {content : List Byte} (intact : r.Intact content)
    (unknown : r.getLength = 18446744073709551615) : (∃ e, r = .commonError e) ∨ r = .redirect := by
  cases r with
  | commonError e => exact Or.inl ⟨e, rfl⟩
  | redirect => exact Or.inr rfl
  | fs r =>
      rcases intact with ⟨unmodified, -⟩ | ⟨-, holds⟩
      · have length : r.getLength = 0 := if_neg (not_not_intro unmodified)
        cases length.symm.trans unknown
      · have length : r.getLength = r.fileSize := if_pos (Nat.ne_of_lt holds.opened)
        exact absurd (length.symm.trans unknown) (Nat.ne_of_lt holds.opened)
  | zip r =>
      rcases intact with ⟨unmodified, -⟩ | ⟨holds, -, opened⟩
      · have length : r.getLength = 0 := if_neg (not_not_intro unmodified)
        cases length.symm.trans unknown
      · have length : r.getLength = r.fileSize := if_pos holds.1
        exact absurd (length.symm.trans unknown) (Nat.ne_of_lt opened)
  | string r =>
      obtain ⟨rfl, short⟩ := intact
      exact absurd unknown (Nat.ne_of_lt short)
  | corsPreflight | ws => cases unknown

end Response

end RespSource

/-! ## Deliveries -/

/-- A built-in response with all that `ResponseHandler` asks of it, and what is in the blocks which
    it is read into. -/
structure Delivery where
  response : Response
  /-- The header block, as far as it is not about the length. -/
  head : ResponseHead
  buffs : List (List Byte)
  content : List Byte
  nextConn : Bool
  isKeepAlive : Bool

namespace Delivery

variable {d : Delivery} (behind : Nat → Byte)

def Known (d : Delivery) : Prop := d.response.getLength ≠ 18446744073709551615

instance (d : Delivery) : Decidable d.Known := inferInstanceAs (Decidable (_ ≠ _))

/-- The room in a block. -/
def size (d : Delivery) : Nat := if d.Known then BuildConfig.writeBuffSize else chunkRoom

def reads (d : Delivery) : List ReadResult :=
  let read := fun (r : Response) (buff : List Byte) => r.read behind buff buff.length
  if d.Known then knownReads read d.response.getLength d.response d.buffs
  else chunkedReads read d.response d.buffs

def responseHead (d : Delivery) : ResponseHead :=
  { d.head with respLength := UInt64.ofNat d.response.getLength }

def answer (d : Delivery) : Reply where
  head := d.responseHead
  reads := d.reads behind
  nextConn := d.nextConn
  isKeepAlive := d.isKeepAlive

/-- There is a block for every read. -/
structure Blocks (d : Delivery) : Prop where
  sizes : ∀ buff ∈ d.buffs, buff.length = d.size
  room : d.content.length ≤ d.size * d.buffs.length
  first : d.buffs ≠ []

structure Ready (d : Delivery) : Prop extends d.Blocks where
  intact : d.response.Intact d.content

/-- Whether another request is read: not behind a known length of 0. -/
def kept (d : Delivery) : Bool :=
  (if d.Known then decide (d.content ≠ []) else true) && !d.nextConn && d.isKeepAlive

theorem known_iff (ready : d.Ready) : (d.answer behind).Known ↔ d.Known := by
  have length : d.response.getLength < 18446744073709551616 := by
    by_cases known : d.Known
    · have here := ready.intact.known known 0
      omega
    · rw [Known, not_not] at known
      omega
  have value : (UInt64.ofNat d.response.getLength).toNat = d.response.getLength :=
    UInt64.toNat_ofNat_of_lt' length
  refine not_congr ⟨fun same => ?_, fun same => ?_⟩
  · have all := congrArg UInt64.toNat same
    rw [answer, responseHead, value] at all
    exact all
  · exact congrArg UInt64.ofNat same

/-- The loop reads the content, all of it and nothing else. -/
theorem whole (ready : d.Ready) : (d.answer behind).Whole ∧ (d.answer behind).body = d.content ∧
    (d.answer behind).kept = d.kept := by
  have known_ := known_iff behind ready
  have sizes := ready.sizes
  have room := ready.room
  have sizeRoom : 10 ≤ d.size ∧ d.size ≤ 2147483647 := by
    unfold size
    split <;> decide
  have delivers := Response.delivers behind sizeRoom.1 sizeRoom.2
  rw [Reply.Whole, Reply.body, Reply.kept, Reply.retVal]
  by_cases known : d.Known
  · have size_ : d.size = BuildConfig.writeBuffSize := if_pos known
    obtain ⟨length, short, holds⟩ := ready.intact.known known d.size
    have value : (UInt64.ofNat d.response.getLength).toNat = d.content.length := by
      have small : d.response.getLength < 18446744073709551616 := by omega
      rw [UInt64.toNat_ofNat_of_lt' small, length]
    obtain ⟨obeys, exactly, all, ends⟩ := knownReads_delivers delivers holds sizes room
    have reads : (d.answer behind).reads = knownReads
        (fun r buff => Response.read behind r buff buff.length) d.content.length d.response
          d.buffs := by
      rw [answer, Delivery.reads, if_pos known, length]
    rw [if_pos (known_.mpr known), if_pos (known_.mpr known), reads, ends, kept, if_pos known]
    refine ⟨⟨size_ ▸ obeys, ?_⟩, all, rfl⟩
    rw [answer, responseHead, value]
    exact exactly
  · have size_ : d.size = chunkRoom := if_neg known
    have reads : (d.answer behind).reads = chunkedReads
        (fun r buff => Response.read behind r buff buff.length) d.response d.buffs := by
      rw [answer, Delivery.reads, if_neg known]
    rw [if_neg (known_.not.mpr known), if_neg (known_.not.mpr known), reads, kept, if_neg known,
      ← size_]
    rw [Known, not_not] at known
    have intact := ready.intact
    rcases intact.unknown known with ⟨e, response⟩ | response
    · rw [response] at intact ⊢
      obtain ⟨page, short⟩ := intact
      have some_ : d.content ≠ [] := page ▸ Response.page_some e
      obtain ⟨obeys, until_, last, all⟩ := chunkedReads_delivers delivers (by omega)
        (s := .commonError e) ⟨page, size_ ▸ short⟩ some_ sizes room
      exact ⟨⟨obeys, until_, last⟩, all, rfl⟩
    · rw [response] at intact ⊢
      obtain ⟨buff, buffs, blocks⟩ := List.exists_cons_of_ne_nil ready.first
      rw [blocks] at sizes
      have last : Last (Response.read behind .redirect buff buff.length).1 := Or.inr rfl
      have once : chunkedReads (fun r buff => Response.read behind r buff buff.length) .redirect
          d.buffs = [⟨buff, 0, false⟩] := by
        rw [blocks, chunkedReads, if_pos last]
        rfl
      have none_ : d.content = [] := intact
      rw [once, none_]
      refine ⟨⟨fun read_ member => ?_, rfl, _, List.mem_singleton_self _, Or.inr rfl⟩, rfl, rfl⟩
      rw [List.mem_singleton.mp member]
      exact ⟨sizes buff List.mem_cons_self, Nat.zero_le _⟩

/-- A delivery with a header block which a client takes for what it is. -/
structure Proper (maxHeadersLength : Nat) (d : Delivery) : Prop where
  ready : d.Ready
  clock : Header.FourDigits d.head.currTime
  clean : d.responseHead.Clean
  fits : d.responseHead.Fits maxHeadersLength
  bodiless : Client.bodiless d.head.respCode.toNat → d.Known ∧ d.content = []

/-- What a client should read. -/
def received (maxHeadersLength : Nat) (d : Delivery) : Client.Received :=
  ⟨d.head.respCode.toNat, (d.answer behind).fields maxHeadersLength, d.content⟩

theorem answer_proper {maxHeadersLength : Nat} (proper : d.Proper maxHeadersLength) :
    (d.answer behind).Proper maxHeadersLength ∧ (d.answer behind).Ends ∧
      (d.answer behind).received maxHeadersLength = d.received behind maxHeadersLength := by
  obtain ⟨whole, body, -⟩ := whole behind proper.ready
  have known := known_iff behind proper.ready
  refine ⟨⟨proper.clock, proper.clean, proper.fits, whole, ?_⟩, ?_, ?_⟩
  · intro bodiless known
    have length := whole.length known
    rw [body, (proper.bodiless bodiless).2] at length
    exact UInt64.toNat_inj.mp length.symm
  · exact fun bodiless => known.mpr (proper.bodiless bodiless).1
  · rw [Reply.received, body, received]
    cases bodiless : Client.bodiless (d.answer behind).head.respCode.toNat with
    | false => rfl
    | true =>
        rw [(proper.bodiless bodiless).2]
        rfl

/-- Whatever built-in responses a connection has sent, and whatever has been in the blocks, a client
    reads the content of each of them. -/
theorem delivered {s : Serving} {maxHeadersLength : Nat} (range : maxHeadersLength + 255 < size32)
    {ds : List Delivery} (proper : ∀ d ∈ ds, d.Proper maxHeadersLength) (settled : s.Settled)
    (isOpen : s.isOpen = true) :
    ∃ t, exec (Serving.step maxHeadersLength) s
        ((Serving.served kept ds).map (answer behind)) = some t ∧ t.Settled ∧
      t.isOpen = ds.all kept ∧
      t.writeBuff.committed = s.writeBuff.committed ++ Serving.sent s t ∧
      Client.readResponses (Serving.sent s t) =
        some ((Serving.served kept ds).map (received behind maxHeadersLength)) := by
  have each : ∀ a ∈ ds.map (answer behind), a.Proper maxHeadersLength := by
    intro a member
    obtain ⟨d, inside, rfl⟩ := List.mem_map.mp member
    exact (answer_proper behind (proper d inside)).1
  have same : ∀ d ∈ ds, (Reply.kept ∘ answer behind) d = d.kept :=
    fun d inside => (whole behind (proper d inside).ready).2.2
  have served : Serving.served Reply.kept (ds.map (answer behind)) =
      (Serving.served kept ds).map (answer behind) := by
    rw [Serving.served_map, Serving.served_congr same]
  obtain ⟨t, run, last, open_, all⟩ := Serving.exec_served range each settled isOpen
  rw [served] at run all
  have bytes : Serving.sent s t =
      ((Serving.served kept ds).map (answer behind)).flatMap (Reply.wire maxHeadersLength) := by
    rw [Serving.sent, all]
    exact List.drop_left' rfl
  refine ⟨t, run, last, ?_, by rw [bytes, all], ?_⟩
  · rw [open_, List.all_map, Bool.eq_iff_iff, List.all_eq_true, List.all_eq_true]
    exact forall₂_congr fun d inside => by rw [same d inside]
  · have some_ : ∀ d ∈ Serving.served kept ds, d.Proper maxHeadersLength :=
      fun d member => proper d (Serving.served_subset kept ds member)
    rw [bytes, Reply.readResponses_wire, List.map_map]
    · refine congrArg some (List.map_congr_left fun d member => ?_)
      exact (answer_proper behind (some_ d member)).2.2
    · intro a member
      obtain ⟨d, inside, rfl⟩ := List.mem_map.mp member
      exact (answer_proper behind (some_ d inside)).1
    · intro a member
      obtain ⟨d, inside, rfl⟩ := List.mem_map.mp member
      exact (answer_proper behind (some_ d inside)).2.1

/-- A file of three bytes, in a block with something else in it. -/
def threeBytes : Delivery where
  response := .fs ⟨3, 0, ⟨text "abc", false⟩⟩
  head := Serving.page.head
  buffs := [List.replicate BuildConfig.writeBuffSize 7]
  content := text "abc"
  nextConn := false
  isKeepAlive := true

/-- The page about a file which is not there. -/
def missingFile : Delivery where
  response := .commonError (.create (text "/x") none .notFound)
  head := { Serving.page.head with respCode := 404 }
  buffs := [List.replicate chunkRoom 7]
  content := (CommonErrorResponse.create (text "/x") none .notFound).page
  nextConn := false
  isKeepAlive := true

theorem threeBytes_proper : threeBytes.Proper 4096 where
  ready := ⟨⟨fun buff member => by rw [List.mem_singleton.mp member]; exact List.length_replicate,
    by decide +kernel, List.cons_ne_nil _ _⟩,
    .inr ⟨rfl, by decide, rfl, rfl, List.prefix_refl _⟩⟩
  clock := ResponseHead.redirection_clock 0
  clean := ⟨by decide +kernel, by decide +kernel, nofun, nofun, by decide⟩
  fits := by
    refine ⟨by decide +kernel, by decide +kernel, by decide +kernel, ?_, by decide +kernel⟩
    intro header member
    cases member
  bodiless := by decide

theorem missingFile_proper : missingFile.Proper 4096 where
  ready := ⟨⟨fun buff member => by rw [List.mem_singleton.mp member]; exact List.length_replicate,
    by decide +kernel, List.cons_ne_nil _ _⟩, ⟨rfl, by decide +kernel⟩⟩
  clock := ResponseHead.redirection_clock 0
  clean := ⟨by decide +kernel, by decide +kernel, nofun, nofun, by decide⟩
  fits := by
    refine ⟨by decide +kernel, by decide +kernel, by decide +kernel, ?_, by decide +kernel⟩
    intro header member
    cases member
  bodiless := by decide

theorem delivered_file : ∃ t, exec (Serving.step 4096) ⟨emptyQueue, true⟩
      ((Serving.served kept [threeBytes, missingFile]).map (answer fun _ => 0)) = some t ∧
    Client.readResponses (Serving.sent ⟨emptyQueue, true⟩ t) =
      some ([threeBytes, missingFile].map (received (fun _ => 0) 4096)) := by
  have proper : ∀ d ∈ [threeBytes, missingFile], d.Proper 4096 := by
    intro d member
    simp only [List.mem_cons, List.not_mem_nil, or_false] at member
    rcases member with rfl | rfl
    · exact threeBytes_proper
    · exact missingFile_proper
  obtain ⟨t, run, -, -, -, read⟩ := delivered (s := ⟨emptyQueue, true⟩) (fun _ => 0) (by decide)
    proper ⟨emptyQueue_idle, rfl⟩ rfl
  exact ⟨t, run, read⟩

end Delivery

end MiniWebSrv.HTTP
