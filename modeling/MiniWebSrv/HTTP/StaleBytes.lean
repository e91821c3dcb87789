import MiniWebSrv.HTTP.NotModified
import MiniWebSrv.HTTP.ReadContract

/-! # Stale bytes

A file may come up short of the size which was recorded for it. `FS::Response::Read` and
`ZipArchive::Stream::Read` report the bytes which they have asked for, and the buffer still holds
something else where the stream has stored less.
-/

namespace MiniWebSrv.HTTP.RespSource

open Word Responding

/-! ## Readers

A reader fills buffers from a stream, one after the other, and reports a length for each.
-/

section Readers

variable {S : Type} (read : S → List Byte → (List Byte × Nat) × S) (stream : S → List Byte)

/-- With each buffer, the reported bytes are the next ones of the stream. -/
def OnlyRead (s : S) : List (List Byte) → Prop
  | [] => True
  | buff :: buffs =>
      let got := read s buff
      let data := got.1.1.take got.1.2
      data.length = got.1.2 ∧ stream s = data ++ stream got.2 ∧ OnlyRead got.2 buffs

/-- How many bytes there is room for. -/
def room (buffs : List (List Byte)) : Nat := (buffs.map List.length).sum

/-- A call reports what is left of a recorded size, as far as there is room, and stores as much of
    it as the stream has. -/
structure Reports (left : S → Nat) (s : S) (buff : List Byte) : Prop where
  reported : (read s buff).1.2 = min buff.length (left s)
  stored : (read s buff).1.1 = storeAt 0 ((stream s).take (min buff.length (left s))) buff
  taken : stream (read s buff).2 = (stream s).drop (min buff.length (left s))
  counted : left (read s buff).2 = left s - min buff.length (left s)

variable {read stream}

theorem room_cons (buff : List Byte) (buffs : List (List Byte)) :
    room (buff :: buffs) = buff.length + room buffs := by
  simp only [room, List.map_cons, List.sum_cons]

theorem storeAt_take (data buff : List Byte) {n : Nat} (short : n ≤ data.length) :
    (storeAt 0 data buff).take n = data.take n := by
  rw [storeAt, List.take_zero, List.nil_append, List.take_append_of_le_length short]

theorem Reports.all_read_iff {left : S → Nat} {s : S} {buff : List Byte}
    (reports : Reports read stream left s buff) :
    (((read s buff).1.1.take (read s buff).1.2).length = (read s buff).1.2 ∧
      stream s = (read s buff).1.1.take (read s buff).1.2 ++ stream (read s buff).2) ↔
      min buff.length (left s) ≤ (stream s).length := by
  rw [reports.reported, reports.stored, reports.taken]
  constructor
  · rintro ⟨length, whole⟩
    have same := congrArg List.length whole
    rw [List.length_append, length] at same
    omega
  · intro enough
    have stored := List.length_take_of_le enough
    rw [storeAt_take _ _ (Nat.le_of_eq stored.symm), List.take_take, Nat.min_self]
    exact ⟨stored, (List.take_append_drop _ _).symm⟩

/-- A sequence of calls reports stream bytes only if the stream has as many as the recorded size and
    the buffers allow. -/
theorem onlyRead_iff {left : S → Nat} (good : S → Prop)
    (reports : ∀ {s buff}, good s → buff.length < size32 →
      Reports read stream left s buff ∧ good (read s buff).2)
    {s : S} (good_ : good s) {buffs : List (List Byte)}
    (range : ∀ buff ∈ buffs, buff.length < size32) :
    OnlyRead read stream s buffs ↔ min (left s) (room buffs) ≤ (stream s).length := by
  induction buffs generalizing s with
  | nil => exact iff_of_true trivial (Nat.le_trans (Nat.min_le_right _ _) (Nat.zero_le _))
  | cons buff buffs ih =>
      obtain ⟨reports_, next⟩ := reports good_ (range buff List.mem_cons_self)
      have rest := ih next fun buff inside => range buff (List.mem_cons_of_mem _ inside)
      rw [reports_.taken, reports_.counted, List.length_drop] at rest
      simp only [OnlyRead]
      rw [← and_assoc, reports_.all_read_iff, rest, room_cons]
      omega

end Readers

/-! ## Streams -/

namespace InStream

/-- What further reads will store. -/
def available (s : InStream) : List Byte := if s.fail then [] else s.rest

theorem read_available (s : InStream) (length : Nat) :
    (s.read length).1 = s.available.take length ∧
      (s.read length).2.available = s.available.drop length := by
  obtain ⟨rest, fail⟩ := s
  cases fail with
  | true => exact ⟨List.take_nil.symm, List.drop_nil.symm⟩
  | false =>
      refine ⟨rfl, ?_⟩
      simp only [read, available, Bool.false_eq_true, if_false, decide_eq_true_eq]
      split
      · rename_i short
        rw [List.drop_eq_nil_of_le (Nat.le_of_lt short)]
      · rfl

end InStream

/-! ## Files -/

namespace FSResponse

/-- `Read`, with the whole of a buffer. -/
def readInto (r : FSResponse) (buff : List Byte) : (List Byte × Nat) × FSResponse :=
  let got := r.read buff buff.length
  ((got.1.targetBuff, got.1.outLength), got.2)

def getLength (r : FSResponse) : Nat := if r.fileSize ≠ notModifiedSize then r.fileSize else 0

/-- What is left of the recorded size. -/
def left (r : FSResponse) : Nat := r.getLength - r.filePos

/-- The position is within the file, if there is one. -/
def InFile (r : FSResponse) : Prop :=
  r.fileSize ≠ notModifiedSize → r.filePos ≤ r.fileSize ∧ r.fileSize < notModifiedSize

theorem readInto_reports {r : FSResponse} {buff : List Byte} (inFile : r.InFile)
    (range : buff.length < size32) :
    Reports readInto (fun r => r.inS.available) left r buff ∧ (r.readInto buff).2.InFile := by
  by_cases opened : r.fileSize ≠ notModifiedSize
  · obtain ⟨inside, size⟩ := inFile opened
    simp only [notModifiedSize] at size
    simp only [size32] at range
    have rem : u64 (r.fileSize + 18446744073709551616 - r.filePos) = r.fileSize - r.filePos := by
      simp only [u64]
      omega
    have asked : (if r.fileSize - r.filePos < buff.length then u32 (r.fileSize - r.filePos)
        else buff.length) = min buff.length r.left := by
      simp only [left, getLength, if_pos opened, u32, size32]
      split <;> omega
    have next : u64 (r.filePos + min buff.length r.left) = r.filePos + min buff.length r.left := by
      simp only [left, getLength, if_pos opened, u64]
      omega
    have within : r.filePos + min buff.length r.left ≤ r.fileSize := by
      simp only [left, getLength, if_pos opened]
      omega
    obtain ⟨stored, taken⟩ := r.inS.read_available (min buff.length r.left)
    have got : r.readInto buff =
        ((storeAt 0 (r.inS.read (min buff.length r.left)).1 buff, min buff.length r.left),
          { r with
            filePos := r.filePos + min buff.length r.left
            inS := (r.inS.read (min buff.length r.left)).2 }) := by
      simp only [readInto, read, if_pos opened, rem, asked, next]
    rw [got]
    refine ⟨⟨by rw [got], by rw [got, stored], by rw [got, taken], ?_⟩, fun _ => ⟨within, size⟩⟩
    rw [got]
    exact Nat.sub_add_eq _ _ _
  · have none_ : r.left = 0 := by rw [left, getLength, if_neg opened, Nat.zero_sub]
    have got : r.readInto buff = ((buff, 0), r) := by simp only [readInto, read, if_neg opened]
    rw [got]
    refine ⟨⟨by rw [got, none_, Nat.min_zero], ?_, ?_, ?_⟩, inFile⟩
    · rw [got, none_, Nat.min_zero]
      rfl
    · rw [got, none_, Nat.min_zero]
      rfl
    · rw [got, none_, Nat.min_zero]

end FSResponse

/-! ## Members of an archive -/

namespace ZipStream

/-- `Read`, with the whole of a buffer. -/
def readInto (s : ZipStream) (buff : List Byte) : (List Byte × Nat) × ZipStream :=
  let got := s.read buff.length
  ((storeAt 0 got.1.1 buff, got.1.2), got.2)

/-- What is left of the recorded size. -/
def left (s : ZipStream) : Nat := u32 s.compressedSize - s.compPos

theorem readInto_reports (s : ZipStream) (buff : List Byte) :
    Reports readInto (fun s => s.inS.available) left s buff := by
  by_cases more : s.compPos < u32 s.compressedSize
  · have asked : (if u32 s.compressedSize - s.compPos < buff.length then
        u32 s.compressedSize - s.compPos else buff.length) = min buff.length s.left := by
      simp only [left]
      split <;> omega
    obtain ⟨stored, taken⟩ := s.inS.read_available (min buff.length s.left)
    have got : s.readInto buff =
        ((storeAt 0 (s.inS.read (min buff.length s.left)).1 buff, min buff.length s.left),
          { s with
            compPos := s.compPos + min buff.length s.left
            inS := (s.inS.read (min buff.length s.left)).2 }) := by
      simp only [readInto, read, if_pos more, asked]
    refine ⟨by rw [got], by rw [got, stored], by rw [got, taken], ?_⟩
    rw [got]
    exact Nat.sub_add_eq _ _ _
  · have none_ : s.left = 0 := Nat.sub_eq_zero_of_le (Nat.not_lt.mp more)
    have got : s.readInto buff = ((buff, 0), s) := by
      simp only [readInto, read, if_neg more]
      rfl
    refine ⟨by rw [got, none_, Nat.min_zero], ?_, ?_, ?_⟩
    · rw [got, none_, Nat.min_zero]
      rfl
    · rw [got, none_, Nat.min_zero]
      rfl
    · rw [got, none_, Nat.min_zero]

end ZipStream

/-! ## Both -/

/-- A file which `FS` sends, and whose stream is what has become of it; and a member of an archive
    behind its local header. -/
theorem only_read_iff (file : StoredFile) (ifModifiedSince : Int) {r : FSResponse}
    (created : FSResponse.create file ifModifiedSince = some r) (compressedSize : Nat)
    (content : List Byte) {buffs : List (List Byte)}
    (range : ∀ buff ∈ buffs, buff.length < size32) :
    (OnlyRead FSResponse.readInto (fun r => r.inS.available) { r with inS := ⟨content, false⟩ }
        buffs ↔ min r.getLength (room buffs) ≤ content.length) ∧
      (OnlyRead ZipStream.readInto (fun s => s.inS.available) ⟨compressedSize, 0, ⟨content, false⟩⟩
        buffs ↔ min (u32 compressedSize) (room buffs) ≤ content.length) := by
  constructor
  · have start : r.filePos = 0 ∧ (r.fileSize ≠ notModifiedSize → r.fileSize < notModifiedSize) := by
      have sized := file.sized
      simp only [FSResponse.create] at created
      split at created
      · split at created
        · obtain rfl := Option.some.inj created
          refine ⟨rfl, fun _ => ?_⟩
          simp only [notModifiedSize]
          omega
        · cases created
      · obtain rfl := Option.some.inj created
        exact ⟨rfl, fun differs => absurd rfl differs⟩
    obtain ⟨fileSize, filePos, inS⟩ := r
    obtain rfl : filePos = 0 := start.1
    have inFile : FSResponse.InFile ⟨fileSize, 0, ⟨content, false⟩⟩ :=
      fun opened => ⟨Nat.zero_le _, start.2 opened⟩
    exact onlyRead_iff FSResponse.InFile FSResponse.readInto_reports inFile range
  · exact onlyRead_iff (fun _ => True) (fun _ _ => ⟨ZipStream.readInto_reports _ _, trivial⟩)
      trivial range

/-- A file which is read in two parts. -/
theorem only_read_iff_parts :
    (OnlyRead FSResponse.readInto (fun r => r.inS.available) ⟨3, 0, ⟨[1, 2, 3], false⟩⟩
        [[0, 0], [0, 0]] ↔ min (FSResponse.getLength ⟨3, 0, ⟨[], false⟩⟩) 4 ≤ 3) ∧
      (OnlyRead ZipStream.readInto (fun s => s.inS.available) ⟨3, 0, ⟨[1, 2, 3], false⟩⟩
        [[0, 0], [0, 0]] ↔ min (u32 3) 4 ≤ 3) :=
  only_read_iff ⟨0, [1, 2, 3], true, by decide⟩ 0 (r := ⟨3, 0, ⟨[1, 2, 3], false⟩⟩) rfl 3
    [1, 2, 3] (by decide)

/-- A file of two bytes which has lost its second one: what is in the buffer is sent. -/
theorem stale_byte : ¬∀ (file : StoredFile) (ifModifiedSince : Int) (r : FSResponse)
    (compressedSize : Nat) (content : List Byte) (buffs : List (List Byte)),
    FSResponse.create file ifModifiedSince = some r → (∀ buff ∈ buffs, buff.length < size32) →
    OnlyRead FSResponse.readInto (fun r => r.inS.available) { r with inS := ⟨content, false⟩ } buffs ∧
      OnlyRead ZipStream.readInto (fun s => s.inS.available) ⟨compressedSize, 0, ⟨content, false⟩⟩
        buffs := by
  intro onlyRead
  have both := onlyRead ⟨0, [1, 2], true, by decide⟩ 0 ⟨2, 0, ⟨[1, 2], false⟩⟩ 2 [1] [[7, 7]] rfl
    (by decide)
  have whole := both.1.2.1
  exact absurd whole (by decide)

end MiniWebSrv.HTTP.RespSource
