import MiniWebSrv.HTTP.FormRoundTrip
import MiniWebSrv.HTTP.NotModified

/-! # Zip archives

`ZipArchive::Load` reads the central directory of an archive. The records and their names go through
one buffer, and behind the end record no read is looked at for a failure. A record which the file
does not have in whole is then read from what has been left in the buffer, and the directory is
loaded from it unless that does not look like a record.
-/

namespace MiniWebSrv.HTTP.RespSource.ZipArchive

/-! ## Reading -/

/-- `ReadBuff`, by its indices. -/
abbrev ReadBuff := Nat → Byte

namespace ReadBuff

def store (b : ReadBuff) (bytes : List Byte) : ReadBuff := fun i => bytes[i]?.getD (b i)

def first (b : ReadBuff) (length : Nat) : List Byte := (List.range length).map b

def unsignedShort (b : ReadBuff) (i : Nat) : UInt16 :=
  UInt16.ofNat ((b i).toNat + 256 * (b (i + 1)).toNat)

def unsignedInt (b : ReadBuff) (i : Nat) : UInt32 :=
  UInt32.ofNat ((b i).toNat + 256 * (b (i + 1)).toNat + 65536 * (b (i + 2)).toNat +
    16777216 * (b (i + 3)).toNat)

end ReadBuff

/-- `std::ifstream` on a file. The position may be behind the end. -/
structure Source where
  file : List Byte
  pos : Nat
  fail : Bool
  deriving DecidableEq, Repr

namespace Source

/-- A read which ends early stores what there is, and fails. -/
def read (s : Source) (b : ReadBuff) (length : Nat) : ReadBuff × Source :=
  if s.fail then
    (b, s)
  else
    let stored := (s.file.drop s.pos).take length
    (b.store stored, { s with
      pos := s.pos + stored.length
      fail := decide (stored.length < length) })

/-- `seekg` to a position which is not negative. -/
def seekg (s : Source) (pos : Nat) : Source := if s.fail then s else { s with pos := pos }

/-- `seekg(-length,std::ios_base::end)` on a stream which has just been opened. -/
def openAtEnd (file : List Byte) (length : Nat) : Source :=
  if file.length < length then ⟨file, 0, true⟩ else ⟨file, file.length - length, false⟩

end Source

/-- The name in pieces of the size of `ReadBuff`, and then `last` bytes. -/
def readPieces (b : ReadBuff) (s : Source) (currFN : List Byte) (last : Nat) :
    Nat → ReadBuff × Source × List Byte
  | 0 =>
      if last = 0 then
        (b, s, currFN)
      else
        let r := s.read b last
        (r.1, r.2, currFN ++ r.1.first last)
  | pieces + 1 =>
      let r := s.read b 256
      readPieces r.1 r.2 (currFN ++ r.1.first 256) last pieces

def readName (b : ReadBuff) (s : Source) (fnLength : Nat) : ReadBuff × Source × List Byte :=
  readPieces b s [] (fnLength % 256) (fnLength / 256)

/-! ## Load -/

/-- The members of a `tm` which `Load` sets. -/
structure Tm where
  year : Int
  mon : Int
  mday : Int
  hour : Int
  min : Int
  sec : Int
  deriving DecidableEq, Repr

def fileModTime (modTime modDate : UInt16) : Tm where
  year := (modDate >>> 9).toNat + 1980 - 1900
  mon := ((modDate >>> 5) &&& 0xF).toNat - 1
  mday := (modDate &&& 0x1F).toNat
  hour := (modTime >>> 11).toNat
  min := ((modTime >>> 5) &&& 0x3F).toNat
  sec := (modTime &&& 0x1F).toNat * 2

/-- A `FileInfo` with its `LocalHeaderOffset`, a `size_t` which `Load` reads from four bytes. -/
structure ArchiveFile extends FileInfo where
  localHeaderOffset : UInt32
  deriving DecidableEq, Repr

inductive LoadException where
  | notAZipArchive
  | errorInCentralDirectory
  | unsupportedCompressionMethod
  deriving DecidableEq, Repr

def cdMagic : UInt32 := 0x02014b50

def eocdMagic : UInt32 := 0x06054b50

def getCompressionMethod (code : UInt16) : Except LoadException CompressionMethod :=
  if code = 0 then .ok .store
  else if code = 8 then .ok .deflate
  else .error .unsupportedCompressionMethod

/-- `CurrFile`; the members of the `tm` which `Load` leaves as they are belong to `mktime`. -/
def currFile (mktime : Tm → Int) (b : ReadBuff) (compression : CompressionMethod) :
    ArchiveFile where
  compression := compression
  crc32 := b.unsignedInt 16
  compressedSize := b.unsignedInt 20
  uncompressedSize := b.unsignedInt 24
  lastModTime := mktime (fileModTime (b.unsignedShort 12) (b.unsignedShort 14))
  localHeaderOffset := b.unsignedInt 42

/-- Neither empty nor the name of a directory. -/
def IsFileName (name : List Byte) : Prop := name ≠ [] ∧ name.getLast? ≠ some (ch '/')

instance (name : List Byte) : Decidable (IsFileName name) := inferInstanceAs (Decidable (_ ∧ _))

/-- The loop, with `CDCount` turns to go. -/
def loadRecords (mktime : Nat → Tm → Int) (b : ReadBuff) (s : Source)
    (target : StringMap ArchiveFile) : Nat → Except LoadException (StringMap ArchiveFile)
  | 0 => .ok target
  | cdCount + 1 =>
      let r := s.read b 46
      let b := r.1
      if b.unsignedInt 0 ≠ cdMagic then
        .error .errorInCentralDirectory
      else
        match getCompressionMethod (b.unsignedShort 10) with
        | .error e => .error e
        | .ok compression =>
            let currFile := currFile (mktime cdCount) b compression
            let fnLength := (b.unsignedShort 28).toNat
            let extraLength := (b.unsignedShort 30).toNat + (b.unsignedShort 32).toNat
            let n := readName b r.2 fnLength
            let target :=
              if IsFileName n.2.2 then StringMap.set n.2.2 currFile target else target
            let s := if extraLength ≠ 0 then n.2.1.seekg (n.2.1.pos + extraLength) else n.2.1
            loadRecords mktime n.1 s target cdCount

/-- `memory` is what `ReadBuff` holds before it has been written to. -/
def load (mktime : Nat → Tm → Int) (memory : ReadBuff) (file : List Byte) :
    Except LoadException (StringMap ArchiveFile) :=
  let r := (Source.openAtEnd file 22).read memory 22
  if r.2.fail ∨ r.1.unsignedInt 0 ≠ eocdMagic then
    .error .notAZipArchive
  else
    let s := r.2.seekg (r.1.unsignedInt 16).toNat
    if s.fail then
      .error .notAZipArchive
    else
      loadRecords mktime r.1 s [] (r.1.unsignedShort 10).toNat

/-! ## The directory of a file -/

/-- The bytes of the file from `pos` on. -/
def bytesAt (file : List Byte) (pos : Nat) : ReadBuff := fun i => file.getD (pos + i) 0

def nameEnd (file : List Byte) (pos : Nat) : Nat :=
  pos + 46 + ((bytesAt file pos).unsignedShort 28).toNat

def nameAt (file : List Byte) (pos : Nat) : List Byte :=
  (file.drop (pos + 46)).take ((bytesAt file pos).unsignedShort 28).toNat

/-- The next record comes behind the extra field and the comment. -/
def nextRecord (file : List Byte) (pos : Nat) : Nat :=
  nameEnd file pos + (((bytesAt file pos).unsignedShort 30).toNat +
    ((bytesAt file pos).unsignedShort 32).toNat)

/-- The places of consecutive records. -/
def records (file : List Byte) (pos : Nat) : Nat → List Nat
  | 0 => []
  | count + 1 => pos :: records file (nextRecord file pos) count

/-- What `Load` checks of a record. -/
def IsHeader (b : ReadBuff) : Prop :=
  b.unsignedInt 0 = cdMagic ∧ (getCompressionMethod (b.unsignedShort 10)).isOk = true

instance (b : ReadBuff) : Decidable (IsHeader b) := inferInstanceAs (Decidable (_ ∧ _))

/-- A record of the central directory, which lies inside the file together with its name. -/
structure IsRecord (file : List Byte) (pos : Nat) : Prop where
  inside : nameEnd file pos ≤ file.length
  header : IsHeader (bytesAt file pos)

structure Describes (file : List Byte) (pos : Nat) (f : ArchiveFile) : Prop where
  compression : getCompressionMethod ((bytesAt file pos).unsignedShort 10) = .ok f.compression
  crc32 : f.crc32 = (bytesAt file pos).unsignedInt 16
  compressedSize : f.compressedSize = (bytesAt file pos).unsignedInt 20
  uncompressedSize : f.uncompressedSize = (bytesAt file pos).unsignedInt 24
  localHeaderOffset : f.localHeaderOffset = (bytesAt file pos).unsignedInt 42

/-- The last one of the records with this name, if it is the name of a file. -/
def lastNamed (file : List Byte) (places : List Nat) (name : List Byte) : Option Nat :=
  if IsFileName name then places.reverse.find? fun pos => decide (nameAt file pos = name) else none

/-- The map is that of these records. -/
def Loads (file : List Byte) (places : List Nat) (m : StringMap ArchiveFile) : Prop :=
  ∀ name, Option.Rel (Describes file) (lastNamed file places name) (m.lookup name)

/-- An exception, or the map of records all of which are there in whole. -/
def AllOrNothing (file : List Byte) (places : List Nat)
    (result : Except LoadException (StringMap ArchiveFile)) : Prop :=
  (∃ e, result = .error e) ∨
    ∃ m, result = .ok m ∧ (∀ pos ∈ places, IsRecord file pos) ∧ Loads file places m

/-! ## What is left in the buffer -/

/-- The records of the rest of the directory lie inside the file with their names, or a check behind
    the first end of the file finds it out: that the header of a record has been cut off, from what
    is in `ReadBuff` then, and that a name has been, from what is there when the next record should
    be. A record which is none ends it before. -/
def CutNoticed (file : List Byte) (b : ReadBuff) (pos : Nat) : Nat → Prop
  | 0 => True
  | count + 1 =>
      if file.length < pos + 46 then
        ¬IsHeader (b.store (file.drop pos))
      else
        let header := b.store ((file.drop pos).take 46)
        let behindName :=
          (readName header ⟨file, pos + 46, false⟩ (header.unsignedShort 28).toNat).1
        IsHeader header →
          if file.length < nameEnd file pos then
            count ≠ 0 ∧ ¬IsHeader behindName
          else
            CutNoticed file behindName (nextRecord file pos) count

namespace Source

variable {s : Source} {b : ReadBuff} {file : List Byte} {pos length : Nat}

theorem read_failed (failed : s.fail = true) : s.read b length = (b, s) := if_pos failed

theorem read_whole (inside : pos + length ≤ file.length) :
    (⟨file, pos, false⟩ : Source).read b length =
      (b.store ((file.drop pos).take length), ⟨file, pos + length, false⟩) := by
  have stored : ((file.drop pos).take length).length = length := by
    rw [List.length_take, List.length_drop]
    omega
  simp only [read, Bool.false_eq_true, if_false, stored, lt_self_iff_false, decide_false]

theorem read_cut (b : ReadBuff) (some_ : 0 < length) (cut : file.length < pos + length) :
    (⟨file, pos, false⟩ : Source).read b length =
      (b.store (file.drop pos), ⟨file, pos + (file.length - pos), true⟩) := by
  have less : file.length - pos < length := by omega
  have stored : (file.drop pos).take length = file.drop pos := by
    rw [List.take_of_length_le]
    rw [List.length_drop]
    exact less.le
  rw [read, if_neg Bool.false_ne_true]
  simp only [stored, List.length_drop, less, decide_true]

end Source

namespace ReadBuff

variable (b : ReadBuff)

theorem first_store (bytes : List Byte) : (b.store bytes).first bytes.length = bytes := by
  refine List.ext_getElem? fun i => ?_
  rw [first, List.getElem?_map]
  by_cases there : i < bytes.length
  · rw [List.getElem?_range there, Option.map_some, store, List.getElem?_eq_getElem there,
      Option.getD_some]
  · have behind := Nat.le_of_not_lt there
    rw [List.getElem?_eq_none behind, List.getElem?_eq_none (by rwa [List.length_range]),
      Option.map_none]

variable {b} {file : List Byte} {pos length i : Nat}

theorem first_whole (inside : pos + length ≤ file.length) :
    (b.store ((file.drop pos).take length)).first length = (file.drop pos).take length := by
  have all : ((file.drop pos).take length).length = length := by
    rw [List.length_take, List.length_drop]
    omega
  have first := b.first_store ((file.drop pos).take length)
  rwa [all] at first

theorem stored_byte (inside : pos + length ≤ file.length) (early : i < length) :
    (b.store ((file.drop pos).take length)) i = bytesAt file pos i := by
  have there : pos + i < file.length := by omega
  rw [store, List.getElem?_take, if_pos early, List.getElem?_drop, bytesAt,
    List.getD_eq_getElem?_getD, List.getElem?_eq_getElem there, Option.getD_some, Option.getD_some]

theorem stored_short (inside : pos + length ≤ file.length) (early : i + 1 < length) :
    (b.store ((file.drop pos).take length)).unsignedShort i =
      (bytesAt file pos).unsignedShort i := by
  rw [unsignedShort, unsignedShort, stored_byte inside early, stored_byte inside (by omega)]

theorem stored_int (inside : pos + length ≤ file.length) (early : i + 3 < length) :
    (b.store ((file.drop pos).take length)).unsignedInt i = (bytesAt file pos).unsignedInt i := by
  rw [unsignedInt, unsignedInt, stored_byte inside early, stored_byte inside (by omega),
    stored_byte inside (by omega), stored_byte inside (by omega)]

end ReadBuff

/-! ### Names -/

section Names

variable {s : Source} {b : ReadBuff} {currFN file : List Byte} {pos last : Nat}

theorem readPieces_failed (failed : s.fail = true) (pieces : Nat) :
    (readPieces b s currFN last pieces).1 = b ∧ (readPieces b s currFN last pieces).2.1 = s := by
  induction pieces generalizing currFN with
  | zero =>
      unfold readPieces
      split
      · exact ⟨rfl, rfl⟩
      · rw [Source.read_failed failed]
        exact ⟨rfl, rfl⟩
  | succ pieces ih =>
      rw [readPieces, Source.read_failed failed]
      exact ih

theorem readPieces_whole (pieces : Nat) (inside : pos + (256 * pieces + last) ≤ file.length) :
    (readPieces b ⟨file, pos, false⟩ currFN last pieces).2 =
      (⟨file, pos + (256 * pieces + last), false⟩,
        currFN ++ (file.drop pos).take (256 * pieces + last)) := by
  induction pieces generalizing b currFN pos with
  | zero =>
      rw [Nat.mul_zero, Nat.zero_add] at inside ⊢
      unfold readPieces
      split
      · rename_i none_
        rw [none_, List.take_zero, List.append_nil, Nat.add_zero]
      · rw [Source.read_whole inside]
        simp only [ReadBuff.first_whole inside]
  | succ pieces ih =>
      have one : 256 * (pieces + 1) + last = 256 + (256 * pieces + last) := by omega
      rw [one] at inside ⊢
      have first : pos + 256 ≤ file.length := by omega
      have taken := @List.take_add _ (file.drop pos) 256 (256 * pieces + last)
      rw [List.drop_drop] at taken
      rw [readPieces, Source.read_whole first, ReadBuff.first_whole first, ih (by omega), taken,
        List.append_assoc, Nat.add_assoc]

theorem readPieces_cut (pieces : Nat) (within : pos ≤ file.length)
    (cut : file.length < pos + (256 * pieces + last)) :
    (readPieces b ⟨file, pos, false⟩ currFN last pieces).2.1.fail = true := by
  induction pieces generalizing b currFN pos with
  | zero =>
      have some_ : 0 < last := by omega
      rw [readPieces, if_neg some_.ne']
      rw [Source.read_cut b some_ (by omega)]
  | succ pieces ih =>
      rw [readPieces]
      by_cases inside : pos + 256 ≤ file.length
      · rw [Source.read_whole inside]
        exact ih inside (by omega)
      · rw [Source.read_cut b (Nat.zero_lt_succ 255) (Nat.lt_of_not_le inside),
          (readPieces_failed rfl pieces).2]

theorem readName_failed (failed : s.fail = true) (fnLength : Nat) :
    (readName b s fnLength).1 = b ∧ (readName b s fnLength).2.1 = s :=
  readPieces_failed failed (fnLength / 256)

theorem readName_whole {fnLength : Nat} (inside : pos + fnLength ≤ file.length) :
    (readName b ⟨file, pos, false⟩ fnLength).2 =
      (⟨file, pos + fnLength, false⟩, (file.drop pos).take fnLength) := by
  have parts := Nat.div_add_mod fnLength 256
  rw [← parts] at inside
  rw [readName, readPieces_whole _ inside, parts, List.nil_append]

theorem readName_cut {fnLength : Nat} (within : pos ≤ file.length)
    (cut : file.length < pos + fnLength) :
    (readName b ⟨file, pos, false⟩ fnLength).2.1.fail = true := by
  rw [← Nat.div_add_mod fnLength 256] at cut
  exact readPieces_cut _ within cut

end Names

/-! ### One record -/

theorem isHeader_header {file : List Byte} {pos : Nat} (b : ReadBuff)
    (inside : pos + 46 ≤ file.length) :
    IsHeader (b.store ((file.drop pos).take 46)) ↔ IsHeader (bytesAt file pos) := by
  rw [IsHeader, IsHeader, ReadBuff.stored_int inside (by decide),
    ReadBuff.stored_short inside (by decide)]

section Turns

variable (mktime : Nat → Tm → Int) {b : ReadBuff} {s : Source} (target : StringMap ArchiveFile)
  (count : Nat)

theorem loadRecords_no_header (none_ : ¬IsHeader (s.read b 46).1) :
    ∃ e, loadRecords mktime b s target (count + 1) = .error e := by
  rw [loadRecords]
  by_cases magic : (s.read b 46).1.unsignedInt 0 = cdMagic
  · rw [if_neg (not_not.mpr magic)]
    cases method : getCompressionMethod ((s.read b 46).1.unsignedShort 10) with
    | error e => exact ⟨e, rfl⟩
    | ok compression => exact (none_ ⟨magic, by rw [method]; rfl⟩).elim
  · exact ⟨_, if_pos magic⟩

/-- The state behind a record. -/
def behindRecord (b : ReadBuff) (s : Source) : ReadBuff × Source × List Byte :=
  let r := s.read b 46
  let n := readName r.1 r.2 (r.1.unsignedShort 28).toNat
  let extraLength := (r.1.unsignedShort 30).toNat + (r.1.unsignedShort 32).toNat
  (n.1, if extraLength ≠ 0 then n.2.1.seekg (n.2.1.pos + extraLength) else n.2.1, n.2.2)

theorem loadRecords_header (header : IsHeader (s.read b 46).1) : ∃ compression,
    getCompressionMethod ((s.read b 46).1.unsignedShort 10) = .ok compression ∧
      loadRecords mktime b s target (count + 1) =
        loadRecords mktime (behindRecord b s).1 (behindRecord b s).2.1
          (if IsFileName (behindRecord b s).2.2 then
            StringMap.set (behindRecord b s).2.2
              (currFile (mktime count) (s.read b 46).1 compression) target
          else target) count := by
  obtain ⟨magic, supported⟩ := header
  cases method : getCompressionMethod ((s.read b 46).1.unsignedShort 10) with
  | error e =>
      rw [method] at supported
      cases supported
  | ok compression =>
      refine ⟨compression, rfl, ?_⟩
      rw [loadRecords, if_neg (not_not.mpr magic), method]
      rfl

theorem behindRecord_failed (failed : s.fail = true) :
    (behindRecord b s).1 = b ∧ (behindRecord b s).2.1 = s := by
  obtain ⟨buff, source⟩ := readName_failed (b := b) failed (b.unsignedShort 28).toNat
  rw [behindRecord, Source.read_failed failed]
  refine ⟨buff, ?_⟩
  dsimp only
  rw [source]
  split
  · exact if_pos failed
  · rfl

/-- Once a read has failed, all further records are read from the same bytes. -/
theorem loadRecords_failed (failed : s.fail = true) :
    (∃ e, loadRecords mktime b s target count = .error e) ↔ count ≠ 0 ∧ ¬IsHeader b := by
  induction count generalizing target with
  | zero => exact iff_of_false (fun error => nomatch error) fun both => both.1 rfl
  | succ count ih =>
      by_cases header : IsHeader b
      · refine iff_of_false ?_ fun both => both.2 header
        have again : IsHeader (s.read b 46).1 := by rwa [Source.read_failed failed]
        obtain ⟨compression, -, next⟩ := loadRecords_header mktime target count again
        obtain ⟨buff, source⟩ := behindRecord_failed (b := b) failed
        rw [next, buff, source, ih]
        exact fun both => both.2 header
      · have again : ¬IsHeader (s.read b 46).1 := by rwa [Source.read_failed failed]
        exact iff_of_true (loadRecords_no_header mktime target count again)
          ⟨Nat.succ_ne_zero count, header⟩

end Turns

section Records

variable {b : ReadBuff} {file : List Byte} {pos : Nat}

theorem behindRecord_whole (inside : nameEnd file pos ≤ file.length) :
    (behindRecord b ⟨file, pos, false⟩).2 =
      (⟨file, nextRecord file pos, false⟩, nameAt file pos) := by
  have first : pos + 46 ≤ file.length := Nat.le_trans (Nat.le_add_right _ _) inside
  have name := readName_whole (b := b.store ((file.drop pos).take 46)) inside
  rw [behindRecord, Source.read_whole first]
  dsimp only
  rw [ReadBuff.stored_short first (by decide), ReadBuff.stored_short first (by decide),
    ReadBuff.stored_short first (by decide), name]
  dsimp only
  split
  · rfl
  · rename_i none_
    have same : nextRecord file pos = nameEnd file pos := by
      rw [nextRecord, not_not.mp none_, Nat.add_zero]
    rw [same]
    rfl

theorem behindRecord_header_cut (cut : file.length < pos + 46) :
    (behindRecord b ⟨file, pos, false⟩).1 = b.store (file.drop pos) ∧
      (behindRecord b ⟨file, pos, false⟩).2.1.fail = true := by
  rw [behindRecord, Source.read_cut b (Nat.zero_lt_succ 45) cut]
  dsimp only
  obtain ⟨buff, source⟩ := readName_failed (b := b.store (file.drop pos))
    (s := ⟨file, pos + (file.length - pos), true⟩) rfl
    ((b.store (file.drop pos)).unsignedShort 28).toNat
  refine ⟨buff, ?_⟩
  rw [source]
  split <;> rfl

theorem behindRecord_cut (first : pos + 46 ≤ file.length) (cut : file.length < nameEnd file pos) :
    (behindRecord b ⟨file, pos, false⟩).2.1.fail = true := by
  have failed := readName_cut (b := b.store ((file.drop pos).take 46)) first cut
  rw [behindRecord, Source.read_whole first]
  dsimp only
  rw [ReadBuff.stored_short first (by decide), ReadBuff.stored_short first (by decide),
    ReadBuff.stored_short first (by decide)]
  split
  · rw [Source.seekg, if_pos failed]
    exact failed
  · exact failed

theorem currFile_describes (first : pos + 46 ≤ file.length) {compression : CompressionMethod}
    (method : getCompressionMethod ((b.store ((file.drop pos).take 46)).unsignedShort 10) =
      .ok compression) (mktime : Tm → Int) :
    Describes file pos (currFile mktime (b.store ((file.drop pos).take 46)) compression) where
  compression := by
    rw [ReadBuff.stored_short first (by decide)] at method
    exact method
  crc32 := ReadBuff.stored_int first (by decide)
  compressedSize := ReadBuff.stored_int first (by decide)
  uncompressedSize := ReadBuff.stored_int first (by decide)
  localHeaderOffset := ReadBuff.stored_int first (by decide)

theorem Loads.add {places : List Nat} {m : StringMap ArchiveFile} (loads : Loads file places m)
    {f : ArchiveFile} (described : Describes file pos f) :
    Loads file (places ++ [pos]) (if IsFileName (nameAt file pos) then
      StringMap.set (nameAt file pos) f m else m) := by
  intro name
  have last : lastNamed file (places ++ [pos]) name =
      if IsFileName name ∧ nameAt file pos = name then some pos
      else lastNamed file places name := by
    rw [lastNamed, lastNamed, List.reverse_append, List.reverse_singleton, List.singleton_append,
      List.find?_cons]
    by_cases fileName : IsFileName name
    · by_cases same : nameAt file pos = name
      · simp only [fileName, same, if_true, decide_true, and_self]
      · simp only [fileName, same, if_true, if_false, decide_false, and_false]
    · simp only [fileName, if_false, false_and]
  rw [last]
  by_cases named : IsFileName name ∧ nameAt file pos = name
  · obtain ⟨fileName, rfl⟩ := named
    rw [if_pos ⟨fileName, rfl⟩, if_pos fileName, StringMap.lookup_set]
    exact Option.Rel.some described
  · rw [if_neg named]
    split
    · rename_i fileName
      have differ : nameAt file pos ≠ name := fun same => named ⟨same ▸ fileName, same⟩
      rw [StringMap.lookup_set_other differ.symm]
      exact loads name
    · exact loads name

end Records

/-! ## Whole archives -/

/-- Where a record is not there in whole, there is nothing but an exception. -/
theorem allOrNothing_outside {file : List Byte} {places : List Nat} {pos : Nat}
    {result : Except LoadException (StringMap ArchiveFile)} (listed : pos ∈ places)
    (outside : ¬IsRecord file pos) : AllOrNothing file places result ↔ ∃ e, result = .error e :=
  or_iff_left fun ⟨_, _, records_, _⟩ => outside (records_ pos listed)

theorem loop_iff (mktime : Nat → Tm → Int) (b : ReadBuff) (file : List Byte) (pos : Nat)
    {before : List Nat} {target : StringMap ArchiveFile} (count : Nat)
    (records_ : ∀ pos ∈ before, IsRecord file pos) (loads : Loads file before target) :
    AllOrNothing file (before ++ records file pos count)
        (loadRecords mktime b ⟨file, pos, false⟩ target count) ↔
      CutNoticed file b pos count := by
  induction count generalizing b pos before target with
  | zero =>
      rw [records, List.append_nil]
      exact iff_of_true (Or.inr ⟨target, rfl, records_, loads⟩) trivial
  | succ count ih =>
      have listed : pos ∈ before ++ records file pos (count + 1) :=
        List.mem_append_right before List.mem_cons_self
      rw [CutNoticed]
      by_cases first : file.length < pos + 46
      · have outside : ¬IsRecord file pos := fun record =>
          Nat.not_le_of_lt first (Nat.le_trans (Nat.le_add_right _ _) record.inside)
        have read := Source.read_cut b (Nat.zero_lt_succ 45) first
        rw [if_pos first, allOrNothing_outside listed outside]
        by_cases header : IsHeader (b.store (file.drop pos))
        · obtain ⟨compression, -, next⟩ :=
            loadRecords_header mktime target count (by rw [read]; exact header)
          obtain ⟨buff, failed⟩ := behindRecord_header_cut (b := b) first
          rw [next, loadRecords_failed mktime _ count failed, buff]
          exact iff_of_false (fun both => both.2 header) (not_not_intro header)
        · exact iff_of_true (loadRecords_no_header mktime target count (by rw [read]; exact header))
            header
      · have first := Nat.le_of_not_lt first
        have read : (⟨file, pos, false⟩ : Source).read b 46 = _ := Source.read_whole first
        rw [if_neg (Nat.not_lt.mpr first)]
        dsimp only
        by_cases header : IsHeader (b.store ((file.drop pos).take 46))
        case neg =>
          have error := loadRecords_no_header mktime target count (by rw [read]; exact header)
          exact iff_of_true (Or.inl error) fun header' => (header header').elim
        obtain ⟨compression, method, next⟩ :=
          loadRecords_header mktime target count (by rw [read]; exact header)
        have buff : (behindRecord b ⟨file, pos, false⟩).1 = (readName
            (b.store ((file.drop pos).take 46)) ⟨file, pos + 46, false⟩
            ((b.store ((file.drop pos).take 46)).unsignedShort 28).toNat).1 := by
          rw [behindRecord, read]
        rw [forall_prop_of_true header, ← buff]
        by_cases cut : file.length < nameEnd file pos
        · have outside : ¬IsRecord file pos := fun record => Nat.not_le_of_lt cut record.inside
          rw [if_pos cut, allOrNothing_outside listed outside, next]
          exact loadRecords_failed mktime _ count (behindRecord_cut first cut)
        · have inside := Nat.le_of_not_lt cut
          rw [read] at method next
          have described := currFile_describes first method (mktime count)
          rw [if_neg cut, next, behindRecord_whole inside, records, List.append_cons]
          exact ih _ _ (List.forall_mem_append.mpr ⟨records_, List.forall_mem_singleton.mpr
            ⟨inside, (isHeader_header b first).mp header⟩⟩) (loads.add described)

/-- The end record, which has the last 22 bytes of the file. -/
def endRecord (file : List Byte) : ReadBuff := bytesAt file (file.length - 22)

def cdCount (file : List Byte) : Nat := ((endRecord file).unsignedShort 10).toNat

def cdOffset (file : List Byte) : Nat := ((endRecord file).unsignedInt 16).toNat

/-- The end of the file is found out wherever it cuts off a part of the directory. -/
def CutsNoticed (memory : ReadBuff) (file : List Byte) : Prop :=
  22 ≤ file.length ∧ (endRecord file).unsignedInt 0 = eocdMagic →
    CutNoticed file (memory.store (file.drop (file.length - 22))) (cdOffset file) (cdCount file)

/-- The directory of an archive is loaded in whole or not at all exactly where the end of the file
    cuts off nothing of it, or where that is found out. -/
theorem load_all_or_nothing_iff (mktime : Nat → Tm → Int) (memory : ReadBuff) (file : List Byte) :
    AllOrNothing file (records file (cdOffset file) (cdCount file)) (load mktime memory file) ↔
      CutsNoticed memory file := by
  by_cases short : file.length < 22
  · have failed : load mktime memory file = .error .notAZipArchive := by
      rw [load, Source.openAtEnd, if_pos short, Source.read_failed rfl]
      rfl
    exact iff_of_true (Or.inl ⟨_, failed⟩) fun enough => (Nat.not_le_of_lt short enough.1).elim
  have enough := Nat.le_of_not_lt short
  have inside : file.length - 22 + 22 ≤ file.length := (Nat.sub_add_cancel enough).le
  have all : (file.drop (file.length - 22)).take 22 = file.drop (file.length - 22) := by
    rw [List.take_of_length_le]
    rw [List.length_drop]
    omega
  have magic := ReadBuff.stored_int (b := memory) (i := 0) inside (by decide)
  have count := ReadBuff.stored_short (b := memory) (i := 10) inside (by decide)
  have offset := ReadBuff.stored_int (b := memory) (i := 16) inside (by decide)
  rw [all] at magic count offset
  have opened : load mktime memory file =
      if (endRecord file).unsignedInt 0 ≠ eocdMagic then .error .notAZipArchive
      else loadRecords mktime (memory.store (file.drop (file.length - 22)))
        ⟨file, cdOffset file, false⟩ [] (cdCount file) := by
    rw [load, Source.openAtEnd, if_neg short, Source.read_whole inside, all]
    dsimp only
    rw [magic, count, offset]
    simp only [Bool.false_eq_true, false_or]
    rfl
  rw [opened]
  by_cases end_ : (endRecord file).unsignedInt 0 = eocdMagic
  · have none_ : Loads file [] [] := fun name => by
      rw [lastNamed]
      split <;> exact Option.Rel.none
    have loop := loop_iff mktime (memory.store (file.drop (file.length - 22))) file (cdOffset file)
      (cdCount file) (List.forall_mem_nil _) none_
    rw [if_neg (not_not.mpr end_)]
    exact loop.trans ⟨fun noticed _ => noticed, fun noticed => noticed ⟨enough, end_⟩⟩
  · rw [if_pos end_]
    exact iff_of_true (Or.inl ⟨_, rfl⟩) fun both => (end_ both.2).elim

/-- There is nothing to find out where the records lie inside the file with their names. -/
theorem cutNoticed_of_inside (b : ReadBuff) (file : List Byte) (pos count : Nat)
    (inside : ∀ place ∈ records file pos count, nameEnd file place ≤ file.length) :
    CutNoticed file b pos count := by
  induction count generalizing b pos with
  | zero => trivial
  | succ count ih =>
      rw [records, List.forall_mem_cons] at inside
      obtain ⟨first, rest⟩ := inside
      have header : pos + 46 ≤ file.length := Nat.le_trans (Nat.le_add_right _ _) first
      rw [CutNoticed, if_neg (Nat.not_lt.mpr header)]
      dsimp only
      rw [if_neg (Nat.not_lt.mpr first)]
      exact fun _ => ih _ _ rest

/-- A record for a name of 23 bytes, and only the end record behind it. -/
def cutArchive : List Byte :=
  [0x50, 0x4b, 1, 2] ++ List.replicate 24 0 ++ [23] ++ List.replicate 17 0 ++
    [0x50, 0x4b, 5, 6] ++ List.replicate 6 0 ++ [1] ++ List.replicate 11 0

/-- The last byte of the name comes from the record, and the archive is loaded. -/
theorem cut_name_loaded : ¬AllOrNothing cutArchive
    (records cutArchive (cdOffset cutArchive) (cdCount cutArchive))
    (load (fun _ _ => 0) (fun _ => 0) cutArchive) := by
  have places : records cutArchive (cdOffset cutArchive) (cdCount cutArchive) = [0] := by
    decide +kernel
  have outside : ¬nameEnd cutArchive 0 ≤ cutArchive.length := by decide +kernel
  have loaded : (load (fun _ _ => 0) (fun _ => 0) cutArchive).isOk = true := by decide +kernel
  rintro (⟨e, error⟩ | ⟨m, -, records_, -⟩)
  · rw [error] at loaded
    cases loaded
  · rw [places] at records_
    exact outside (records_ 0 List.mem_cons_self).inside

end MiniWebSrv.HTTP.RespSource.ZipArchive
