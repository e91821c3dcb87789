import Mathlib.Algebra.BigOperators.Group.List.Basic

/-! # Zip archives and gzip files

The bytes of an archive as a writer puts them together: the members with their local headers, a
directory which tells where they are, and a record at the end which tells where the directory is.
And the container which a gzip file puts around a deflated content.
-/

namespace MiniWebSrv.ZipFormat

/-! ## Numbers -/

def le16 (n : UInt16) : List UInt8 := [UInt8.ofNat n.toNat, UInt8.ofNat (n.toNat / 256)]

def le32 (n : UInt32) : List UInt8 :=
  [UInt8.ofNat n.toNat, UInt8.ofNat (n.toNat / 256), UInt8.ofNat (n.toNat / 65536),
    UInt8.ofNat (n.toNat / 16777216)]

def read16 (a b : UInt8) : UInt16 := UInt16.ofNat (a.toNat + 256 * b.toNat)

def read32 (a b c d : UInt8) : UInt32 :=
  UInt32.ofNat (a.toNat + 256 * b.toNat + 65536 * c.toNat + 16777216 * d.toNat)

theorem read16_le16 (n : UInt16) :
    read16 (UInt8.ofNat n.toNat) (UInt8.ofNat (n.toNat / 256)) = n := by
  have small := n.toNat_lt
  refine UInt16.toNat_inj.mp ?_
  simp only [read16, UInt16.toNat_ofNat', UInt8.toNat_ofNat']
  omega

theorem read32_le32 (n : UInt32) : read32 (UInt8.ofNat n.toNat) (UInt8.ofNat (n.toNat / 256))
    (UInt8.ofNat (n.toNat / 65536)) (UInt8.ofNat (n.toNat / 16777216)) = n := by
  have small := n.toNat_lt
  refine UInt32.toNat_inj.mp ?_
  simp only [read32, UInt32.toNat_ofNat', UInt8.toNat_ofNat']
  omega

/-! ## Members -/

/-- A member. The two headers have a name and an extra field each, and the local one is free to say
    something else about the rest. -/
structure Member where
  name : List UInt8
  method : UInt16
  modTime : UInt16
  modDate : UInt16
  crc32 : UInt32
  uncompressedSize : UInt32
  data : List UInt8
  extra : List UInt8
  comment : List UInt8
  versionMadeBy : UInt16
  versionNeeded : UInt16
  flags : UInt16
  diskNumber : UInt16
  internalAttributes : UInt16
  externalAttributes : UInt32
  /-- The local header from its magic number to the lengths. -/
  localFields : Fin 22 → UInt8
  localName : List UInt8
  localExtra : List UInt8
  /-- What is between the data and the next member. -/
  gap : List UInt8
  nameSized : name.length < 65536
  extraSized : extra.length < 65536
  commentSized : comment.length < 65536
  localNameSized : localName.length < 65536
  localExtraSized : localExtra.length < 65536
  dataSized : data.length < 4294967296

namespace Member

def localHeader (m : Member) : List UInt8 :=
  [le32 0x04034b50, List.ofFn m.localFields, le16 (UInt16.ofNat m.localName.length),
    le16 (UInt16.ofNat m.localExtra.length)].flatten

/-- The member in front of the directory. -/
def entry (m : Member) : List UInt8 :=
  m.localHeader ++ (m.localName ++ (m.localExtra ++ (m.data ++ m.gap)))

def centralHeader (m : Member) (offset : Nat) : List UInt8 :=
  [le32 0x02014b50, le16 m.versionMadeBy, le16 m.versionNeeded, le16 m.flags, le16 m.method,
    le16 m.modTime, le16 m.modDate, le32 m.crc32, le32 (UInt32.ofNat m.data.length),
    le32 m.uncompressedSize, le16 (UInt16.ofNat m.name.length), le16 (UInt16.ofNat m.extra.length),
    le16 (UInt16.ofNat m.comment.length), le16 m.diskNumber, le16 m.internalAttributes,
    le32 m.externalAttributes, le32 (UInt32.ofNat offset)].flatten

/-- The record of the directory about the member at this place. -/
def record (m : Member) (offset : Nat) : List UInt8 :=
  m.centralHeader offset ++ (m.name ++ (m.extra ++ m.comment))

theorem localHeader_length (m : Member) : m.localHeader.length = 30 := rfl

theorem centralHeader_length (m : Member) (offset : Nat) : (m.centralHeader offset).length = 46 := rfl

theorem record_length (m : Member) (offset : Nat) : (m.record offset).length =
    46 + m.name.length + (m.extra.length + m.comment.length) := by
  simp only [record, List.length_append, centralHeader_length]
  omega

end Member

/-! ## Archives -/

def entries (ms : List Member) : List UInt8 := ms.flatMap Member.entry

/-- The directory of members the first of which is at this place. -/
def directory : Nat → List Member → List UInt8
  | _, [] => []
  | offset, m :: rest => m.record offset ++ directory (offset + m.entry.length) rest

/-- The end record, without a comment. -/
def endRecord (count size offset : Nat) : List UInt8 :=
  [le32 0x06054b50, le16 0, le16 0, le16 (UInt16.ofNat count), le16 (UInt16.ofNat count),
    le32 (UInt32.ofNat size), le32 (UInt32.ofNat offset), le16 0].flatten

def archive (ms : List Member) : List UInt8 :=
  entries ms ++ (directory 0 ms ++
    endRecord ms.length (directory 0 ms).length (entries ms).length)

/-- The end record can tell how many members there are, and where the directory is. -/
structure Counted (ms : List Member) : Prop where
  count : ms.length < 65536
  offset : (entries ms).length < 4294967296

theorem endRecord_length (count size offset : Nat) : (endRecord count size offset).length = 22 := rfl

/-- The entry of a member, and what is in front of it. -/
theorem archive_entry (before : List Member) (m : Member) (behind : List Member) :
    ∃ rest, archive (before ++ m :: behind) = entries before ++ (m.entry ++ rest) := by
  have split : entries (before ++ m :: behind) = entries before ++ (m.entry ++ entries behind) := by
    rw [entries, List.flatMap_append, List.flatMap_cons]
    rfl
  rw [archive, split, List.append_assoc, List.append_assoc]
  exact ⟨_, rfl⟩

/-! ## Gzip -/

namespace Gzip

/-- The parts of a gzip file whose header has no optional fields. -/
structure Parts where
  deflated : List UInt8
  crc32 : UInt32
  size : UInt32
  deriving DecidableEq, Repr

def split (bytes : List UInt8) : Option Parts :=
  if bytes.take 4 = [31, 139, 8, 0] then
    match bytes.drop (bytes.length - 8) with
    | [a, b, c, d, e, f, g, h] =>
        if 18 ≤ bytes.length then
          some ⟨(bytes.drop 10).take (bytes.length - 18), read32 a b c d, read32 e f g h⟩
        else
          none
    | _ => none
  else
    none

/-- Whatever a writer says about the time and the system, the parts are found. -/
theorem split_parts (p : Parts) {fields : List UInt8} (six : fields.length = 6) :
    split ([31, 139, 8, 0] ++ (fields ++ (p.deflated ++ (le32 p.crc32 ++ le32 p.size)))) = some p := by
  have length : ([31, 139, 8, 0] ++ (fields ++ (p.deflated ++ (le32 p.crc32 ++ le32 p.size)))).length =
      p.deflated.length + 18 := by
    have numbers : (le32 p.crc32 ++ le32 p.size).length = 8 := rfl
    simp only [List.length_append, six, numbers, List.length_cons, List.length_nil]
    omega
  have last : ([31, 139, 8, 0] ++ (fields ++ (p.deflated ++ (le32 p.crc32 ++ le32 p.size)))).drop
      (p.deflated.length + 18 - 8) = le32 p.crc32 ++ le32 p.size := by
    rw [← List.append_assoc, ← List.append_assoc]
    refine List.drop_left' ?_
    simp only [List.length_append, six, List.length_cons, List.length_nil]
    omega
  have front : ([31, 139, 8, 0] ++ (fields ++ (p.deflated ++ (le32 p.crc32 ++ le32 p.size)))).drop 10 =
      p.deflated ++ (le32 p.crc32 ++ le32 p.size) := by
    rw [← List.append_assoc]
    refine List.drop_left' ?_
    simp only [List.length_append, six, List.length_cons, List.length_nil]
  have magic : ([31, 139, 8, 0] ++ (fields ++ (p.deflated ++ (le32 p.crc32 ++ le32 p.size)))).take 4 =
      [31, 139, 8, 0] := rfl
  rw [split, if_pos magic, length, last]
  simp only [le32, List.cons_append, List.nil_append]
  rw [if_pos (Nat.le_add_left 18 _), read32_le32, read32_le32, Nat.add_sub_cancel]
  refine congrArg some (congrArg (Parts.mk · _ _) ?_)
  exact (congrArg _ front).trans (List.take_left' rfl)

end Gzip

end MiniWebSrv.ZipFormat
