import Mathlib.Data.List.DropRight
import MiniWebSrv.HTTP.FileSource
import MiniWebSrv.HTTP.ZipArchive
import MiniWebSrv.Lib.ZipFormat

/-! # Files in an archive

`RespSource::Zip` sends the members of an archive. The directory of an archive as it should be comes
out of `Load` as it was put in, each name with the last of its members; the stream which is opened for
a deflated member is at its data; and the client which takes the gzip file apart has what was put into
the archive.
-/

namespace MiniWebSrv.HTTP.RespSource

open Word Responding ZipFormat

namespace ZipArchive

/-! ## Loading what has been written -/

variable {file front back : List Byte} {m : Member} {offset : Nat}

theorem bytesAt_front (front part back : List Byte) {i : Nat} (inside : i < part.length) :
    bytesAt (front ++ (part ++ back)) front.length i = part.getD i 0 := by
  rw [bytesAt, List.getD_append_right _ _ _ _ (Nat.le_add_right _ _), Nat.add_sub_cancel_left,
    List.getD_append _ _ _ _ inside]

theorem short_front (front part back : List Byte) {i : Nat} (inside : i + 1 < part.length) :
    (bytesAt (front ++ (part ++ back)) front.length).unsignedShort i =
      read16 (part.getD i 0) (part.getD (i + 1) 0) := by
  rw [ReadBuff.unsignedShort, bytesAt_front _ _ _ (Nat.lt_of_succ_lt inside),
    bytesAt_front _ _ _ inside]
  rfl

theorem int_front (front part back : List Byte) {i : Nat} (inside : i + 3 < part.length) :
    (bytesAt (front ++ (part ++ back)) front.length).unsignedInt i =
      read32 (part.getD i 0) (part.getD (i + 1) 0) (part.getD (i + 2) 0) (part.getD (i + 3) 0) := by
  rw [ReadBuff.unsignedInt, bytesAt_front _ _ _ (by omega), bytesAt_front _ _ _ (by omega),
    bytesAt_front _ _ _ (by omega), bytesAt_front _ _ _ inside]
  rfl

/-- What `Load` looks at in the header of a record. -/
structure Fields (b : ReadBuff) (m : Member) (offset : Nat) : Prop where
  magic : b.unsignedInt 0 = cdMagic
  method : b.unsignedShort 10 = m.method
  modTime : b.unsignedShort 12 = m.modTime
  modDate : b.unsignedShort 14 = m.modDate
  crc32 : b.unsignedInt 16 = m.crc32
  compressedSize : b.unsignedInt 20 = UInt32.ofNat m.data.length
  uncompressedSize : b.unsignedInt 24 = m.uncompressedSize
  fnLength : (b.unsignedShort 28).toNat = m.name.length
  extraLength : (b.unsignedShort 30).toNat = m.extra.length
  commentLength : (b.unsignedShort 32).toNat = m.comment.length
  localHeaderOffset : b.unsignedInt 42 = UInt32.ofNat offset

theorem fields_record (front : List Byte) (m : Member) (offset : Nat) (back : List Byte) :
    Fields (bytesAt (front ++ (m.record offset ++ back)) front.length) m offset := by
  have whole : m.record offset ++ back =
      m.centralHeader offset ++ (m.name ++ (m.extra ++ m.comment) ++ back) := by
    rw [Member.record, List.append_assoc]
  have short := fun i => short_front front (m.centralHeader offset)
    (m.name ++ (m.extra ++ m.comment) ++ back) (i := i)
  have int := fun i => int_front front (m.centralHeader offset)
    (m.name ++ (m.extra ++ m.comment) ++ back) (i := i)
  rw [m.centralHeader_length] at short int
  rw [whole]
  exact
    { magic := (int 0 (by decide)).trans (read32_le32 _)
      method := (short 10 (by decide)).trans (read16_le16 _)
      modTime := (short 12 (by decide)).trans (read16_le16 _)
      modDate := (short 14 (by decide)).trans (read16_le16 _)
      crc32 := (int 16 (by decide)).trans (read32_le32 _)
      compressedSize := (int 20 (by decide)).trans (read32_le32 _)
      uncompressedSize := (int 24 (by decide)).trans (read32_le32 _)
      fnLength := (congrArg _ ((short 28 (by decide)).trans (read16_le16 _))).trans
        (UInt16.toNat_ofNat_of_lt' m.nameSized)
      extraLength := (congrArg _ ((short 30 (by decide)).trans (read16_le16 _))).trans
        (UInt16.toNat_ofNat_of_lt' m.extraSized)
      commentLength := (congrArg _ ((short 32 (by decide)).trans (read16_le16 _))).trans
        (UInt16.toNat_ofNat_of_lt' m.commentSized)
      localHeaderOffset := (int 42 (by decide)).trans (read32_le32 _) }

def compressionOf (m : Member) : CompressionMethod := if m.method = 8 then .deflate else .store

/-- A member which `Load` knows how to send. -/
def Supported (m : Member) : Prop := m.method = 0 ∨ m.method = 8

theorem Supported.method (supported : Supported m) :
    getCompressionMethod m.method = .ok (compressionOf m) := by
  rcases supported with method | method <;> rw [getCompressionMethod, compressionOf, method] <;> rfl

/-- What the map should have about a member. -/
def fileInfo (mktime : Tm → Int) (m : Member) (offset : Nat) : ArchiveFile where
  compression := compressionOf m
  crc32 := m.crc32
  compressedSize := UInt32.ofNat m.data.length
  uncompressedSize := m.uncompressedSize
  lastModTime := mktime (fileModTime m.modTime m.modDate)
  localHeaderOffset := UInt32.ofNat offset

def filled (mktime : Nat → Tm → Int) : Nat → List Member → StringMap ArchiveFile → StringMap ArchiveFile
  | _, [], target => target
  | offset, m :: rest, target =>
      filled mktime (offset + m.entry.length) rest
        (if IsFileName m.name then StringMap.set m.name (fileInfo (mktime rest.length) m offset) target
        else target)

theorem nameAt_record (front : List Byte) (m : Member) (offset : Nat) (back : List Byte) :
    nameAt (front ++ (m.record offset ++ back)) front.length = m.name := by
  have length := m.centralHeader_length offset
  have behind : (front ++ (m.record offset ++ back)).drop (front.length + 46) =
      m.name ++ (m.extra ++ (m.comment ++ back)) := by
    rw [← List.drop_drop, List.drop_left, Member.record, List.append_assoc, List.drop_left' length,
      List.append_assoc, List.append_assoc]
  rw [nameAt, behind, (fields_record front m offset back).fnLength, List.take_left]

theorem nextRecord_record (front : List Byte) (m : Member) (offset : Nat) (back : List Byte) :
    nextRecord (front ++ (m.record offset ++ back)) front.length =
      (front ++ m.record offset).length := by
  have fields := fields_record front m offset back
  rw [nextRecord, nameEnd, fields.fnLength, fields.extraLength, fields.commentLength,
    List.length_append, Member.record_length]
  omega

theorem currFile_record (front : List Byte) (m : Member) (offset : Nat) (back : List Byte)
    (b : ReadBuff) (mktime : Tm → Int) :
    currFile mktime (b.store (((front ++ (m.record offset ++ back)).drop front.length).take 46))
      (compressionOf m) = fileInfo mktime m offset := by
  have fields := fields_record front m offset back
  have inside : front.length + 46 ≤ (front ++ (m.record offset ++ back)).length := by
    simp only [List.length_append, Member.record_length]
    omega
  simp only [currFile, ReadBuff.stored_int inside (show 16 + 3 < 46 by decide),
    ReadBuff.stored_int inside (show 20 + 3 < 46 by decide),
    ReadBuff.stored_int inside (show 24 + 3 < 46 by decide),
    ReadBuff.stored_int inside (show 42 + 3 < 46 by decide),
    ReadBuff.stored_short inside (show 12 + 1 < 46 by decide),
    ReadBuff.stored_short inside (show 14 + 1 < 46 by decide), fields.crc32, fields.compressedSize,
    fields.uncompressedSize, fields.localHeaderOffset, fields.modTime, fields.modDate]
  rfl

theorem loadRecords_directory (mktime : Nat → Tm → Int) (b : ReadBuff) {ms : List Member}
    (supported : ∀ m ∈ ms, Supported m) (front : List Byte) (offset : Nat) (back : List Byte)
    (target : StringMap ArchiveFile) :
    loadRecords mktime b ⟨front ++ (directory offset ms ++ back), front.length, false⟩ target
      ms.length = .ok (filled mktime offset ms target) := by
  induction ms generalizing b front offset target with
  | nil => rfl
  | cons m rest ih =>
      have here := (supported m List.mem_cons_self).method
      have later : directory offset (m :: rest) ++ back =
          m.record offset ++ (directory (offset + m.entry.length) rest ++ back) := by
        rw [directory, List.append_assoc]
      rw [later]
      generalize tail : directory (offset + m.entry.length) rest ++ back = behind
      have fields := fields_record front m offset behind
      have length : (front ++ (m.record offset ++ behind)).length =
          front.length + (46 + m.name.length + (m.extra.length + m.comment.length) +
            behind.length) := by
        rw [List.length_append, List.length_append, Member.record_length]
      have inside : nameEnd (front ++ (m.record offset ++ behind)) front.length ≤
          (front ++ (m.record offset ++ behind)).length := by
        rw [nameEnd, fields.fnLength, length]
        omega
      have first : front.length + 46 ≤ (front ++ (m.record offset ++ behind)).length := by omega
      have read := Source.read_whole (b := b) first
      have header : IsHeader (b.store (((front ++ (m.record offset ++ behind)).drop
          front.length).take 46)) :=
        (isHeader_header b first).mpr ⟨fields.magic, by rw [fields.method, here]; rfl⟩
      obtain ⟨compression, method, next⟩ := loadRecords_header mktime target rest.length
        (by rw [read]; exact header)
      rw [read, ReadBuff.stored_short first (by decide), fields.method, here] at method
      obtain rfl := Except.ok.inj method
      rw [read] at next
      rw [List.length_cons, next, behindRecord_whole inside, nameAt_record, nextRecord_record,
        currFile_record, filled, ← List.append_assoc, ← tail]
      exact ih _ (fun g member => supported g (List.mem_cons_of_mem m member)) _ _ _

/-- The end record leads to the directory. -/
theorem load_archive (mktime : Nat → Tm → Int) (memory : ReadBuff) {ms : List Member}
    (counted : Counted ms) (supported : ∀ m ∈ ms, Supported m) :
    load mktime memory (archive ms) = .ok (filled mktime 0 ms []) := by
  have length : (archive ms).length = (entries ms ++ directory 0 ms).length + 22 := by
    rw [archive, ← List.append_assoc, List.length_append, endRecord_length]
  have place : (archive ms).length - 22 = (entries ms ++ directory 0 ms).length := by omega
  have whole : archive ms = (entries ms ++ directory 0 ms) ++
      (ZipFormat.endRecord ms.length (directory 0 ms).length (entries ms).length ++ []) := by
    rw [archive, List.append_nil, List.append_assoc]
  have inside : (archive ms).length - 22 + 22 ≤ (archive ms).length := by omega
  have magic : (bytesAt (archive ms) ((archive ms).length - 22)).unsignedInt 0 = eocdMagic := by
    rw [place, whole, int_front _ _ _ (by rw [endRecord_length]; decide)]
    exact read32_le32 _
  have count : ((bytesAt (archive ms) ((archive ms).length - 22)).unsignedShort 10).toNat =
      ms.length := by
    rw [place, whole, short_front _ _ _ (by rw [endRecord_length]; decide)]
    exact (congrArg _ (read16_le16 _)).trans (UInt16.toNat_ofNat_of_lt' counted.count)
  have offset : ((bytesAt (archive ms) ((archive ms).length - 22)).unsignedInt 16).toNat =
      (entries ms).length := by
    rw [place, whole, int_front _ _ _ (by rw [endRecord_length]; decide)]
    exact (congrArg _ (read32_le32 _)).trans (UInt32.toNat_ofNat_of_lt' counted.offset)
  have short : ¬(archive ms).length < 22 := by omega
  rw [load, Source.openAtEnd, if_neg short, Source.read_whole inside]
  dsimp only
  rw [ReadBuff.stored_int inside (by decide), ReadBuff.stored_int inside (by decide),
    ReadBuff.stored_short inside (by decide), magic, count, offset]
  simp only [Bool.false_eq_true, false_or, ne_eq, not_true_eq_false, if_false, Source.seekg]
  exact loadRecords_directory mktime _ supported (entries ms) 0 _ []

/-! ## What the map has -/

/-- The last member of a name, with what is in front of it and behind it. -/
structure Named (ms : List Member) (name : List Byte) (before : List Member) (m : Member)
    (behind : List Member) : Prop where
  split : ms = before ++ m :: behind
  named : m.name = name
  fileName : IsFileName name
  last : ∀ g ∈ behind, g.name ≠ name

theorem lookup_filled (mktime : Nat → Tm → Int) (name : List Byte) (offset : Nat) (ms : List Member)
    (target : StringMap ArchiveFile) :
    (∃ before m behind, Named ms name before m behind ∧ (filled mktime offset ms target).lookup name =
      some (fileInfo (mktime behind.length) m (offset + (entries before).length))) ∨
    ((IsFileName name → ∀ m ∈ ms, m.name ≠ name) ∧
      (filled mktime offset ms target).lookup name = target.lookup name) := by
  induction ms generalizing offset target with
  | nil => exact Or.inr ⟨fun _ _ => nofun, rfl⟩
  | cons m rest ih =>
      rw [filled]
      rcases ih (offset + m.entry.length) (if IsFileName m.name then
        StringMap.set m.name (fileInfo (mktime rest.length) m offset) target else target) with
        ⟨before, g, behind, named, found⟩ | ⟨nowhere, same⟩
      · have length : offset + m.entry.length + (entries before).length =
            offset + (entries (m :: before)).length := by
          rw [entries, entries, List.flatMap_cons, List.length_append, Nat.add_assoc]
        refine Or.inl ⟨m :: before, g, behind,
          ⟨congrArg _ named.split, named.named, named.fileName, named.last⟩, ?_⟩
        rw [found, length]
      · rw [same]
        by_cases here : IsFileName name ∧ m.name = name
        · obtain ⟨fileName, rfl⟩ := here
          refine Or.inl ⟨[], m, rest, ⟨rfl, rfl, fileName, nowhere fileName⟩, ?_⟩
          rw [if_pos fileName, StringMap.lookup_set]
          rfl
        · refine Or.inr ⟨fun fileName g member => ?_, ?_⟩
          · rcases List.mem_cons.mp member with rfl | member
            · exact fun same => here ⟨fileName, same⟩
            · exact nowhere fileName g member
          · split
            · rename_i fileName
              have differ : name ≠ m.name := fun same => here ⟨same ▸ fileName, same.symm⟩
              rw [StringMap.lookup_set_other differ]
            · rfl

/-! ## Streams -/

def lfhMagic : UInt32 := 0x04034b50

/-- `Stream::Stream`, or `none` where it throws. The archive is `none` if it cannot be opened any
    more. -/
def openStream (archive : Option (List Byte)) (memory : ReadBuff) (info : ArchiveFile) :
    Option InStream :=
  archive.bind fun file =>
    let s := (⟨file, 0, false⟩ : Source).seekg info.localHeaderOffset.toNat
    let r := s.read memory 30
    if r.2.fail ∨ r.1.unsignedInt 0 ≠ lfhMagic then
      none
    else
      let s := r.2.seekg (r.2.pos + ((r.1.unsignedShort 26).toNat + (r.1.unsignedShort 28).toNat))
      if s.fail then none else some ⟨s.file.drop s.pos, s.fail⟩

theorem openStream_entry (memory : ReadBuff) (before : List Member) (m : Member)
    (behind : List Member) (counted : Counted (before ++ m :: behind)) (mktime : Tm → Int) :
    ∃ rest, openStream (some (archive (before ++ m :: behind))) memory
      (fileInfo mktime m (entries before).length) = some ⟨m.data ++ rest, false⟩ := by
  obtain ⟨rest, whole⟩ := archive_entry before m behind
  have part : m.entry ++ rest = m.localHeader ++
      (m.localName ++ (m.localExtra ++ (m.data ++ (m.gap ++ rest)))) := by
    simp only [Member.entry, List.append_assoc]
  have offset : (UInt32.ofNat (entries before).length).toNat = (entries before).length := by
    refine UInt32.toNat_ofNat_of_lt' (Nat.lt_of_le_of_lt ?_ counted.offset)
    rw [entries, entries, List.flatMap_append, List.length_append]
    exact Nat.le_add_right _ _
  have length : (archive (before ++ m :: behind)).length = (entries before).length + (30 +
      (m.localName ++ (m.localExtra ++ (m.data ++ (m.gap ++ rest)))).length) := by
    rw [whole, part, List.length_append, List.length_append, m.localHeader_length]
  have inside : (entries before).length + 30 ≤ (archive (before ++ m :: behind)).length := by omega
  have magic : (bytesAt (archive (before ++ m :: behind)) (entries before).length).unsignedInt 0 =
      lfhMagic := by
    rw [whole, part, int_front _ _ _ (by rw [m.localHeader_length]; decide)]
    exact read32_le32 _
  have nameLength : ((bytesAt (archive (before ++ m :: behind))
      (entries before).length).unsignedShort 26).toNat = m.localName.length := by
    rw [whole, part, short_front _ _ _ (by rw [m.localHeader_length]; decide)]
    exact (congrArg _ (read16_le16 _)).trans (UInt16.toNat_ofNat_of_lt' m.localNameSized)
  have extraLength : ((bytesAt (archive (before ++ m :: behind))
      (entries before).length).unsignedShort 28).toNat = m.localExtra.length := by
    rw [whole, part, short_front _ _ _ (by rw [m.localHeader_length]; decide)]
    exact (congrArg _ (read16_le16 _)).trans (UInt16.toNat_ofNat_of_lt' m.localExtraSized)
  have data : (archive (before ++ m :: behind)).drop ((entries before).length + 30 +
      (m.localName.length + m.localExtra.length)) = m.data ++ (m.gap ++ rest) := by
    rw [whole, part, ← List.drop_drop, ← List.drop_drop, ← List.drop_drop, List.drop_left,
      List.drop_left' m.localHeader_length, List.drop_left, List.drop_left]
  refine ⟨m.gap ++ rest, ?_⟩
  rw [openStream, Option.bind_some, fileInfo, offset]
  dsimp only [Source.seekg]
  rw [if_neg Bool.false_ne_true, Source.read_whole inside]
  dsimp only
  rw [ReadBuff.stored_int inside (by decide), ReadBuff.stored_short inside (by decide),
    ReadBuff.stored_short inside (by decide), magic, nameLength, extraLength, ← data]
  rfl

end ZipArchive

/-! ## Zip -/

namespace Zip

open ZipArchive

/-- `GetMimeType` -/
def getMimeType (fileName : List Byte) : List Byte :=
  if ch '.' ∈ fileName then
    MimeDB.getMimeType (ch '.' :: fileName.rtakeWhile fun c => decide (c ≠ ch '.'))
  else
    MimeDB.unknownMimeType

/-- The value of the second header: there is no stream if the member has not been modified. -/
def encoding (info : FileInfo) (ifModifiedSince : Int) : List Byte :=
  if ifModifiedSince < info.lastModTime ∧ info.compression = .deflate then text "gzip"
  else text "identity"

/-- `Zip::Response`; `memory` is what the object has been made in. A date which is too long for its
    buffer leaves that undefined, and is empty here. -/
def response (memory : ZipResponse) (info : FileInfo) (inS : InStream) (mimeType : List Byte)
    (ifModifiedSince : Int) : Page where
  response := .zip (.create memory info inS ifModifiedSince)
  respCode := (ZipResponse.create memory info inS ifModifiedSince).getResponseCode
  contentType := mimeType
  contentTypeCharset := none
  extraHeaders :=
    [⟨Header.getHeaderName .lastModified, (Header.formatDateTime info.lastModTime).getD []⟩,
      ⟨Header.getHeaderName .contentEncoding, encoding info ifModifiedSince⟩]

def fileName (resource : List Byte) : List Byte :=
  if resource.length ≠ 0 then resource.drop 1 else resource

/-- `Zip::Create` -/
def create (archive : Option (List Byte)) (fileInfoMap : StringMap ArchiveFile)
    (readBuff : ReadBuff) (memory : ZipResponse) (resource : List Byte)
    (headerA : List (HeaderName × List Byte)) : Page :=
  match fileInfoMap.lookup (fileName resource) with
  | none => .commonError (.create resource none .notFound)
  | some targetFI =>
      match openStream archive readBuff targetFI with
      | some inS =>
          response memory targetFI.toFileInfo inS (getMimeType resource) (ifModSinceTime headerA)
      | none => .commonError (.create resource none .notFound)

theorem getMimeType_plain (fileName : List Byte) :
    cr ∉ getMimeType fileName ∧ (getMimeType fileName).length ≤ 24 := by
  unfold getMimeType
  split
  · exact MimeDB.getMimeType_plain _
  · exact ⟨by decide +kernel, by decide +kernel⟩

theorem extraHeaders_clean {info : FileInfo} (years : Header.FourDigits info.lastModTime)
    (memory : ZipResponse) (inS : InStream) (mimeType : List Byte) (ifModifiedSince : Int) :
    (∀ h ∈ (response memory info inS mimeType ifModifiedSince).extraHeaders, h.Clean) ∧
      ((response memory info inS mimeType ifModifiedSince).extraHeaders.map
        ExtraHeader.lineLength).sum ≤ 74 ∧
      Client.lookup (text "content-encoding")
          ((response memory info inS mimeType ifModifiedSince).extraHeaders.map ExtraHeader.field) =
        some (encoding info ifModifiedSince) := by
  obtain ⟨clean, line⟩ := FS.lastModified_clean years
  have name : ExtraHeader.IsFieldName (Header.getHeaderName .contentEncoding) := by decide +kernel
  have length : (Header.getHeaderName .contentEncoding).length = 16 := rfl
  have value : cr ∉ encoding info ifModifiedSince ∧ (encoding info ifModifiedSince).length ≤ 8 := by
    unfold encoding
    split <;> decide
  obtain ⟨coding, field, lineLength⟩ := ExtraHeader.IsFieldName.clean
    (h := ⟨Header.getHeaderName .contentEncoding, encoding info ifModifiedSince⟩) name value.1
    (Nat.le_trans value.2 (by decide))
  have other : ∀ v, (ExtraHeader.field ⟨Header.getHeaderName .lastModified, v⟩).1.map
      Header.lower ≠ text "content-encoding" := by
    intro v
    have name : ((Header.getHeaderName .lastModified).take (u32 13)).map Header.lower ≠
        text "content-encoding" := by decide +kernel
    exact name
  have same : (text "content-encoding").map Header.lower = text "content-encoding" := by
    decide +kernel
  refine ⟨fun h member => ?_, ?_, ?_⟩
  · simp only [response, List.mem_cons, List.not_mem_nil, or_false] at member
    rcases member with rfl | rfl
    · exact clean
    · exact coding
  · simp only [response, List.map_cons, List.map_nil, List.sum_cons, List.sum_nil, line, lineLength,
      length]
    omega
  · have fields : (response memory info inS mimeType ifModifiedSince).extraHeaders.map
        ExtraHeader.field = [ExtraHeader.field ⟨Header.getHeaderName .lastModified,
          (Header.formatDateTime info.lastModTime).getD []⟩] ++ [(text "content-encoding", encoding info ifModifiedSince)] := by
      simp only [response, List.map_cons, List.map_nil, field]
      rfl
    rw [fields]
    exact ResponseHead.lookup_found (fun f member => List.mem_singleton.mp member ▸ other _) same []

theorem gzipFooter_eq (info : FileInfo) :
    ZipResponse.gzipFooter info = le32 info.crc32 ++ le32 info.uncompressedSize := by
  have bytes : ∀ n : UInt32, (List.range 4).map (ZipResponse.littleEndian n) = le32 n := by
    intro n
    simp [le32, List.range_succ, ZipResponse.littleEndian]
  rw [ZipResponse.gzipFooter, bytes, bytes]

variable {info : FileInfo} {data : List Byte} {ifModifiedSince : Int}

def gzipFile (data : List Byte) (info : FileInfo) : List Byte :=
  ZipResponse.gzipHeaderA ++ (data ++ (le32 info.crc32 ++ le32 info.uncompressedSize))

theorem split_gzipFile (data : List Byte) (info : FileInfo) :
    Gzip.split (gzipFile data info) = some ⟨data, info.crc32, info.uncompressedSize⟩ := by
  have six : ([0, 0, 0, 0, 2, 255] : List Byte).length = 6 := rfl
  exact Gzip.split_parts ⟨data, info.crc32, info.uncompressedSize⟩ six

theorem create_intact (memory : ZipResponse) (deflated : info.compression = .deflate)
    (size : info.compressedSize.toNat = data.length) (new : ifModifiedSince < info.lastModTime)
    (rest : List Byte) :
    (Response.zip (.create memory info ⟨data ++ rest, false⟩ ifModifiedSince)).Intact
      (gzipFile data info) := by
  have small : data.length < 4294967296 := size ▸ info.compressedSize.toNat_lt
  have opened : data.length + 18 < notModifiedSize := by
    rw [notModifiedSize]
    omega
  have header : ZipResponse.gzipHeaderA.length = 10 := rfl
  have footer : (le32 info.crc32 ++ le32 info.uncompressedSize).length = 8 := rfl
  have made : ZipResponse.create memory info ⟨data ++ rest, false⟩ ifModifiedSince =
      ⟨data.length + 18, ⟨data.length, 0, ⟨data ++ rest, false⟩⟩, fun i =>
        if i.val < 4 then ZipResponse.littleEndian info.crc32 i.val
        else ZipResponse.littleEndian info.uncompressedSize (i.val - 4), .header 0⟩ := by
    rw [ZipResponse.create, if_pos new]
    simp only [deflated, size]
    rfl
  have holds : (ZipStream.mk data.length 0 ⟨data ++ rest, false⟩).Holds data :=
    ⟨by rw [Nat.zero_add, u32_of_lt small], rfl, rest, rfl⟩
  have left : (ZipResponse.mk (data.length + 18) ⟨data.length, 0, ⟨data ++ rest, false⟩⟩
      (fun i => if i.val < 4 then ZipResponse.littleEndian info.crc32 i.val
        else ZipResponse.littleEndian info.uncompressedSize (i.val - 4)) .body).Left
      (data ++ (le32 info.crc32 ++ le32 info.uncompressedSize)) := by
    rw [← gzipFooter_eq info, ← ZipResponse.ofFn_footer]
    exact .body rfl holds
  rw [made]
  refine Or.inr ⟨⟨Nat.ne_of_lt opened, .inl ⟨rfl, _, rfl, left⟩⟩, ?_, opened⟩
  rw [gzipFile, List.length_append, List.length_append, header, footer]
  dsimp only
  omega

theorem response_sound {memory : ZipResponse} {rest resource : List Byte} {p : Page}
    (made : response memory info ⟨data ++ rest, false⟩ (getMimeType resource) ifModifiedSince = p)
    (deflated : info.compression = .deflate) (size : info.compressedSize.toNat = data.length)
    (years : Header.FourDigits info.lastModTime) :
    p.textLength ≤ 100 ∧
      if info.lastModTime ≤ ifModifiedSince then p.respCode = .notModified ∧ p.Sound []
      else p.respCode = .ok ∧ p.Sound (gzipFile data info) ∧
        Client.lookup (text "content-encoding") (p.extraHeaders.map ExtraHeader.field) =
          some (text "gzip") := by
  obtain ⟨plain, type⟩ := getMimeType_plain resource
  obtain ⟨clean, lines, coding⟩ := extraHeaders_clean years memory ⟨data ++ rest, false⟩
    (getMimeType resource) ifModifiedSince
  rw [made] at clean lines coding
  subst made
  refine ⟨?_, ?_⟩
  · rw [Page.textLength]
    dsimp only [response] at lines ⊢
    simp only [Option.getD_none, List.length_nil]
    omega
  · split
    · rename_i old
      have unmodified : (ZipResponse.create memory info ⟨data ++ rest, false⟩
          ifModifiedSince).fileSize = notModifiedSize := by
        rw [ZipResponse.create, if_neg (Int.not_lt.mpr old)]
      have known : (Response.zip (.create memory info ⟨data ++ rest, false⟩
          ifModifiedSince)).getLength = 0 := if_neg (not_not_intro unmodified)
      refine ⟨if_neg (not_not_intro unmodified), .inl ⟨unmodified, rfl⟩, plain, Page.no_charset,
        clean, fun _ => ⟨?_, rfl⟩⟩
      rw [response, known]
      decide
    · rename_i new
      have new := Int.not_le.mp new
      have ok : (ZipResponse.create memory info ⟨data ++ rest, false⟩
          ifModifiedSince).getResponseCode = .ok := by
        have size := ZipResponse.create_size memory ⟨data ++ rest, false⟩ new
        refine if_pos ?_
        rw [notModifiedSize]
        omega
      have bodied : ¬Client.bodiless ResponseCode.ok.number = true := by decide
      refine ⟨ok, ⟨create_intact memory deflated size new rest, plain, Page.no_charset, clean,
        fun bodiless => ?_⟩, ?_⟩
      · dsimp only [response] at bodiless
        rw [ok] at bodiless
        exact absurd bodiless bodied
      · rw [coding, encoding, if_pos ⟨new, deflated⟩]

/-- What the client should see of a resource. -/
inductive Sees (mktime : Nat → ZipArchive.Tm → Int) (ms : List Member) (resource : List Byte)
    (ifModSince : Int) (a : Client.Received) : Prop
  | missing (nowhere : IsFileName (fileName resource) → ∀ m ∈ ms, m.name ≠ fileName resource)
      (code : a.code = 404)
      (body : a.body = (CommonErrorResponse.create resource none .notFound).page)
  | notModified {before behind : List Member} {m : Member}
      (named : Named ms (fileName resource) before m behind)
      (old : mktime behind.length (fileModTime m.modTime m.modDate) ≤ ifModSince)
      (code : a.code = 304) (body : a.body = [])
  | member {before behind : List Member} {m : Member}
      (named : Named ms (fileName resource) before m behind)
      (new : ifModSince < mktime behind.length (fileModTime m.modTime m.modDate))
      (code : a.code = 200)
      (encoded : Client.lookup (text "content-encoding") a.fields = some (text "gzip"))
      (parts : Gzip.split a.body = some ⟨m.data, m.crc32, m.uncompressedSize⟩)

/-- Whatever is created comes to the client as it should. -/
theorem create_reaches {h : Heading} (heading : h.Sound) {maxHeadersLength : Nat}
    (small : maxHeadersLength ≤ 2147483647) (room : h.serverName.length + 300 ≤ maxHeadersLength)
    (mktime : Nat → ZipArchive.Tm → Int) {ms : List Member} (counted : Counted ms)
    (deflated : ∀ m ∈ ms, m.method = 8)
    (years : ∀ m ∈ ms, ∀ n, Header.FourDigits (mktime n (fileModTime m.modTime m.modDate)))
    {resource : List Byte} (short : 2 * resource.length + 209 < chunkRoom) (readBuff : ReadBuff)
    (memory : ZipResponse) (headerA : List (HeaderName × List Byte)) {s : Serving}
    (settled : s.Settled) (isOpen : s.isOpen = true) (behind : Nat → Byte) :
    (create (some (archive ms)) (filled mktime 0 ms []) readBuff memory resource
      headerA).Reaches h maxHeadersLength behind s
        (Sees mktime ms resource (ifModSinceTime headerA)) := by
  rcases lookup_filled mktime (fileName resource) 0 ms [] with
    ⟨before, m, after, named, found⟩ | ⟨nowhere, none_⟩
  · obtain ⟨rfl, -, -, -⟩ := id named
    have member : m ∈ before ++ m :: after := List.mem_append_right _ List.mem_cons_self
    obtain ⟨rest, stream⟩ :=
      openStream_entry readBuff before m after counted (mktime after.length)
    have size : (UInt32.ofNat m.data.length).toNat = m.data.length :=
      UInt32.toNat_ofNat_of_lt' m.dataSized
    rw [Nat.zero_add] at found
    simp only [create, found, stream]
    generalize made : response memory _ _ _ _ = p
    obtain ⟨short, shown⟩ := response_sound made (if_pos (deflated m member)) size
      (years m member after.length)
    split at shown
    · rename_i old
      obtain ⟨code, sound⟩ := shown
      exact (sound.reaches heading small (by omega) behind settled isOpen).mono fun a readAs =>
        .notModified named old (by rw [readAs.code, code]; rfl) readAs.body
    · rename_i new
      obtain ⟨code, sound, coding⟩ := shown
      refine (sound.reaches heading small (by omega) behind settled isOpen).mono fun a readAs =>
        .member named (Int.not_le.mp new) (by rw [readAs.code, code]; rfl) ?_ ?_
      · rw [readAs.fields _ (by decide +kernel), coding]
      · rw [readAs.body]
        exact split_gzipFile _ _
  · obtain ⟨sound, length⟩ := Page.commonError_sound (e := .create resource none .notFound) short
      (.inr (.inl rfl))
    simp only [create, none_, List.lookup_nil]
    exact (sound.reaches heading small (by omega) behind settled isOpen).mono fun a readAs =>
      .missing nowhere readAs.code readAs.body

def emptyText : Member where
  name := text "a.txt"
  method := 8
  modTime := 0
  modDate := 0
  crc32 := 0
  uncompressedSize := 0
  data := [3, 0]
  extra := []
  comment := []
  versionMadeBy := 20
  versionNeeded := 20
  flags := 0
  diskNumber := 0
  internalAttributes := 0
  externalAttributes := 0
  localFields := fun _ => 0
  localName := text "a.txt"
  localExtra := [1, 2, 3, 4]
  gap := []
  nameSized := by decide
  extraSized := by decide
  commentSized := by decide
  localNameSized := by decide
  localExtraSized := by decide
  dataSized := by decide

end Zip

end MiniWebSrv.HTTP.RespSource
