import MiniWebSrv.HTTP.DateTime

/-! # If-Modified-Since

How `FS` and `Zip` decide whether a file has been modified, and what becomes of a date which the
server itself has written in a `Last-Modified` header.
-/

namespace MiniWebSrv.HTTP.RespSource

open Calendar Header

/-- The loop of `Create`: the time of the first header of this name, or 0 where it has none. The
    headers have their names and their values. -/
def ifModSinceTime (headerA : List (HeaderName × List Byte)) : Int :=
  match headerA.find? (·.1 = .ifModSince) with
  | some header =>
      match getDateTime header.2 with
      | .ok time => time
      | .error _ => 0
  | none => 0

/-- A file which `FS` has found; its size is an `off_t`. -/
structure StoredFile where
  lastModTime : Int
  content : List Byte
  opens : Bool
  sized : content.length ≤ 9223372036854775807

namespace FSResponse

/-- The constructor, or `none` where it throws. -/
def create (file : StoredFile) (ifModifiedSince : Int) : Option FSResponse :=
  if ifModifiedSince = 0 ∨ ifModifiedSince < file.lastModTime then
    if file.opens then some ⟨file.content.length, 0, ⟨file.content, false⟩⟩ else none
  else
    some ⟨notModifiedSize, 0, ⟨[], false⟩⟩

def getResponseCode (r : FSResponse) : ResponseCode :=
  if r.fileSize ≠ notModifiedSize then .ok else .notModified

theorem create_notModified (file : StoredFile) (ifModifiedSince : Int) :
    (create file ifModifiedSince).map getResponseCode = some .notModified ↔
      ifModifiedSince ≠ 0 ∧ file.lastModTime ≤ ifModifiedSince := by
  have sized := file.sized
  unfold create
  split
  · rename_i modified
    have differs : file.content.length ≠ notModifiedSize := by
      rw [notModifiedSize]
      omega
    constructor
    · intro code
      split at code
      · rw [Option.map_some, getResponseCode, if_pos differs] at code
        cases code
      · cases code
    · rintro ⟨given, old⟩
      omega
  · rename_i same
    have same : ifModifiedSince ≠ 0 ∧ file.lastModTime ≤ ifModifiedSince := by omega
    refine ⟨fun _ => same, fun _ => ?_⟩
    rw [Option.map_some, getResponseCode, if_neg (not_not_intro rfl)]

end FSResponse

inductive CompressionMethod where
  | store
  | deflate
  deriving DecidableEq, Repr

/-- `ZipArchive::FileInfo`; the sizes are `size_t`s which `Load` reads from four bytes. -/
structure FileInfo where
  compression : CompressionMethod
  crc32 : UInt32
  compressedSize : UInt32
  uncompressedSize : UInt32
  lastModTime : Int
  deriving DecidableEq, Repr

namespace ZipResponse

/-- The bytes of an `unsigned int` in memory. -/
def littleEndian (n : UInt32) (i : Nat) : Byte := UInt8.ofNat (n.toNat / 256 ^ i)

/-- The constructor, on a stream behind the local header of the file; the members which it does not
    set are what the `memory` of the object holds. -/
def create (memory : ZipResponse) (info : FileInfo) (inS : InStream) (ifModifiedSince : Int) :
    ZipResponse :=
  if ifModifiedSince < info.lastModTime then
    let opened : ZipResponse :=
      { memory with sourceS := ⟨info.compressedSize.toNat, 0, inS⟩ }
    match info.compression with
    | .deflate =>
        { opened with
          fileSize := info.compressedSize.toNat + (gzipHeaderA.length + 8)
          gzipFooterA := fun i =>
            if i.val < 4 then littleEndian info.crc32 i.val
            else littleEndian info.uncompressedSize (i.val - 4)
          cState := .header 0 }
    | .store => { opened with fileSize := info.compressedSize.toNat, cState := .bodyOnly }
  else
    { memory with fileSize := notModifiedSize }

def getResponseCode (r : ZipResponse) : ResponseCode :=
  if r.fileSize ≠ notModifiedSize then .ok else .notModified

/-- A file which is sent has less than twice 4 GiB. -/
theorem create_size (memory : ZipResponse) {info : FileInfo} (inS : InStream)
    {ifModifiedSince : Int} (modified : ifModifiedSince < info.lastModTime) :
    (create memory info inS ifModifiedSince).fileSize < 8589934592 := by
  have sized : info.compressedSize.toNat < 4294967296 := info.compressedSize.toNat_lt
  rw [create, if_pos modified]
  cases info.compression with
  | deflate =>
      have size : info.compressedSize.toNat + (10 + 8) < 8589934592 := by omega
      exact size
  | store =>
      have size : info.compressedSize.toNat < 8589934592 := by omega
      exact size

theorem create_notModified (memory : ZipResponse) (info : FileInfo) (inS : InStream)
    (ifModifiedSince : Int) :
    (create memory info inS ifModifiedSince).getResponseCode = .notModified ↔
      info.lastModTime ≤ ifModifiedSince := by
  rcases Int.lt_or_le ifModifiedSince info.lastModTime with modified | same
  · have size := create_size memory inS modified
    have differs : (create memory info inS ifModifiedSince).fileSize ≠ notModifiedSize := by
      rw [notModifiedSize]
      omega
    rw [getResponseCode, if_pos differs]
    constructor
    · intro code
      cases code
    · intro old
      omega
  · refine ⟨fun _ => same, fun _ => ?_⟩
    rw [create, if_neg (by omega)]
    exact if_neg (not_not_intro rfl)

end ZipResponse

/-- A timestamp comes back from its header, and decides as a file's own time does. -/
def DateRoundTrips (timestamp : Int) : Prop :=
  ∃ value, formatDateTime timestamp = some value ∧ getDateTime value = .ok timestamp ∧
    (0 < timestamp → ∀ headerA : List (HeaderName × List Byte),
      headerA.find? (·.1 = .ifModSince) = some (.ifModSince, value) →
        (∀ file, (FSResponse.create file (ifModSinceTime headerA)).map FSResponse.getResponseCode =
            some .notModified ↔ file.lastModTime ≤ timestamp) ∧
          ∀ memory info inS,
            (ZipResponse.create memory info inS (ifModSinceTime headerA)).getResponseCode =
              .notModified ↔ info.lastModTime ≤ timestamp)

/-- Every date comes back but those in February. -/
theorem dateRoundTrips_iff (timestamp : Int) (years : FourDigits timestamp) :
    DateRoundTrips timestamp ↔ (utcDate timestamp).month ≠ 1 := by
  obtain ⟨value, formatted, got⟩ := getDateTime_formatDateTime years
  constructor
  · rintro ⟨other, again, kept, -⟩ february
    obtain rfl := Option.some.inj (formatted.symm.trans again)
    rw [if_pos february] at got
    have moved := Except.ok.inj (got.symm.trans kept)
    have days : 28 ≤ (monthLengths (utcDate timestamp).year).getD 1 0 := by
      unfold monthLengths
      split
      all_goals decide
    omega
  · intro other
    rw [if_neg other] at got
    refine ⟨value, formatted, got, ?_⟩
    intro positive headerA first
    have time : ifModSinceTime headerA = timestamp := by
      simp only [ifModSinceTime, first, got]
    rw [time]
    constructor
    · intro file
      rw [FSResponse.create_notModified]
      omega
    · intro memory info inS
      exact ZipResponse.create_notModified memory info inS timestamp

theorem dateRoundTrips_sample :
    FourDigits 784111777 ∧
      (DateRoundTrips 784111777 ↔ (utcDate 784111777).month ≠ 1) :=
  ⟨⟨by decide +kernel, by decide +kernel⟩,
    dateRoundTrips_iff 784111777 ⟨by decide +kernel, by decide +kernel⟩⟩

/-- The first of February comes back as the first of March. -/
theorem february_put_off :
    FourDigits 2678400 ∧ formatDateTime 2678400 = some (text "Sun, 01 Feb 1970 00:00:00 GMT") ∧
      getDateTime (text "Sun, 01 Feb 1970 00:00:00 GMT") = .ok 5097600 ∧
      ¬DateRoundTrips 2678400 := by
  have formatted : formatDateTime 2678400 = some (text "Sun, 01 Feb 1970 00:00:00 GMT") := by
    decide +kernel
  have got : getDateTime (text "Sun, 01 Feb 1970 00:00:00 GMT") = .ok 5097600 := by
    decide +kernel
  refine ⟨⟨by decide +kernel, by decide +kernel⟩, formatted, got, ?_⟩
  rintro ⟨value, again, kept, -⟩
  obtain rfl := Option.some.inj (formatted.symm.trans again)
  have moved := Except.ok.inj (got.symm.trans kept)
  exact absurd moved (by decide)

end MiniWebSrv.HTTP.RespSource
