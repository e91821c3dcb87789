import MiniWebSrv.HTTP.Pages

/-! # Files

`RespSource::FS` finds the file of a resource below its root and makes a response of it, or a page
which says that there is none. The file system is a parameter. Nothing outside the root has a say in
what is sent.
-/

namespace MiniWebSrv.HTTP

open Word Responding RespSource

/-! ## MimeDB -/

namespace MimeDB

def unknownMimeType : List Byte := text "application/octet-stream"

/-- `InitExtMimeMap` -/
def extMimeMap : List (List Byte × List Byte) :=
  [(text ".gz", text "application/gzip"), (text ".js", text "application/javascript"),
    (text ".json", text "application/json"), (text ".pdf", text "application/pdf"),
    (text ".rtf", text "application/rtf"), (text ".zip", text "application/zip"),
    (text ".xml", text "application/xml"), (text ".jpg", text "image/jpeg"),
    (text ".jpeg", text "image/jpeg"), (text ".png", text "image/png"),
    (text ".gif", text "image/gif"), (text ".svg", text "image/svg+xml"),
    (text ".css", text "text/css"), (text ".csv", text "text/csv"), (text ".htm", text "text/html"),
    (text ".html", text "text/html"), (text ".frame", text "text/html"),
    (text ".txt", text "text/plain")]

def getMimeType (fileExt : List Byte) : List Byte :=
  (extMimeMap.lookup fileExt).getD unknownMimeType

theorem getMimeType_plain (fileExt : List Byte) :
    cr ∉ getMimeType fileExt ∧ (getMimeType fileExt).length ≤ 24 := by
  have all : ∀ entry ∈ extMimeMap, cr ∉ entry.2 ∧ entry.2.length ≤ 24 := by decide +kernel
  have unknown : cr ∉ unknownMimeType ∧ unknownMimeType.length ≤ 24 := by decide +kernel
  unfold getMimeType
  cases found : extMimeMap.lookup fileExt with
  | none => exact unknown
  | some type =>
      obtain ⟨entry, member, rfl⟩ : ∃ entry ∈ extMimeMap, entry.2 = type := by
        obtain ⟨left, right, whole, -⟩ := List.lookup_eq_some_iff.mp found
        exact ⟨(fileExt, type), by rw [whole]; simp, rfl⟩
      exact all entry member

end MimeDB

/-! ## FS -/

/-- The file system, as `FS` asks it about paths in their names. -/
structure Disk where
  /-- `canonical(Root / Resource)`, or `none` where it throws. -/
  canonical : List (List Byte) → List Byte → Option (List (List Byte))
  fileExists : List (List Byte) → Bool
  isDirectory : List (List Byte) → Bool
  extension : List (List Byte) → List Byte
  file : List (List Byte) → StoredFile

namespace FS

/-- `FS::Response`, or `none` where the constructor throws. -/
def response (file : StoredFile) (mimeType : List Byte) (ifModifiedSince : Int) : Option Page :=
  (FSResponse.create file ifModifiedSince).map fun r =>
    { response := .fs r
      respCode := r.getResponseCode
      contentType := mimeType
      contentTypeCharset := none
      extraHeaders := [⟨Header.getHeaderName .lastModified,
        (Header.formatDateTime file.lastModTime).getD []⟩] }

/-- The comparisons of the names with those of the root. -/
def Inside (root target : List (List Byte)) : Prop :=
  root.length ≤ target.length ∧ target.take root.length = root

instance (root target : List (List Byte)) : Decidable (Inside root target) :=
  inferInstanceAs (Decidable (_ ∧ _))

/-- `FS::Create` -/
def create (disk : Disk) (root : List (List Byte)) (resource : List Byte)
    (headerA : List (HeaderName × List Byte)) : Option Page :=
  match disk.canonical root resource with
  | none => some (.commonError (.create resource none .notFound))
  | some target =>
      if Inside root target ∧ disk.fileExists target then
        if ¬disk.isDirectory target then
          response (disk.file target) (MimeDB.getMimeType (disk.extension target))
            (ifModSinceTime headerA)
        else
          some (.commonError (.create resource none .forbidden))
      else
        some (.commonError (.create resource none .notFound))

theorem inside_iff {root target : List (List Byte)} : Inside root target ↔ root <+: target :=
  ⟨fun inside => List.prefix_iff_eq_take.mpr inside.2.symm,
    fun front => ⟨front.length_le, (List.prefix_iff_eq_take.mp front).symm⟩⟩

/-! ## What is shown -/

/-- The file which a resource stands for: it is below the root. -/
def Finds (disk : Disk) (root : List (List Byte)) (resource : List Byte)
    (target : List (List Byte)) : Prop :=
  disk.canonical root resource = some target ∧ root <+: target ∧ disk.fileExists target = true

/-- What a client should be shown of a resource, with the time of the version it has, or 0. -/
inductive Shows (disk : Disk) (root : List (List Byte)) (resource : List Byte) (ifModSince : Int) :
    ResponseCode → List Byte → Prop
  | notFound (nowhere : ∀ target, ¬Finds disk root resource target) :
      Shows disk root resource ifModSince .notFound
        (CommonErrorResponse.create resource none .notFound).page
  | forbidden {target : List (List Byte)} (finds : Finds disk root resource target)
      (directory : disk.isDirectory target = true) :
      Shows disk root resource ifModSince .forbidden
        (CommonErrorResponse.create resource none .forbidden).page
  | notModified {target : List (List Byte)} (finds : Finds disk root resource target)
      (regular : disk.isDirectory target = false) (given : ifModSince ≠ 0)
      (old : (disk.file target).lastModTime ≤ ifModSince) :
      Shows disk root resource ifModSince .notModified []
  | ok {target : List (List Byte)} (finds : Finds disk root resource target)
      (regular : disk.isDirectory target = false)
      (new : ifModSince = 0 ∨ ifModSince < (disk.file target).lastModTime)
      (opens : (disk.file target).opens = true) :
      Shows disk root resource ifModSince .ok (disk.file target).content

/-- The file cannot be opened. -/
def Broken (disk : Disk) (root : List (List Byte)) (resource : List Byte) (ifModSince : Int) :
    Prop :=
  ∃ target, Finds disk root resource target ∧ disk.isDirectory target = false ∧
    (ifModSince = 0 ∨ ifModSince < (disk.file target).lastModTime) ∧
    (disk.file target).opens = false

variable {disk : Disk} {root : List (List Byte)} {resource : List Byte}
  {headerA : List (HeaderName × List Byte)} {p : Page}

theorem lastModified_clean {timestamp : Int} (years : Header.FourDigits timestamp) :
    ExtraHeader.Clean ⟨Header.getHeaderName .lastModified,
      (Header.formatDateTime timestamp).getD []⟩ ∧
    ExtraHeader.lineLength ⟨Header.getHeaderName .lastModified,
      (Header.formatDateTime timestamp).getD []⟩ = 46 := by
  obtain ⟨tm, made, proper, -⟩ := Header.gmTime_proper years
  have length := proper.dateText.1
  have formatted : (Header.formatDateTime timestamp).getD [] = Header.dateText tm := by
    delta Header.formatDateTime
    simp only [made, length]
    rfl
  have name : ExtraHeader.IsFieldName (Header.getHeaderName .lastModified) := by decide +kernel
  have size : (Header.getHeaderName .lastModified).length = 13 := rfl
  rw [formatted]
  obtain ⟨clean, -, line⟩ := ExtraHeader.IsFieldName.clean
    (h := ⟨Header.getHeaderName .lastModified, Header.dateText tm⟩) name
    (ResponseHead.cr_of_dateText proper) (by rw [length]; decide)
  exact ⟨clean, by rw [line, size, length]⟩

theorem response_sound {file : StoredFile} {ifModSince : Int} (years : Header.FourDigits file.lastModTime)
    (fileExt : List Byte) (made : response file (MimeDB.getMimeType fileExt) ifModSince = some p) :
    ((p.respCode = .notModified ∧ p.Sound [] ∧ ifModSince ≠ 0 ∧ file.lastModTime ≤ ifModSince) ∨
      (p.respCode = .ok ∧ p.Sound file.content ∧
        (ifModSince = 0 ∨ ifModSince < file.lastModTime) ∧ file.opens = true)) ∧
      p.textLength ≤ 100 := by
  obtain ⟨plain, small⟩ := MimeDB.getMimeType_plain fileExt
  obtain ⟨clean, line⟩ := lastModified_clean years
  have sized := file.sized
  obtain ⟨r, created, rfl⟩ := Option.map_eq_some_iff.mp made
  have each : ∀ h ∈ [(⟨Header.getHeaderName .lastModified,
      (Header.formatDateTime file.lastModTime).getD []⟩ : ExtraHeader)], h.Clean :=
    fun h member => List.mem_singleton.mp member ▸ clean
  refine ⟨?_, ?_⟩
  · unfold FSResponse.create at created
    split at created
    · rename_i new
      split at created
      · rename_i opens
        obtain rfl := Option.some.inj created
        have opened : file.content.length < notModifiedSize := by
          rw [notModifiedSize]
          omega
        have bodied : ¬Client.bodiless ResponseCode.ok.number = true := by decide
        have code : FSResponse.getResponseCode
            ⟨file.content.length, 0, ⟨file.content, false⟩⟩ = .ok := if_pos (Nat.ne_of_lt opened)
        refine Or.inr ⟨code, ⟨Or.inr ⟨rfl, opened, Nat.zero_add _, rfl, List.prefix_refl _⟩, plain,
          Page.no_charset, each, fun bodiless => ?_⟩, new, opens⟩
        rw [code] at bodiless
        exact absurd bodiless bodied
      · cases created
    · rename_i old
      obtain rfl := Option.some.inj created
      have code : FSResponse.getResponseCode ⟨notModifiedSize, 0, ⟨[], false⟩⟩ = .notModified := rfl
      have known : (0 : Nat) ≠ 18446744073709551615 := by decide
      refine Or.inl ⟨code, ⟨Or.inl ⟨rfl, rfl⟩, plain, Page.no_charset, each, fun _ => ⟨known, rfl⟩⟩, ?_⟩
      omega
  · simp only [Page.textLength, List.map_singleton, List.sum_singleton, line, Option.getD_none,
      List.length_nil]
    omega

theorem create_sound (short : 2 * resource.length + 209 < chunkRoom)
    (years : ∀ target, Finds disk root resource target →
      Header.FourDigits (disk.file target).lastModTime)
    (made : create disk root resource headerA = some p) :
    ∃ content, Shows disk root resource (ifModSinceTime headerA) p.respCode content ∧
      p.Sound content ∧ p.textLength ≤ 100 := by
  have notFound := Page.commonError_sound (e := .create resource none .notFound) short (.inr (.inl rfl))
  have forbidden := Page.commonError_sound (e := .create resource none .forbidden) short (.inl rfl)
  unfold create at made
  split at made
  · rename_i nowhere
    obtain rfl := Option.some.inj made
    refine ⟨_, .notFound fun target finds => ?_, notFound⟩
    cases nowhere.symm.trans finds.1
  · rename_i target canonical
    split at made
    · rename_i inside
      have finds : Finds disk root resource target :=
        ⟨canonical, inside_iff.mp inside.1, inside.2⟩
      split at made
      · rename_i regular
        have regular := Bool.eq_false_of_not_eq_true regular
        obtain ⟨shown, small⟩ := response_sound (years target finds) _ made
        rcases shown with ⟨code, sound, given, old⟩ | ⟨code, sound, new, opens⟩
        · exact ⟨_, code ▸ .notModified finds regular given old, sound, small⟩
        · exact ⟨_, code ▸ .ok finds regular new opens, sound, small⟩
      · rename_i directory
        obtain rfl := Option.some.inj made
        exact ⟨_, .forbidden finds (not_not.mp directory), forbidden⟩
    · rename_i outside
      obtain rfl := Option.some.inj made
      refine ⟨_, .notFound fun other finds => outside ?_, notFound⟩
      obtain rfl := Option.some.inj (canonical.symm.trans finds.1)
      exact ⟨inside_iff.mpr finds.2.1, finds.2.2⟩

/-- It throws for nothing but a file which cannot be opened. -/
theorem create_none (thrown : create disk root resource headerA = none) :
    Broken disk root resource (ifModSinceTime headerA) := by
  unfold create at thrown
  split at thrown
  · cases thrown
  · rename_i target canonical
    split at thrown
    · rename_i inside
      split at thrown
      · rename_i regular
        refine ⟨target, ⟨canonical, inside_iff.mp inside.1, inside.2⟩,
          Bool.eq_false_of_not_eq_true regular, ?_⟩
        rw [response, Option.map_eq_none_iff, FSResponse.create] at thrown
        split at thrown
        · rename_i new
          split at thrown
          · cases thrown
          · rename_i closed
            exact ⟨new, Bool.eq_false_of_not_eq_true closed⟩
        · cases thrown
      · cases thrown
    · cases thrown

/-- Two file systems which agree on what is below the root: on where the resources are, as far as
    that is there, and on the files. -/
structure Agree (root : List (List Byte)) (disk disk' : Disk) : Prop where
  canonical : ∀ resource target, root <+: target →
    (disk.canonical root resource = some target ↔ disk'.canonical root resource = some target)
  fileExists : ∀ target, root <+: target → disk.fileExists target = disk'.fileExists target
  isDirectory : ∀ target, root <+: target → disk.isDirectory target = disk'.isDirectory target
  extension : ∀ target, root <+: target → disk.extension target = disk'.extension target
  file : ∀ target, root <+: target → disk.file target = disk'.file target

/-- Disks which agree make the same of every resource, also of one which leads out of the root. -/
theorem create_agree {disk disk' : Disk} (agree : Agree root disk disk') (resource : List Byte)
    (headerA : List (HeaderName × List Byte)) :
    create disk root resource headerA = create disk' root resource headerA := by
  have outside : ∀ {d : Disk}, (∀ target, root <+: target → d.canonical root resource ≠ some target) →
      create d root resource headerA = some (.commonError (.create resource none .notFound)) := by
    intro d none_
    unfold create
    split
    · rfl
    · rename_i target canonical
      rw [if_neg fun inside => none_ target (inside_iff.mp inside.1) canonical]
  by_cases some_ : ∃ target, root <+: target ∧ disk.canonical root resource = some target
  · obtain ⟨target, below, canonical⟩ := some_
    have canonical' := (agree.canonical resource target below).mp canonical
    simp only [create, canonical, canonical', agree.fileExists target below,
      agree.isDirectory target below, agree.extension target below, agree.file target below]
  · have none_ : ∀ target, root <+: target → disk.canonical root resource ≠ some target :=
      fun target below canonical => some_ ⟨target, below, canonical⟩
    rw [outside none_, outside fun target below canonical =>
      none_ target below ((agree.canonical resource target below).mpr canonical)]

end FS

end MiniWebSrv.HTTP
