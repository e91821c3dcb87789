import Mathlib.Algebra.GroupWithZero.Nat
import Mathlib.Algebra.Order.BigOperators.Group.List
import MiniWebSrv.HTTP.Uploads

/-! # The upload limits

The limits are members of the upload helper, which the first reset of the connection replaces
before there has been a request. What the files hold is what they have been given.
-/

namespace MiniWebSrv.HTTP

open Word Run

/-- Every file, and the files of every request together, are of such a size. -/
structure WithinLimits (conf : FileUpload) (size : TempFile → Nat) (files : List TempFile) : Prop where
  file : ∀ f ∈ files, size f ≤ conf.maxUploadSize
  request : ∀ r, ((files.filter fun f => f.request = r).map size).sum ≤ conf.maxTotalUploadSize

theorem WithinLimits.mono {conf : FileUpload} {size size' : TempFile → Nat} {files : List TempFile}
    (le : ∀ f ∈ files, size f ≤ size' f) (within : WithinLimits conf size' files) :
    WithinLimits conf size files := by
  constructor
  · exact fun f inside => Nat.le_trans (le f inside) (within.file f inside)
  · intro r
    refine Nat.le_trans (List.sum_le_sum fun f inside => ?_) (within.request r)
    exact le f (List.mem_of_mem_filter inside)

/-- Every write is stored as a whole. -/
def FileSystem.Accepting (fs : FileSystem) : Prop :=
  ∀ n size length, length ≤ fs.stored n size length

theorem FileSystem.mem_remove {fs : FileSystem} {path : Path} {f : TempFile} :
    f ∈ (fs.remove path).files ↔ ∃ old ∈ fs.files,
      (if old.path = path then { old with removed := true } else old) = f :=
  List.mem_map

namespace TempFileUploadHelper

/-- What holds whatever the file system does: there are no limits, and a file holds no more than
    it has been given. -/
structure Unlimited (h : TempFileUploadHelper) : Prop where
  upload : h.params.maxUploadSize = u64 (2 ^ 64 - 1)
  total : h.params.maxTotalUploadSize = u64 (2 ^ 64 - 1)
  contents : ∀ f ∈ h.fileSystem.files, f.contents.length ≤ f.given.length

/-- Where every write is stored, a file holds what it has been given. -/
structure Complete (h : TempFileUploadHelper) : Prop where
  upload : h.params.maxUploadSize = u64 (2 ^ 64 - 1)
  total : h.params.maxTotalUploadSize = u64 (2 ^ 64 - 1)
  accepting : h.fileSystem.Accepting
  good : ∀ stream, h.currFileS = some stream → stream.isOpen = true → stream.fail = false
  contents : ∀ f ∈ h.fileSystem.files, f.contents = f.given

variable {h h' : TempFileUploadHelper}

theorem u64_le (n : Nat) : u64 n ≤ u64 (2 ^ 64 - 1) := by
  simp only [u64]
  omega

theorem give_params (h : TempFileUploadHelper) (bytes : List Byte) :
    (h.give bytes).params = h.params := by
  unfold give
  split <;> rfl

/-- Without limits, all bytes come to the stream. -/
theorem onFileData_unlimited (upload : h.params.maxUploadSize = u64 (2 ^ 64 - 1))
    (total : h.params.maxTotalUploadSize = u64 (2 ^ 64 - 1)) (bytes : List Byte) :
    h.onFileData bytes =
      match h.currFileS with
      | none => (false, h)
      | some stream =>
          let r := { h.give bytes with
            currFileSize := u64 (h.currFileSize + bytes.length)
            totalFileSize := u64 (h.totalFileSize + bytes.length) }.write stream bytes
          (!r.1, r.2) := by
  have same : (h.give bytes).totalFileSize = h.totalFileSize := by
    unfold give
    split <;> rfl
  rw [onFileData]
  cases h.currFileS with
  | none => rfl
  | some stream =>
      simp only [give_params, upload, total, same, if_neg (Nat.not_lt.mpr (u64_le _))]

theorem onFileData_keeps_unlimited (unlimited : h.Unlimited) (bytes : List Byte) :
    (h.onFileData bytes).2.Unlimited := by
  obtain ⟨upload, total, contents⟩ := unlimited
  rw [onFileData_unlimited upload total]
  obtain ⟨params, currFileS, currFileSize, totalFileSize, fileSystem⟩ := h
  obtain ⟨opening, stored, paths, files, requests⟩ := fileSystem
  simp only at upload total contents
  rcases currFileS with _ | ⟨isOpen, fail⟩
  · exact ⟨upload, total, contents⟩
  · cases isOpen with
    | false => exact ⟨upload, total, contents⟩
    | true =>
        cases files with
        | nil => cases fail <;> exact ⟨upload, total, contents⟩
        | cons file rest =>
            have first := contents file List.mem_cons_self
            have others := fun f inside => contents f (List.mem_cons_of_mem file inside)
            cases fail with
            | true =>
                refine ⟨upload, total, ?_⟩
                rintro f (_ | ⟨_, inside⟩)
                · simp only [List.length_append]
                  omega
                · exact others f inside
            | false =>
                refine ⟨upload, total, ?_⟩
                rintro f (_ | ⟨_, inside⟩)
                · simp only [List.length_append, List.length_take]
                  omega
                · exact others f inside

theorem onFileData_keeps_complete (complete : h.Complete) (bytes : List Byte) :
    (h.onFileData bytes).2.Complete := by
  obtain ⟨upload, total, accepting, good, contents⟩ := complete
  rw [onFileData_unlimited upload total]
  obtain ⟨params, currFileS, currFileSize, totalFileSize, fileSystem⟩ := h
  obtain ⟨opening, stored, paths, files, requests⟩ := fileSystem
  simp only at upload total good contents
  rcases currFileS with _ | ⟨isOpen, fail⟩
  · exact ⟨upload, total, accepting, nofun, contents⟩
  · cases isOpen with
    | false => exact ⟨upload, total, accepting, good, contents⟩
    | true =>
        obtain rfl : fail = false := good _ rfl rfl
        cases files with
        | nil => exact ⟨upload, total, accepting, good, contents⟩
        | cons file rest =>
            have whole := accepting (paths - 1) file.contents.length bytes.length
            have first := contents file List.mem_cons_self
            refine ⟨upload, total, accepting, ?_, ?_⟩
            · rintro stream same -
              obtain rfl := Option.some.inj same
              exact decide_eq_false (Nat.not_lt.mpr whole)
            · rintro f (_ | ⟨_, inside⟩)
              · exact congrArg₂ _ first (List.take_of_length_le whole)
              · exact contents f (List.mem_cons_of_mem file inside)

theorem onNewFile_keeps_unlimited (unlimited : h.Unlimited) : h.onNewFile.2.Unlimited := by
  obtain ⟨upload, total, contents⟩ := unlimited
  simp only [onNewFile]
  split
  · exact ⟨upload, total, contents⟩
  · split
    · exact ⟨upload, total, contents⟩
    · exact ⟨upload, total, contents⟩
    · refine ⟨upload, total, ?_⟩
      rintro f (_ | ⟨_, inside⟩)
      · exact Nat.le_refl _
      · exact contents f inside

theorem onNewFile_keeps_complete (complete : h.Complete) : h.onNewFile.2.Complete := by
  obtain ⟨upload, total, accepting, good, contents⟩ := complete
  simp only [onNewFile]
  split
  · exact ⟨upload, total, accepting, nofun, contents⟩
  · split
    · exact ⟨upload, total, accepting, nofun, contents⟩
    · refine ⟨upload, total, accepting, ?_, contents⟩
      rintro stream same isOpen
      obtain rfl := Option.some.inj same
      cases isOpen
    · refine ⟨upload, total, accepting, ?_, ?_⟩
      · rintro stream same -
        obtain rfl := Option.some.inj same
        rfl
      · rintro f (_ | ⟨_, inside⟩)
        · rfl
        · exact contents f inside

theorem remove_keeps_unlimited (unlimited : h.Unlimited) (path : Path) :
    (FileUploadHelper.remove h path).Unlimited := by
  refine ⟨unlimited.upload, unlimited.total, fun f inside => ?_⟩
  obtain ⟨old, before, rfl⟩ := FileSystem.mem_remove.mp inside
  split <;> exact unlimited.contents old before

theorem remove_keeps_complete (complete : h.Complete) (path : Path) :
    (FileUploadHelper.remove h path).Complete := by
  refine ⟨complete.upload, complete.total, complete.accepting, complete.good, fun f inside => ?_⟩
  obtain ⟨old, before, rfl⟩ := FileSystem.mem_remove.mp inside
  split <;> exact complete.contents old before

/-- What every call of the helper keeps, the uploads of a query keep. -/
theorem tracks_of_keeps {P : TempFileUploadHelper → Prop}
    (fileData : ∀ {h} bytes, P h → P (h.onFileData bytes).2) (fileEnd : ∀ {h}, P h → P h.onFileEnd)
    (newFile : ∀ {h}, P h → P h.onNewFile.2)
    (remove : ∀ {h} path, P h → P (FileUploadHelper.remove h path)) :
    QueryParams.Tracks fun _ h => P h := by
  refine ⟨fun bytes holds => fileData bytes holds, fun holds => fileEnd holds, ?_, ?_⟩
  · intro m h name origFileName mimeType path h' holds opened
    have after := newFile holds
    rw [show h.onNewFile = _ from opened] at after
    exact after
  · intro m h name origFileName mimeType path h' holds opened
    have after := newFile holds
    rw [show h.onNewFile = _ from opened] at after
    split
    · exact remove _ after
    · exact after

theorem unlimited_tracks : QueryParams.Tracks fun _ => Unlimited :=
  tracks_of_keeps (fun bytes holds => onFileData_keeps_unlimited holds bytes)
    (fun holds => ⟨holds.upload, holds.total, holds.contents⟩) onNewFile_keeps_unlimited
    fun path holds => remove_keeps_unlimited holds path

theorem complete_tracks : QueryParams.Tracks fun _ => Complete :=
  tracks_of_keeps (fun bytes holds => onFileData_keeps_complete holds bytes)
    (fun holds => ⟨holds.upload, holds.total, holds.accepting, nofun, holds.contents⟩)
    onNewFile_keeps_complete fun path holds => remove_keeps_complete holds path

end TempFileUploadHelper

namespace Connection

variable {t : Connection TempFileUploadHelper}

/-- The files which the connection has made so far. -/
def tempFiles (c : Connection TempFileUploadHelper) : List TempFile :=
  c.currQuery.helper.fileSystem.files

/-- A connection with the default upload helper, and a file system without files of its own. -/
def withUploads (conf : FileUpload) (opening : Nat → Opening) (stored : Nat → Nat → Nat → Nat)
    (limit : UInt32) (mem postHeaderMem : Mem Nat Byte) (resource : List Byte) (first second : Junk) :
    Connection TempFileUploadHelper :=
  start (.init conf ⟨opening, stored, 0, [], 0⟩) limit mem postHeaderMem resource first second

/-- The files of a run stay within the configured limits if what the clients send for them does,
    and on a file system which stores everything only then. -/
theorem contents_within_iff {conf : FileUpload} {opening : Nat → Opening}
    {stored : Nat → Nat → Nat → Nat} {limit : UInt32} {mem postHeaderMem : Mem Nat Byte}
    {resource : List Byte} {first second : Junk} {events : List Event}
    (run : exec step (withUploads conf opening stored limit mem postHeaderMem resource first second)
      events = some t) :
    (WithinLimits conf (·.given.length) t.tempFiles →
      WithinLimits conf (·.contents.length) t.tempFiles) ∧
    ((∀ n size length, length ≤ stored n size length) →
      (WithinLimits conf (·.contents.length) t.tempFiles ↔
        WithinLimits conf (·.given.length) t.tempFiles)) := by
  have unlimited : t.currQuery.helper.Unlimited :=
    Run.invariant (P := fun c => c.currQuery.helper.Unlimited)
      (fun _ _ _ holds run => step_uploads TempFileUploadHelper.unlimited_tracks
        (fun _ => ⟨rfl, rfl, holds.contents⟩) holds run) ⟨rfl, rfl, nofun⟩ run
  have le : WithinLimits conf (·.given.length) t.tempFiles →
      WithinLimits conf (·.contents.length) t.tempFiles := WithinLimits.mono unlimited.contents
  refine ⟨le, fun accepting => ⟨WithinLimits.mono fun f inside => ?_, le⟩⟩
  have complete : t.currQuery.helper.Complete :=
    Run.invariant (P := fun c => c.currQuery.helper.Complete)
      (fun _ _ _ holds run => step_uploads TempFileUploadHelper.complete_tracks
        (fun _ => ⟨rfl, rfl, holds.accepting, nofun, holds.contents⟩) holds run)
      ⟨rfl, rfl, accepting, nofun, nofun⟩ run
  exact Nat.le_of_eq (congrArg List.length (complete.contents f inside).symm)

/-- A file of two bytes. -/
def fileBody : List Byte :=
  text "--b" ++ [cr, lf] ++ text "Content-Disposition: form-data; name=\"f\"; filename=\"x\"" ++
    [cr, lf, cr, lf] ++ text "ab" ++ [cr, lf] ++ text "--b--"

def filePost : List Byte :=
  text "POST / HTTP/1.1" ++ [cr, lf] ++ text "Content-Type: multipart/form-data; boundary=b" ++
    [cr, lf] ++ text "Content-Length: 72" ++ [cr, lf, cr, lf] ++ fileBody

/-- A connection with these limits, on a file system which opens and stores everything. -/
def withLimits (maxUploadSize maxTotalUploadSize : Nat) : Connection TempFileUploadHelper :=
  withUploads ⟨[], maxUploadSize, maxTotalUploadSize⟩ (fun _ => .opened) (fun _ _ length => length)
    4096 (fun _ _ => 0) (fun _ _ => 0) [] ⟨0, none⟩ ⟨0, none⟩

theorem contents_within_two : ∃ t : Connection TempFileUploadHelper,
    exec step (withLimits 2 2) [.read filePost, .go, .go] = some t ∧
    WithinLimits ⟨[], 2, 2⟩ (·.contents.length) t.tempFiles := by
  have facts : (exec step (withLimits 2 2) [.read filePost, .go, .go]).map tempFiles =
      some [⟨.temp [] 0, 1, text "ab", text "ab", false⟩] := by
    decide +kernel
  obtain ⟨t, run, files⟩ := Option.map_eq_some_iff.mp facts
  refine ⟨t, run, (contents_within_iff run).1 ?_⟩
  rw [files]
  constructor
  · intro f inside
    obtain rfl := List.mem_singleton.mp inside
    decide
  · intro r
    simp only [List.filter_cons, List.filter_nil]
    split <;> decide

/-- A file of two bytes gets past a limit of one byte. -/
theorem limits_ignored : ¬∀ (maxUploadSize maxTotalUploadSize : Nat) (events : List Event)
    (t : Connection TempFileUploadHelper),
    exec step (withLimits maxUploadSize maxTotalUploadSize) events = some t →
    WithinLimits ⟨[], maxUploadSize, maxTotalUploadSize⟩ (·.contents.length) t.tempFiles := by
  intro within
  have facts : (exec step (withLimits 1 1) [.read filePost, .go, .go]).map tempFiles =
      some [⟨.temp [] 0, 1, text "ab", text "ab", false⟩] := by
    decide +kernel
  obtain ⟨t, run, files⟩ := Option.map_eq_some_iff.mp facts
  have fits := (within 1 1 _ t run).file
  rw [files] at fits
  exact absurd (fits _ List.mem_cons_self) (by decide)

end Connection

end MiniWebSrv.HTTP
