import MiniWebSrv.HTTP.UploadLimits

/-! # Uploads within the limits

A helper gets files one after another, each of them in pieces. `OnNewFile` does not set
`CurrFileSize` back, so what is meant as the limit for one file is a limit for all of them.
-/

namespace MiniWebSrv.HTTP.TempFileUploadHelper

open Word

/-- `OnFileData` for each piece, and whether all of the calls return true. -/
def givePieces (h : TempFileUploadHelper) : List (List Byte) → Bool × TempFileUploadHelper
  | [] => (true, h)
  | piece :: rest =>
      let r := h.onFileData piece
      let s := r.2.givePieces rest
      (r.1 && s.1, s.2)

/-- `OnNewFile`, `OnFileData` for each piece and `OnFileEnd`, for each file. -/
def giveFiles (h : TempFileUploadHelper) : List (List (List Byte)) → Bool × TempFileUploadHelper
  | [] => (true, h)
  | pieces :: rest =>
      let r := h.onNewFile.2.givePieces pieces
      let s := r.2.onFileEnd.giveFiles rest
      (r.1 && s.1, s.2)

/-- The size of all files together. -/
def totalSize (files : List (List (List Byte))) : Nat :=
  (files.map fun pieces => pieces.flatten.length).sum

variable {h : TempFileUploadHelper}

/-! ## What the counter allows -/

theorem onNewFile_counter (h : TempFileUploadHelper) :
    h.onNewFile.2.currFileSize = h.currFileSize ∧ h.onNewFile.2.params = h.params := by
  simp only [onNewFile]
  split
  · exact ⟨rfl, rfl⟩
  · split <;> exact ⟨rfl, rfl⟩

theorem write_counter (h : TempFileUploadHelper) (stream : OfStream) (bytes : List Byte) :
    (h.write stream bytes).2.currFileSize = h.currFileSize ∧
      (h.write stream bytes).2.params = h.params := by
  unfold write
  split <;> exact ⟨rfl, rfl⟩

theorem onFileData_true {bytes : List Byte} (taken : (h.onFileData bytes).1 = true) :
    (h.onFileData bytes).2.currFileSize = u64 (h.currFileSize + bytes.length) ∧
      u64 (h.currFileSize + bytes.length) ≤ h.params.maxUploadSize ∧
      (h.onFileData bytes).2.params = h.params := by
  simp only [onFileData] at taken ⊢
  cases stream : h.currFileS with
  | none => simp only [stream, Bool.false_eq_true] at taken
  | some s =>
      simp only [stream, give_params] at taken ⊢
      split at taken
      · cases taken
      · rename_i fits
        split at taken
        · cases taken
        · rename_i both
          rw [if_neg fits, if_neg both]
          obtain ⟨counter, params⟩ := write_counter _ s bytes
          exact ⟨counter, Nat.le_of_not_lt fits, params⟩

theorem givePieces_true {pieces : List (List Byte)} (taken : (h.givePieces pieces).1 = true)
    (range : h.currFileSize + pieces.flatten.length < 2 ^ 64)
    (le : h.currFileSize ≤ h.params.maxUploadSize) :
    (h.givePieces pieces).2.currFileSize = h.currFileSize + pieces.flatten.length ∧
      h.currFileSize + pieces.flatten.length ≤ h.params.maxUploadSize ∧
      (h.givePieces pieces).2.params = h.params := by
  induction pieces generalizing h with
  | nil => exact ⟨rfl, le, rfl⟩
  | cons piece rest ih =>
      simp only [givePieces, Bool.and_eq_true] at taken ⊢
      rw [List.flatten_cons, List.length_append] at range ⊢
      obtain ⟨counter, below, params⟩ := onFileData_true taken.1
      rw [u64, Nat.mod_eq_of_lt (by omega)] at counter below
      obtain ⟨counter', below', params'⟩ := ih taken.2 (by rw [counter]; omega)
        (by rw [counter, params]; exact below)
      rw [counter, params, Nat.add_assoc] at below'
      exact ⟨by rw [counter', counter, Nat.add_assoc], below', params'.trans params⟩

theorem giveFiles_true {files : List (List (List Byte))} (taken : (h.giveFiles files).1 = true)
    (range : h.currFileSize + totalSize files < 2 ^ 64)
    (le : h.currFileSize ≤ h.params.maxUploadSize) :
    h.currFileSize + totalSize files ≤ h.params.maxUploadSize := by
  induction files generalizing h with
  | nil => exact le
  | cons pieces rest ih =>
      simp only [giveFiles, Bool.and_eq_true] at taken
      simp only [totalSize, List.map_cons, List.sum_cons] at range ⊢
      obtain ⟨counter, params⟩ := onNewFile_counter h
      obtain ⟨counter', below, params'⟩ := givePieces_true taken.1 (by rw [counter]; omega)
        (by rw [counter, params]; exact le)
      rw [counter, params] at below
      rw [counter] at counter'
      rw [params] at params'
      have more := ih taken.2
        (by
          simp only [onFileEnd, counter', totalSize]
          omega)
        (by
          simp only [onFileEnd, counter', params']
          exact below)
      simp only [onFileEnd, counter', params', totalSize] at more
      omega

/-! ## What is stored -/

variable {conf : FileUpload} {fs : FileSystem} {used : Nat}

theorem onFileData_open {bytes : List Byte} (file : TempFile) (others : List TempFile)
    (accepting : fs.Accepting) (range : used + bytes.length < 2 ^ 64)
    (upload : used + bytes.length ≤ conf.maxUploadSize)
    (total : used + bytes.length ≤ conf.maxTotalUploadSize) :
    onFileData ⟨conf, some ⟨true, false⟩, used, used, { fs with files := file :: others }⟩ bytes =
      (true, ⟨conf, some ⟨true, false⟩, used + bytes.length, used + bytes.length, { fs with
        files := { file with
          given := file.given ++ bytes, contents := file.contents ++ bytes } :: others }⟩) := by
  have whole := accepting (fs.paths - 1) file.contents.length bytes.length
  have counter : u64 (used + bytes.length) = used + bytes.length := Nat.mod_eq_of_lt range
  simp only [onFileData, give, counter, if_neg (Nat.not_lt.mpr upload),
    if_neg (Nat.not_lt.mpr total), write, Nat.not_lt.mpr whole, decide_false, Bool.not_false,
    List.take_of_length_le whole]

theorem givePieces_open (conf : FileUpload) (used : Nat) (fs : FileSystem)
    (pieces : List (List Byte)) (file : TempFile) (others : List TempFile)
    (accepting : fs.Accepting) (range : used + pieces.flatten.length < 2 ^ 64)
    (upload : used + pieces.flatten.length ≤ conf.maxUploadSize)
    (total : used + pieces.flatten.length ≤ conf.maxTotalUploadSize) :
    givePieces ⟨conf, some ⟨true, false⟩, used, used, { fs with files := file :: others }⟩ pieces =
      (true, ⟨conf, some ⟨true, false⟩, used + pieces.flatten.length,
        used + pieces.flatten.length, { fs with
          files := { file with
            given := file.given ++ pieces.flatten
            contents := file.contents ++ pieces.flatten } :: others }⟩) := by
  induction pieces generalizing used file with
  | nil =>
      simp only [givePieces, List.flatten_nil, List.length_nil, Nat.add_zero, List.append_nil]
  | cons piece rest ih =>
      rw [List.flatten_cons, List.length_append, ← Nat.add_assoc] at range upload total
      rw [givePieces, onFileData_open file others accepting (by omega) (by omega) (by omega)]
      simp only [ih _ _ range upload total, Bool.and_self, List.flatten_cons, List.length_append,
        Nat.add_assoc, List.append_assoc]

/-- All files are stored, each behind the ones before it. -/
theorem giveFiles_open {files : List (List (List Byte))} (stream : Option OfStream)
    (opens : ∀ n, fs.opening n = .opened) (accepting : fs.Accepting)
    (uploads : 0 < conf.maxUploadSize) (totals : 0 < conf.maxTotalUploadSize)
    (range : used + totalSize files < 2 ^ 64)
    (upload : used + totalSize files ≤ conf.maxUploadSize)
    (total : used + totalSize files ≤ conf.maxTotalUploadSize) :
    (giveFiles ⟨conf, stream, used, used, fs⟩ files).1 = true ∧
      ∃ stored : List TempFile, (giveFiles ⟨conf, stream, used, used, fs⟩ files).2.fileSystem.files =
        stored.reverse ++ fs.files ∧ stored.map TempFile.contents = files.map List.flatten := by
  induction files generalizing stream used fs with
  | nil => exact ⟨rfl, [], rfl, rfl⟩
  | cons pieces rest ih =>
      simp only [totalSize, List.map_cons, List.sum_cons, ← Nat.add_assoc] at range upload total
      have limits : ¬(conf.maxUploadSize = 0 ∨ conf.maxTotalUploadSize = 0) := by omega
      have given := givePieces_open conf used { fs with paths := fs.paths + 1 } pieces
        ⟨.temp conf.root fs.paths, fs.requests, [], [], false⟩ fs.files accepting
        (by omega) (by omega) (by omega)
      simp only [giveFiles, onNewFile, if_neg limits, opens, given, Bool.true_and, onFileEnd]
      obtain ⟨taken, stored, files, contents⟩ := @ih { fs with
        paths := fs.paths + 1
        files := ⟨.temp conf.root fs.paths, fs.requests, [] ++ pieces.flatten, [] ++ pieces.flatten,
          false⟩ :: fs.files } _ none opens accepting range upload total
      refine ⟨taken, ⟨.temp conf.root fs.paths, fs.requests, [] ++ pieces.flatten,
        [] ++ pieces.flatten, false⟩ :: stored, ?_, ?_⟩
      · rw [files, List.reverse_cons, List.append_assoc]
        rfl
      · rw [List.map_cons, List.map_cons, contents]
        rfl

/-- Where all files open and all writes succeed, the files which are within the limit for all of
    them are taken and stored as a whole exactly if the limit for one file allows for all of them. -/
theorem stored_in_full_iff {files : List (List (List Byte))} (opens : ∀ n, fs.opening n = .opened)
    (accepting : fs.Accepting) (uploads : 0 < conf.maxUploadSize)
    (totals : 0 < conf.maxTotalUploadSize) (range : totalSize files < 2 ^ 64)
    (total : totalSize files ≤ conf.maxTotalUploadSize) :
    ((giveFiles (init conf fs) files).1 = true ∧
      ∃ stored : List TempFile, (giveFiles (init conf fs) files).2.fileSystem.files =
        stored.reverse ++ fs.files ∧ stored.map TempFile.contents = files.map List.flatten) ↔
    totalSize files ≤ conf.maxUploadSize := by
  have start : (0 : Nat) + totalSize files = totalSize files := Nat.zero_add _
  constructor
  · rintro ⟨taken, -⟩
    have below := giveFiles_true taken (by simp only [init, start, range]) (Nat.zero_le _)
    simpa only [init, start] using below
  · intro upload
    exact giveFiles_open none opens accepting uploads totals (by rw [start]; exact range)
      (by rw [start]; exact upload) (by rw [start]; exact total)

/-- A file system which makes every file and stores every write. -/
def diligent : FileSystem := ⟨fun _ => .opened, fun _ _ length => length, 0, [], 0⟩

theorem stored_in_full_two :
    (giveFiles (init ⟨[], 4, 4⟩ diligent) [[text "ab", text "c"], [text "d"]]).1 = true ∧
      ∃ stored : List TempFile, (giveFiles (init ⟨[], 4, 4⟩ diligent)
        [[text "ab", text "c"], [text "d"]]).2.fileSystem.files = stored.reverse ++ [] ∧
        stored.map TempFile.contents = [text "abc", text "d"] :=
  (stored_in_full_iff (fun _ => rfl) (fun _ _ _ => Nat.le_refl _) (by decide) (by decide)
    (by decide) (by decide)).mpr (by decide)

/-- The second file is refused, as both have one byte too many for a single one. -/
theorem second_file_refused :
    ¬∀ (conf : FileUpload) (fs : FileSystem) (files : List (List (List Byte))),
      (∀ n, fs.opening n = .opened) → fs.Accepting → 0 < conf.maxUploadSize →
      0 < conf.maxTotalUploadSize → totalSize files < 2 ^ 64 →
      (∀ pieces ∈ files, pieces.flatten.length ≤ conf.maxUploadSize) →
      totalSize files ≤ conf.maxTotalUploadSize →
      (giveFiles (init conf fs) files).1 = true ∧
      ∃ stored : List TempFile, (giveFiles (init conf fs) files).2.fileSystem.files =
        stored.reverse ++ fs.files ∧ stored.map TempFile.contents = files.map List.flatten := by
  intro all
  have taken := (all ⟨[], 3, 4⟩ diligent [[text "ab", text "c"], [text "d"]] (fun _ => rfl)
    (fun _ _ _ => Nat.le_refl _) (by decide) (by decide) (by decide) (by decide) (by decide)).1
  revert taken
  decide +kernel

end MiniWebSrv.HTTP.TempFileUploadHelper
