import MiniWebSrv.HTTP.Multipart

/-! # The cuts of a multipart body

An upload helper which records the files it gets, and which may answer as it likes to the
opening of one of them. What it records, and the two maps, do not depend on where the body is
cut, as long as the parser has a use for every byte. A byte for which it has none makes
`AppendToCurrentPart` give up the rest of its bytes, and `AppendFormMultipart` goes on with the
next ones as if nothing had happened; where these begin is a matter of the cuts.
-/

namespace MiniWebSrv.HTTP

open Word

/-- A file which an upload helper gets. -/
structure Upload where
  name : List Byte
  origFileName : List Byte
  mimeType : List Byte
  path : Path
  accepted : Bool
  data : List Byte
  deriving DecidableEq, Repr

/-- The uploads so far, the last one first, and the answer to `OnNewFile`. -/
structure Recorder where
  answer : List Upload → List Byte → List Byte → List Byte → Path × Bool
  uploads : List Upload

instance : FileUploadHelper Recorder where
  onNewFile r name origFileName mimeType :=
    let answer := r.answer r.uploads name origFileName mimeType
    (answer, { r with
      uploads := ⟨name, origFileName, mimeType, answer.1, answer.2, []⟩ :: r.uploads })
  onFileData r bytes :=
    match r.uploads with
    | [] => (false, r)
    | upload :: rest => (true, { r with uploads := { upload with data := upload.data ++ bytes } :: rest })
  onFileEnd r := r
  remove r _ := r
  default r := { r with uploads := [] }

instance : SteadyHelper Recorder where
  data_nil r := by
    obtain ⟨answer, uploads⟩ := r
    cases uploads with
    | nil => rfl
    | cons upload rest => simp only [FileUploadHelper.onFileData, List.append_nil]
  data_append r left right := by
    obtain ⟨answer, uploads⟩ := r
    cases uploads with
    | nil => rfl
    | cons upload rest => simp only [FileUploadHelper.onFileData, List.append_assoc]
  end_end _ := rfl

namespace QueryParams

/-- A fresh object with a boundary. -/
def recording (answer : List Upload → List Byte → List Byte → List Byte → Path × Bool)
    (boundary : List Byte) (fmParseCounter : Nat) (currFMPart : Option (List Byte)) :
    QueryParams Recorder :=
  { init (Recorder.mk answer []) fmParseCounter currFMPart with
    boundaryStr := boundary }.onBoundaryParsed

/-- What a body leaves behind. -/
def result (q : QueryParams Recorder) :
    StringMap (List Byte) × StringMap File × List Upload :=
  (q.paramMap, q.fileMap, q.helper.uploads)

variable {answer : List Upload → List Byte → List Byte → List Byte → Path × Bool}
  {boundary : List Byte}

theorem recording_between (answer : List Upload → List Byte → List Byte → List Byte → Path × Bool)
    (fmParseCounter : Nat) (currFMPart : Option (List Byte)) :
    Between boundary (recording answer boundary fmParseCounter currFMPart).toForm
      (recording answer boundary fmParseCounter currFMPart) Scan.start :=
  ⟨rfl, ⟨rfl, trivial⟩, rfl, rfl, Scan.start_good⟩

/-- Two ways of cutting an accepted body leave the same behind, whatever the constructor has
    found in the members which it does not initialize. -/
theorem cuts_agree (answer : List Upload → List Byte → List Byte → List Byte → Path × Bool)
    {boundary : List Byte} (notCR : cr ∉ boundary)
    (long : (delimiter boundary).length < size32) {left right : List (List Byte)}
    (same : left.flatten = right.flatten) (accepted : Accepted boundary left.flatten)
    (leftShort : ∀ piece ∈ left, piece.length < size32)
    (rightShort : ∀ piece ∈ right, piece.length < size32)
    (leftCounter rightCounter : Nat) (leftPart rightPart : Option (List Byte)) :
    result (left.foldl appendFormMultipart (recording answer boundary leftCounter leftPart)) =
      result (right.foldl appendFormMultipart
        (recording answer boundary rightCounter rightPart)) := by
  have leftForm := (appendAll_between (recording_between answer leftCounter leftPart)
    notCR long leftShort accepted).follows.form
  have rightForm := (appendAll_between (recording_between answer rightCounter rightPart)
    notCR long rightShort (same ▸ accepted)).follows.form
  have opens := (Scan.ordered (s := .start) ⟨trivial, nofun⟩ (delimiter boundary)
    left.flatten).opens
  have clear := Form.actAll_clear (f := (recording answer boundary leftCounter leftPart).toForm)
    (g := (recording answer boundary rightCounter rightPart).toForm) rfl opens
  rw [← leftForm, same, ← rightForm] at clear
  simp only [Form.clear, Form.mk.injEq, true_and] at clear
  obtain ⟨paramMap, fileMap, -, helper⟩ := clear
  simp only [result, paramMap, fileMap, helper]

/-- A helper which takes every file. -/
def takesAll : List Upload → List Byte → List Byte → List Byte → Path × Bool :=
  fun uploads _ _ _ => (.temp [] uploads.length, true)

/-- A parameter and a file whose data look like a delimiter for a while. -/
def paramAndFile : List Byte :=
  text "--b" ++ [cr, lf] ++ text "Content-Disposition: form-data; name=\"a\"" ++
    [cr, lf, cr, lf] ++ text "v" ++ [cr, lf] ++ text "--b" ++ [cr, lf] ++
    text "Content-Disposition: form-data; name=\"f\"; filename=\"x\"" ++ [cr, lf] ++
    text "Content-Type: text/plain" ++ [cr, lf, cr, lf] ++ text "da" ++ [cr, lf] ++
    text "--ta" ++ [cr, lf] ++ text "--b--"

theorem cuts_agree_bytewise :
    result ([paramAndFile].foldl appendFormMultipart (recording takesAll (text "b") 0 none)) =
      result ((paramAndFile.map fun c => [c]).foldl appendFormMultipart
        (recording takesAll (text "b") 7 none)) ∧
    result ([paramAndFile].foldl appendFormMultipart (recording takesAll (text "b") 0 none)) =
      ([(text "a", text "v")], [(text "f", ⟨text "text/plain", text "x", .temp [] 0⟩)],
        [⟨text "f", text "x", text "text/plain", .temp [] 0, true,
          text "da" ++ [cr, lf] ++ text "--ta"⟩]) :=
  ⟨cuts_agree takesAll (by decide) (by decide +kernel) (by decide +kernel)
    (by decide +kernel) (by decide +kernel) (by decide +kernel) 0 7 none none, by decide +kernel⟩

/-- A part whose delimiter is followed by a space. -/
def spacedPart : List Byte :=
  text "--b " ++ [cr, lf] ++ text "Content-Disposition: form-data; name=\"a\"" ++
    [cr, lf, cr, lf] ++ text "value" ++ [cr, lf] ++ text "--b--"

/-- As a whole the part is dropped, but its second piece on its own is a part. -/
theorem cut_behind_space :
    ¬∀ (answer : List Upload → List Byte → List Byte → List Byte → Path × Bool)
      (boundary : List Byte) (left right : List (List Byte)) (counter : Nat)
      (part : Option (List Byte)),
      boundary ≠ [] → cr ∉ boundary → left.flatten = right.flatten →
      result (left.foldl appendFormMultipart (recording answer boundary counter part)) =
        result (right.foldl appendFormMultipart (recording answer boundary counter part)) := by
  intro agree
  have same := agree takesAll (text "b") [spacedPart] [spacedPart.take 4, spacedPart.drop 4] 0 none
    (by decide) (by decide) (by simp)
  revert same
  decide +kernel

end QueryParams

end MiniWebSrv.HTTP
