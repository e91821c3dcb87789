import MiniWebSrv.HTTP.QueryStates
import MiniWebSrv.HTTP.UploadLimits

/-! # Refused uploads

The answers of `OnFileData` go from `AppendToCurrentPart` to `AppendFormMultipart`, which looks at
none of them and returns true at its only exit. A helper may therefore stand in for another one
which answers differently. Such a helper watches here whether there has been a refusal.
-/

namespace MiniWebSrv.HTTP

open Word

/-! ## A helper in the place of another -/

/-- `f` goes along with all the calls of a helper, but for what `OnFileData` answers. -/
structure HelperMap {H H' : Type} [FileUploadHelper H] [FileUploadHelper H'] (f : H → H') :
    Prop where
  onNewFile : ∀ h name origFileName mimeType,
    FileUploadHelper.onNewFile (f h) name origFileName mimeType =
      ((FileUploadHelper.onNewFile h name origFileName mimeType).1,
        f (FileUploadHelper.onNewFile h name origFileName mimeType).2)
  onFileData : ∀ h bytes,
    (FileUploadHelper.onFileData (f h) bytes).2 = f (FileUploadHelper.onFileData h bytes).2
  onFileEnd : ∀ h, FileUploadHelper.onFileEnd (f h) = f (FileUploadHelper.onFileEnd h)
  remove : ∀ h path, FileUploadHelper.remove (f h) path = f (FileUploadHelper.remove h path)

section Maps

variable {H H' : Type}

def Form.mapHelper (form : Form H) (f : H → H') : Form H' :=
  ⟨form.paramMap, form.fileMap, form.currFMPart, form.currPartMode, f form.helper⟩

namespace QueryParams

def mapHelper (q : QueryParams H) (f : H → H') : QueryParams H' :=
  { q with toForm := q.toForm.mapHelper f }

variable [FileUploadHelper H] [FileUploadHelper H'] {f : H → H'} (hom : HelperMap f)
include hom

theorem openPart_mapHelper (form : Form H) (headers : PartHeaders) :
    openPart (form.mapHelper f) headers =
      ((openPart form headers).1, (openPart form headers).2.mapHelper f) := by
  unfold openPart
  by_cases named : headers.disposition.name ≠ []
  · have ended : (if (form.mapHelper f).currPartMode = .file then
        FileUploadHelper.onFileEnd (form.mapHelper f).helper else (form.mapHelper f).helper) =
        f (if form.currPartMode = .file then FileUploadHelper.onFileEnd form.helper
          else form.helper) := by
      by_cases file : form.currPartMode = .file
      · rw [if_pos file, if_pos (show (form.mapHelper f).currPartMode = .file from file)]
        exact hom.onFileEnd form.helper
      · rw [if_neg file, if_neg (show ¬(form.mapHelper f).currPartMode = .file from file)]
        rfl
    simp only [if_pos named]
    rw [ended]
    generalize (if form.currPartMode = .file then FileUploadHelper.onFileEnd form.helper
      else form.helper) = helper
    split
    · rw [hom.onNewFile]
      generalize FileUploadHelper.onNewFile helper headers.disposition.name
        headers.disposition.fileName (headers.contentTypeVal.getD []) = made
      obtain ⟨⟨path, opened⟩, helper⟩ := made
      cases opened with
      | false => rfl
      | true =>
          have removed : ∀ old, (if old ≠ Path.empty then FileUploadHelper.remove (f helper) old
              else f helper) =
              f (if old ≠ Path.empty then FileUploadHelper.remove helper old else helper) := by
            intro old
            split
            · exact hom.remove helper old
            · rfl
          exact congrArg (fun helper => (true, (⟨_, _, _, _, helper⟩ : Form H'))) (removed _)
    · rfl
  · simp only [if_neg named]
    rfl

theorem addContent_mapHelper (form : Form H) (bytes : List Byte) :
    (addContent (form.mapHelper f) bytes).2 = (addContent form bytes).2.mapHelper f := by
  unfold addContent
  have part : (form.mapHelper f).currFMPart = form.currFMPart := rfl
  have mode : (form.mapHelper f).currPartMode = form.currPartMode := rfl
  rw [part, mode]
  cases form.currFMPart with
  | none => rfl
  | some key =>
      dsimp only
      split
      · simp only [Form.mapHelper, hom.onFileData]
      · rfl

theorem take_mapHelper (form : Form H) (event : PartEvent) :
    (form.mapHelper f).take event = (form.take event).mapHelper f := by
  cases event with
  | compared index => rfl
  | headers block => exact congrArg Prod.snd (openPart_mapHelper hom form (partHeaders block))
  | content bytes => exact addContent_mapHelper hom form bytes
  | close | behind => simp only [Form.take, Form.mapHelper, hom.onFileEnd]

theorem takeAll_mapHelper (form : Form H) (events : List PartEvent) :
    (form.mapHelper f).takeAll events = (form.takeAll events).mapHelper f := by
  induction events generalizing form with
  | nil => rfl
  | cons event rest ih =>
      exact (congrArg (Form.takeAll · rest) (take_mapHelper hom form event)).trans (ih _)

theorem appendFormMultipart_mapHelper (q : QueryParams H) (bytes : List Byte) :
    (q.mapHelper f).appendFormMultipart bytes = (q.appendFormMultipart bytes).mapHelper f := by
  have same := takeAll_mapHelper hom q.toForm
    (q.partReader.takeAll (q.matcher.handOver q.boundaryStr bytes).2).2
  rw [appendFormMultipart_log, appendFormMultipart_log, foldl_goOn_eq, foldl_goOn_eq]
  exact congrArg (fun form => ((q.mapHelper f).withPart _ form).withMatcher _) same

theorem appendAll_mapHelper (q : QueryParams H) (pieces : List (List Byte)) :
    pieces.foldl appendFormMultipart (q.mapHelper f) =
      (pieces.foldl appendFormMultipart q).mapHelper f := by
  induction pieces generalizing q with
  | nil => rfl
  | cons bytes rest ih =>
      rw [List.foldl_cons, List.foldl_cons, appendFormMultipart_mapHelper hom, ih]

end QueryParams

end Maps

/-! ## Refusals -/

/-- A helper, with a note of whether it has refused any data. -/
structure Watched (H : Type) where
  helper : H
  refused : Bool

namespace Watched

variable {H : Type} [FileUploadHelper H]

instance : FileUploadHelper (Watched H) where
  onNewFile w name origFileName mimeType :=
    let r := FileUploadHelper.onNewFile w.helper name origFileName mimeType
    (r.1, { w with helper := r.2 })
  onFileData w bytes :=
    let r := FileUploadHelper.onFileData w.helper bytes
    (r.1, ⟨r.2, w.refused || !r.1⟩)
  onFileEnd w := { w with helper := FileUploadHelper.onFileEnd w.helper }
  remove w path := { w with helper := FileUploadHelper.remove w.helper path }
  default w := { w with helper := FileUploadHelper.default w.helper }

/-- The watched helper gets the calls of the helper, and answers them in the same way. -/
theorem helper_map : HelperMap (helper : Watched H → H) where
  onNewFile _ _ _ _ := rfl
  onFileData _ _ := rfl
  onFileEnd _ := rfl
  remove _ _ := rfl

theorem noted_map (noted : Bool) :
    HelperMap fun w : Watched H => Watched.mk w.helper (noted || w.refused) where
  onNewFile _ _ _ _ := rfl
  onFileData w _ := congrArg (Watched.mk _) (Bool.or_assoc noted w.refused _)
  onFileEnd _ := rfl
  remove _ _ := rfl

end Watched

/-- A helper in whose place all data is taken. -/
structure Taking (H : Type) where
  helper : H

instance {H : Type} [FileUploadHelper H] : FileUploadHelper (Taking H) where
  onNewFile t name origFileName mimeType :=
    let r := FileUploadHelper.onNewFile t.helper name origFileName mimeType
    (r.1, ⟨r.2⟩)
  onFileData t bytes := (true, ⟨(FileUploadHelper.onFileData t.helper bytes).2⟩)
  onFileEnd t := ⟨FileUploadHelper.onFileEnd t.helper⟩
  remove t path := ⟨FileUploadHelper.remove t.helper path⟩
  default t := ⟨FileUploadHelper.default t.helper⟩

theorem Taking.mk_map {H : Type} [FileUploadHelper H] : HelperMap (Taking.mk : H → Taking H) where
  onNewFile _ _ _ _ := rfl
  onFileData _ _ := rfl
  onFileEnd _ := rfl
  remove _ _ := rfl

namespace QueryParams

variable {H : Type} [FileUploadHelper H]

/-- After any body the object is what it would be if no data had been refused. -/
theorem refusals_unseen (q : QueryParams H) (pieces : List (List Byte)) :
    pieces.foldl appendFormMultipart (q.mapHelper Taking.mk) =
      (pieces.foldl appendFormMultipart q).mapHelper Taking.mk :=
  appendAll_mapHelper Taking.mk_map q pieces

def watched (q : QueryParams H) : QueryParams (Watched H) := q.mapHelper fun h => ⟨h, false⟩

/-- `OnFileData` returns false in one of the calls for these pieces. -/
def refuses (q : QueryParams H) (pieces : List (List Byte)) : Bool :=
  (pieces.foldl appendFormMultipart q.watched).helper.refused

theorem watched_helper (q : QueryParams H) (pieces : List (List Byte)) :
    (pieces.foldl appendFormMultipart q.watched).mapHelper Watched.helper =
      pieces.foldl appendFormMultipart q :=
  (appendAll_mapHelper Watched.helper_map q.watched pieces).symm

omit [FileUploadHelper H] in
theorem watched_noted (r : QueryParams (Watched H)) :
    r = (r.mapHelper Watched.helper).watched.mapHelper fun w =>
      Watched.mk w.helper (r.helper.refused || w.refused) := by
  simp only [watched, mapHelper, Form.mapHelper, Bool.or_false]

theorem refuses_append (q : QueryParams H) (left right : List (List Byte)) :
    q.refuses (left ++ right) =
      (q.refuses left || (left.foldl appendFormMultipart q).refuses right) := by
  have seen := watched_noted (left.foldl appendFormMultipart q.watched)
  rw [watched_helper] at seen
  have later := appendAll_mapHelper (Watched.noted_map (q.refuses left))
    (left.foldl appendFormMultipart q).watched right
  rw [refuses, List.foldl_append, seen]
  exact congrArg (·.helper.refused) later

/-! ## The results -/

/-- `AppendFormMultipart` with its result. -/
def appendFormMultipartResult (q : QueryParams H) (bytes : List Byte) : Bool × QueryParams H :=
  (true, q.appendFormMultipart bytes)

/-- The results of the calls for the pieces of a body. -/
def results (q : QueryParams H) : List (List Byte) → List Bool
  | [] => []
  | bytes :: rest =>
      let r := q.appendFormMultipartResult bytes
      r.1 :: results r.2 rest

/-- Wherever data is refused in a call, this call or a later one returns false. -/
def AbortsRefused (q : QueryParams H) (pieces : List (List Byte)) : Prop :=
  ∀ before bytes after, pieces = before ++ bytes :: after →
    (before.foldl appendFormMultipart q).refuses [bytes] = true →
      false ∈ results (before.foldl appendFormMultipart q) (bytes :: after)

theorem not_false_results (q : QueryParams H) (pieces : List (List Byte)) :
    false ∉ q.results pieces := by
  induction pieces generalizing q with
  | nil => exact List.not_mem_nil
  | cons bytes rest ih => exact List.not_mem_cons_of_ne_of_not_mem Bool.false_ne_true (ih _)

/-- No body is aborted because of a refusal. -/
theorem aborts_refused_iff (q : QueryParams H) (pieces : List (List Byte)) :
    AbortsRefused q pieces ↔ q.refuses pieces = false := by
  constructor
  · intro aborts
    induction pieces generalizing q with
    | nil => rfl
    | cons bytes rest ih =>
        have first : q.refuses [bytes] = false := Bool.eq_false_iff.mpr fun refused =>
          not_false_results q (bytes :: rest) (aborts [] bytes rest rfl refused)
        have later := ih (q.appendFormMultipart bytes) fun before bytes' after cut =>
          aborts (bytes :: before) bytes' after (congrArg (bytes :: ·) cut)
        rw [← List.singleton_append, refuses_append, first]
        exact later
  · rintro none_ before bytes after rfl refused
    rw [← List.singleton_append, refuses_append, refuses_append, refused, Bool.true_or,
      Bool.or_true] at none_
    cases none_

/-- A fresh object with a limit of one byte, on a file system which opens and stores everything. -/
def oneByte : QueryParams TempFileUploadHelper :=
  let fileSystem := ⟨fun _ => .opened, fun _ _ length => length, 0, [], 0⟩
  { init (TempFileUploadHelper.init ⟨[], 1, 1⟩ fileSystem) 0 none with
    boundaryStr := text "b" }.onBoundaryParsed

/-- A file of two bytes is refused, and the body passes. -/
theorem refusal_passed_over : ¬AbortsRefused oneByte [Connection.fileBody] := by
  intro aborts
  have refused : oneByte.refuses [Connection.fileBody] = true := by decide +kernel
  exact not_false_results oneByte _ (aborts [] Connection.fileBody [] rfl refused)

end QueryParams

end MiniWebSrv.HTTP
