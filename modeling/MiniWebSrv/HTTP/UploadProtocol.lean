import MiniWebSrv.HTTP.Multipart
import MiniWebSrv.Lib.Run

/-! # The order of the calls of an upload helper

The calls which `AppendFormMultipart` makes to its helper, for any body in any pieces. What is found
in the body is told first, by a matcher which cuts it at the delimiters and by a reader of the parts
between them, and neither of them knows of the helper. The calls depend on that.
-/

namespace MiniWebSrv.HTTP

open Run

/-! ## The protocol -/

inductive HelperCall where
  | newFile (name origFileName mimeType : List Byte)
  | fileData (bytes : List Byte)
  | fileEnd
  deriving DecidableEq, Repr

/-- The calls which are allowed while no file is open, and while one is. -/
def protocol : Bool → HelperCall → Option Bool
  | false, .newFile _ _ _ => some true
  | true, .fileData _ => some true
  | true, .fileEnd => some false
  | _, _ => none

def Respects (calls : List HelperCall) : Prop := (exec protocol false calls).isSome = true

instance (calls : List HelperCall) : Decidable (Respects calls) :=
  inferInstanceAs (Decidable (_ = _))

/-- A helper which keeps a list of its calls, and which may answer to each of them as it likes. -/
structure Caller where
  onNewFile : List HelperCall → Path × Bool
  onFileData : List HelperCall → Bool
  calls : List HelperCall

namespace Caller

def called (c : Caller) (call : HelperCall) : Caller := { c with calls := c.calls ++ [call] }

instance : FileUploadHelper Caller where
  onNewFile c name origFileName mimeType :=
    let c := c.called (.newFile name origFileName mimeType)
    (c.onNewFile c.calls, c)
  onFileData c bytes :=
    let c := c.called (.fileData bytes)
    (c.onFileData c.calls, c)
  onFileEnd c := c.called .fileEnd
  remove c _ := c
  default c := { c with calls := [] }

end Caller

/-! ## What is found -/

/-- What there is to be found in a body: a part with a name, and whether it is a file; the dashes
    which close the body; and something behind these in the same piece. -/
inductive Found where
  | part (isFile : Bool)
  | close
  | behind
  deriving DecidableEq, Repr

def PartEvent.found : PartEvent → Option Found
  | .headers block =>
      let disposition := (QueryParams.partHeaders block).disposition
      if disposition.name ≠ [] then some (.part disposition.fileNameExists) else none
  | .close => some .close
  | .behind => some .behind
  | _ => none

/-- Where a body has come to: no file has begun since the last one, or one has, or the dashes behind
    a file have been read. -/
inductive Course where
  | noFile
  | inFile
  | closed
  deriving DecidableEq, Repr

/-- The dashes come right behind a file, and nothing comes behind them. -/
def orderly : Course → Found → Option Course
  | .noFile, .part isFile => some (if isFile then .inFile else .noFile)
  | .inFile, .part isFile => some (if isFile then .inFile else .noFile)
  | .inFile, .close => some .closed
  | _, _ => none

def Orderly (found : List Found) : Prop := (exec orderly .noFile found).isSome = true

instance (found : List Found) : Decidable (Orderly found) := inferInstanceAs (Decidable (_ = _))

/-! ## One call of the helper -/

/-- The calls so far are allowed as long as what has been found is in order, and then a file is open
    where there is one. -/
def Matches (f : Form Caller) (state : FMParseState) : Option Course → Prop
  | none => exec protocol false f.helper.calls = none
  | some .noFile =>
      f.currPartMode = .string ∧ exec protocol false f.helper.calls = some false ∧ state ≠ .finished
  | some .inFile =>
      f.currPartMode = .file ∧ exec protocol false f.helper.calls = some true ∧ state ≠ .finished
  | some .closed =>
      f.currPartMode = .file ∧ exec protocol false f.helper.calls = some false ∧ state ≠ .read

/-- The course once more has been found. -/
def onward (course : Option Course) (found : List Found) : Option Course :=
  course.bind fun c => exec orderly c found

theorem onward_nil (course : Option Course) : onward course [] = course := by
  cases course with
  | none => rfl
  | some c => rfl

theorem onward_append (course : Option Course) (left right : List Found) :
    onward course (left ++ right) = onward (onward course left) right := by
  cases course with
  | none => rfl
  | some c => exact exec_append c left right

namespace Matches

variable {f : Form Caller} {state state' : FMParseState} {course : Option Course}

theorem called {c : Caller} {b : Option Bool} (before : exec protocol false c.calls = b)
    (call : HelperCall) :
    exec protocol false (c.called call).calls = b.bind fun b => protocol b call := by
  rw [Caller.called, exec_append, before]
  cases b with
  | none => rfl
  | some b => cases next : protocol b call <;> simp only [Option.bind_some, exec, next, Option.bind_none]

/-- Where neither content nor the end is read, one state is like another. -/
theorem quiet (h : Matches f state course) (notRead : state' ≠ .read)
    (notFinished : state' ≠ .finished) : Matches f state' course := by
  cases course with
  | none => exact h
  | some c =>
      cases c with
      | noFile => exact ⟨h.1, h.2.1, notFinished⟩
      | inFile => exact ⟨h.1, h.2.1, notFinished⟩
      | closed => exact ⟨h.1, h.2.1, notRead⟩

theorem addContent (h : Matches f .read course) (bytes : List Byte) :
    Matches (QueryParams.addContent f bytes).2 .read course := by
  unfold QueryParams.addContent
  split
  · exact h
  split
  · rename_i isFile
    cases course with
    | none => exact called h (.fileData bytes)
    | some c =>
        cases c with
        | noFile =>
            rw [h.1] at isFile
            cases isFile
        | inFile => exact ⟨h.1, called h.2.1 (.fileData bytes), h.2.2⟩
        | closed => cases h.2.2 rfl
  · exact h

theorem close (h : Matches f state course) :
    Matches { f with helper := FileUploadHelper.onFileEnd f.helper } .finished
      (onward course [.close]) := by
  cases course with
  | none => exact called h .fileEnd
  | some c =>
      cases c with
      | noFile => exact called h.2.1 .fileEnd
      | inFile => exact ⟨h.1, called h.2.1 .fileEnd, FMParseState.noConfusion⟩
      | closed => exact called h.2.1 .fileEnd

theorem behind (h : Matches f .finished course) :
    Matches { f with helper := FileUploadHelper.onFileEnd f.helper } .finished
      (onward course [.behind]) := by
  cases course with
  | none => exact called h .fileEnd
  | some c =>
      cases c with
      | noFile => cases h.2.2 rfl
      | inFile => cases h.2.2 rfl
      | closed => exact called h.2.1 .fileEnd

theorem unnamed (h : Matches f state course) {headers : QueryParams.PartHeaders}
    (none_ : headers.disposition.name = []) :
    (QueryParams.openPart f headers).1 = false ∧
      Matches (QueryParams.openPart f headers).2 state course := by
  unfold QueryParams.openPart
  rw [if_neg (not_not.mpr none_)]
  refine ⟨rfl, ?_⟩
  cases course with
  | none => exact h
  | some c => cases c <;> exact h

/-- The end of the file before the part, if there is one. -/
theorem ended (h : Matches f state course) (isFile : Bool) :
    exec protocol false (if f.currPartMode = .file then FileUploadHelper.onFileEnd f.helper
        else f.helper).calls = (onward course [.part isFile]).map fun _ => false := by
  cases course with
  | none =>
      split
      · exact called h .fileEnd
      · exact h
  | some c =>
      cases c with
      | noFile =>
          rw [if_neg (by rw [h.1]; exact PartMode.noConfusion)]
          exact h.2.1
      | inFile =>
          rw [if_pos h.1]
          exact called h.2.1 .fileEnd
      | closed =>
          rw [if_pos h.1]
          exact called h.2.1 .fileEnd

/-- The courses behind a part. -/
theorem onward_part (course : Option Course) (isFile : Bool) :
    onward course [.part isFile] = none ∨
      onward course [.part isFile] = some (if isFile then .inFile else .noFile) := by
  cases course with
  | none => exact Or.inl rfl
  | some c =>
      cases c with
      | noFile => exact Or.inr rfl
      | inFile => exact Or.inr rfl
      | closed => exact Or.inl rfl

theorem file {c : Caller} (before : exec protocol false c.calls =
      (onward course [.part true]).map fun _ => false) (name origFileName mimeType : List Byte)
    (opened : f.helper.calls = (FileUploadHelper.onNewFile c name origFileName mimeType).2.calls)
    (mode : f.currPartMode = .file) : Matches f .read (onward course [.part true]) := by
  have calls : exec protocol false f.helper.calls = _ :=
    opened ▸ called before (.newFile name origFileName mimeType)
  rcases onward_part course true with none_ | some_
  · rw [none_] at calls ⊢
    exact calls
  · rw [some_] at calls ⊢
    exact ⟨mode, calls, FMParseState.noConfusion⟩

theorem text (before : exec protocol false f.helper.calls =
      (onward course [.part false]).map fun _ => false) (mode : f.currPartMode = .string) :
    Matches f .read (onward course [.part false]) := by
  rcases onward_part course false with none_ | some_
  · rw [none_] at before ⊢
    exact before
  · rw [some_] at before ⊢
    exact ⟨mode, before, FMParseState.noConfusion⟩

/-- A part opens behind the end of the file before it. -/
theorem part (h : Matches f state course) {headers : QueryParams.PartHeaders}
    (some_ : headers.disposition.name ≠ []) :
    (QueryParams.openPart f headers).1 = true ∧
      Matches (QueryParams.openPart f headers).2 .read
        (onward course [.part headers.disposition.fileNameExists]) := by
  unfold QueryParams.openPart
  rw [if_pos some_]
  cases isFile : headers.disposition.fileNameExists with
  | false =>
      refine ⟨rfl, ?_⟩
      exact text (h.ended false) rfl
  | true =>
      simp only [if_true]
      split
      · rename_i opened
        refine ⟨rfl, file (h.ended true) headers.disposition.name headers.disposition.fileName
          (headers.contentTypeVal.getD []) ?_ rfl⟩
        rw [opened]
        split <;> rfl
      · rename_i opened
        refine ⟨rfl, file (h.ended true) headers.disposition.name headers.disposition.fileName
          (headers.contentTypeVal.getD []) ?_ rfl⟩
        rw [opened]

theorem respects_iff (h : Matches f state course) :
    Respects f.helper.calls ↔ course.isSome = true := by
  unfold Respects
  cases course with
  | none =>
      have refused : exec protocol false f.helper.calls = none := h
      rw [refused, Option.isSome_none, Option.isSome_none]
  | some c =>
      cases c with
      | noFile => rw [h.2.1, Option.isSome_some, Option.isSome_some]
      | inFile => rw [h.2.1, Option.isSome_some, Option.isSome_some]
      | closed => rw [h.2.1, Option.isSome_some, Option.isSome_some]

end Matches

/-! ## The calls of a body -/

section

variable {f : Form Caller} {r : PartReader} {course : Option Course}

/-- The course once more has been found in a log. -/
def along (course : Option Course) (events : List PartEvent) : Option Course :=
  onward course (events.filterMap PartEvent.found)

theorem along_append (course : Option Course) (left right : List PartEvent) :
    along course (left ++ right) = along (along course left) right := by
  rw [along, List.filterMap_append, onward_append]
  rfl

theorem along_cons (course : Option Course) (event : PartEvent) (rest : List PartEvent) :
    along course (event :: rest) = along (along course [event]) rest :=
  along_append course [event] rest

theorem along_nil (course : Option Course) : along course [] = course := onward_nil course

/-- Content makes no difference. -/
theorem along_content (course : Option Course) (bytes : List Byte) :
    along course [.content bytes] = course := onward_nil course

/-- The parts of a piece. -/
theorem Matches.reads {state state' : FMParseState} {events : List PartEvent}
    (h : Matches f state course) (reads : PartReader.Reads state events state') :
    Matches (f.takeAll events) state' (along course events) := by
  induction reads generalizing f course with
  | nothing state =>
      rw [along_nil]
      exact h
  | content bytes =>
      rw [along_content]
      exact h.addContent bytes
  | headersBegin rest ih => exact ih (h.quiet FMParseState.noConfusion FMParseState.noConfusion)
  | close rest ih =>
      have next := ih h.close
      rw [along_cons]
      exact next
  | compared index rest ih => exact ih h
  | @named index block content named =>
      have opened := (h.part named).2.addContent content
      have found : along course [.compared index, .headers block, .content content] =
          onward course [.part (QueryParams.partHeaders block).disposition.fileNameExists] := by
        simp only [along, List.filterMap_cons, List.filterMap_nil, PartEvent.found, if_pos named]
      rw [found]
      exact opened
  | @unnamed index block unnamed =>
      have refused := (h.unnamed unnamed).2
      have found : along course [.compared index, .headers block] = course := by
        simp only [along, List.filterMap_cons, List.filterMap_nil, PartEvent.found,
          if_neg (not_not.mpr unnamed), onward_nil]
      rw [found]
      exact refused
  | behind => exact h.behind

/-- Whatever the matcher hands over. -/
theorem Matches.take (h : Matches f r.state course) (handOver : HandOver) :
    Matches (f.takeAll (r.take handOver).2) (r.take handOver).1.state
      (along course (r.take handOver).2) := by
  cases handOver with
  | compared index => exact (along_nil course).symm ▸ h
  | newPart =>
      exact (along_nil course).symm ▸ h.quiet FMParseState.noConfusion FMParseState.noConfusion
  | piece bytes =>
      rw [PartReader.take]
      split
      · exact (along_nil course).symm ▸ h
      · exact h.reads (r.read_reads [] bytes)

theorem Matches.takeAll (h : Matches f r.state course) (handOvers : List HandOver) :
    Matches (f.takeAll (r.takeAll handOvers).2) (r.takeAll handOvers).1.state
      (along course (r.takeAll handOvers).2) := by
  induction handOvers generalizing f r course with
  | nil =>
      rw [PartReader.takeAll, along_nil]
      exact h
  | cons handOver rest ih =>
      have next := ih (h.take handOver)
      rw [PartReader.takeAll, logged_fst, logged_snd, Form.takeAll_append, along_append]
      exact next

end

namespace QueryParams

/-! ## Whole bodies -/

/-- A fresh object with a boundary and a helper. -/
def calling (onNewFile : List HelperCall → Path × Bool) (onFileData : List HelperCall → Bool)
    (boundary : List Byte) (fmParseCounter : Nat) (currFMPart : Option (List Byte)) :
    QueryParams Caller :=
  { init (Caller.mk onNewFile onFileData []) fmParseCounter currFMPart with
    boundaryStr := boundary }.onBoundaryParsed

/-- What is found in the pieces of a body, by an object whose `FMParseCounter` has been left as it
    was. -/
def found (boundary : List Byte) (fmParseCounter : Nat) (pieces : List (List Byte)) : List Found :=
  (PartReader.takeAll ⟨.headerStart, fmParseCounter, []⟩
    (Matcher.handOvers (delimiter boundary) ⟨2, []⟩ pieces).2).2.filterMap PartEvent.found

/-- The calls of the helper come in their order exactly for those bodies whose dashes come right
    behind a file and have nothing behind them, whatever the helper answers. -/
theorem protocol_respected_iff (onNewFile : List HelperCall → Path × Bool)
    (onFileData : List HelperCall → Bool) (boundary : List Byte) (fmParseCounter : Nat)
    (currFMPart : Option (List Byte)) (pieces : List (List Byte)) :
    Respects (pieces.foldl appendFormMultipart
        (calling onNewFile onFileData boundary fmParseCounter currFMPart)).helper.calls ↔
      Orderly (found boundary fmParseCounter pieces) := by
  have fresh : Matches (calling onNewFile onFileData boundary fmParseCounter currFMPart).toForm
      .headerStart (some .noFile) := ⟨rfl, rfl, FMParseState.noConfusion⟩
  have calls := Matches.takeAll (r := ⟨.headerStart, fmParseCounter, []⟩) fresh
    (Matcher.handOvers (delimiter boundary) ⟨2, []⟩ pieces).2
  rw [appendAll_log, foldl_goOn_eq]
  exact calls.respects_iff

/-- A field and a file, in this order. -/
example : Orderly (found (text "b") 0 [text "--b" ++ [cr, lf] ++
    text "Content-Disposition: form-data; name=\"a\"" ++ [cr, lf, cr, lf] ++ text "v" ++ [cr, lf] ++
    text "--b" ++ [cr, lf] ++ text "Content-Disposition: form-data; name=\"f\"; filename=\"x\"" ++
    [cr, lf, cr, lf] ++ text "data" ++ [cr, lf] ++ text "--b--"]) := by
  decide +kernel

/-- A form with a field and no file. -/
def fieldOnly : List Byte :=
  text "--b" ++ [cr, lf] ++ text "Content-Disposition: form-data; name=\"a\"" ++
    [cr, lf, cr, lf] ++ text "v" ++ [cr, lf] ++ text "--b--"

theorem end_without_file :
    ¬Respects ([fieldOnly].foldl appendFormMultipart
      (calling (fun _ => (.empty, true)) (fun _ => true) (text "b") 0 none)).helper.calls := by
  decide +kernel

end QueryParams

end MiniWebSrv.HTTP
