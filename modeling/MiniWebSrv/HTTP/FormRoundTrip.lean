import MiniWebSrv.HTTP.FormEncoding

/-! # Forms come back as they were written

A form in its encoding, with or without a line end behind it, is read back: the parameters have
the values of the last fields with their names, and the upload helper gets the files in their
order, each with its own bytes.
-/

namespace MiniWebSrv.HTTP

open Word QueryParams

theorem StringMap.lookup_set_other {V : Type} {key other : List Byte} (differ : key ≠ other) (v : V)
    (m : StringMap V) : (StringMap.set other v m).lookup key = m.lookup key := by
  induction m with
  | nil => simp only [StringMap.set, List.lookup_cons, List.lookup_nil, beq_false_of_ne differ]
  | cons item rest ih =>
      obtain ⟨k, w⟩ := item
      by_cases same : k = other
      · subst same
        simp only [StringMap.set, if_true, List.lookup_cons, beq_false_of_ne differ]
      · simp only [StringMap.set, if_neg same, List.lookup_cons, ih]

/-! ## The scan of an encoded form -/

namespace Scan

variable {boundary : List Byte} {parts : List FormPart}

/-- Each part ends where its delimiter starts. -/
theorem run_parts (notCR : cr ∉ boundary) (wellFormed : ∀ part ∈ parts, part.WellFormed boundary)
    (actions : List Action) :
    (⟨0, [], ⟨.opening false, actions⟩⟩ : Scan).run (delimiter boundary)
        (parts.flatMap fun part => part.encode ++ delimiter boundary) =
      ⟨0, [], ⟨.opening false, actions ++ parts.flatMap FormPart.actions⟩⟩ := by
  induction parts generalizing actions with
  | nil => rw [List.flatMap_nil, List.flatMap_nil, List.append_nil]; rfl
  | cons part parts ih =>
      have this_ := wellFormed part List.mem_cons_self
      have first := run_delimited (s := ⟨0, [], ⟨.opening false, actions⟩⟩) notCR
        (part.encode ++ delimiter boundary)
        (by simp only [delimiter_eq, List.length_cons]; omega) rfl rfl
        (FormPart.encode_onlyAtEnd this_)
      have opened : (⟨.content, actions ++ part.actions⟩ : Reading).newPart =
          ⟨.opening false, actions ++ part.actions⟩ := rfl
      rw [FormPart.addAll_encode this_, opened] at first
      rw [List.flatMap_cons, List.flatMap_cons, run_append, first,
        ih fun part inside => wellFormed part (List.mem_cons_of_mem _ inside), List.append_assoc]

theorem run_encodeForm (notCR : cr ∉ boundary)
    (wellFormed : ∀ part ∈ parts, part.WellFormed boundary) :
    start.run (delimiter boundary) (encodeForm boundary parts) =
      ⟨0, [], ⟨.finished, parts.flatMap FormPart.actions ++ [.finish]⟩⟩ := by
  have first : start.run (delimiter boundary) (text "--" ++ boundary) =
      ⟨0, [], ⟨.opening false, []⟩⟩ :=
    run_rest (d := delimiter boundary) (n := 2) (by decide)
      (by simp only [delimiter_eq, List.length_cons]; omega)
  have last : ∀ actions : List Action, (⟨0, [], ⟨.opening false, actions⟩⟩ : Scan).run
      (delimiter boundary) (text "--") = ⟨0, [], ⟨.finished, actions ++ [.finish]⟩⟩ := fun _ => rfl
  rw [encodeForm, run_append, run_append, first, run_parts notCR wellFormed, last, List.nil_append]

/-- Behind the last part, nothing is of interest but a delimiter. -/
theorem run_finished {text : List Byte} {s : Scan} {actions : List Action}
    (finished : s.reading = ⟨.finished, actions⟩)
    (held : s.held = (delimiter boundary).take s.matched)
    (none_ : ¬delimiter boundary <:+: s.held ++ text) :
    (s.run (delimiter boundary) text).reading = ⟨.finished, actions⟩ := by
  have one : (delimiter boundary).take 1 = [cr] := by
    rw [delimiter_eq, List.take_succ_cons, List.take_zero]
  induction text generalizing s with
  | nil => exact finished
  | cons c text ih =>
      have same : ∀ bytes, s.reading.addAll bytes = ⟨.finished, actions⟩ := by
        intro bytes
        rw [finished, Reading.finished_addAll]
      have rest : ¬delimiter boundary <:+: c :: text := fun inside =>
        none_ (inside.trans (List.suffix_append _ _).isInfix)
      -- without anything held back
      have begin_ : ∀ t : Scan, t.matched = 0 → t.held = [] →
          (∀ bytes, t.reading.addAll bytes = ⟨.finished, actions⟩) →
          ((t.advance (delimiter boundary) c).run (delimiter boundary) text).reading =
            ⟨.finished, actions⟩ := by
        intro t matched nothing same
        simp only [advance, matched, if_true]
        by_cases isCR : c = cr
        · subst isCR
          rw [if_pos rfl]
          exact ih (s := { t with matched := 1, held := [cr] }) (same []) one.symm rest
        · rw [if_neg isCR, nothing]
          refine ih (s := ⟨0, [], t.reading.add c⟩) (same [c]) rfl fun inside => rest ?_
          exact inside.trans (List.suffix_cons c text).isInfix
      rw [run, List.foldl_cons, ← run]
      by_cases broken : s.matched ≠ 0 ∧ (delimiter boundary)[s.matched]? ≠ some c
      · simp only [step, if_pos broken]
        refine begin_ s.release rfl rfl fun bytes => ?_
        rw [release, same, Reading.finished_addAll]
      · simp only [step, if_neg broken]
        by_cases zero : s.matched = 0
        · exact begin_ s zero (by rw [held, zero, List.take_zero]) same
        · have hit : (delimiter boundary)[s.matched]? = some c := by
            by_contra other
            exact broken ⟨zero, other⟩
          have longer : (delimiter boundary).take (s.matched + 1) = s.held ++ [c] := by
            rw [List.take_add_one, hit, held, Option.toList_some]
          have moved : s.held ++ c :: text = (s.held ++ [c]) ++ text := by simp
          simp only [advance, if_neg zero]
          split
          · rename_i complete
            rw [complete, List.take_length] at longer
            rw [moved, ← longer] at none_
            exact absurd (List.prefix_append _ _).isInfix none_
          · exact ih (s := ⟨s.matched + 1, s.held ++ [c], s.reading⟩) finished longer.symm
              (moved ▸ none_)

end Scan

/-! ## The form -/

/-- The value which a field with that name has. -/
def FormPart.valueOf (key : List Byte) : FormPart → Option (List Byte)
  | .field name value => if name = key then some value else none
  | .file _ _ _ _ => none

/-- The value of the last field with that name. -/
def lastValue (key : List Byte) (parts : List FormPart) : Option (List Byte) :=
  (parts.filterMap (FormPart.valueOf key)).getLast?

theorem lastValue_cons (key : List Byte) (part : FormPart) (parts : List FormPart) :
    lastValue key (part :: parts) = (lastValue key parts).or (part.valueOf key) := by
  cases value : part.valueOf key with
  | none => simp only [lastValue, List.filterMap_cons_none value, Option.or_none]
  | some v =>
      simp only [lastValue, List.filterMap_cons_some value, List.getLast?_cons, Option.or_some]

def FormPart.isFile : FormPart → Bool
  | .field _ _ => false
  | .file _ _ _ _ => true

/-- The part which an upload comes from. -/
def Upload.part (upload : Upload) : FormPart :=
  .file upload.name upload.origFileName upload.mimeType upload.data

namespace QueryParams

/-- The helper takes every file. -/
def TakesEvery (answer : List Upload → List Byte → List Byte → List Byte → Path × Bool) : Prop :=
  ∀ uploads name fileName contentType, (answer uploads name fileName contentType).2 = true

section

variable {boundary : List Byte} {f : Form Recorder} {parts : List FormPart}

theorem actAll_actions {part : FormPart} (wellFormed : part.WellFormed boundary) :
    f.actAll part.actions = (addContent (openPart f part.partHeaders).2 part.data).2 := by
  have named : part.partHeaders.disposition.name ≠ [] := by
    have headers := wellFormed.headers
    cases part <;> exact headers.1
  rw [addContent_actAll (openPart_targeted f named).2]
  rfl

theorem actAll_field {name value : List Byte}
    (wellFormed : (FormPart.field name value).WellFormed boundary) :
    (f.actAll (FormPart.actions (.field name value))).paramMap =
        StringMap.set name value f.paramMap ∧
      (f.actAll (FormPart.actions (.field name value))).helper = f.helper := by
  have some_ : name ≠ [] := wellFormed.headers.1
  have helper : (if f.currPartMode = .file then FileUploadHelper.onFileEnd f.helper
      else f.helper) = f.helper := by split <;> rfl
  rw [actAll_actions wellFormed]
  simp only [FormPart.partHeaders, openPart, if_pos some_, helper, Bool.false_eq_true, if_false,
    addContent, reduceCtorEq, StringMap.lookup_set, StringMap.set_set, Option.getD_some,
    FormPart.data, List.nil_append, and_self]

theorem actAll_file {name fileName contentType data : List Byte}
    (wellFormed : (FormPart.file name fileName contentType data).WellFormed boundary)
    (takes : TakesEvery f.helper.answer) :
    (f.actAll (FormPart.actions (.file name fileName contentType data))).paramMap = f.paramMap ∧
      (f.actAll (FormPart.actions (.file name fileName contentType data))).helper =
        { f.helper with
          uploads := ⟨name, fileName, contentType,
            (f.helper.answer f.helper.uploads name fileName contentType).1, true, data⟩ ::
              f.helper.uploads } := by
  have some_ : name ≠ [] := wellFormed.headers.1
  have helper : (if f.currPartMode = .file then FileUploadHelper.onFileEnd f.helper
      else f.helper) = f.helper := by split <;> rfl
  have opened : FileUploadHelper.onNewFile f.helper name fileName contentType =
      (((f.helper.answer f.helper.uploads name fileName contentType).1, true),
        { f.helper with
          uploads := ⟨name, fileName, contentType,
            (f.helper.answer f.helper.uploads name fileName contentType).1, true, []⟩ ::
              f.helper.uploads }) := by
    simp only [FileUploadHelper.onNewFile, ← takes f.helper.uploads name fileName contentType]
  have removed : ∀ (old : Prop) [Decidable old] (h : Recorder) (path : Path),
      (if old then FileUploadHelper.remove h path else h) = h := by
    intro old _ h path
    split <;> rfl
  rw [actAll_actions wellFormed]
  simp only [FormPart.partHeaders, openPart, if_pos some_, helper, if_true, Option.getD_some, opened,
    addContent, FormPart.data]
  exact ⟨trivial, congrArg (fun h => (FileUploadHelper.onFileData h data).2) (removed _ _ _)⟩

/-- What the parts of a form make of what there is. -/
theorem actAll_parts (wellFormed : ∀ part ∈ parts, part.WellFormed boundary)
    (takes : TakesEvery f.helper.answer) :
    (∀ key, (f.actAll (parts.flatMap FormPart.actions)).paramMap.lookup key =
        (lastValue key parts).or (f.paramMap.lookup key)) ∧
      (f.actAll (parts.flatMap FormPart.actions)).helper.uploads.reverse.map Upload.part =
        f.helper.uploads.reverse.map Upload.part ++ parts.filter FormPart.isFile := by
  induction parts generalizing f with
  | nil => exact ⟨fun _ => rfl, (List.append_nil _).symm⟩
  | cons part parts ih =>
      have this_ := wellFormed part List.mem_cons_self
      have later : ∀ part ∈ parts, part.WellFormed boundary := fun part inside =>
        wellFormed part (List.mem_cons_of_mem _ inside)
      rw [List.flatMap_cons, Form.actAll_append]
      cases part with
      | field name value =>
          obtain ⟨params, helper⟩ := actAll_field (f := f) this_
          obtain ⟨values, files⟩ := ih (f := f.actAll (FormPart.actions (.field name value))) later
            (helper ▸ takes)
          refine ⟨fun key => ?_, by rw [files, helper]; rfl⟩
          rw [values, params, lastValue_cons, Option.or_assoc, FormPart.valueOf]
          by_cases same : name = key
          · subst same
            rw [if_pos rfl, StringMap.lookup_set, Option.some_or]
          · rw [if_neg same, StringMap.lookup_set_other (Ne.symm same), Option.none_or]
      | file name fileName contentType data =>
          obtain ⟨params, helper⟩ := actAll_file this_ takes
          obtain ⟨values, files⟩ := ih
            (f := f.actAll (FormPart.actions (.file name fileName contentType data))) later
            (helper ▸ takes)
          refine ⟨fun key => ?_, ?_⟩
          · rw [values, params, lastValue_cons, FormPart.valueOf, Option.or_none]
          · rw [files, helper, List.reverse_cons, List.map_append, List.append_assoc]
            rfl

/-- The form which a body stands for, with whatever is behind it, if there is no delimiter. -/
theorem appendFormMultipart_encodeForm (answer : List Upload → List Byte → List Byte → List Byte →
    Path × Bool) (notCR : cr ∉ boundary) (wellFormed : ∀ part ∈ parts, part.WellFormed boundary)
    {epilogue : List Byte} (none_ : ¬delimiter boundary <:+: epilogue)
    (long : (delimiter boundary).length < size32)
    (unwrapped : Unwrapped (delimiter boundary) (encodeForm boundary parts ++ epilogue))
    (counter : Nat) (currFMPart : Option (List Byte)) :
    ((recording answer boundary counter currFMPart).appendFormMultipart
        (encodeForm boundary parts ++ epilogue)).toForm =
      (recording answer boundary counter currFMPart).toForm.actAll
        (parts.flatMap FormPart.actions ++ [.finish]) := by
  have read : (Scan.start.run (delimiter boundary) (encodeForm boundary parts ++ epilogue)).reading =
      ⟨.finished, parts.flatMap FormPart.actions ++ [.finish]⟩ := by
    rw [Scan.run_append, Scan.run_encodeForm notCR wellFormed]
    exact Scan.run_finished rfl rfl none_
  have between := appendFormMultipart_between (recording_between answer counter currFMPart)
    notCR long unwrapped (by rw [read]; exact nofun)
  rw [between.follows.form, read]

end

/-- A form which a client has encoded, with or without a line end behind it, is read in one call:
    every field has the value of its last occurrence, and there are no others; the files come to
    the helper in their order, with their names, types and data. That is so as long as no delimiter
    ends where `Pos-Begin` has wrapped to less than its length. -/
theorem encodeForm_round_trip {boundary : List Byte} (notCR : cr ∉ boundary)
    {parts : List FormPart} (wellFormed : ∀ part ∈ parts, part.WellFormed boundary)
    {ending : List Byte} (lineEnd : ending = [] ∨ ending = [cr, lf])
    (long : (delimiter boundary).length < size32)
    (unwrapped : Unwrapped (delimiter boundary) (encodeForm boundary parts ++ ending))
    {answer : List Upload → List Byte → List Byte → List Byte → Path × Bool}
    (takes : TakesEvery answer) (counter : Nat) (currFMPart : Option (List Byte)) :
    (∀ key, ((recording answer boundary counter currFMPart).appendFormMultipart
        (encodeForm boundary parts ++ ending)).paramMap.lookup key = lastValue key parts) ∧
      ((recording answer boundary counter currFMPart).appendFormMultipart
        (encodeForm boundary parts ++ ending)).helper.uploads.reverse.map Upload.part =
          parts.filter FormPart.isFile := by
  have none_ : ¬delimiter boundary <:+: ending := by
    intro inside
    have length := inside.length_le
    simp only [delimiter_eq, List.length_cons] at length
    rcases lineEnd with rfl | rfl <;> simp only [List.length_nil, List.length_cons] at length <;>
      omega
  have form := appendFormMultipart_encodeForm answer notCR wellFormed none_ long unwrapped
    counter currFMPart
  obtain ⟨values, files⟩ := actAll_parts
    (f := (recording answer boundary counter currFMPart).toForm) wellFormed takes
  rw [form, Form.actAll_append]
  exact ⟨fun key => (values key).trans Option.or_none, files⟩

/-- A field twice, and a file whose data come close to a delimiter. -/
def fieldsAndFile : List FormPart :=
  [.field (text "a") (text "1"),
    .file (text "f") (text "x") (text "text/plain") (text "da" ++ [cr, lf] ++ text "--ta" ++ [cr]),
    .field (text "a") []]

theorem encodeForm_round_trip_near_delimiter :
    lastValue (text "a") fieldsAndFile = some [] ∧
    ((recording takesAll (text "b") 7 none).appendFormMultipart
      (encodeForm (text "b") fieldsAndFile ++ [cr, lf])).helper.uploads.reverse.map Upload.part =
        [.file (text "f") (text "x") (text "text/plain")
          (text "da" ++ [cr, lf] ++ text "--ta" ++ [cr])] := by
  have wellFormed : ∀ part ∈ fieldsAndFile, part.WellFormed (text "b") := by
    intro part inside
    simp only [fieldsAndFile, List.mem_cons, List.not_mem_nil, or_false] at inside
    rcases inside with rfl | rfl | rfl
    · exact ⟨by decide, onlyAtEnd_iff.mpr (by decide)⟩
    · exact ⟨by decide, onlyAtEnd_iff.mpr (by decide)⟩
    · exact ⟨by decide, onlyAtEnd_iff.mpr (by decide)⟩
  exact ⟨by decide, (encodeForm_round_trip (by decide) wellFormed (Or.inr rfl)
    (by decide +kernel) (.of_short (by decide +kernel)) (fun _ _ _ _ => rfl) 7 none).2⟩

/-! ## Behind 4 GiB -/

section

variable {H : Type} [FileUploadHelper H] {q : QueryParams H} {boundary : List Byte}

theorem matchFrom_skip (none_ : q.boundaryParseCounter = 0) (pos : Nat) (content : List Byte)
    {bytes : List Byte} (noCR : cr ∉ bytes) :
    matchFrom q pos content bytes = (q, content ++ bytes) := by
  induction bytes generalizing pos content with
  | nil => rw [matchFrom, List.append_nil]
  | cons c rest ih =>
      simp only [List.mem_cons, not_or] at noCR
      rw [matchFrom, if_pos none_, if_neg (Ne.symm noCR.1), ih _ _ noCR.2, List.append_assoc,
        List.singleton_append]

/-- Where `Pos-Begin` has wrapped, the content before a delimiter is not handed on. -/
theorem matchFrom_wrapped (boundaryStr : q.boundaryStr = delimiter boundary)
    (none_ : q.boundaryParseCounter = 0) (nothing : q.parseTmp = [])
    (long : (delimiter boundary).length < size32) {pos : Nat}
    (wrapped : u32 (pos + (delimiter boundary).length) < (delimiter boundary).length)
    (content rest : List Byte) :
    matchFrom q pos content (delimiter boundary ++ rest) =
      matchFrom q.startNewPart (pos + (delimiter boundary).length) [] rest := by
  have begun : delimiter boundary ++ rest = cr :: ((delimiter boundary).drop 1 ++ rest) := rfl
  have more : 1 < (delimiter boundary).length := by
    simp only [delimiter_eq, List.length_cons]
    omega
  have position : pos + 1 + ((delimiter boundary).length - 1) =
      pos + (delimiter boundary).length := by omega
  have cleared : ({ q with boundaryParseCounter := 0, parseTmp := [] } : QueryParams H) = q := by
    rw [← none_, ← nothing]
  rw [begun, matchFrom, if_pos none_, if_pos rfl, matchFrom_rest (n := 1)
    (q := { q with boundaryParseCounter := 1 }) boundaryStr rfl Nat.one_ne_zero more long, position]
  simp only [onFullMatch, if_pos wrapped, nothing, List.length_nil, Nat.not_lt_zero, if_false]
  rw [cleared]

end

/-- A form with one field, up to the first byte of the value. -/
def fieldStart : List Byte :=
  text "--b" ++ [cr, lf] ++ text "Content-Disposition: form-data; name=\"a\"" ++
    [cr, lf, cr, lf] ++ text "x"

theorem encodeForm_fieldStart (bytes : List Byte) :
    encodeForm (text "b") [.field (text "a") (ch 'x' :: bytes)] =
      fieldStart ++ (bytes ++ (delimiter (text "b") ++ text "--")) := by
  have front : text "--" ++ text "b" ++ ([cr, lf] ++
      FormPart.headers (.field (text "a") (ch 'x' :: bytes)) ++ [cr, lf] ++ [ch 'x']) = fieldStart := rfl
  rw [← front]
  simp only [encodeForm, List.flatMap_cons, List.flatMap_nil, List.append_nil, FormPart.encode,
    FormPart.data, List.append_assoc, List.cons_append, List.nil_append]

/-- The delimiter behind the value ends at 4 GiB. -/
def longValue : List Byte :=
  ch 'x' :: List.replicate (size32 - (fieldStart.length + 5)) (ch 'x')

theorem longValue_wellFormed : (FormPart.field (text "a") longValue).WellFormed (text "b") := by
  have noCR : cr ∉ longValue := by
    intro inside
    rcases List.mem_cons.mp inside with first | later
    · exact absurd first (by decide)
    · exact absurd (List.eq_of_mem_replicate later) (by decide)
  have whole : OnlyAtEnd (delimiter (text "b")) (delimiter (text "b")) :=
    onlyAtEnd_iff.mpr (by decide)
  exact ⟨by decide, (whole.append noCR).lineEnd (by decide)⟩

/-- The parameter is there, and its value is not. -/
theorem appendFormMultipart_longValue : ((recording takesAll (text "b") 0 none).appendFormMultipart
    (encodeForm (text "b") [.field (text "a") longValue])).paramMap = [(text "a", [])] := by
  have started : (matchFrom (recording takesAll (text "b") 0 none) 0 [] fieldStart).1.paramMap =
        [(text "a", [])] ∧
      (matchFrom (recording takesAll (text "b") 0 none) 0 [] fieldStart).1.boundaryParseCounter = 0 ∧
      (matchFrom (recording takesAll (text "b") 0 none) 0 [] fieldStart).1.boundaryStr =
        delimiter (text "b") ∧
      (matchFrom (recording takesAll (text "b") 0 none) 0 [] fieldStart).1.parseTmp = [] := by
    decide +kernel
  rcases front : matchFrom (recording takesAll (text "b") 0 none) 0 [] fieldStart with ⟨q, content⟩
  rw [front] at started
  obtain ⟨paramMap, idle, str, tmp⟩ := started
  have again : q.startNewPart.boundaryParseCounter = 0 := idle
  have noCR : cr ∉ List.replicate (size32 - (fieldStart.length + 5)) (ch 'x') := fun inside =>
    absurd (List.eq_of_mem_replicate inside) (by decide)
  have wrapped : u32 (0 + fieldStart.length + (List.replicate (size32 - (fieldStart.length + 5))
      (ch 'x')).length + (delimiter (text "b")).length) < (delimiter (text "b")).length := by
    have five : (delimiter (text "b")).length = 5 := rfl
    have short : fieldStart.length + 5 ≤ size32 := by decide +kernel
    have whole : 0 + fieldStart.length + (size32 - (fieldStart.length + 5)) + 5 = size32 := by omega
    rw [five, List.length_replicate, whole]
    decide
  have matched : matchFrom (recording takesAll (text "b") 0 none) 0 []
      (encodeForm (text "b") [.field (text "a") longValue]) = (q.startNewPart, text "--") := by
    rw [longValue, encodeForm_fieldStart, matchFrom_append, front, matchFrom_append,
      matchFrom_skip idle _ _ noCR, matchFrom_wrapped str idle tmp (by decide) wrapped,
      matchFrom_skip again _ _ (by decide), List.nil_append]
  have some_ : encodeForm (text "b") [.field (text "a") longValue] ≠ [] :=
    List.append_ne_nil_of_right_ne_nil _ (by decide)
  rw [appendFormMultipart, matched]
  simp only [again, ne_eq, not_true, if_false, if_pos some_]
  exact paramMap

/-- A field of nearly 4 GiB comes without its value. -/
theorem value_lost : ¬∀ (boundary : List Byte) (parts : List FormPart) (ending : List Byte)
    (answer : List Upload → List Byte → List Byte → List Byte → Path × Bool) (counter : Nat)
    (currFMPart : Option (List Byte)), boundary ≠ [] → cr ∉ boundary →
    (∀ part ∈ parts, part.WellFormed boundary) → (ending = [] ∨ ending = [cr, lf]) →
    TakesEvery answer → ∀ key, ((recording answer boundary counter currFMPart).appendFormMultipart
      (encodeForm boundary parts ++ ending)).paramMap.lookup key = lastValue key parts := by
  intro roundTrip
  have read := roundTrip (text "b") [.field (text "a") longValue] [] takesAll 0 none (by decide)
    (by decide) (List.forall_mem_singleton.mpr longValue_wellFormed) (Or.inl rfl)
    (fun _ _ _ _ => rfl) (text "a")
  rw [List.append_nil, appendFormMultipart_longValue] at read
  exact absurd read (by decide)

end QueryParams

end MiniWebSrv.HTTP
