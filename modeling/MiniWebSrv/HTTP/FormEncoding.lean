import MiniWebSrv.HTTP.MultipartCuts

/-! # Forms as clients write them

The encoding of a list of fields and files as a multipart body, and what the scan of a body says
about it. The data of a part may look like a delimiter as often and for as long as they like, as
long as there is no whole one in them.
-/

namespace MiniWebSrv.HTTP

open QueryParams

/-- The delimiter comes at the end of the text, if it comes at all. -/
def OnlyAtEnd (d s : List Byte) : Prop := ∀ before after, s = before ++ d ++ after → after = []

/-- It is enough to look at every position. -/
theorem onlyAtEnd_iff {d s : List Byte} : OnlyAtEnd d s ↔
    ∀ n ∈ List.range (s.length + 1), d.isPrefixOf (s.drop n) = true → n + d.length = s.length := by
  constructor
  · intro only n inside starts
    obtain ⟨after, same⟩ := List.isPrefixOf_iff_prefix.mp starts
    have whole : s = s.take n ++ d ++ after := by
      rw [List.append_assoc, same, List.take_append_drop]
    obtain rfl := only _ _ whole
    have length := congrArg List.length same
    rw [List.mem_range] at inside
    simp only [List.append_nil, List.length_drop] at length
    omega
  · intro all before after same
    have here := all before.length (by
      rw [List.mem_range, same]
      simp only [List.length_append]
      omega) (List.isPrefixOf_iff_prefix.mpr ⟨after, by
        rw [same, List.append_assoc, List.drop_left' rfl]⟩)
    rw [same] at here
    simp only [List.length_append] at here
    exact List.length_eq_zero_iff.mp (by omega)

theorem OnlyAtEnd.suffix {d : List Byte} (left : List Byte) {right : List Byte}
    (only : OnlyAtEnd d (left ++ right)) : OnlyAtEnd d right := by
  intro before after same
  exact only (left ++ before) after (by rw [same]; simp only [List.append_assoc])

/-- Where the delimiter does not start, another byte may stand in front. -/
theorem OnlyAtEnd.cons {d s : List Byte} {c : Byte} (only : OnlyAtEnd d s)
    (other : ¬d <+: c :: s) : OnlyAtEnd d (c :: s) := by
  intro before after same
  cases before with
  | nil => exact absurd ⟨after, same.symm⟩ other
  | cons b before =>
      simp only [List.cons_append, List.cons.injEq] at same
      exact only before after same.2

theorem OnlyAtEnd.append {boundary left right : List Byte} (notCR : cr ∉ left)
    (only : OnlyAtEnd (delimiter boundary) right) :
    OnlyAtEnd (delimiter boundary) (left ++ right) := by
  induction left with
  | nil => exact only
  | cons c left ih =>
      simp only [List.mem_cons, not_or] at notCR
      refine (ih notCR.2).cons fun starts => ?_
      rw [delimiter_eq, List.cons_prefix_cons] at starts
      exact notCR.1 starts.1

/-- A line end which no dash follows is not the start of a delimiter. -/
theorem OnlyAtEnd.lineEnd {boundary s : List Byte} (only : OnlyAtEnd (delimiter boundary) s)
    (other : s.head? ≠ some (ch '-')) :
    OnlyAtEnd (delimiter boundary) (cr :: lf :: s) := by
  refine (only.cons fun starts => ?_).cons fun starts => ?_
  · rw [delimiter_eq, List.cons_prefix_cons] at starts
    exact absurd starts.1 (by decide)
  · rw [delimiter_eq, List.cons_prefix_cons, List.cons_prefix_cons] at starts
    obtain ⟨after, same⟩ := starts.2.2
    rw [← same] at other
    exact other rfl

theorem delimiter_overlap {boundary front rest text : List Byte} {n : Nat} {c : Byte}
    (notCR : cr ∉ boundary) (left : (delimiter boundary).take n = front ++ rest)
    (right : delimiter boundary = rest ++ c :: text) :
    rest = [] ∨ (delimiter boundary)[n]? = some c := by
  cases rest with
  | nil => exact Or.inl rfl
  | cons b rest =>
      have isCR : b = cr := by
        rw [delimiter_eq, List.cons_append, List.cons.injEq] at right
        exact right.1.symm
      subst isCR
      cases front with
      | nil =>
          rw [List.nil_append] at left
          have length := congrArg List.length left
          have whole := congrArg List.length right
          simp only [List.length_take, List.length_append, List.length_cons] at length whole
          refine Or.inr ?_
          rw [right, List.getElem?_append_right (by simp only [List.length_cons]; omega),
            show n - (cr :: rest).length = 0 by simp only [List.length_cons]; omega]
          rfl
      | cons a front =>
          have inside : cr ∈ (delimiter boundary).tail.take (n - 1) := by
            have tail := congrArg List.tail left
            rw [List.cons_append, List.tail_cons] at tail
            rw [← List.drop_one, List.drop_take, List.drop_one] at tail
            rw [tail]
            exact List.mem_append_right _ List.mem_cons_self
          exact absurd (List.mem_of_mem_take inside) (cr_delimiter notCR)

namespace Scan

variable {boundary : List Byte}

/-- A text which ends with the delimiter, and has no other one in it, is read up to it. The bytes
    held back, if any, are a part of the text. -/
theorem run_delimited (notCR : cr ∉ boundary) (text : List Byte) {body : List Byte} {s : Scan}
    (matched : s.matched < (delimiter boundary).length)
    (held : s.held = (delimiter boundary).take s.matched)
    (whole : s.held ++ text = body ++ delimiter boundary)
    (only : OnlyAtEnd (delimiter boundary) (s.held ++ text)) :
    s.run (delimiter boundary) text = ⟨0, [], (s.reading.addAll body).newPart⟩ := by
  have long : 4 ≤ (delimiter boundary).length := by
    simp only [delimiter_eq, List.length_cons]
    omega
  have one : (delimiter boundary).take 1 = [cr] := by
    rw [delimiter_eq, List.take_succ_cons, List.take_zero]
  induction text generalizing s body with
  | nil =>
      have length := congrArg List.length whole
      simp only [held, List.length_append, List.length_take, List.length_nil] at length
      omega
  | cons c text ih =>
      -- nothing is held back: the byte is a part of the body, or a match starts with it
      have begin_ : ∀ (t : Scan) (rest : List Byte), t.matched = 0 → t.held = [] →
          c :: text = rest ++ delimiter boundary → OnlyAtEnd (delimiter boundary) (c :: text) →
          (t.advance (delimiter boundary) c).run (delimiter boundary) text =
            ⟨0, [], (t.reading.addAll rest).newPart⟩ := by
        intro t rest none_ nothing same only
        simp only [advance, none_, if_true]
        by_cases isCR : c = cr
        · subst isCR
          rw [if_pos rfl]
          exact ih (s := { t with matched := 1, held := [cr] }) (by simp only; omega) one.symm same
            only
        · rw [if_neg isCR]
          cases rest with
          | nil =>
              rw [List.nil_append, delimiter_eq, List.cons.injEq] at same
              exact absurd same.1 isCR
          | cons b rest =>
              rw [List.cons_append, List.cons.injEq] at same
              obtain ⟨rfl, same⟩ := same
              have later := ih (s := ⟨0, [], t.reading.add c⟩) (by simp only; omega) rfl same
                (OnlyAtEnd.suffix [c] only)
              rw [nothing]
              exact later
      rw [run, List.foldl_cons, ← run]
      by_cases broken : s.matched ≠ 0 ∧ (delimiter boundary)[s.matched]? ≠ some c
      · simp only [step, if_pos broken]
        obtain ⟨rest, rfl, same⟩ : ∃ rest, body = s.held ++ rest ∧
            c :: text = rest ++ delimiter boundary := by
          rcases List.append_eq_append_iff.mp whole with ⟨rest, same, tail⟩ | ⟨rest, front, same⟩
          · exact ⟨rest, same, tail⟩
          · rw [held] at front
            obtain rfl | hit := delimiter_overlap notCR front same
            · rw [List.append_nil] at front
              exact ⟨[], by rw [held, front, List.append_nil], same.symm⟩
            · exact absurd hit broken.2
        have released := begin_ s.release rest rfl rfl same only.suffix
        rw [released]
        simp only [release, Reading.addAll_append]
      · simp only [step, if_neg broken]
        by_cases none_ : s.matched = 0
        · have nothing : s.held = [] := by rw [held, none_, List.take_zero]
          rw [nothing, List.nil_append] at whole only
          exact begin_ s body none_ nothing whole only
        · have hit : (delimiter boundary)[s.matched]? = some c := by
            by_contra other
            exact broken ⟨none_, other⟩
          have longer : (delimiter boundary).take (s.matched + 1) = s.held ++ [c] := by
            rw [List.take_add_one, hit, held, Option.toList_some]
          simp only [advance, if_neg none_]
          have moved : (s.held ++ [c]) ++ text = s.held ++ c :: text := by simp
          split
          · rename_i complete
            rw [complete, List.take_length] at longer
            rw [← longer] at moved
            obtain rfl := only [] text (by rw [← moved, List.nil_append])
            rw [← moved, List.append_nil] at whole
            obtain rfl := List.self_eq_append_left.mp whole
            rfl
          · exact ih (s := ⟨s.matched + 1, s.held ++ [c], s.reading⟩) (by simp only; omega)
              longer.symm (moved.trans whole) (moved ▸ only)

/-- The rest of a delimiter which has been matched so far. -/
theorem run_rest {d held : List Byte} {r : Reading} {n : Nat} (some_ : n ≠ 0) (less : n < d.length) :
    (⟨n, held, r⟩ : Scan).run d (d.drop n) = ⟨0, [], r.newPart⟩ := by
  obtain ⟨left, whole⟩ : ∃ left, d.length = n + 1 + left := ⟨d.length - (n + 1), by omega⟩
  induction left generalizing n held with
  | zero =>
      have last : d.drop (n + 1) = [] := List.drop_eq_nil_of_le (by omega)
      rw [List.drop_eq_getElem_cons less, last, run, List.foldl_cons, List.foldl_nil, step,
        if_neg (fun both => both.2 (List.getElem?_eq_getElem less)), advance, if_neg some_,
        if_pos (by simp only; omega)]
  | succ left ih =>
      rw [List.drop_eq_getElem_cons less, run, List.foldl_cons, ← run, step,
        if_neg (fun both => both.2 (List.getElem?_eq_getElem less)), advance, if_neg some_,
        if_neg (by simp only; omega)]
      exact ih (n := n + 1) (Nat.succ_ne_zero n) (by omega) (by omega)

end Scan

/-! ## Parts -/

/-- A part of a form: a text field or a file. -/
inductive FormPart where
  | field (name value : List Byte)
  | file (name fileName contentType data : List Byte)
  deriving DecidableEq, Repr

/-- A string which may stand between quotes in a header. -/
def Quotable (string : List Byte) : Prop :=
  ch '"' ∉ string ∧ cr ∉ string ∧ lf ∉ string ∧ 0 ∉ string

instance (string : List Byte) : Decidable (Quotable string) := inferInstanceAs (Decidable (_ ∧ _))

namespace FormPart

/-- The value of the Content-Disposition header. -/
def disposition : FormPart → List Byte
  | .field name _ => text "form-data; name=\"" ++ name ++ text "\""
  | .file name fileName _ _ =>
      text "form-data; name=\"" ++ name ++ text "\"; filename=\"" ++ fileName ++ text "\""

/-- The header lines, with their line ends. -/
def headers (part : FormPart) : List Byte :=
  text "Content-Disposition: " ++ part.disposition ++ [cr, lf] ++
    match part with
    | .field _ _ => []
    | .file _ _ contentType _ => text "Content-Type: " ++ contentType ++ [cr, lf]

def data : FormPart → List Byte
  | .field _ value => value
  | .file _ _ _ data => data

/-- What comes between two delimiters. -/
def encode (part : FormPart) : List Byte := [cr, lf] ++ part.headers ++ [cr, lf] ++ part.data

/-- The strings in the headers are such that they can stand there, and there is no delimiter in
    the data. -/
structure WellFormed (boundary : List Byte) (part : FormPart) : Prop where
  headers : match part with
    | .field name _ => name ≠ [] ∧ Quotable name
    | .file name fileName contentType _ => name ≠ [] ∧ Quotable name ∧ Quotable fileName ∧
        contentType ≠ [] ∧ cr ∉ contentType ∧ lf ∉ contentType ∧ 0 ∉ contentType ∧
        contentType.head? ≠ some (ch ' ')
  data : OnlyAtEnd (delimiter boundary) ([cr, lf] ++ part.data ++ delimiter boundary)

/-- What the headers say. -/
def partHeaders : FormPart → PartHeaders
  | .field name _ => ⟨⟨name, [], false⟩, none⟩
  | .file name fileName contentType _ => ⟨⟨name, fileName, true⟩, some contentType⟩

def actions (part : FormPart) : List Action := .open_ part.partHeaders :: part.data.map .content

end FormPart

/-- A form, from its first boundary to the dashes behind the last one. -/
def encodeForm (boundary : List Byte) (parts : List FormPart) : List Byte :=
  text "--" ++ boundary ++ parts.flatMap (fun part => part.encode ++ delimiter boundary) ++ text "--"

/-! ### Headers -/

namespace Header.KeyValueParser

theorem quoted_run {p : KeyValueParser} {bytes : List Byte} (quoted : p.state = .quotedVal)
    (noQuote : ch '"' ∉ bytes) :
    bytes.foldl step p = { p with value := p.value ++ bytes } := by
  induction bytes generalizing p with
  | nil => simp
  | cons c bytes ih =>
      simp only [List.mem_cons, not_or] at noQuote
      have one : p.step c = { p with value := p.value ++ [c] } := by
        simp only [step, quoted, if_neg (Ne.symm noQuote.1)]
      rw [List.foldl_cons, one, ih (p := { p with value := p.value ++ [c] }) quoted noQuote.2]
      simp only [List.append_assoc, List.singleton_append]

end Header.KeyValueParser

namespace FormPart

variable {boundary : List Byte} {part : FormPart}

theorem parse_disposition (wellFormed : part.WellFormed boundary) :
    Header.parseContentDisposition part.disposition ⟨[], [], false⟩ =
      part.partHeaders.disposition := by
  have headers := wellFormed.headers
  cases part with
  | field name value =>
      have whole : Header.parseDelimitedKeyValue (disposition (.field name value)) =
          [(text "form-data", none), (text "name", some name)] := by
        rw [Header.parseDelimitedKeyValue, disposition, List.foldl_append, List.foldl_append,
          show (text "form-data; name=\"").foldl Header.KeyValueParser.step {} =
            ⟨.quotedVal, text "name", [], [(text "form-data", none)]⟩ from rfl,
          Header.KeyValueParser.quoted_run rfl headers.2.1]
        rfl
      rw [Header.parseContentDisposition, whole]
      rfl
  | file name fileName contentType data =>
      have whole : Header.parseDelimitedKeyValue
          (disposition (.file name fileName contentType data)) =
            [(text "form-data", none), (text "name", some name), (text "filename", some fileName)] := by
        rw [Header.parseDelimitedKeyValue, disposition, List.foldl_append, List.foldl_append,
          List.foldl_append, List.foldl_append,
          show (text "form-data; name=\"").foldl Header.KeyValueParser.step {} =
            ⟨.quotedVal, text "name", [], [(text "form-data", none)]⟩ from rfl,
          Header.KeyValueParser.quoted_run rfl headers.2.1.1,
          show (text "\"; filename=\"").foldl Header.KeyValueParser.step
            ⟨.quotedVal, text "name", [] ++ name, [(text "form-data", none)]⟩ =
            ⟨.quotedVal, text "filename", [], [(text "form-data", none), (text "name", some name)]⟩
            from rfl,
          Header.KeyValueParser.quoted_run rfl headers.2.2.1.1]
        rfl
      rw [Header.parseContentDisposition, whole]
      rfl

theorem disposition_clean (wellFormed : part.WellFormed boundary) :
    cr ∉ part.disposition ∧ lf ∉ part.disposition ∧ 0 ∉ part.disposition := by
  have headers := wellFormed.headers
  cases part with
  | field name value =>
      obtain ⟨-, -, noCR, noLF, noNul⟩ := headers
      simp only [disposition, List.mem_append, not_or]
      exact ⟨⟨⟨by decide, noCR⟩, by decide⟩, ⟨⟨by decide, noLF⟩, by decide⟩,
        ⟨by decide, noNul⟩, by decide⟩
  | file name fileName contentType data =>
      obtain ⟨-, ⟨-, noCR, noLF, noNul⟩, ⟨-, noCR', noLF', noNul'⟩, -⟩ := headers
      simp only [disposition, List.mem_append, not_or]
      exact ⟨⟨⟨⟨⟨by decide, noCR⟩, by decide⟩, noCR'⟩, by decide⟩,
        ⟨⟨⟨⟨by decide, noLF⟩, by decide⟩, noLF'⟩, by decide⟩,
        ⟨⟨⟨by decide, noNul⟩, by decide⟩, noNul'⟩, by decide⟩

theorem completeLines_cons {line rest : List Byte} (noLF : lf ∉ line) :
    completeLines [] (line ++ lf :: rest) = line :: completeLines [] rest := by
  have single : ∀ start, completeLines start (line ++ [lf]) = [start ++ line] := by
    induction line with
    | nil => intro start; simp [completeLines]
    | cons c line ih =>
        intro start
        simp only [List.mem_cons, not_or] at noLF
        rw [List.cons_append, completeLines, if_neg (Ne.symm noLF.1), ih noLF.2]
        simp
  rw [completeLines_append, single]
  rfl

theorem add_disposition (wellFormed : part.WellFormed boundary) :
    PartHeaders.add {} (text "Content-Disposition: " ++ part.disposition ++ [cr]) =
      ⟨part.partHeaders.disposition, none⟩ := by
  obtain ⟨noCR, -, noNul⟩ := disposition_clean wellFormed
  have noSpace : part.disposition.head? ≠ some (ch ' ') := by
    have other : some (ch 'f') ≠ some (ch ' ') := by decide
    cases part <;> exact other
  have line : text "Content-Disposition: " ++ part.disposition ++ [cr] = text "Content-Disposition" ++
      ch ':' :: (List.replicate 1 (ch ' ') ++ (part.disposition ++ [cr])) := rfl
  have known : Header.lineName (text "Content-Disposition" ++
      ch ':' :: (List.replicate 1 (ch ' ') ++ (part.disposition ++ [cr]))) = .contentDisposition := by
    rw [Header.lineName_line 1 (by decide) (by decide) noSpace noCR]
    decide
  rw [line, PartHeaders.add, if_pos known, Header.lineValue_line 1 (by decide) noSpace noCR noNul,
    Option.getD_some, parse_disposition wellFormed]

theorem partHeaders_encoded (wellFormed : part.WellFormed boundary) :
    QueryParams.partHeaders (part.headers ++ [cr, lf]) = part.partHeaders := by
  have first := add_disposition wellFormed
  obtain ⟨noCR, noLF, noNul⟩ := disposition_clean wellFormed
  have firstLF : lf ∉ text "Content-Disposition: " ++ part.disposition ++ [cr] := by
    simp only [List.mem_append, not_or]
    exact ⟨⟨by decide, noLF⟩, by decide⟩
  have blank : completeLines [] [cr, lf] = [[cr]] := rfl
  have blankAdd : ∀ h : PartHeaders, h.add [cr] = h := fun h => rfl
  have headers := wellFormed.headers
  cases part with
  | field name value =>
      have lines : FormPart.headers (.field name value) ++ [cr, lf] =
          (text "Content-Disposition: " ++ disposition (.field name value) ++ [cr]) ++ lf ::
            [cr, lf] := by
        simp [FormPart.headers]
      rw [QueryParams.partHeaders, lines, completeLines_cons firstLF, blank, List.foldl_cons, first,
        List.foldl_cons, blankAdd, List.foldl_nil]
      rfl
  | file name fileName contentType data =>
      obtain ⟨-, -, -, -, typeCR, typeLF, typeNul, typeSpace⟩ := headers
      have lines : FormPart.headers (.file name fileName contentType data) ++ [cr, lf] =
          (text "Content-Disposition: " ++ disposition (.file name fileName contentType data) ++
            [cr]) ++ lf :: ((text "Content-Type: " ++ contentType ++ [cr]) ++ lf :: [cr, lf]) := by
        simp [FormPart.headers]
      have secondLF : lf ∉ text "Content-Type: " ++ contentType ++ [cr] := by
        simp only [List.mem_append, not_or]
        exact ⟨⟨by decide, typeLF⟩, by decide⟩
      have line : text "Content-Type: " ++ contentType ++ [cr] = text "Content-Type" ++
          ch ':' :: (List.replicate 1 (ch ' ') ++ (contentType ++ [cr])) := rfl
      have known : Header.lineName (text "Content-Type: " ++ contentType ++ [cr]) =
          .contentType := by
        rw [line, Header.lineName_line 1 (by decide) (by decide) typeSpace typeCR]
        decide
      have value : Header.lineValue (text "Content-Type: " ++ contentType ++ [cr]) =
          some contentType := by
        rw [line, Header.lineValue_line 1 (by decide) typeSpace typeCR typeNul]
      rw [QueryParams.partHeaders, lines, completeLines_cons firstLF, completeLines_cons secondLF,
        blank, List.foldl_cons, first, List.foldl_cons, List.foldl_cons, blankAdd, List.foldl_nil,
        PartHeaders.add, known, value]
      rfl

/-! ### Readings -/

theorem addAll_line (bytes : List Byte) (actions : List Action) {line : List Byte} {matched : Nat}
    (between : matched = 0 ∨ matched = 2) (some_ : line ≠ []) (noCR : cr ∉ line) :
    (⟨.headers bytes matched, actions⟩ : Reading).addAll (line ++ [cr, lf]) =
      ⟨.headers (bytes ++ line ++ [cr, lf]) 2, actions⟩ := by
  have inside : ∀ front : List Byte,
      (⟨.headers front 0, actions⟩ : Reading).addAll [cr, lf] =
        ⟨.headers (front ++ [cr] ++ [lf]) 2, actions⟩ := fun front => rfl
  induction line generalizing bytes matched with
  | nil => exact absurd rfl some_
  | cons c line ih =>
      simp only [List.mem_cons, not_or] at noCR
      have one : (⟨.headers bytes matched, actions⟩ : Reading).add c =
          ⟨.headers (bytes ++ [c]) 0, actions⟩ := by
        have other : ¬some c = Reading.endMark[matched]? := by
          rcases between with rfl | rfl <;> exact fun same => noCR.1 (Option.some.inj same).symm
        simp only [Reading.add, if_neg other]
      rw [List.cons_append, Reading.addAll_cons, one]
      by_cases last : line = []
      · subst last
        rw [List.nil_append, inside]
        simp
      · rw [ih _ (Or.inl rfl) last noCR.2]
        simp

/-- A part is opened, and gets its content. -/
theorem addAll_encode (wellFormed : part.WellFormed boundary) (actions : List Action) :
    (⟨.opening false, actions⟩ : Reading).addAll part.encode =
      ⟨.content, actions ++ part.actions⟩ := by
  have opened : (⟨.opening false, actions⟩ : Reading).addAll [cr, lf] =
      ⟨.headers [] 0, actions⟩ := rfl
  have lines : (⟨.headers [] 0, actions⟩ : Reading).addAll part.headers =
      ⟨.headers part.headers 2, actions⟩ := by
    have firstCR : cr ∉ text "Content-Disposition: " ++ part.disposition := by
      simp only [List.mem_append, not_or]
      exact ⟨by decide, (disposition_clean wellFormed).1⟩
    have first := addAll_line [] actions (Or.inl rfl)
      (List.append_ne_nil_of_left_ne_nil (by decide) _) firstCR
    have headers := wellFormed.headers
    cases part with
    | field name value =>
        rw [FormPart.headers, List.append_nil, first, List.nil_append]
    | file name fileName contentType data =>
        have secondCR : cr ∉ text "Content-Type: " ++ contentType := by
          simp only [List.mem_append, not_or]
          exact ⟨by decide, headers.2.2.2.2.1⟩
        rw [FormPart.headers, Reading.addAll_append, first, addAll_line _ _ (Or.inr rfl)
          (List.append_ne_nil_of_left_ne_nil (by decide) _) secondCR]
        simp only [List.nil_append, List.append_assoc]
  have entered : (⟨.headers part.headers 2, actions⟩ : Reading).addAll [cr, lf] =
      ⟨.content, actions ++ [.open_ part.partHeaders]⟩ := by
    have named : part.partHeaders.disposition.name ≠ [] := by
      have headers := wellFormed.headers
      cases part <;> exact headers.1
    rw [← partHeaders_encoded wellFormed] at named ⊢
    have last : (⟨.headers part.headers 2, actions⟩ : Reading).addAll [cr, lf] =
        (⟨.headers (part.headers ++ [cr]) 3, actions⟩ : Reading).enter
          (QueryParams.partHeaders (part.headers ++ [cr] ++ [lf])) := rfl
    rw [last, List.append_assoc, List.singleton_append, Reading.enter, if_pos named]
  rw [encode, Reading.addAll_append, Reading.addAll_append, Reading.addAll_append, opened, lines,
    entered, Reading.content_addAll, List.append_assoc]
  rfl

/-- The only delimiter is the one which follows the part. -/
theorem encode_onlyAtEnd (wellFormed : part.WellFormed boundary) :
    OnlyAtEnd (delimiter boundary) (part.encode ++ delimiter boundary) := by
  have data : OnlyAtEnd (delimiter boundary) ([cr, lf] ++ (part.data ++ delimiter boundary)) := by
    rw [← List.append_assoc]
    exact wellFormed.data
  have clean : cr ∉ text "Content-Disposition: " ++ part.disposition := by
    simp only [List.mem_append, not_or]
    exact ⟨by decide, (disposition_clean wellFormed).1⟩
  have headers := wellFormed.headers
  have crHead : some cr ≠ some (ch '-') := by decide
  have letterHead : some (ch 'C') ≠ some (ch '-') := by decide
  cases part with
  | field name value =>
      have whole := ((data.lineEnd crHead).append clean).lineEnd letterHead
      simpa [encode, FormPart.headers] using whole
  | file name fileName contentType fileData =>
      have secondCR : cr ∉ text "Content-Type: " ++ contentType := by
        simp only [List.mem_append, not_or]
        exact ⟨by decide, headers.2.2.2.2.1⟩
      have whole := ((((data.lineEnd crHead).append secondCR).lineEnd letterHead).append
        clean).lineEnd letterHead
      simpa [encode, FormPart.headers] using whole

end FormPart

end MiniWebSrv.HTTP
