import MiniWebSrv.HTTP.FormRoundTrip

/-! # What surrounds a form

Bytes before the first delimiter of a body and behind its last one. Before the first delimiter
the object is where it is behind a delimiter, with whatever it has found in `FMParseCounter`, and
any text in which the two bytes come which follow a delimiter is taken for a part. Behind the last
one it takes no notice of anything, until there is one more delimiter, which starts a part again.
-/

namespace MiniWebSrv.HTTP

open Word

namespace QueryParams

/-! ## In front of a form -/

/-- Where the parser is before the first delimiter. -/
inductive Lead where
  /-- At one of the two bytes which follow a delimiter, or at none of them. -/
  | at_ (fmParseCounter : Nat)
  | finished
  | headers
  deriving DecidableEq, Repr

/-- A call of `AppendToCurrentPart`, up to the headers. -/
def Lead.piece (lead : Lead) : List Byte → Lead
  | [] => lead
  | c :: rest =>
      match lead with
      | .at_ 0 => if c = cr ∨ c = ch '-' then Lead.piece (.at_ 1) rest else lead
      | .at_ 1 => if c = lf then .headers else if c = ch '-' then .finished else lead
      | _ => lead

/-- A text without a delimiter is cut where the match of one is broken off: `content` is the start
    of the first piece, and ends with `matched` bytes of a delimiter. -/
def pieces (d : List Byte) (matched : Nat) (content : List Byte) : List Byte → List (List Byte)
  | [] => [content]
  | c :: rest =>
      if matched = 0 then
        pieces d (if c = cr then 1 else 0) (content ++ [c]) rest
      else if d[matched]? = some c then
        pieces d (matched + 1) (content ++ [c]) rest
      else
        content :: pieces d (if c = cr then 1 else 0) [c] rest

/-- The preamble is not taken for a part. -/
def Overlooked (boundary preamble : List Byte) (fmParseCounter : Nat) : Prop :=
  (pieces (delimiter boundary) 2 [] preamble).foldl Lead.piece (.at_ fmParseCounter) ≠ .headers

instance (boundary preamble : List Byte) (fmParseCounter : Nat) :
    Decidable (Overlooked boundary preamble fmParseCounter) :=
  inferInstanceAs (Decidable (_ ≠ _))

theorem piece_headers (bytes : List Byte) : Lead.headers.piece bytes = .headers := by
  cases bytes <;> rfl

theorem pieces_headers (bytes : List (List Byte)) : bytes.foldl Lead.piece .headers = .headers := by
  induction bytes with
  | nil => rfl
  | cons piece rest ih => rw [List.foldl_cons, piece_headers, ih]

/-- The parser is where the bytes before the first delimiter have taken it, and nothing has come
    of them. -/
def Before (f : Form Recorder) (q : QueryParams Recorder) : Lead → Prop
  | .at_ counter => q.toForm = f ∧ q.fmParseState = .headerStart ∧ q.fmParseCounter = counter
  | .finished => q.toForm = f ∧ q.fmParseState = .finished
  | .headers => False

section

variable {boundary : List Byte} {f : Form Recorder} {q : QueryParams Recorder} {lead : Lead}
  {counter : Nat}

theorem appendFrom_finished_before (before : Before f q .finished) (orig bytes : List Byte) :
    Before f (appendFrom q orig bytes).2 .finished := by
  obtain ⟨form, state⟩ := before
  cases bytes with
  | nil => simp only [appendFrom, state]; exact ⟨form, state⟩
  | cons c rest => simp only [appendFrom, state]; exact ⟨form, state⟩

theorem appendFrom_astray (before : Before f q (.at_ (counter + 2))) (orig bytes : List Byte) :
    Before f (appendFrom q orig bytes).2 (.at_ (counter + 2)) := by
  obtain ⟨form, state, same⟩ := before
  induction bytes generalizing orig with
  | nil => simp only [appendFrom, state]; exact ⟨form, state, same⟩
  | cons c rest ih =>
      have no : ¬counter + 2 = 0 := by omega
      have one : ¬counter + 2 = 1 := by omega
      simp only [appendFrom, state, same, if_neg no, if_neg one]
      exact ih _

theorem appendFrom_before (before : Before f q lead) (orig : List Byte) {bytes : List Byte}
    (open_ : lead.piece bytes ≠ .headers) :
    Before f (appendFrom q orig bytes).2 (lead.piece bytes) := by
  induction bytes generalizing q lead orig with
  | nil =>
      cases lead with
      | at_ counter => simp only [appendFrom, before.2.1]; exact before
      | finished => simp only [appendFrom, before.2]; exact before
      | headers => exact before.elim
  | cons c rest ih =>
      cases lead with
      | headers => exact before.elim
      | finished => exact appendFrom_finished_before before orig (c :: rest)
      | at_ counter =>
        cases counter with
        | zero =>
          obtain ⟨form, state, same⟩ := before
          simp only [appendFrom, state, same, if_true, Lead.piece] at open_ ⊢
          by_cases first : c = cr ∨ c = ch '-'
          · rw [if_pos first] at open_
            rw [if_pos first, if_pos first]
            have next : Before f { q with fmParseCounter := 1, fmParseState := .headerStart }
                (.at_ 1) := ⟨form, rfl, rfl⟩
            exact ih next _ open_
          · rw [if_neg first, if_neg first]
            exact ⟨form, state, same⟩
        | succ counter =>
        cases counter with
        | succ counter => exact appendFrom_astray before orig (c :: rest)
        | zero =>
          obtain ⟨form, state, same⟩ := before
          simp only [Lead.piece] at open_ ⊢
          have other : c ≠ lf := fun newLine => open_ (if_pos newLine)
          simp only [appendFrom, state, same, if_true, if_neg other]
          by_cases dash : c = ch '-'
          · rw [if_pos dash, if_pos dash]
            have next : Before f { q.endFile with fmParseState := .finished } .finished := ⟨form, rfl⟩
            exact appendFrom_finished_before next _ rest
          · rw [if_neg dash, if_neg dash]
            exact ⟨form, state, same⟩

theorem appendToCurrentPart_before (before : Before f q lead) {bytes : List Byte}
    (open_ : lead.piece bytes ≠ .headers) :
    Before f (q.appendToCurrentPart bytes).2 (lead.piece bytes) := by
  unfold appendToCurrentPart
  split
  · rename_i early
    rcases early with rfl | state
    · exact before
    · cases lead with
      | finished => cases bytes <;> exact before
      | at_ counter => exact absurd (before.2.1.symm.trans state) (by decide)
      | headers => exact before.elim
  · exact appendFrom_before before [] open_

theorem Before.matcher {t : QueryParams Recorder} (before : Before f q lead)
    (form : t.toForm = q.toForm) (state : t.fmParseState = q.fmParseState)
    (same : t.fmParseCounter = q.fmParseCounter) : Before f t lead := by
  cases lead with
  | at_ _ => exact ⟨form.trans before.1, state.trans before.2.1, same.trans before.2.2⟩
  | finished => exact ⟨form.trans before.1, state.trans before.2⟩
  | headers => exact before.elim

/-- The object at the first byte behind a delimiter, with nothing in the form yet. -/
structure AtStart (boundary : List Byte) (f : Form Recorder) (q : QueryParams Recorder) : Prop where
  boundaryStr : q.boundaryStr = delimiter boundary
  counter : q.boundaryParseCounter = 0
  parseTmp : q.parseTmp = []
  follows : Follows f q [] ⟨.opening false, []⟩

theorem onFullMatch_before {pos : Nat} (content : List Byte) (before : Before f q lead)
    (boundaryStr : q.boundaryStr = delimiter boundary)
    (counter : q.boundaryParseCounter = (delimiter boundary).length)
    (unwrapped : (delimiter boundary).length ≤ u32 pos) (open_ : lead.piece content ≠ .headers) :
    AtStart boundary f (q.onFullMatch pos (content ++ delimiter boundary)) := by
  have last : ∀ (t : QueryParams Recorder) lead, Before f t lead → t.boundaryStr = delimiter boundary →
      AtStart boundary f { t with boundaryParseCounter := 0, parseTmp := [] }.startNewPart := by
    intro t lead before str
    refine ⟨str, rfl, rfl, ⟨?_, rfl, rfl, rfl⟩⟩
    cases lead with
    | at_ _ => exact before.1
    | finished => exact before.1
    | headers => exact before.elim
  simp only [onFullMatch, counter, if_neg (Nat.not_lt.mpr unwrapped), List.length_append]
  split
  · rw [List.take_left' (by omega)]
    exact last _ _ (appendToCurrentPart_before before open_)
      ((appendToCurrentPart_matcher q content).boundaryStr.trans boundaryStr)
  · exact last q lead before boundaryStr

theorem matchFrom_delimiter (content rest : List Byte) (pos : Nat) (before : Before f q lead)
    (boundaryStr : q.boundaryStr = delimiter boundary) (nothing : q.parseTmp = [])
    (below : q.boundaryParseCounter < (delimiter boundary).length) (notCR : cr ∉ boundary)
    (long : (delimiter boundary).length < size32)
    (unwrapped : (delimiter boundary).length ≤ u32 (pos + (delimiter boundary).length))
    (open_ : lead.piece content ≠ .headers) :
    ∃ t, AtStart boundary f t ∧ matchFrom q pos content (delimiter boundary ++ rest) =
      matchFrom t (pos + (delimiter boundary).length) [] rest := by
  have begun : delimiter boundary = cr :: (delimiter boundary).drop 1 := by
    rw [delimiter_eq, List.drop_succ_cons, List.drop_zero]
  have long1 : 1 < (delimiter boundary).length := by
    simp only [delimiter_eq, List.length_cons]
    omega
  have whole : ∀ front : List Byte, front ++ [cr] ++ (delimiter boundary).drop 1 =
      front ++ delimiter boundary := by
    intro front
    rw [List.append_assoc, List.singleton_append, ← begun]
  have position : pos + 1 + ((delimiter boundary).length - 1) = pos + (delimiter boundary).length := by
    omega
  by_cases zero : q.boundaryParseCounter = 0
  · refine ⟨_, onFullMatch_before content (q := { q with
      boundaryParseCounter := (delimiter boundary).length })
      (before.matcher rfl rfl rfl) boundaryStr rfl unwrapped open_, ?_⟩
    rw [begun, List.cons_append, matchFrom, if_pos zero, if_pos rfl, ← begun,
      matchFrom_rest (n := 1) (q := { q with boundaryParseCounter := 1 }) boundaryStr rfl
        Nat.one_ne_zero long1 long, whole, position]
  · have handedOn := appendToCurrentPart_before before open_
    have matcher := appendToCurrentPart_matcher q content
    have other : ¬some cr = (q.boundaryStr ++ [0])[q.boundaryParseCounter]? := by
      rw [boundaryStr, List.getElem?_append_left below]
      intro same
      refine cr_delimiter notCR ?_
      obtain ⟨n, there⟩ := Nat.exists_eq_succ_of_ne_zero zero
      rw [there, ← List.getElem?_tail] at same
      exact List.mem_of_getElem? same.symm
    refine ⟨_, onFullMatch_before [] (q := { (q.appendToCurrentPart content).2 with
      boundaryParseCounter := (delimiter boundary).length })
      (handedOn.matcher rfl rfl rfl) (matcher.boundaryStr.trans boundaryStr) rfl unwrapped ?_, ?_⟩
    · exact open_
    · rw [begun, List.cons_append, matchFrom, if_neg zero, if_neg other, if_pos rfl, ← begun]
      simp only [onMatchBroken, nothing, ne_eq, not_true, if_false]
      rw [matchFrom_rest (n := 1)
          (q := { (q.appendToCurrentPart content).2 with boundaryParseCounter := 1 })
          (matcher.boundaryStr.trans boundaryStr) rfl Nat.one_ne_zero long1 long, position,
        ← List.nil_append [cr], whole]

/-- The bytes before the first delimiter leave no trace, and the first part starts behind it. -/
theorem matchFrom_preamble (preamble content rest : List Byte) (pos : Nat)
    (before : Before f q lead) (boundaryStr : q.boundaryStr = delimiter boundary)
    (nothing : q.parseTmp = []) (below : q.boundaryParseCounter < (delimiter boundary).length)
    (notCR : cr ∉ boundary) (long : (delimiter boundary).length < size32)
    (unwrapped : (delimiter boundary).length ≤
      u32 (pos + preamble.length + (delimiter boundary).length))
    (none_ : ¬delimiter boundary <:+:
      (delimiter boundary).take q.boundaryParseCounter ++ preamble)
    (open_ : (pieces (delimiter boundary) q.boundaryParseCounter content preamble).foldl Lead.piece
      lead ≠ .headers) :
    ∃ t, AtStart boundary f t ∧
      matchFrom q pos content (preamble ++ (delimiter boundary ++ rest)) =
        matchFrom t (pos + preamble.length + (delimiter boundary).length) [] rest := by
  have long1 : 1 < (delimiter boundary).length := by
    simp only [delimiter_eq, List.length_cons]
    omega
  have one : (delimiter boundary).take 1 = [cr] := by
    rw [delimiter_eq, List.take_succ_cons, List.take_zero]
  induction preamble generalizing q lead pos content with
  | nil =>
      exact matchFrom_delimiter content rest pos before boundaryStr nothing below notCR long unwrapped
        open_
  | cons c preamble ih =>
      have position : pos + 1 + preamble.length = pos + (c :: preamble).length := by
        simp only [List.length_cons]
        omega
      rw [← position] at unwrapped
      have rest_ : ¬delimiter boundary <:+: c :: preamble := fun inside =>
        none_ (inside.trans (List.suffix_append _ _).isInfix)
      have tail_ : ¬delimiter boundary <:+: (delimiter boundary).take 0 ++ preamble := fun inside =>
        rest_ (inside.trans (List.suffix_cons c preamble).isInfix)
      rw [List.cons_append]
      by_cases zero : q.boundaryParseCounter = 0
      · rw [zero] at open_
        by_cases isCR : c = cr
        · subst isCR
          obtain ⟨t, fresh, same⟩ := ih (content ++ [cr]) (pos + 1) (q := { q with boundaryParseCounter := 1 })
            (before.matcher rfl rfl rfl) boundaryStr nothing long1 unwrapped
            (by rw [one]; exact rest_) open_
          refine ⟨t, fresh, ?_⟩
          rw [matchFrom, if_pos zero, if_pos rfl, same, position]
        · obtain ⟨t, fresh, same⟩ := ih (content ++ [c]) (pos + 1) (q := q) before boundaryStr nothing
            below unwrapped (by rw [zero]; exact tail_) (by
              rw [pieces, if_pos rfl, if_neg isCR] at open_
              rw [zero]
              exact open_)
          refine ⟨t, fresh, ?_⟩
          rw [matchFrom, if_pos zero, if_neg isCR, same, position]
      · have char : (q.boundaryStr ++ [0])[q.boundaryParseCounter]? =
            (delimiter boundary)[q.boundaryParseCounter]? := by
          rw [boundaryStr, List.getElem?_append_left below]
        rw [pieces, if_neg zero] at open_
        by_cases hit : (delimiter boundary)[q.boundaryParseCounter]? = some c
        · have longer : (delimiter boundary).take (q.boundaryParseCounter + 1) ++ preamble =
              (delimiter boundary).take q.boundaryParseCounter ++ c :: preamble := by
            rw [List.take_add_one, hit, Option.toList_some, List.append_assoc, List.singleton_append]
          have more : q.boundaryParseCounter + 1 ≠ (delimiter boundary).length := by
            intro complete
            rw [← longer, complete, List.take_length] at none_
            exact none_ (List.prefix_append _ _).isInfix
          have next : u32 (q.boundaryParseCounter + 1) = q.boundaryParseCounter + 1 :=
            u32_of_lt (by omega)
          rw [← boundaryStr] at more
          rw [if_pos hit] at open_
          obtain ⟨t, fresh, same⟩ := ih (content ++ [c]) (pos + 1)
            (q := { q with boundaryParseCounter := q.boundaryParseCounter + 1 })
            (before.matcher rfl rfl rfl) boundaryStr nothing
            (by rw [boundaryStr] at more; simp only; omega) unwrapped (by rw [longer]; exact none_) open_
          refine ⟨t, fresh, ?_⟩
          rw [matchFrom, if_neg zero, if_pos (char.trans hit).symm]
          simp only [next, if_neg more]
          rw [same, position]
        · have other : ¬some c = (q.boundaryStr ++ [0])[q.boundaryParseCounter]? := by
            rw [char]
            exact fun same => hit same.symm
          have matcher := appendToCurrentPart_matcher q content
          rw [if_neg hit, List.foldl_cons] at open_
          have handedOn : Before f (q.appendToCurrentPart content).2 (lead.piece content) :=
            appendToCurrentPart_before before fun headers => by
              rw [headers, pieces_headers] at open_
              exact open_ rfl
          rw [matchFrom, if_neg zero, if_neg other]
          simp only [onMatchBroken, nothing, ne_eq, not_true, if_false]
          by_cases isCR : c = cr
          · subst isCR
            rw [if_pos rfl] at open_ ⊢
            obtain ⟨t, fresh, same⟩ := ih [cr] (pos + 1)
              (q := { (q.appendToCurrentPart content).2 with boundaryParseCounter := 1 })
              (handedOn.matcher rfl rfl rfl)
              (matcher.boundaryStr.trans boundaryStr) (matcher.parseTmp.trans nothing) long1 unwrapped
              (by rw [one]; exact rest_) open_
            exact ⟨t, fresh, by rw [same, position]⟩
          · rw [if_neg isCR] at open_ ⊢
            obtain ⟨t, fresh, same⟩ := ih [c] (pos + 1)
              (q := { (q.appendToCurrentPart content).2 with boundaryParseCounter := 0 })
              (handedOn.matcher rfl rfl rfl)
              (matcher.boundaryStr.trans boundaryStr) (matcher.parseTmp.trans nothing)
              (Nat.lt_trans Nat.zero_lt_one long1) unwrapped tail_ open_
            exact ⟨t, fresh, by rw [same, position]⟩

theorem appendFormMultipart_form {bytes : List Byte} {pos : Nat} {r : Reading} {s : Scan}
    (m : Matching boundary f (matchFrom q 0 [] bytes).1 pos (matchFrom q 0 [] bytes).2 r s)
    (open_ : s.reading.part ≠ .refused) (some_ : bytes ≠ []) :
    (q.appendFormMultipart bytes).toForm = f.actAll s.reading.actions := by
  have handedOn := m.handOn open_
  simp only [appendFormMultipart, m.matched]
  by_cases none_ : s.matched = 0
  · rw [none_, Nat.sub_zero, List.take_length] at handedOn
    rw [none_, if_neg (fun no => no rfl), if_pos some_]
    exact handedOn.form
  · rw [if_pos none_]
    exact handedOn.form

end

/-! ## In front of a form and behind it -/

/-- A form with a preamble, and with an epilogue behind it. -/
def surround (boundary preamble : List Byte) (parts : List FormPart) (epilogue : List Byte) :
    List Byte :=
  preamble ++ [cr, lf] ++ encodeForm boundary parts ++ epilogue

theorem surround_eq (boundary preamble : List Byte) (parts : List FormPart)
    (epilogue : List Byte) : surround boundary preamble parts epilogue =
      preamble ++ (delimiter boundary ++ (parts.flatMap (fun part => part.encode ++
        delimiter boundary) ++ text "--" ++ epilogue)) := by
  simp only [surround, encodeForm, delimiter, List.append_assoc]

/-- The form is what its own parts say, if the preamble is not taken for a part and there is no
    delimiter in the epilogue. -/
theorem appendFormMultipart_surround (answer : List Upload → List Byte → List Byte → List Byte →
    Path × Bool) {boundary preamble epilogue : List Byte} {parts : List FormPart} {counter : Nat}
    (notCR : cr ∉ boundary) (wellFormed : ∀ part ∈ parts, part.WellFormed boundary)
    (noDelimiter : ¬delimiter boundary <:+: [cr, lf] ++ preamble)
    (overlooked : Overlooked boundary preamble counter)
    (none_ : ¬delimiter boundary <:+: epilogue) (long : (delimiter boundary).length < size32)
    (unwrapped : Unwrapped (delimiter boundary) (surround boundary preamble parts epilogue))
    (currFMPart : Option (List Byte)) :
    ((recording answer boundary counter currFMPart).appendFormMultipart
        (surround boundary preamble parts epilogue)).toForm =
      (recording answer boundary counter currFMPart).toForm.actAll
        (parts.flatMap FormPart.actions ++ [.finish]) := by
  rw [surround_eq] at unwrapped ⊢
  have first := unwrapped preamble _ (List.append_assoc _ _ _).symm
  have before : Before (recording answer boundary counter currFMPart).toForm
      (recording answer boundary counter currFMPart) (.at_ counter) := ⟨rfl, rfl, rfl⟩
  have boundaryStr : (recording answer boundary counter currFMPart).boundaryStr =
      delimiter boundary := rfl
  have below : 2 < (delimiter boundary).length := by
    simp only [delimiter_eq, List.length_cons]
    omega
  obtain ⟨t, fresh, same⟩ := matchFrom_preamble preamble []
    (parts.flatMap (fun part => part.encode ++ delimiter boundary) ++ text "--" ++ epilogue) 0
    before boundaryStr rfl below notCR long (by rw [Nat.zero_add, ← List.length_append]; exact first)
    noDelimiter overlooked
  have done : 0 + preamble.length + (delimiter boundary).length =
      (preamble ++ delimiter boundary).length := by rw [Nat.zero_add, List.length_append]
  rw [done] at same
  have start : Matching boundary (recording answer boundary counter currFMPart).toForm t
      (preamble ++ delimiter boundary).length [] ⟨.opening false, []⟩
      ⟨0, [], ⟨.opening false, []⟩⟩ :=
    Matching.fresh fresh.boundaryStr fresh.follows fresh.counter fresh.parseTmp
  have good : (⟨0, [], ⟨.opening false, []⟩⟩ : Scan).Good boundary :=
    ⟨by simp only [delimiter_eq, List.length_cons]; omega, Or.inr rfl, Nat.le_refl _, fun _ => rfl⟩
  have dashes : ∀ actions : List Action, (⟨0, [], ⟨.opening false, actions⟩⟩ : Scan).run
      (delimiter boundary) (text "--") = ⟨0, [], ⟨.finished, actions ++ [.finish]⟩⟩ := fun _ => rfl
  have read : ((⟨0, [], ⟨.opening false, []⟩⟩ : Scan).run (delimiter boundary)
      (parts.flatMap (fun part => part.encode ++ delimiter boundary) ++ text "--" ++
        epilogue)).reading = ⟨.finished, parts.flatMap FormPart.actions ++ [.finish]⟩ := by
    rw [Scan.run_append, Scan.run_append, Scan.run_parts notCR wellFormed, dashes]
    exact Scan.run_finished rfl rfl none_
  have open_ : ((⟨0, [], ⟨.opening false, []⟩⟩ : Scan).run (delimiter boundary)
      (parts.flatMap (fun part => part.encode ++ delimiter boundary) ++ text "--" ++
        epilogue)).reading.part ≠ .refused := by
    rw [read]
    exact nofun
  obtain ⟨-, r, m⟩ := matchFrom_matching start good notCR long (fun _ => List.nil_suffix)
    (by rw [List.append_assoc]; exact unwrapped) open_
  rw [← same] at m
  rw [appendFormMultipart_form m open_ (List.append_ne_nil_of_right_ne_nil _ (by simp [delimiter])),
    read]

/-- A form says the same with a preamble in front of it and an epilogue behind it as on its own,
    as long as the preamble is not taken for a part, the epilogue starts no other one, and no
    delimiter ends where `Pos-Begin` has wrapped to less than its length. -/
theorem surroundings_ignored (answer : List Upload → List Byte → List Byte → List Byte →
    Path × Bool) {boundary preamble epilogue : List Byte} {parts : List FormPart}
    {counter ownCounter : Nat} (notCR : cr ∉ boundary)
    (wellFormed : ∀ part ∈ parts, part.WellFormed boundary)
    (noDelimiter : ¬delimiter boundary <:+: [cr, lf] ++ preamble)
    (long : (delimiter boundary).length < size32)
    (unwrapped : Unwrapped (delimiter boundary) (surround boundary preamble parts epilogue))
    (ownUnwrapped : Unwrapped (delimiter boundary) (encodeForm boundary parts))
    (overlooked : Overlooked boundary preamble counter)
    (none_ : ¬delimiter boundary <:+: epilogue) (currFMPart ownPart : Option (List Byte)) :
    result ((recording answer boundary counter currFMPart).appendFormMultipart
        (surround boundary preamble parts epilogue)) =
      result ((recording answer boundary ownCounter ownPart).appendFormMultipart
        (encodeForm boundary parts)) := by
  have whole := appendFormMultipart_surround answer notCR wellFormed noDelimiter
    overlooked none_ long unwrapped currFMPart
  have own : ((recording answer boundary ownCounter ownPart).appendFormMultipart
      (encodeForm boundary parts ++ [])).toForm =
        (recording answer boundary ownCounter ownPart).toForm.actAll
          (parts.flatMap FormPart.actions ++ [.finish]) := by
    refine appendFormMultipart_encodeForm answer notCR wellFormed (fun inside => ?_) long
      (by rw [List.append_nil]; exact ownUnwrapped) ownCounter ownPart
    have length := inside.length_le
    simp only [delimiter_eq, List.length_cons, List.length_nil] at length
    omega
  rw [List.append_nil] at own
  have opens : Opens (parts.flatMap FormPart.actions ++ [.finish]) := by
    cases parts <;> exact trivial
  have clear := Form.actAll_clear (f := (recording answer boundary counter currFMPart).toForm)
    (g := (recording answer boundary ownCounter ownPart).toForm) rfl opens
  rw [← whole, ← own] at clear
  simp only [Form.clear, Form.mk.injEq, true_and] at clear
  obtain ⟨paramMap, fileMap, -, helper⟩ := clear
  simp only [result, paramMap, fileMap, helper]

/-- One field, with a line of text in front of it and an empty line behind it. -/
theorem surroundings_ignored_text :
    result ((recording takesAll (text "b") 0 none).appendFormMultipart
        (surround (text "b") (text "This is a form") [.field (text "a") (text "1")] [cr, lf])) =
      result ((recording takesAll (text "b") 1 none).appendFormMultipart
        (encodeForm (text "b") [.field (text "a") (text "1")])) := by
  have wellFormed : ∀ part ∈ [FormPart.field (text "a") (text "1")], part.WellFormed (text "b") := by
    intro part inside
    obtain rfl := List.mem_singleton.mp inside
    exact ⟨by decide, onlyAtEnd_iff.mpr (by decide)⟩
  exact surroundings_ignored takesAll (by decide) wellFormed (by decide +kernel)
    (by decide +kernel) (.of_short (by decide +kernel)) (.of_short (by decide +kernel))
    (by decide +kernel) (by decide +kernel) none none

/-- A form in an epilogue is a part of the form in front of it, and so is a preamble which looks
    like a part. -/
theorem epilogue_read :
    ¬∀ (answer : List Upload → List Byte → List Byte → List Byte → Path × Bool)
      (boundary preamble epilogue : List Byte) (parts : List FormPart) (counter : Nat)
      (currFMPart : Option (List Byte)), boundary ≠ [] → cr ∉ boundary →
      (∀ part ∈ parts, part.WellFormed boundary) → ¬delimiter boundary <:+: [cr, lf] ++ preamble →
      (surround boundary preamble parts epilogue).length < size32 →
      result ((recording answer boundary counter currFMPart).appendFormMultipart
          (surround boundary preamble parts epilogue)) =
        result ((recording answer boundary counter currFMPart).appendFormMultipart
          (encodeForm boundary parts)) := by
  intro ignored
  have same := ignored takesAll (text "b") [] ([cr, lf] ++ encodeForm (text "b")
    [.field (text "x") (text "v")]) [] 0 none (by decide) (by decide) nofun
    (by decide +kernel) (by decide +kernel)
  revert same
  decide +kernel

end QueryParams

end MiniWebSrv.HTTP
