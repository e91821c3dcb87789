import MiniWebSrv.HTTP.BodyLog
import MiniWebSrv.HTTP.FormStream

/-! # Multipart bodies in pieces

`AppendFormMultipart` gets a body in pieces, and keeps what may be the start of a delimiter,
or a part of the headers, for the next call. On the bodies in which every byte is of use this
does what the body says as a whole: the calls follow the scan of the body, byte for byte.
-/

namespace MiniWebSrv.HTTP

open Word QueryParams Reading

/-! ## Maps -/

namespace StringMap

variable {V : Type}

theorem lookup_set (key : List Byte) (v : V) (m : StringMap V) :
    (set key v m).lookup key = some v := by
  induction m with
  | nil => simp [set]
  | cons item rest ih =>
      obtain ⟨k, w⟩ := item
      by_cases same : k = key
      · simp [set, same]
      · simp only [set, if_neg same, List.lookup_cons, beq_false_of_ne (Ne.symm same), ih]

theorem set_set (key : List Byte) (v w : V) (m : StringMap V) :
    set key w (set key v m) = set key w m := by
  induction m with
  | nil => simp [set]
  | cons item rest ih =>
      obtain ⟨k, u⟩ := item
      by_cases same : k = key
      · simp [set, same]
      · simp only [set, if_neg same, ih]

theorem set_lookup {key : List Byte} {v : V} {m : StringMap V} (there : m.lookup key = some v) :
    set key v m = m := by
  induction m with
  | nil => cases there
  | cons item rest ih =>
      obtain ⟨k, u⟩ := item
      by_cases same : k = key
      · simp only [List.lookup_cons, same, beq_self_eq_true, Option.some.injEq] at there
        simp only [set, same, if_true, there]
      · simp only [List.lookup_cons, beq_false_of_ne (Ne.symm same)] at there
        simp only [set, if_neg same, ih there]

end StringMap

/-! ## Part headers -/

namespace QueryParams

theorem completeLines_append (line left right : List Byte) :
    completeLines line (left ++ lf :: right) =
      completeLines line (left ++ [lf]) ++ completeLines [] right := by
  induction left generalizing line with
  | nil => simp [completeLines]
  | cons c rest ih =>
      by_cases newLine : c = lf
      · simp only [List.cons_append, completeLines, if_pos newLine, ih]
      · simp only [List.cons_append, completeLines, if_neg newLine, ih]

theorem partHeaders_blank (headers : List Byte) :
    partHeaders (headers ++ [lf, cr]) = partHeaders (headers ++ [lf]) ∧
    partHeaders (headers ++ [lf, cr, lf]) = partHeaders (headers ++ [lf]) := by
  constructor
  · have none_ : completeLines [] [cr] = [] := rfl
    simp only [partHeaders, completeLines_append [] headers [cr], none_, List.append_nil]
  · simp only [partHeaders, completeLines_append [] headers [cr, lf], List.foldl_append]
    rfl

/-! ## Content -/

variable {H : Type} [FileUploadHelper H]

/-- The current part, if it is a parameter, is in the map. -/
def Targeted (f : Form H) : Prop :=
  ∀ key, f.currFMPart = some key → f.currPartMode ≠ .file →
    ∃ value, f.paramMap.lookup key = some value

theorem openPart_targeted (f : Form H) {h : PartHeaders} (named : h.disposition.name ≠ []) :
    (openPart f h).1 = true ∧ Targeted (openPart f h).2 := by
  simp only [openPart, if_pos named]
  split
  · split
    · exact ⟨rfl, fun _ _ string => absurd rfl string⟩
    · exact ⟨rfl, fun _ none_ _ => by cases none_⟩
  · refine ⟨rfl, fun key target _ => ⟨[], ?_⟩⟩
    simp only [Option.some.injEq] at target
    rw [← target]
    exact StringMap.lookup_set _ _ _

theorem addContent_targeted {f : Form H} (targeted : Targeted f) (bytes : List Byte) :
    Targeted (addContent f bytes).2 := by
  unfold addContent
  split
  · exact targeted
  · rename_i key target
    split
    · exact targeted
    · intro other same _
      obtain rfl := Option.some.inj (target.symm.trans same)
      exact ⟨_, StringMap.lookup_set _ _ _⟩

variable [SteadyHelper H]

theorem addContent_nil {f : Form H} (targeted : Targeted f) : (addContent f []).2 = f := by
  obtain ⟨paramMap, fileMap, target, mode, helper⟩ := f
  cases target with
  | none => rfl
  | some key =>
      by_cases file : mode = .file
      · simp only [addContent, if_pos file, SteadyHelper.data_nil]
      · obtain ⟨value, there⟩ := targeted key rfl file
        simp only [addContent, if_neg file, there, Option.getD_some, List.append_nil,
          StringMap.set_lookup there]

theorem addContent_append (f : Form H) (left right : List Byte) :
    (addContent (addContent f left).2 right).2 = (addContent f (left ++ right)).2 := by
  cases target : f.currFMPart with
  | none => simp only [addContent, target]
  | some key =>
      by_cases file : f.currPartMode = .file
      · simp only [addContent, target, if_pos file, SteadyHelper.data_append]
      · simp only [addContent, target, if_neg file, StringMap.lookup_set, StringMap.set_set,
          Option.getD_some, List.append_assoc]

/-- Content is the same, all at once or byte by byte. -/
theorem addContent_actAll {f : Form H} (targeted : Targeted f) (bytes : List Byte) :
    (addContent f bytes).2 = f.actAll (bytes.map .content) := by
  induction bytes generalizing f with
  | nil => exact addContent_nil targeted
  | cons c rest ih =>
      rw [← List.singleton_append, ← addContent_append, ih (addContent_targeted targeted _)]
      rfl

end QueryParams

theorem Form.actAll_append {H : Type} [FileUploadHelper H] (f : Form H) (left right : List Action) :
    f.actAll (left ++ right) = (f.actAll left).actAll right := List.foldl_append

/-! ## AppendToCurrentPart -/

namespace QueryParams

variable {H : Type} [FileUploadHelper H]

/-- The matcher of the delimiters is not concerned. -/
structure SameMatcher (q t : QueryParams H) : Prop where
  boundaryStr : t.boundaryStr = q.boundaryStr
  counter : t.boundaryParseCounter = q.boundaryParseCounter
  parseTmp : t.parseTmp = q.parseTmp

theorem appendToCurrentPart_matcher (q : QueryParams H) (bytes : List Byte) :
    SameMatcher q (q.appendToCurrentPart bytes).2 := by
  rw [appendToCurrentPart_log]
  exact ⟨rfl, rfl, rfl⟩

/-- The parser is where the reading is; `orig` holds the bytes since `OrigBegin`. The third
    byte of an end mark is never far from there, and so what the source leaves out of the
    headers at their end is only a part of their blank line. -/
def At (q : QueryParams H) (orig : List Byte) : Part → Prop
  | .outside => True
  | .opening second => q.fmParseState = .headerStart ∧
      q.fmParseCounter = (if second then 1 else 0) ∧ q.headerParseTmp = []
  | .headers bytes matched => q.fmParseState = .headersEnd ∧ q.fmParseCounter = matched ∧
      q.headerParseTmp ++ orig = bytes ∧ endMark.take matched <:+ bytes ∧ matched < 4 ∧
      (matched = 3 → orig.length ≤ 1)
  | .content => q.fmParseState = .read ∧ Targeted q.toForm
  | .finished => q.fmParseState = .finished ∧ FileUploadHelper.onFileEnd q.helper = q.helper
  | .refused => False

/-- The parser follows the reading, having started with the form `f`. -/
structure Follows (f : Form H) (q : QueryParams H) (orig : List Byte) (r : Reading) : Prop where
  form : q.toForm = f.actAll r.actions
  at_ : At q orig r.part

/-- The parser is reading the two bytes behind a delimiter, or headers. -/
def Looking (r : Reading) : Prop :=
  match r.part with
  | .opening _ => True
  | .headers _ _ => True
  | _ => False

/-- What the source has kept of the headers says the same as all of them. -/
theorem partHeaders_kept {kept orig bytes : List Byte} (whole : kept ++ orig = bytes)
    (mark : endMark.take 3 <:+ bytes) (short : orig.length ≤ 1) :
    partHeaders kept = partHeaders (bytes ++ [lf]) := by
  obtain ⟨front, rfl⟩ := mark
  have line : front ++ endMark.take 3 = (front ++ [cr]) ++ [lf, cr] := by simp [endMark]
  have all : front ++ endMark.take 3 ++ [lf] = (front ++ [cr]) ++ [lf, cr, lf] := by simp [endMark]
  rw [all, (partHeaders_blank _).2]
  cases orig with
  | nil => rw [← List.append_nil kept, whole, line, (partHeaders_blank _).1]
  | cons c rest =>
      have last : rest = [] := by
        simp only [List.length_cons] at short
        exact List.length_eq_zero_iff.mp (by omega)
      subst last
      have same : kept ++ [c] = (front ++ [cr] ++ [lf]) ++ [cr] := by
        rw [whole, line, List.append_assoc _ [lf]]
        rfl
      rw [(List.append_inj' same rfl).1]

section

variable {f : Form H} {q : QueryParams H} {orig bytes : List Byte} {r : Reading} {c : Byte}

theorem appendFrom_opening [SteadyHelper H] {second : Bool} (follows : Follows f q orig r)
    (opening : r.part = .opening second) (open_ : (r.add c).part ≠ .refused) :
    ∃ t orig', (∀ rest, appendFrom q orig (c :: rest) = appendFrom t orig' rest) ∧
      Follows f t orig' (r.add c) := by
  obtain ⟨form, at_⟩ := follows
  rw [opening] at at_
  obtain ⟨state, counter, tmp⟩ := at_
  cases second with
  | false =>
      simp only [Reading.add, opening] at open_ ⊢
      by_cases first : c = cr ∨ c = ch '-'
      · refine ⟨{ q with fmParseCounter := 1 }, orig ++ [c], fun rest => ?_, ?_⟩
        · simp only [appendFrom, state, counter, Bool.false_eq_true, if_false, if_true, if_pos first]
        · rw [if_pos first]
          exact ⟨form, state, rfl, tmp⟩
      · rw [if_neg first] at open_
        exact absurd rfl open_
  | true =>
      simp only [Reading.add, opening] at open_ ⊢
      by_cases newLine : c = lf
      · refine ⟨{ q with fmParseCounter := 0, fmParseState := .headersEnd }, [], fun rest => ?_, ?_⟩
        · simp only [appendFrom, state, counter, if_true, Nat.one_ne_zero, if_false, if_pos newLine]
        · rw [if_pos newLine]
          exact ⟨form, rfl, rfl, by rw [List.append_nil]; exact tmp, List.nil_suffix, by omega,
            fun _ => Nat.zero_le _⟩
      · by_cases dash : c = ch '-'
        · refine ⟨{ q.endFile with fmParseState := .finished }, orig ++ [c], fun rest => ?_, ?_⟩
          · simp only [appendFrom, state, counter, if_true, Nat.one_ne_zero, if_false,
              if_neg newLine, if_pos dash]
          · rw [if_neg newLine, if_pos dash]
            refine ⟨?_, rfl, SteadyHelper.end_end q.helper⟩
            rw [Form.actAll_append, ← form]
            rfl
        · rw [if_neg newLine, if_neg dash] at open_
          exact absurd rfl open_

theorem appendFrom_headers {matched : Nat} (follows : Follows f q orig r)
    (headers : r.part = .headers bytes matched) (fits : c = cr → r.ending = 2 → orig = [])
    (open_ : (r.add c).part ≠ .refused) :
    ∃ t orig', (∀ rest, appendFrom q orig (c :: rest) = appendFrom t orig' rest) ∧
      Follows f t orig' (r.add c) := by
  obtain ⟨form, at_⟩ := follows
  rw [headers] at at_
  obtain ⟨state, counter, whole, mark, less, short⟩ := at_
  have sameMark : headersEndMark[matched]? = endMark[matched]? := by
    match matched, less with
    | 0, _ | 1, _ | 2, _ | 3, _ => rfl
  simp only [Reading.add, headers] at open_ ⊢
  by_cases hit : some c = endMark[matched]?
  · rw [if_pos hit] at open_ ⊢
    by_cases last : matched + 1 = 4
    · have three : matched = 3 := by omega
      subst three
      have isLF : c = lf := Option.some.inj hit
      subst isLF
      rw [if_pos last] at open_ ⊢
      have same := partHeaders_kept whole mark (short rfl)
      by_cases named : (partHeaders (bytes ++ [lf])).disposition.name ≠ []
      · simp only [Reading.enter, if_pos named]
        obtain ⟨opened, targeted⟩ := openPart_targeted q.toForm named
        refine ⟨{ q with
            toForm := (openPart q.toForm (partHeaders (bytes ++ [lf]))).2
            fmParseCounter := 4
            fmParseState := .read }, orig ++ [lf], fun rest => ?_, ?_, rfl, targeted⟩
        · have parsed : parseFMHeaders q.toForm q.headerParseTmp =
              (true, (openPart q.toForm (partHeaders (bytes ++ [lf]))).2) := by
            rw [parseFMHeaders, same, ← opened]
          have few : ¬4 < orig.length := by have := short rfl; omega
          simp only [appendFrom, state, counter, sameMark, if_pos hit, if_true, if_neg few, parsed]
        · rw [Form.actAll_append, ← form]
          rfl
      · simp only [Reading.enter, if_neg named] at open_
        exact absurd rfl open_
    · rw [if_neg last]
      refine ⟨{ q with fmParseCounter := matched + 1 }, orig ++ [c], fun rest => ?_, form, state,
        rfl, by rw [← whole, List.append_assoc], ?_, by omega, fun three => ?_⟩
      · simp only [appendFrom, state, counter, sameMark, if_pos hit, if_neg last]
      · obtain ⟨front, rfl⟩ := mark
        rw [List.take_add_one, ← hit]
        exact ⟨front, by rw [List.append_assoc]; rfl⟩
      · have two : matched = 2 := by omega
        subst two
        have isCR : c = cr := Option.some.inj hit
        rw [fits isCR (by simp only [Reading.ending, headers])]
        exact Nat.le_refl _
  · rw [if_neg hit]
    refine ⟨{ q with fmParseCounter := 0 }, orig ++ [c], fun rest => ?_, form, state, rfl,
      by rw [← whole, List.append_assoc], List.nil_suffix, by omega, fun none_ => by omega⟩
    simp only [appendFrom, state, counter, sameMark, if_neg hit]

end

/-! ### Whole calls -/

/-- No CR comes right behind a CR LF of the headers. -/
def Smooth (r : Reading) : List Byte → Prop
  | [] => True
  | c :: rest => (c = cr → r.ending ≠ 2) ∧ Smooth (r.add c) rest

/-- The same, but for the first byte. -/
def Fits (r : Reading) : List Byte → Prop
  | [] => True
  | c :: rest => Smooth (r.add c) rest

theorem smooth_append {r : Reading} {left right : List Byte} :
    Smooth r (left ++ right) ↔ Smooth r left ∧ Smooth (r.addAll left) right := by
  induction left generalizing r with
  | nil => simp [Smooth]
  | cons c rest ih => simp only [List.cons_append, Smooth, ih, addAll_cons, and_assoc]

theorem smooth_of_no_cr {r : Reading} {bytes : List Byte} (notCR : cr ∉ bytes) : Smooth r bytes := by
  induction bytes generalizing r with
  | nil => trivial
  | cons c rest ih =>
      simp only [List.mem_cons, not_or] at notCR
      exact ⟨fun isCR => absurd isCR.symm notCR.1, ih notCR.2⟩

theorem Smooth.fits {r : Reading} {bytes : List Byte} (smooth : Smooth r bytes) : Fits r bytes := by
  cases bytes with
  | nil => trivial
  | cons c rest => exact smooth.2

/-- More bytes may follow those which there are. -/
theorem Fits.append {r : Reading} {left right : List Byte} (fits : Fits r left) (some_ : left ≠ [])
    (smooth : Smooth (r.addAll left) right) : Fits r (left ++ right) := by
  cases left with
  | nil => exact absurd rfl some_
  | cons c rest => exact smooth_append.mpr ⟨fits, smooth⟩

section

variable {f : Form H} {q : QueryParams H} {orig bytes : List Byte} {r : Reading}

theorem appendFrom_read (state : q.fmParseState = .read) (orig bytes : List Byte) :
    (appendFrom q orig bytes).2 = { q with toForm := (addContent q.toForm bytes).2 } := by
  cases bytes with
  | nil => simp only [appendFrom, state]
  | cons c rest => simp only [appendFrom, state]

theorem appendFrom_finished (follows : Follows f q orig r) (finished : r.part = .finished)
    (bytes : List Byte) : Follows f (appendFrom q orig bytes).2 [] (r.addAll bytes) := by
  obtain ⟨part, actions⟩ := r
  obtain ⟨form, at_⟩ := follows
  simp only at finished form
  subst finished
  obtain ⟨state, ended⟩ := at_
  have same : q.endFile = q := by simp only [endFile, ended]
  have nothing : (appendFrom q orig bytes).2 = q := by
    cases bytes with
    | nil => simp only [appendFrom, state]
    | cons c rest => simp only [appendFrom, state, same]
  rw [nothing, finished_addAll]
  exact ⟨form, state, ended⟩

variable [SteadyHelper H]

theorem appendFrom_content (follows : Follows f q orig r) (content : r.part = .content)
    (bytes : List Byte) : Follows f (appendFrom q orig bytes).2 [] (r.addAll bytes) := by
  obtain ⟨part, actions⟩ := r
  obtain ⟨form, at_⟩ := follows
  simp only at content form
  subst content
  obtain ⟨state, targeted⟩ := at_
  rw [appendFrom_read state, content_addAll]
  refine ⟨?_, state, addContent_targeted targeted bytes⟩
  rw [Form.actAll_append, ← form]
  exact addContent_actAll targeted bytes

/-- One byte further on in the search for the content. -/
theorem appendFrom_looking {c : Byte} (follows : Follows f q orig r) (looking : Looking r)
    (fits : c = cr → r.ending = 2 → orig = []) (open_ : (r.add c).part ≠ .refused) :
    ∃ t orig', (∀ rest, appendFrom q orig (c :: rest) = appendFrom t orig' rest) ∧
      Follows f t orig' (r.add c) := by
  cases part : r.part with
  | opening second => exact appendFrom_opening follows part open_
  | headers bytes matched => exact appendFrom_headers follows part fits open_
  | outside | content | finished | refused => simp only [Looking, part] at looking

theorem add_inside {c : Byte} (inside : r.part ≠ .outside) : (r.add c).part ≠ .outside := by
  obtain ⟨part, actions⟩ := r
  cases part with
  | outside => exact absurd rfl inside
  | opening second =>
      cases second <;> simp only [Reading.add] <;> (repeat' split) <;> intro left <;> cases left
  | headers bytes matched =>
      simp only [Reading.add, enter]
      (repeat' split) <;> intro left <;> cases left
  | content | finished | refused =>
      intro left
      cases left

theorem appendFrom_follows (follows : Follows f q orig r) (inside : r.part ≠ .outside)
    (smooth : Smooth r bytes) (open_ : (r.addAll bytes).part ≠ .refused) :
    Follows f (appendFrom q orig bytes).2 [] (r.addAll bytes) := by
  induction bytes generalizing q orig r with
  | nil =>
      cases part : r.part with
      | content => exact appendFrom_content follows part []
      | finished => exact appendFrom_finished follows part []
      | outside => exact absurd part inside
      | refused => exact absurd part open_
      | opening second =>
          obtain ⟨form, at_⟩ := follows
          rw [part] at at_
          simp only [appendFrom, at_.1]
          exact ⟨form, part ▸ at_⟩
      | headers bytes matched =>
          obtain ⟨form, at_⟩ := follows
          rw [part] at at_
          obtain ⟨state, counter, whole, mark, less, -⟩ := at_
          simp only [appendFrom, state]
          refine ⟨form, ?_⟩
          simp only [addAll_nil, part]
          exact ⟨rfl, counter, by rw [List.append_nil]; exact whole, mark, less,
            fun _ => Nat.zero_le _⟩
  | cons c rest ih =>
      cases part : r.part with
      | content => exact appendFrom_content follows part _
      | finished => exact appendFrom_finished follows part _
      | outside => exact absurd part inside
      | refused => exact absurd part (of_addAll open_)
      | opening _ | headers _ _ =>
          obtain ⟨t, orig', same, next⟩ := appendFrom_looking follows
            (by simp only [Looking, part]) (fun isCR two => absurd two (smooth.1 isCR))
            (of_addAll open_)
          rw [same, addAll_cons]
          exact ih next (add_inside inside) smooth.2 open_

theorem appendToCurrentPart_follows (follows : Follows f q [] r) (fits : Fits r bytes)
    (open_ : (r.addAll bytes).part ≠ .refused) :
    Follows f (q.appendToCurrentPart bytes).2 [] (r.addAll bytes) := by
  cases bytes with
  | nil => simp only [appendToCurrentPart, true_or, if_true, addAll_nil]; exact follows
  | cons c rest =>
      have inside : r.part ≠ .outside := fun outside => open_ (outside_addAll outside (by simp))
      by_cases finished : q.fmParseState = .finished
      · rw [appendToCurrentPart, if_pos (Or.inr finished)]
        obtain ⟨part, actions⟩ := r
        obtain ⟨form, at_⟩ := follows
        cases part with
        | finished => rw [finished_addAll]; exact ⟨form, at_⟩
        | outside => exact absurd rfl inside
        | refused => exact absurd rfl (of_addAll open_)
        | opening | headers | content =>
            have state := at_.1
            rw [finished] at state
            cases state
      · rw [appendToCurrentPart, if_neg (by simp only [List.cons_ne_nil, false_or]; exact finished)]
        cases part : r.part with
        | content => exact appendFrom_content follows part _
        | finished => exact appendFrom_finished follows part _
        | outside => exact absurd part inside
        | refused => exact absurd part (of_addAll open_)
        | opening _ | headers _ _ =>
            obtain ⟨t, orig', same, next⟩ := appendFrom_looking follows
              (by simp only [Looking, part]) (fun _ _ => rfl) (of_addAll open_)
            rw [same, addAll_cons]
            exact appendFrom_follows next (add_inside inside) fits open_

end

/-! ## AppendFormMultipart -/

/-- As an `unsigned int`, no position at the end of a delimiter is below the length of it. -/
def Unwrapped (d text : List Byte) : Prop :=
  ∀ before after, text = before ++ d ++ after → d.length ≤ u32 (before ++ d).length

/-- So it is in every text of less than 4 GiB. -/
theorem Unwrapped.of_short {d text : List Byte} (short : text.length < size32) :
    Unwrapped d text := by
  rintro before after rfl
  simp only [List.length_append] at short ⊢
  rw [u32_of_lt (by omega)]
  omega

/-- What has been matched is at the end of the bytes of the call, if there are as many. -/
def Spelled (d : List Byte) (matched : Nat) (done : List Byte) : Prop :=
  matched ≤ done.length → d.take matched <:+ done

section

variable {d done : List Byte} {n : Nat} {c : Byte}

theorem Spelled.add (spelled : Spelled d n done) (hit : d[n]? = some c) :
    Spelled d (n + 1) (done ++ [c]) := by
  intro enough
  rw [List.length_append, List.length_singleton] at enough
  obtain ⟨front, rfl⟩ := spelled (by omega)
  rw [List.take_add_one, hit, Option.toList_some, List.append_assoc]
  exact List.suffix_append _ _

theorem Spelled.step {boundary : List Byte} {s : Scan}
    (spelled : Spelled (delimiter boundary) s.matched done) :
    Spelled (delimiter boundary) (s.step (delimiter boundary) c).matched (done ++ [c]) := by
  have none_ : Spelled (delimiter boundary) 0 (done ++ [c]) := fun _ => List.nil_suffix
  have first : c = cr → Spelled (delimiter boundary) 1 (done ++ [c]) := by
    rintro rfl
    exact Spelled.add (fun _ => List.nil_suffix) rfl
  by_cases broken : s.matched ≠ 0 ∧ (delimiter boundary)[s.matched]? ≠ some c
  · simp only [Scan.step, if_pos broken, Scan.advance, Scan.release, if_true]
    split
    · exact first ‹_›
    · exact none_
  · simp only [Scan.step, if_neg broken, Scan.advance]
    split
    · split
      · exact first ‹_›
      · rename_i zero _
        simp only [zero]
        exact none_
    · rename_i some_
      have hit : (delimiter boundary)[s.matched]? = some c := by
        by_contra other
        exact broken ⟨some_, other⟩
      split
      · exact none_
      · exact spelled.add hit

/-- Where the last byte of a delimiter comes, there is one in front of it, or a part of it has come
    with earlier calls. -/
theorem Unwrapped.here {rest : List Byte} (unwrapped : Unwrapped d (done ++ c :: rest))
    (spelled : Spelled d n done) (hit : d[n]? = some c) (last : n + 1 = d.length)
    (wrapped : u32 (done.length + 1) < d.length) : done.length + 1 < d.length := by
  by_contra behind
  obtain ⟨front, same⟩ := spelled.add hit
    (by rw [List.length_append, List.length_singleton]; omega)
  rw [last, List.take_length] at same
  have far := unwrapped front rest (by rw [same, List.append_assoc, List.singleton_append])
  rw [same, List.length_append, List.length_singleton] at far
  omega

end

section

variable {boundary : List Byte} {f : Form H} {q : QueryParams H} {pos : Nat}
  {content bytes : List Byte} {r : Reading} {s : Scan} {c : Byte}

/-- The loop has got to a byte: the parser follows the reading `r`, the bytes since
    `ContentBegin` which are no part of a match go on with it, and what has been held back by
    the scan is in `ParseTmp` and behind these bytes. -/
structure Matching (boundary : List Byte) (f : Form H) (q : QueryParams H) (pos : Nat)
    (content : List Byte) (r : Reading) (s : Scan) : Prop where
  boundaryStr : q.boundaryStr = delimiter boundary
  follows : Follows f q [] r
  matched : q.boundaryParseCounter = s.matched
  held : q.parseTmp ++ content.drop (content.length - s.matched) = s.held
  reading : r.addAll (content.take (content.length - s.matched)) = s.reading
  fits : Fits r (content.take (content.length - s.matched))
  edge : content.take (content.length - s.matched) = [] ∨ s.matched = 0 ∨ s.reading.ending ≠ 2
  kept : q.parseTmp = [] ∨ content.length ≤ s.matched ∧ pos = content.length
  inside : content.length ≤ pos

/-- The parser of the parts is not concerned with the matcher of the delimiters. -/
theorem Follows.matcher {t : QueryParams H} (follows : Follows f q [] r)
    (form : t.toForm = q.toForm) (state : t.fmParseState = q.fmParseState)
    (counter : t.fmParseCounter = q.fmParseCounter) (tmp : t.headerParseTmp = q.headerParseTmp) :
    Follows f t [] r := by
  obtain ⟨same, at_⟩ := follows
  refine ⟨form.trans same, ?_⟩
  cases part : r.part <;> simp only [part, At, form, state, counter, tmp] at at_ ⊢ <;> exact at_

/-- Nothing is matched, and all bytes are with the parser. -/
theorem Matching.fresh (boundaryStr : q.boundaryStr = delimiter boundary)
    (follows : Follows f q [] r) (none_ : q.boundaryParseCounter = 0) (nothing : q.parseTmp = []) :
    Matching boundary f q pos [] r ⟨0, [], r⟩ where
  boundaryStr := boundaryStr
  follows := follows
  matched := none_
  held := by rw [nothing]; rfl
  reading := rfl
  fits := trivial
  edge := Or.inl rfl
  kept := Or.inl nothing
  inside := Nat.zero_le _

theorem Matching.nothing (m : Matching boundary f q pos content r s) (none_ : s.matched = 0)
    (held : s.held = []) : q.parseTmp = [] ∧ r.addAll content = s.reading ∧ Fits r content := by
  obtain ⟨-, -, -, whole, reading, fits, -, -, -⟩ := m
  rw [none_, Nat.sub_zero, List.take_length] at reading fits
  rw [held] at whole
  exact ⟨(List.append_eq_nil_iff.mp whole).1, reading, fits⟩

/-- A CR starts a match. -/
theorem Matching.begin (m : Matching boundary f q pos content r s) (none_ : s.matched = 0)
    (held : s.held = []) (edge : content = [] ∨ s.reading.ending ≠ 2) (isCR : c = cr) :
    Matching boundary f { q with boundaryParseCounter := 1 } (pos + 1) (content ++ [c]) r
      (s.advance (delimiter boundary) c) := by
  obtain ⟨nothing, reading, fits⟩ := m.nothing none_ held
  have length : (content ++ [c]).length - 1 = content.length := by simp
  simp only [Scan.advance, if_pos none_, if_pos isCR]
  refine ⟨m.boundaryStr, m.follows.matcher rfl rfl rfl rfl, rfl, ?_, ?_, ?_, ?_, Or.inl nothing, ?_⟩
  · simp only [length, List.drop_left', nothing, List.nil_append]
  · simp only [length, List.take_left']; exact reading
  · simp only [length, List.take_left']; exact fits
  · simp only [length, List.take_left']
    exact edge.imp id Or.inr
  · simp only [List.length_append, List.length_singleton]
    exact Nat.succ_le_succ m.inside

/-- Any other byte is content. -/
theorem Matching.skip (m : Matching boundary f q pos content r s) (none_ : s.matched = 0)
    (held : s.held = []) (other : c ≠ cr) :
    Matching boundary f q (pos + 1) (content ++ [c]) r (s.advance (delimiter boundary) c) := by
  obtain ⟨nothing, reading, fits⟩ := m.nothing none_ held
  have whole : (content ++ [c]).take (content ++ [c]).length = content ++ [c] := List.take_length
  simp only [Scan.advance, if_pos none_, if_neg other]
  refine ⟨m.boundaryStr, m.follows, m.matched, ?_, ?_, ?_, ?_, Or.inl nothing, ?_⟩
  · simp only [none_, Nat.sub_zero, List.drop_length, nothing, held, List.append_nil]
  · simp only [none_, Nat.sub_zero, whole, addAll_append, reading, addAll_cons, addAll_nil]
  · simp only [none_, Nat.sub_zero, whole]
    by_cases empty : content = []
    · rw [empty]
      trivial
    · exact fits.append empty ⟨fun isCR => absurd isCR other, trivial⟩
  · exact Or.inr (Or.inl none_)
  · simp only [List.length_append, List.length_singleton]
    exact Nat.succ_le_succ m.inside

/-- The match goes on. -/
theorem Matching.goOn (m : Matching boundary f q pos content r s) (some_ : s.matched ≠ 0) :
    Matching boundary f { q with boundaryParseCounter := s.matched + 1 } (pos + 1)
      (content ++ [c]) r { s with matched := s.matched + 1, held := s.held ++ [c] } := by
  obtain ⟨boundaryStr, follows, matched, held, reading, fits, edge, kept, inside⟩ := m
  have length : (content ++ [c]).length - (s.matched + 1) = content.length - s.matched := by
    simp only [List.length_append, List.length_singleton]
    omega
  have front : (content ++ [c]).take (content.length - s.matched) =
      content.take (content.length - s.matched) :=
    List.take_append_of_le_length (by omega)
  have back : (content ++ [c]).drop (content.length - s.matched) =
      content.drop (content.length - s.matched) ++ [c] :=
    List.drop_append_of_le_length (by omega)
  refine ⟨boundaryStr, follows.matcher rfl rfl rfl rfl, rfl, ?_, ?_, ?_, ?_, ?_, ?_⟩
  · simp only [length, back, ← List.append_assoc, held]
  · simp only [length, front, reading]
  · simp only [length, front, fits]
  · simp only [length, front]
    exact edge.imp id (fun edge => Or.inr (edge.resolve_left some_))
  · refine kept.imp id fun ⟨short, same⟩ => ?_
    simp only [List.length_append, List.length_singleton]
    omega
  · simp only [List.length_append, List.length_singleton]
    omega

theorem startNewPart_follows (follows : Follows f q [] r) :
    Follows f q.startNewPart [] r.newPart := by
  have open_ : r.part ≠ .refused := by
    intro refused
    have at_ := follows.at_
    rw [refused] at at_
    exact at_
  rw [newPart, if_neg open_]
  exact ⟨follows.form, rfl, rfl, rfl⟩

/-! ### Whole delimiters -/

theorem matchFrom_append (q : QueryParams H) (pos : Nat) (content left right : List Byte) :
    matchFrom q pos content (left ++ right) = matchFrom (matchFrom q pos content left).1
      (pos + left.length) (matchFrom q pos content left).2 right := by
  have position : ∀ pos n : Nat, pos + 1 + n = pos + (n + 1) := by
    intro pos n
    omega
  fun_induction matchFrom q pos content left with
  | case1 => rfl
  | case2 q pos content rest none_ ih =>
      rw [List.cons_append, matchFrom, if_pos none_, if_pos rfl, ih, position, List.length_cons]
  | case3 q pos content c rest none_ other ih =>
      rw [List.cons_append, matchFrom, if_pos none_, if_neg other, ih, position, List.length_cons]
  | case4 q pos content c rest some_ hit next full ih =>
      rw [List.cons_append, matchFrom, if_neg some_, if_pos hit]
      simp only [next] at full ih
      rw [if_pos full, ih, position, List.length_cons]
  | case5 q pos content c rest some_ hit next more ih =>
      rw [List.cons_append, matchFrom, if_neg some_, if_pos hit]
      simp only [next] at more ih
      rw [if_neg more, ih, position, List.length_cons]
  | case6 q pos content rest some_ miss ih =>
      rw [List.cons_append, matchFrom, if_neg some_, if_neg miss, if_pos rfl, ih, position,
        List.length_cons]
  | case7 q pos content c rest some_ miss other ih =>
      rw [List.cons_append, matchFrom, if_neg some_, if_neg miss, if_neg other, ih, position,
        List.length_cons]

/-- The rest of a delimiter completes a match. -/
theorem matchFrom_rest {pos n : Nat} {content rest : List Byte}
    (boundaryStr : q.boundaryStr = delimiter boundary) (matched : q.boundaryParseCounter = n)
    (some_ : n ≠ 0) (less : n < (delimiter boundary).length)
    (long : (delimiter boundary).length < size32) :
    matchFrom q pos content ((delimiter boundary).drop n ++ rest) =
      matchFrom ({ q with boundaryParseCounter := (delimiter boundary).length }.onFullMatch
          (pos + ((delimiter boundary).length - n)) (content ++ (delimiter boundary).drop n))
        (pos + ((delimiter boundary).length - n)) [] rest := by
  obtain ⟨left, whole⟩ : ∃ left, (delimiter boundary).length = n + 1 + left :=
    ⟨(delimiter boundary).length - (n + 1), by omega⟩
  have hit : some (delimiter boundary)[n] = (q.boundaryStr ++ [0])[q.boundaryParseCounter]? := by
    rw [boundaryStr, matched, List.getElem?_append_left less, List.getElem?_eq_getElem less]
  have counter : q.boundaryParseCounter ≠ 0 := by rw [matched]; exact some_
  have next : u32 (n + 1) = n + 1 := u32_of_lt (by omega)
  induction left generalizing q n pos content with
  | zero =>
      have last : (delimiter boundary).drop (n + 1) = [] := List.drop_eq_nil_of_le (by omega)
      have full : n + 1 = (delimiter boundary).length := by omega
      rw [List.drop_eq_getElem_cons less, last, List.cons_append, List.nil_append, matchFrom,
        if_neg counter, if_pos hit]
      simp only [matched, next, boundaryStr, if_pos full]
      rw [full, show (delimiter boundary).length - n = 1 by omega]
  | succ left ih =>
      have more : ¬n + 1 = (delimiter boundary).length := by omega
      have less' : n + 1 < (delimiter boundary).length := by omega
      rw [List.drop_eq_getElem_cons less, List.cons_append, matchFrom, if_neg counter, if_pos hit]
      simp only [matched, next, boundaryStr, if_neg more]
      rw [ih (n := n + 1)
        (q := { q with boundaryParseCounter := n + 1, boundaryStr := delimiter boundary })
        rfl rfl (Nat.succ_ne_zero n) less' (by omega)
        (by rw [List.getElem?_append_left less', List.getElem?_eq_getElem less'])
        (Nat.succ_ne_zero n) (u32_of_lt (by omega))]
      rw [show pos + 1 + ((delimiter boundary).length - (n + 1)) =
        pos + ((delimiter boundary).length - n) by omega, List.append_assoc, List.singleton_append]

variable [SteadyHelper H]

/-- What is no part of a match is handed on. -/
theorem Matching.handOn (m : Matching boundary f q pos content r s)
    (open_ : s.reading.part ≠ .refused) :
    Follows f (q.appendToCurrentPart (content.take (content.length - s.matched))).2 [] s.reading := by
  have reading := m.reading
  rw [← reading] at open_ ⊢
  exact appendToCurrentPart_follows m.follows m.fits open_

theorem Matching.fullMatch (m : Matching boundary f q pos content r s)
    (short : s.held.length ≤ s.matched) (unwrapped : u32 pos < s.matched → pos < s.matched)
    (open_ : s.reading.part ≠ .refused) :
    Matching boundary f (q.onFullMatch pos content) pos [] s.reading.newPart
      ⟨0, [], s.reading.newPart⟩ := by
  have handedOn := m.handOn open_
  have matcher := appendToCurrentPart_matcher q (content.take (content.length - s.matched))
  obtain ⟨boundaryStr, follows, matched, held, reading, -, -, kept, inside⟩ := m
  have nothing : content.length ≤ s.matched → r = s.reading := by
    intro le
    rw [← reading, Nat.sub_eq_zero_of_le le]
    rfl
  have last : ∀ t : QueryParams H, t.boundaryStr = delimiter boundary → Follows f t [] s.reading →
      Matching boundary f { t with boundaryParseCounter := 0, parseTmp := [] }.startNewPart pos []
        s.reading.newPart ⟨0, [], s.reading.newPart⟩ := fun t same follows =>
    Matching.fresh same (startNewPart_follows (follows.matcher rfl rfl rfl rfl)) rfl rfl
  simp only [onFullMatch, matched]
  split
  · rename_i before
    have before := unwrapped before
    have no : ¬s.matched - pos < q.parseTmp.length := by
      rcases kept with none_ | ⟨-, same⟩
      · rw [none_]
        exact Nat.not_lt_zero _
      · have length := congrArg List.length held
        rw [List.length_append, List.length_drop] at length
        omega
    rw [if_neg no]
    exact last q boundaryStr (nothing (by omega) ▸ follows)
  · split
    · exact last _ (matcher.boundaryStr.trans boundaryStr) handedOn
    · exact last q boundaryStr (nothing (by omega) ▸ follows)

/-- The match is broken: what has been held back is content. -/
theorem Matching.broken (m : Matching boundary f q pos content r s) (good : s.Good boundary)
    (notCR : cr ∉ boundary) (some_ : s.matched ≠ 0)
    (open_ : (s.reading.addAll s.held).part ≠ .refused) :
    Matching boundary f (q.onMatchBroken content) pos [] (s.reading.addAll s.held) s.release := by
  have heldBack := good.held_cases notCR open_
  obtain ⟨boundaryStr, follows, -, held, reading, fits, edge, kept, -⟩ := m
  by_cases none_ : q.parseTmp = []
  · rw [none_, List.nil_append] at held
    have whole : r.addAll content = s.reading.addAll s.held := by
      rw [← reading, ← held, ← addAll_append, List.take_append_drop]
    have fits : Fits r content := by
      rw [← List.take_append_drop (content.length - s.matched) content, held]
      rcases heldBack with nothing | ⟨rest, isCR, noCR, -⟩
      · rw [nothing, List.append_nil]
        exact fits
      · by_cases empty : content.take (content.length - s.matched) = []
        · rw [empty, isCR]
          exact smooth_of_no_cr noCR
        · refine fits.append empty ?_
          rw [reading, isCR]
          exact ⟨fun _ => (edge.resolve_left empty).resolve_left some_, smooth_of_no_cr noCR⟩
    have next := appendToCurrentPart_follows follows fits (whole ▸ open_)
    have matcher := appendToCurrentPart_matcher q content
    rw [whole] at next
    simp only [onMatchBroken, none_, ne_eq, not_true, if_false]
    exact Matching.fresh (matcher.boundaryStr.trans boundaryStr) (next.matcher rfl rfl rfl rfl) rfl
      (matcher.parseTmp.trans none_)
  · obtain ⟨short, -⟩ := kept.resolve_left none_
    rw [Nat.sub_eq_zero_of_le short, List.drop_zero] at held
    rw [Nat.sub_eq_zero_of_le short, List.take_zero, addAll_nil] at reading
    rw [← held, addAll_append, ← reading] at open_ ⊢
    obtain ⟨tmpFits, noCR⟩ : Fits r q.parseTmp ∧ cr ∉ content := by
      rcases heldBack with nothing | ⟨rest, isCR, noCR, -⟩
      · rw [nothing] at held
        exact absurd (List.append_eq_nil_iff.mp held).1 none_
      · rw [isCR] at held
        cases tmp : q.parseTmp with
        | nil => exact absurd tmp none_
        | cons c tmp =>
            rw [tmp, List.cons_append, List.cons.injEq] at held
            obtain ⟨rfl, rfl⟩ := held
            simp only [List.mem_append, not_or] at noCR
            exact ⟨smooth_of_no_cr noCR.1, noCR.2⟩
    have first := appendToCurrentPart_follows follows tmpFits (of_addAll open_)
    have second := appendToCurrentPart_follows
      (q := { (q.appendToCurrentPart q.parseTmp).2 with parseTmp := [] })
      (first.matcher rfl rfl rfl rfl) (smooth_of_no_cr noCR).fits open_
    have matcher := appendToCurrentPart_matcher q q.parseTmp
    have matcher' := appendToCurrentPart_matcher
      { (q.appendToCurrentPart q.parseTmp).2 with parseTmp := [] } content
    simp only [onMatchBroken, if_pos none_, Scan.release, ← reading, ← held, addAll_append]
    exact Matching.fresh (matcher'.boundaryStr.trans (matcher.boundaryStr.trans boundaryStr))
      (second.matcher rfl rfl rfl rfl) rfl matcher'.parseTmp

end

section

variable {boundary : List Byte} {f : Form H} {q : QueryParams H} {pos : Nat}
  {content bytes : List Byte} {r : Reading} {s : Scan} {c : Byte} [SteadyHelper H]

/-- One byte further on, the loop follows the scan. -/
theorem matchFrom_cons (m : Matching boundary f q pos content r s) (good : s.Good boundary)
    (notCR : cr ∉ boundary) (long : (delimiter boundary).length < size32)
    (unwrapped : (delimiter boundary)[s.matched]? = some c →
      s.matched + 1 = (delimiter boundary).length → u32 (pos + 1) < (delimiter boundary).length →
        pos + 1 < (delimiter boundary).length)
    (open_ : (s.step (delimiter boundary) c).reading.part ≠ .refused) :
    ∃ t content' r', (∀ rest, matchFrom q pos content (c :: rest) =
        matchFrom t (pos + 1) content' rest) ∧
      Matching boundary f t (pos + 1) content' r' (s.step (delimiter boundary) c) := by
  have below := good.matched
  by_cases none_ : s.matched = 0
  · have nothing := good.nothing none_
    have counter : q.boundaryParseCounter = 0 := m.matched.trans none_
    have quiet : s.reading.ending ≠ 2 := by rw [good.quiet none_]; decide
    rw [Scan.step, if_neg (fun both => both.1 none_)]
    by_cases isCR : c = cr
    · exact ⟨_, _, _, fun rest => by rw [matchFrom, if_pos counter, if_pos isCR],
        m.begin none_ nothing (Or.inr quiet) isCR⟩
    · exact ⟨_, _, _, fun rest => by rw [matchFrom, if_pos counter, if_neg isCR],
        m.skip none_ nothing isCR⟩
  · have counter : q.boundaryParseCounter ≠ 0 := by rw [m.matched]; exact none_
    have char : (q.boundaryStr ++ [0])[q.boundaryParseCounter]? =
        (delimiter boundary)[s.matched]? := by
      rw [m.boundaryStr, m.matched, List.getElem?_append_left below]
    by_cases hit : (delimiter boundary)[s.matched]? = some c
    · have same : some c = (q.boundaryStr ++ [0])[q.boundaryParseCounter]? := (char.trans hit).symm
      have next : u32 (s.matched + 1) = s.matched + 1 := u32_of_lt (by omega)
      have goOn := m.goOn (c := c) none_
      rw [Scan.step, if_neg (fun both => both.2 hit), Scan.advance, if_neg none_] at *
      by_cases full : s.matched + 1 = (delimiter boundary).length
      · rw [if_pos full] at open_ ⊢
        have short := good.short
        have ended : s.reading.part ≠ .refused := by
          intro refused
          simp only [newPart, if_pos refused] at open_
          exact open_ refused
        refine ⟨_, _, _, fun rest => ?_, goOn.fullMatch
          (by simp only [List.length_append, List.length_singleton]; omega)
          (by simp only [full]; exact unwrapped hit full) ended⟩
        rw [matchFrom, if_neg counter, if_pos same]
        simp only [m.matched, next, m.boundaryStr, if_pos full]
      · rw [if_neg full]
        refine ⟨_, _, _, fun rest => ?_, goOn⟩
        rw [matchFrom, if_neg counter, if_pos same]
        simp only [m.matched, next, m.boundaryStr, if_neg full]
    · have other : ¬some c = (q.boundaryStr ++ [0])[q.boundaryParseCounter]? := by
        rw [char]
        exact fun same => hit same.symm
      rw [Scan.step, if_pos ⟨none_, hit⟩] at open_ ⊢
      have released : (s.reading.addAll s.held).part ≠ .refused := by
        intro refused
        apply open_
        simp only [Scan.advance, Scan.release, if_true]
        split
        · exact refused
        · rw [add_refused refused]
          exact refused
      have broken := m.broken good notCR none_ released
      by_cases isCR : c = cr
      · exact ⟨_, _, _, fun rest => by rw [matchFrom, if_neg counter, if_neg other, if_pos isCR]; rfl,
          broken.begin rfl rfl (Or.inl rfl) isCR⟩
      · exact ⟨_, _, _, fun rest => by rw [matchFrom, if_neg counter, if_neg other, if_neg isCR]; rfl,
          broken.skip rfl rfl isCR⟩

/-- The bytes `done` of the call have been looked at. -/
theorem matchFrom_matching {done : List Byte} (m : Matching boundary f q done.length content r s)
    (good : s.Good boundary) (notCR : cr ∉ boundary) (long : (delimiter boundary).length < size32)
    (spelled : Spelled (delimiter boundary) s.matched done)
    (unwrapped : Unwrapped (delimiter boundary) (done ++ bytes))
    (open_ : (s.run (delimiter boundary) bytes).reading.part ≠ .refused) :
    (s.run (delimiter boundary) bytes).Good boundary ∧
    ∃ r', Matching boundary f (matchFrom q done.length content bytes).1 (done ++ bytes).length
      (matchFrom q done.length content bytes).2 r' (s.run (delimiter boundary) bytes) := by
  induction bytes generalizing q done content r s with
  | nil => exact ⟨good, r, by rw [List.append_nil]; exact m⟩
  | cons c rest ih =>
      have now : (s.step (delimiter boundary) c).reading.part ≠ .refused := Scan.of_run open_
      obtain ⟨t, content', r', same, next⟩ :=
        matchFrom_cons m good notCR long (unwrapped.here spelled) now
      have position : done.length + 1 = (done ++ [c]).length := by
        rw [List.length_append, List.length_singleton]
      rw [← List.singleton_append, ← List.append_assoc] at unwrapped
      rw [position] at next same
      have followed := ih next (Scan.step_good good notCR now) spelled.step unwrapped open_
      rw [same, ← List.singleton_append, ← List.append_assoc]
      exact followed

/-- Between two calls the parser is where the scan of the body is. -/
structure Between (boundary : List Byte) (f : Form H) (q : QueryParams H) (s : Scan) : Prop where
  boundaryStr : q.boundaryStr = delimiter boundary
  follows : Follows f q [] s.reading
  matched : q.boundaryParseCounter = s.matched
  held : q.parseTmp = s.held
  good : s.Good boundary

/-- `AppendFormMultipart` follows the scan of the bytes it gets. -/
theorem appendFormMultipart_between (between : Between boundary f q s) (notCR : cr ∉ boundary)
    (long : (delimiter boundary).length < size32) (unwrapped : Unwrapped (delimiter boundary) bytes)
    (open_ : (s.run (delimiter boundary) bytes).reading.part ≠ .refused) :
    Between boundary f (q.appendFormMultipart bytes) (s.run (delimiter boundary) bytes) := by
  obtain ⟨boundaryStr, follows, matched, held, good⟩ := between
  have start : Matching boundary f q ([] : List Byte).length [] s.reading s :=
    ⟨boundaryStr, follows, matched, by rw [held]; simp, by rw [List.take_nil]; rfl,
      by rw [List.take_nil]; trivial, Or.inl List.take_nil,
      Or.inr ⟨Nat.zero_le _, rfl⟩, Nat.le_refl _⟩
  have spelled : Spelled (delimiter boundary) s.matched [] := by
    intro none_
    rw [Nat.le_zero.mp none_]
    exact List.nil_suffix
  obtain ⟨good, r, m⟩ := matchFrom_matching start good notCR long spelled unwrapped open_
  simp only [List.length_nil] at good m
  have handedOn := m.handOn open_
  have matcher := appendToCurrentPart_matcher (matchFrom q 0 [] bytes).1
    ((matchFrom q 0 [] bytes).2.take ((matchFrom q 0 [] bytes).2.length -
      (s.run (delimiter boundary) bytes).matched))
  simp only [appendFormMultipart, m.matched]
  by_cases none_ : (s.run (delimiter boundary) bytes).matched = 0
  · have nothing := good.nothing none_
    obtain ⟨tmp, -, -⟩ := m.nothing none_ nothing
    rw [none_, Nat.sub_zero, List.take_length] at handedOn matcher
    rw [none_, if_neg (by decide)]
    split
    · exact ⟨matcher.boundaryStr.trans m.boundaryStr, handedOn,
        matcher.counter.trans m.matched, (matcher.parseTmp.trans tmp).trans nothing.symm, good⟩
    · rename_i empty
      rw [not_not] at empty
      subst empty
      exact ⟨boundaryStr, follows, matched, held, good⟩
  · rw [if_pos none_]
    refine ⟨matcher.boundaryStr.trans m.boundaryStr, handedOn.matcher rfl rfl rfl rfl,
      matcher.counter.trans m.matched, ?_, good⟩
    simp only [matcher.parseTmp]
    exact m.held

/-- However the body is cut, the form is what the body says. -/
theorem appendAll_between {pieces : List (List Byte)} (between : Between boundary f q s)
    (notCR : cr ∉ boundary) (long : (delimiter boundary).length < size32)
    (short : ∀ piece ∈ pieces, piece.length < size32)
    (open_ : (s.run (delimiter boundary) pieces.flatten).reading.part ≠ .refused) :
    Between boundary f (pieces.foldl appendFormMultipart q)
      (s.run (delimiter boundary) pieces.flatten) := by
  induction pieces generalizing q s with
  | nil => exact between
  | cons piece rest ih =>
      rw [List.flatten_cons, Scan.run_append] at open_ ⊢
      have first := appendFormMultipart_between between notCR long
        (.of_short (short piece List.mem_cons_self)) (Scan.of_run open_)
      exact ih first (fun piece inside => short piece (List.mem_cons_of_mem _ inside)) open_

end

end QueryParams

end MiniWebSrv.HTTP
