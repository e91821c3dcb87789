import MiniWebSrv.HTTP.QueryParams

/-! # What a multipart body says

The meaning of a body, byte by byte and without any regard to how it is cut into calls: the
delimiters are taken out, and what is between them says which parts to open and what to put
into them. `AppendFormMultipart` is compared with it.
-/

namespace MiniWebSrv.HTTP

open QueryParams

/-- What is done to a form. -/
inductive Action where
  | open_ (headers : PartHeaders)
  | content (c : Byte)
  | finish
  deriving DecidableEq, Repr

/-- Where in a part the bytes are. -/
inductive Part where
  /-- Before the first delimiter. -/
  | outside
  /-- Behind a delimiter, and behind the first of the two bytes which follow it. -/
  | opening (second : Bool)
  /-- In the headers: the bytes so far, and how much of the end mark they end with. -/
  | headers (bytes : List Byte) (matched : Nat)
  | content
  | finished
  /-- Behind a byte which no part has a use for. -/
  | refused
  deriving DecidableEq, Repr

/-- The bytes outside the delimiters, with what they have said so far. -/
structure Reading where
  part : Part
  actions : List Action
  deriving DecidableEq, Repr

namespace Reading

def endMark : List Byte := [cr, lf, cr, lf]

/-- The headers end: they must name the part. -/
def enter (r : Reading) (headers : PartHeaders) : Reading :=
  if headers.disposition.name ≠ [] then
    ⟨.content, r.actions ++ [.open_ headers]⟩
  else
    { r with part := .refused }

def add (r : Reading) (c : Byte) : Reading :=
  match r.part with
  | .outside => { r with part := .refused }
  | .opening false =>
      if c = cr ∨ c = ch '-' then { r with part := .opening true } else { r with part := .refused }
  | .opening true =>
      if c = lf then { r with part := .headers [] 0 }
      else if c = ch '-' then ⟨.finished, r.actions ++ [.finish]⟩
      else { r with part := .refused }
  | .headers bytes matched =>
      if some c = endMark[matched]? then
        if matched + 1 = 4 then r.enter (partHeaders (bytes ++ [c]))
        else { r with part := .headers (bytes ++ [c]) (matched + 1) }
      else
        { r with part := .headers (bytes ++ [c]) 0 }
  | .content => { r with actions := r.actions ++ [.content c] }
  | .finished => r
  | .refused => r

def addAll (r : Reading) (bytes : List Byte) : Reading := bytes.foldl add r

/-- A delimiter. -/
def newPart (r : Reading) : Reading :=
  if r.part = .refused then r else { r with part := .opening false }

end Reading

/-- A body, with the bytes held back which may be the start of a delimiter. -/
structure Scan where
  matched : Nat
  held : List Byte
  reading : Reading
  deriving DecidableEq, Repr

namespace Scan

/-- The start of a body counts as the start of a line. -/
def start : Scan := ⟨2, [], ⟨.outside, []⟩⟩

/-- A byte which breaks the match of a delimiter: the bytes held back are not a part of one. -/
def release (s : Scan) : Scan := ⟨0, [], s.reading.addAll s.held⟩

def advance (delimiter : List Byte) (s : Scan) (c : Byte) : Scan :=
  if s.matched = 0 then
    if c = cr then { s with matched := 1, held := [c] } else { s with reading := s.reading.add c }
  else if s.matched + 1 = delimiter.length then
    ⟨0, [], s.reading.newPart⟩
  else
    { s with matched := s.matched + 1, held := s.held ++ [c] }

def step (delimiter : List Byte) (s : Scan) (c : Byte) : Scan :=
  if s.matched ≠ 0 ∧ delimiter[s.matched]? ≠ some c then
    s.release.advance delimiter c
  else
    s.advance delimiter c

def run (delimiter : List Byte) (s : Scan) (bytes : List Byte) : Scan :=
  bytes.foldl (step delimiter) s

end Scan

/-- The delimiter which `OnBoundaryParsed` makes of a boundary. -/
def delimiter (boundary : List Byte) : List Byte := [cr, lf] ++ text "--" ++ boundary

/-- Everything in the body is of use: it starts with a delimiter, each of its parts goes on
    with a line end or with the two dashes of the last one, and has headers with a name. A body
    may break off anywhere. -/
def Accepted (boundary body : List Byte) : Prop :=
  (Scan.start.run (delimiter boundary) body).reading.part ≠ .refused

instance (boundary body : List Byte) : Decidable (Accepted boundary body) :=
  inferInstanceAs (Decidable (_ ≠ _))

/-! ## Readings -/

namespace Reading

/-- How much of the end mark the headers end with. -/
def ending (r : Reading) : Nat :=
  match r.part with
  | .headers _ matched => matched
  | _ => 0

@[simp] theorem addAll_nil (r : Reading) : r.addAll [] = r := rfl

@[simp] theorem addAll_cons (r : Reading) (c : Byte) (rest : List Byte) :
    r.addAll (c :: rest) = (r.add c).addAll rest := rfl

theorem addAll_append (r : Reading) (left right : List Byte) :
    r.addAll (left ++ right) = (r.addAll left).addAll right := List.foldl_append

theorem add_refused {r : Reading} (refused : r.part = .refused) (c : Byte) : r.add c = r := by
  simp only [add, refused]

theorem addAll_refused {r : Reading} (refused : r.part = .refused) (bytes : List Byte) :
    r.addAll bytes = r := by
  induction bytes with
  | nil => rfl
  | cons c rest ih => rw [addAll_cons, add_refused refused, ih]

theorem of_addAll {r : Reading} {bytes : List Byte} (open_ : (r.addAll bytes).part ≠ .refused) :
    r.part ≠ .refused := by
  intro refused
  rw [addAll_refused refused] at open_
  exact open_ refused

/-- No byte has a use before the first delimiter. -/
theorem outside_addAll {r : Reading} {bytes : List Byte} (outside : r.part = .outside)
    (some_ : bytes ≠ []) : (r.addAll bytes).part = .refused := by
  cases bytes with
  | nil => exact absurd rfl some_
  | cons c rest =>
      have refused : (r.add c).part = .refused := by simp only [add, outside]
      rw [addAll_cons, addAll_refused refused]
      exact refused

theorem content_addAll (actions : List Action) (bytes : List Byte) :
    (Reading.mk .content actions).addAll bytes = ⟨.content, actions ++ bytes.map .content⟩ := by
  induction bytes generalizing actions with
  | nil => simp
  | cons c rest ih =>
      rw [addAll_cons, List.map_cons]
      simp only [add, ih, List.append_assoc, List.singleton_append]

theorem finished_addAll (actions : List Action) (bytes : List Byte) :
    (Reading.mk .finished actions).addAll bytes = ⟨.finished, actions⟩ := by
  induction bytes with
  | nil => rfl
  | cons c rest ih => exact ih

/-! ### The end mark -/

theorem ending_add (r : Reading) (c : Byte) : (r.add c).ending = 0 ∨
    (r.add c).ending = r.ending + 1 ∧ endMark[r.ending]? = some c ∧ r.ending < 3 := by
  have entered : ∀ headers, (r.enter headers).ending = 0 := by
    intro headers
    unfold enter
    split <;> rfl
  obtain ⟨part, actions⟩ := r
  cases part with
  | headers bytes matched =>
      simp only [add]
      split
      · rename_i hit
        split
        · exact Or.inl (entered _)
        · have bound : matched < endMark.length := by
            by_contra beyond
            rw [List.getElem?_eq_none (by omega)] at hit
            cases hit
          simp only [endMark, List.length_cons, List.length_nil] at bound
          exact Or.inr ⟨rfl, hit.symm, by simp only [ending]; omega⟩
      · exact Or.inl rfl
  | opening second => cases second <;> simp only [add] <;> (repeat' split) <;> exact Or.inl rfl
  | outside | content | finished | refused => exact Or.inl rfl

theorem ending_add_of_ne {c : Byte} (r : Reading) (notCR : c ≠ cr) (notLF : c ≠ lf) :
    (r.add c).ending = 0 := by
  rcases ending_add r c with zero | ⟨-, mark, less⟩
  · exact zero
  · match r.ending, mark, less with
    | 0, mark, _ => exact absurd (Option.some.inj mark).symm notCR
    | 1, mark, _ => exact absurd (Option.some.inj mark).symm notLF
    | 2, mark, _ => exact absurd (Option.some.inj mark).symm notCR

theorem ending_add_quiet {r : Reading} {c : Byte} (quiet : r.ending = 0) (notCR : c ≠ cr) :
    (r.add c).ending = 0 := by
  rcases ending_add r c with zero | ⟨-, mark, -⟩
  · exact zero
  · rw [quiet] at mark
    exact absurd (Option.some.inj mark).symm notCR

theorem ending_addAll_quiet {r : Reading} {bytes : List Byte} (quiet : r.ending = 0)
    (notCR : cr ∉ bytes) : (r.addAll bytes).ending = 0 := by
  induction bytes generalizing r with
  | nil => exact quiet
  | cons c rest ih =>
      simp only [List.mem_cons, not_or] at notCR
      exact ih (ending_add_quiet quiet (Ne.symm notCR.1)) notCR.2

theorem ending_add_lf_lf (r : Reading) : ((r.add lf).add lf).ending = 0 := by
  rcases ending_add (r.add lf) lf with zero | ⟨-, mark, less⟩
  · exact zero
  · have one : (r.add lf).ending = 1 := by
      match (r.add lf).ending, mark, less with
      | 0, mark, _ => exact absurd mark (by decide)
      | 1, _, _ => rfl
      | 2, mark, _ => exact absurd mark (by decide)
    rcases ending_add r lf with zero | ⟨next, mark, -⟩
    · omega
    · rw [one] at next
      rw [show r.ending = 0 by omega] at mark
      exact absurd mark (by decide)

end Reading

/-! ## Scans -/

theorem delimiter_eq (boundary : List Byte) :
    delimiter boundary = cr :: lf :: ch '-' :: ch '-' :: boundary := rfl

/-- A CR comes only at the start of a delimiter. -/
theorem cr_delimiter {boundary : List Byte} (notCR : cr ∉ boundary) :
    cr ∉ (delimiter boundary).tail := by
  rw [delimiter_eq, List.tail_cons]
  simp only [List.mem_cons, not_or]
  exact ⟨by decide, by decide, by decide, notCR⟩

namespace Scan

variable {boundary : List Byte} {s : Scan} {c : Byte}

/-- What holds between two bytes. -/
structure Good (boundary : List Byte) (s : Scan) : Prop where
  matched : s.matched < (delimiter boundary).length
  /-- The start of the first delimiter need not have been there to be held back. -/
  held : s.reading.part = .outside ∨ s.held = (delimiter boundary).take s.matched
  short : s.held.length ≤ s.matched
  quiet : s.matched = 0 → s.reading.ending = 0

theorem start_good : start.Good boundary := by
  refine ⟨?_, Or.inl rfl, by decide, fun none_ => absurd none_ (by decide)⟩
  simp only [start, delimiter_eq, List.length_cons]
  omega

theorem Good.nothing (good : s.Good boundary) (none_ : s.matched = 0) : s.held = [] := by
  have short := good.short
  rw [none_] at short
  exact List.length_eq_zero_iff.mp (by omega)

/-- The bytes held back are of use only as the start of a delimiter, and then its CR is the
    first of them. -/
theorem Good.held_cases (good : s.Good boundary) (notCR : cr ∉ boundary)
    (open_ : (s.reading.addAll s.held).part ≠ .refused) :
    s.held = [] ∨ ∃ rest, s.held = cr :: rest ∧ cr ∉ rest ∧
      s.held = (delimiter boundary).take s.matched := by
  rcases good.held with outside | held
  · by_cases none_ : s.held = []
    · exact Or.inl none_
    · exact absurd (Reading.outside_addAll outside none_) open_
  · cases matched : s.matched with
    | zero => exact Or.inl (good.nothing matched)
    | succ n =>
        rw [matched, delimiter_eq, List.take_succ_cons] at held
        refine Or.inr ⟨_, held, fun inside => ?_, by rw [held, delimiter_eq, List.take_succ_cons]⟩
        exact cr_delimiter notCR (List.mem_of_mem_take inside)

/-- A byte which breaks a match leaves no unfinished end mark, unless it starts one. -/
theorem Good.broken (good : s.Good boundary) (notCR : cr ∉ boundary) (some_ : s.matched ≠ 0)
    (broken : (delimiter boundary)[s.matched]? ≠ some c) (other : c ≠ cr)
    (open_ : (s.reading.addAll s.held).part ≠ .refused) :
    ((s.reading.addAll s.held).add c).ending = 0 := by
  by_cases notLF : c = lf
  · subst notLF
    rcases good.held_cases notCR open_ with none_ | ⟨-, -, -, held⟩
    · rcases good.held with outside | held
      · rw [none_, Reading.addAll_nil]
        simp only [Reading.add, outside, Reading.ending]
      · have length := congrArg List.length held
        rw [none_, List.length_take] at length
        have matched := good.matched
        simp only [List.length_nil] at length
        omega
    · rw [held, delimiter_eq]
      match matched : s.matched with
      | 0 => exact absurd matched some_
      | 1 => rw [matched, delimiter_eq] at broken; exact absurd rfl broken
      | 2 => exact Reading.ending_add_lf_lf _
      | n + 3 =>
          simp only [List.take_succ_cons, Reading.addAll_cons]
          refine Reading.ending_add_quiet (Reading.ending_addAll_quiet ?_ ?_) other
          · exact Reading.ending_add_of_ne _ (by decide) (by decide)
          · intro inside
            have inside := List.mem_of_mem_take inside
            rcases List.mem_cons.mp inside with dash | inside
            · exact absurd dash (by decide)
            · exact notCR inside
  · exact Reading.ending_add_of_ne _ other notLF

theorem advance_good (good : s.Good boundary)
    (hit : s.matched ≠ 0 → (delimiter boundary)[s.matched]? = some c)
    (quiet : s.matched = 0 → c ≠ cr → (s.reading.add c).ending = 0) :
    (s.advance (delimiter boundary) c).Good boundary := by
  have length : (delimiter boundary).length = boundary.length + 4 := by
    simp only [delimiter_eq, List.length_cons]
  unfold advance
  split
  · rename_i none_
    split
    · rename_i isCR
      refine ⟨by simp only; omega, Or.inr ?_, Nat.le_refl _, fun none_ => by cases none_⟩
      simp only [isCR, delimiter_eq, List.take_succ_cons, List.take_zero]
    · rename_i other
      refine ⟨by simp only; omega, Or.inr ?_, good.short, fun _ => quiet none_ other⟩
      simp only [none_, List.take_zero, good.nothing none_]
  · rename_i matched
    split
    · refine ⟨by simp only; omega, Or.inr rfl, Nat.le_refl _, fun _ => ?_⟩
      simp only [Reading.newPart]
      split
      · rename_i refused
        simp only [Reading.ending, refused]
      · rfl
    · have below := good.matched
      have short := good.short
      refine ⟨by simp only; omega, ?_, by simp only [List.length_append, List.length_singleton]; omega,
        fun none_ => by cases none_⟩
      rcases good.held with outside | held
      · exact Or.inl outside
      · exact Or.inr (by simp only [held, List.take_add_one, hit matched, Option.toList_some])

theorem step_good (good : s.Good boundary) (notCR : cr ∉ boundary)
    (open_ : (s.step (delimiter boundary) c).reading.part ≠ .refused) :
    (s.step (delimiter boundary) c).Good boundary := by
  unfold step at open_ ⊢
  split
  · rename_i broken
    rw [if_pos broken] at open_
    have below := good.matched
    have released : (s.reading.addAll s.held).part ≠ .refused := by
      intro refused
      apply open_
      simp only [advance, release, if_true]
      split
      · exact refused
      · exact (Reading.add_refused refused c).symm ▸ refused
    by_cases isCR : c = cr
    · simp only [advance, release, if_pos isCR, if_true]
      refine ⟨by simp only [delimiter_eq, List.length_cons]; omega, Or.inr ?_, Nat.le_refl _,
        fun none_ => by cases none_⟩
      simp only [isCR, delimiter_eq, List.take_succ_cons, List.take_zero]
    · simp only [advance, release, if_neg isCR, if_true]
      refine ⟨by simp only; omega, Or.inr rfl, Nat.le_refl _, fun _ => ?_⟩
      exact good.broken notCR broken.1 broken.2 isCR released
  · rename_i kept
    refine advance_good good (fun matched => ?_)
      (fun none_ other => Reading.ending_add_quiet (good.quiet none_) other)
    by_contra other
    exact kept ⟨matched, other⟩

theorem run_append (d : List Byte) (s : Scan) (left right : List Byte) :
    s.run d (left ++ right) = (s.run d left).run d right := List.foldl_append

theorem step_refused {d : List Byte} (refused : s.reading.part = .refused) :
    (s.step d c).reading.part = .refused := by
  have released : s.release.reading.part = .refused := by
    simp only [release, Reading.addAll_refused refused, refused]
  have advanced : ∀ t : Scan, t.reading.part = .refused →
      (t.advance d c).reading.part = .refused := by
    intro t refused
    unfold advance
    split
    · split
      · exact refused
      · simp only [Reading.add_refused refused, refused]
    · split
      · simp only [Reading.newPart, refused, if_true]
      · exact refused
  unfold step
  split
  · exact advanced _ released
  · exact advanced _ refused

theorem of_run {d bytes : List Byte} (open_ : (s.run d bytes).reading.part ≠ .refused) :
    s.reading.part ≠ .refused := by
  induction bytes generalizing s with
  | nil => exact open_
  | cons c rest ih =>
      intro refused
      exact ih open_ (step_refused refused)

end Scan

/-- No content comes before the first part has been opened. -/
def Opens : List Action → Prop
  | [] => True
  | .open_ _ :: _ => True
  | .content _ :: _ => False
  | .finish :: rest => Opens rest

theorem opens_append {left right : List Action} (opens : Opens left)
    (next : Opens right) : Opens (left ++ right) := by
  induction left with
  | nil => exact next
  | cons action rest ih =>
      cases action with
      | open_ _ => trivial
      | content _ => exact opens.elim
      | finish => exact ih opens

namespace Reading

/-- Content has a part to go to. -/
structure Ordered (r : Reading) : Prop where
  opens : Opens r.actions
  content : r.part = .content → ∀ more, Opens (r.actions ++ more)

theorem Ordered.enter {r : Reading} (ordered : r.Ordered) (headers : PartHeaders) :
    (r.enter headers).Ordered := by
  unfold Reading.enter
  split
  · refine ⟨opens_append ordered.opens trivial, fun _ more => ?_⟩
    rw [List.append_assoc]
    exact opens_append ordered.opens trivial
  · exact ⟨ordered.opens, nofun⟩

theorem Ordered.add {r : Reading} (ordered : r.Ordered) (c : Byte) : (r.add c).Ordered := by
  obtain ⟨part, actions⟩ := r
  cases part with
  | outside => exact ⟨ordered.opens, nofun⟩
  | opening second =>
      cases second with
      | false => simp only [Reading.add]; split <;> exact ⟨ordered.opens, nofun⟩
      | true =>
          simp only [Reading.add]
          split
          · exact ⟨ordered.opens, nofun⟩
          · split
            · exact ⟨opens_append ordered.opens trivial, nofun⟩
            · exact ⟨ordered.opens, nofun⟩
  | headers bytes matched =>
      simp only [Reading.add]
      split
      · split
        · exact Ordered.enter ⟨ordered.opens, nofun⟩ _
        · exact ⟨ordered.opens, nofun⟩
      · exact ⟨ordered.opens, nofun⟩
  | content =>
      refine ⟨ordered.content rfl _, fun _ more => ?_⟩
      simp only [Reading.add, List.append_assoc]
      exact ordered.content rfl _
  | finished | refused => exact ordered

theorem Ordered.addAll {r : Reading} (ordered : r.Ordered) (bytes : List Byte) :
    (r.addAll bytes).Ordered := by
  induction bytes generalizing r with
  | nil => exact ordered
  | cons c rest ih => exact ih (ordered.add c)

end Reading

theorem Scan.ordered {s : Scan} (ordered : s.reading.Ordered) (d bytes : List Byte) :
    (s.run d bytes).reading.Ordered := by
  have advanced : ∀ (t : Scan) (c : Byte), t.reading.Ordered → (t.advance d c).reading.Ordered := by
    intro t c ordered
    unfold advance
    split
    · split
      · exact ordered
      · exact ordered.add c
    · split
      · simp only [Reading.newPart]
        split
        · exact ordered
        · exact ⟨ordered.opens, nofun⟩
      · exact ordered
  induction bytes generalizing s with
  | nil => exact ordered
  | cons c rest ih =>
      refine ih ?_
      unfold step
      split
      · exact advanced _ c (ordered.addAll s.held)
      · exact advanced _ c ordered

/-! ## Forms -/

variable {H : Type} [FileUploadHelper H]

namespace Form

def act (f : Form H) : Action → Form H
  | .open_ headers => (openPart f headers).2
  | .content c => (addContent f [c]).2
  | .finish => { f with helper := FileUploadHelper.onFileEnd f.helper }

def actAll (f : Form H) (actions : List Action) : Form H := actions.foldl act f

end Form

namespace Form

/-- The form without its pointer. -/
def clear (f : Form H) : Form H := { f with currFMPart := none }

theorem openPart_clear (f : Form H) (h : PartHeaders) : openPart f.clear h = openPart f h := rfl

/-- What a body leaves behind does not depend on where the pointer points to before it. -/
theorem actAll_clear {f g : Form H} {actions : List Action} (same : f.clear = g.clear)
    (opens : Opens actions) : (f.actAll actions).clear = (g.actAll actions).clear := by
  induction actions generalizing f g with
  | nil => exact same
  | cons action rest ih =>
      cases action with
      | open_ headers =>
          have opened : f.act (.open_ headers) = g.act (.open_ headers) := by
            simp only [act, ← openPart_clear f, ← openPart_clear g, same]
          simp only [actAll, List.foldl_cons, opened]
      | content _ => exact opens.elim
      | finish =>
          refine ih ?_ opens
          simp only [clear, Form.mk.injEq, true_and] at same
          obtain ⟨paramMap, fileMap, mode, helper⟩ := same
          simp only [act, clear, paramMap, fileMap, mode, helper]

end Form

/-- A helper which looks at the data of a file only, not at the pieces in which it comes. -/
class SteadyHelper (H : Type) [FileUploadHelper H] : Prop where
  data_nil : ∀ h : H, (FileUploadHelper.onFileData h []).2 = h
  data_append : ∀ (h : H) (left right : List Byte),
    (FileUploadHelper.onFileData (FileUploadHelper.onFileData h left).2 right).2 =
      (FileUploadHelper.onFileData h (left ++ right)).2
  end_end : ∀ h : H, FileUploadHelper.onFileEnd (FileUploadHelper.onFileEnd h) =
    FileUploadHelper.onFileEnd h

end MiniWebSrv.HTTP
