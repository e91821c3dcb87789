import MiniWebSrv.HTTP.HeaderBlock

/-! # Requests as clients send them

A request line and some header lines, and what the parser makes of each of them. The memory
which they are parsed in comes into play later.
-/

namespace MiniWebSrv.HTTP

/-- No byte of a line. -/
def Ends (b : Byte) : Prop := b = cr ∨ b = lf ∨ b = 0

instance (b : Byte) : Decidable (Ends b) := inferInstanceAs (Decidable (_ ∨ _))

/-- A header line: the name with its colon, spaces, and the value. -/
structure HeaderLine where
  name : List Byte
  spaces : Nat
  value : List Byte
  named : name ≠ []
  nameFree : ∀ b ∈ name, ¬Ends b ∧ b ≠ ch ':'
  valueFree : ∀ b ∈ value, ¬Ends b
  start : value.head? ≠ some (ch ' ')

namespace HeaderLine

/-- The line with its CR, and without its LF. -/
def line (h : HeaderLine) : List Byte :=
  h.name ++ ch ':' :: (List.replicate h.spaces (ch ' ') ++ (h.value ++ [cr]))

/-- What becomes of it. -/
def parsed (h : HeaderLine) : List Byte :=
  h.name.map Header.lower ++ [0] ++ List.replicate h.spaces (ch ' ') ++ (h.value ++ [0])

/-- The lines one after the other, each with its LF. -/
def join (form : HeaderLine → List Byte) (lines : List HeaderLine) : List Byte :=
  lines.flatMap fun h => form h ++ [lf]

@[simp] theorem join_nil (form : HeaderLine → List Byte) : join form [] = [] := rfl

theorem join_cons (form : HeaderLine → List Byte) (h : HeaderLine) (lines : List HeaderLine) :
    join form (h :: lines) = form h ++ lf :: join form lines := by
  simp only [join, List.flatMap_cons, List.append_assoc, List.singleton_append]

theorem join_append (form : HeaderLine → List Byte) (left right : List HeaderLine) :
    join form (left ++ right) = join form left ++ join form right := List.flatMap_append

variable (h : HeaderLine)

theorem parsed_length : h.parsed.length = h.line.length := by
  simp only [parsed, line, List.length_append, List.length_cons, List.length_map,
    List.length_nil, List.length_replicate]
  omega

/-- The value and its NUL are behind the name and the spaces. -/
theorem parsed_eq : ∃ front, h.parsed = front ++ (h.value ++ [0]) ∧
    front.length = h.name.length + 1 + h.spaces := by
  refine ⟨h.name.map Header.lower ++ [0] ++ List.replicate h.spaces (ch ' '), rfl, ?_⟩
  simp only [List.length_append, List.length_map, List.length_singleton, List.length_replicate]

theorem join_parsed_length (lines : List HeaderLine) :
    (join parsed lines).length = (join line lines).length := by
  induction lines with
  | nil => rfl
  | cons h lines ih =>
      simp only [join_cons, List.length_append, List.length_cons, ih, parsed_length]

theorem line_long : 1 < h.line.length := by
  have named := List.length_pos_of_ne_nil h.named
  simp only [line, List.length_append, List.length_cons]
  omega

theorem lf_notMem_line : lf ∉ h.line := by
  have name : lf ∉ h.name := fun inside => (h.nameFree lf inside).1 (Or.inr (Or.inl rfl))
  have value : lf ∉ h.value := fun inside => h.valueFree lf inside (Or.inr (Or.inl rfl))
  simp only [line, List.mem_append, List.mem_cons, List.mem_replicate, List.not_mem_nil, not_or]
  exact ⟨name, by decide, fun spaces => absurd spaces.2 (by decide), value, by decide, not_false⟩

theorem noColon : ch ':' ∉ h.name := fun inside => (h.nameFree _ inside).2 rfl

theorem noCR : cr ∉ h.value := fun inside => h.valueFree _ inside (Or.inl rfl)

theorem noNul_name : 0 ∉ h.name := fun inside => (h.nameFree _ inside).1 (Or.inr (Or.inr rfl))

theorem noNul_value : 0 ∉ h.value := fun inside => h.valueFree _ inside (Or.inr (Or.inr rfl))

theorem extractHeader : Header.extractHeader h.line =
    ⟨h.parsed, some (h.name.length + 1 + h.spaces), true⟩ :=
  Header.extractHeader_line h.spaces h.noColon h.start h.noCR

theorem lineName : Header.lineName h.line = Header.parseHeader (h.name.map Header.lower) :=
  Header.lineName_line h.spaces h.noColon h.noNul_name h.start h.noCR

end HeaderLine

/-- Each percent sign has two more characters behind it. -/
def completeEscapes : List Byte → Bool
  | [] => true
  | c :: rest =>
      if c = ch '%' then
        match rest with
        | _ :: _ :: rest => completeEscapes rest
        | _ => false
      else
        completeEscapes rest

/-- A request line and the header lines behind it. -/
structure RequestHead where
  method : List Byte
  path : List Byte
  query : Option (List Byte)
  /-- The `x` of `HTTP/1.x`. -/
  minor : Byte
  lines : List HeaderLine
  methodFree : ∀ b ∈ method, ¬Ends b ∧ b ≠ ch ' '
  pathFree : ∀ b ∈ path, ¬Ends b ∧ b ≠ ch ' ' ∧ b ≠ ch '?'
  queryFree : ∀ q ∈ query, ∀ b ∈ q, ¬Ends b ∧ b ≠ ch ' '
  escapes : ∀ q ∈ query, completeEscapes q = true
  digit : ch '0' ≤ minor ∧ minor ≤ ch '9'

namespace RequestHead

/-- `HTTP/1.x` and the CR. -/
def protocol (minor : Byte) : List Byte := text "HTTP/1." ++ [minor, cr]

def queryPart : Option (List Byte) → List Byte
  | none => []
  | some q => ch '?' :: q

/-- The request line with its CR, and without its LF. -/
def requestLine (head : RequestHead) : List Byte :=
  head.method ++ ch ' ' ::
    (head.path ++ (queryPart head.query ++ ch ' ' :: protocol head.minor))

/-- The header block. -/
def bytes (head : RequestHead) : List Byte :=
  head.requestLine ++ lf :: (HeaderLine.join HeaderLine.line head.lines ++ [cr, lf])

/-- What becomes of it. -/
def parsed (head : RequestHead) : List Byte :=
  head.requestLine ++ lf :: (HeaderLine.join HeaderLine.parsed head.lines ++ [cr, lf])

def version (head : RequestHead) : Version := if head.minor = ch '0' then .v10 else .v11

/-- What a query does to the parameters. -/
def queryOf {H : Type} (head : RequestHead) (q : QueryParams H) : Option (QueryParams H) :=
  match head.query with
  | none => some q
  | some query => q.addURLEncoded query

variable (head : RequestHead)

theorem parsed_length : head.parsed.length = head.bytes.length := by
  simp only [parsed, bytes, List.length_append, List.length_cons, HeaderLine.join_parsed_length]

theorem minor_ne_lf : head.minor ≠ lf := by
  intro same
  have digit := head.digit.1
  rw [same] at digit
  exact absurd digit (by decide)

theorem requestLine_long : 1 < head.requestLine.length := by
  simp only [requestLine, protocol, text, List.length_append, List.length_cons, List.length_map]
  omega

theorem lf_notMem_requestLine : lf ∉ head.requestLine := by
  have ends : Ends lf := Or.inr (Or.inl rfl)
  have method : lf ∉ head.method := fun inside => (head.methodFree lf inside).1 ends
  have path : lf ∉ head.path := fun inside => (head.pathFree lf inside).1 ends
  have query : lf ∉ queryPart head.query := by
    intro inside
    cases same : head.query with
    | none =>
        rw [same] at inside
        cases inside
    | some q =>
        rw [same] at inside
        rcases List.mem_cons.mp inside with first | later
        · exact absurd first (by decide)
        · exact (head.queryFree q same lf later).1 ends
  have protocol : lf ∉ protocol head.minor := by
    have fixed : lf ∉ text "HTTP/1." := by decide
    have minor := Ne.symm head.minor_ne_lf
    simp only [RequestHead.protocol, List.mem_append, List.mem_cons, List.not_mem_nil, not_or]
    exact ⟨fixed, minor, by decide, not_false⟩
  simp only [requestLine, List.mem_append, List.mem_cons, not_or]
  exact ⟨method, by decide, path, query, by decide, protocol⟩

end RequestHead

/-! ## Queries -/

namespace QueryParams

variable {H : Type}

theorem addURLEncodedLoop_complete {q : QueryParams H} {target : Option (List Byte)}
    {range : List Byte} (complete : completeEscapes range = true) :
    ∃ q', q.addURLEncodedLoop target range = some q' := by
  fun_induction completeEscapes range generalizing q target with
  | case1 => exact ⟨q, rfl⟩
  | case2 high low rest ih =>
      unfold addURLEncodedLoop
      exact ih complete
  | case3 => cases complete
  | case4 c rest other ih =>
      unfold addURLEncodedLoop
      split
      · exact ih complete
      · simp only [decide_eq_false other]
        split
        · split
          · exact ih complete
          · exact ih complete
        · split
          · exact ih complete
          · exact ih complete

end QueryParams

theorem RequestHead.queryOf_some {H : Type} (head : RequestHead) (q : QueryParams H) :
    ∃ q', head.queryOf q = some q' := by
  unfold queryOf
  split
  · exact ⟨q, rfl⟩
  · rename_i query same
    exact QueryParams.addURLEncodedLoop_complete (head.escapes query same)

/-! ## Request lines -/

section

variable {p : Byte → Bool} {left right : List Byte} {stop : Byte}

theorem takeWhile_stop (before : ∀ b ∈ left, p b = true) (stops : p stop = false) :
    (left ++ stop :: right).takeWhile p = left := by
  rw [List.takeWhile_append_of_pos before, List.takeWhile_cons_of_neg (by simp [stops]),
    List.append_nil]

theorem dropWhile_stop (before : ∀ b ∈ left, p b = true) (stops : p stop = false) :
    (left ++ stop :: right).dropWhile p = stop :: right := by
  rw [List.dropWhile_append_of_pos before, List.dropWhile_cons_of_neg (by simp [stops])]

end

namespace Connection

variable {H : Type}

theorem parseVersion_protocol (c : Connection H) (head : RequestHead) :
    c.parseVersion (RequestHead.protocol head.minor) =
      (true, { c with currVersion := head.version }) := by
  have slash : (RequestHead.protocol head.minor).dropWhile (· ≠ ch '/') =
      ch '/' :: (text "1." ++ [head.minor, cr]) := rfl
  have front : (text "1." ++ [head.minor, cr]).take 3 = text "1." ++ [head.minor] := rfl
  have same : text "1." ++ [head.minor] = text "1.0" ↔ head.minor = ch '0' := by
    rw [show text "1.0" = text "1." ++ [ch '0'] from rfl, List.append_cancel_left_eq]
    simp
  simp only [parseVersion, slash, front, same, RequestHead.version]

/-- What a request line sets. -/
def requested (c : Connection H) (head : RequestHead) (q : QueryParams H) : Connection H :=
  { c with
    currVersion := head.version
    currMethod := parseMethod head.method
    currResource := head.path
    currQuery := q }

theorem parseRequestLine_line (c : Connection H) (head : RequestHead) {q : QueryParams H}
    (query : head.queryOf c.currQuery = some q) :
    c.parseRequestLine head.requestLine = some (true, c.requested head q) := by
  have methodBefore : ∀ b ∈ head.method, decide (b ≠ ch ' ') = true := fun b inside =>
    decide_eq_true (head.methodFree b inside).2
  have pathBefore : ∀ b ∈ head.path, decide (b ≠ ch ' ' ∧ b ≠ ch '?') = true := fun b inside =>
    decide_eq_true (head.pathFree b inside).2
  unfold parseRequestLine RequestHead.requestLine
  rw [dropWhile_stop methodBefore (by decide), takeWhile_stop methodBefore (by decide)]
  simp only
  cases same : head.query with
  | none =>
      simp only [RequestHead.queryOf, same] at query
      obtain rfl := Option.some.inj query
      rw [RequestHead.queryPart, List.nil_append, dropWhile_stop pathBefore (by decide),
        takeWhile_stop pathBefore (by decide)]
      simp only
      rw [if_neg (by decide), parseVersion_protocol]
      rfl
  | some bytes =>
      simp only [RequestHead.queryOf, same] at query
      have queryBefore : ∀ b ∈ bytes, decide (b ≠ ch ' ') = true := fun b inside =>
        decide_eq_true (head.queryFree bytes same b inside).2
      rw [RequestHead.queryPart, List.cons_append, dropWhile_stop pathBefore (by decide),
        takeWhile_stop pathBefore (by decide)]
      simp only
      rw [if_pos trivial, dropWhile_stop queryBefore (by decide), takeWhile_stop queryBefore (by decide)]
      simp only
      rw [query, Option.map_some, parseVersion_protocol]
      rfl

end Connection

end MiniWebSrv.HTTP
