import MiniWebSrv.HTTP.ResponseFraming
import MiniWebSrv.HTTP.ResponseHeaders
import MiniWebSrv.Lib.FieldLines

/-! # What a client reads

A client as it should be, with no regard for the server: it takes the lines of the header block off
the stream, finds the length of the body in them, and takes the body off. What it makes of the bytes
of a response are the code, the headers and the body which the response was made of.
-/

namespace MiniWebSrv.HTTP

open Word FieldLines Responding RespSource

/-! ## The client -/

namespace Client

/-- A response as it has been read. -/
structure Received where
  code : Nat
  fields : List (List Byte × List Byte)
  body : List Byte
  deriving DecidableEq, Repr

/-- The code in the first line. -/
def readCode (line : List Byte) : Option Nat :=
  if line.take 9 = text "HTTP/1.1 " then
    some (Header.decimal ((line.drop 9).takeWhile Header.isDigit))
  else
    none

/-- The value of the first field of a name, in upper or lower case. -/
def lookup (name : List Byte) (fields : List (List Byte × List Byte)) : Option (List Byte) :=
  (fields.find? fun f => decide (f.1.map Header.lower = name)).map Prod.snd

/-- A field which says nothing about the length of the body. -/
def Silent (f : List Byte × List Byte) : Prop :=
  f.1.map Header.lower ≠ text "content-length" ∧ f.1.map Header.lower ≠ text "transfer-encoding"

/-- The codes of the responses which end with their header block, whatever it says. -/
def bodiless (code : Nat) : Bool := code / 100 = 1 ∨ code = 204 ∨ code = 304

/-- The body, and what is behind it. -/
def readBody (fields : List (List Byte × List Byte)) (bytes : List Byte) :
    Option (List Byte × List Byte) :=
  match lookup (text "transfer-encoding") fields with
  | some coding => if coding = text "chunked" then ChunkedCoding.decodeBody bytes else none
  | none =>
      (lookup (text "content-length") fields).bind fun digits =>
        if Header.decimal digits ≤ bytes.length then
          some (bytes.take (Header.decimal digits), bytes.drop (Header.decimal digits))
        else
          none

/-- The first response, and what is behind it. -/
def readResponse (bytes : List Byte) : Option (Received × List Byte) := do
  let (lines, rest) ← takeBlock cr lf bytes.length bytes
  let status ← lines.head?
  let code ← readCode status
  let fields ← lines.tail.mapM (splitField (ch ':') (ch ' '))
  if bodiless code then
    some (⟨code, fields, []⟩, rest)
  else
    let (body, rest) ← readBody fields rest
    some (⟨code, fields, body⟩, rest)

/-- Every response takes a byte at least. -/
def readResponses (bytes : List Byte) : Option (List Received) :=
  readAll readResponse bytes.length bytes

end Client

/-! ## The header block -/

namespace ExtraHeader

/-- The name and the value, as far as they are copied. -/
def field (h : ExtraHeader) : List Byte × List Byte :=
  (h.name.take (u32 h.name.length), h.value.take (u32 h.value.length))

theorem field_eq {h : ExtraHeader} (name : h.name.length < size32) (value : h.value.length < size32) :
    h.field = (h.name, h.value) ∧ h.lineLength = h.name.length + h.value.length + 4 := by
  simp only [field, lineLength, u32_of_lt name, u32_of_lt value, List.take_length, true_and]

/-- A header which is not taken for something else. -/
structure Clean (h : ExtraHeader) : Prop where
  name : cr ∉ h.name ∧ ch ':' ∉ h.name
  value : cr ∉ h.value
  other : Client.Silent h.field

/-- A short name which is not taken for something else. -/
def IsFieldName (name : List Byte) : Prop :=
  cr ∉ name ∧ ch ':' ∉ name ∧ name.length ≤ 100 ∧ name.map Header.lower ≠ text "content-length" ∧
    name.map Header.lower ≠ text "transfer-encoding"

instance (name : List Byte) : Decidable (IsFieldName name) :=
  inferInstanceAs (Decidable (_ ∧ _ ∧ _ ∧ _ ∧ _))

theorem IsFieldName.clean {h : ExtraHeader} (name : IsFieldName h.name) (value : cr ∉ h.value)
    (short : h.value.length ≤ 1000) : h.Clean ∧ h.field = (h.name, h.value) ∧
      h.lineLength = h.name.length + h.value.length + 4 := by
  obtain ⟨line, colon, length, silent⟩ := name
  obtain ⟨field, lineLength⟩ := field_eq (h := h) (by simp only [size32]; omega)
    (by simp only [size32]; omega)
  exact ⟨⟨⟨line, colon⟩, value, by rw [field]; exact silent⟩, field, lineLength⟩

end ExtraHeader

namespace ResponseHead

/-- The line of a field, without its end. -/
def fieldLine (f : List Byte × List Byte) : List Byte := f.1 ++ ch ':' :: ch ' ' :: f.2

def statusLine (r : ResponseHead) : List Byte :=
  text "HTTP/1.1 " ++ Header.decimalInt ((r.respCode.toNat : Int).bmod 4294967296) ++ text " " ++
    getResponseName r.respCode.toNat

def contentTypeValue (r : ResponseHead) : List Byte :=
  match r.contentTypeCharset with
  | some encodingStr =>
      Header.cString r.contentType ++ text "; charset=\"" ++ Header.cString encodingStr ++ text "\""
  | none => Header.cString r.contentType

def corsFields (r : ResponseHead) : List (List Byte × List Byte) :=
  if r.writeCORSHeaders then [(text "Access-Control-Allow-Origin", text "*")] else []

def lengthField (r : ResponseHead) : List Byte × List Byte :=
  if r.respLength ≠ 18446744073709551615 then
    (text "Content-Length", decimalDigits r.respLength.toNat)
  else
    (text "Transfer-Encoding", text "chunked")

/-- The headers in front of the one which tells the length. -/
def frontFields (r : ResponseHead) (tm : Tm) : List (List Byte × List Byte) :=
  (text "Server", Header.cString r.serverName) :: (text "Content-Type", r.contentTypeValue) ::
    (r.corsFields ++ [(text "Date", Header.dateText tm)])

/-- All the headers. -/
def fields (r : ResponseHead) (tm : Tm) (maxHeadersLength : Nat) : List (List Byte × List Byte) :=
  r.frontFields tm ++ r.lengthField :: (r.keptHeaders maxHeadersLength).map ExtraHeader.field

/-- The lines of the block. -/
def lines (r : ResponseHead) (tm : Tm) (maxHeadersLength : Nat) : List (List Byte) :=
  r.statusLine :: (r.fields tm maxHeadersLength).map fieldLine

theorem ExtraHeader.line_eq (h : ExtraHeader) : h.line = fieldLine h.field ++ [cr, lf] := by
  simp only [ExtraHeader.line, fieldLine, ExtraHeader.field, List.append_assoc, List.cons_append]
  rfl

variable {r : ResponseHead}

/-- The block is nothing but its lines. -/
theorem block_eq (r : ResponseHead) (tm : Tm) (maxHeadersLength : Nat) :
    r.fixedLines tm ++ (r.keptHeaders maxHeadersLength).flatMap ExtraHeader.line ++ [cr, lf] =
      block cr lf (r.lines tm maxHeadersLength) := by
  have status : r.statusLines = r.statusLine ++ [cr, lf] ++
      (fieldLine (text "Server", Header.cString r.serverName) ++ [cr, lf]) := by
    simp only [statusLines, statusLine, fieldLine, List.append_assoc, List.cons_append,
      List.nil_append]
    rfl
  have type : r.contentTypeLine = fieldLine (text "Content-Type", r.contentTypeValue) ++ [cr, lf] := by
    cases charset : r.contentTypeCharset with
    | none | some encodingStr =>
        simp only [contentTypeLine, contentTypeValue, fieldLine, charset, List.append_assoc,
          List.cons_append]
        rfl
  have cors : r.corsLines = r.corsFields.flatMap fun f => fieldLine f ++ [cr, lf] := by
    simp only [corsLines, corsFields]
    split <;> rfl
  have date : dateLine tm = fieldLine (text "Date", Header.dateText tm) ++ [cr, lf] := by
    simp only [dateLine, fieldLine, List.append_assoc]
    rfl
  have length : r.lengthLine = fieldLine r.lengthField ++ [cr, lf] := by
    simp only [lengthLine, lengthField, fieldLine]
    split
    · simp only [List.append_assoc]
      rfl
    · rfl
  have extra : (r.keptHeaders maxHeadersLength).flatMap ExtraHeader.line =
      ((r.keptHeaders maxHeadersLength).map ExtraHeader.field).flatMap
        fun f => fieldLine f ++ [cr, lf] := by
    rw [List.flatMap_map]
    exact List.flatMap_congr fun h _ => ExtraHeader.line_eq h
  simp only [block, lines, fields, frontFields, fixedLines, status, type, cors, date, length, extra,
    List.flatMap_cons, List.flatMap_map, List.flatMap_append, List.map_cons, List.append_assoc,
    List.cons_append, List.nil_append]

/-- A head whose texts stay within their lines, and whose code is a number for the client. -/
structure Clean (r : ResponseHead) : Prop where
  serverName : cr ∉ r.serverName
  contentType : cr ∉ r.contentType
  charset : ∀ charset ∈ r.contentTypeCharset, cr ∉ charset
  headers : ∀ h ∈ r.extraHeaders.reduceOption, h.Clean
  respCode : r.respCode.toNat < 2147483648

theorem cr_of_digits {digits : List Byte} {n : Int} (tells : Header.Tells digits n) :
    cr ∉ digits := by
  intro member
  exact absurd (tells.all cr member) (by decide)

theorem cr_of_cString {bytes : List Byte} (none_ : cr ∉ bytes) : cr ∉ Header.cString bytes :=
  fun member => none_ ((List.takeWhile_sublist _).subset member)

theorem cr_of_abbreviation {names : List (List Byte)} (clean : ∀ name ∈ names, cr ∉ name) (n : Int) :
    cr ∉ Header.abbreviation names n := by
  have unknown : cr ∉ text "?" := by decide
  unfold Header.abbreviation
  split
  · rw [List.getD_eq_getElem?_getD]
    cases found : names[n.toNat]? with
    | none => exact unknown
    | some name => exact clean name (List.mem_of_getElem? found)
  · exact unknown

theorem cr_of_dateText {tm : Tm} (proper : Header.Proper tm) : cr ∉ Header.dateText tm := by
  obtain ⟨sec, min, hour, mday, mon, year, wday⟩ := proper
  have days : cr ∉ Header.abbreviation Header.dayNames tm.tmWday :=
    cr_of_abbreviation (by decide +kernel) _
  have months : cr ∉ Header.abbreviation Header.monthNames tm.tmMon :=
    cr_of_abbreviation (by decide +kernel) _
  have blank : cr ∉ text " " := by decide
  have comma : cr ∉ text ", " := by decide
  have colon : cr ∉ text ":" := by decide
  have zone : cr ∉ text " GMT" := by decide
  have year' : 0 ≤ tm.tmYear + 1900 := by omega
  simp only [Header.dateText, List.mem_append, not_or]
  exact ⟨⟨⟨⟨⟨⟨⟨⟨⟨⟨⟨⟨⟨days, comma⟩, cr_of_digits (Header.twoDigits_tells mday.1)⟩, blank⟩, months⟩,
    blank⟩, cr_of_digits (Header.decimalInt_tells year')⟩, blank⟩,
    cr_of_digits (Header.twoDigits_tells hour.1)⟩, colon⟩,
    cr_of_digits (Header.twoDigits_tells min.1)⟩, colon⟩,
    cr_of_digits (Header.twoDigits_tells sec.1)⟩, zone⟩

theorem cr_of_getResponseName (code : Nat) : cr ∉ getResponseName code := by
  unfold getResponseName
  split <;> decide

/-- The code as it is printed. -/
theorem code_printed (small : r.respCode.toNat < 2147483648) :
    Header.decimalInt ((r.respCode.toNat : Int).bmod 4294967296) =
      decimalDigits r.respCode.toNat := by
  have same : (r.respCode.toNat : Int).bmod 4294967296 = r.respCode.toNat := by
    rw [Int.bmod_def]
    omega
  rw [same, Header.decimalInt, if_pos (Int.natCast_nonneg _), Int.toNat_natCast]

/-- A name and a value which make a line of their own. -/
structure FieldClean (f : List Byte × List Byte) : Prop where
  name : cr ∉ f.1 ∧ ch ':' ∉ f.1
  value : cr ∉ f.2

theorem FieldClean.line {f : List Byte × List Byte} (clean : FieldClean f) :
    cr ∉ fieldLine f ∧ fieldLine f ≠ [] := by
  have colon : ch ':' ≠ cr := by decide
  have blank : ch ' ' ≠ cr := by decide
  refine ⟨?_, List.append_ne_nil_of_right_ne_nil _ (List.cons_ne_nil _ _)⟩
  simp only [fieldLine, List.mem_append, List.mem_cons, not_or]
  exact ⟨clean.name.1, colon.symm, blank.symm, clean.value⟩

theorem fields_clean (clean : r.Clean) {tm : Tm} (proper : Header.Proper tm)
    (maxHeadersLength : Nat) : ∀ f ∈ r.fields tm maxHeadersLength, FieldClean f := by
  have type : cr ∉ r.contentTypeValue := by
    have between : cr ∉ text "; charset=\"" := by decide
    have last : cr ∉ text "\"" := by decide
    cases charset : r.contentTypeCharset with
    | none =>
        simp only [contentTypeValue, charset]
        exact cr_of_cString clean.contentType
    | some encodingStr =>
        simp only [contentTypeValue, charset, List.mem_append, not_or]
        exact ⟨⟨⟨cr_of_cString clean.contentType, between⟩,
          cr_of_cString (clean.charset encodingStr charset)⟩, last⟩
  have server : cr ∉ text "Server" ∧ ch ':' ∉ text "Server" := by decide
  have kind : cr ∉ text "Content-Type" ∧ ch ':' ∉ text "Content-Type" := by decide
  have date : cr ∉ text "Date" ∧ ch ':' ∉ text "Date" := by decide
  have length : cr ∉ text "Content-Length" ∧ ch ':' ∉ text "Content-Length" := by decide
  intro f member
  simp only [fields, frontFields, List.mem_append, List.mem_cons, List.mem_map, List.not_mem_nil,
    or_false] at member
  rcases member with (rfl | rfl | cors | rfl) | rfl | ⟨h, inside, rfl⟩
  · exact ⟨server, cr_of_cString clean.serverName⟩
  · exact ⟨kind, type⟩
  · unfold corsFields at cors
    split at cors
    · rw [List.mem_singleton.mp cors]
      exact ⟨by decide, by decide⟩
    · cases cors
  · exact ⟨date, cr_of_dateText proper⟩
  · unfold lengthField
    split
    · exact ⟨length, cr_of_digits (Header.decimalDigits_tells _)⟩
    · exact ⟨by decide, by decide⟩
  · have whole := clean.headers h ((HeaderWriter.kept_sublist _ _ _).subset inside)
    exact ⟨⟨fun member => whole.name.1 (List.mem_of_mem_take member),
      fun member => whole.name.2 (List.mem_of_mem_take member)⟩,
      fun member => whole.value (List.mem_of_mem_take member)⟩

theorem lines_clean (clean : r.Clean) {tm : Tm} (proper : Header.Proper tm)
    (maxHeadersLength : Nat) : ∀ line ∈ r.lines tm maxHeadersLength, line ≠ [] ∧ cr ∉ line := by
  intro line member
  rcases List.mem_cons.mp member with rfl | member
  · have version : cr ∉ text "HTTP/1.1 " := by decide
    have blank : cr ∉ text " " := by decide
    refine ⟨List.append_ne_nil_of_left_ne_nil (List.append_ne_nil_of_left_ne_nil
      (List.append_ne_nil_of_left_ne_nil (List.cons_ne_nil _ _) _) _) _, ?_⟩
    simp only [statusLine, code_printed clean.respCode, List.mem_append, not_or]
    exact ⟨⟨⟨version, cr_of_digits (Header.decimalDigits_tells _)⟩, blank⟩,
      cr_of_getResponseName _⟩
  · obtain ⟨f, inside, rfl⟩ := List.mem_map.mp member
    exact (fields_clean clean proper maxHeadersLength f inside).line.symm

theorem readCode_statusLine (clean : r.Clean) :
    Client.readCode r.statusLine = some r.respCode.toNat := by
  have front : (text "HTTP/1.1 ").length = 9 := rfl
  have tells := Header.decimalDigits_tells r.respCode.toNat
  have line : r.statusLine = text "HTTP/1.1 " ++ (decimalDigits r.respCode.toNat ++
      ch ' ' :: getResponseName r.respCode.toNat) := by
    rw [statusLine, code_printed clean.respCode, List.append_assoc, List.append_assoc]
    rfl
  have blank : ¬Header.isDigit (ch ' ') = true := by decide
  rw [Client.readCode, line, List.take_left' front, if_pos rfl, List.drop_left' front,
    List.takeWhile_append_of_pos tells.all, List.takeWhile_cons_of_neg blank, List.append_nil]
  exact congrArg some (Int.natCast_inj.mp tells.value)

theorem mapM_splitField {fs : List (List Byte × List Byte)} (clean : ∀ f ∈ fs, FieldClean f) :
    (fs.map fieldLine).mapM (splitField (ch ':') (ch ' ')) = some fs := by
  induction fs with
  | nil => rfl
  | cons f rest ih =>
      have here : splitField (ch ':') (ch ' ') (fieldLine f) = some f :=
        splitField_field (clean f List.mem_cons_self).name.2 f.2
      have later := ih fun g member => clean g (List.mem_cons_of_mem f member)
      rw [List.map_cons, List.mapM_cons, here, later]
      rfl

/-! ## The body -/

/-- The bytes behind the block, for a body. -/
def Codes (r : ResponseHead) (coded body : List Byte) : Prop :=
  if r.respLength ≠ 18446744073709551615 then
    coded = body ∧ body.length = r.respLength.toNat
  else
    ∃ blocks : List (List Byte), (∀ block ∈ blocks, block ≠ [] ∧ block.length < 16 ^ 8) ∧
      coded = blocks.flatMap ChunkedCoding.chunk ++ ChunkedCoding.lastChunk ∧ body = blocks.flatten

theorem lookup_behind {name : List Byte} {front : List (List Byte × List Byte)}
    (others : ∀ f ∈ front, f.1.map Header.lower ≠ name) (behind : List (List Byte × List Byte)) :
    Client.lookup name (front ++ behind) = Client.lookup name behind := by
  have none_ : front.find? (fun f => decide (f.1.map Header.lower = name)) = none :=
    List.find?_eq_none.mpr fun g member => by simpa using others g member
  rw [Client.lookup, List.find?_append, none_, Option.none_or]
  rfl

theorem lookup_found {name : List Byte} {front : List (List Byte × List Byte)}
    (others : ∀ f ∈ front, f.1.map Header.lower ≠ name) {f : List Byte × List Byte}
    (found : f.1.map Header.lower = name) (behind : List (List Byte × List Byte)) :
    Client.lookup name (front ++ f :: behind) = some f.2 := by
  have here : (f :: behind).find? (fun f => decide (f.1.map Header.lower = name)) = some f :=
    List.find?_cons_of_pos (by simpa using found)
  rw [lookup_behind others, Client.lookup, here, Option.map_some]

theorem lookup_missing {name : List Byte} {fields : List (List Byte × List Byte)}
    (others : ∀ f ∈ fields, f.1.map Header.lower ≠ name) : Client.lookup name fields = none := by
  rw [← List.append_nil fields, lookup_behind others]
  rfl

/-- The names of the headers in front of the one which tells the length. -/
def frontNames : List (List Byte) :=
  [text "server", text "content-type", text "access-control-allow-origin", text "date"]

theorem frontFields_names (r : ResponseHead) (tm : Tm) :
    ∀ f ∈ r.frontFields tm, f.1.map Header.lower ∈ frontNames := by
  have names : ∀ name ∈ [text "Server", text "Content-Type", text "Access-Control-Allow-Origin",
      text "Date"], name.map Header.lower ∈ frontNames := by decide +kernel
  intro f member
  refine names _ ?_
  simp only [frontFields, corsFields, List.mem_cons, List.mem_append, List.not_mem_nil,
    or_false] at member
  rcases member with rfl | rfl | cors | rfl
  · simp
  · simp
  · split at cors
    · rw [List.mem_singleton.mp cors]
      simp
    · cases cors
  · simp

theorem frontFields_silent (r : ResponseHead) (tm : Tm) :
    ∀ f ∈ r.frontFields tm, Client.Silent f := by
  have names : ∀ name ∈ frontNames,
      name ≠ text "content-length" ∧ name ≠ text "transfer-encoding" := by decide
  exact fun f member => names _ (frontFields_names r tm f member)

theorem lengthField_name (r : ResponseHead) :
    r.lengthField.1.map Header.lower ∈ [text "content-length", text "transfer-encoding"] := by
  have names : ∀ name ∈ [text "Content-Length", text "Transfer-Encoding"],
      name.map Header.lower ∈ [text "content-length", text "transfer-encoding"] := by decide +kernel
  refine names _ ?_
  unfold lengthField
  split <;> simp

/-- Another header is looked for among the extra ones. -/
theorem lookup_fields {name : List Byte}
    (other : name ∉ frontNames ++ [text "content-length", text "transfer-encoding"])
    (r : ResponseHead) (tm : Tm) (maxHeadersLength : Nat) :
    Client.lookup name (r.fields tm maxHeadersLength) =
      Client.lookup name ((r.keptHeaders maxHeadersLength).map ExtraHeader.field) := by
  rw [fields, List.append_cons]
  refine lookup_behind (fun f member same => other ?_) _
  rw [← same]
  rcases List.mem_append.mp member with member | member
  · exact List.mem_append_left _ (frontFields_names r tm f member)
  · rw [List.mem_singleton.mp member]
    exact List.mem_append_right _ r.lengthField_name

/-- The header which the connection writes for all origins comes first. -/
theorem lookup_allowOrigin (r : ResponseHead) (tm : Tm) (maxHeadersLength : Nat) :
    Client.lookup (text "access-control-allow-origin") (r.fields tm maxHeadersLength) =
      if r.writeCORSHeaders then some (text "*")
      else Client.lookup (text "access-control-allow-origin")
        ((r.keptHeaders maxHeadersLength).map ExtraHeader.field) := by
  have others : ∀ name ∈ [text "Server", text "Content-Type", text "Date", text "Content-Length",
      text "Transfer-Encoding"],
      name.map Header.lower ≠ text "access-control-allow-origin" := by decide +kernel
  have length : r.lengthField.1.map Header.lower ≠ text "access-control-allow-origin" := by
    unfold lengthField
    split <;> exact others _ (by simp)
  cases cors : r.writeCORSHeaders with
  | true =>
      have found : (text "Access-Control-Allow-Origin").map Header.lower =
          text "access-control-allow-origin" := by decide +kernel
      have split : r.fields tm maxHeadersLength =
          [(text "Server", Header.cString r.serverName), (text "Content-Type", r.contentTypeValue)] ++
            (text "Access-Control-Allow-Origin", text "*") :: (text "Date", Header.dateText tm) ::
              r.lengthField :: (r.keptHeaders maxHeadersLength).map ExtraHeader.field := by
        rw [fields, frontFields, corsFields, cors]
        rfl
      rw [split, lookup_found (fun f member => ?_) found]
      · rfl
      · simp only [List.mem_cons, List.not_mem_nil, or_false] at member
        rcases member with rfl | rfl <;> exact others _ (by simp)
  | false =>
      have split : r.fields tm maxHeadersLength = [(text "Server", Header.cString r.serverName),
          (text "Content-Type", r.contentTypeValue), (text "Date", Header.dateText tm),
          r.lengthField] ++ (r.keptHeaders maxHeadersLength).map ExtraHeader.field := by
        rw [fields, frontFields, corsFields, cors]
        rfl
      rw [split, lookup_behind fun f member => ?_]
      · rfl
      · simp only [List.mem_cons, List.not_mem_nil, or_false] at member
        rcases member with rfl | rfl | rfl | rfl
        · exact others _ (by simp)
        · exact others _ (by simp)
        · exact others _ (by simp)
        · exact length

theorem lookup_contentType (r : ResponseHead) (tm : Tm) (maxHeadersLength : Nat) :
    Client.lookup (text "content-type") (r.fields tm maxHeadersLength) =
      some r.contentTypeValue := by
  have type : (text "Content-Type").map Header.lower = text "content-type" := by decide +kernel
  have server : (text "Server").map Header.lower ≠ text "content-type" := by decide +kernel
  have front : ∀ f ∈ [(text "Server", Header.cString r.serverName)],
      f.1.map Header.lower ≠ text "content-type" := List.forall_mem_singleton.mpr server
  exact lookup_found front type _

theorem extraFields_silent (clean : r.Clean) (maxHeadersLength : Nat) :
    ∀ f ∈ (r.keptHeaders maxHeadersLength).map ExtraHeader.field, Client.Silent f := by
  intro f member
  obtain ⟨h, inside, rfl⟩ := List.mem_map.mp member
  exact (clean.headers h ((HeaderWriter.kept_sublist _ _ _).subset inside)).other

theorem lookup_lengthField (clean : r.Clean) (tm : Tm) (maxHeadersLength : Nat) {name : List Byte}
    (other : ∀ f, Client.Silent f → f.1.map Header.lower ≠ name) :
    Client.lookup name (r.fields tm maxHeadersLength) =
      if r.lengthField.1.map Header.lower = name then some r.lengthField.2 else none := by
  have front : ∀ f ∈ r.frontFields tm, f.1.map Header.lower ≠ name :=
    fun f member => other f (frontFields_silent r tm f member)
  have extra : ∀ f ∈ (r.keptHeaders maxHeadersLength).map ExtraHeader.field,
      f.1.map Header.lower ≠ name :=
    fun f member => other f (extraFields_silent clean maxHeadersLength f member)
  split
  · rename_i found
    exact lookup_found front found _
  · rename_i differs
    refine lookup_missing fun f member => ?_
    rcases List.mem_append.mp member with member | member
    · exact front f member
    · rcases List.mem_cons.mp member with rfl | member
      · exact differs
      · exact extra f member

theorem lookup_contentLength (clean : r.Clean) (tm : Tm) (maxHeadersLength : Nat) :
    Client.lookup (text "content-length") (r.fields tm maxHeadersLength) =
      if r.respLength ≠ 18446744073709551615 then some (decimalDigits r.respLength.toNat)
      else none := by
  have here : (text "Content-Length").map Header.lower = text "content-length" := by decide
  have other : (text "Transfer-Encoding").map Header.lower ≠ text "content-length" := by decide
  rw [lookup_lengthField clean tm maxHeadersLength fun f silent => silent.1, lengthField]
  split <;> rfl

theorem lookup_transferEncoding (clean : r.Clean) (tm : Tm) (maxHeadersLength : Nat) :
    Client.lookup (text "transfer-encoding") (r.fields tm maxHeadersLength) =
      if r.respLength ≠ 18446744073709551615 then none else some (text "chunked") := by
  have here : (text "Transfer-Encoding").map Header.lower = text "transfer-encoding" := by decide
  have other : (text "Content-Length").map Header.lower ≠ text "transfer-encoding" := by decide
  rw [lookup_lengthField clean tm maxHeadersLength fun f silent => silent.2, lengthField]
  split <;> rfl

/-- The client finds the body which the header block tells of. -/
theorem readBody_coded (clean : r.Clean) (tm : Tm) (maxHeadersLength : Nat)
    {coded body : List Byte} (codes : r.Codes coded body) (rest : List Byte) :
    Client.readBody (r.fields tm maxHeadersLength) (coded ++ rest) = some (body, rest) := by
  have length := lookup_contentLength clean tm maxHeadersLength
  have coding := lookup_transferEncoding clean tm maxHeadersLength
  unfold Codes at codes
  split at codes
  · rename_i known
    obtain ⟨rfl, whole⟩ := codes
    rw [if_pos known] at length coding
    have value : Header.decimal (decimalDigits r.respLength.toNat) = coded.length :=
      (Int.natCast_inj.mp (Header.decimalDigits_tells _).value).trans whole.symm
    simp only [Client.readBody, coding, length, Option.bind_some, value]
    rw [if_pos (by rw [List.length_append]; omega), List.take_left, List.drop_left]
  · rename_i unknown
    obtain ⟨blocks, each, rfl, rfl⟩ := codes
    rw [if_neg unknown] at coding
    simp only [Client.readBody, coding, if_true]
    exact ChunkedCoding.decodeBody_behind (fun block inside => (each block inside).1)
      (fun block inside => (each block inside).2) rest

/-! ## The response -/

/-- The lines of the block, and what is behind them. -/
theorem readResponse_block (clean : r.Clean) {tm : Tm} (proper : Header.Proper tm)
    (maxHeadersLength : Nat) (rest : List Byte) :
    Client.readResponse (block cr lf (r.lines tm maxHeadersLength) ++ rest) =
      if Client.bodiless r.respCode.toNat then
        some (⟨r.respCode.toNat, r.fields tm maxHeadersLength, []⟩, rest)
      else
        (Client.readBody (r.fields tm maxHeadersLength) rest).map fun b =>
          (⟨r.respCode.toNat, r.fields tm maxHeadersLength, b.1⟩, b.2) := by
  have enough : (r.lines tm maxHeadersLength).length <
      (block cr lf (r.lines tm maxHeadersLength) ++ rest).length := by
    have length := block_length cr lf (r.lines tm maxHeadersLength)
    rw [List.length_append]
    omega
  have taken : takeBlock cr lf _ (block cr lf (r.lines tm maxHeadersLength) ++ rest) = _ :=
    takeBlock_block (lines_clean clean proper maxHeadersLength) enough rest
  have head : (r.lines tm maxHeadersLength).head? = some r.statusLine := rfl
  have split := mapM_splitField (fields_clean clean proper maxHeadersLength)
  have tail : (r.lines tm maxHeadersLength).tail = (r.fields tm maxHeadersLength).map fieldLine := rfl
  have code := readCode_statusLine clean
  unfold Client.readResponse
  rw [taken, Option.bind_eq_bind, Option.bind_some]
  dsimp only
  rw [head, Option.bind_eq_bind, Option.bind_some, code, Option.bind_eq_bind, Option.bind_some,
    tail, split, Option.bind_eq_bind, Option.bind_some]
  split
  · rfl
  · rw [Option.bind_eq_bind, Option.map_eq_bind]
    rfl

theorem readResponse_coded (clean : r.Clean) {tm : Tm} (proper : Header.Proper tm)
    (maxHeadersLength : Nat) (bodied : Client.bodiless r.respCode.toNat = false)
    {coded body : List Byte} (codes : r.Codes coded body) (rest : List Byte) :
    Client.readResponse (block cr lf (r.lines tm maxHeadersLength) ++ coded ++ rest) =
      some (⟨r.respCode.toNat, r.fields tm maxHeadersLength, body⟩, rest) := by
  rw [List.append_assoc, readResponse_block clean proper, bodied,
    readBody_coded clean tm maxHeadersLength codes]
  rfl

theorem readResponse_short {line : List Byte} (some_ : line ≠ []) (none_ : cr ∉ line)
    (short : line.length < 9) (rest : List Byte) :
    Client.readResponse (line ++ ([cr, lf] ++ rest)) = none := by
  have code : Client.readCode line = none := by
    refine if_neg fun same => ?_
    have length := congrArg List.length same
    have version : (text "HTTP/1.1 ").length = 9 := rfl
    rw [version, List.length_take] at length
    omega
  obtain ⟨n, fuel⟩ : ∃ n, (line ++ ([cr, lf] ++ rest)).length = n + 1 := by
    refine Nat.exists_eq_succ_of_ne_zero ?_
    simp only [List.length_append, List.length_cons]
    omega
  unfold Client.readResponse
  rw [fuel, takeBlock, takeLine_line none_, Option.bind_some, if_neg some_]
  cases takeBlock cr lf n rest with
  | none => rfl
  | some lines =>
      rw [Option.map_some, Option.bind_eq_bind, Option.bind_some]
      dsimp only
      rw [List.head?_cons, Option.bind_eq_bind, Option.bind_some, code]
      rfl

/-- What is behind the header block of a response in the chunked coding does not begin another
    response. -/
theorem readResponse_chunks (unknown : r.respLength = 18446744073709551615)
    {coded body : List Byte} (codes : r.Codes coded body) (rest : List Byte) :
    Client.readResponse (coded ++ rest) = none := by
  rw [Codes, if_neg (not_not_intro unknown)] at codes
  obtain ⟨blocks, -, rfl, -⟩ := codes
  cases blocks with
  | nil =>
      have last : cr ∉ text "0" := by decide
      exact readResponse_short (List.cons_ne_nil _ _) last (by decide) ([cr, lf] ++ rest)
  | cons block blocks =>
      have length := ChunkedCoding.hexDigits_length 8 block.length
      rw [List.flatMap_cons, ChunkedCoding.chunk]
      simp only [List.append_assoc]
      refine readResponse_short (fun empty => ?_) (ChunkedCoding.cr_of_hexDigits 8 _)
        (by rw [length]; decide) _
      rw [empty] at length
      cases length

end ResponseHead

end MiniWebSrv.HTTP
