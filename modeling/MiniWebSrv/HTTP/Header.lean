import MiniWebSrv.Common.Bytes
import Mathlib.Data.List.TakeWhile

/-! # Header lines

`HTTP::Header`. A header line is parsed in place: its name is put into lower case, and a NUL
byte overwrites the colon and the CR, which makes C strings of the name and the value. Here a
line goes in as a list of bytes and comes out as the list of the same length which the parser
leaves behind; where the line lies is the caller's business.
-/

namespace MiniWebSrv.HTTP

inductive HeaderName where
  | unknown
  | host
  | connection
  | contentDisposition
  | contentType
  | contentLength
  | contentEncoding
  | userAgent
  | ifModSince
  | origin
  | upgrade
  | secWebSocketKey
  | secWebSocketVersion
  | secWebSocketProtocol
  | lastModified
  | location
  | secWebSocketAccept
  | accessControlRequestMethod
  | accessControlRequestHeaders
  deriving DecidableEq, Repr

inductive ContentType where
  | unknown
  | urlEncoded
  | formMultipart
  deriving DecidableEq, Repr

namespace Header

def getHeaderName : HeaderName → List Byte
  | .unknown => []
  | .host => text "host"
  | .connection => text "connection"
  | .contentDisposition => text "content-disposition"
  | .contentType => text "content-type"
  | .contentLength => text "content-length"
  | .contentEncoding => text "content-encoding"
  | .userAgent => text "user-agent"
  | .ifModSince => text "if-modified-since"
  | .origin => text "origin"
  | .upgrade => text "upgrade"
  | .secWebSocketKey => text "sec-websocket-key"
  | .secWebSocketVersion => text "sec-websocket-version"
  | .secWebSocketProtocol => text "sec-websocket-protocol"
  | .lastModified => text "last-modified"
  | .location => text "location"
  | .secWebSocketAccept => text "sec-websocket-accept"
  | .accessControlRequestMethod => text "access-control-request-method"
  | .accessControlRequestHeaders => text "access-control-request-headers"

/-- The enumerators between `HN_UNKNOWN` and `HN_NOTUSED`, which `InitHeaderNameMap` adds. -/
def headerNames : List HeaderName :=
  [.host, .connection, .contentDisposition, .contentType, .contentLength, .contentEncoding,
    .userAgent, .ifModSince, .origin, .upgrade, .secWebSocketKey, .secWebSocketVersion,
    .secWebSocketProtocol, .lastModified, .location, .secWebSocketAccept,
    .accessControlRequestMethod, .accessControlRequestHeaders]

def parseHeader (name : List Byte) : HeaderName :=
  (headerNames.find? fun n => getHeaderName n = name).getD .unknown

/-- What a pointer to these bytes is worth as a C string. -/
def cString (bytes : List Byte) : List Byte := bytes.takeWhile (· ≠ 0)

def lower (c : Byte) : Byte := if ch 'A' ≤ c ∧ c ≤ ch 'Z' then c - ch 'A' + ch 'a' else c

/-! ## ExtractHeader -/

/-- The first loop: the name with the NUL which replaces its colon, and the rest of the line. -/
def extractName : List Byte → List Byte × List Byte
  | [] => ([], [])
  | c :: rest =>
      if c = ch ':' then
        ([0], rest)
      else
        (lower c :: (extractName rest).1, (extractName rest).2)

/-- The third loop: a NUL replaces the first CR, if there is one. -/
def endValue : List Byte → Option (List Byte)
  | [] => none
  | c :: rest => if c = cr then some (0 :: rest) else (endValue rest).map (c :: ·)

/-- A line after `ExtractHeader`. -/
structure Extracted where
  line : List Byte
  /-- The offset of `*OutValue`, if it is not null; `*OutName` is the start of the line. -/
  value : Option Nat
  /-- Whether the result is not null. -/
  complete : Bool

def extractHeader (line : List Byte) : Extracted :=
  let name := (extractName line).1
  let spaces := (extractName line).2.takeWhile (· = ch ' ')
  let value := (extractName line).2.dropWhile (· = ch ' ')
  match value with
  | [] => ⟨name ++ spaces, none, false⟩
  | _ :: _ =>
      match endValue value with
      | some ended => ⟨name ++ spaces ++ ended, some (name.length + spaces.length), true⟩
      | none => ⟨name ++ spaces ++ value, some (name.length + spaces.length), false⟩

/-- The `IntName` which the constructor gives a header. -/
def lineName (line : List Byte) : HeaderName :=
  if (extractHeader line).complete then
    parseHeader (cString (extractHeader line).line)
  else
    .unknown

/-- The string which `Value` points to. -/
def lineValue (line : List Byte) : Option (List Byte) :=
  (extractHeader line).value.map fun offset => cString ((extractHeader line).line.drop offset)

/-! ### Known headers -/

theorem extractName_length (line : List Byte) :
    (extractName line).1.length + (extractName line).2.length = line.length := by
  fun_induction extractName line with
  | case1 => rfl
  | case2 rest => simp only [List.length_cons, List.length_nil]; omega
  | case3 c rest other ih => simp only [List.length_cons]; omega

theorem extractName_ended {line : List Byte} (more : (extractName line).2 ≠ []) :
    0 ∈ (extractName line).1 := by
  fun_induction extractName line with
  | case1 => exact absurd rfl more
  | case2 rest => exact List.mem_singleton_self 0
  | case3 c rest other ih => exact List.mem_cons_of_mem _ (ih more)

theorem endValue_some {value ended : List Byte} (found : endValue value = some ended) :
    ended.length = value.length ∧ 0 ∈ ended := by
  induction value generalizing ended with
  | nil => cases found
  | cons c rest ih =>
      simp only [endValue] at found
      split at found
      · obtain rfl := Option.some.inj found
        exact ⟨rfl, List.mem_cons_self⟩
      · obtain ⟨tail, inner, rfl⟩ := Option.map_eq_some_iff.mp found
        obtain ⟨length, zero⟩ := ih inner
        exact ⟨by simp only [List.length_cons, length], List.mem_cons_of_mem _ zero⟩

theorem extractHeader_length (line : List Byte) :
    (extractHeader line).line.length = line.length := by
  have whole := extractName_length line
  have rest := congrArg List.length
    (List.takeWhile_append_dropWhile (p := (· = ch ' ')) (l := (extractName line).2))
  simp only [List.length_append] at rest
  simp only [extractHeader]
  split
  · rename_i none_
    simp only [none_, List.length_nil] at rest
    simp only [List.length_append]
    omega
  · split
    · rename_i ended found
      have length := (endValue_some found).1
      simp only [List.length_append]
      omega
    · simp only [List.length_append]
      omega

theorem extractHeader_complete {line : List Byte} (complete : (extractHeader line).complete = true) :
    ∃ name spaces value ended, extractName line = (name, spaces ++ value) ∧ value ≠ [] ∧
      endValue value = some ended ∧
      extractHeader line = ⟨name ++ spaces ++ ended, some (name.length + spaces.length), true⟩ := by
  have rest := List.takeWhile_append_dropWhile (p := (· = ch ' ')) (l := (extractName line).2)
  simp only [extractHeader] at complete ⊢
  split at complete
  · cases complete
  · rename_i c tail value
    split at complete
    · rename_i ended found
      refine ⟨(extractName line).1, _, _, ended, Prod.ext rfl rest.symm, ?_, found, rfl⟩
      rw [value]
      exact List.cons_ne_nil _ _
    · cases complete

/-- The name and the value of a known header are C strings inside its line. -/
theorem extractHeader_known {line : List Byte} (known : lineName line ≠ .unknown) :
    0 ∈ (extractHeader line).line ∧ ∃ offset, (extractHeader line).value = some offset ∧
      offset ≤ line.length ∧ 0 ∈ (extractHeader line).line.drop offset := by
  have complete : (extractHeader line).complete = true := by
    by_contra incomplete
    exact known (by simp only [lineName, incomplete, Bool.false_eq_true, if_false])
  have length := extractHeader_length line
  obtain ⟨name, spaces, value, ended, split_, some_, found, same⟩ := extractHeader_complete complete
  have nameEnded : 0 ∈ name := by
    have more : (extractName line).2 ≠ [] := by rw [split_]; simp [some_]
    have ended := extractName_ended more
    rwa [split_] at ended
  rw [same] at length ⊢
  simp only [List.length_append] at length
  refine ⟨by simp [nameEnded], _, rfl, by omega, ?_⟩
  rw [← List.length_append, List.drop_left' rfl]
  exact (endValue_some found).2

/-! ### Lines as they should be -/

theorem cString_ended {string rest : List Byte} (noNul : 0 ∉ string) :
    cString (string ++ 0 :: rest) = string := by
  rw [cString, List.takeWhile_append_of_pos, List.takeWhile_cons_of_neg (by simp), List.append_nil]
  intro c inside
  simp only [decide_eq_true_eq]
  rintro rfl
  exact noNul inside

theorem extractName_colon {name rest : List Byte} (noColon : ch ':' ∉ name) :
    extractName (name ++ ch ':' :: rest) = (name.map lower ++ [0], rest) := by
  induction name with
  | nil => simp [extractName]
  | cons c name ih =>
      simp only [List.mem_cons, not_or] at noColon
      rw [List.cons_append, extractName, if_neg (Ne.symm noColon.1), ih noColon.2]
      rfl

theorem endValue_cr {value rest : List Byte} (noCR : cr ∉ value) :
    endValue (value ++ cr :: rest) = some (value ++ 0 :: rest) := by
  induction value with
  | nil => rfl
  | cons c value ih =>
      simp only [List.mem_cons, not_or] at noCR
      rw [List.cons_append, endValue, if_neg (Ne.symm noCR.1), ih noCR.2]
      rfl

/-- A name, a colon, spaces and a value. -/
theorem extractHeader_line {name value : List Byte} (spaces : Nat) (noColon : ch ':' ∉ name)
    (noSpace : value.head? ≠ some (ch ' ')) (noCR : cr ∉ value) :
    extractHeader (name ++ ch ':' :: (List.replicate spaces (ch ' ') ++ (value ++ [cr]))) =
      ⟨name.map lower ++ [0] ++ List.replicate spaces (ch ' ') ++ (value ++ [0]),
        some (name.length + 1 + spaces), true⟩ := by
  have spacesOnly : ∀ c ∈ List.replicate spaces (ch ' '), decide (c = ch ' ') = true := by
    intro c inside
    rw [List.eq_of_mem_replicate inside]
    rfl
  obtain ⟨c, rest, same, stops⟩ : ∃ c rest, value ++ [cr] = c :: rest ∧
      ¬decide (c = ch ' ') = true := by
    cases value with
    | nil => exact ⟨cr, [], rfl, by decide⟩
    | cons b value =>
        refine ⟨b, value ++ [cr], rfl, fun space => noSpace ?_⟩
        rw [List.head?_cons, of_decide_eq_true space]
  have front : (List.replicate spaces (ch ' ') ++ (value ++ [cr])).takeWhile (· = ch ' ') =
      List.replicate spaces (ch ' ') := by
    rw [List.takeWhile_append_of_pos spacesOnly, same,
      List.takeWhile_cons_of_neg (p := fun x => decide (x = ch ' ')) stops, List.append_nil]
  have back : (List.replicate spaces (ch ' ') ++ (value ++ [cr])).dropWhile (· = ch ' ') =
      value ++ [cr] := by
    rw [List.dropWhile_append_of_pos spacesOnly, same,
      List.dropWhile_cons_of_neg (p := fun x => decide (x = ch ' ')) stops]
  simp only [extractHeader, extractName_colon noColon, front, back]
  rw [same]
  simp only
  rw [← same, endValue_cr noCR]
  simp only [List.length_append, List.length_map, List.length_singleton, List.length_replicate]

theorem lower_nul {c : Byte} (noNul : c ≠ 0) : lower c ≠ 0 := by
  have all : ∀ n : Fin 256, UInt8.ofFin n ≠ 0 → lower (UInt8.ofFin n) ≠ 0 := by decide +kernel
  exact all c.toFin noNul

/-- The name of such a line, and its value. -/
theorem lineName_line {name value : List Byte} (spaces : Nat) (noColon : ch ':' ∉ name)
    (nameNul : 0 ∉ name) (noSpace : value.head? ≠ some (ch ' ')) (noCR : cr ∉ value) :
    lineName (name ++ ch ':' :: (List.replicate spaces (ch ' ') ++ (value ++ [cr]))) =
      parseHeader (name.map lower) := by
  have noNul : 0 ∉ name.map lower := by
    intro inside
    obtain ⟨c, there, zero⟩ := List.mem_map.mp inside
    exact lower_nul (fun same => nameNul (same ▸ there)) zero
  simp only [lineName, extractHeader_line spaces noColon noSpace noCR, if_true]
  rw [List.append_assoc, List.append_assoc, List.singleton_append, cString_ended noNul]

theorem lineValue_line {name value : List Byte} (spaces : Nat) (noColon : ch ':' ∉ name)
    (noSpace : value.head? ≠ some (ch ' ')) (noCR : cr ∉ value) (valueNul : 0 ∉ value) :
    lineValue (name ++ ch ':' :: (List.replicate spaces (ch ' ') ++ (value ++ [cr]))) =
      some value := by
  simp only [lineValue, extractHeader_line spaces noColon noSpace noCR, Option.map_some]
  rw [List.drop_left' (by simp only [List.length_append, List.length_map, List.length_singleton,
    List.length_replicate]), cString_ended valueNul]

/-! ## ParseDelimitedKeyValue -/

def isWS (c : Byte) : Bool := c = cr ∨ c = lf ∨ c = ch ' ' ∨ c = 9

def isNewLine (c : Byte) : Bool := c = cr ∨ c = lf

inductive ParseState where
  | zero
  | key
  | sepSearch
  | valSearch
  | val
  | quotedVal
  deriving DecidableEq, Repr

/-- The state of the loop: the bytes between the saved pointers, and the calls of `Consumer`
    so far. A value is `none` where the consumer gets null pointers. -/
structure KeyValueParser where
  state : ParseState := .zero
  key : List Byte := []
  value : List Byte := []
  consumed : List (List Byte × Option (List Byte)) := []

namespace KeyValueParser

def consume (p : KeyValueParser) (value : Option (List Byte)) : KeyValueParser :=
  { p with state := .zero, consumed := p.consumed ++ [(p.key, value)] }

def step (p : KeyValueParser) (c : Byte) : KeyValueParser :=
  match p.state with
  | .zero => if isWS c = false ∧ c ≠ ch ';' then { p with state := .key, key := [c] } else p
  | .key =>
      if isWS c then { p with state := .sepSearch }
      else if c = ch '=' then { p with state := .valSearch }
      else if c = ch ';' then p.consume none
      else { p with key := p.key ++ [c] }
  | .sepSearch =>
      if c = ch '=' then { p with state := .valSearch }
      else if c = ch ';' then p.consume none
      else if isWS c then p
      else { p with state := .key, key := [c] }
  | .valSearch =>
      if isWS c = false then
        if c = ch '"' then { p with state := .quotedVal, value := [] }
        else { p with state := .val, value := [c] }
      else if isNewLine c then p.consume (some [])
      else p
  | .val =>
      if isWS c ∨ c = ch ';' then p.consume (some p.value)
      else { p with value := p.value ++ [c] }
  | .quotedVal =>
      if c = ch '"' then p.consume (some p.value)
      else { p with value := p.value ++ [c] }

/-- The value which the end of the string cuts off. -/
def finish (p : KeyValueParser) : KeyValueParser :=
  match p.state with
  | .val => p.consume (some p.value)
  | .quotedVal => p.consume (some p.value)
  | _ => p

end KeyValueParser

/-- The calls of `Consumer`, in their order. -/
def parseDelimitedKeyValue (source : List Byte) : List (List Byte × Option (List Byte)) :=
  (source.foldl KeyValueParser.step {}).finish.consumed

/-- `SingleKeyExtractor`: the last value of the key, or what the target held before. -/
def singleKeyExtractor (key target : List Byte)
    (consumed : List (List Byte × Option (List Byte))) : List Byte :=
  consumed.foldl (fun target item =>
    match item.2 with
    | some value => if item.1 = key then value else target
    | none => target) target

/-- What `ParseContentDisposition` finds out. -/
structure Disposition where
  name : List Byte
  fileName : List Byte
  fileNameExists : Bool
  deriving DecidableEq, Repr

/-- `ContentDisposExtractor::operator()` -/
def Disposition.extract (d : Disposition) (item : List Byte × Option (List Byte)) : Disposition :=
  match item.2 with
  | some value =>
      if item.1 = text "name" then { d with name := value }
      else if item.1 = text "filename" then { d with fileName := value, fileNameExists := true }
      else d
  | none => d

/-- `ParseContentDisposition` on a header with that name; `OutFileNameExists` is false at
    first, but the two strings keep what they hold when the header does not name them. -/
def parseContentDisposition (value : List Byte) (d : Disposition) : Disposition :=
  (parseDelimitedKeyValue value).foldl Disposition.extract { d with fileNameExists := false }

/-! ## Values -/

/-- `GetContentType` of a header with that name, and what becomes of `OutBoundary`. -/
def getContentType (value outBoundary : List Byte) : ContentType × List Byte :=
  if ch ';' ∈ value then
    let type := (value.takeWhile (· ≠ ch ';')).map lower
    if type = text "multipart/form-data" then
      let boundary := singleKeyExtractor (text "boundary") []
        (parseDelimitedKeyValue (value.dropWhile (· ≠ ch ';')))
      (if boundary ≠ [] then .formMultipart else .unknown, boundary)
    else if type = text "application/x-www-form-urlencoded" then
      (.urlEncoded, outBoundary)
    else
      (.unknown, outBoundary)
  else if value.map lower = text "application/x-www-form-urlencoded" then
    (.urlEncoded, outBoundary)
  else
    (.unknown, outBoundary)

def isDigit (c : Byte) : Bool := ch '0' ≤ c ∧ c ≤ ch '9'

def isSpace (c : Byte) : Bool := c = ch ' ' ∨ (9 ≤ c ∧ c ≤ 13)

/-- The value of decimal digits. -/
def decimal (digits : List Byte) : Nat :=
  digits.foldl (fun n c => 10 * n + (c - ch '0').toNat) 0

/-- `strtoull(Value,&EndPtr,10)`, which gives the largest number on an overflow and negates the
    number after a minus sign; `none` where the source throws for want of digits. -/
def getULongLong (value : List Byte) : Option Nat :=
  let start := value.dropWhile isSpace
  let digits := (match start with
    | c :: rest => if c = ch '-' ∨ c = ch '+' then rest else start
    | [] => []).takeWhile isDigit
  if digits = [] then
    none
  else if 18446744073709551616 ≤ decimal digits then
    some 18446744073709551615
  else if start.head? = some (ch '-') then
    some ((18446744073709551616 - decimal digits) % 18446744073709551616)
  else
    some (decimal digits)

end Header

end MiniWebSrv.HTTP
