import MiniWebSrv.HTTP.DateTime
import MiniWebSrv.HTTP.ReadContract
import MiniWebSrv.Lib.Run

/-! # The header block of a response

What `ResponseHandler` does between `Allocate` and `Commit`. It prints the headers into the
allocation one behind the other, and advances by the length which a header would have if there
were room for it. The room ends two bytes before the allocation does; the date is printed without
a look at it. A store outside of the allocation has no result.
-/

namespace MiniWebSrv.HTTP

open Word Run Responding RespSource

/-- `GetResponseName` -/
def getResponseName : Nat → List Byte
  | 200 => text "OK"
  | 301 => text "MovedPermanently"
  | 302 => text "Found"
  | 303 => text "SeeOther"
  | 304 => text "NotModified"
  | 401 => text "Unauthorized"
  | 403 => text "YouShallNotPass"
  | 404 => text "NotFound"
  | 500 => text "ServerError"
  | _ => text "Whatever"

/-- A header which `GetExtraHeader` gives out: the bytes between its pointers. -/
structure ExtraHeader where
  name : List Byte
  value : List Byte
  deriving DecidableEq, Repr

namespace ExtraHeader

/-- `NameLen` and `ValueLen`, with the two separators. -/
def lineLength (h : ExtraHeader) : Nat := u32 h.name.length + u32 h.value.length + 2 + 2

/-- The bytes which are copied. -/
def line (h : ExtraHeader) : List Byte :=
  h.name.take (u32 h.name.length) ++ text ": " ++ h.value.take (u32 h.value.length) ++ [cr, lf]

theorem line_length (h : ExtraHeader) : h.line.length = h.lineLength := by
  have name : u32 h.name.length ≤ h.name.length := Nat.mod_le _ _
  have value : u32 h.value.length ≤ h.value.length := Nat.mod_le _ _
  have separator : (text ": ").length = 2 := rfl
  simp only [line, lineLength, List.length_append, List.length_take, separator, List.length_cons,
    List.length_nil]
  omega

theorem lines_length (headers : List ExtraHeader) :
    (headers.flatMap line).length = (headers.map lineLength).sum := by
  simp only [List.length_flatMap, line_length]

end ExtraHeader

/-- What the header block is made of. -/
structure ResponseHead where
  serverName : List Byte
  respCode : UInt32
  contentType : List Byte
  contentTypeCharset : Option (List Byte)
  /-- `HandleCORS() && WriteCORSHeaders` -/
  writeCORSHeaders : Bool
  currTime : Int
  respLength : UInt64
  /-- The results of `GetExtraHeader`, `none` where it is false. -/
  extraHeaders : List (Option ExtraHeader)
  deriving DecidableEq, Repr

namespace ResponseHead

/-- The first format, with the code as an `int`. -/
def statusLines (r : ResponseHead) : List Byte :=
  text "HTTP/1.1 " ++ Header.decimalInt ((r.respCode.toNat : Int).bmod 4294967296) ++ text " " ++
    getResponseName r.respCode.toNat ++ [cr, lf] ++ text "Server: " ++
    Header.cString r.serverName ++ [cr, lf]

def contentTypeLine (r : ResponseHead) : List Byte :=
  match r.contentTypeCharset with
  | some encodingStr =>
      text "Content-Type: " ++ Header.cString r.contentType ++ text "; charset=\"" ++
        Header.cString encodingStr ++ text "\"" ++ [cr, lf]
  | none => text "Content-Type: " ++ Header.cString r.contentType ++ [cr, lf]

def corsLine : List Byte := text "Access-Control-Allow-Origin: *" ++ [cr, lf]

def dateLine (tm : Tm) : List Byte := text "Date: " ++ Header.dateText tm ++ [cr, lf]

def lengthLine (r : ResponseHead) : List Byte :=
  if r.respLength ≠ 18446744073709551615 then
    text "Content-Length: " ++ decimalDigits r.respLength.toNat ++ [cr, lf]
  else
    text "Transfer-Encoding: chunked" ++ [cr, lf]

end ResponseHead

/-- The allocation, with `CurrPos` as an offset into it. -/
structure HeaderWriter where
  buff : List Byte
  currPos : Nat
  deriving DecidableEq, Repr

namespace HeaderWriter

/-- Two bytes before the end of the allocation, which has no fewer. -/
def currPosEnd (w : HeaderWriter) : Nat := w.buff.length - 2

/-- `CurrPosEnd-CurrPos` as a `size_t` -/
def room (w : HeaderWriter) : Nat :=
  (((w.currPosEnd : Int) - w.currPos) % 18446744073709551616).toNat

/-- A store at `CurrPos`. -/
def store (w : HeaderWriter) (data : List Byte) : Option (List Byte) :=
  if data = [] then some w.buff
  else if w.currPos + data.length ≤ w.buff.length then some (storeAt w.currPos data w.buff)
  else none

/-- `CurrPos+=snprintf(CurrPos,CurrPosEnd-CurrPos,…)`. A text which is longer than an `int` can tell
    is an error, and has no result here. -/
def print (w : HeaderWriter) (line : List Byte) : Option HeaderWriter :=
  if line.length ≤ 2147483647 then
    (w.store (snprintf w.room line).1).map fun buff => ⟨buff, w.currPos + line.length⟩
  else
    none

/-- The CORS header, if it is to be written. -/
def printCORS (w : HeaderWriter) (writeCORSHeaders : Bool) : Option HeaderWriter :=
  if writeCORSHeaders then w.print ResponseHead.corsLine else some w

/-- `CurrPos+=strftime(CurrPos,40,…)`; a date which is too long for the 40 bytes leaves them
    undefined. -/
def printDate (w : HeaderWriter) (currTime : Int) : Option HeaderWriter :=
  match TimeUtils.gmTime currTime with
  | some tm =>
      let line := ResponseHead.dateLine tm
      if line.length < 40 then
        (w.store (line ++ [0])).map fun buff => ⟨buff, w.currPos + line.length⟩
      else
        none
  | none => some w

/-- A turn of the loop over the extra headers. The lengths are compared as `unsigned int`s. -/
def addHeader (w : HeaderWriter) (header : Option ExtraHeader) : Option HeaderWriter :=
  match header with
  | some header =>
      if u32 header.lineLength < u32 w.room then
        (w.store header.line).map fun buff => ⟨buff, w.currPos + header.lineLength⟩
      else
        some w
  | none => some w

/-- The bytes which are committed. -/
def committed (w : HeaderWriter) : List Byte := w.buff.take (u32 w.currPos)

end HeaderWriter

/-- The whole block, in an allocation of `MaxHeadersLength` bytes. -/
def ResponseHead.write (r : ResponseHead) (buff : List Byte) : Option HeaderWriter := do
  let w ← HeaderWriter.print ⟨buff, 0⟩ r.statusLines
  let w ← w.print r.contentTypeLine
  let w ← w.printCORS r.writeCORSHeaders
  let w ← w.printDate r.currTime
  let w ← w.print r.lengthLine
  let w ← exec HeaderWriter.addHeader w r.extraHeaders
  w.print [cr, lf]

/-! ## Stores -/

namespace HeaderWriter

variable {w v : HeaderWriter} {line data buff done : List Byte}

theorem room_inside (inside : w.currPos ≤ w.currPosEnd) (range : w.buff.length < size32) :
    w.room = w.currPosEnd - w.currPos := by
  have size : size32 = 4294967296 := rfl
  simp only [room, currPosEnd] at *
  omega

theorem room_beyond (beyond : w.currPosEnd < w.currPos)
    (near : w.currPos ≤ w.currPosEnd + 4294967295) :
    18446744069414584321 ≤ w.room := by
  simp only [room]
  omega

theorem store_spec (w : HeaderWriter) (data : List Byte) (some_ : data ≠ [])
    (inside : w.currPos + data.length ≤ w.buff.length) :
    ∃ buff, w.store data = some buff ∧ buff.length = w.buff.length ∧
      buff.take (w.currPos + data.length) = w.buff.take w.currPos ++ data := by
  refine ⟨storeAt w.currPos data w.buff, ?_, storeAt_length inside, ?_⟩
  · rw [store, if_neg some_, if_pos inside]
  · have front : (w.buff.take w.currPos ++ data).length = w.currPos + data.length := by
      rw [List.length_append, List.length_take, Nat.min_eq_left (by omega)]
    rw [storeAt, List.take_left' front]

theorem store_some (run : w.store data = some buff) :
    buff.length = w.buff.length ∧ (data = [] ∨ w.currPos + data.length ≤ w.buff.length) := by
  unfold store at run
  split at run
  · rename_i none_
    obtain rfl := Option.some.inj run
    exact ⟨rfl, Or.inl none_⟩
  · split at run
    · rename_i inside
      obtain rfl := Option.some.inj run
      exact ⟨storeAt_length inside, Or.inr inside⟩
    · cases run

theorem snprintf_stores {size : Nat} (pos : 0 < size) :
    (snprintf size line).1 = line.take (size - 1) ++ [0] := by
  rw [snprintf, if_neg (by omega)]

/-! ## Lines -/

/-- So much has been written, and the rest is to come behind it. -/
structure Written (w : HeaderWriter) (length : Nat) (done : List Byte) : Prop where
  buff : w.buff.length = length
  inside : w.currPos ≤ length
  done : w.buff.take w.currPos = done

theorem Written.currPos {length : Nat} (written : Written w length done) :
    w.currPos = done.length := by
  rw [← written.done, List.length_take, Nat.min_eq_left (written.buff ▸ written.inside)]

/-- A text is stored with its terminator, and the next one goes over the terminator. -/
theorem Written.store {length : Nat} (written : Written w length done) (line : List Byte)
    (inside : w.currPos + line.length < length) :
    ∃ buff, w.store (line ++ [0]) = some buff ∧
      Written ⟨buff, w.currPos + line.length⟩ length (done ++ line) := by
  obtain ⟨buff, run, same, front⟩ := store_spec w (line ++ [0])
    (List.append_ne_nil_of_right_ne_nil _ (List.cons_ne_nil _ _))
    (by rw [written.buff, List.length_append, List.length_singleton]; omega)
  refine ⟨buff, run, same.trans written.buff, Nat.le_of_lt inside, ?_⟩
  have part := congrArg (List.take (w.currPos + line.length)) front
  rw [List.take_take, Nat.min_eq_left (by simp)] at part
  have whole : (done ++ line).length = w.currPos + line.length := by
    rw [List.length_append, written.currPos]
  rw [part, written.done, ← List.append_assoc, List.take_left' whole]

theorem print_fits (line : List Byte) {length : Nat} (written : Written w length done)
    (range : length < size32) (short : line.length ≤ 2147483647)
    (fits : w.currPos + line.length < length - 2) :
    ∃ t, w.print line = some t ∧ Written t length (done ++ line) := by
  have end_ : w.currPosEnd = length - 2 := by rw [currPosEnd, written.buff]
  have room : w.room = length - 2 - w.currPos := by
    rw [room_inside (by omega) (written.buff ▸ range), end_]
  have stores : (snprintf w.room line).1 = line ++ [0] := by
    rw [snprintf_stores (by omega), List.take_of_length_le (by omega)]
  obtain ⟨buff, run, next⟩ := written.store line (by omega)
  refine ⟨⟨buff, w.currPos + line.length⟩, ?_, next⟩
  rw [print, if_pos short, stores, run, Option.map_some]

theorem print_some (run : w.print line = some v) :
    v.buff.length = w.buff.length ∧ v.currPos = w.currPos + line.length ∧
      line.length ≤ 2147483647 := by
  unfold print at run
  split at run
  · rename_i short
    obtain ⟨buff, stored, rfl⟩ := Option.map_eq_some_iff.mp run
    exact ⟨(store_some stored).1, rfl, short⟩
  · cases run

theorem print_beyond (beyond : w.currPosEnd < w.currPos)
    (near : w.currPos ≤ w.currPosEnd + 4294967295) (some_ : line ≠ []) : w.print line = none := by
  cases run : w.print line with
  | none => rfl
  | some v =>
      exfalso
      have room := room_beyond beyond near
      have more := List.length_pos_iff.mpr some_
      have short := (print_some run).2.2
      rw [print, if_pos short, snprintf_stores (by omega), List.take_of_length_le (by omega)] at run
      obtain ⟨buff, stored, -⟩ := Option.map_eq_some_iff.mp run
      rcases (store_some stored).2 with none_ | inside
      · exact List.append_ne_nil_of_right_ne_nil _ (List.cons_ne_nil _ _) none_
      · rw [List.length_append, List.length_singleton] at inside
        rw [currPosEnd] at beyond
        omega

theorem print_end (at_ : w.currPos = w.currPosEnd) (run : w.print line = some v) :
    v.buff = w.buff := by
  have room : w.room = 0 := by
    rw [room, at_, Int.sub_self]
    rfl
  have short := (print_some run).2.2
  rw [print, if_pos short, room] at run
  obtain ⟨buff, stored, rfl⟩ := Option.map_eq_some_iff.mp run
  exact (Option.some.inj stored).symm

theorem print_cut {length : Nat} (written : Written w length done) (range : length < size32)
    (some_ : w.currPos < length - 2) (cut : length - 2 ≤ w.currPos + line.length)
    (run : w.print line = some v) : ∃ front, v.buff.take (length - 2) = front ++ [0] := by
  have end_ : w.currPosEnd = length - 2 := by rw [currPosEnd, written.buff]
  have room : w.room = length - 2 - w.currPos := by
    rw [room_inside (by omega) (written.buff ▸ range), end_]
  have short := (print_some run).2.2
  rw [print, if_pos short, snprintf_stores (by omega), room] at run
  obtain ⟨buff, stored, rfl⟩ := Option.map_eq_some_iff.mp run
  have stores : (line.take (length - 2 - w.currPos - 1) ++ [0]).length =
      length - 2 - w.currPos := by
    rw [List.length_append, List.length_take, List.length_singleton]
    omega
  obtain ⟨buff', again, -, front⟩ := store_spec w
    (line.take (length - 2 - w.currPos - 1) ++ [0])
    (List.append_ne_nil_of_right_ne_nil _ (List.cons_ne_nil _ _))
    (by rw [written.buff, stores]; omega)
  obtain rfl := Option.some.inj (stored.symm.trans again)
  rw [stores, Nat.add_sub_cancel' (by omega), ← List.append_assoc] at front
  exact ⟨_, front⟩

/-- Neither of the last lines can end at a NUL byte of its format. -/
theorem cut_short (past : Nat) {length : Nat} {bytes front : List Byte} (near : past ≤ 2)
    (inside : length + past ≤ bytes.length) (cut : bytes.take length = front ++ [0]) :
    ¬[cr, lf, cr, lf] <:+ bytes.take (length + past) := by
  rintro ⟨pre, whole⟩
  have lengths := congrArg List.length whole
  rw [List.length_append, List.length_take, Nat.min_eq_left inside] at lengths
  have ends : [cr, lf, cr, lf].length = 4 := rfl
  have part := congrArg (List.take length) whole
  rw [List.take_take, Nat.min_eq_left (Nat.le_add_right _ _), cut, List.take_append,
    List.take_of_length_le (by omega)] at part
  have left : length - pre.length = 4 - past := by omega
  rw [left] at part
  have last := congrArg List.getLast? part
  rw [List.getLast?_append_of_ne_nil front (List.cons_ne_nil 0 [])] at last
  obtain rfl | rfl | rfl : past = 0 ∨ past = 1 ∨ past = 2 := by omega
  · have last : (pre ++ [cr, lf, cr, lf]).getLast? = some 0 := last
    rw [List.getLast?_append_of_ne_nil pre (List.cons_ne_nil _ _)] at last
    exact absurd last (by decide)
  · have last : (pre ++ [cr, lf, cr]).getLast? = some 0 := last
    rw [List.getLast?_append_of_ne_nil pre (List.cons_ne_nil _ _)] at last
    exact absurd last (by decide)
  · have last : (pre ++ [cr, lf]).getLast? = some 0 := last
    rw [List.getLast?_append_of_ne_nil pre (List.cons_ne_nil _ _)] at last
    exact absurd last (by decide)

theorem Written.print {length : Nat} (written : Written w length done) (range : length < size32) (run : w.print line = some v)
    (fits : v.currPos < length - 2) : Written v length (done ++ line) := by
  obtain ⟨-, pos, short⟩ := print_some run
  obtain ⟨t, again, next⟩ := print_fits line written range short (by omega)
  obtain rfl := Option.some.inj (run.symm.trans again)
  exact next

/-- What comes behind the headers, and where it goes wrong. -/
theorem end_cut {length : Nat} (written : Written w length done) (range : length < size32) (some_ : w.currPos < length - 2)
    (cut : length - 2 ≤ w.currPos + 2) (run : w.print [cr, lf] = some v) :
    ¬[cr, lf, cr, lf] <:+ v.committed := by
  obtain ⟨same, pos, -⟩ := print_some run
  have pos : v.currPos = w.currPos + 2 := pos
  have whole := written.buff
  have cut : length - 2 ≤ w.currPos + [cr, lf].length := cut
  have two : [cr, lf].length = 2 := rfl
  obtain ⟨front, nul⟩ := print_cut written range some_ cut run
  have short := cut_short (v.currPos - (length - 2)) (by omega) (by omega) nul
  rwa [Nat.add_sub_cancel' (by omega), ← u32_of_lt (n := v.currPos) (by omega)] at short

theorem dateLine_length {tm : Tm} (proper : Header.Proper tm) :
    (ResponseHead.dateLine tm).length = 37 := by
  have date := proper.dateText.1
  have name : (text "Date: ").length = 6 := rfl
  simp only [ResponseHead.dateLine, List.length_append, name, date, List.length_cons,
    List.length_nil]

theorem printDate_proper (w : HeaderWriter) {tm : Tm} {currTime : Int}
    (made : TimeUtils.gmTime currTime = some tm) (proper : Header.Proper tm) :
    w.printDate currTime =
      (w.store (ResponseHead.dateLine tm ++ [0])).map fun buff => ⟨buff, w.currPos + 37⟩ := by
  have length := dateLine_length proper
  delta printDate
  simp only [made, length]
  exact if_pos (by decide)

theorem printDate_some {tm : Tm} {currTime : Int} (made : TimeUtils.gmTime currTime = some tm)
    (proper : Header.Proper tm) (run : w.printDate currTime = some v) :
    w.currPos + 38 ≤ w.buff.length ∧ v.buff.length = w.buff.length ∧
      v.currPos = w.currPos + 37 := by
  rw [printDate_proper w made proper] at run
  obtain ⟨buff, stored, rfl⟩ := Option.map_eq_some_iff.mp run
  obtain ⟨same, none_ | inside⟩ := store_some stored
  · exact absurd none_ (List.append_ne_nil_of_right_ne_nil _ (List.cons_ne_nil _ _))
  · rw [List.length_append, List.length_singleton, dateLine_length proper] at inside
    exact ⟨inside, same, rfl⟩

theorem printDate_fits {tm : Tm} {currTime : Int} (made : TimeUtils.gmTime currTime = some tm)
    (proper : Header.Proper tm) {length : Nat} (written : Written w length done)
    (fits : w.currPos + 38 ≤ length) :
    ∃ t, w.printDate currTime = some t ∧
      Written t length (done ++ ResponseHead.dateLine tm) := by
  have date := dateLine_length proper
  obtain ⟨buff, run, next⟩ := written.store (ResponseHead.dateLine tm) (by omega)
  rw [date] at next
  refine ⟨⟨buff, w.currPos + 37⟩, ?_, next⟩
  rw [printDate_proper w made proper, run, Option.map_some]

/-! ## Extra headers -/

/-- The headers which the comparison lets in, from a position on. -/
def kept (end_ : Nat) : Nat → List (Option ExtraHeader) → List ExtraHeader
  | _, [] => []
  | pos, none :: rest => kept end_ pos rest
  | pos, some header :: rest =>
      if u32 header.lineLength < end_ - pos then
        header :: kept end_ (pos + header.lineLength) rest
      else
        kept end_ pos rest

theorem kept_sublist (end_ pos : Nat) (headers : List (Option ExtraHeader)) :
    (kept end_ pos headers).Sublist headers.reduceOption := by
  fun_induction kept end_ pos headers with
  | case1 => exact List.Sublist.refl _
  | case2 pos rest ih => exact ih
  | case3 pos header rest in_ ih => exact ih.cons_cons header
  | case4 pos header rest out ih => exact ih.cons header

/-- A header which the comparison lets in is added, if its length has not wrapped around. -/
theorem addHeader_in {length : Nat} {header : ExtraHeader} (written : Written w length done)
    (range : length < size32) (more : w.currPos < length - 2)
    (in_ : u32 header.lineLength < length - 2 - w.currPos) :
    (header.lineLength < size32 → ∃ t, w.addHeader (some header) = some t ∧
      Written t length (done ++ header.line) ∧ t.currPos = w.currPos + header.lineLength ∧
      t.currPos < length - 2) ∧
    (size32 ≤ header.lineLength → w.addHeader (some header) = none) := by
  have end_ : w.currPosEnd = length - 2 := by rw [currPosEnd, written.buff]
  have room : w.room = length - 2 - w.currPos := by
    rw [room_inside (by omega) (written.buff ▸ range), end_]
  have lets : u32 header.lineLength < u32 w.room := by
    rwa [room, u32_of_lt (n := length - 2 - w.currPos) (by omega)]
  have some_ : header.line ≠ [] := by
    intro none_
    have size := header.line_length
    rw [none_, ExtraHeader.lineLength, List.length_nil] at size
    omega
  constructor
  · intro small
    rw [u32_of_lt small] at in_
    obtain ⟨buff, run, same, front⟩ := store_spec w _ some_
      (by rw [written.buff, header.line_length]; omega)
    rw [header.line_length, written.done] at front
    refine ⟨⟨buff, w.currPos + header.lineLength⟩, ?_, ⟨same.trans written.buff, ?_, front⟩, rfl, ?_⟩
    · rw [addHeader, if_pos lets, run, Option.map_some]
    · show w.currPos + header.lineLength ≤ length
      omega
    · show w.currPos + header.lineLength < length - 2
      omega
  · intro large
    rw [addHeader, if_pos lets, store, if_neg some_, if_neg, Option.map_none]
    rw [written.buff, header.line_length]
    omega

theorem addHeader_out {length : Nat} {header : ExtraHeader} (written : Written w length done)
    (range : length < size32) (more : w.currPos < length - 2)
    (out : ¬u32 header.lineLength < length - 2 - w.currPos) :
    w.addHeader (some header) = some w := by
  have end_ : w.currPosEnd = length - 2 := by rw [currPosEnd, written.buff]
  have room : w.room = length - 2 - w.currPos := by
    rw [room_inside (by omega) (written.buff ▸ range), end_]
  rw [addHeader, if_neg]
  rwa [room, u32_of_lt (n := length - 2 - w.currPos) (by omega)]

theorem addHeaders_fits {length : Nat} {headers : List (Option ExtraHeader)}
    (written : Written w length done) (range : length < size32) (more : w.currPos < length - 2)
    (small : ∀ header ∈ kept (length - 2) w.currPos headers, header.lineLength < size32) :
    ∃ t, exec addHeader w headers = some t ∧ t.currPos < length - 2 ∧
      Written t length (done ++ (kept (length - 2) w.currPos headers).flatMap ExtraHeader.line) := by
  induction headers generalizing w done with
  | nil =>
      refine ⟨w, rfl, more, ?_⟩
      rwa [kept, List.flatMap_nil, List.append_nil]
  | cons header rest ih =>
      cases header with
      | none => exact ih written more small
      | some header =>
          by_cases in_ : u32 header.lineLength < length - 2 - w.currPos
          · rw [kept, if_pos in_] at small ⊢
            obtain ⟨t, run, next, pos, still⟩ := (addHeader_in written range more in_).1
              (small header List.mem_cons_self)
            rw [← pos] at small ⊢
            obtain ⟨v, rest, last, done⟩ := ih next still
              fun other found => small other (List.mem_cons_of_mem _ found)
            refine ⟨v, exec_cons_some.mpr ⟨t, run, rest⟩, last, ?_⟩
            rwa [List.flatMap_cons, ← List.append_assoc]
          · rw [kept, if_neg in_] at small ⊢
            obtain ⟨v, rest, last, done⟩ := ih written more small
            exact ⟨v, exec_cons_some.mpr ⟨w, addHeader_out written range more in_, rest⟩, last, done⟩

theorem addHeaders_small {length : Nat} {headers : List (Option ExtraHeader)}
    (written : Written w length done) (range : length < size32) (more : w.currPos < length - 2)
    (run : exec addHeader w headers = some v) :
    ∀ header ∈ kept (length - 2) w.currPos headers, header.lineLength < size32 := by
  induction headers generalizing w done with
  | nil =>
      intro header found
      exact absurd found (List.not_mem_nil)
  | cons header rest ih =>
      obtain ⟨mid, first, rest⟩ := exec_cons_some.mp run
      cases header with
      | none =>
          obtain rfl := Option.some.inj first
          exact ih written more rest
      | some header =>
          by_cases in_ : u32 header.lineLength < length - 2 - w.currPos
          · obtain ⟨fits, wraps⟩ := addHeader_in written range more in_
            have small : header.lineLength < size32 := by
              apply Nat.lt_of_not_le
              intro large
              rw [wraps large] at first
              cases first
            obtain ⟨t, same, next, pos, still⟩ := fits small
            obtain rfl := Option.some.inj (first.symm.trans same)
            rw [kept, if_pos in_]
            intro other found
            rcases List.mem_cons.mp found with rfl | found
            · exact small
            · exact ih next still rest other (pos ▸ found)
          · have same := addHeader_out written range more in_
            obtain rfl := Option.some.inj (first.symm.trans same)
            rw [kept, if_neg in_]
            exact ih written more rest

theorem addHeader_past {header : Option ExtraHeader} (past : w.currPosEnd ≤ w.currPos)
    (run : w.addHeader header = some v) : v = w := by
  cases header with
  | none => exact (Option.some.inj run).symm
  | some header =>
      rw [addHeader] at run
      split at run
      · exfalso
        obtain ⟨buff, stored, -⟩ := Option.map_eq_some_iff.mp run
        have size := header.line_length
        rw [ExtraHeader.lineLength] at size
        rw [currPosEnd] at past
        rcases (store_some stored).2 with none_ | inside
        · rw [none_, List.length_nil] at size
          omega
        · omega
      · exact (Option.some.inj run).symm

theorem addHeaders_past {headers : List (Option ExtraHeader)} (past : w.currPosEnd ≤ w.currPos)
    (run : exec addHeader w headers = some v) : v = w := by
  have stays : ∀ t header u, t = w → addHeader t header = some u → u = w := by
    rintro t header u rfl run
    exact addHeader_past past run
  exact invariant stays rfl run

end HeaderWriter

/-! ## The whole block -/

namespace ResponseHead

variable {r : ResponseHead} {buff : List Byte}

/-- The CORS header, if there is one. -/
def corsLines (r : ResponseHead) : List Byte := if r.writeCORSHeaders then corsLine else []

/-- The headers which every response has. -/
def fixedLines (r : ResponseHead) (tm : Tm) : List Byte :=
  r.statusLines ++ r.contentTypeLine ++ r.corsLines ++ dateLine tm ++ r.lengthLine

def fixedLength (r : ResponseHead) : Nat :=
  r.statusLines.length + r.contentTypeLine.length + r.corsLines.length + 37 + r.lengthLine.length

/-- The extra headers which are let in behind the others. -/
def keptHeaders (r : ResponseHead) (maxHeadersLength : Nat) : List ExtraHeader :=
  HeaderWriter.kept (maxHeadersLength - 2) r.fixedLength r.extraHeaders

/-- There is room for the headers which every response has, and behind the extra ones for the
    closing line with the NUL byte of its format. -/
def Fits (r : ResponseHead) (maxHeadersLength : Nat) : Prop :=
  r.statusLines.length ≤ 2147483647 ∧ r.contentTypeLine.length ≤ 2147483647 ∧
    r.fixedLength + 3 ≤ maxHeadersLength ∧
    (∀ header ∈ r.keptHeaders maxHeadersLength, header.lineLength < size32) ∧
    r.fixedLength + ((r.keptHeaders maxHeadersLength).map ExtraHeader.lineLength).sum + 5 ≤
      maxHeadersLength

/-- The block is written within its allocation, and it consists of whole lines: those which every
    response has, some of the extra headers, and the empty line. -/
def WellFormed (r : ResponseHead) (buff : List Byte) : Prop :=
  ∃ w, r.write buff = some w ∧ u32 w.currPos ≤ buff.length ∧
    [cr, lf, cr, lf] <:+ w.committed ∧
    ∃ (tm : Tm) (headers : List ExtraHeader), TimeUtils.gmTime r.currTime = some tm ∧
      headers.Sublist r.extraHeaders.reduceOption ∧
      w.committed = r.fixedLines tm ++ headers.flatMap ExtraHeader.line ++ [cr, lf]

/-- The steps of a block which has been written. -/
theorem write_some {w : HeaderWriter} (run : r.write buff = some w) :
    ∃ w₁ w₂ w₃ w₄ w₅ w₆, HeaderWriter.print ⟨buff, 0⟩ r.statusLines = some w₁ ∧
      w₁.print r.contentTypeLine = some w₂ ∧
      w₂.printCORS r.writeCORSHeaders = some w₃ ∧
      w₃.printDate r.currTime = some w₄ ∧ w₄.print r.lengthLine = some w₅ ∧
      exec HeaderWriter.addHeader w₅ r.extraHeaders = some w₆ ∧ w₆.print [cr, lf] = some w := by
  simp only [write, Option.bind_eq_bind, Option.bind_eq_some_iff] at run
  obtain ⟨w₁, status, w₂, type, w₃, cors, w₄, date, w₅, length, w₆, headers, last⟩ := run
  exact ⟨w₁, w₂, w₃, w₄, w₅, w₆, status, type, cors, date, length, headers, last⟩

open HeaderWriter

theorem printCORS_some {w v : HeaderWriter} (run : w.printCORS r.writeCORSHeaders = some v) :
    v.buff.length = w.buff.length ∧ v.currPos = w.currPos + r.corsLines.length := by
  unfold printCORS at run
  unfold corsLines
  split at run
  · rename_i write
    obtain ⟨same, pos, -⟩ := print_some run
    rw [if_pos write]
    exact ⟨same, pos⟩
  · rename_i none_
    obtain rfl := Option.some.inj run
    rw [if_neg none_]
    exact ⟨rfl, rfl⟩

theorem printCORS_fits {w : HeaderWriter} {length : Nat} {done : List Byte}
    (written : Written w length done) (range : length < size32)
    (fits : w.currPos + r.corsLines.length < length - 2) :
    ∃ t, w.printCORS r.writeCORSHeaders = some t ∧ Written t length (done ++ r.corsLines) := by
  unfold printCORS
  unfold corsLines at fits ⊢
  split
  · rename_i write
    rw [if_pos write] at fits
    exact print_fits _ written range (by decide) fits
  · exact ⟨w, rfl, by rwa [List.append_nil]⟩

/-- A number of 64 bits has at most 20 digits. -/
theorem lengthLine_length (r : ResponseHead) :
    2 ≤ r.lengthLine.length ∧ r.lengthLine.length ≤ 38 := by
  have digits : ∀ n, n < 100000000000000000000 → (decimalDigits n).length ≤ 20 := by
    intro n small
    rw [decimalDigits, List.length_map]
    exact (Nat.length_toDigits_le_iff (by decide) (by decide)).mpr small
  have small : r.respLength.toNat < 18446744073709551616 := r.respLength.toNat_lt
  have name : (text "Content-Length: ").length = 16 := rfl
  unfold lengthLine
  split
  · have length := digits r.respLength.toNat (by omega)
    simp only [List.length_append, name, List.length_cons, List.length_nil]
    omega
  · decide

/-- A block which fits is written whole. -/
theorem write_fits (range : buff.length < size32) {tm : Tm}
    (made : TimeUtils.gmTime r.currTime = some tm) (proper : Header.Proper tm)
    (fits : r.Fits buff.length) :
    ∃ w, r.write buff = some w ∧
      Written w buff.length (r.fixedLines tm ++
        (r.keptHeaders buff.length).flatMap ExtraHeader.line ++ [cr, lf]) := by
  obtain ⟨status, type, fixed, small, room⟩ := fits
  have length := r.lengthLine_length
  rw [fixedLength] at fixed
  have start : Written ⟨buff, 0⟩ buff.length [] := ⟨rfl, Nat.zero_le _, rfl⟩
  obtain ⟨w₁, run₁, next⟩ := print_fits r.statusLines start range status (by dsimp only; omega)
  have pos₁ : w₁.currPos = 0 + r.statusLines.length := (print_some run₁).2.1
  obtain ⟨w₂, run₂, next⟩ := print_fits r.contentTypeLine next range type (by omega)
  have pos₂ := (print_some run₂).2.1
  obtain ⟨w₃, run₃, next⟩ := printCORS_fits (r := r) next range (by omega)
  have pos₃ := (printCORS_some run₃).2
  obtain ⟨w₄, run₄, next⟩ := printDate_fits made proper next (by omega)
  have pos₄ := (printDate_some made proper run₄).2.2
  obtain ⟨w₅, run₅, next⟩ := print_fits r.lengthLine next range (by omega) (by omega)
  have pos₅ : w₅.currPos = r.fixedLength := by
    rw [(print_some run₅).2.1, fixedLength]
    omega
  have behind := next.currPos
  rw [keptHeaders, ← pos₅] at small room
  obtain ⟨w₆, run₆, more, next⟩ := addHeaders_fits next range
    (by rw [pos₅, fixedLength]; omega) small
  have pos₆ := next.currPos
  rw [List.length_append, ← behind, ExtraHeader.lines_length] at pos₆
  obtain ⟨w, run, last⟩ := print_fits [cr, lf] next range (by decide)
    (by rw [pos₆, List.length_cons, List.length_singleton]; omega)
  refine ⟨w, ?_, ?_⟩
  · simp only [write, run₁, run₂, run₃, run₄, run₅, run₆, run, bind, Option.bind_some]
  · rw [keptHeaders, ← pos₅]
    exact last

/-- Lines end with the two bytes which every one of them ends with. -/
theorem lines_end {front : List Byte} (ends : [cr, lf] <:+ front) (headers : List ExtraHeader) :
    [cr, lf] <:+ front ++ headers.flatMap ExtraHeader.line := by
  induction headers generalizing front with
  | nil => rwa [List.flatMap_nil, List.append_nil]
  | cons header rest ih =>
      rw [List.flatMap_cons, ← List.append_assoc]
      apply ih
      exact (List.suffix_append _ [cr, lf]).trans (List.suffix_append front header.line)

theorem fixedLines_length (r : ResponseHead) {tm : Tm} (proper : Header.Proper tm) :
    (r.fixedLines tm).length = r.fixedLength := by
  simp only [fixedLines, fixedLength, List.length_append, dateLine_length proper]

theorem fixedLines_end (r : ResponseHead) (tm : Tm) : [cr, lf] <:+ r.fixedLines tm := by
  apply List.IsSuffix.trans _ (List.suffix_append _ r.lengthLine)
  unfold lengthLine
  split
  · exact List.suffix_append _ _
  · exact List.suffix_append _ _

/-- What has been written within the allocation and ends as it should has fitted. -/
theorem fits_of_write (range : buff.length < size32) {tm : Tm}
    (made : TimeUtils.gmTime r.currTime = some tm) (proper : Header.Proper tm)
    {w : HeaderWriter} (run : r.write buff = some w) (ends : [cr, lf, cr, lf] <:+ w.committed) :
    r.Fits buff.length := by
  obtain ⟨w₁, w₂, w₃, w₄, w₅, w₆, run₁, run₂, run₃, run₄, run₅, run₆, run⟩ := write_some run
  obtain ⟨same₁, pos₁, status⟩ := print_some run₁
  obtain ⟨same₂, pos₂, type⟩ := print_some run₂
  obtain ⟨same₃, pos₃⟩ := printCORS_some run₃
  obtain ⟨room, same₄, pos₄⟩ := printDate_some made proper run₄
  obtain ⟨same₅, pos₅, -⟩ := print_some run₅
  obtain ⟨same, pos, -⟩ := print_some run
  have line := r.lengthLine_length
  have pos₁ : w₁.currPos = 0 + r.statusLines.length := pos₁
  have same₁ : w₁.buff.length = buff.length := same₁
  -- the date would not have been printed if one of the headers before it had been cut
  have start : Written ⟨buff, 0⟩ buff.length [] := ⟨rfl, Nat.zero_le _, rfl⟩
  have next := start.print range run₁ (by omega)
  have next := next.print range run₂ (by omega)
  obtain ⟨t, again, next⟩ := printCORS_fits (r := r) next range (by omega)
  obtain rfl := Option.some.inj (run₃.symm.trans again)
  obtain ⟨t, again, next⟩ := printDate_fits made proper next (by omega)
  obtain rfl := Option.some.inj (run₄.symm.trans again)
  have fixed : w₅.currPos = r.fixedLength := by
    rw [fixedLength]
    omega
  rcases Nat.lt_or_ge w₅.currPos (buff.length - 2) with inside | past
  · have written := next.print range run₅ inside
    have behind := written.currPos
    have small := addHeaders_small written range inside run₆
    obtain ⟨t, again, more, next⟩ := addHeaders_fits written range inside small
    obtain rfl := Option.some.inj (run₆.symm.trans again)
    have pos₆ := next.currPos
    rw [List.length_append, ← behind, ExtraHeader.lines_length, fixed] at pos₆
    rw [fixed] at small
    refine ⟨status, type, by omega, small, ?_⟩
    rw [keptHeaders]
    apply Nat.le_of_not_lt
    intro cut
    exact end_cut next range more (by omega) run ends
  · exfalso
    obtain rfl := addHeaders_past (by rw [currPosEnd]; omega) run₆
    rcases Nat.eq_or_lt_of_le past with at_ | beyond
    · obtain ⟨front, nul⟩ := print_cut next range (by omega) (by omega) run₅
      have kept := print_end (by rw [currPosEnd]; omega) run
      have pos : w.currPos = buff.length - 2 + 2 := by
        rw [pos, ← at_]
        rfl
      rw [committed, kept, u32_of_lt (n := w.currPos) (by omega), pos] at ends
      exact cut_short 2 (Nat.le_refl 2) (by omega) nul ends
    · rw [print_beyond (by rw [currPosEnd]; omega) (by rw [currPosEnd]; omega)
        (List.cons_ne_nil _ _)] at run
      cases run

/-- The block is what it should be where it fits. -/
theorem wellFormed_iff (r : ResponseHead) (buff : List Byte) (range : buff.length < size32)
    (clock : Header.FourDigits r.currTime) : r.WellFormed buff ↔ r.Fits buff.length := by
  obtain ⟨tm, made, proper, -⟩ := Header.gmTime_proper clock
  constructor
  · rintro ⟨w, run, -, ends, -⟩
    exact fits_of_write range made proper run ends
  · intro fits
    obtain ⟨w, run, written⟩ := write_fits range made proper fits
    have pos : u32 w.currPos = w.currPos :=
      u32_of_lt (Nat.lt_of_le_of_lt written.inside range)
    have committed : w.committed = r.fixedLines tm ++
        (r.keptHeaders buff.length).flatMap ExtraHeader.line ++ [cr, lf] := by
      rw [HeaderWriter.committed, pos, written.done]
    refine ⟨w, run, by rw [pos]; exact written.inside, ?_, tm, r.keptHeaders buff.length, made,
      kept_sublist _ _ _, committed⟩
    rw [committed]
    obtain ⟨front, ends⟩ := lines_end (fixedLines_end r tm) (r.keptHeaders buff.length)
    rw [← ends, List.append_assoc]
    exact List.suffix_append front _

/-- The length of a block which fits. -/
def blockLength (r : ResponseHead) (maxHeadersLength : Nat) : Nat :=
  r.fixedLength + ((r.keptHeaders maxHeadersLength).map ExtraHeader.lineLength).sum + 2

/-- What the stores make of the allocation. -/
def fill (r : ResponseHead) (old : List Byte) : List Byte :=
  ((r.write old).map HeaderWriter.buff).getD old

/-- The block on its way through the write queue. -/
def send (r : ResponseHead) (maxHeadersLength : Nat)
    (s : WriteBuffQueue.Session BuildConfig.writeBuffSize) :
    Option (WriteBuffQueue.Session BuildConfig.writeBuffSize) :=
  (s.writeBlock maxHeadersLength r.fill (r.blockLength maxHeadersLength)).bind
    WriteBuffQueue.Session.writeNext

/-- A block which fits comes behind what has been committed before. -/
theorem send_fits {s : WriteBuffQueue.Session BuildConfig.writeBuffSize} (idle : s.Idle)
    {maxHeadersLength : Nat} (range : maxHeadersLength + 255 < size32)
    (clock : Header.FourDigits r.currTime) (fits : r.Fits maxHeadersLength) :
    ∃ t tm, TimeUtils.gmTime r.currTime = some tm ∧ r.send maxHeadersLength s = some t ∧
      t.Idle ∧ t.committed = s.committed ++ (r.fixedLines tm ++
        (r.keptHeaders maxHeadersLength).flatMap ExtraHeader.line ++ [cr, lf]) := by
  obtain ⟨tm, made, proper, -⟩ := Header.gmTime_proper clock
  have room := fits.2.2.2.2
  have length : r.blockLength maxHeadersLength ≤ maxHeadersLength := by
    rw [blockLength]
    omega
  have filled : ∀ old : List Byte, old.length = maxHeadersLength →
      (r.fill old).length = maxHeadersLength ∧
        (r.fill old).take (r.blockLength maxHeadersLength) = r.fixedLines tm ++
          (r.keptHeaders maxHeadersLength).flatMap ExtraHeader.line ++ [cr, lf] := by
    rintro old rfl
    obtain ⟨w, run, written⟩ := write_fits (by omega) made proper fits
    have pos := written.currPos
    rw [List.length_append, List.length_append, ExtraHeader.lines_length,
      fixedLines_length r proper] at pos
    have same : r.blockLength old.length = w.currPos := pos.symm
    rw [fill, run, Option.map_some, Option.getD_some, same]
    exact ⟨written.buff, written.done⟩
  obtain ⟨t, old, oldLength, run, still, committed⟩ := idle.writeBlock (by omega) range
    (fun old length => (filled old length).1) length
  obtain ⟨u, next, last, same⟩ := still.writeNext
  refine ⟨u, tm, made, ?_, last, ?_⟩
  · rw [send, run, Option.bind_some, next]
  · rw [same, committed, (filled old oldLength).2]

/-- A redirection, with so many bytes in its target. -/
def redirection (length : Nat) : ResponseHead where
  serverName := text "EHTTP"
  respCode := 302
  contentType := text "text/html"
  contentTypeCharset := none
  writeCORSHeaders := false
  currTime := 784111777
  respLength := 0
  extraHeaders := [some ⟨text "location", List.replicate length (ch 'a')⟩]

theorem redirection_clock (length : Nat) :
    Header.FourDigits (redirection length).currTime := by
  have years : Header.FourDigits 784111777 := ⟨by decide +kernel, by decide +kernel⟩
  exact years

theorem wellFormed_iff_redirection :
    Header.FourDigits (redirection 3).currTime ∧
      ((redirection 3).WellFormed (List.replicate 4096 0) ↔
        (redirection 3).Fits (List.replicate 4096 (0 : Byte)).length) :=
  ⟨redirection_clock 3, wellFormed_iff (redirection 3) (List.replicate 4096 0)
    (by rw [List.length_replicate]; decide) (redirection_clock 3)⟩

/-- A target which the comparison lets in leaves no room for the line behind it. -/
theorem closing_cut :
    ¬∀ (r : ResponseHead) (buff : List Byte), 4096 ≤ buff.length → buff.length < size32 →
      Header.FourDigits r.currTime → r.WellFormed buff := by
  intro all
  obtain ⟨w, run, -, ends, -⟩ := all (redirection 3965) (List.replicate 4096 0)
    (by rw [List.length_replicate]) (by rw [List.length_replicate]; decide) (redirection_clock 3965)
  obtain ⟨tm, made, proper, -⟩ := Header.gmTime_proper (redirection_clock 3965)
  have fits := fits_of_write (by rw [List.length_replicate]; decide) made proper run ends
  have fixed : (redirection 3965).fixedLength = 116 := by decide +kernel
  have line : ExtraHeader.lineLength ⟨text "location", List.replicate 3965 (ch 'a')⟩ = 3977 := by
    rw [ExtraHeader.lineLength, List.length_replicate]
    rfl
  have kept : (redirection 3965).keptHeaders 4096 =
      [⟨text "location", List.replicate 3965 (ch 'a')⟩] := by
    rw [keptHeaders, fixed, redirection, HeaderWriter.kept, line, if_pos (by decide),
      HeaderWriter.kept]
  obtain ⟨-, -, -, -, room⟩ := fits
  rw [List.length_replicate, kept, List.map_singleton, List.sum_singleton, line, fixed] at room
  exact absurd room (by decide)

end ResponseHead

end MiniWebSrv.HTTP
