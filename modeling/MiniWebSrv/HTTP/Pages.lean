import Mathlib.Algebra.Order.BigOperators.Group.List
import Mathlib.Data.List.ReduceOption
import MiniWebSrv.HTTP.Deliveries
import MiniWebSrv.HTTP.ReadContract

/-! # Pages

A response with what its functions return for the header block. If its texts stay within their lines
and leave room in the allocation, the connection sends it, and the client reads the code, the headers
and the content of it.
-/

namespace MiniWebSrv.HTTP

open Word Responding RespSource

/-! ## Room for the header block -/

/-- Headers with short names and values. A client reads them as they are, and they take no more room
    than this. -/
theorem ExtraHeader.plain_headers {hs : List ExtraHeader} {n : Nat} (short : n ≤ 1000)
    (names : ∀ h ∈ hs, IsFieldName h.name ∧ h.name.length ≤ 30)
    (values : ∀ h ∈ hs, cr ∉ h.value ∧ h.value.length ≤ n) :
    (∀ h ∈ hs, h.Clean) ∧ hs.map field = hs.map (fun h => (h.name, h.value)) ∧
      (hs.map lineLength).sum ≤ hs.length * (n + 34) := by
  have each : ∀ h ∈ hs, h.Clean ∧ h.field = (h.name, h.value) ∧ h.lineLength ≤ n + 34 := by
    intro h member
    obtain ⟨name, nameLength⟩ := names h member
    obtain ⟨value, length⟩ := values h member
    obtain ⟨clean, field, line⟩ := name.clean value (Nat.le_trans length short)
    exact ⟨clean, field, by omega⟩
  have room : (hs.map lineLength).sum ≤ (hs.map lineLength).length * (n + 34) := by
    refine List.sum_le_card_nsmul _ _ fun length member => ?_
    obtain ⟨h, inside, rfl⟩ := List.mem_map.mp member
    exact (each h inside).2.2
  rw [List.length_map] at room
  exact ⟨fun h member => (each h member).1,
    List.map_congr_left fun h member => (each h member).2.1, room⟩

namespace ResponseHead

variable {r : ResponseHead}

/-- The texts of a response, as far as they are not the same in all of them. -/
def textLength (r : ResponseHead) : Nat :=
  r.serverName.length + r.contentType.length + (r.contentTypeCharset.getD []).length +
    (r.extraHeaders.reduceOption.map ExtraHeader.lineLength).sum

theorem cString_length (bytes : List Byte) : (Header.cString bytes).length ≤ bytes.length :=
  (List.takeWhile_sublist _).length_le

theorem getResponseName_length (code : Nat) : (getResponseName code).length ≤ 16 := by
  unfold getResponseName
  split <;> decide

theorem statusLines_length (code : r.respCode.toNat < 1000) :
    r.statusLines.length ≤ r.serverName.length + 41 := by
  have digits : (decimalDigits r.respCode.toNat).length ≤ 3 := by
    rw [decimalDigits, List.length_map]
    exact (Nat.length_toDigits_le_iff (by decide) (by decide)).mpr code
  have name := getResponseName_length r.respCode.toNat
  have server := cString_length r.serverName
  have version : (text "HTTP/1.1 ").length = 9 := rfl
  have blank : (text " ").length = 1 := rfl
  have field : (text "Server: ").length = 8 := rfl
  simp only [statusLines, code_printed (Nat.lt_trans code (by decide)), List.length_append,
    List.length_cons, List.length_nil, version, blank, field]
  omega

theorem contentTypeLine_length : r.contentTypeLine.length ≤
    r.contentType.length + (r.contentTypeCharset.getD []).length + 28 := by
  have type := cString_length r.contentType
  have field : (text "Content-Type: ").length = 14 := rfl
  have between : (text "; charset=\"").length = 11 := rfl
  have last : (text "\"").length = 1 := rfl
  cases charset : r.contentTypeCharset with
  | none =>
      simp only [contentTypeLine, charset, List.length_append, List.length_cons, List.length_nil,
        field]
      omega
  | some encodingStr =>
      have encoding := cString_length encodingStr
      simp only [contentTypeLine, charset, List.length_append, List.length_cons, List.length_nil,
        field, between, last, Option.getD_some]
      omega

theorem fixedLength_le (code : r.respCode.toNat < 1000) : r.fixedLength ≤
    r.serverName.length + r.contentType.length + (r.contentTypeCharset.getD []).length + 176 := by
  have status := statusLines_length code
  have type := r.contentTypeLine_length
  have cors : r.corsLines.length ≤ 32 := by
    unfold corsLines
    split <;> decide
  have length := r.lengthLine_length
  rw [fixedLength]
  omega

/-- Texts which leave this much are written whole. -/
theorem fits_of_room {maxHeadersLength : Nat} (code : r.respCode.toNat < 1000)
    (small : maxHeadersLength ≤ 2147483647) (room : r.textLength + 200 ≤ maxHeadersLength) :
    r.Fits maxHeadersLength := by
  have status := statusLines_length code
  have type := r.contentTypeLine_length
  have fixed := fixedLength_le code
  have kept : ((r.keptHeaders maxHeadersLength).map ExtraHeader.lineLength).sum ≤
      (r.extraHeaders.reduceOption.map ExtraHeader.lineLength).sum :=
    ((HeaderWriter.kept_sublist _ _ _).map _).sum_le_sum fun _ _ => Nat.zero_le _
  have each : ∀ h ∈ r.keptHeaders maxHeadersLength, h.lineLength ≤
      ((r.keptHeaders maxHeadersLength).map ExtraHeader.lineLength).sum :=
    fun h member => List.single_le_sum (fun _ _ => Nat.zero_le _) _ (List.mem_map_of_mem member)
  rw [textLength] at room
  refine ⟨by omega, by omega, by omega, fun h member => ?_, by omega⟩
  have := each h member
  simp only [size32]
  omega

theorem kept_all {end_ pos : Nat} {headers : List (Option ExtraHeader)} (small : end_ < size32)
    (room : pos + (headers.reduceOption.map ExtraHeader.lineLength).sum < end_) :
    HeaderWriter.kept end_ pos headers = headers.reduceOption := by
  induction headers generalizing pos with
  | nil => rfl
  | cons header rest ih =>
      cases header with
      | none => exact ih room
      | some header =>
          rw [List.reduceOption_cons_of_some, List.map_cons, List.sum_cons] at room
          have length : u32 header.lineLength = header.lineLength := u32_of_lt (by omega)
          rw [HeaderWriter.kept, length, if_pos (by omega), List.reduceOption_cons_of_some,
            ih (by omega)]

theorem range_of_small {maxHeadersLength : Nat} (small : maxHeadersLength ≤ 2147483647) :
    maxHeadersLength + 255 < size32 := by
  simp only [size32]
  omega

/-- There is room for all the extra headers. -/
theorem keptHeaders_of_room {maxHeadersLength : Nat} (code : r.respCode.toNat < 1000)
    (small : maxHeadersLength ≤ 2147483647) (room : r.textLength + 200 ≤ maxHeadersLength) :
    r.keptHeaders maxHeadersLength = r.extraHeaders.reduceOption := by
  have length := fixedLength_le code
  have range := range_of_small small
  rw [textLength] at room
  exact kept_all (by omega) (by omega)

end ResponseHead

/-! ## Responses with their headers -/

/-- What the functions of an `IResponse` return. -/
structure Page where
  response : Response
  respCode : ResponseCode
  contentType : List Byte
  contentTypeCharset : Option (List Byte)
  extraHeaders : List ExtraHeader

/-- What a connection puts into every header block, and the time. -/
structure Heading where
  serverName : List Byte
  writeCORSHeaders : Bool
  currTime : Int

namespace Page

def head (p : Page) (h : Heading) : ResponseHead where
  serverName := h.serverName
  respCode := UInt32.ofNat p.respCode.number
  contentType := p.contentType
  contentTypeCharset := p.contentTypeCharset
  writeCORSHeaders := h.writeCORSHeaders
  currTime := h.currTime
  respLength := UInt64.ofNat p.response.getLength
  extraHeaders := p.extraHeaders.map some

/-- `CommonError::Response` -/
def commonError (e : CommonErrorResponse) : Page where
  response := .commonError e
  respCode := e.respCode
  contentType := text "text/html"
  contentTypeCharset := some (text "utf-8")
  extraHeaders := []

/-- The texts in its headers. -/
def textLength (p : Page) : Nat :=
  p.contentType.length + (p.contentTypeCharset.getD []).length +
    (p.extraHeaders.map ExtraHeader.lineLength).sum

/-- A response with this content, whose headers are taken for what they are. -/
structure Sound (p : Page) (content : List Byte) : Prop where
  intact : p.response.Intact content
  contentType : cr ∉ p.contentType
  charset : ∀ charset ∈ p.contentTypeCharset, cr ∉ charset
  headers : ∀ h ∈ p.extraHeaders, h.Clean
  bodiless : Client.bodiless p.respCode.number →
    p.response.getLength ≠ 18446744073709551615 ∧ content = []

theorem no_charset : ∀ charset ∈ (none : Option (List Byte)), cr ∉ charset :=
  fun charset member => absurd member (Option.not_mem_none charset)

end Page

/-- A server name which stays within its line, at a time whose year has four digits. -/
structure Heading.Sound (h : Heading) : Prop where
  serverName : cr ∉ h.serverName
  clock : Header.FourDigits h.currTime

/-- Whether `Upgrade` returns a connection. -/
def RespSource.Response.upgrades : Response → Bool
  | .ws => true
  | _ => false

namespace Page

/-- A response as it is delivered, with these bytes in the blocks. -/
def delivery (p : Page) (h : Heading) (buffs : List (List Byte)) (content : List Byte)
    (isKeepAlive : Bool) : Delivery :=
  ⟨p.response, p.head h, buffs, content, p.response.upgrades, isKeepAlive⟩

/-- What `ResponseHandler` makes of it. -/
def answer (behind : Nat → Byte) (p : Page) (h : Heading) (buffs : List (List Byte))
    (isKeepAlive : Bool) : Reply :=
  (p.delivery h buffs [] isKeepAlive).answer behind

/-- Whether another request is read: not behind an upgrade, and not behind a length of 0. -/
def kept (p : Page) (isKeepAlive : Bool) : Bool :=
  decide (p.response.getLength ≠ 0) && !p.response.upgrades && isKeepAlive

/-- The room in a block. -/
def blockSize (p : Page) : Nat :=
  if p.response.getLength ≠ 18446744073709551615 then BuildConfig.writeBuffSize else chunkRoom

/-- There are blocks enough for what is in the response. -/
structure Enough (p : Page) (buffs : List (List Byte)) : Prop where
  sizes : ∀ buff ∈ buffs, buff.length = p.blockSize
  room : ∀ content, p.response.Intact content → content.length ≤ p.blockSize * buffs.length
  first : buffs ≠ []

end Page

theorem ResponseCode.number_small (code : ResponseCode) : code.number < 1000 := by
  cases code <;> decide

namespace Page

variable {p : Page} {h : Heading} {content : List Byte}

theorem respCode_toNat (p : Page) (h : Heading) :
    (p.head h).respCode.toNat = p.respCode.number := by
  have small : p.respCode.number < 4294967296 :=
    Nat.lt_trans p.respCode.number_small (by decide)
  exact UInt32.toNat_ofNat_of_lt' small

theorem reduceOption_head (p : Page) (h : Heading) :
    (p.head h).extraHeaders.reduceOption = p.extraHeaders := by
  rw [head, List.reduceOption, List.filterMap_map]
  exact List.filterMap_some

theorem code_small (p : Page) (h : Heading) : (p.head h).respCode.toNat < 1000 :=
  respCode_toNat p h ▸ p.respCode.number_small

theorem head_textLength (p : Page) (h : Heading) :
    (p.head h).textLength = p.textLength + h.serverName.length := by
  rw [ResponseHead.textLength, reduceOption_head, textLength]
  dsimp only [head]
  omega

theorem Sound.clean (sound : p.Sound content) (heading : h.Sound) : (p.head h).Clean where
  serverName := heading.serverName
  contentType := sound.contentType
  charset := sound.charset
  headers := fun g member => sound.headers g (reduceOption_head p h ▸ member)
  respCode := Nat.lt_trans (code_small p h) (by decide)

theorem fits {maxHeadersLength : Nat} (small : maxHeadersLength ≤ 2147483647)
    (room : p.textLength + h.serverName.length + 200 ≤ maxHeadersLength) :
    (p.head h).Fits maxHeadersLength :=
  ResponseHead.fits_of_room (code_small p h) small (head_textLength p h ▸ room)

variable {maxHeadersLength : Nat} {buffs : List (List Byte)} {isKeepAlive : Bool}

/-- A sound response is properly delivered. -/
theorem Sound.delivery (sound : p.Sound content) (heading : h.Sound)
    (small : maxHeadersLength ≤ 2147483647)
    (room : p.textLength + h.serverName.length + 200 ≤ maxHeadersLength)
    (enough : p.Enough buffs) :
    (p.delivery h buffs content isKeepAlive).Proper maxHeadersLength where
  ready := ⟨⟨enough.sizes, enough.room content sound.intact, enough.first⟩, sound.intact⟩
  clock := heading.clock
  clean := sound.clean heading
  fits := fits small room
  bodiless := by
    intro bodiless
    rw [Page.delivery, respCode_toNat] at bodiless
    exact sound.bodiless bodiless

/-- There is no end to the blocks which a connection allocates. -/
theorem exists_enough (p : Page) : ∃ buffs, p.Enough buffs := by
  have pos : 0 < p.blockSize := by
    unfold blockSize
    split <;> decide
  obtain ⟨n, most⟩ : ∃ n, ∀ content, p.response.Intact content → content.length ≤ n := by
    by_cases known : p.response.getLength = 18446744073709551615
    · cases response : p.response with
      | commonError e => exact ⟨e.page.length, fun content intact => Nat.le_of_eq (congrArg _ intact.1)⟩
      | redirect => exact ⟨0, fun content intact => Nat.le_of_eq (congrArg List.length intact)⟩
      | fs | zip | string | corsPreflight | ws =>
          refine ⟨0, fun content intact => ?_⟩
          rcases intact.unknown (response ▸ known) with ⟨e, other⟩ | other <;> cases other
    · exact ⟨_, fun content intact => Nat.le_of_eq (intact.known known 0).1.symm⟩
  refine ⟨List.replicate (n + 1) (List.replicate p.blockSize 0), fun buff member => ?_,
    fun content intact => ?_, List.cons_ne_nil _ _⟩
  · rw [List.eq_of_mem_replicate member]
    exact List.length_replicate
  · rw [List.length_replicate]
    exact Nat.le_trans (Nat.le_succ_of_le (most content intact)) (Nat.le_mul_of_pos_left _ pos)

/-- A response as it has been made: its code, its content, and its headers as far as the connection
    does not write some of the name itself. -/
structure ReadAs (p : Page) (h : Heading) (content : List Byte) (a : Client.Received) : Prop where
  code : a.code = p.respCode.number
  body : a.body = content
  fields : ∀ name ∉ ResponseHead.frontNames ++ [text "content-length", text "transfer-encoding"],
    Client.lookup name a.fields = Client.lookup name (p.extraHeaders.map ExtraHeader.field)
  allowOrigin : Client.lookup (text "access-control-allow-origin") a.fields =
    if h.writeCORSHeaders then some (text "*")
    else Client.lookup (text "access-control-allow-origin") (p.extraHeaders.map ExtraHeader.field)

/-- The client may show it to the pages of all origins. -/
def AllOrigins (a : Client.Received) : Prop :=
  Client.lookup (text "access-control-allow-origin") a.fields = some (text "*")

/-- The connection sends the response, whatever has been in the blocks, and this holds of what the
    client reads, which is for all origins if the connection says so. -/
def Reaches (p : Page) (h : Heading) (maxHeadersLength : Nat) (behind : Nat → Byte) (s : Serving)
    (what : Client.Received → Prop) : Prop :=
  ∀ buffs isKeepAlive, p.Enough buffs →
    ∃ t wire a, s.step maxHeadersLength (p.answer behind h buffs isKeepAlive) = some t ∧
      t.Settled ∧ t.isOpen = p.kept isKeepAlive ∧
      t.writeBuff.committed = s.writeBuff.committed ++ wire ∧ wire ≠ [] ∧
      (∀ rest, Client.readResponse (wire ++ rest) = some (a, rest)) ∧
      (h.writeCORSHeaders = true → AllOrigins a) ∧ what a

theorem Reaches.mono {behind : Nat → Byte} {s : Serving} {what what' : Client.Received → Prop}
    (reaches : p.Reaches h maxHeadersLength behind s what) (more : ∀ a, what a → what' a) :
    p.Reaches h maxHeadersLength behind s what' := by
  intro buffs isKeepAlive enough
  obtain ⟨t, wire, a, step, next, stays, committed, some_, read, origin, here⟩ :=
    reaches buffs isKeepAlive enough
  exact ⟨t, wire, a, step, next, stays, committed, some_, read, origin, more a here⟩

theorem Reaches.origin {behind : Nat → Byte} {s : Serving} {what : Client.Received → Prop}
    (reaches : p.Reaches h maxHeadersLength behind s what) :
    p.Reaches h maxHeadersLength behind s fun a =>
      (h.writeCORSHeaders = true → AllOrigins a) ∧ what a := by
  intro buffs isKeepAlive enough
  obtain ⟨t, wire, a, step, next, stays, committed, some_, read, origin, here⟩ :=
    reaches buffs isKeepAlive enough
  exact ⟨t, wire, a, step, next, stays, committed, some_, read, origin, origin, here⟩

theorem Sound.kept (sound : p.Sound content) (h : Heading) (buffs : List (List Byte))
    (isKeepAlive : Bool) : (p.delivery h buffs content isKeepAlive).kept = p.kept isKeepAlive := by
  have length : (if p.response.getLength ≠ 18446744073709551615 then decide (content ≠ []) else true) =
      decide (p.response.getLength ≠ 0) := by
    split
    · rename_i known
      have length := (sound.intact.known known 0).1
      rw [length, decide_eq_decide, ne_eq, ne_eq, List.length_eq_zero_iff]
    · rename_i unknown
      rw [not_not.mp unknown]
      rfl
  exact congrArg (· && !p.response.upgrades && isKeepAlive) length

/-- A sound response goes out whole, and comes to the client. -/
theorem Sound.reaches (sound : p.Sound content) (heading : h.Sound)
    (small : maxHeadersLength ≤ 2147483647)
    (room : p.textLength + h.serverName.length + 200 ≤ maxHeadersLength) (behind : Nat → Byte)
    {s : Serving} (settled : s.Settled) (isOpen : s.isOpen = true) :
    p.Reaches h maxHeadersLength behind s (p.ReadAs h content) := by
  intro buffs isKeepAlive enough
  have proper : (p.delivery h buffs content isKeepAlive).Proper maxHeadersLength :=
    sound.delivery heading small room enough
  obtain ⟨answer, ends, received⟩ := Delivery.answer_proper behind proper
  have kept := (Delivery.whole behind proper.ready).2.2.trans (sound.kept h buffs isKeepAlive)
  obtain ⟨t, step, next, stays, committed⟩ :=
    Serving.step_proper (ResponseHead.range_of_small small) answer settled isOpen
  obtain ⟨tm, -, fields, -⟩ := answer.lines
  have all := ResponseHead.keptHeaders_of_room (code_small p h) small (head_textLength p h ▸ room)
  have readAs : p.ReadAs h content ((p.delivery h buffs content isKeepAlive).received behind
      maxHeadersLength) := by
    rw [Delivery.received, fields]
    refine ⟨respCode_toNat p h, rfl, fun name other => ?_, ?_⟩
    · have looked := ResponseHead.lookup_fields other (p.head h) tm maxHeadersLength
      rw [all, reduceOption_head] at looked
      exact looked
    · have looked := ResponseHead.lookup_allowOrigin (p.head h) tm maxHeadersLength
      rw [all, reduceOption_head] at looked
      exact looked
  exact ⟨t, _, _, step, next, stays.trans kept, committed, answer.wire_some, answer.read ends,
    fun cors => by rw [AllOrigins, received, readAs.allowOrigin, if_pos cors], received ▸ readAs⟩

/-- `CreateFromException` for what a source throws; `ex` is the type and the message of it. -/
def orError (resource : List Byte) (ex : List Byte × List Byte) (made : Option Page) : Page :=
  made.getD (.commonError (.create resource (some ex) .serverError))

end Page

theorem RespSource.CommonErrorResponse.page_le (e : CommonErrorResponse) :
    e.page.length ≤ 2 * e.res.length + e.exType.length + e.exMsg.length + 200 := by
  have res := ResponseHead.cString_length e.res
  have type := ResponseHead.cString_length e.exType
  have message := ResponseHead.cString_length e.exMsg
  have frame : ∀ code, frameLength code ≤ 200 := by
    intro code
    cases code <;> decide
  have here := frame e.respCode
  rw [page_length, pageLength]
  split <;> omega

/-- The page about an error is sound where it fits into a block. -/
theorem Page.commonError_sound {e : CommonErrorResponse}
    (short : 2 * e.res.length + e.exType.length + e.exMsg.length + 200 < chunkRoom)
    (refusal : e.respCode = .forbidden ∨ e.respCode = .notFound ∨ e.respCode = .serverError) :
    (Page.commonError e).Sound e.page ∧ (Page.commonError e).textLength ≤ 100 := by
  have short := Nat.lt_of_le_of_lt e.page_le short
  have type : cr ∉ text "text/html" := by decide
  have charset : cr ∉ text "utf-8" := by decide
  have length : (Page.commonError e).textLength = 14 := rfl
  refine ⟨⟨⟨rfl, short⟩, type, ?_, nofun, fun bodiless => ?_⟩, by rw [length]; decide⟩
  · rintro _ ⟨⟩
    exact charset
  · dsimp only [Page.commonError] at bodiless
    rcases refusal with code | code | code
    all_goals
      rw [code] at bodiless
      exact absurd bodiless (by decide)

end MiniWebSrv.HTTP
