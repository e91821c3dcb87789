import MiniWebSrv.HTTP.FileSource
import MiniWebSrv.HTTP.StringUtils
import MiniWebSrv.WebSocket.AcceptKey

/-! # The handshake

`WSRespSource` looks for the headers of a handshake, and answers them with a response after which
the connection is a WebSocket connection. Which requests get such a response depends on the last
header of each name, and a client which checks the answer as it should finds it in order.
-/

namespace MiniWebSrv.WebSocket

open Word HTTP HTTP.Responding HTTP.RespSource

/-! ## The headers of a request -/

/-- The values of the headers which `CreateWSResponse` has found so far. -/
structure UpgradeHeaders where
  upgradeHdr : Option (List Byte)
  wsKeyHdr : Option (List Byte)
  wsVerHdr : Option (List Byte)
  wsProtHdr : Option (List Byte)
  originHdr : Option (List Byte)
  deriving DecidableEq, Repr

namespace UpgradeHeaders

/-- A turn of the loop. -/
def step (u : UpgradeHeaders) (currHdr : HeaderName × List Byte) : UpgradeHeaders :=
  match currHdr.1 with
  | .upgrade => { u with upgradeHdr := some currHdr.2 }
  | .secWebSocketKey => { u with wsKeyHdr := some currHdr.2 }
  | .secWebSocketVersion => { u with wsVerHdr := some currHdr.2 }
  | .secWebSocketProtocol => { u with wsProtHdr := some currHdr.2 }
  | .origin => { u with originHdr := some currHdr.2 }
  | _ => u

def scan (headerA : List (HeaderName × List Byte)) : UpgradeHeaders :=
  headerA.foldl step ⟨none, none, none, none, none⟩

end UpgradeHeaders

/-- The value of the last header of a name. -/
def lastValue (name : HeaderName) (headerA : List (HeaderName × List Byte)) : Option (List Byte) :=
  (headerA.reverse.find? fun h => decide (h.1 = name)).map Prod.snd

theorem lastValue_behind (name : HeaderName) (front back : List (HeaderName × List Byte)) :
    lastValue name (front ++ back) = (lastValue name back).or (lastValue name front) := by
  rw [lastValue, lastValue, lastValue, List.reverse_append, List.find?_append, Option.map_or]

theorem lastValue_append (name : HeaderName) (headerA : List (HeaderName × List Byte))
    (h : HeaderName × List Byte) :
    lastValue name (headerA ++ [h]) = if h.1 = name then some h.2 else lastValue name headerA := by
  rw [lastValue, lastValue, List.reverse_append, List.reverse_singleton, List.singleton_append,
    List.find?_cons]
  by_cases same : h.1 = name <;> simp [same]

theorem UpgradeHeaders.scan_eq (headerA : List (HeaderName × List Byte)) :
    scan headerA = ⟨lastValue .upgrade headerA, lastValue .secWebSocketKey headerA,
      lastValue .secWebSocketVersion headerA, lastValue .secWebSocketProtocol headerA,
      lastValue .origin headerA⟩ := by
  induction headerA using List.reverseRecOn with
  | nil => rfl
  | append_singleton headerA h ih =>
      obtain ⟨name, value⟩ := h
      rw [scan, List.foldl_append] at *
      rw [ih]
      simp only [lastValue_append, List.foldl_cons, List.foldl_nil, step]
      cases name <;> rfl

/-! ## WSRespSource -/

/-- A call of `OnWebSocket`. -/
structure WebSocketEvent where
  resource : List Byte
  isSuccess : Bool
  origin : Option (List Byte)
  subProtocol : Option (List Byte)
  deriving DecidableEq, Repr

/-- `WSResponse` -/
structure WSResponse (H : Type) where
  myHandler : H
  secWebSocketAccept : List Byte
  subProtocol : List Byte

/-- What `CreateWSResponse` returns, and what it has logged. -/
structure Created (H : Type) where
  isValidWSReq : Bool
  response : Option (WSResponse H)
  log : List WebSocketEvent

/-- `CreateMsgHandler`: the handler, if there is one, and what it has left of the protocols. -/
abbrev CreateMsgHandler (H : Type) :=
  List Byte → List (List Byte) → Option (List Byte) → Option H × List (List Byte)

/-- `UpgradeWebSocketVal` -/
def upgradeWebSocketVal : List Byte := text "websocket"

/-- `ConnUpgradeVal` -/
def connUpgradeVal : List Byte := text "upgrade"

section Create

variable {H : Type} (sha1 : List Byte → Digest) (createMsgHandler : CreateMsgHandler H)

/-- The only one of the protocols. -/
def onlyOne (subProtA : List (List Byte)) : Option (List Byte) :=
  if subProtA.length = 1 then subProtA.head? else none

/-- `CreateWSResponse`; `encStr` is what the constructor of the response finds on its stack. -/
def createWSResponse (encStr : List Byte) (resource : List Byte)
    (headerA : List (HeaderName × List Byte)) (logFailed : Bool) : Created H :=
  let u := UpgradeHeaders.scan headerA
  let failed := fun isValidWSReq : Bool =>
    (⟨isValidWSReq, none,
      if logFailed then [⟨resource, false, u.originHdr, none⟩] else []⟩ : Created H)
  match u.upgradeHdr, u.wsKeyHdr, u.wsVerHdr with
  | some upgrade, some key, some version =>
      if StringUtils.cmpI upgrade upgradeWebSocketVal = 0 ∧ Header.atoi version = 13 then
        let subProtA := (u.wsProtHdr.map fun value =>
          StringUtils.extractTrimWSTokens value (ch ',')).getD []
        let made := createMsgHandler resource subProtA u.originHdr
        match made.1 with
        | some newHandler =>
            ⟨true, some ⟨newHandler, secWebSocketAccept sha1 (Header.cString key) encStr,
                Header.cString ((onlyOne made.2).getD [])⟩,
              [⟨resource, true, u.originHdr, onlyOne made.2⟩]⟩
        | none => failed true
      else
        failed false
  | _, _, _ => failed false

namespace WSResponse

/-- `GetExtraHeader`, for the indices below `GetExtraHeaderCount` -/
def extraHeaders (r : WSResponse H) : List ExtraHeader :=
  [⟨Header.getHeaderName .secWebSocketAccept, r.secWebSocketAccept⟩,
    ⟨Header.getHeaderName .connection, connUpgradeVal⟩,
    ⟨Header.getHeaderName .upgrade, upgradeWebSocketVal⟩] ++
    if r.subProtocol = [] then []
    else [⟨Header.getHeaderName .secWebSocketProtocol, r.subProtocol⟩]

def page (r : WSResponse H) : Page where
  response := .ws
  respCode := .switchProt
  contentType := text "text/plain"
  contentTypeCharset := none
  extraHeaders := r.extraHeaders

end WSResponse

/-- `Create` -/
def create (encStr : List Byte) (resource : List Byte) (headerA : List (HeaderName × List Byte)) :
    Page × List WebSocketEvent :=
  let created := createWSResponse sha1 createMsgHandler encStr resource headerA true
  (match created.response with
    | some response => response.page
    | none => .commonError (.create resource none .forbidden), created.log)

end Create

/-- `EchoRespSource::CreateMsgHandler`; the handlers are all alike. -/
def echoMsgHandler : CreateMsgHandler Unit := fun _ subProtocolA _ =>
  (some (), if text "echo" ∈ subProtocolA then [text "echo"] else [])

/-! ## Requests -/

/-- A request for a WebSocket connection with this key, which offers these protocols. -/
structure Requests (headerA : List (HeaderName × List Byte)) (key : List Byte)
    (offered : List (List Byte)) : Prop where
  upgrade : ∃ value, lastValue .upgrade headerA = some value ∧
    (Header.cString value).map Header.lower = upgradeWebSocketVal
  key : ∃ value, lastValue .secWebSocketKey headerA = some value ∧ Header.cString value = key
  version : ∃ value, lastValue .secWebSocketVersion headerA = some value ∧ Header.atoi value = 13
  offered : ((lastValue .secWebSocketProtocol headerA).map fun value =>
    Tokens.trimmedTokens Header.isWS (ch ',') (Header.cString value)).getD [] = offered

/-- What a client sends to ask for a WebSocket connection: a key, and the protocols which it offers,
    with blanks around them. -/
structure Hello where
  key : List Byte
  items : List (Tokens.Item Header.isWS (ch ','))

namespace Hello

def headers (h : Hello) : List (HeaderName × List Byte) :=
  [(.upgrade, text "websocket"), (.connection, text "Upgrade"), (.secWebSocketKey, h.key),
    (.secWebSocketVersion, text "13")] ++
    if h.items = [] then []
    else [(.secWebSocketProtocol, [ch ','].intercalate (h.items.map Tokens.Item.content))]

def offered (h : Hello) : List (List Byte) :=
  (h.items.map Tokens.Item.token).filter fun token => decide (token ≠ [])

/-- Such headers are a request, whatever else comes before them. -/
theorem requests (h : Hello) (key : 0 ∉ h.key)
    (protocols : 0 ∉ [ch ','].intercalate (h.items.map Tokens.Item.content))
    {front : List (HeaderName × List Byte)} (other : ∀ g ∈ front, g.1 ≠ .secWebSocketProtocol) :
    Requests (front ++ h.headers) h.key h.offered := by
  have whole : ∀ s : List Byte, 0 ∉ s → Header.cString s = s := by
    intro s none_
    refine List.takeWhile_eq_self_iff.mpr fun c member => decide_eq_true ?_
    rintro rfl
    exact none_ member
  have websocket : (Header.cString (text "websocket")).map Header.lower = upgradeWebSocketVal := by
    decide
  have thirteen : Header.atoi (text "13") = 13 := by decide
  have front_ : lastValue .secWebSocketProtocol front = none := by
    rw [lastValue, Option.map_eq_none_iff, List.find?_eq_none]
    exact fun g member => by simpa using other g (List.mem_reverse.mp member)
  have values : lastValue .upgrade (front ++ h.headers) = some (text "websocket") ∧
      lastValue .secWebSocketKey (front ++ h.headers) = some h.key ∧
      lastValue .secWebSocketVersion (front ++ h.headers) = some (text "13") ∧
      lastValue .secWebSocketProtocol (front ++ h.headers) = if h.items = [] then none
        else some ([ch ','].intercalate (h.items.map Tokens.Item.content)) := by
    simp only [lastValue_behind, front_]
    unfold headers
    split <;> exact ⟨rfl, rfl, rfl, rfl⟩
  obtain ⟨upgrade, key_, version, protocol⟩ := values
  refine ⟨⟨_, upgrade, websocket⟩, ⟨_, key_, whole _ key⟩, ⟨_, version, thirteen⟩, ?_⟩
  rw [protocol]
  split
  · rename_i none_
    rw [offered, none_]
    rfl
  · rename_i some_
    exact (congrArg _ (whole _ protocols)).trans (Tokens.trimmedTokens_intercalate h.items some_)

end Hello

theorem cmpI_websocket (value : List Byte) : StringUtils.cmpI value upgradeWebSocketVal = 0 ↔
    (Header.cString value).map Header.lower = upgradeWebSocketVal := by
  have lower : upgradeWebSocketVal.map Header.lower = upgradeWebSocketVal := by decide
  rw [StringUtils.cmpI_cString, StringUtils.cmpI_zero_iff (StringUtils.cString_nul value), lower]

section Create

variable {H : Type} {sha1 : List Byte → Digest} {createMsgHandler : CreateMsgHandler H}
  {encStr resource key : List Byte} {headerA : List (HeaderName × List Byte)}
  {offered : List (List Byte)} {logFailed : Bool}

theorem createWSResponse_requests (size : encStr.length = 32) (requests : Requests headerA key offered) :
    createWSResponse sha1 createMsgHandler encStr resource headerA logFailed =
      match createMsgHandler resource offered (lastValue .origin headerA) with
      | (some newHandler, subProtA) =>
          ⟨true, some ⟨newHandler, Base64.encode (sha1 (key ++ webSocketGUID)).bytes,
              Header.cString ((onlyOne subProtA).getD [])⟩,
            [⟨resource, true, lastValue .origin headerA, onlyOne subProtA⟩]⟩
      | (none, _) => ⟨true, none,
          if logFailed then [⟨resource, false, lastValue .origin headerA, none⟩] else []⟩ := by
  obtain ⟨⟨upgrade, upgrade_, websocket⟩, ⟨value, value_, rfl⟩, ⟨version, version_, thirteen⟩,
    rfl⟩ := requests
  have same := (cmpI_websocket upgrade).mpr websocket
  simp only [createWSResponse, UpgradeHeaders.scan_eq, upgrade_, value_, version_, same, thirteen,
    and_self, if_true, StringUtils.extractTrimWSTokens_eq, secWebSocketAccept_eq _ _ size]
  generalize createMsgHandler resource _ _ = made
  obtain ⟨handler, subProtA⟩ := made
  cases handler <;> rfl

theorem createWSResponse_other (other : ∀ key offered, ¬Requests headerA key offered) :
    createWSResponse sha1 createMsgHandler encStr resource headerA logFailed = ⟨false, none,
      if logFailed then [⟨resource, false, lastValue .origin headerA, none⟩] else []⟩ := by
  unfold createWSResponse
  simp only [UpgradeHeaders.scan_eq]
  split
  · rename_i upgrade key version upgrade_ key_ version_
    rw [if_neg]
    rintro ⟨same, thirteen⟩
    exact other _ _ ⟨⟨upgrade, upgrade_, (cmpI_websocket upgrade).mp same⟩, ⟨key, key_, rfl⟩,
      ⟨version, version_, thirteen⟩, rfl⟩
  · rfl

end Create

/-! ## The answer -/

namespace WSResponse

variable {H : Type} {r : WSResponse H}

/-- Texts which stay within their lines, and leave room for the others. -/
structure Plain (r : WSResponse H) : Prop where
  accept : cr ∉ r.secWebSocketAccept ∧ r.secWebSocketAccept.length = 28
  subProtocol : cr ∉ r.subProtocol ∧ r.subProtocol.length ≤ 100

/-- The names of the headers. -/
def headerNames : List HeaderName :=
  [.secWebSocketAccept, .connection, .upgrade, .secWebSocketProtocol]

theorem headerNames_clean : ∀ name ∈ headerNames,
    ExtraHeader.IsFieldName (Header.getHeaderName name) ∧
      (Header.getHeaderName name).length ≤ 22 := by
  decide +kernel

theorem extraHeaders_member (plain : r.Plain) : ∀ h ∈ r.extraHeaders,
    (∃ name ∈ headerNames, h.name = Header.getHeaderName name) ∧ cr ∉ h.value ∧
      h.value.length ≤ 100 := by
  obtain ⟨⟨accept, length⟩, subProtocol⟩ := plain
  have upgrade : cr ∉ connUpgradeVal ∧ connUpgradeVal.length ≤ 100 := by decide
  have websocket : cr ∉ upgradeWebSocketVal ∧ upgradeWebSocketVal.length ≤ 100 := by decide
  intro h member
  rcases List.mem_append.mp member with member | member
  · simp only [List.mem_cons, List.not_mem_nil, or_false] at member
    rcases member with rfl | rfl | rfl
    · exact ⟨⟨.secWebSocketAccept, by decide, rfl⟩, accept,
        Nat.le_trans (Nat.le_of_eq length) (by decide)⟩
    · exact ⟨⟨.connection, by decide, rfl⟩, upgrade⟩
    · exact ⟨⟨.upgrade, by decide, rfl⟩, websocket⟩
  · split at member
    · cases member
    · rw [List.mem_singleton.mp member]
      exact ⟨⟨.secWebSocketProtocol, by decide, rfl⟩, subProtocol⟩

theorem extraHeaders_field (plain : r.Plain) :
    (∀ h ∈ r.extraHeaders, h.Clean) ∧
      r.extraHeaders.map ExtraHeader.field = r.extraHeaders.map (fun h => (h.name, h.value)) ∧
      (r.extraHeaders.map ExtraHeader.lineLength).sum ≤ r.extraHeaders.length * 134 := by
  refine ExtraHeader.plain_headers (by decide) (fun h member => ?_)
    fun h member => (extraHeaders_member plain h member).2
  obtain ⟨⟨name, inside, same⟩, -⟩ := extraHeaders_member plain h member
  obtain ⟨fieldName, short⟩ := headerNames_clean name inside
  rw [same]
  exact ⟨fieldName, Nat.le_trans short (by decide)⟩

theorem page_sound (plain : r.Plain) : r.page.Sound [] ∧ r.page.textLength ≤ 600 := by
  obtain ⟨clean, -, room⟩ := extraHeaders_field plain
  have type : cr ∉ text "text/plain" := by decide
  have known : (0 : Nat) ≠ 18446744073709551615 := by decide
  have length : (text "text/plain").length = 10 := rfl
  have count : r.extraHeaders.length ≤ 4 := by
    rw [extraHeaders, List.length_append]
    split <;> simp only [List.length_cons, List.length_nil, Nat.reduceAdd, Nat.reduceLeDiff]
  refine ⟨⟨rfl, type, Page.no_charset, clean, fun _ => ⟨known, rfl⟩⟩, ?_⟩
  simp only [Page.textLength, page, length, Option.getD_none, List.length_nil]
  omega

theorem extraHeaders_lookup (plain : r.Plain) :
    Client.lookup (text "sec-websocket-accept") (r.extraHeaders.map ExtraHeader.field) =
        some r.secWebSocketAccept ∧
      Client.lookup (text "connection") (r.extraHeaders.map ExtraHeader.field) =
        some connUpgradeVal ∧
      Client.lookup (text "upgrade") (r.extraHeaders.map ExtraHeader.field) =
        some upgradeWebSocketVal ∧
      Client.lookup (text "sec-websocket-protocol") (r.extraHeaders.map ExtraHeader.field) =
        if r.subProtocol = [] then none else some r.subProtocol := by
  obtain ⟨-, fields, -⟩ := extraHeaders_field plain
  have accept : (Header.getHeaderName .secWebSocketAccept).map Header.lower =
      text "sec-websocket-accept" := by decide +kernel
  have connection : (Header.getHeaderName .connection).map Header.lower = text "connection" := by
    decide +kernel
  have upgrade : (Header.getHeaderName .upgrade).map Header.lower = text "upgrade" := by
    decide +kernel
  have protocol : (Header.getHeaderName .secWebSocketProtocol).map Header.lower =
      text "sec-websocket-protocol" := by decide +kernel
  have apart : [text "sec-websocket-accept", text "connection", text "upgrade",
      text "sec-websocket-protocol"].Nodup := by decide +kernel
  simp only [List.nodup_cons, List.mem_cons, List.not_mem_nil, or_false, not_or] at apart
  rw [fields]
  unfold Client.lookup extraHeaders
  split
  · simp [accept, connection, upgrade, apart]
  · simp [accept, connection, upgrade, protocol, apart]

end WSResponse

/-- The answer to a handshake, as a client has to check it: the connection is a WebSocket connection
    from here on, the digest is that of its own key, and the protocol is one which it has offered. -/
structure Upgraded (sha1 : List Byte → Digest) (key : List Byte) (offered : List (List Byte))
    (protocol : Option (List Byte)) (a : Client.Received) : Prop where
  code : a.code = 101
  upgrade : (Client.lookup (text "upgrade") a.fields).map (·.map Header.lower) =
    some (text "websocket")
  connection : (Client.lookup (text "connection") a.fields).map (·.map Header.lower) =
    some (text "upgrade")
  accept : Client.lookup (text "sec-websocket-accept") a.fields =
    some (Base64.encode (sha1 (key ++ webSocketGUID)).bytes)
  agreed : Client.lookup (text "sec-websocket-protocol") a.fields = protocol
  offered : ∀ name ∈ protocol, name ∈ offered
  body : a.body = []

section Answer

variable {H : Type} {sha1 : List Byte → Digest} {key : List Byte} {offered : List (List Byte)}

theorem WSResponse.upgraded {r : WSResponse H} {h : Heading} (plain : r.Plain)
    (accept : r.secWebSocketAccept = Base64.encode (sha1 (key ++ webSocketGUID)).bytes)
    {protocol : Option (List Byte)} (names : r.subProtocol = protocol.getD [])
    (chosen : ∀ name ∈ protocol, name ≠ [] ∧ name ∈ offered) {a : Client.Received}
    (readAs : r.page.ReadAs h [] a) : Upgraded sha1 key offered protocol a := by
  obtain ⟨digest, connection, upgrade, named⟩ := extraHeaders_lookup plain
  have others : ∀ name ∈ [text "sec-websocket-accept", text "connection", text "upgrade",
      text "sec-websocket-protocol"], name ∉ ResponseHead.frontNames ++
        [text "content-length", text "transfer-encoding"] := by decide +kernel
  have lower : upgradeWebSocketVal.map Header.lower = text "websocket" ∧
      connUpgradeVal.map Header.lower = text "upgrade" := by decide
  have agreed : (if r.subProtocol = [] then none else some r.subProtocol) = protocol := by
    rw [names]
    cases protocol with
    | none => rfl
    | some name => exact if_neg (chosen name rfl).1
  have looked := fun name inside => readAs.fields name (others name inside)
  refine ⟨readAs.code, ?_, ?_, ?_, ?_, fun name some_ => (chosen name some_).2, readAs.body⟩
  · rw [looked _ (by simp), page, upgrade, Option.map_some, lower.1]
  · rw [looked _ (by simp), page, connection, Option.map_some, lower.2]
  · rw [looked _ (by simp), page, digest, accept]
  · rw [looked _ (by simp), page, named, agreed]

/-- The protocol of the echo source. -/
def echoProtocol (offered : List (List Byte)) : Option (List Byte) :=
  if text "echo" ∈ offered then some (text "echo") else none

theorem echoProtocol_plain (offered : List (List Byte)) : cr ∉ (echoProtocol offered).getD [] ∧
    ((echoProtocol offered).getD []).length ≤ 100 ∧
    Header.cString ((echoProtocol offered).getD []) = (echoProtocol offered).getD [] := by
  unfold echoProtocol
  split <;> decide

theorem echoProtocol_offered {name : List Byte} (named : name ∈ echoProtocol offered) :
    name ≠ [] ∧ name ∈ offered := by
  unfold echoProtocol at named
  split at named
  · rename_i inside
    obtain rfl := Option.some.inj named
    exact ⟨by decide, inside⟩
  · cases named

variable {h : Heading} {maxHeadersLength : Nat} {encStr resource : List Byte}
  {headerA : List (HeaderName × List Byte)} {s : Serving}

/-- A request for a WebSocket connection gets an answer which its client accepts. -/
theorem echo_requests (heading : h.Sound) (small : maxHeadersLength ≤ 2147483647)
    (room : h.serverName.length + 800 ≤ maxHeadersLength) (size : encStr.length = 32)
    (settled : s.Settled) (isOpen : s.isOpen = true) (behind : Nat → Byte)
    (requests : Requests headerA key offered) {p : Page} {log : List WebSocketEvent}
    (made : create sha1 echoMsgHandler encStr resource headerA = (p, log)) :
    log = [⟨resource, true, lastValue .origin headerA, echoProtocol offered⟩] ∧
      p.Reaches h maxHeadersLength behind s
        (Upgraded sha1 key offered (echoProtocol offered)) := by
  let accept := Base64.encode (sha1 (key ++ webSocketGUID)).bytes
  have chosen : onlyOne (if text "echo" ∈ offered then [text "echo"] else []) =
      echoProtocol offered := by
    unfold echoProtocol
    split <;> rfl
  obtain ⟨line, short, cString⟩ := echoProtocol_plain offered
  have page : create sha1 echoMsgHandler encStr resource headerA =
      (WSResponse.page ⟨(), accept, (echoProtocol offered).getD []⟩,
        [⟨resource, true, lastValue .origin headerA, echoProtocol offered⟩]) := by
    simp only [create, createWSResponse_requests size requests, echoMsgHandler, chosen, cString]
    rfl
  obtain ⟨rfl, rfl⟩ := Prod.mk.inj (made.symm.trans page)
  have plain : WSResponse.Plain ⟨(), accept, (echoProtocol offered).getD []⟩ := by
    refine ⟨⟨fun member => ?_, ?_⟩, line, short⟩
    · exact absurd (Base64.encode_printable _ cr member) (by decide)
    · exact (Base64.encode_length _).trans (by rw [(sha1 (key ++ webSocketGUID)).size])
  obtain ⟨sound, length⟩ := WSResponse.page_sound plain
  exact ⟨rfl, (sound.reaches heading small (by omega) behind settled isOpen).mono fun a readAs =>
    WSResponse.upgraded plain rfl rfl (fun _ named => echoProtocol_offered named) readAs⟩

/-- Any other request gets the page which says no. -/
theorem echo_other (heading : h.Sound) (small : maxHeadersLength ≤ 2147483647)
    (room : h.serverName.length + 800 ≤ maxHeadersLength)
    (short : 2 * resource.length + 209 < chunkRoom) (settled : s.Settled) (isOpen : s.isOpen = true)
    (behind : Nat → Byte) (other : ∀ key offered, ¬Requests headerA key offered) {p : Page}
    {log : List WebSocketEvent}
    (made : create sha1 echoMsgHandler encStr resource headerA = (p, log)) :
    log = [⟨resource, false, lastValue .origin headerA, none⟩] ∧
      p.Reaches h maxHeadersLength behind s fun a =>
        a.code = 403 ∧ a.body = (CommonErrorResponse.create resource none .forbidden).page := by
  have page : create sha1 echoMsgHandler encStr resource headerA =
      (.commonError (.create resource none .forbidden),
        [⟨resource, false, lastValue .origin headerA, none⟩]) := by
    simp only [create, createWSResponse_other other, if_true]
  obtain ⟨rfl, rfl⟩ := Prod.mk.inj (made.symm.trans page)
  obtain ⟨sound, length⟩ := Page.commonError_sound (e := .create resource none .forbidden) short
    (.inl rfl)
  exact ⟨rfl, (sound.reaches heading small (by omega) behind settled isOpen).mono
    fun a readAs => ⟨readAs.code, readAs.body⟩⟩

/-- The echo source answers a request for a WebSocket connection with what its client accepts, with
    the protocol if it has been offered, and any other request with the page which says no. It logs
    that, and nothing else. -/
theorem echo_answered (heading : h.Sound) (small : maxHeadersLength ≤ 2147483647)
    (room : h.serverName.length + 800 ≤ maxHeadersLength) (size : encStr.length = 32)
    (short : 2 * resource.length + 209 < chunkRoom) (settled : s.Settled) (isOpen : s.isOpen = true)
    (behind : Nat → Byte) {p : Page} {log : List WebSocketEvent}
    (made : create sha1 echoMsgHandler encStr resource headerA = (p, log)) :
    (∃ key offered, Requests headerA key offered ∧
      log = [⟨resource, true, lastValue .origin headerA, echoProtocol offered⟩] ∧
      p.Reaches h maxHeadersLength behind s
        (Upgraded sha1 key offered (echoProtocol offered))) ∨
    ((∀ key offered, ¬Requests headerA key offered) ∧
      log = [⟨resource, false, lastValue .origin headerA, none⟩] ∧
      p.Reaches h maxHeadersLength behind s fun a =>
        a.code = 403 ∧ a.body = (CommonErrorResponse.create resource none .forbidden).page) := by
  by_cases requested : ∃ key offered, Requests headerA key offered
  · obtain ⟨key, offered, requests⟩ := requested
    obtain ⟨logged, reaches⟩ :=
      echo_requests heading small room size settled isOpen behind requests made
    exact Or.inl ⟨key, offered, requests, logged, reaches⟩
  · have other : ∀ key offered, ¬Requests headerA key offered :=
      fun key offered requests => requested ⟨key, offered, requests⟩
    obtain ⟨logged, reaches⟩ := echo_other heading small room short settled isOpen behind other made
    exact Or.inr ⟨other, logged, reaches⟩

/-- A request which offers `chat` and `echo`. -/
def sampleHello : Hello where
  key := text "dGhlIHNhbXBsZSBub25jZQ=="
  items := [⟨[], text "chat", [], List.forall_mem_nil _, List.forall_mem_nil _, by decide, by decide⟩,
    ⟨text " ", text "echo", [], List.forall_mem_singleton.mpr rfl, List.forall_mem_nil _, by decide,
      by decide⟩]

/-- The digest of its key. -/
def sampleDigest : Digest where
  bytes := [0xb3, 0x7a, 0x4f, 0x2c, 0xc0, 0x62, 0x4f, 0x16, 0x90, 0xf6, 0x46, 0x06, 0xcf, 0x38, 0x59,
    0x45, 0xb2, 0xbe, 0xc4, 0xea]
  size := rfl

def sampleHeading : Heading := ⟨text "EHTTP", false, 784111777⟩

def samplePage : Page × List WebSocketEvent :=
  create (fun _ => sampleDigest) echoMsgHandler (List.replicate 32 7) (text "/echo")
    sampleHello.headers

theorem echo_answered_sample : ∃ buffs t wire a key offered,
    Serving.step 4096 ⟨emptyQueue, true⟩
      (samplePage.1.answer (fun _ => 0) sampleHeading buffs true) = some t ∧ t.isOpen = false ∧
    Client.readResponse wire = some (a, []) ∧
    Upgraded (fun _ => sampleDigest) key offered (echoProtocol offered) a := by
  have requests : Requests ([] ++ sampleHello.headers) sampleHello.key sampleHello.offered :=
    sampleHello.requests (by decide +kernel) (by decide +kernel) fun _ => nofun
  have heading : sampleHeading.Sound := ⟨by decide +kernel, ResponseHead.redirection_clock 0⟩
  have made : samplePage = (samplePage.1, samplePage.2) := rfl
  have small : 4096 ≤ 2147483647 := by decide
  rcases echo_answered (s := ⟨emptyQueue, true⟩) heading small (by decide +kernel)
    List.length_replicate (by decide +kernel) ⟨emptyQueue_idle, rfl⟩ rfl (fun _ => 0) made with
    upgraded | other
  · obtain ⟨key, offered, -, -, reaches⟩ := upgraded
    obtain ⟨buffs, enough⟩ := samplePage.1.exists_enough
    obtain ⟨t, wire, a, step, -, stays, -, -, read, -, accepted⟩ := reaches buffs true enough
    exact ⟨buffs, t, wire, a, key, offered, step, stays, List.append_nil wire ▸ read [], accepted⟩
  · exact absurd requests (other.1 _ _)

end Answer

end MiniWebSrv.WebSocket
