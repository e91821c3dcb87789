import MiniWebSrv.HTTP.Combiner
import MiniWebSrv.HTTP.Connection
import MiniWebSrv.HTTP.ZipSource
import MiniWebSrv.WebSocket.Handshake

/-! # Sites

The sources of a server behind a `Combiner`, and `ResponseHandler` in front of them, which answers the
requests that ask for permission itself and makes a page of what a source throws. Each request on a
connection gets what the source which is responsible for it should show, and the client reads these
responses one behind the other.
-/

namespace MiniWebSrv.HTTP

open Word Run FieldLines Responding RespSource ZipArchive WebSocket

/-! ## CORSPreflight -/

namespace CORSPreflight

/-- A turn of the loop: whether there is a method, and the headers. -/
def step (found : Bool × Option (List Byte)) (currHeader : HeaderName × List Byte) :
    Bool × Option (List Byte) :=
  match currHeader.1 with
  | .accessControlRequestMethod => (true, found.2)
  | .accessControlRequestHeaders => (found.1, some currHeader.2)
  | _ => found

/-- `CORSPreflight::Create`: the headers which are allowed, if this is such a request. -/
def create (method : Method) (headerA : List (HeaderName × List Byte)) : Option (List Byte) :=
  if method = .options then
    let found := headerA.foldl step (false, none)
    if found.1 then some (Header.cString (found.2.getD [])) else none
  else
    none

/-- `CORSPreflight::Response` -/
def page (allowedHeaders : List Byte) : Page where
  response := .corsPreflight
  respCode := .ok
  contentType := text "text/plain"
  contentTypeCharset := none
  extraHeaders :=
    [⟨text "Access-Control-Allow-Origin", text "*"⟩,
      ⟨text "Access-Control-Request-Methods", text "GET, POST"⟩] ++
      if allowedHeaders = [] then [] else [⟨text "Access-Control-Allow-Headers", allowedHeaders⟩]

end CORSPreflight

/-! ## Sources -/

/-- What the code leaves to others: the digest, what is in memory which nobody has written to, and the
    type and the text of the exception for a file which cannot be opened. -/
structure Platform where
  sha1 : List Byte → Digest
  encStr : List Byte
  readBuff : ReadBuff
  zipMemory : ZipResponse
  ex : List Byte × List Byte
  encSized : encStr.length = 32

/-- `Combiner::RedirectResponse` -/
def RespSource.RedirectResponse.page (r : RedirectResponse) : Page where
  response := .redirect
  respCode := r.respCode
  contentType := text "text/plain"
  contentTypeCharset := none
  extraHeaders := [⟨Header.getHeaderName .location, r.targetLocation⟩]

/-- The sources which a site is made of. -/
inductive Source where
  | fs (disk : Disk) (root : List (List Byte))
  | zip (archive : Option (List Byte)) (fileInfoMap : StringMap ArchiveFile)
  /-- `StaticRespSource` over a string or a range of somebody else's. The constructor which should keep
      a copy moves `RespStr` into itself, so that its source has no text: there is none of these here. -/
  | static (data contentType : List Byte) (charset : Option (List Byte)) (respCode : ResponseCode)
  | echo

/-- `Create`, or `none` where it throws. -/
def Source.create (env : Platform) (source : Source) (resource : List Byte)
    (headerA : List (HeaderName × List Byte)) : Option Page :=
  match source with
  | .fs disk root => FS.create disk root resource headerA
  | .zip archive fileInfoMap =>
      some (Zip.create archive fileInfoMap env.readBuff env.zipMemory resource headerA)
  | .static data contentType charset respCode =>
      some ⟨.string ⟨data⟩, respCode, contentType, charset, []⟩
  | .echo => some (WebSocket.create env.sha1 echoMsgHandler env.encStr resource headerA).1

/-- What `Combiner::Create` returns, or `none` where it throws. -/
def RespSource.Created.page (env : Platform) (headerA : List (HeaderName × List Byte)) :
    Created Source → Option Page
  | .redirect response => some response.page
  | .create respSource resource => respSource.create env resource headerA
  | .commonError response => some (.commonError response)

/-! ## Requests -/

/-- A request as `ResponseHandler` finds it. -/
structure Request where
  method : Method
  resource : List Byte
  headerA : List (HeaderName × List Byte)
  /-- What the version and the headers say. -/
  isKeepAlive : Bool
  currTime : Int

structure Site where
  serverName : List Byte
  handleCORS : Bool
  respSource : Combiner Source

namespace Site

/-- What the source makes of a request. -/
def created (env : Platform) (site : Site) (req : Request) : Option Page :=
  (site.respSource.create req.resource).page env req.headerA

/-- The permission which a request asks for. -/
def preflight (site : Site) (req : Request) : Option (List Byte) :=
  if site.handleCORS then CORSPreflight.create req.method req.headerA else none

/-- `CurrResp` -/
def currResp (env : Platform) (site : Site) (req : Request) : Page :=
  match site.preflight req with
  | some allowedHeaders => CORSPreflight.page allowedHeaders
  | none => .orError req.resource env.ex (site.created env req)

/-- The headers of the connection, with those for all origins unless the response has them. -/
def heading (site : Site) (req : Request) : Heading :=
  ⟨site.serverName, site.handleCORS && (site.preflight req).isNone, req.currTime⟩

end Site

/-! ## What a client should see -/

/-- What a source shows of a resource, in the answer to a request for `currResource`. -/
inductive Source.Sees (env : Platform) (resource currResource : List Byte)
    (headerA : List (HeaderName × List Byte)) (a : Client.Received) : Source → Prop
  | file {disk : Disk} {root : List (List Byte)} {code : ResponseCode}
      (shown : FS.Shows disk root resource (ifModSinceTime headerA) code a.body)
      (number : a.code = code.number) : Sees env resource currResource headerA a (.fs disk root)
  | broken {disk : Disk} {root : List (List Byte)}
      (broken : FS.Broken disk root resource (ifModSinceTime headerA)) (code : a.code = 500)
      (body : a.body = (CommonErrorResponse.create currResource (some env.ex) .serverError).page) :
      Sees env resource currResource headerA a (.fs disk root)
  | zip {mktime : Nat → ZipArchive.Tm → Int} {memory : ReadBuff} {ms : List ZipFormat.Member}
      {fileInfoMap : StringMap ArchiveFile}
      (loaded : load mktime memory (ZipFormat.archive ms) = .ok fileInfoMap)
      (sees : Zip.Sees mktime ms resource (ifModSinceTime headerA) a) :
      Sees env resource currResource headerA a (.zip (some (ZipFormat.archive ms)) fileInfoMap)
  | static {contentType : List Byte} {charset : Option (List Byte)} {respCode : ResponseCode}
      (code : a.code = respCode.number) :
      Sees env resource currResource headerA a (.static a.body contentType charset respCode)
  | upgraded {key : List Byte} {offered : List (List Byte)}
      (requests : Requests headerA key offered)
      (upgraded : Upgraded env.sha1 key offered (echoProtocol offered) a) :
      Sees env resource currResource headerA a .echo
  | refused (other : ∀ key offered, ¬Requests headerA key offered) (code : a.code = 403)
      (body : a.body = (CommonErrorResponse.create resource none .forbidden).page) :
      Sees env resource currResource headerA a .echo

namespace CORSPreflight

/-- A request which asks for a permission, and the headers which it asks for. -/
structure Asks (method : Method) (headerA : List (HeaderName × List Byte)) (allowed : List Byte) :
    Prop where
  method : method = .options
  asked : ∃ h ∈ headerA, h.1 = .accessControlRequestMethod
  headers : Header.cString ((WebSocket.lastValue .accessControlRequestHeaders headerA).getD []) = allowed

end CORSPreflight

/-- What a client should see of the answer to a request. -/
inductive Site.Sees (env : Platform) (site : Site) (req : Request) (a : Client.Received) : Prop
  | preflight {allowed : List Byte} (cors : site.handleCORS = true)
      (asks : CORSPreflight.Asks req.method req.headerA allowed) (code : a.code = 200)
      (body : a.body = [])
      (headers : Client.lookup (text "access-control-allow-headers") a.fields =
        if allowed = [] then none else some allowed)
  | redirect {r : RedirectResponse}
      (other : ∀ allowed, site.handleCORS = true → ¬CORSPreflight.Asks req.method req.headerA allowed)
      (routed : site.respSource.Routed req.resource (.redirect r)) (code : a.code = r.respCode.number)
      (location : Client.lookup (text "location") a.fields = some r.targetLocation)
      (body : a.body = [])
  | source {src : Source} {resource : List Byte}
      (other : ∀ allowed, site.handleCORS = true → ¬CORSPreflight.Asks req.method req.headerA allowed)
      (routed : site.respSource.Routed req.resource (.create src resource))
      (sees : src.Sees env resource req.resource req.headerA a)
  | notFound {e : CommonErrorResponse}
      (other : ∀ allowed, site.handleCORS = true → ¬CORSPreflight.Asks req.method req.headerA allowed)
      (routed : site.respSource.Routed req.resource (.commonError e)) (code : a.code = 404)
      (body : a.body = e.page)

/-! ## Sites as they should be -/

/-- A source whose files have dates and headers which can be sent. -/
inductive Source.Proper : Source → Prop
  | fs {disk : Disk} {root : List (List Byte)}
      (years : ∀ target, root <+: target → Header.FourDigits (disk.file target).lastModTime) :
      Proper (.fs disk root)
  | zip {mktime : Nat → ZipArchive.Tm → Int} {memory : ReadBuff} {ms : List ZipFormat.Member}
      {fileInfoMap : StringMap ArchiveFile} (counted : ZipFormat.Counted ms)
      (deflated : ∀ m ∈ ms, m.method = 8)
      (years : ∀ m ∈ ms, ∀ n, Header.FourDigits (mktime n (fileModTime m.modTime m.modDate)))
      (loaded : load mktime memory (ZipFormat.archive ms) = .ok fileInfoMap) :
      Proper (.zip (some (ZipFormat.archive ms)) fileInfoMap)
  | static {data contentType : List Byte} {charset : Option (List Byte)} {respCode : ResponseCode}
      (type : cr ∉ contentType) (set : ∀ encodingStr ∈ charset, cr ∉ encodingStr)
      (short : contentType.length + (charset.getD []).length ≤ 600)
      (sized : data.length < notModifiedSize)
      (bodiless : Client.bodiless respCode.number → data = []) :
      Proper (.static data contentType charset respCode)
  | echo : Proper .echo

/-- A resource about which a page fits into a block. -/
def Short (resource : List Byte) : Prop := 2 * resource.length + 209 < chunkRoom

instance (resource : List Byte) : Decidable (Short resource) := inferInstanceAs (Decidable (_ < _))

structure Site.Proper (maxHeadersLength : Nat) (env : Platform) (site : Site) : Prop where
  serverName : cr ∉ site.serverName
  room : site.serverName.length + 2200 ≤ maxHeadersLength
  small : maxHeadersLength ≤ 2147483647
  sources : ∀ h ∈ site.respSource.holderA, h.respSource.Proper
  targets : ∀ name rew, site.respSource.rewMap.lookup name = some rew →
    cr ∉ rew.target ∧ rew.target.length ≤ 600 ∧ Short rew.target

/-- A request which is not too long, at a time whose year has four digits. -/
structure Request.Proper (env : Platform) (req : Request) : Prop where
  resource : Short req.resource
  exception : 2 * req.resource.length + env.ex.1.length + env.ex.2.length + 200 < chunkRoom
  headers : ∀ value, WebSocket.lastValue .accessControlRequestHeaders req.headerA = some value →
    cr ∉ value ∧ value.length ≤ 600
  clock : Header.FourDigits req.currTime

/-! ## Preflight requests -/

namespace CORSPreflight

theorem foldl_step (headerA : List (HeaderName × List Byte)) :
    headerA.foldl step (false, none) =
      (headerA.any fun h => decide (h.1 = .accessControlRequestMethod),
        WebSocket.lastValue .accessControlRequestHeaders headerA) := by
  induction headerA using List.reverseRecOn with
  | nil => rfl
  | append_singleton headerA h ih =>
      obtain ⟨name, value⟩ := h
      rw [List.foldl_append, ih, List.any_append, lastValue_append]
      cases name <;> simp [step]

theorem create_iff_asks {method : Method} {headerA : List (HeaderName × List Byte)}
    {allowed : List Byte} : create method headerA = some allowed ↔ Asks method headerA allowed := by
  unfold create
  split
  · rename_i options
    rw [foldl_step]
    dsimp only
    split
    · rename_i asked
      rw [Option.some.injEq]
      refine ⟨fun same => ⟨options, ?_, same⟩, fun asks => asks.headers⟩
      simpa only [List.any_eq_true, decide_eq_true_eq] using asked
    · rename_i unasked
      refine iff_of_false nofun fun asks => unasked ?_
      simpa only [List.any_eq_true, decide_eq_true_eq] using asks.asked
  · rename_i other
    exact iff_of_false nofun fun asks => other asks.method

theorem page_sound {allowed : List Byte} (line : cr ∉ allowed) (short : allowed.length ≤ 600) :
    (page allowed).Sound [] ∧ (page allowed).textLength ≤ 2000 ∧
      Client.lookup (text "access-control-allow-origin")
        ((page allowed).extraHeaders.map ExtraHeader.field) = some (text "*") ∧
      Client.lookup (text "access-control-allow-headers")
        ((page allowed).extraHeaders.map ExtraHeader.field) =
          if allowed = [] then none else some allowed := by
  have names : ∀ name ∈ [text "Access-Control-Allow-Origin", text "Access-Control-Request-Methods",
      text "Access-Control-Allow-Headers"], ExtraHeader.IsFieldName name ∧ name.length ≤ 30 := by
    decide +kernel
  have origin : (text "Access-Control-Allow-Origin").map Header.lower =
      text "access-control-allow-origin" := by decide +kernel
  have methods : (text "Access-Control-Request-Methods").map Header.lower =
      text "access-control-request-methods" := by decide +kernel
  have headers : (text "Access-Control-Allow-Headers").map Header.lower =
      text "access-control-allow-headers" := by decide +kernel
  have apart : text "access-control-allow-origin" ≠ text "access-control-allow-headers" ∧
      text "access-control-request-methods" ≠ text "access-control-allow-headers" := by decide +kernel
  have values : ∀ value ∈ [text "*", text "GET, POST", allowed],
      cr ∉ value ∧ value.length ≤ 600 := by
    have plain : ∀ value ∈ [text "*", text "GET, POST"], cr ∉ value ∧ value.length ≤ 600 := by decide
    simp only [List.forall_mem_cons] at plain ⊢
    exact ⟨plain.1, plain.2.1, ⟨line, short⟩, List.forall_mem_nil _⟩
  have inside : ∀ h ∈ (page allowed).extraHeaders,
      h.name ∈ [text "Access-Control-Allow-Origin", text "Access-Control-Request-Methods",
        text "Access-Control-Allow-Headers"] ∧ h.value ∈ [text "*", text "GET, POST", allowed] := by
    intro h member
    simp only [page, List.mem_append, List.mem_cons, List.not_mem_nil, or_false] at member
    rcases member with (rfl | rfl) | member
    · simp
    · simp
    · split at member
      · cases member
      · rw [List.mem_singleton.mp member]
        simp
  have count : (page allowed).extraHeaders.length ≤ 3 := by
    rw [page, List.length_append]
    split <;> simp only [List.length_cons, List.length_nil, Nat.reduceAdd, Nat.reduceLeDiff]
  obtain ⟨clean, fields, room⟩ := ExtraHeader.plain_headers (by decide)
    (fun h member => names _ (inside h member).1) fun h member => values _ (inside h member).2
  have type : cr ∉ text "text/plain" ∧ (text "text/plain").length = 10 := by decide
  have known : (0 : Nat) ≠ 18446744073709551615 := by decide
  refine ⟨⟨rfl, type.1, Page.no_charset, clean, fun _ => ⟨known, rfl⟩⟩, ?_, ?_⟩
  · have length : (page allowed).textLength = 10 + ((page allowed).extraHeaders.map
        ExtraHeader.lineLength).sum := rfl
    omega
  · rw [fields]
    unfold Client.lookup page
    split
    · simp [origin, methods, apart]
    · simp [origin, methods, headers, apart]

end CORSPreflight

theorem RespSource.RedirectResponse.page_sound {r : RedirectResponse}
    (line : cr ∉ r.targetLocation) (short : r.targetLocation.length ≤ 600)
    (code : r.respCode = .movePermanent ∨ r.respCode = .tempRedirect) :
    r.page.Sound [] ∧ r.page.textLength ≤ 2000 ∧
      Client.lookup (text "location") (r.page.extraHeaders.map ExtraHeader.field) =
        some r.targetLocation := by
  have name : ExtraHeader.IsFieldName (Header.getHeaderName .location) ∧
      (Header.getHeaderName .location).length = 8 ∧
      (Header.getHeaderName .location).map Header.lower = text "location" := by decide +kernel
  obtain ⟨clean, field, length⟩ := ExtraHeader.IsFieldName.clean
    (h := ⟨Header.getHeaderName .location, r.targetLocation⟩) name.1 line
    (Nat.le_trans short (by decide))
  have type : cr ∉ text "text/plain" ∧ (text "text/plain").length = 10 := by decide
  refine ⟨⟨rfl, type.1, Page.no_charset, ?_, ?_⟩, ?_, ?_⟩
  · intro h member
    rw [List.mem_singleton.mp member]
    exact clean
  · have moved : ¬Client.bodiless ResponseCode.movePermanent.number = true ∧
        ¬Client.bodiless ResponseCode.tempRedirect.number = true := by decide
    intro bodiless
    dsimp only [RedirectResponse.page] at bodiless
    rcases code with code | code
    · exact absurd (code ▸ bodiless) moved.1
    · exact absurd (code ▸ bodiless) moved.2
  · simp only [Page.textLength, RedirectResponse.page, List.map_singleton, List.sum_singleton, length,
      Option.getD_none, List.length_nil, type.2, name.2.1]
    omega
  · simp only [RedirectResponse.page, List.map_singleton, field]
    have none_ : ∀ f ∈ ([] : List (List Byte × List Byte)),
        f.1.map Header.lower ≠ text "location" := List.forall_mem_nil _
    exact ResponseHead.lookup_found none_ name.2.2 []

/-! ## Answers -/

section Answers

variable {env : Platform} {maxHeadersLength : Nat} {s : Serving}

/-- A source shows what it should, or the page about what it has thrown. -/
theorem Source.Proper.reaches {src : Source} (proper : src.Proper) {h : Heading} (heading : h.Sound)
    (small : maxHeadersLength ≤ 2147483647) (room : h.serverName.length + 2200 ≤ maxHeadersLength)
    {resource currResource : List Byte} (short : Short resource)
    (exception : 2 * currResource.length + env.ex.1.length + env.ex.2.length + 200 < chunkRoom)
    (headerA : List (HeaderName × List Byte)) (settled : s.Settled) (isOpen : s.isOpen = true)
    (behind : Nat → Byte) :
    (Page.orError currResource env.ex (src.create env resource headerA)).Reaches h maxHeadersLength
      behind s (src.Sees env resource currResource headerA) := by
  cases proper with
  | fs years =>
      rename_i disk root
      cases made : Source.create env (.fs disk root) resource headerA with
      | none =>
          obtain ⟨sound, length⟩ := Page.commonError_sound
            (e := .create currResource (some env.ex) .serverError) exception (.inr (.inr rfl))
          exact (sound.reaches heading small (by omega) behind settled isOpen).mono fun a readAs =>
            .broken (FS.create_none made) readAs.code readAs.body
      | some p =>
          obtain ⟨content, shown, sound, length⟩ :=
            FS.create_sound short (fun target finds => years target finds.2.1) made
          exact (sound.reaches heading small (by omega) behind settled isOpen).mono fun a readAs =>
            .file (readAs.body.symm ▸ shown) readAs.code
  | zip counted deflated years loaded =>
      rename_i mktime memory ms fileInfoMap
      have filled := load_archive mktime memory counted fun m member => .inr (deflated m member)
      obtain rfl := Except.ok.inj (filled.symm.trans loaded)
      exact (Zip.create_reaches heading small (by omega) mktime counted deflated years short
        env.readBuff env.zipMemory headerA settled isOpen behind).mono fun a sees =>
          .zip loaded sees
  | static type set short sized bodiless =>
      rename_i data contentType charset respCode
      have sound : Page.Sound ⟨.string ⟨data⟩, respCode, contentType, charset, []⟩ data := by
        refine ⟨⟨rfl, sized⟩, type, set, nofun, fun none_ => ⟨?_, bodiless none_⟩⟩
        exact Nat.ne_of_lt sized
      have length : Page.textLength ⟨.string ⟨data⟩, respCode, contentType, charset, []⟩ =
        contentType.length + (charset.getD []).length := rfl
      exact (sound.reaches heading small (by omega) behind settled isOpen).mono fun a readAs =>
        readAs.body ▸ .static readAs.code
  | echo =>
      by_cases requested : ∃ key offered, Requests headerA key offered
      · obtain ⟨key, offered, requests⟩ := requested
        exact (echo_requests heading small (by omega) env.encSized settled isOpen behind requests
          rfl).2.mono fun a upgraded => .upgraded requests upgraded
      · have other : ∀ key offered, ¬Requests headerA key offered :=
          fun key offered requests => requested ⟨key, offered, requests⟩
        exact (echo_other heading small (by omega) short settled isOpen behind other
          rfl).2.mono fun a refused => .refused other refused.1 refused.2

theorem Combiner.create_routed {S : Type} (c : Combiner S) (resource : List Byte) :
    c.Routed resource (c.create resource) := by
  cases mapped : c.rewMap.lookup resource with
  | none => exact (Combiner.Rewrites.same mapped).routed
  | some rew =>
      cases kind : rew.isRedirect with
      | false => exact (Combiner.Rewrites.target mapped kind).routed
      | true =>
          have created : c.create resource = .redirect (.create rew.target rew.isPermanentRedirect) := by
            simp only [Combiner.create, mapped, kind, if_true]
          exact created ▸ .redirect mapped kind

namespace Site

variable {site : Site} {req : Request}

/-- A request gets what it should see, and it is for all origins if the site handles these. -/
structure Answers (env : Platform) (site : Site) (req : Request) (a : Client.Received) : Prop where
  sees : site.Sees env req a
  origin : site.handleCORS = true → Page.AllOrigins a

theorem rewrites_short (proper : site.Proper maxHeadersLength env) (short : Short req.resource)
    {r : List Byte} (rewrites : site.respSource.Rewrites req.resource r) : Short r := by
  cases rewrites with
  | same => exact short
  | target mapped => exact (proper.targets _ _ mapped).2.2

theorem preflight_iff {allowed : List Byte} : site.preflight req = some allowed ↔
    site.handleCORS = true ∧ CORSPreflight.Asks req.method req.headerA allowed := by
  rw [preflight, ← CORSPreflight.create_iff_asks]
  split
  · rename_i cors
    exact (and_iff_right cors).symm
  · rename_i none_
    exact iff_of_false nofun fun asks => none_ asks.1

theorem asked_plain (request : req.Proper env) {allowed : List Byte}
    (asks : CORSPreflight.Asks req.method req.headerA allowed) :
    cr ∉ allowed ∧ allowed.length ≤ 600 := by
  obtain ⟨-, -, rfl⟩ := asks
  cases last : WebSocket.lastValue .accessControlRequestHeaders req.headerA with
  | none => exact ⟨by decide, by decide⟩
  | some value =>
      obtain ⟨line, short⟩ := request.headers value last
      exact ⟨fun member => line (List.takeWhile_subset _ member),
        Nat.le_trans (ResponseHead.cString_length value) short⟩

/-- Any request which does not ask for permission goes where it should. -/
theorem created_reaches (proper : site.Proper maxHeadersLength env) (request : req.Proper env)
    (none_ : site.preflight req = none) (settled : s.Settled) (isOpen : s.isOpen = true)
    (behind : Nat → Byte) :
    (Page.orError req.resource env.ex (site.created env req)).Reaches (site.heading req)
      maxHeadersLength behind s (site.Sees env req) := by
  have heading : (site.heading req).Sound := ⟨proper.serverName, request.clock⟩
  have room : (site.heading req).serverName.length + 2200 ≤ maxHeadersLength := proper.room
  have other : ∀ allowed, site.handleCORS = true →
      ¬CORSPreflight.Asks req.method req.headerA allowed := by
    intro allowed cors asks
    rw [preflight_iff.mpr ⟨cors, asks⟩] at none_
    cases none_
  have routed := Combiner.create_routed site.respSource req.resource
  unfold created
  cases goes : site.respSource.create req.resource with
  | redirect r =>
      rw [goes] at routed
      obtain ⟨line, short, code⟩ : cr ∉ r.targetLocation ∧ r.targetLocation.length ≤ 600 ∧
          (r.respCode = .movePermanent ∨ r.respCode = .tempRedirect) := by
        cases routed with
        | redirect mapped kind =>
            rename_i rew
            obtain ⟨line, short, -⟩ := proper.targets _ rew mapped
            refine ⟨line, short, ?_⟩
            cases rew.isPermanentRedirect with
            | false => exact Or.inr rfl
            | true => exact Or.inl rfl
      obtain ⟨sound, length, location⟩ := RedirectResponse.page_sound line short code
      refine (sound.reaches heading proper.small (by omega) behind settled isOpen).mono
        fun a readAs => .redirect other routed readAs.code ?_ readAs.body
      rw [readAs.fields _ (by decide +kernel), location]
  | create src resource =>
      rw [goes] at routed
      cases routed with
      | create rewritten order first covers whole segment =>
          rename_i r before behind' holder
          have member : holder ∈ site.respSource.holderA :=
            order ▸ List.mem_append_right _ List.mem_cons_self
          have short : Short resource := by
            have fits := rewrites_short proper request.resource rewritten
            rw [Short, ← whole, List.length_append] at fits
            rw [Short]
            omega
          exact ((proper.sources holder member).reaches heading proper.small room short
            request.exception req.headerA settled isOpen behind).mono fun a sees =>
              .source other (.create rewritten order first covers whole segment) sees
  | commonError e =>
      rw [goes] at routed
      cases routed with
      | notFound rewritten nowhere =>
          have short := rewrites_short proper request.resource rewritten
          rename_i r
          obtain ⟨sound, length⟩ := Page.commonError_sound (e := .create r none .notFound) short
            (.inr (.inl rfl))
          exact (sound.reaches heading proper.small (by omega) behind settled isOpen).mono
            fun a readAs => .notFound other (.notFound rewritten nowhere) readAs.code readAs.body

theorem currResp_reaches (proper : site.Proper maxHeadersLength env) (request : req.Proper env)
    (settled : s.Settled) (isOpen : s.isOpen = true) (behind : Nat → Byte) :
    (site.currResp env req).Reaches (site.heading req) maxHeadersLength behind s
      (site.Answers env req) := by
  unfold currResp
  cases asked : site.preflight req with
  | some allowed =>
      obtain ⟨cors, asks⟩ := preflight_iff.mp asked
      obtain ⟨line, short⟩ := asked_plain request asks
      obtain ⟨sound, length, origin, headers⟩ := CORSPreflight.page_sound line short
      have silent : (site.heading req).writeCORSHeaders = false := by
        simp only [heading, asked, Option.isNone_some, Bool.and_false]
      have named : (site.heading req).Sound := ⟨proper.serverName, request.clock⟩
      have room : (CORSPreflight.page allowed).textLength + (site.heading req).serverName.length +
          200 ≤ maxHeadersLength := by
        have most : (site.heading req).serverName.length + 2200 ≤ maxHeadersLength := proper.room
        omega
      have reaches := sound.reaches named proper.small room behind settled isOpen
      refine reaches.mono fun a readAs => ⟨.preflight cors asks readAs.code readAs.body ?_, fun _ => ?_⟩
      · rw [readAs.fields _ (by decide +kernel), headers]
      · rw [Page.AllOrigins, readAs.allowOrigin, silent, if_neg Bool.false_ne_true, origin]
  | none =>
      have origin : site.handleCORS = true → (site.heading req).writeCORSHeaders = true := by
        intro cors
        simp only [heading, asked, cors, Option.isNone_none, Bool.and_self]
      exact (created_reaches proper request asked settled isOpen behind).origin.mono fun a answers =>
        ⟨answers.2, fun cors => answers.1 (origin cors)⟩

/-! ## Conversations -/

/-- A request, and what has been in the blocks which its response is read into. -/
structure Turn where
  req : Request
  buffs : List (List Byte)

/-- The response on its way. -/
def answer (env : Platform) (site : Site) (behind : Nat → Byte) (turn : Turn) : Reply :=
  (site.currResp env turn.req).answer behind (site.heading turn.req) turn.buffs turn.req.isKeepAlive

/-- Whether the connection reads another request. -/
def kept (env : Platform) (site : Site) (turn : Turn) : Bool :=
  (site.currResp env turn.req).kept turn.req.isKeepAlive

structure Turn.Proper (env : Platform) (site : Site) (turn : Turn) : Prop where
  request : turn.req.Proper env
  enough : (site.currResp env turn.req).Enough turn.buffs

variable {turns : List Turn}

/-- The responses of a conversation in parts, each of which the client reads as it should. -/
theorem exec_parts (proper : site.Proper maxHeadersLength env)
    (all : ∀ turn ∈ turns, turn.Proper env site) (settled : s.Settled) (isOpen : s.isOpen = true)
    (behind : Nat → Byte) :
    ∃ t, ∃ parts : List (List Byte × Client.Received),
      exec (Serving.step maxHeadersLength) s
        ((Serving.served (site.kept env) turns).map (site.answer env behind)) = some t ∧
      t.Settled ∧ t.isOpen = turns.all (site.kept env) ∧
      t.writeBuff.committed = s.writeBuff.committed ++ parts.flatMap Prod.fst ∧
      (∀ part ∈ parts, part.1 ≠ [] ∧
        ∀ rest, Client.readResponse (part.1 ++ rest) = some (part.2, rest)) ∧
      List.Forall₂ (fun turn part => site.Answers env turn.req part.2)
        (Serving.served (site.kept env) turns) parts := by
  induction turns generalizing s with
  | nil => exact ⟨s, [], rfl, settled, isOpen, (List.append_nil _).symm, nofun, .nil⟩
  | cons turn turns ih =>
      obtain ⟨request, enough⟩ := all turn List.mem_cons_self
      obtain ⟨mid, wire, a, taken, next, stays, committed, some_, read, -, answers⟩ :=
        currResp_reaches proper request settled isOpen behind turn.buffs turn.req.isKeepAlive enough
      rw [Serving.served, List.all_cons]
      cases kept : site.kept env turn with
      | false =>
          refine ⟨mid, [(wire, a)], ?_, next, by rw [stays, Bool.false_and]; exact kept, ?_, ?_, ?_⟩
          · rw [if_neg Bool.false_ne_true, List.map_singleton, exec_cons, answer, taken]
            rfl
          · rw [List.flatMap_singleton]
            exact committed
          · intro part member
            rw [List.mem_singleton.mp member]
            exact ⟨some_, read⟩
          · rw [if_neg Bool.false_ne_true]
            exact .cons answers .nil
      | true =>
          obtain ⟨t, parts, run, last, open_, behind_, reads, shown⟩ := ih
            (fun other member => all other (List.mem_cons_of_mem turn member)) next
            (stays.trans kept)
          refine ⟨t, (wire, a) :: parts, ?_, last, by rw [open_, Bool.true_and], ?_, ?_, ?_⟩
          · rw [if_pos rfl, List.map_cons, exec_cons, answer, taken]
            exact run
          · rw [behind_, committed, List.flatMap_cons, List.append_assoc]
          · exact List.forall_mem_cons.mpr ⟨⟨some_, read⟩, reads⟩
          · rw [if_pos rfl]
            exact .cons answers shown

/-- A machine on which nothing has been written. -/
def samplePlatform : Platform where
  sha1 := fun _ => sampleDigest
  encStr := List.replicate 32 7
  readBuff := fun _ => 0
  zipMemory := ZipResponse.zeroed
  ex := (text "std::exception", text "?")
  encSized := rfl

/-- A text, which is also what the root stands for, and an old name for it. -/
def sampleSite : Site where
  serverName := text "EHTTP"
  handleCORS := true
  respSource :=
    ((Combiner.empty.addRespSource (text "/hello")
      (.static (text "Hello!") (text "text/plain") (some (text "utf-8")) .ok) true).addSimpleRewrite
        (text "/") (text "/hello") false).addRedirect (text "/old") (text "/hello") true

/-- The old name, and a request for permission. -/
def sampleRedirect : Request := ⟨.get, text "/old", [], true, 784111777⟩

def samplePreflight : Request where
  method := .options
  resource := text "/hello"
  headerA := [(.accessControlRequestMethod, text "GET"), (.accessControlRequestHeaders, text "X-Token")]
  isKeepAlive := true
  currTime := 784111777

theorem sampleSite_proper : sampleSite.Proper 4096 samplePlatform where
  serverName := by decide +kernel
  room := by decide +kernel
  small := by decide
  sources := by
    intro h member
    rw [List.mem_singleton.mp member]
    exact .static (by decide +kernel) (by decide +kernel) (by decide +kernel) (by decide +kernel)
      (by decide +kernel)
  targets := by
    intro name rew mapped
    have all : ∀ entry ∈ sampleSite.respSource.rewMap,
        cr ∉ entry.2.target ∧ entry.2.target.length ≤ 600 ∧ Short entry.2.target := by decide +kernel
    obtain ⟨before, after, whole, -⟩ := List.lookup_eq_some_iff.mp mapped
    exact all (name, rew) (whole ▸ List.mem_append_right before List.mem_cons_self)

theorem sampleRedirect_proper : sampleRedirect.Proper samplePlatform :=
  ⟨by decide +kernel, by decide +kernel, nofun, ResponseHead.redirection_clock 0⟩

theorem samplePreflight_proper : samplePreflight.Proper samplePlatform := by
  refine ⟨by decide +kernel, by decide +kernel, ?_, ResponseHead.redirection_clock 0⟩
  rintro value ⟨⟩
  decide +kernel

end Site

end Answers

/-! ## What is outside the roots -/

/-- Sources which differ in nothing but in what is outside their roots. -/
inductive Source.Agree : Source → Source → Prop
  | same (src : Source) : Agree src src
  | fs {disk disk' : Disk} {root : List (List Byte)} (agree : FS.Agree root disk disk') :
      Agree (.fs disk root) (.fs disk' root)

theorem Source.Agree.create {src src' : Source} (agree : Source.Agree src src') (env : Platform)
    (resource : List Byte) (headerA : List (HeaderName × List Byte)) :
    src.create env resource headerA = src'.create env resource headerA := by
  cases agree with
  | same => rfl
  | fs agree => exact FS.create_agree agree resource headerA

/-- The same place, and sources which agree. -/
structure RSHolder.Agree (h h' : RSHolder Source) : Prop where
  prefix_ : h.prefix_ = h'.prefix_
  exactMatchOnly : h.exactMatchOnly = h'.exactMatchOnly
  respSource : Source.Agree h.respSource h'.respSource

theorem RSHolder.Agree.call {h h' : RSHolder Source} (agree : RSHolder.Agree h h')
    (resource : List Byte) : h.call resource = h'.call resource := by
  simp only [RSHolder.call, agree.prefix_, agree.exactMatchOnly]

theorem search_agree {holders holders' : List (RSHolder Source)}
    (agree : List.Forall₂ RSHolder.Agree holders holders') (env : Platform) (res : List Byte)
    (headerA : List (HeaderName × List Byte)) :
    (Combiner.search res holders).page env headerA =
      (Combiner.search res holders').page env headerA := by
  induction agree with
  | nil => rfl
  | cons here _ ih =>
      rw [Combiner.search, Combiner.search, here.call, here.prefix_]
      split
      · exact here.respSource.create env _ headerA
      · exact ih

namespace Site

structure Agree (site site' : Site) : Prop where
  serverName : site.serverName = site'.serverName
  handleCORS : site.handleCORS = site'.handleCORS
  rewMap : site.respSource.rewMap = site'.respSource.rewMap
  holderA : List.Forall₂ RSHolder.Agree site.respSource.holderA site'.respSource.holderA

theorem Agree.created {site site' : Site} (agree : site.Agree site') (env : Platform) (req : Request) :
    site.created env req = site'.created env req := by
  rw [Site.created, Site.created, Combiner.create, Combiner.create, agree.rewMap]
  split
  · split
    · rfl
    · exact search_agree agree.holderA env _ req.headerA
  · exact search_agree agree.holderA env _ req.headerA

theorem Agree.preflight {site site' : Site} (agree : site.Agree site') (req : Request) :
    site.preflight req = site'.preflight req := by
  rw [Site.preflight, Site.preflight, agree.handleCORS]

theorem Agree.currResp {site site' : Site} (agree : site.Agree site') (env : Platform)
    (req : Request) : site.currResp env req = site'.currResp env req := by
  rw [Site.currResp, Site.currResp, agree.preflight, agree.created env req]

theorem Agree.answer {site site' : Site} (agree : site.Agree site') (env : Platform)
    (behind : Nat → Byte) (turn : Turn) :
    site.answer env behind turn = site'.answer env behind turn := by
  have heading : site.heading turn.req = site'.heading turn.req := by
    rw [Site.heading, Site.heading, agree.preflight, agree.serverName, agree.handleCORS]
  rw [Site.answer, Site.answer, agree.currResp, heading]

/-- A connection does not tell disks apart on which the same resources lead below the roots, to the
    same files there: whatever the others lead to, it has no say in any byte which is sent, and not in
    when the connection is closed. -/
theorem confined {site site' : Site} (agree : site.Agree site') (env : Platform)
    (behind : Nat → Byte) (maxHeadersLength : Nat) (s : Serving) (turns : List Turn) :
    exec (Serving.step maxHeadersLength) s
        ((Serving.served (site.kept env) turns).map (site.answer env behind)) =
      exec (Serving.step maxHeadersLength) s
        ((Serving.served (site'.kept env) turns).map (site'.answer env behind)) := by
  have kept : site.kept env = site'.kept env :=
    funext fun turn => congrArg (Page.kept · turn.req.isKeepAlive) (agree.currResp env turn.req)
  rw [kept, funext (agree.answer env behind)]

/-- A disk with a file below the root, and one which only some machines have outside of it. -/
def sampleDisk (secret : Bool) : Disk where
  canonical := fun root resource =>
    if resource = text "/a.txt" then some (root ++ [text "a.txt"])
    else if secret then some [text "etc", text "passwd"] else none
  fileExists := fun _ => true
  isDirectory := fun _ => false
  extension := fun _ => text ".txt"
  file := fun _ => ⟨784111777, text "abc", true, by decide⟩

def sampleFiles (secret : Bool) : Site :=
  ⟨text "EHTTP", false, Combiner.empty.addRespSource [] (.fs (sampleDisk secret) [text "srv"]) false⟩

theorem sampleFiles_agree : (sampleFiles true).Agree (sampleFiles false) where
  serverName := rfl
  handleCORS := rfl
  rewMap := rfl
  holderA := by
    refine .cons ⟨rfl, rfl, .fs ⟨fun resource target below => ?_, fun _ _ => rfl, fun _ _ => rfl,
      fun _ _ => rfl, fun _ _ => rfl⟩⟩ .nil
    have outside : ¬[text "srv"] <+: [text "etc", text "passwd"] := by decide
    by_cases inside : resource = text "/a.txt"
    · simp only [sampleDisk, if_pos inside]
    · simp only [sampleDisk, if_neg inside, if_true, Bool.false_eq_true, if_false]
      refine iff_of_false (fun same => ?_) nofun
      rw [← Option.some.inj same] at below
      exact outside below

theorem confined_sample :
    exec (Serving.step 4096) ⟨emptyQueue, true⟩
        ((Serving.served ((sampleFiles true).kept samplePlatform)
          [⟨⟨.get, text "/../etc/passwd", [], true, 784111777⟩, [List.replicate chunkRoom 0]⟩]).map
            ((sampleFiles true).answer samplePlatform fun _ => 0)) =
      exec (Serving.step 4096) ⟨emptyQueue, true⟩
        ((Serving.served ((sampleFiles false).kept samplePlatform)
          [⟨⟨.get, text "/../etc/passwd", [], true, 784111777⟩, [List.replicate chunkRoom 0]⟩]).map
            ((sampleFiles false).answer samplePlatform fun _ => 0)) :=
  confined sampleFiles_agree samplePlatform (fun _ => 0) 4096 ⟨emptyQueue, true⟩ _

end Site

end MiniWebSrv.HTTP
