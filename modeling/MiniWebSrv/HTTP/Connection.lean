import MiniWebSrv.Common.StreamReadBuff
import MiniWebSrv.HTTP.QueryParams

/-! # HTTP connections

`HTTP::Connection` up to the creation of the response. The protocol handler is a coroutine,
which is suspended where it reads from the socket and while the response handler is at work. It
stops here at some more places: behind the headers, and at the top of the loops over the body.
What it does from one of these places to the next one is a step; the events are what the socket
and the response handler answer. A step is `none` where the source reads or writes outside its
buffers, or where the event is impossible.
-/

namespace MiniWebSrv.HTTP

open Word

namespace BuildConfig

def readBuffSize : Nat := 16 * 1024

end BuildConfig

inductive Version where
  | v10
  | v11
  deriving DecidableEq, Repr

inductive Method where
  | get
  | post
  | options
  | unknown
  deriving DecidableEq, Repr

/-- The blocks which the headers lie in: those of the read buffer, and the arrays which
    `PostHeaderBuff` has pointed to, in the order of their `new`. -/
inductive Place where
  | readBuff (block : Nat)
  | postHeader (block : Nat)
  deriving DecidableEq, Repr

structure Header where
  name : Ptr Place
  /-- `none` where the pointer is null, or has been null before an offset was added to it. -/
  value : Option (Ptr Place)
  intName : HeaderName
  deriving DecidableEq, Repr

/-- The pointers of a header, with the bytes behind them moved from one place to another. -/
def Header.offset (h : Header) (from_ into : Ptr Place) : Header :=
  { h with
    name := ⟨into.block, into.off + (h.name.off - from_.off)⟩
    value := h.value.map fun p => ⟨into.block, into.off + (p.off - from_.off)⟩ }

/-- Where `ProtocolHandler` is. -/
inductive Phase where
  /-- In a `ContinueRead` of `HeaderHandler`, with its locals. -/
  | headers (requestLineFound : Bool) (lineStartPos : Nat)
  /-- `HeaderHandler` has returned true. -/
  | headersDone
  /-- At the top of the loop which waits for a whole body of this type. -/
  | content (type : ContentType)
  /-- In the `ContinueRead` of this loop. -/
  | contentRead (type : ContentType)
  /-- At the top of the loop which reads the body in blocks. -/
  | multipart (remLength : Nat)
  /-- In the `ContinueRead` of this loop. -/
  | multipartRead (remLength : Nat)
  /-- In `ResponseHandler`: `Create` is called with what the request has left in the state. -/
  | respond
  | closed
  deriving DecidableEq, Repr

/-- What the constructor of a `QueryParams` finds in the members which it does not initialize. -/
structure Junk where
  fmParseCounter : Nat
  currFMPart : Option (List Byte)

inductive Event where
  /-- The coroutine goes on. -/
  | go
  /-- `async_read_some` completes with these bytes. -/
  | read (data : List Byte)
  /-- `ContinueRead` returns without a read, as there is no room for one. -/
  | noRoom
  /-- A read throws. -/
  | readError
  /-- `ResponseHandler` returns. -/
  | responded (result : Bool) (junk : Junk)

structure Connection (H : Type) where
  phase : Phase
  currVersion : Version
  currMethod : Method
  currResource : List Byte
  currQuery : QueryParams H
  contentLength : Nat
  /-- `ContentBuff` and `ContentEndBuff`; `none` where they are null. -/
  content : Option (Ptr Nat × Ptr Nat)
  headerA : List Header
  readBuff : StreamReadBuff BuildConfig.readBuffSize
  /-- The number of arrays which `PostHeaderBuff` has pointed to; it points to the last one. -/
  postHeaders : Nat
  /-- `PostHeaderBuffEnd-PostHeaderBuff` -/
  postHeaderLength : Nat
  postHeaderMem : Mem Nat Byte
  /-- `Conf.MaxPostBodyLength` -/
  maxPostBodyLength : UInt32
  /-- What has been handed on of the current request's body: the arguments of
      `AppendFormMultipart`, or else the bytes which `ContentBuff` was pointed to. The source
      has no such variable. -/
  handed : List Byte

namespace Connection

variable {H : Type}

def close (c : Connection H) : Connection H := { c with phase := .closed }

/-! ## Memory -/

/-- The bytes from `p` to the end of the array which it points into; `none` if the array has been
    deleted. `StaticBuff` lives as long as the connection. -/
def bytesAt (c : Connection H) (p : Ptr Place) : Option (List Byte) :=
  match p.block with
  | .readBuff block =>
      if block = c.readBuff.readBuff then
        some (c.readBuff.mem.read ⟨block, p.off⟩ (c.readBuff.buffLength - p.off))
      else if block = 0 then
        some (c.readBuff.mem.read ⟨block, p.off⟩ (BuildConfig.readBuffSize - p.off))
      else
        none
  | .postHeader block =>
      if block = c.postHeaders then
        some (c.postHeaderMem.read ⟨block, p.off⟩ (c.postHeaderLength - p.off))
      else
        none

/-- The string which `p` points to, if there is one. -/
def stringAt (c : Connection H) (p : Ptr Place) : Option (List Byte) :=
  (c.bytesAt p).map Header.cString

/-- The value of a header. -/
def valueOf (c : Connection H) (header : Header) : List Byte :=
  ((header.value.bind c.stringAt).getD [])

/-! ## Request lines and header lines -/

def parseMethod (name : List Byte) : Method :=
  if name = text "GET" then .get
  else if name = text "POST" then .post
  else if name = text "OPTIONS" then .options
  else .unknown

/-- The last part of a request line: the version behind the first slash. -/
def parseVersion (c : Connection H) (bytes : List Byte) : Bool × Connection H :=
  match bytes.dropWhile (· ≠ ch '/') with
  | [] => (false, c)
  | _ :: version =>
      (true, { c with currVersion := if version.take 3 = text "1.0" then .v10 else .v11 })

/-- `ParseRequestLine`; `none` where `AddURLEncoded` runs past the end of the query. -/
def parseRequestLine (c : Connection H) (line : List Byte) : Option (Bool × Connection H) :=
  match line.dropWhile (· ≠ ch ' ') with
  | [] => some (false, c)
  | _ :: rest =>
      let c := { c with currMethod := parseMethod (line.takeWhile (· ≠ ch ' ')) }
      match rest.dropWhile (fun b => b ≠ ch ' ' ∧ b ≠ ch '?') with
      | [] => some (false, c)
      | stop :: query =>
          let c := { c with currResource := rest.takeWhile (fun b => b ≠ ch ' ' ∧ b ≠ ch '?') }
          if stop = ch '?' then
            match query.dropWhile (· ≠ ch ' ') with
            | [] => some (false, c)
            | _ :: version =>
                (c.currQuery.addURLEncoded (query.takeWhile (· ≠ ch ' '))).map fun q =>
                  parseVersion { c with currQuery := q } version
          else
            some (parseVersion c query)

/-- `HeaderA.push_back(Header(...))` for the line at `p`. -/
def pushHeader (c : Connection H) (p : Ptr Nat) (length : Nat) : Connection H :=
  let line := c.readBuff.mem.read p length
  let extracted := Header.extractHeader line
  let name : Ptr Place := ⟨.readBuff p.block, p.off⟩
  { c with
    readBuff := { c.readBuff with mem := c.readBuff.mem.write p extracted.line }
    headerA := c.headerA ++ [⟨name, extracted.value.map name.add, Header.lineName line⟩] }

/-- How the inner loop of `HeaderHandler` ends. -/
inductive Parsed (H : Type) where
  /-- The bytes are used up. -/
  | more (c : Connection H) (requestLineFound : Bool) (lineStartPos : Nat)
  /-- An empty line, at this position. -/
  | done (c : Connection H) (pos : Nat)
  | refused (c : Connection H)

/-- The inner loop of `HeaderHandler` over `n` bytes; `pos` is `InBuff-RelevantBuff`. -/
def parseLines (c : Connection H) (requestLineFound : Bool) (lineStartPos pos : Nat) :
    Nat → Option (Parsed H)
  | 0 => some (.more c requestLineFound lineStartPos)
  | n + 1 =>
      let relevantBuff := c.readBuff.getRelevantData.1
      if c.readBuff.mem relevantBuff.block (relevantBuff.off + pos) = lf then
        if 1 < pos - lineStartPos then
          if requestLineFound then
            parseLines (c.pushHeader (relevantBuff.add lineStartPos) (pos - lineStartPos))
              true (pos + 1) (pos + 1) n
          else
            match c.parseRequestLine (c.readBuff.mem.read relevantBuff pos) with
            | none => none
            | some (false, c) => some (.refused c)
            | some (true, c) => parseLines c true (pos + 1) (pos + 1) n
        else
          some (.done c pos)
      else
        parseLines c requestLineFound lineStartPos (pos + 1) n

/-! ## The body -/

variable [FileUploadHelper H]

/-- A turn of the loop for a body which is read as a whole. -/
def contentLoop (c : Connection H) (type : ContentType) : Option (Connection H) :=
  match c.readBuff.requestData (u32 c.contentLength) with
  | none => none
  | some (false, b) => some { c with readBuff := b, phase := .contentRead type }
  | some (true, b) =>
      let range := b.available
      let query :=
        if type = .urlEncoded then c.currQuery.addURLEncoded range else some c.currQuery
      query.map fun q =>
        { c with
          readBuff := (b.consume b.getAvailableDataLength true).2
          content := some (b.getAvailableData.1, b.getAvailableData.1.add b.getAvailableData.2)
          currQuery := q
          handed := range
          phase := .respond }

/-- A turn of the loop for a body which is read in blocks. -/
def multipartLoop (c : Connection H) (remLength : Nat) : Option (Connection H) :=
  let available := c.readBuff.available
  if available.length < remLength then
    let b := (c.readBuff.consume available.length false).2
    let rest := remLength - available.length
    match b.requestData (if rest < BuildConfig.readBuffSize then rest
        else BuildConfig.readBuffSize) with
    | none => none
    | some (_, b) => some { c with
        currQuery := c.currQuery.appendFormMultipart available
        handed := c.handed ++ available
        readBuff := b
        phase := .multipartRead rest }
  else
    some { c with
      currQuery := c.currQuery.appendFormMultipart (available.take remLength)
      handed := c.handed ++ available.take remLength
      readBuff := (c.readBuff.consume remLength false).2
      phase := .respond }

/-- What the search among the headers has found, apart from what it does to the state. -/
structure HeaderSearch where
  contentLengthFound : Bool := false
  contentTypeFound : Bool := false
  contentType : ContentType := .unknown
  deriving DecidableEq, Repr

/-- The search for the two headers which tell about the body; `none` where the length has no
    digits and an exception is thrown. -/
def searchHeaders (c : Connection H) (found : HeaderSearch) :
    List Header → Option (Connection H × HeaderSearch)
  | [] => some (c, found)
  | header :: rest =>
      if found.contentLengthFound ∧ found.contentTypeFound then
        some (c, found)
      else if header.intName = .contentLength then
        match Header.getULongLong (c.valueOf header) with
        | none => none
        | some length =>
            searchHeaders { c with contentLength := length }
              { found with contentLengthFound := true } rest
      else if header.intName = .contentType then
        let type := Header.getContentType (c.valueOf header)
          c.currQuery.boundaryStr
        searchHeaders
          { c with currQuery := { c.currQuery with boundaryStr := type.2 }.onBoundaryParsed }
          { found with contentTypeFound := true, contentType := type.1 } rest
      else
        searchHeaders c found rest

/-- The headers are saved from the read buffer. -/
def savePostHeaders (c : Connection H) : Connection H :=
  let relevant := c.readBuff.relevant
  let grow := c.postHeaderLength < relevant.length
  let block := if grow then c.postHeaders + 1 else c.postHeaders
  let relevantBuff := c.readBuff.getRelevantData.1
  { c with
    postHeaders := block
    postHeaderLength := if grow then relevant.length else c.postHeaderLength
    postHeaderMem := c.postHeaderMem.write ⟨block, 0⟩ relevant
    headerA := c.headerA.map fun h =>
      Header.offset h ⟨.readBuff relevantBuff.block, relevantBuff.off⟩ ⟨.postHeader block, 0⟩
    readBuff := c.readBuff.resetRelevant }

/-- `ContentHandler` up to its loops. -/
def contentHandler (c : Connection H) : Connection H :=
  match c.searchHeaders {} c.headerA with
  | none => c.close
  | some (c, found) =>
      if found.contentLengthFound = false then
        c.close
      else
        let c := { c with content := none, handed := [] }
        if c.contentLength = 0 then
          { c with phase := .respond }
        else if c.maxPostBodyLength.toNat < c.contentLength then
          c.close
        else if found.contentType = .formMultipart then
          { c.savePostHeaders with phase := .multipart c.contentLength }
        else
          { c with phase := .content found.contentType }

/-! ## Requests -/

/-- A turn of the loop of `HeaderHandler`, with bytes to parse. -/
def headerHandler (c : Connection H) (requestLineFound : Bool) (lineStartPos : Nat) :
    Option (Connection H) :=
  let length := c.readBuff.getAvailableDataLength
  match c.parseLines requestLineFound lineStartPos c.readBuff.relevantLength length with
  | none => none
  | some (.refused c) => some c.close
  | some (.done c pos) => some { c with
      readBuff := (c.readBuff.consume (pos - c.readBuff.relevantLength + 1) true).2
      phase := .headersDone }
  | some (.more c found lineStart) => some { c with
      readBuff := (c.readBuff.consume length true).2
      phase := .headers found lineStart }

/-- `CurrResource` keeps its contents, and so do `ContentBuff` and `ContentEndBuff`. -/
def resetRequestData (c : Connection H) (junk : Junk) : Connection H :=
  { c with
    currVersion := .v11
    currMethod := .unknown
    currQuery := c.currQuery.assign
      (.init (FileUploadHelper.default c.currQuery.helper) junk.fmParseCounter junk.currFMPart)
    contentLength := 0
    headerA := [] }

/-- A turn of the loop of `ProtocolHandler`. -/
def nextRequest (c : Connection H) (junk : Junk) : Option (Connection H) :=
  let c := c.resetRequestData junk
  if c.readBuff.getAvailableDataLength = 0 then
    some { c with phase := .headers false 0 }
  else
    c.headerHandler false 0

def compareLowercaseSimple (testStr lowerCaseStr : List Byte) : Bool :=
  testStr.map Header.lower = lowerCaseStr

def isKeepAlive (c : Connection H) : Bool :=
  match c.currVersion with
  | .v10 => false
  | .v11 => c.headerA.all fun header => ¬(header.intName = .connection ∧
      compareLowercaseSimple (c.valueOf header) (text "close"))

/-- `ResponseHandler` has returned. -/
def responded (c : Connection H) (result : Bool) (junk : Junk) : Option (Connection H) :=
  if result then
    let c := { c with readBuff := c.readBuff.resetRelevant }
    if c.isKeepAlive then c.nextRequest junk else some c.close
  else
    some c.close

/-- The handler goes on behind a `ContinueRead`. -/
def afterRead (c : Connection H) : Option (Connection H) :=
  match c.phase with
  | .headers found lineStart =>
      -- without a byte to parse, the headers are longer than the read buffer
      if c.readBuff.getAvailableDataLength = 0 then some c.close else c.headerHandler found lineStart
  | .contentRead type => some { c with phase := .content type }
  | .multipartRead remLength => some { c with phase := .multipart remLength }
  | _ => none

/-- The handler goes on from one of the places where it is not suspended. -/
def go (c : Connection H) : Option (Connection H) :=
  match c.phase with
  | .headersDone =>
      some (if c.currMethod = .post then c.contentHandler else { c with phase := .respond })
  | .content type => c.contentLoop type
  | .multipart remLength => c.multipartLoop remLength
  | _ => none

/-- Whether the handler is suspended in a `ContinueRead`. -/
def isReading (c : Connection H) : Bool :=
  match c.phase with
  | .headers _ _ => true
  | .contentRead _ => true
  | .multipartRead _ => true
  | _ => false

def step (c : Connection H) : Event → Option (Connection H)
  | .go => c.go
  | .read data =>
      if data ≠ [] ∧ data.length ≤ c.readBuff.freeLength then
        { c with readBuff := (c.readBuff.receive data).2 }.afterRead
      else
        none
  | .noRoom => if c.readBuff.freeLength = 0 then c.afterRead else none
  | .readError => if c.isReading then some c.close else none
  | .responded result junk => if c.phase = .respond then c.responded result junk else none

/-- A connection whose `ProtocolHandler` has been started. The upload helper has been given the
    configuration. -/
def start (helper : H) (maxPostBodyLength : UInt32) (mem postHeaderMem : Mem Nat Byte)
    (currResource : List Byte) (first second : Junk) : Connection H :=
  { phase := .headers false 0
    currVersion := .v11
    currMethod := .unknown
    currResource := currResource
    currQuery := .init helper first.fmParseCounter first.currFMPart
    contentLength := 0
    content := none
    headerA := []
    readBuff := .init _ mem
    postHeaders := 0
    postHeaderLength := 0
    postHeaderMem := postHeaderMem
    maxPostBodyLength := maxPostBodyLength
    handed := [] : Connection H }.resetRequestData second

end Connection

end MiniWebSrv.HTTP
