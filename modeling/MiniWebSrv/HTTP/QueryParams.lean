import MiniWebSrv.HTTP.Header
import MiniWebSrv.Lib.Word

/-! # Query parameters and forms

`HTTP::QueryParams`: the parameters of the query string and of the url-encoded or multipart
body of a request. The parts of a multipart body which are files go to an upload helper. It is
a parameter of the model, together with the file system behind it.
-/

namespace MiniWebSrv.HTTP

open Word

/-- The paths which the upload helpers make: none, or the `n`-th `unique_path()` in the directory
    `root`. -/
inductive Path where
  | empty
  | temp (root : List Byte) (n : Nat)
  deriving DecidableEq, Repr

/-- `IFileUpdloadHelper`, and the removal of a file from the file system. -/
class FileUploadHelper (H : Type) where
  onNewFile : H → (name : List Byte) → (origFileName : List Byte) → (mimeType : List Byte) →
    (Path × Bool) × H
  onFileData : H → List Byte → Bool × H
  onFileEnd : H → H
  remove : H → Path → H
  /-- The helper of a `QueryParams()`, over the same file system. -/
  default : H → H

/-- `std::map<std::string,V>` -/
abbrev StringMap (V : Type) := List (List Byte × V)

/-- The map after an assignment through `operator[]`. -/
def StringMap.set {V : Type} (key : List Byte) (value : V) : StringMap V → StringMap V
  | [] => [(key, value)]
  | (k, v) :: rest => if k = key then (key, value) :: rest else (k, v) :: set key value rest

structure File where
  mimeType : List Byte
  origFileName : List Byte
  path : Path
  deriving DecidableEq, Repr

/-- `FMParseState` -/
inductive FMParseState where
  | headerStart
  | headersEnd
  | read
  | finished
  deriving DecidableEq, Repr

inductive PartMode where
  | string
  | file
  deriving DecidableEq, Repr

/-- The maps which a form fills, with the place in them where the current part goes. -/
structure Form (H : Type) where
  paramMap : StringMap (List Byte)
  fileMap : StringMap File
  /-- The key of the element which the pointer points to; `none` where it is null. Which of
      the two maps it is in is told by `currPartMode`. -/
  currFMPart : Option (List Byte)
  currPartMode : PartMode
  /-- `*UploadHelper` -/
  helper : H

structure QueryParams (H : Type) extends Form H where
  fmParseState : FMParseState
  boundaryParseCounter : Nat
  fmParseCounter : Nat
  boundaryStr : List Byte
  parseTmp : List Byte
  headerParseTmp : List Byte

namespace QueryParams

variable {H : Type}

/-- The constructors leave `FMParseCounter` and `CurrFMPart` as they find them. -/
def init (helper : H) (fmParseCounter : Nat) (currFMPart : Option (List Byte)) : QueryParams H where
  paramMap := []
  fileMap := []
  currFMPart := currFMPart
  currPartMode := .string
  helper := helper
  fmParseState := .headerStart
  boundaryParseCounter := 2
  fmParseCounter := fmParseCounter
  boundaryStr := []
  parseTmp := []
  headerParseTmp := []

/-- `operator=`, which leaves `FMParseState` out. -/
def assign (q other : QueryParams H) : QueryParams H :=
  { other with fmParseState := q.fmParseState }

def onBoundaryParsed (q : QueryParams H) : QueryParams H :=
  { q with boundaryStr := [cr, lf] ++ text "--" ++ q.boundaryStr }

/-! ## URL encoding -/

def getHexVal (val : Byte) : Byte :=
  if ch '0' ≤ val ∧ val ≤ ch '9' then val - ch '0'
  else if ch 'A' ≤ val ∧ val ≤ ch 'F' then val - ch 'A' + 10
  else if ch 'a' ≤ val ∧ val ≤ ch 'f' then val - ch 'a' + 10
  else 0

/-- `TargetStr->append`: to the value of a parameter, or else to `ParseTmp`. -/
def appendTarget (q : QueryParams H) (target : Option (List Byte)) (c : Byte) : QueryParams H :=
  match target with
  | some key =>
      { q with paramMap := StringMap.set key ((q.paramMap.lookup key).getD [] ++ [c]) q.paramMap }
  | none => { q with parseTmp := q.parseTmp ++ [c] }

/-- The loop of `AddURLEncoded`. A target is there in `PS_VALUE_END` only. The result is `none`
    where a `%` takes the second byte behind it from outside the range, and the loop runs past
    its end. -/
def addURLEncodedLoop (q : QueryParams H) (target : Option (List Byte)) :
    List Byte → Option (QueryParams H)
  | [] => some q
  | c :: rest =>
      if c = ch '+' then
        addURLEncodedLoop (q.appendTarget target (ch ' ')) target rest
      else
        match decide (c = ch '%'), rest with
        | true, high :: low :: rest =>
            addURLEncodedLoop (q.appendTarget target ((getHexVal high <<< 4) ||| getHexVal low))
              target rest
        | true, [_] => none
        | _, rest =>
            match target with
            | none =>
                if c = ch '=' then
                  addURLEncodedLoop
                    { q with paramMap := StringMap.set q.parseTmp [] q.paramMap }
                    (some q.parseTmp) rest
                else
                  addURLEncodedLoop (q.appendTarget none c) none rest
            | some key =>
                if c = ch '&' then
                  addURLEncodedLoop { q with parseTmp := [] } none rest
                else
                  addURLEncodedLoop (q.appendTarget (some key) c) (some key) rest

/-- `AddURLEncoded` on a range which is not null. -/
def addURLEncoded (q : QueryParams H) (range : List Byte) : Option (QueryParams H) :=
  addURLEncodedLoop { q with parseTmp := [] } none range

/-! ## Part headers -/

variable [FileUploadHelper H]

/-- The lines which end in a newline, without it; `line` is the start of the first one. -/
def completeLines (line : List Byte) : List Byte → List (List Byte)
  | [] => []
  | c :: rest =>
      if c = lf then line :: completeLines [] rest else completeLines (line ++ [c]) rest

/-- The locals of `ParseFMHeaders`. `FileNameExists` is read only after a Content-Disposition
    header has set it. -/
structure PartHeaders where
  disposition : Header.Disposition := ⟨[], [], false⟩
  contentTypeVal : Option (List Byte) := none
  deriving DecidableEq, Repr

def PartHeaders.add (h : PartHeaders) (line : List Byte) : PartHeaders :=
  if Header.lineName line = .contentDisposition then
    { h with disposition :=
        Header.parseContentDisposition ((Header.lineValue line).getD []) h.disposition }
  else if Header.lineName line = .contentType then
    { h with contentTypeVal := Header.lineValue line }
  else
    h

def partHeaders (headers : List Byte) : PartHeaders :=
  (completeLines [] headers).foldl PartHeaders.add {}

/-- The second half of `ParseFMHeaders`: the part gets its place in one of the maps. -/
def openPart (f : Form H) (h : PartHeaders) : Bool × Form H :=
  let name := h.disposition.name
  if name ≠ [] then
    let helper :=
      if f.currPartMode = .file then FileUploadHelper.onFileEnd f.helper else f.helper
    if h.disposition.fileNameExists then
      let mimeType := h.contentTypeVal.getD []
      match FileUploadHelper.onNewFile helper name h.disposition.fileName mimeType with
      | ((path, true), helper) =>
          let old := ((f.fileMap.lookup name).map File.path).getD .empty
          (true, { f with
            fileMap := StringMap.set name ⟨mimeType, h.disposition.fileName, path⟩ f.fileMap
            currFMPart := some name
            currPartMode := .file
            helper := if old ≠ .empty then FileUploadHelper.remove helper old else helper })
      | ((_, false), helper) =>
          (true, { f with currFMPart := none, currPartMode := .file, helper := helper })
    else
      (true, { f with
        paramMap := StringMap.set name [] f.paramMap
        currFMPart := some name
        currPartMode := .string
        helper := helper })
  else
    (false, { f with currFMPart := none })

def parseFMHeaders (f : Form H) (headers : List Byte) : Bool × Form H :=
  openPart f (partHeaders headers)

/-- The part's content, once its headers have been read. -/
def addContent (f : Form H) (bytes : List Byte) : Bool × Form H :=
  match f.currFMPart with
  | none => (false, f)
  | some key =>
      if f.currPartMode = .file then
        let r := FileUploadHelper.onFileData f.helper bytes
        (r.1, { f with helper := r.2 })
      else
        (true, { f with
          paramMap := StringMap.set key ((f.paramMap.lookup key).getD [] ++ bytes) f.paramMap })

/-! ## Multipart bodies -/

def endFile (q : QueryParams H) : QueryParams H :=
  { q with helper := FileUploadHelper.onFileEnd q.helper }

def startNewPart (q : QueryParams H) : QueryParams H :=
  { q with fmParseState := .headerStart, fmParseCounter := 0, headerParseTmp := [] }

/-- The literal which `FMParseCounter` indexes, with its NUL. -/
def headersEndMark : List Byte := [cr, lf, cr, lf, 0]

/-- `AppendToCurrentPart` from `Begin` on, where `orig` holds the bytes between `OrigBegin` and
    `Begin`. What an index behind the literal would find there is taken to be no match.
    `HeaderParseTmp` is shown as it is before its lines are parsed in place; nobody reads it
    between that and its next `clear()`. -/
def appendFrom (q : QueryParams H) (orig : List Byte) : List Byte → Bool × QueryParams H
  | [] =>
      match q.fmParseState with
      | .read => let r := addContent q.toForm []; (r.1, { q with toForm := r.2 })
      | .headersEnd => (true, { q with headerParseTmp := q.headerParseTmp ++ orig })
      | _ => (true, q)
  | c :: rest =>
      match q.fmParseState with
      | .read => let r := addContent q.toForm (c :: rest); (r.1, { q with toForm := r.2 })
      | .headerStart =>
          if q.fmParseCounter = 0 then
            if c = cr ∨ c = ch '-' then
              appendFrom { q with fmParseCounter := 1 } (orig ++ [c]) rest
            else
              (false, q)
          else if q.fmParseCounter = 1 then
            if c = lf then
              appendFrom { q with fmParseCounter := 0, fmParseState := .headersEnd } [] rest
            else if c = ch '-' then
              appendFrom { q.endFile with fmParseState := .finished } (orig ++ [c]) rest
            else
              (false, q)
          else
            appendFrom q (orig ++ [c]) rest
      | .headersEnd =>
          if some c = headersEndMark[q.fmParseCounter]? then
            if q.fmParseCounter + 1 = 4 then
              let headers :=
                if 4 < orig.length then q.headerParseTmp ++ (orig ++ [c]) else q.headerParseTmp
              match parseFMHeaders q.toForm headers with
              | (true, form) =>
                  appendFrom { q with
                    toForm := form
                    fmParseCounter := 4
                    headerParseTmp := headers
                    fmParseState := .read } (orig ++ [c]) rest
              | (false, form) =>
                  (false, { q with toForm := form, fmParseCounter := 4, headerParseTmp := [] })
            else
              appendFrom { q with fmParseCounter := q.fmParseCounter + 1 } (orig ++ [c]) rest
          else
            appendFrom { q with fmParseCounter := 0 } (orig ++ [c]) rest
      | .finished => (true, q.endFile)

def appendToCurrentPart (q : QueryParams H) (bytes : List Byte) : Bool × QueryParams H :=
  if bytes = [] ∨ q.fmParseState = .finished then (true, q) else appendFrom q [] bytes

/-- The delimiter has been matched up to its end; `pos` is `Pos-Begin`, and `content` holds the
    bytes between `ContentBegin` and `Pos`. -/
def onFullMatch (q : QueryParams H) (pos : Nat) (content : List Byte) : QueryParams H :=
  let counter := q.boundaryParseCounter
  let q :=
    if u32 pos < counter then
      -- where `Pos-Begin` has wrapped, the source hands on what lies behind `ParseTmp`: here nothing
      if counter - pos < q.parseTmp.length then
        (q.appendToCurrentPart (q.parseTmp.take (q.parseTmp.length - (counter - pos)))).2
      else
        q
    else if counter < content.length then
      (q.appendToCurrentPart (content.take (content.length - counter))).2
    else
      q
  { q with boundaryParseCounter := 0, parseTmp := [] }.startNewPart

/-- The match is broken at `Pos`. -/
def onMatchBroken (q : QueryParams H) (content : List Byte) : QueryParams H :=
  let q :=
    if q.parseTmp ≠ [] then { (q.appendToCurrentPart q.parseTmp).2 with parseTmp := [] } else q
  { (q.appendToCurrentPart content).2 with boundaryParseCounter := 0 }

/-- The loop of `AppendFormMultipart`, from `Pos` on. A byte which breaks a match is looked at
    once more, as the possible start of another one. -/
def matchFrom (q : QueryParams H) (pos : Nat) (content : List Byte) :
    List Byte → QueryParams H × List Byte
  | [] => (q, content)
  | c :: rest =>
      if q.boundaryParseCounter = 0 then
        if c = cr then
          matchFrom { q with boundaryParseCounter := 1 } (pos + 1) (content ++ [c]) rest
        else
          matchFrom q (pos + 1) (content ++ [c]) rest
      else if some c = (q.boundaryStr ++ [0])[q.boundaryParseCounter]? then
        let q := { q with boundaryParseCounter := u32 (q.boundaryParseCounter + 1) }
        if q.boundaryParseCounter = q.boundaryStr.length then
          matchFrom (q.onFullMatch (pos + 1) (content ++ [c])) (pos + 1) [] rest
        else
          matchFrom q (pos + 1) (content ++ [c]) rest
      else if c = cr then
        matchFrom { q.onMatchBroken content with boundaryParseCounter := 1 } (pos + 1) [c] rest
      else
        matchFrom (q.onMatchBroken content) (pos + 1) [c] rest

/-- The bytes between `Begin` and `End`, and what is left of them at the end is kept for the
    next call if it may be the start of a delimiter. -/
def appendFormMultipart (q : QueryParams H) (bytes : List Byte) : QueryParams H :=
  let r := matchFrom q 0 [] bytes
  let q := r.1
  let content := r.2
  let counter := q.boundaryParseCounter
  if counter ≠ 0 then
    let q := (q.appendToCurrentPart (content.take (content.length - counter))).2
    { q with parseTmp := q.parseTmp ++ content.drop (content.length - counter) }
  else if bytes ≠ [] then
    (q.appendToCurrentPart content).2
  else
    q

end QueryParams

end MiniWebSrv.HTTP
