import MiniWebSrv.HTTP.Header
import MiniWebSrv.HTTP.ResponseHandler

/-! # The responses of the server

The `Read` functions of the responses which the server itself has. Each fills a buffer of
`MaxLength` bytes from its beginning and says how many bytes there are for the client.
-/

namespace MiniWebSrv.HTTP

open Word

/-- `RESPONSECODE` -/
inductive ResponseCode where
  | switchProt
  | ok
  | movePermanent
  | found
  | seeOther
  | notModified
  | tempRedirect
  | badRequest
  | unauthorized
  | forbidden
  | notFound
  | serverError
  deriving DecidableEq, Repr

def ResponseCode.number : ResponseCode → Nat
  | .switchProt => 101
  | .ok => 200
  | .movePermanent => 301
  | .found => 302
  | .seeOther => 303
  | .notModified => 304
  | .tempRedirect => 307
  | .badRequest => 400
  | .unauthorized => 401
  | .forbidden => 403
  | .notFound => 404
  | .serverError => 500

namespace RespSource

open Responding

/-! ## CommonError -/

/-- `%d` -/
def decimalDigits (n : Nat) : List Byte := (Nat.toDigits 10 n).map ch

/-- `snprintf` into `length` bytes: what it stores, and its result as an `unsigned int`. A text
    which is longer than an `int` can tell is an error. -/
def snprintf (length : Nat) (formatted : List Byte) : List Byte × Nat :=
  (if length = 0 then [] else formatted.take (length - 1) ++ [0],
    if formatted.length ≤ 2147483647 then formatted.length else max32)

structure CommonErrorResponse where
  respCode : ResponseCode
  res : List Byte
  exType : List Byte
  exMsg : List Byte
  deriving DecidableEq, Repr

namespace CommonErrorResponse

/-- The constructor; `ex` is the type and the message of the exception, if there is one. -/
def create (resource : List Byte) (ex : Option (List Byte × List Byte)) (code : ResponseCode) :
    CommonErrorResponse where
  respCode := code
  res := resource
  exType := (ex.map Prod.fst).getD (text "[Unknown]")
  exMsg := (ex.map Prod.snd).getD []

/-- The texts around the resource in the body of a page which has no more than that. -/
def shortBody (title message closing : String) (res : List Byte) : List Byte :=
  text title ++ [lf] ++ text message ++ res ++ text closing

/-- The body of a page about an exception. -/
def exceptionBody (title res exType exMsg : List Byte) : List Byte :=
  title ++ [lf] ++ text "Caught an exception while creating a response for <b>" ++ res ++
    text "</b>:" ++ [lf] ++ text "<ul>" ++ [lf] ++ text "<li>Type: <pre>" ++ exType ++
    text "</pre></li>" ++ [lf] ++ text "<li>Message: " ++ exMsg ++ text "</li>" ++ [lf] ++
    text "</ul>"

def body (e : CommonErrorResponse) : List Byte :=
  let res := Header.cString e.res
  let exType := Header.cString e.exType
  let exMsg := Header.cString e.exMsg
  match e.respCode with
  | .badRequest => shortBody "<h1>401 Bad request</h1>"
      "Your browser sent a request that this server didn't understand. Resource: <b>" "</b><br />" res
  | .unauthorized => shortBody "<h1>401 Unauthorized</h1>"
      "Access denied for resource: <b>" "</b><br />" res
  | .forbidden => shortBody "<h1>403 Forbidden</h1>"
      "Access denied for resource: <b>" "</b><br />" res
  | .notFound => shortBody "<h1>404 Not found</h1>"
      "The requested resource was not found: <b>" "</b><br />" res
  | .serverError => exceptionBody (text "<h1>500 Internal error</h1>") res exType exMsg
  | code => exceptionBody (text "<h1>[" ++ decimalDigits code.number ++ text "]</h1>") res exType exMsg

/-- The formatted page. -/
def page (e : CommonErrorResponse) : List Byte :=
  text "<head><title>Err: " ++ decimalDigits e.respCode.number ++ text " - " ++
    Header.cString e.res ++ text "</title></head>" ++ [lf] ++ text "<body>" ++ [lf] ++ e.body ++
    [lf] ++ text "</body>"

def read (e : CommonErrorResponse) (targetBuff : List Byte) (maxLength : Nat) : ReadResult :=
  let printed := snprintf maxLength e.page
  ⟨storeAt 0 printed.1 targetBuff, printed.2, true⟩

end CommonErrorResponse

/-! ## FS -/

/-- `std::ifstream`: the bytes which are still to be read, and whether a read has failed. -/
structure InStream where
  rest : List Byte
  fail : Bool
  deriving DecidableEq, Repr

/-- `read`: the bytes which it stores. -/
def InStream.read (s : InStream) (length : Nat) : List Byte × InStream :=
  if s.fail then ([], s)
  else (s.rest.take length, ⟨s.rest.drop length, decide (s.rest.length < length)⟩)

/-- A response with a file; a file which has not been modified is not read. -/
structure FSResponse where
  fileSize : Nat
  filePos : Nat
  inS : InStream
  deriving DecidableEq, Repr

def notModifiedSize : Nat := 18446744073709551615

namespace FSResponse

def read (r : FSResponse) (targetBuff : List Byte) (maxLength : Nat) : ReadResult × FSResponse :=
  if r.fileSize ≠ notModifiedSize then
    let remLength := u64 (r.fileSize + 18446744073709551616 - r.filePos)
    let maxLength := if remLength < maxLength then u32 remLength else maxLength
    let stored := r.inS.read maxLength
    let r : FSResponse := { r with filePos := u64 (r.filePos + maxLength), inS := stored.2 }
    (⟨storeAt 0 stored.1 targetBuff, maxLength, r.filePos = r.fileSize ∨ r.inS.fail⟩, r)
  else
    (⟨targetBuff, 0, true⟩, r)

end FSResponse

/-! ## Zip -/

/-- `ZipArchive::Stream`, behind the local header. -/
structure ZipStream where
  compressedSize : Nat
  compPos : Nat
  inS : InStream
  deriving DecidableEq, Repr

/-- `ZipArchive::Stream::Read`: the bytes which it stores, and their number according to it. -/
def ZipStream.read (s : ZipStream) (size : Nat) : (List Byte × Nat) × ZipStream :=
  let compSize := u32 s.compressedSize
  if s.compPos < compSize then
    let remSize := compSize - s.compPos
    let size := if remSize < size then remSize else size
    let stored := s.inS.read size
    ((stored.1, size), { s with compPos := s.compPos + size, inS := stored.2 })
  else
    (([], 0), s)

/-- `CState`, with `CStatePos` where it is of use. -/
inductive ContentState where
  | header (pos : Fin 10)
  | body
  | bodyOnly
  | footer (pos : Fin 9)
  deriving DecidableEq, Repr

def ContentState.rank : ContentState → Nat
  | .header _ => 2
  | .body => 1
  | .bodyOnly => 1
  | .footer _ => 0

structure ZipResponse where
  fileSize : Nat
  sourceS : ZipStream
  gzipFooterA : Fin 8 → Byte
  cState : ContentState

namespace ZipResponse

def gzipHeaderA : List Byte := [31, 139, 8, 0, 0, 0, 0, 0, 2, 255]

/-- `memcpy` from `GZipHeaderA+pos`; `behind` is the memory behind the array. -/
def copyHeader (behind : Nat → Byte) (pos length : Nat) : List Byte :=
  (List.range length).map fun i => gzipHeaderA.getD (pos + i) (behind (pos + i))

/-- `memcpy` from `GzipFooterA+pos` -/
def copyFooter (r : ZipResponse) (pos length : Nat) : List Byte :=
  ((List.ofFn r.gzipFooterA).drop pos).take length

/-- How the loop of `Read` is left. -/
structure LoopEnd where
  remLength : Nat
  targetBuff : List Byte
  isFinished : Bool
  response : ZipResponse

/-- The loop of `Read`, with `maxLength-remLength` bytes behind it. The position in the header is
    advanced, or reset, before the copy; the end of a stored file leaves the last bytes out. -/
def readLoop (behind : Nat → Byte) (maxLength : Nat) (r : ZipResponse) (remLength : Nat)
    (targetBuff : List Byte) : LoopEnd :=
  if remLength = 0 then
    ⟨remLength, targetBuff, false, r⟩
  else
    let off := maxLength - remLength
    match state : r.cState with
    | .body =>
        let got := r.sourceS.read remLength
        let buff := storeAt off got.1.1 targetBuff
        if got.1.2 < remLength then
          readLoop behind maxLength { r with sourceS := got.2, cState := .footer 0 }
            (remLength - got.1.2) buff
        else
          readLoop behind maxLength { r with sourceS := got.2, cState := .body }
            (remLength - got.1.2) buff
    | .bodyOnly =>
        let got := r.sourceS.read remLength
        let buff := storeAt off got.1.1 targetBuff
        if got.1.2 < remLength then
          ⟨remLength, buff, true, { r with sourceS := got.2 }⟩
        else
          readLoop behind maxLength { r with sourceS := got.2, cState := .bodyOnly }
            (remLength - got.1.2) buff
    | .header pos =>
        if all : 10 - pos.val ≤ remLength then
          let copyLen := 10 - pos.val
          readLoop behind maxLength { r with cState := .body } (remLength - copyLen)
            (storeAt off (copyHeader behind 0 copyLen) targetBuff)
        else
          let copyLen := remLength
          let pos : Fin 10 := ⟨pos.val + copyLen, by omega⟩
          readLoop behind maxLength { r with cState := .header pos } (remLength - copyLen)
            (storeAt off (copyHeader behind pos.val copyLen) targetBuff)
    | .footer pos =>
        let copyLen := if 8 - pos.val ≤ remLength then 8 - pos.val else remLength
        let buff := storeAt off (copyFooter r pos.val copyLen) targetBuff
        let next : Fin 9 := ⟨pos.val + copyLen, by
          show pos.val + (if 8 - pos.val ≤ remLength then 8 - pos.val else remLength) < 9
          split <;> omega⟩
        if next.val = 8 then
          ⟨remLength - copyLen, buff, true, { r with cState := .footer next }⟩
        else
          readLoop behind maxLength { r with cState := .footer next } (remLength - copyLen) buff
  termination_by (r.cState.rank, remLength)
  decreasing_by
    all_goals simp only [state, ContentState.rank, Prod.lex_def]
    · omega
    · have more : ¬(r.sourceS.read remLength).1.2 < remLength := ‹_›
      exact Or.inr ⟨trivial, by omega⟩
    · have more : ¬(r.sourceS.read remLength).1.2 < remLength := ‹_›
      exact Or.inr ⟨trivial, by omega⟩
    · omega
    · exact Or.inr ⟨trivial, by omega⟩
    · have more : ¬pos.val + (if 8 - pos.val ≤ remLength then 8 - pos.val else remLength) = 8 := ‹_›
      refine Or.inr ⟨trivial, ?_⟩
      split at more <;> split <;> omega

def read (behind : Nat → Byte) (r : ZipResponse) (targetBuff : List Byte) (maxLength : Nat) :
    ReadResult × ZipResponse :=
  if r.fileSize ≠ notModifiedSize then
    let left := readLoop behind maxLength r maxLength targetBuff
    (⟨left.targetBuff, sub32 maxLength left.remLength, left.isFinished⟩, left.response)
  else
    (⟨targetBuff, 0, true⟩, r)

end ZipResponse

/-! ## The others -/

/-- `StringResponse`: the bytes from `ReadPos` to `EndPos`. -/
structure StringResponse where
  rest : List Byte
  deriving DecidableEq, Repr

namespace StringResponse

def read (r : StringResponse) (targetBuff : List Byte) (maxLength : Nat) :
    ReadResult × StringResponse :=
  let readLen := min maxLength r.rest.length
  let left : StringResponse := ⟨r.rest.drop readLen⟩
  (⟨storeAt 0 (r.rest.take readLen) targetBuff, u32 readLen, decide (left.rest = [])⟩, left)

end StringResponse

/-- The built-in responses. Those without a body have no state which `Read` looks at. -/
inductive Response where
  | commonError (e : CommonErrorResponse)
  | fs (r : FSResponse)
  | zip (r : ZipResponse)
  | string (r : StringResponse)
  | redirect
  | corsPreflight
  | ws

namespace Response

/-- `Read`; `behind` is the memory behind the header of a gzip file. -/
def read (behind : Nat → Byte) (r : Response) (targetBuff : List Byte) (maxLength : Nat) :
    ReadResult × Response :=
  match r with
  | .commonError e => (e.read targetBuff maxLength, .commonError e)
  | .fs r => ((r.read targetBuff maxLength).1, .fs (r.read targetBuff maxLength).2)
  | .zip r => ((r.read behind targetBuff maxLength).1, .zip (r.read behind targetBuff maxLength).2)
  | .string r => ((r.read targetBuff maxLength).1, .string (r.read targetBuff maxLength).2)
  | .redirect => (⟨targetBuff, 0, false⟩, .redirect)
  | .corsPreflight => (⟨targetBuff, 0, true⟩, .corsPreflight)
  | .ws => (⟨targetBuff, 0, true⟩, .ws)

/-- The response after some calls of `Read`, each with a buffer of its own. -/
def reads (behind : Nat → Byte) (r : Response) (buffs : List (List Byte)) : Response :=
  buffs.foldl (fun r buff => (r.read behind buff buff.length).2) r

end Response

end RespSource

end MiniWebSrv.HTTP
