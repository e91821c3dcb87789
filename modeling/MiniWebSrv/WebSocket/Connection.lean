import MiniWebSrv.Common.StreamReadBuff
import MiniWebSrv.Common.WriteBuffQueue
import MiniWebSrv.Lib.Bits

/-! # WebSocket connections

`HTTP::WebSocket::Connection`. The socket and the executor are outside: the operations
started on them and the handlers posted to them are kept in the state until they complete
or run, and so is every call made through `MyHandler`. A step is `none` where the source
reads or writes outside its buffers.
-/

namespace MiniWebSrv.WebSocket

open Word

namespace Config

def readBuffSize : Nat := 4 * 1024
def writeBuffSize : Nat := 4 * 1024
def maxSilentTime : Nat := 1 * 60 * 60
def maxFrameSize : Nat := 16 * 1024 * 1024
def maxFragmentedSize : Nat := 16 * 1024 * 1024

end Config

/-! ## Codes -/

abbrev CloseReason := UInt16

namespace CloseReason

def none : CloseReason := 0
def normal : CloseReason := 1000
def exit : CloseReason := 1001
def protError : CloseReason := 1002
def unknownCode : CloseReason := 1005
def connError : CloseReason := 1006
def sizeLimit : CloseReason := 1009

end CloseReason

inductive MessageType where
  | text
  | binary
  deriving DecidableEq, Repr

def flagFin : Byte := 128
def flagMask : Byte := 128

/-- `OPCODENAME`: a nibble, named or not. -/
abbrev OpCode := Byte

namespace OpCode

def continuation : OpCode := 0
def text : OpCode := 1
def binary : OpCode := 2
def controlBegin : OpCode := 8
def close : OpCode := 8
def ping : OpCode := 9
def pong : OpCode := 10
def mask : OpCode := 15

end OpCode

def getMessageType (frameOpCode : OpCode) : MessageType :=
  if frameOpCode = OpCode.text then .text else .binary

def getOpcode : MessageType → OpCode
  | .text => OpCode.text
  | .binary => OpCode.binary

def allowMaskedOnly : Bool := true

def unknownFrameLength : Nat := 18446744073709551615

/-! ## The state -/

/-- A call of an `IMsgHandler` method. -/
inductive HandlerCall where
  | onMessage (type : MessageType) (msg : List Byte)
  | onStep (stepDuration : Nat)
  | onClose (reasonCode : CloseReason)
  deriving DecidableEq, Repr

/-- A handler posted to the executor: `StartAsyncWriteExternal` or
    `StartAsyncWriteCloseExternal`. -/
inductive Post where
  | write
  | close
  deriving DecidableEq, Repr

structure Connection where
  /-- The `SAFE_READ` bit of `SafeStates`. -/
  safeRead : Bool
  /-- The `SAFE_WRITE` bit of `SafeStates`. -/
  safeWrite : Bool
  silentTime : Nat
  currFrameLength : Nat
  readBuff : StreamReadBuff Config.readBuffSize
  writeBuff : WriteBuffQueue Config.writeBuffSize
  /-- The bytes behind the pointers of `writeBuff`. -/
  writeMem : Mem WriteBlock Byte
  fragOpCode : OpCode
  fragMsgData : List Byte
  /-- Whether `MyHandler` is set, that is, not null. -/
  myHandler : Bool
  /-- The calls made through `MyHandler`, with whether it was set. After a call through
      null the source has no further behaviour, and what follows here is of no interest. -/
  calls : List (HandlerCall × Bool)
  /-- The reasons which `SendCloseInternal` has been called with and has queued a close frame
      for. -/
  closeReasons : List CloseReason
  /-- The number of `async_read_some` operations started and not completed. -/
  reads : Nat
  /-- The `async_write` operations started and not completed. -/
  writes : List (WritePtr × Nat)
  posts : List Post

namespace Connection

/-- `MyHandler->...` -/
def call (c : Connection) (m : HandlerCall) : Connection :=
  { c with calls := c.calls ++ [(m, c.myHandler)] }

/-- `if (MyHandler) { MyHandler->OnClose(Reason); MyHandler=nullptr; }` -/
def closeHandler (c : Connection) (reason : CloseReason) : Connection :=
  if c.myHandler then { c.call (.onClose reason) with myHandler := false } else c

/-! ## Writing -/

def blockSize (q : WriteBuffQueue Config.writeBuffSize) : WriteBlock → Nat
  | .arena => Config.writeBuffSize
  | .heap id => q.heapSizes[id]?.getD 0

theorem le_blockSize {q : WriteBuffQueue Config.writeBuffSize} {p : WritePtr} {length : Nat}
    (inside : match p.block with
      | .arena => p.off + length ≤ Config.writeBuffSize
      | .heap id => ∃ n, q.heapSizes[id]? = some n ∧ p.off + length ≤ n) :
    p.off + length ≤ blockSize q p.block := by
  cases block : p.block with
  | arena => simpa only [block, blockSize] using inside
  | heap id =>
      simp only [block] at inside
      obtain ⟨n, known, le⟩ := inside
      simpa only [blockSize, known, Option.getD_some] using le

/-- Store bytes behind a pointer of the write queue. -/
def store (c : Connection) (p : WritePtr) (bytes : List Byte) : Option Connection :=
  if p.off + bytes.length ≤ blockSize c.writeBuff p.block then
    some { c with writeMem := c.writeMem.write p bytes }
  else
    none

/-- `native_to_big` of an `unsigned short`, as it lies in memory. -/
def big16 (n : UInt16) : List Byte := [(n >>> 8).toUInt8, n.toUInt8]

/-- `native_to_big` of an `unsigned long long`, as it lies in memory. -/
def big64 (n : UInt64) : List Byte :=
  [(n >>> 56).toUInt8, (n >>> 48).toUInt8, (n >>> 40).toUInt8, (n >>> 32).toUInt8,
    (n >>> 24).toUInt8, (n >>> 16).toUInt8, (n >>> 8).toUInt8, n.toUInt8]

/-- The loop of `StartAsyncWrite`, which ends at the first `NULL` of `Pop`. -/
def startWrites : Nat → Connection → Connection
  | 0, c => c
  | fuel + 1, c =>
      match c.writeBuff.pop with
      | (some range, q) =>
          startWrites fuel
            { c with writeBuff := q, safeWrite := false, writes := c.writes ++ [range] }
      | (none, q) => { c with writeBuff := q }

def startAsyncWrite (c : Connection) : Connection :=
  if c.safeWrite then
    -- each Pop marks one more buffer, so this many turns are enough
    c.startWrites (c.writeBuff.outBuffA.length + 1)
  else
    c

def sendControlFrame (c : Connection) (opCode : OpCode) : Option (Bool × Connection) :=
  match c.writeBuff.allocate 2 with
  | (some buff, q) => do
      let c ← { c with writeBuff := q }.store buff [flagFin ||| opCode, 0]
      some (true, { c with writeBuff := c.writeBuff.commit 2 })
  | (none, q) => some (false, { c with writeBuff := q })

def sendCloseInternal (c : Connection) (reason : CloseReason) : Option (Bool × Connection) :=
  match c.writeBuff.allocate 4 with
  | (some buff, q) => do
      let c ← { c with writeBuff := q }.store buff [flagFin ||| OpCode.close, 2]
      -- the cast binds stronger than the sum, so the reason is stored two shorts further
      let c ← c.store (buff.add 4) (big16 reason)
      some (true, { c with
        writeBuff := c.writeBuff.commit 4
        closeReasons := c.closeReasons ++ [reason] })
  | (none, q) => some (false, { c with writeBuff := q })

/-! ## Processing frames -/

def onProtocolError (c : Connection) (reason : CloseReason) : Option Connection :=
  if c.myHandler then do
    let (sent, c) ← (c.call (.onClose reason)).sendCloseInternal reason
    let c := if sent then c.startAsyncWrite else c
    some { c with myHandler := false }
  else
    some c

/-- `big_to_native` of the `unsigned short` at `p`. -/
def readBig16 (mem : Mem Nat Byte) (p : Ptr Nat) : Nat :=
  (mem.read p 2).foldl (fun n b => 256 * n + b.toNat) 0

/-- `big_to_native` of the `unsigned long long` at `p`. -/
def readBig64 (mem : Mem Nat Byte) (p : Ptr Nat) : Nat :=
  (mem.read p 8).foldl (fun n b => 256 * n + b.toNat) 0

def processControlFrame (c : Connection) (opCode : OpCode) (payload : Ptr Nat) (length : Nat) :
    Option (CloseReason × Connection) :=
  if opCode = OpCode.pong then
    some (CloseReason.none, c)
  else if opCode = OpCode.ping then do
    let (sent, c) ← c.sendControlFrame OpCode.pong
    some (CloseReason.none, if sent then c.startAsyncWrite else c)
  else if opCode = OpCode.close then
    if c.myHandler then
      if 2 ≤ length ∧ c.readBuff.buffLength < payload.off + 2 then
        none
      else do
        let reasonCode : CloseReason :=
          if 2 ≤ length then (readBig16 c.readBuff.mem payload).toUInt16 else 0
        let (sent, c) ← (c.call (.onClose reasonCode)).sendCloseInternal reasonCode
        let c := if sent then c.startAsyncWrite else c
        some (CloseReason.none, { c with myHandler := false })
    else
      some (CloseReason.none, c)
  else
    some (CloseReason.protError, c)

/-- The payload as `FragMsgData` takes it over. -/
def payloadBytes (c : Connection) (payload : Ptr Nat) (length : Nat) : Option (List Byte) :=
  if payload.off + length ≤ c.readBuff.buffLength then
    some (c.readBuff.mem.read payload length)
  else
    none

/-- The part of `ProcessFrame` behind the unmasking. -/
def processPayload (c : Connection) (isFin : Bool) (opCode : OpCode) (payload : Ptr Nat)
    (length : Nat) : Option (CloseReason × Connection) :=
  if isFin then
    if opCode < OpCode.controlBegin then
      if c.fragOpCode ≠ OpCode.continuation ∧ opCode = OpCode.continuation then
        if Config.maxFragmentedSize < c.fragMsgData.length + length then
          some (CloseReason.sizeLimit, c)
        else do
          -- the last frame of a fragmented message
          let bytes ← c.payloadBytes payload length
          let c := { c with fragMsgData := c.fragMsgData ++ bytes }
          let c := c.call (.onMessage (getMessageType c.fragOpCode) c.fragMsgData)
          some (CloseReason.none, { c with fragMsgData := [], fragOpCode := OpCode.continuation })
      else if c.fragOpCode = OpCode.continuation ∧ opCode ≠ OpCode.continuation then
        -- a message of a single frame
        some (CloseReason.none,
          c.call (.onMessage (getMessageType opCode) (c.readBuff.mem.read payload length)))
      else
        some (CloseReason.protError, c)
    else
      c.processControlFrame opCode payload length
  else if opCode < OpCode.controlBegin then
    if c.fragOpCode ≠ OpCode.continuation ∧ opCode = OpCode.continuation then
      if Config.maxFragmentedSize < c.fragMsgData.length + length then
        some (CloseReason.sizeLimit, c)
      else do
        let bytes ← c.payloadBytes payload length
        some (CloseReason.none, { c with fragMsgData := c.fragMsgData ++ bytes })
    else if c.fragOpCode = OpCode.continuation ∧ opCode ≠ OpCode.continuation then do
      -- the first frame of a fragmented message
      let bytes ← c.payloadBytes payload length
      some (CloseReason.none, { c with fragMsgData := bytes, fragOpCode := opCode })
    else
      some (CloseReason.protError, c)
  else
    some (CloseReason.protError, c)

/-- The second unmasking loop, byte by byte. -/
def unmaskBytes : BitVec 32 → List Byte → List Byte
  | _, [] => []
  | maskKey, b :: rest => (b ^^^ Bits.byteAt maskKey 0) :: unmaskBytes (maskKey >>> 8) rest

/-- The unmasking loops: words while more than a word is left, then bytes. -/
def unmask (maskKey : BitVec 32) : List Byte → List Byte
  | b0 :: b1 :: b2 :: b3 :: next :: rest =>
      Bits.store32 (Bits.load32 b0 b1 b2 b3 ^^^ maskKey) ++ unmask maskKey (next :: rest)
  | bytes => unmaskBytes maskKey bytes

/-- The distance from the frame's first byte to the mask, or to the payload without one. -/
def headerLength (second : Byte) : Nat :=
  let lengthMarker := second &&& 0x7F
  if lengthMarker < 126 then 2 else if lengthMarker = 126 then 2 + 2 else 2 + 8

/-- `*(const unsigned int *)PayloadPos` -/
def maskKeyAt (mem : Mem Nat Byte) (p : Ptr Nat) : BitVec 32 :=
  Bits.load32 (mem p.block p.off) (mem p.block (p.off + 1)) (mem p.block (p.off + 2))
    (mem p.block (p.off + 3))

/-- What `ProcessFrame` reads from the beginning of a frame, with the pointers which follow
    from it. -/
structure FrameHeader where
  isFin : Bool
  isMask : Bool
  opCode : OpCode
  maskPos : Ptr Nat
  payload : Ptr Nat
  /-- The length of the payload. -/
  length : Nat

def frameHeader (mem : Mem Nat Byte) (buff : Ptr Nat) (length : Nat) : FrameHeader :=
  let first := mem buff.block buff.off
  let second := mem buff.block (buff.off + 1)
  let isMask : Bool := second &&& flagMask ≠ 0
  let maskPos := buff.add (headerLength second)
  let payload := if isMask then maskPos.add 4 else maskPos
  { isFin := first &&& flagFin ≠ 0
    isMask := isMask
    opCode := first &&& OpCode.mask
    maskPos := maskPos
    payload := payload
    length := sub32 length (payload.off - buff.off) }

def processFrame (c : Connection) (buff : Ptr Nat) (length : Nat) :
    Option (CloseReason × Connection) :=
  let mem := c.readBuff.mem
  let h := frameHeader mem buff length
  if h.isMask then
    if h.payload.off + h.length ≤ c.readBuff.buffLength then
      let bytes := unmask (maskKeyAt mem h.maskPos) (mem.read h.payload h.length)
      let c := { c with readBuff := { c.readBuff with mem := mem.write h.payload bytes } }
      c.processPayload h.isFin h.opCode h.payload h.length
    else
      none
  else if !allowMaskedOnly then
    some (CloseReason.protError, c)
  else
    c.processPayload h.isFin h.opCode h.payload h.length

/-- What the first bytes of a frame tell about its length. -/
inductive FrameLength where
  /-- Not enough bytes: this many are needed. -/
  | wanted (length : Nat)
  | known (length : Nat)
  deriving DecidableEq, Repr

/-- The part of `ProcessIncoming` which determines the length of the frame. -/
def determineLength (mem : Mem Nat Byte) (dataBuff : Ptr Nat) (dataLength : Nat) : FrameLength :=
  if dataLength < 2 then
    .wanted 2
  else
    let second := mem dataBuff.block (dataBuff.off + 1)
    let lengthMarker := second &&& 0x7F
    -- the length of the mask is included, too
    let withMask := fun n => if second &&& flagMask ≠ 0 then u64 (n + 4) else n
    if lengthMarker < 126 then
      .known (withMask (lengthMarker.toNat + 2))
    else if lengthMarker = 126 then
      if dataLength < 2 + 2 then
        .wanted (2 + 2)
      else
        .known (withMask (readBig16 mem (dataBuff.add 2) + 2 + 2))
    else if dataLength < 2 + 8 then
      .wanted (2 + 8)
    else
      .known (withMask (u64 (readBig64 mem (dataBuff.add 2) + 2 + 2)))

/-- The length of the frame in front of the read buffer, remembered or determined now. -/
def frameLength (c : Connection) : FrameLength :=
  if c.currFrameLength = unknownFrameLength then
    let dataBuff := c.readBuff.getAvailableData.1
    let dataLength := c.readBuff.getAvailableData.2
    determineLength c.readBuff.mem dataBuff dataLength
  else
    .known c.currFrameLength

/-- `ReadBuff.RequestData(Length); return CR_NONE;` -/
def awaitData (c : Connection) (length : Nat) : Option (CloseReason × Connection) := do
  let (_, b) ← c.readBuff.requestData length
  some (CloseReason.none, { c with readBuff := b })

/-- The `while (true)` of the source has a `return` on every path through its body, so the
    body runs once. -/
def processIncoming (c : Connection) : Option (CloseReason × Connection) :=
  let dataBuff := c.readBuff.getAvailableData.1
  let dataLength := c.readBuff.getAvailableData.2
  match c.frameLength with
  | .wanted length => c.awaitData length
  | .known length =>
      let c := { c with currFrameLength := length }
      if Config.maxFrameSize < length then
        some (CloseReason.sizeLimit, c)
      else if dataLength < length then
        c.awaitData length
      else do
        let (retVal, c) ← c.processFrame dataBuff length
        some (retVal, { c with
          readBuff := (c.readBuff.consume length false).2
          currFrameLength := unknownFrameLength })

/-! ## Events -/

def startAsyncRead (c : Connection) : Connection := { c with reads := c.reads + 1 }

/-- `OnRead` with the bytes read, or with an error. -/
def onRead (c : Connection) : Option (List Byte) → Option Connection
  | some data => do
      let c := { c with readBuff := (c.readBuff.receive data).2, silentTime := 0 }
      let (reason, c) ← c.processIncoming
      if reason = CloseReason.none then
        some c.startAsyncRead
      else do
        let c ← c.onProtocolError reason
        some { c with safeRead := true }
  | none => some ({ c with safeRead := true }.closeHandler CloseReason.connError)

def onWrite (c : Connection) (error : Bool) : Connection :=
  let c := { c with safeWrite := true }
  if error then
    c.closeHandler CloseReason.connError
  else
    { c with writeBuff := c.writeBuff.release }.startAsyncWrite

/-- The result is false when the connection may be deleted. -/
def onStep (c : Connection) (stepInterval : Nat) : Bool × Connection :=
  let c := { c with silentTime := u32 (c.silentTime + stepInterval) }
  if Config.maxSilentTime < c.silentTime then
    let c := c.closeHandler CloseReason.connError
    (!(c.safeRead && c.safeWrite), c)
  else if c.myHandler then
    (true, c.call (.onStep stepInterval))
  else
    (!(c.safeRead && c.safeWrite), c)

def stop (c : Connection) : Option Connection := do
  let c ← c.onProtocolError CloseReason.exit
  some (c.closeHandler CloseReason.connError)

/-- The header which `Allocate` puts in front of a message. -/
def messageHeader (type : MessageType) (length : Nat) : List Byte :=
  (getOpcode type ||| flagFin) ::
    if length < 126 then
      [length.toUInt8]
    else if length < 655356 then
      126 :: big16 length.toUInt16
    else
      127 :: big64 length.toUInt64

/-- The pointer is where the message goes, behind the header. -/
def allocate (c : Connection) (type : MessageType) (length : Nat) :
    Option (Option WritePtr × Connection) :=
  let frameLength :=
    if length < 126 then u64 (length + 2)
    else if length < 655356 then u64 (length + (2 + 2))
    else u64 (length + (2 + 8))
  match c.writeBuff.allocate (u32 frameLength) with
  | (some frameBuff, q) => do
      let header := messageHeader type length
      let c ← { c with writeBuff := q }.store frameBuff header
      some (some (frameBuff.add header.length), c)
  | (none, q) => some (none, { c with writeBuff := q })

def deallocate (c : Connection) : Connection := { c with writeBuff := c.writeBuff.commit 0 }

def postWriteReq (c : Connection) : Connection := { c with posts := c.posts ++ [.write] }

def postCloseReq (c : Connection) : Connection := { c with posts := c.posts ++ [.close] }

def send (c : Connection) : Connection :=
  { c with writeBuff := c.writeBuff.commit max32 }.postWriteReq

def sendPing (c : Connection) : Option Connection := do
  let (_, c) ← c.sendControlFrame OpCode.ping
  some c.postWriteReq

def close (c : Connection) (reason : CloseReason) : Option Connection := do
  let (_, c) ← c.sendCloseInternal reason
  some c.postCloseReq

def startAsyncWriteExternal (c : Connection) : Connection := c.startAsyncWrite

def startAsyncWriteCloseExternal (c : Connection) : Connection :=
  { c with myHandler := false }.startAsyncWrite

/-- The constructor, over an uninitialized `StaticBuff` and an uninitialized `WriteBuff`. -/
def create (readMem : Mem Nat Byte) (writeMem : Mem WriteBlock Byte) : Connection :=
  startAsyncRead {
    safeRead := false
    safeWrite := true
    silentTime := 0
    currFrameLength := unknownFrameLength
    readBuff := .init _ readMem
    writeBuff := .init _
    writeMem := writeMem
    fragOpCode := OpCode.continuation
    fragMsgData := []
    myHandler := true
    calls := []
    closeReasons := []
    reads := 0
    writes := []
    posts := [] }

/-- What can happen to a connection. -/
inductive Event where
  | onRead (result : Option (List Byte))
  /-- The `i`-th outstanding write completes. -/
  | onWrite (i : Nat) (error : Bool)
  | onStep (stepInterval : Nat)
  | stop
  /-- The user's calls, each made with the send mutex locked. -/
  | allocate (type : MessageType) (length : Nat)
  | deallocate
  | send
  | sendPing
  | close (reason : CloseReason)
  /-- A posted handler runs. -/
  | posted (p : Post)
  deriving DecidableEq, Repr

def handle (c : Connection) : Event → Option Connection
  | .onRead result => { c with reads := c.reads - 1 }.onRead result
  | .onWrite i error => some ({ c with writes := c.writes.eraseIdx i }.onWrite error)
  | .onStep stepInterval => some (c.onStep stepInterval).2
  | .stop => c.stop
  | .allocate type length => (c.allocate type length).map Prod.snd
  | .deallocate => some c.deallocate
  | .send => some c.send
  | .sendPing => c.sendPing
  | .close reason => c.close reason
  | .posted .write => some { c with posts := c.posts.erase .write }.startAsyncWriteExternal
  | .posted .close => some { c with posts := c.posts.erase .close }.startAsyncWriteCloseExternal

end Connection

end MiniWebSrv.WebSocket
