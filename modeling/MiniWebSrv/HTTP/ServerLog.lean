import MiniWebSrv.WebSocket.Writes

/-! # The server log

`HTTP::Server` as its `IServerLog` sees it: the connection objects, each with its address, from
their creation to their destructors, and the calls made to the log on the way. A WebSocket
connection belongs to the HTTP connection which was upgraded until `OnTimer` hands it over.

Of `ServerLog::OStream` there is `ConnMap` and what the calls do with it; the lines it prints are
left out, and so are the arguments which are only printed.
-/

namespace MiniWebSrv.HTTP

open Word

/-- A connection object. The number is new for every object, the address may have belonged to an
    object which has been deleted. -/
structure Object where
  id : Nat
  addr : Nat
  deriving DecidableEq, Repr

/-! ## The calls and what `OStream` makes of them -/

namespace ServerLog

inductive Call where
  | onConnection (connection : Object) (sourceAddr : UInt32) (isAllowed : Bool)
  | onConnectionFinished (connection : Object)
  | onRequest (connection : Object) (upgradeConn : Option Object)
  | onWebSocket (connection : Object) (resource : List Byte) (isSuccess : Bool)
  deriving DecidableEq, Repr

structure ConnDataHolder where
  sourceAddr : String := ""
  wsTarget : List Byte := []
  isWebSocket : Bool := false
  deriving DecidableEq, Repr

structure OStream where
  connMap : Nat → Option ConnDataHolder

namespace OStream

def init : OStream := ⟨fun _ => none⟩

def put (l : OStream) (connection : Nat) (holder : ConnDataHolder) : OStream :=
  ⟨fun c => if c = connection then some holder else l.connMap c⟩

def erase (l : OStream) (connection : Nat) : OStream :=
  ⟨fun c => if c = connection then none else l.connMap c⟩

/-- `ConnMap[Connection]`, which is there from then on. -/
def holder (l : OStream) (connection : Nat) : ConnDataHolder := (l.connMap connection).getD {}

/-- The address with its bytes in decimal, filled up with blanks. -/
def sourceText (sourceAddr : UInt32) : String :=
  let text := ".".intercalate [toString (sourceAddr >>> 24),
    toString ((sourceAddr >>> 16) &&& 0xFF), toString ((sourceAddr >>> 8) &&& 0xFF),
    toString (sourceAddr &&& 0xFF)]
  text.pushn (Char.ofNat 32) (4 * 3 + 3 - text.length)

def onConnection (l : OStream) (connection : Nat) (sourceAddr : UInt32) (isAllowed : Bool) :
    OStream :=
  if isAllowed then
    l.put connection { l.holder connection with sourceAddr := sourceText sourceAddr }
  else
    l

def onConnectionFinished (l : OStream) (connection : Nat) : OStream :=
  match l.connMap connection with
  | some _ => l.erase connection
  | none => l

def onRequest (l : OStream) (connection : Nat) (upgradeConn : Option Nat) : OStream :=
  match l.connMap connection with
  | some found =>
      match upgradeConn with
      | some upgradeConn =>
          if found.isWebSocket then (l.put upgradeConn found).erase connection else l
      | none => l
  | none => l

def onWebSocket (l : OStream) (connection : Nat) (resource : List Byte) (isSuccess : Bool) :
    OStream :=
  if isSuccess then
    l.put connection { l.holder connection with wsTarget := resource, isWebSocket := true }
  else
    l

/-- The log is only told addresses. -/
def call (l : OStream) : Call → OStream
  | .onConnection connection sourceAddr isAllowed =>
      l.onConnection connection.addr sourceAddr isAllowed
  | .onConnectionFinished connection => l.onConnectionFinished connection.addr
  | .onRequest connection upgradeConn => l.onRequest connection.addr (upgradeConn.map Object.addr)
  | .onWebSocket connection resource isSuccess =>
      l.onWebSocket connection.addr resource isSuccess

end OStream

/-- `ConnMap` after some calls. -/
def connMap (calls : List Call) : Nat → Option ConnDataHolder :=
  (calls.foldl OStream.call .init).connMap

end ServerLog

open ServerLog

/-! ## The connections -/

structure WebSocketConn where
  self : Object
  connection : WebSocket.Connection

/-- `HTTP::Connection`, as far as `Server` has to do with it. -/
structure HttpConn where
  self : Object
  silentTime : Nat
  isDeletable : Bool
  /-- `Conf.MaxSilentTime`. -/
  maxSilentTime : Nat
  /-- Whether `MyLog` is set. -/
  myLog : Bool
  nextConn : Option WebSocketConn

inductive ConnectionBase where
  | http (c : HttpConn)
  | webSocket (w : WebSocketConn)

/-- Something happens to the connection. `OnStep` and `Stop` are left to the server. -/
def WebSocketConn.handle (w : WebSocketConn) : WebSocket.Connection.Event → Option WebSocketConn
  | .onStep _ | .stop => none
  | e => do
      let connection ← w.connection.step e
      some { w with connection := connection }

namespace HttpConn

def create (self : Object) (maxSilentTime : Nat) : HttpConn where
  self := self
  silentTime := 0
  isDeletable := true
  maxSilentTime := maxSilentTime
  myLog := false
  nextConn := none

def start (c : HttpConn) : HttpConn := { c with isDeletable := false, myLog := true }

/-- The result of `OnStep`, the connection after it, and `*OutNextConn`. -/
def onStep (c : HttpConn) (stepInterval : Nat) : Bool × HttpConn × Option WebSocketConn :=
  let outNextConn := c.nextConn
  let c := if c.nextConn.isSome then { c with nextConn := none, silentTime := c.maxSilentTime } else c
  let c := { c with silentTime := u32 (c.silentTime + stepInterval) }
  (if c.maxSilentTime < c.silentTime then !c.isDeletable else true, c, outNextConn)

/-- The calls of the destructor. Its `delete NextConn` makes none. -/
def finished (c : HttpConn) : List Call := if c.myLog then [.onConnectionFinished c.self] else []

end HttpConn

namespace ConnectionBase

def onStep (stepInterval : Nat) : ConnectionBase → Bool × ConnectionBase × Option WebSocketConn
  | .http c =>
      let (active, c, outNextConn) := c.onStep stepInterval
      (active, .http c, outNextConn)
  | .webSocket w =>
      let (active, connection) := w.connection.onStep stepInterval
      (active, .webSocket { w with connection := connection }, none)

/-- `Stop`, or `none` where it fails. The sockets are left out. -/
def stop : ConnectionBase → Option ConnectionBase
  | .http c => some (.http c)
  | .webSocket w => do
      let connection ← w.connection.stop
      some (.webSocket { w with connection := connection })

/-- The WebSocket connection itself, or the one which has not been handed over. -/
def webSockets : ConnectionBase → List WebSocketConn
  | .http c => c.nextConn.toList
  | .webSocket w => [w]

/-- What is deleted with the connection. -/
def objects : ConnectionBase → List Object
  | .http c => c.self :: c.nextConn.toList.map WebSocketConn.self
  | .webSocket w => [w.self]

/-- The calls of the destructor. The one of a WebSocket connection calls its `Stop` only. -/
def finished : ConnectionBase → List Call
  | .http c => c.finished
  | .webSocket _ => []

end ConnectionBase

/-! ## The server -/

structure LoggedServer where
  /-- `ConnConf.MaxSilentTime`. -/
  maxSilentTime : Nat
  connLst : List ConnectionBase
  nextConn : Option HttpConn
  isRunning : Bool
  /-- Whether `RunTh` is set. -/
  runTh : Bool
  /-- The number of objects which have been created. -/
  created : Nat
  /-- The calls made to `MyLog`. -/
  log : List Call
  /-- The objects which have been deleted. -/
  deleted : List Object

namespace LoggedServer

def stepDurationSeconds : Nat := 1

def init (maxSilentTime : Nat) : LoggedServer where
  maxSilentTime := maxSilentTime
  connLst := []
  nextConn := none
  isRunning := false
  runTh := false
  created := 0
  log := []
  deleted := []

/-- The objects which exist. -/
def objects (s : LoggedServer) : List Object :=
  s.connLst.flatMap ConnectionBase.objects ++ s.nextConn.toList.map HttpConn.self

/-- `new` returns an address at which there is nothing. -/
def place (s : LoggedServer) (addr : Nat) : Option Object :=
  if addr ∈ s.objects.map Object.addr then none else some ⟨s.created, addr⟩

/-- `addr` is where a new connection would be. -/
def restartAccept (s : LoggedServer) (addr : Nat) : Option LoggedServer :=
  if s.isRunning then
    match s.nextConn with
    | some _ => some s
    | none => do
        let self ← s.place addr
        some { s with
          nextConn := some (.create self s.maxSilentTime)
          created := s.created + 1 }
  else
    some s

def run (s : LoggedServer) (addr : Nat) : Option LoggedServer :=
  if s.runTh then
    some s
  else
    restartAccept { s with isRunning := true, runTh := true } addr

/-- `allowed` is the answer of the connection filter. -/
def onAccept (s : LoggedServer) (error allowed : Bool) (sourceAddr : UInt32) (addr : Nat) :
    Option LoggedServer :=
  if error then
    s.restartAccept addr
  else
    match s.nextConn with
    | none => none
    | some c =>
        if allowed then
          restartAccept { s with
            log := s.log ++ [.onConnection c.self sourceAddr true]
            connLst := s.connLst ++ [.http c.start]
            nextConn := none } addr
        else
          restartAccept { s with
            log := s.log ++ [.onConnection c.self sourceAddr false] ++ c.finished
            deleted := s.deleted ++ ConnectionBase.objects (.http c)
            nextConn := none } addr

/-- What the loop of `OnTimer` changes. `connLst` has the connections in front of `NowI`. -/
structure Loop where
  connLst : List ConnectionBase
  nextConnLst : List ConnectionBase
  log : List Call
  deleted : List Object

def Loop.step (l : Loop) (c : ConnectionBase) : Loop :=
  let (active, c, nextConn) := c.onStep stepDurationSeconds
  let l :=
    if active then
      { l with connLst := l.connLst ++ [c] }
    else
      { l with log := l.log ++ c.finished, deleted := l.deleted ++ c.objects }
  match nextConn with
  | some w => { l with nextConnLst := l.nextConnLst ++ [.webSocket w] }
  | none => l

def onTimer (s : LoggedServer) (error : Bool) : LoggedServer :=
  if error then
    s
  else
    let l := s.connLst.foldl Loop.step {
      connLst := []
      nextConnLst := []
      log := s.log
      deleted := s.deleted }
    { s with
      connLst := l.connLst ++ l.nextConnLst
      log := l.log
      deleted := l.deleted }

def stopAll : List ConnectionBase → Option (List ConnectionBase)
  | [] => some []
  | c :: rest => do
      let c ← c.stop
      let rest ← stopAll rest
      some (c :: rest)

def stopInternal (s : LoggedServer) : Option LoggedServer := do
  let connLst ← stopAll s.connLst
  some { s with isRunning := false, connLst := connLst }

/-- `Stop`, from where the thread has ended. The source relies on `NextConn` there. -/
def stop (s : LoggedServer) : Option LoggedServer :=
  if s.runTh then
    match s.nextConn with
    | none => none
    | some c =>
        some { s with
          runTh := false
          connLst := []
          nextConn := none
          log := s.log ++ s.connLst.flatMap ConnectionBase.finished ++ c.finished
          deleted := s.deleted ++ s.connLst.flatMap ConnectionBase.objects ++
            ConnectionBase.objects (.http c) }
  else
    some s

/-! ## What happens on a connection -/

/-- What `ProtocolHandler` does next. -/
inductive Progress where
  /-- Bytes have been read or written. -/
  | transfer
  /-- A response source answers a WebSocket handshake. -/
  | onWebSocket (resource : List Byte) (isSuccess : Bool)
  /-- A response has been sent which is no upgrade. -/
  | onRequest
  /-- A response has been sent whose `Upgrade` creates a connection at `addr`, with some bytes in
      its buffers. -/
  | upgrade (addr : Nat) (readMem : Mem Nat Byte) (writeMem : Mem WriteBlock Byte)
  | ends

/-- The `i`-th connection is put in place of what it was. -/
def update (s : LoggedServer) (i : Nat) (c : ConnectionBase) : LoggedServer :=
  { s with connLst := s.connLst.set i c }

def tell (s : LoggedServer) (m : Call) : LoggedServer := { s with log := s.log ++ [m] }

/-- An upgrade is the last thing which `ProtocolHandler` does. -/
def progress (s : LoggedServer) (i : Nat) (c : HttpConn) : Progress → Option LoggedServer
  | .transfer => some (s.update i (.http { c with silentTime := 0 }))
  | .onWebSocket resource isSuccess => some (s.tell (.onWebSocket c.self resource isSuccess))
  | .onRequest => some ((s.update i (.http { c with nextConn := none })).tell
      (.onRequest c.self none))
  | .upgrade addr readMem writeMem => do
      let self ← s.place addr
      let w : WebSocketConn := ⟨self, WebSocket.Connection.create readMem writeMem⟩
      let c := { c with nextConn := some w, isDeletable := true }
      some (tell { s.update i (.http c) with created := s.created + 1 }
        (.onRequest c.self (some self)))
  | .ends => some (s.update i (.http { c with isDeletable := true }))

/-- What can happen to the `i`-th connection apart from `OnStep`. -/
inductive ConnEvent where
  | progress (p : Progress)
  /-- Something happens to the WebSocket connection, which has been handed over or not. -/
  | webSocket (e : WebSocket.Connection.Event)

/-- As long as `IsDeletable` is false, `ProtocolHandler` runs. -/
def onConn (s : LoggedServer) (i : Nat) : ConnectionBase → ConnEvent → Option LoggedServer
  | .http c, .progress p => if c.isDeletable then none else s.progress i c p
  | .http c, .webSocket e => do
      let w ← c.nextConn
      let w ← w.handle e
      some (s.update i (.http { c with nextConn := some w }))
  | .webSocket w, .webSocket e => do
      let w ← w.handle e
      some (s.update i (.webSocket w))
  | .webSocket _, .progress _ => none

inductive Event where
  | run (addr : Nat)
  | onAccept (error allowed : Bool) (sourceAddr : UInt32) (addr : Nat)
  | onTimer (error : Bool)
  | onConn (i : Nat) (e : ConnEvent)
  | stopInternal
  | stop

def step (s : LoggedServer) : Event → Option LoggedServer
  | .run addr => s.run addr
  | .onAccept error allowed sourceAddr addr => s.onAccept error allowed sourceAddr addr
  | .onTimer error => some (s.onTimer error)
  | .onConn i e => do
      let c ← s.connLst[i]?
      s.onConn i c e
  | .stopInternal => s.stopInternal
  | .stop => s.stop

end LoggedServer

end MiniWebSrv.HTTP
