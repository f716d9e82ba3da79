import LuaServer.Socket.World

/-!
# The socket layer

The functions of `socket.cpp` over the operations of the operating system.  A C
function runs on the world and returns, leaves by a Lua error, or crashes the
process; the world keeps what was done before the exit.
-/

namespace LuaServer

inductive Exit where
  | raise (e : LuaError)
  | crash
deriving DecidableEq

abbrev CFunc := EStateM Exit World

/-- The library function on whose behalf the layer is called. -/
structure Caller where
  f : CFunction
  via : Ptr

def emit (e : Event) : CFunc Unit := modify fun w => w.emit e

/-!
# Operations of the operating system
-/

def afInet : Int := 2
def sockStream : Int := 1
def noError : Int := 0
def socketError : Int := -1

def soMaxConn : Platform -> Int
  | .windows => 0x7fffffff
  | _ => 128

def osEvent (c : Caller) (op : OsOp) (handle : Option Int) (opened : Option Nat)
    (ok : Bool) (w : World) : Event :=
  .os { caller := c.f, via := c.via, op := op, handle := handle,
        inst := handle.bind w.instAt, opened := opened, ok := ok }

/-- Log an operation in the state it is made in. -/
def osLog (c : Caller) (op : OsOp) (handle : Option Int) (opened : Option Nat)
    (ok : Bool) : CFunc Unit :=
  modify fun w => w.emit (osEvent c op handle opened ok w)

def World.openHandle (w : World) (h : Int) : World :=
  { w.setHandle h (some { inst := w.nextHandle }) with
      nextHandle := w.nextHandle + 1 }

/-- Deliver the new handle of `socket` or `accept`, or fail with the invalid one. -/
def osDeliver (plat : Platform) (c : Caller) (op : OsOp) (arg : Option Int)
    (handle : Option Int) : CFunc Int := do
  match handle with
  | none =>
      osLog c op arg none false
      return invalidSocket plat
  | some h =>
      let w ← get
      osLog c op arg (some w.nextHandle) true
      modify fun w => w.openHandle h
      return h

/-- An operation that returns a status; it fails on a handle that is not open. -/
def osStatus (c : Caller) (op : OsOp) (h : Int) (status : Int)
    (update : OsSocket -> OsSocket) : CFunc Int := do
  let w ← get
  match w.handles h with
  | none =>
      osLog c op (some h) none false
      return socketError
  | some s =>
      osLog c op (some h) none (decide (status = noError))
      if status = noError then
        modify fun w => w.setHandle h (some (update s))
      return status

/-- A block of memory of the C heap; a null address if `malloc` failed. -/
structure Buffer where
  addr : Option Nat
  size : Nat
  bytes : Nat -> UInt8

def Buffer.fill (buf : Buffer) (data : LuaString) : Buffer :=
  { buf with bytes := fun i => data.getD i (buf.bytes i) }

def Buffer.put (buf : Buffer) (pos : Nat) (byte : UInt8) : Buffer :=
  { buf with bytes := fun i => if i = pos then byte else buf.bytes i }

def Buffer.read (buf : Buffer) (count : Nat) : LuaString :=
  (List.range count).map buf.bytes

/--
`recv` fails on a handle that is not open, with a negative length, and when it
would have to write through the null pointer.
-/
def osRecv (c : Caller) (h : Int) (buf : Buffer) (size : Int)
    (answer : Option LuaString) : CFunc (Int × Buffer) := do
  let w ← get
  match w.handles h, answer with
  | some _, some bytes =>
      let data := bytes.take size.toNat
      if size < 0 ∨ (buf.addr = none ∧ data ≠ []) then
        osLog c (.recv size []) (some h) none false
        return (socketError, buf)
      else
        osLog c (.recv size data) (some h) none true
        emit (.store 0 data.length buf.size)
        return (data.length, buf.fill data)
  | _, _ =>
      osLog c (.recv size []) (some h) none false
      return (socketError, buf)

/-- `send` accepts leading bytes of the buffer; a negative length fails. -/
def osSend (c : Caller) (h : Int) (data : LuaString) (size : Int)
    (answer : Option Nat) : CFunc Int := do
  let w ← get
  match w.handles h, answer with
  | some _, some k =>
      if size < 0 then
        osLog c (.send data size 0) (some h) none false
        return socketError
      else
        osLog c (.send data size (min k size.toNat)) (some h) none true
        return (min k size.toNat : Nat)
  | _, _ =>
      osLog c (.send data size 0) (some h) none false
      return socketError

def osClose (c : Caller) (h : Int) : CFunc Unit := do
  let w ← get
  osLog c .close (some h) none (w.handles h).isSome
  modify fun w => w.setHandle h none

/-!
# Functions of socket.cpp
-/

section Layer

variable (plat : Platform) (c : Caller) (env : Env)

/-- Only Windows has a subsystem to start. -/
def startupSucceeds : Bool :=
  match plat with
  | .windows => decide (env.wsaStartup = noError)
  | _ => true

def socketInitializeSockets : CFunc Bool := do
  emit (.startup (startupSucceeds plat env))
  return startupSucceeds plat env

/-- `WSACleanup` deallocates every socket of the process; other systems keep them. -/
def socketShutdownSockets : CFunc Unit := do
  emit .shutdown
  match plat with
  | .windows => modify fun w => { w with handles := fun _ => none }
  | _ => return ()

def socketCreateSocket (family type protocol : Int) : CFunc Int := do
  let family := if family = 0 then afInet else family
  let type := if type = 0 then sockStream else type
  let hSocket ← osDeliver plat c (.socket family type protocol) none env.handle
  if hSocket < 0 then
    return invalidSocket plat
  return hSocket

/-- `socket_TranslateIP`, with the address it stores through `out_ip`. -/
def socketTranslateIP (ipStr : LuaString) : Option InAddr := inetPton ipStr

def socketBindSocketR (hSocket : Int) (ip : InAddr) (port : UInt16)
    (family : Int) : CFunc Bool := do
  let family := if family = 0 then afInet else family
  match env.malloc with
  | none => throw .crash
  | some a =>
      modify fun w => { w with blocks := a :: w.blocks }
      let sockInfo : SockAddr :=
        { sinFamily := family, sinAddr := ip, sinPort := port }
      let status ← osStatus c (.bind sockInfo) hSocket env.status
        fun s => { s with bound := true }
      return decide (status = noError)

def socketBindSocket (hSocket : Int) (ip : LuaString) (port : UInt16)
    (family : Int) : CFunc Bool := do
  match socketTranslateIP ip with
  | none => return false
  | some ipF => socketBindSocketR c env hSocket ipF (htons port) family

def socketListen (hSocket : Int) (maxConn : Int) : CFunc Bool := do
  let maxConn := if maxConn = 0 then soMaxConn plat else maxConn
  let status ← osStatus c (.listen maxConn) hSocket env.status
    fun s => { s with listening := true }
  return decide (status = noError)

def socketAccept (hSocket : Int) : CFunc Int := do
  let w ← get
  let answer := if (w.handles hSocket).isSome then env.handle else none
  let connSocket ← osDeliver plat c .accept (some hSocket) answer
  if connSocket < 0 then
    return invalidSocket plat
  return connSocket

def socketRecv (hSocket : Int) (buf : Buffer) (bufSize : Int) :
    CFunc (Int × Buffer) :=
  osRecv c hSocket buf bufSize env.recv

def socketSend (hSocket : Int) (buf : LuaString) (bufSize : Int) : CFunc Int :=
  osSend c hSocket buf bufSize env.sent

def socketClose (hSocket : Int) : CFunc Unit := osClose c hSocket

def socketGetErrorInfo : Int := env.errorInfo

end Layer

end LuaServer
