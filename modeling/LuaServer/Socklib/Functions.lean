import LuaServer.Socket.Layer

/-!
# The socket library

The functions of `lsocklib.cpp`.  `args` are the values the Lua call passes, the
first of which is index 1 of the C function's stack.
-/

namespace LuaServer

def socketDataName : LuaString := ascii "socket"

def maxPort : Int := 2 <<< 16

/-- What a C function leaves: its results, or a call of the Lua API to go on with. -/
inductive Reply where
  | values (vs : List Value)
  | building (frame : Frame)
  | paused (args : List Value) (point : PausePoint)
deriving DecidableEq

def PausePoint.f : PausePoint -> CFunction
  | .bind _ => .bind
  | .send _ => .send
  | .recv _ _ => .recv

/-- A C function is called, or goes on after the Lua API where it was suspended. -/
inductive Entry where
  | call (f : CFunction)
  | resume (point : PausePoint)
deriving DecidableEq

def Entry.f : Entry -> CFunction
  | .call f => f
  | .resume point => point.f

def Entry.isCall : Entry -> Bool
  | .call _ => true
  | .resume _ => false

/-- A check either gives its result or leaves by the error. -/
def raising {α : Type} : Except LuaError α -> CFunc α
  | .ok a => pure a
  | .error e => throw (.raise e)

section Utils

variable (plat : Platform) (env : Env) (f : CFunction) (args : List Value)

/-!
# Arguments

The checks of `lauxlib.c` on the arguments of a C function.  Strings and numbers
are converted into each other where the C library does so.
-/

/--
`luaV_tostring` in `lua_tolstring`: the string of a number takes its place among the
arguments.
-/
def luaVTostring (narg : Nat) : Option (List Value) :=
  match args[narg - 1]? with
  | some (.number n) => some (args.set (narg - 1) (.string (env.number2str n)))
  | _ => none

/--
`lua_tolstring` on an argument, before the rest of a function.  When it has made a
string of a number it can run the collector.
-/
def luaTolstring (narg : Nat) (point : PausePoint) (rest : CFunc Reply) :
    CFunc Reply :=
  match luaVTostring env args narg with
  | some args => return .paused args point
  | none => rest

/-- `luaL_checklstring` where `luaV_tostring` has nothing to convert. -/
def luaLChecklstring (narg : Nat) : Except LuaError LuaString :=
  match args[narg - 1]? with
  | some (.string s) => .ok s
  | got => .error (luaLTyperror narg "string" got)

def luaLChecknumber (narg : Nat) : Except LuaError LuaNumber :=
  match args[narg - 1]? with
  | some (.number n) => .ok n
  | some (.string s) =>
      match env.str2number s with
      | some n => .ok n
      | none => .error (luaLTyperror narg "number" (some (.string s)))
  | got => .error (luaLTyperror narg "number" got)

def luaLOptint (narg : Nat) (default : Int) : Except LuaError Int :=
  match args[narg - 1]? with
  | none => .ok default
  | some .nil => .ok default
  | some _ =>
      (luaLChecknumber env args narg).map fun n =>
        toInt32 (n.toInteger env.number2integer)

def argError (narg : Nat) (msg : String) : CFunc Reply :=
  throw (.raise (.argument narg msg))

def luaLError (msg : String) : CFunc Reply := throw (.raise (.message msg))

/-!
# Utils
-/

def report (retV : Bool) (msg : String) : CFunc Unit :=
  if retV then pure () else throw (.raise (.message msg))

def socklibFuncHeader : CFunc Unit := do
  let w ← get
  if !w.socketsInitialized then
    let retV ← socketInitializeSockets plat env
    report retV "an error occured while initializing sockets"
    modify fun w => { w with socketsInitialized := true }

def checkSocketData : CFunc Ptr := do
  let w ← get
  match w.lua.checkudata (args.headD .nil) socketDataName with
  | some p =>
      emit (.pass f p)
      return p
  | none => throw (.raise (luaLTyperror 1 "socket" args.head?))

/--
Read `*iSocket`.  Without a live record behind the pointer the bytes found there
are anything; the null pointer crashes.
-/
def readSocketInfo (p : Ptr) : CFunc SocketInfo := do
  let w ← get
  emit (.read p (w.serialAt p))
  match p, w.recordAt p with
  | .null, _ => throw .crash
  | _, some r => return r.info
  | _, none => return env.stale

def World.releaseAt (w : World) : Ptr -> World
  | .block a => w.setRecord a none
  | _ => w

/-- `free(iSocket)`. -/
def freeSocketInfo (p : Ptr) : CFunc Unit := do
  let w ← get
  emit (.release p (w.serialAt p))
  modify fun w => w.releaseAt p

def createBuffer (size : Int) : CFunc Buffer := do
  match env.malloc with
  | none => return { addr := none, size := 0, bytes := env.garbage }
  | some a =>
      modify fun w => { w with blocks := a :: w.blocks }
      return { addr := some a, size := toSizeT size, bytes := env.garbage }

def freeBuffer (addr : Option Nat) : CFunc Unit :=
  match addr with
  | none => pure ()
  | some a => modify fun w => { w with blocks := w.blocks.erase a }

/--
`lua_pushlstring` in `socklib_recv`.  It can run the collector before it makes the
string of the bytes, which nobody else writes to.
-/
def luaPushlstring (buf : Buffer) (count : Nat) : CFunc Reply :=
  return .paused args (.recv buf.addr (buf.read count))

/-- `buff[brecv] = '\0'`. -/
def terminate (buf : Buffer) (pos : Nat) : CFunc Buffer := do
  emit (.store pos 1 buf.size)
  match buf.addr with
  | none => throw .crash
  | some _ => return buf.put pos 0

end Utils

/-!
# init_socket_instance

The calls of the Lua API that `luaL_newmetatable` and `init_socket_instance`
make.  `testNil` is the test of the former, which decides whether the table is
made.
-/

def luaLNewmetatable (tname : LuaString) : List ApiCall :=
  [.getregistry tname, .testNil tname]

def luaLNewmetatableCreate (tname : LuaString) : List ApiCall :=
  [.pop, .newtable, .pushvalue, .setregistry tname]

def initSocketInstanceCode (iSocket : Ptr) : List ApiCall :=
  [.pushlightuserdata iSocket] ++ luaLNewmetatable socketDataName ++
    [.getglobal (ascii "socket"), .setfield (ascii "__index"),
      .pushcfunction .onCollectSocket, .setfield (ascii "__gc"), .setmetatable]

def World.newIssue (w : World) (a : Nat) (hSocket : Int) : Issue :=
  { addr := a, serial := w.nextRecord, inst := (w.instAt hSocket).getD 0 }

def World.allocRecord (w : World) (i : Issue) (info : SocketInfo) : World :=
  { w.setRecord i.addr
      (some { info := info, serial := i.serial, inst := i.inst }) with
      nextRecord := w.nextRecord + 1 }

/-- The part of `init_socket_instance` before its calls of the Lua API. -/
def initSocketInstance (plat : Platform) (env : Env) (f : CFunction)
    (hSocket family type protocol : Int) : CFunc Reply := do
  if hSocket = invalidSocket plat then
    luaLError "an error occured while creating socket"
  else
    match env.malloc with
    | none => throw .crash
    | some a =>
        let w ← get
        let issue := w.newIssue a hSocket
        modify fun w => w.allocRecord issue ⟨family, type, protocol, hSocket⟩
        return .building
          { caller := f, issue := issue,
            code := initSocketInstanceCode (.block a), stack := [] }

/-!
# Functions
-/

section Socklib

variable (plat : Platform) (env : Env) (args : List Value)

def socklibOnCollectSocket : CFunc Reply := do
  let iSocket := (args.headD .nil).toUserdata
  let info ← readSocketInfo env iSocket
  socketClose ⟨.onCollectSocket, iSocket⟩ info.hSocket
  freeSocketInfo iSocket
  return .values []

def socklibCreate : CFunc Reply := do
  socklibFuncHeader plat env
  let hSocket ← socketCreateSocket plat ⟨.create, .null⟩ env 0 0 0
  initSocketInstance plat env .create hSocket 0 0 0

/-- `socklib_bind` once its second argument is no number. -/
def bindRest (iSocket : Ptr) : CFunc Reply := do
  let ipStr ← raising (luaLChecklstring args 2)
  match socketTranslateIP (cString ipStr) with
  | none => argError 2 "invalid ip format"
  | some outIp =>
      let port ← raising (luaLChecknumber env args 3)
      if port.gtInt maxPort then
        argError 3 ("port may be in range 1..." ++ toString maxPort)
      else
        let info ← readSocketInfo env iSocket
        let success ← socketBindSocketR ⟨.bind, iSocket⟩ env info.hSocket outIp
          (htons (port.toUint16 env.castUint16)) info.family
        if success then
          return .values []
        else
          luaLError ("an error occured while binding socket. error info: " ++
            toString (socketGetErrorInfo env))

def socklibBind : CFunc Reply := do
  socklibFuncHeader plat env
  let iSocket ← checkSocketData .bind args
  luaTolstring env args 2 (.bind iSocket) (bindRest env args iSocket)

def socklibListen : CFunc Reply := do
  socklibFuncHeader plat env
  let iSocket ← checkSocketData .listen args
  let info ← readSocketInfo env iSocket
  let _ ← socketListen plat ⟨.listen, iSocket⟩ env info.hSocket 0
  return .values []

def socklibAccept : CFunc Reply := do
  socklibFuncHeader plat env
  let iSocket ← checkSocketData .accept args
  let info ← readSocketInfo env iSocket
  let connSocket ← socketAccept plat ⟨.accept, iSocket⟩ env info.hSocket
  let info ← readSocketInfo env iSocket
  initSocketInstance plat env .accept connSocket
    info.family info.type info.protocol

def socklibRecv : CFunc Reply := do
  socklibFuncHeader plat env
  let iSocket ← checkSocketData .recv args
  let buffSize ← raising (luaLOptint env args 2 2048)
  let buff ← createBuffer env buffSize
  let info ← readSocketInfo env iSocket
  let (brecv, buff) ← socketRecv ⟨.recv, iSocket⟩ env info.hSocket buff buffSize
  if brecv = -1 then
    luaLError ("an error occured while receiving info. error info: " ++
      toString (socketGetErrorInfo env))
  else
    let buff ← terminate buff brecv.toNat
    luaPushlstring args buff brecv.toNat

/-- `socklib_recv` after `lua_pushlstring`. -/
def recvRest (buff : Option Nat) (s : LuaString) : CFunc Reply := do
  freeBuffer buff
  return .values [.string s]

/-- `socklib_send` once its second argument is no number. -/
def sendRest (iSocket : Ptr) : CFunc Reply := do
  let buff ← raising (luaLChecklstring args 2)
  let info ← readSocketInfo env iSocket
  let bsend ← socketSend ⟨.send, iSocket⟩ env info.hSocket buff
    (toInt32 buff.length)
  return .values [.number (.ofInt (toInt32 bsend))]

def socklibSend : CFunc Reply := do
  socklibFuncHeader plat env
  let iSocket ← checkSocketData .send args
  luaTolstring env args 2 (.send iSocket) (sendRest env args iSocket)

def socklibClose : CFunc Reply := do
  socklibFuncHeader plat env
  let iSocket ← checkSocketData .close args
  let info ← readSocketInfo env iSocket
  socketClose ⟨.close, iSocket⟩ info.hSocket
  freeSocketInfo iSocket
  return .values []

/-- The C functions behind the values that a script calls. -/
def callFunction : CFunction -> CFunc Reply
  | .create => socklibCreate plat env
  | .bind => socklibBind plat env args
  | .listen => socklibListen plat env args
  | .accept => socklibAccept plat env args
  | .recv => socklibRecv plat env args
  | .send => socklibSend plat env args
  | .close => socklibClose plat env args
  | .onCollectSocket => socklibOnCollectSocket env args

/-- The rest of a suspended function when the call of the Lua API has returned. -/
def resumeFunction : PausePoint -> CFunc Reply
  | .bind iSocket => bindRest env args iSocket
  | .send iSocket => sendRest env args iSocket
  | .recv buff s => recvRest buff s

def enter : Entry -> CFunc Reply
  | .call f => callFunction plat env args f
  | .resume point => resumeFunction env args point

end Socklib

/-!
# Opening the library
-/

def socklib : List (LuaString × CFunction) :=
  [(ascii "create", .create), (ascii "bind", .bind),
    (ascii "listen", .listen), (ascii "accept", .accept),
    (ascii "recv", .recv), (ascii "send", .send), (ascii "close", .close)]

/-- `luaopen_socket`: the functions and the null `socketData`. -/
def luaopenSocket (table : Table) : Table :=
  (socklib.foldl
    (fun t entry => t.set (.string entry.1) (.cfunction entry.2 none)) table).set
    (.string (ascii "socketData")) (.lightuserdata .null)

/-- `socklib_on_collect_socklib`, which `lua_onexit` calls. -/
def luaOnexit (plat : Platform) : CFunc Unit := do
  let w ← get
  if w.socketsInitialized then
    socketShutdownSockets plat

end LuaServer
