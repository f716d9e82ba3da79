import LuaServer.Lua.State
import LuaServer.Platform.InetPton

/-!
# The state of the server

One record holds what the socket library, the operating system and the Lua state
contribute.  Counters and the log of events are history: no function of the
program reads them.
-/

namespace LuaServer

/-- `SocketInfo` of `lsocklib.cpp`. -/
structure SocketInfo where
  family : Int
  type : Int
  protocol : Int
  hSocket : Int
deriving DecidableEq

/--
A live `SocketInfo` block.  `serial` tells the allocations apart and `inst` is
the opening of the handle that the block was made for.
-/
structure SocketRecord where
  info : SocketInfo
  serial : Nat
  inst : Nat
deriving DecidableEq

/-- An open handle of the operating system; `inst` tells the openings apart. -/
structure OsSocket where
  inst : Nat
  bound : Bool := false
  listening : Bool := false
deriving DecidableEq

structure SockAddr where
  sinFamily : Int
  sinAddr : InAddr
  sinPort : UInt16
deriving DecidableEq

/--
What stands behind a value made by `create` or `accept`: the address, the
allocation of the block and the opening of the handle.
-/
structure Issue where
  addr : Nat
  serial : Nat
  inst : Nat
deriving DecidableEq

/-!
# Events
-/

/-- Operations of the operating system with the arguments and results they have. -/
inductive OsOp where
  | socket (family type protocol : Int)
  | bind (addr : SockAddr)
  | listen (backlog : Int)
  | accept
  | recv (size : Int) (data : LuaString)
  | send (data : LuaString) (size : Int) (accepted : Nat)
  | close
deriving DecidableEq

/--
One operation: the library function that made it, the pointer it found the
handle through, the handle it was given with the opening that stood for at the
time, and whether the operation succeeded.  `opened` is the opening that the
operation delivered.
-/
structure OsCall where
  caller : CFunction
  via : Ptr
  op : OsOp
  handle : Option Int
  inst : Option Nat
  opened : Option Nat := none
  ok : Bool
deriving DecidableEq

/--
`read` and `release` carry the allocation that the pointer designates at that
moment, if there is one; `store` is a write to a run of positions of a buffer of
the given size; `issued` is a return of `create` or `accept`, and `returned` one
of any other function, with the allocation its argument designated.
-/
inductive Event where
  | startup (ok : Bool)
  | shutdown
  | pass (f : CFunction) (p : Ptr)
  | read (p : Ptr) (serial : Option Nat)
  | release (p : Ptr) (serial : Option Nat)
  | os (call : OsCall)
  | store (first count size : Nat)
  | issued (i : Issue)
  | returned (f : CFunction) (serial : Option Nat)
deriving DecidableEq

def Event.issued? : Event -> Option Issue
  | .issued i => some i
  | _ => none

/-- The values that `create` and `accept` returned, in order. -/
def issuedIn (log : List Event) : List Issue := log.filterMap Event.issued?

def Issue.value (i : Issue) : Value := .lightuserdata (.block i.addr)

/-!
# Calls in progress

`init_socket_instance` builds the Lua value through calls of the Lua API.  Some
of them can run Lua code, so a call of `create` or `accept` that has reached
this part is kept as a frame: the API calls still to make and the values it has
on its stack.
-/

inductive ApiCall where
  | pushlightuserdata (p : Ptr)
  | getregistry (name : LuaString)
  | testNil (name : LuaString)
  | pop
  | newtable
  | pushvalue
  | setregistry (name : LuaString)
  | getglobal (name : LuaString)
  | setfield (name : LuaString)
  | pushcfunction (f : CFunction)
  | setmetatable
deriving DecidableEq

structure Frame where
  caller : CFunction
  issue : Issue
  code : List ApiCall
  stack : List Value
deriving DecidableEq

/-!
# Suspended calls

`lua_tolstring` on a number and `lua_pushlstring` can run a step of the collector,
and with it finalizers.  A call of `bind`, `send` or `recv` that has come to one of
them is kept with what it goes on with: the socket it still has to read, or the
buffer it has to free and the string that is made of it.
-/

inductive PausePoint where
  | bind (iSocket : Ptr)
  | send (iSocket : Ptr)
  | recv (buff : Option Nat) (s : LuaString)
deriving DecidableEq

/-- `depth` is the number of frames that there were when the call was suspended. -/
structure Paused where
  args : List Value
  point : PausePoint
  depth : Nat
deriving DecidableEq

/-- How the last library call ended. -/
inductive CallResult where
  | none
  | returned (values : List Value)
  | pending
  | paused
  | raised (e : LuaError)
  | crashed
deriving DecidableEq

/-- The life of the interpreter: the script, `lua_close` running finalizers, the end. -/
inductive Phase where
  | running
  | closing
  | closed
deriving DecidableEq

structure World where
  socketsInitialized : Bool
  records : Nat -> Option SocketRecord
  nextRecord : Nat
  handles : Int -> Option OsSocket
  nextHandle : Nat
  blocks : List Nat
  lua : LuaState
  frames : List Frame
  paused : List Paused
  phase : Phase
  result : CallResult
  log : List Event

namespace World

def emit (w : World) (e : Event) : World := { w with log := w.log ++ [e] }

/-- The live record that a pointer designates. -/
def recordAt (w : World) : Ptr -> Option SocketRecord
  | .block a => w.records a
  | _ => none

def setRecord (w : World) (a : Nat) (r : Option SocketRecord) : World :=
  { w with records := fun i => if i = a then r else w.records i }

def setHandle (w : World) (h : Int) (s : Option OsSocket) : World :=
  { w with handles := fun i => if i = h then s else w.handles i }

def serialAt (w : World) (p : Ptr) : Option Nat :=
  (w.recordAt p).map SocketRecord.serial

def instAt (w : World) (h : Int) : Option Nat := (w.handles h).map OsSocket.inst

end World

/-!
# The environment of a call

What the operating system, the C library and `malloc` answer during one library
call, and what C leaves open: the bytes behind a pointer that designates no live
record and the results of conversions out of range.
-/

structure Env where
  wsaStartup : Int := 0
  handle : Option Int := none
  malloc : Option Nat := none
  status : Int := 0
  recv : Option LuaString := none
  sent : Option Nat := none
  errorInfo : Int := 0
  stale : SocketInfo := ⟨0, 0, 0, 0⟩
  garbage : Nat -> UInt8 := fun _ => 0
  castUint16 : UInt16 := 0
  number2integer : LuaNumber -> Int := fun _ => 0
  number2str : LuaNumber -> LuaString := fun _ => []
  str2number : LuaString -> Option LuaNumber := fun _ => none

/-- `INVALID_SOCKET`: `SOCKET` is unsigned on Windows. -/
def invalidSocket : Platform -> Int
  | .windows => 2 ^ 64 - 1
  | _ => -1

/--
The handle the system delivers is a valid one that is not open, and `malloc`
returns an address that is not allocated.
-/
def Env.admissible (plat : Platform) (env : Env) (w : World) : Bool :=
  (match env.handle with
    | none => true
    | some h =>
        decide (0 ≤ h) && decide (h ≠ invalidSocket plat) &&
          (w.handles h).isNone) &&
  (match env.malloc with
    | none => true
    | some a => (w.records a).isNone && decide (a ∉ w.blocks))

theorem Env.handle_fresh {plat : Platform} {env : Env} {w : World}
    (h : env.admissible plat w = true) {handle : Int}
    (hhandle : env.handle = some handle) :
    0 ≤ handle ∧ handle ≠ invalidSocket plat ∧ w.handles handle = none := by
  unfold Env.admissible at h
  rw [hhandle] at h
  simp only [Bool.and_eq_true, decide_eq_true_eq, Option.isNone_iff_eq_none]
    at h
  exact ⟨h.1.1.1, h.1.1.2, h.1.2⟩

theorem Env.malloc_fresh {plat : Platform} {env : Env} {w : World}
    (h : env.admissible plat w = true) {a : Nat}
    (hmalloc : env.malloc = some a) : w.records a = none ∧ a ∉ w.blocks := by
  unfold Env.admissible at h
  rw [hmalloc] at h
  simp only [Bool.and_eq_true, decide_eq_true_eq, Option.isNone_iff_eq_none]
    at h
  exact h.2

end LuaServer
