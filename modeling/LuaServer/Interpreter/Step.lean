import LuaServer.Interpreter.Script
import LuaServer.Library.Runs

/-!
# The running server

The transition system of the whole program: the steps of the script, the calls
of the socket library with what the environment answers, the calls of the Lua
API that a pending `create` or `accept` still makes or in which another function
is suspended, the collector, and the end of the program in `main`.
-/

namespace LuaServer

/-!
# Calls of the Lua API in progress
-/

namespace ApiCall

/-- The call can allocate or run Lua code, so it can leave by an error. -/
def mayRaise : ApiCall -> Bool
  | getregistry _ => true
  | newtable => true
  | setregistry _ => true
  | getglobal _ => true
  | setfield _ => true
  | pushcfunction _ => true
  | _ => false

/-- The call can run Lua code: a metamethod, or a finalizer of a collection step. -/
def mayRunLua : ApiCall -> Bool
  | newtable => true
  | getglobal _ => true
  | setfield _ => true
  | pushcfunction _ => true
  | _ => false

end ApiCall

/--
The next API call of a frame returns.  `result` is what Lua code run by
`lua_getglobal` returned.  No outcome stands for a call that cannot return.
-/
def apiStep (L : LuaState) (fr : Frame) (result : Value) :
    Option (LuaState × Frame) :=
  match fr.code with
  | [] => none
  | .pushlightuserdata p :: rest =>
      some (L, { fr with code := rest, stack := .lightuserdata p :: fr.stack })
  | .getregistry name :: rest =>
      some (L, { fr with code := rest, stack := L.registryField name :: fr.stack })
  | .testNil name :: rest =>
      match fr.stack with
      | .nil :: _ =>
          some (L, { fr with code := luaLNewmetatableCreate name ++ rest })
      | _ => some (L, { fr with code := rest })
  | .pop :: rest => some (L, { fr with code := rest, stack := fr.stack.tail })
  | .newtable :: rest =>
      let (L, t) := L.newTable
      some (L, { fr with code := rest, stack := .table t :: fr.stack })
  | .pushvalue :: rest =>
      some (L, { fr with code := rest, stack := fr.stack.headD .nil :: fr.stack })
  | .setregistry name :: rest =>
      match fr.stack with
      | v :: stack =>
          some (L.rawset L.registry (.string name) v,
            { fr with code := rest, stack := stack })
      | [] => none
  | .getglobal name :: rest =>
      match L.gettable (.table L.globals) (.string name) with
      | .value v => some (L, { fr with code := rest, stack := v :: fr.stack })
      | .call _ _ =>
          if L.holds result then
            some (L, { fr with code := rest, stack := result :: fr.stack })
          else none
      | _ => none
  | .setfield name :: rest =>
      match fr.stack with
      | v :: m :: stack =>
          match L.settable m (.string name) with
          | .stored t =>
              some (L.rawset t (.string name) v,
                { fr with code := rest, stack := m :: stack })
          | .call _ _ => some (L, { fr with code := rest, stack := m :: stack })
          | _ => none
      | _ => none
  | .pushcfunction f :: rest =>
      some (L, { fr with
        code := rest
        stack := .cfunction f (some fr.issue.serial) :: fr.stack })
  | .setmetatable :: rest =>
      match fr.stack with
      | .table m :: obj :: stack =>
          some (L.setmetatable obj (some m),
            { fr with code := rest, stack := obj :: stack })
      | _ => none

def apiArguments (L : LuaState) (fr : Frame) : List Value :=
  match fr.code with
  | .getglobal name :: _ =>
      match L.gettable (.table L.globals) (.string name) with
      | .call _ obj => [obj, .string name]
      | _ => []
  | .setfield name :: _ =>
      match fr.stack with
      | v :: m :: _ =>
          match L.settable m (.string name) with
          | .call _ obj => [obj, .string name, v]
          | _ => []
      | _ => []
  | _ => []

/-!
# Actions
-/

inductive Action where
  | script (p : Prim)
  | call (f : CFunction) (args : List Value) (env : Env)
  | apiArgs
  | api (result : Value)
  | apiRaise (e : LuaError)
  | resume (env : Env)
  | pausedRaise (e : LuaError)
  | collect
  | gctm (env : Env)
  | exit
  | closeState

namespace World

def isAlive (w : World) : Bool :=
  decide (w.phase ≠ .closed) && decide (w.result ≠ .crashed)

/-- A suspended call is the topmost C function: no frame is above it. -/
def inPause (w : World) : Bool :=
  w.paused.any fun p => decide (p.depth = w.frames.length)

/-- Lua code can run: the process lives, and no C function is at work on its own. -/
def canRunLua (w : World) : Bool :=
  w.isAlive &&
    (w.inPause ||
      match w.frames with
      | [] => true
      | fr :: _ =>
          match fr.code with
          | [] => false
          | c :: _ => c.mayRunLua)

def callValues (w : World) : List Value :=
  w.frames.flatMap Frame.stack ++ w.paused.flatMap Paused.args

def pushAll (w : World) (vs : List Value) : World :=
  { w with lua := { w.lua with stack := vs ++ w.lua.stack } }

/-- The end of a library call, as the Lua code that made it sees it. -/
def finishCall (f : CFunction) (serial : Option Nat) :
    EStateM.Result Exit World Reply -> World
  | .ok (.values vs) w =>
      { (w.pushAll vs).emit (.returned f serial) with result := .returned vs }
  | .ok (.building fr) w => { w with frames := fr :: w.frames, result := .pending }
  | .ok (.paused args point) w =>
      { w with
          paused := ⟨args, point, w.frames.length⟩ :: w.paused
          result := .paused }
  | .error (.raise e) w => { w with result := .raised e }
  | .error .crash w => { w with result := .crashed }

/-- Call a function of the library, or go on with it. -/
def performCall (plat : Platform) (entry : Entry) (args : List Value) (env : Env)
    (w : World) : World :=
  finishCall entry.f (w.serialAt (args.headD .nil).toUserdata)
    (enter plat env args entry w)

/-- `create` or `accept` returns the value on top of its stack. -/
def returnFrame (w : World) (fr : Frame) (rest : List Frame) : World :=
  let v := fr.stack.headD .nil
  { (w.pushAll [v]).emit (.issued fr.issue) with
      frames := rest
      result := .returned [v] }

def collect (w : World) : World :=
  { w with lua := w.lua.fullgc w.callValues }

/-- `GCTM`: call the finalizer of the first userdata that is due. -/
def gctm (plat : Platform) (env : Env) (w : World) : Option World :=
  match w.lua.takeDue with
  | none => none
  | some (L, u, tm) =>
      let w := { w with lua := L }
      match tm with
      | .nil => some w
      | .cfunction f _ =>
          if env.admissible plat w then
            some (performCall plat (.call f) [.userdata u] env w)
          else none
      | v => some (w.pushAll [v, .userdata u])

/--
The end of `main`: `lua_onexit`, and the part of `lua_close` that separates all
userdata with a finalizer.
-/
def exit (plat : Platform) (w : World) : World :=
  let w :=
    match luaOnexit plat w with
    | .ok _ w => w
    | .error _ w => w
  { w with
      lua := { w.lua with stack := [] }.separateudata (fun _ => true) true
      phase := .closing }

/-- `close_state`: every object is freed. -/
def closeState (w : World) : World :=
  { w with
      lua := { w.lua with
        tables := fun _ => {}, udata := fun _ => {}, cells := fun _ => []
        mt := fun _ => none, stack := [], rootudata := [], tmudata := [] }
      phase := .closed }

end World

def step (plat : Platform) (w : World) : Action -> Option World
  | .script p =>
      if w.canRunLua then
        (w.lua.scriptStep p).map fun L => { w with lua := L }
      else none
  | .call f args env =>
      if w.canRunLua && w.lua.holdsFunction f && args.all w.lua.holds &&
          env.admissible plat w then
        some (w.performCall plat (.call f) args env)
      else none
  | .apiArgs =>
      if w.canRunLua && !w.inPause then
        match w.frames with
        | [] => none
        | fr :: _ => some (w.pushAll (apiArguments w.lua fr))
      else none
  | .api result =>
      if w.isAlive && !w.inPause then
        match w.frames with
        | [] => none
        | fr :: rest =>
            if fr.code = [] then some (w.returnFrame fr rest)
            else
              (apiStep w.lua fr result).map fun r =>
                { w with lua := r.1, frames := r.2 :: rest }
      else none
  | .apiRaise e =>
      if w.isAlive && !w.inPause then
        match w.frames with
        | [] => none
        | fr :: rest =>
            match fr.code with
            | [] => none
            | c :: _ =>
                if c.mayRaise then
                  some { w with frames := rest, result := .raised e }
                else none
      else none
  | .resume env =>
      if w.isAlive && w.inPause then
        match w.paused with
        | [] => none
        | p :: rest =>
            let w := { w with paused := rest }
            if env.admissible plat w then
              some (w.performCall plat (.resume p.point) p.args env)
            else none
      else none
  | .pausedRaise e =>
      if w.isAlive && w.inPause then
        match w.paused with
        | [] => none
        | _ :: rest => some { w with paused := rest, result := .raised e }
      else none
  | .collect => if w.canRunLua then some w.collect else none
  | .gctm env => if w.canRunLua then w.gctm plat env else none
  | .exit =>
      if w.isAlive && decide (w.frames = []) && decide (w.paused = []) &&
          decide (w.phase = .running) then
        some (w.exit plat)
      else none
  | .closeState =>
      if w.isAlive && decide (w.frames = []) && decide (w.paused = []) &&
          decide (w.phase = .closing) && decide (w.lua.tmudata = []) then
        some w.closeState
      else none

/-!
# The initial state

`pmain` after `luaL_openlibs`: the registry with `_LOADED` and the metatable of
files, the global table, the socket library, the package library and the string
library, which is also the `__index` of strings.  The functions of the other
libraries are left out, as the steps of a script are what they can do.  The script
has the global table at hand.
-/

def str (text : String) : Value := .string (ascii text)

def registryTable : Table :=
  { content := [(str "_LOADED", .table 1), (str "FILE*", .table 4)] }

def loadedTable : Table :=
  { content := [(str "_G", .table 2), (str "package", .table 5),
      (str "socket", .table 3), (str "string", .table 6)] }

def globalTable : Table :=
  { content := [(str "_G", .table 2), (str "package", .table 5),
      (str "socket", .table 3), (str "string", .table 6)] }

def fileTable : Table := { content := [(str "__index", .table 4)] }

def packageTable : Table := { content := [(str "loaded", .table 1)] }

/-- `createmetatable` of `lstrlib.c`. -/
def stringMetatable : Table := { content := [(str "__index", .table 6)] }

def initialTables : Nat -> Table
  | 0 => registryTable
  | 1 => loadedTable
  | 2 => globalTable
  | 3 => luaopenSocket {}
  | 4 => fileTable
  | 5 => packageTable
  | 7 => stringMetatable
  | _ => {}

def initialMt : LuaType -> Option Nat
  | .string => some 7
  | _ => none

def initialLua : LuaState where
  tables := initialTables
  nextTable := 8
  udata := fun _ => { metatable := some 4 }
  nextUdata := 3
  cells := fun _ => []
  nextCell := 0
  mt := initialMt
  registry := 0
  globals := 2
  proxies := []
  stack := [.table 2]
  rootudata := [2, 1, 0]
  tmudata := []

def initialWorld : World where
  socketsInitialized := false
  records := fun _ => none
  nextRecord := 0
  handles := fun _ => none
  nextHandle := 0
  blocks := []
  lua := initialLua
  frames := []
  paused := []
  phase := .running
  result := .none
  log := []

/-- The states the program can get into. -/
def ReachableWorld (plat : Platform) (w : World) : Prop :=
  Library.Reachable (step plat) initialWorld w

/-!
# Scripts as actions

The actions of the Lua expressions and statements that the scripts of the test
programs are made of.
-/

def fetch (t : Nat) (name : String) : List Action :=
  [.script (.literal (str name)), .script (.rawGet t (str name))]

/-- The calls of the Lua API that the first `create` or `accept` still makes. -/
def finishFirst : List Action := List.replicate 13 (.api .nil)

def finishLater : List Action := List.replicate 9 (.api .nil)

/-- `socket.create()` in a fresh interpreter. -/
def createFirst (env : Env) : List Action :=
  fetch 2 "socket" ++ fetch 3 "create" ++ [.call .create [] env] ++ finishFirst

def createLater (env : Env) : List Action :=
  .call .create [] env :: finishLater

/-- A call of a function of the table `socket` on the socket at an address. -/
def callOn (f : CFunction) (name : String) (a : Nat) (args : List Value)
    (env : Env) : List Action :=
  fetch 3 name ++ [.call f (.lightuserdata (.block a) :: args) env]

end LuaServer
