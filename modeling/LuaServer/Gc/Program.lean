import LuaServer.Gc.Sweep

/-!
# What the program does to the heap

The functions of the interpreter and of the API that create objects and that
store references.  A store into an object that may be black ends with its
barrier.  Where an object is created, `n` is the address it gets.
-/

namespace LuaServer
namespace Gc

/-- The store of `c.env`, which all closures have in the same place. -/
def Closure.setEnv (cl : Closure) (env : Nat) : Closure :=
  match cl with
  | .c _ upvalue => .c env upvalue
  | .lua _ p upvals => .lua env p upvals

/-- Where `OP_CLOSURE` takes an upvalue from. -/
inductive Capture where
  | outer (uv : Nat)
  | stack (level uv : Nat)

/-- A store of a key and a value may lay out the table anew. -/
structure Table.Stored (h h' : Table) (key val : TValue) : Prop where
  metatable : h'.metatable = h.metatable
  slots : forall x, x ∈ h'.slots ->
    x ∈ h.slots ∨ key.gcvalue = some x ∨ val.gcvalue = some x

namespace GlobalState

/-!
# The stack
-/

def setStack (g : GlobalState) (th : Nat) (values : List TValue) :
    GlobalState :=
  g.setThread th { g.thread th with stack := values }

/-- The stack from now on; `luaF_close` comes before its top is lowered. -/
def restack (g : GlobalState) (th : Nat) (values : List TValue) :
    GlobalState :=
  (g.close th values.length).setStack th values

def setGlobals (g : GlobalState) (th : Nat) (v : TValue) : GlobalState :=
  g.setThread th { g.thread th with globals := v }

def switch (g : GlobalState) (th : Nat) : GlobalState :=
  { g with running := th }

/-!
# New objects
-/

def pushlstring (g : GlobalState) (str : LuaString) (n : Nat) : GlobalState :=
  (g.internlstr str n).1.push (.string (g.internlstr str n).2)

/-- `luaH_new`, with arrays of the given sizes. -/
def newtable (g : GlobalState) (narray nhash n : Nat) : GlobalState :=
  g.link (.table n)
    { metatable := none
      array := List.replicate narray .nil
      node := List.replicate nhash { key := .nil, val := .nil }
      keyweak := false
      valueweak := false }

def createtable (g : GlobalState) (narray nhash n : Nat) : GlobalState :=
  (g.newtable narray nhash n).push (.table n)

def newudata (g : GlobalState) (env n : Nat) : GlobalState :=
  (g.create (.udata n)
    { metatable := none, env := env, finalized := false }).linkudata (.udata n)

def newuserdata (g : GlobalState) (env n : Nat) : GlobalState :=
  (g.newudata env n).push (.udata n)

/-- `lua_pushcclosure`, with `count` values from the stack. -/
def pushcclosure (g : GlobalState) (env count n : Nat) : GlobalState :=
  let stack := (g.thread g.running).stack
  let top := stack.length - count
  (g.link (.function n) (.c env (stack.drop top))).restack g.running
    (stack.take top ++ [.function n])

def capture (g : GlobalState) : Capture -> GlobalState × Nat
  | .outer uv => (g, uv)
  | .stack level uv => g.findupval g.running level uv

/-- The loop of `OP_CLOSURE`. -/
def captures : GlobalState -> List Capture -> GlobalState × List Nat
  | g, [] => (g, [])
  | g, c :: rest =>
      let r := captures (g.capture c).1 rest
      (r.1, (g.capture c).2 :: r.2)

/-- `OP_CLOSURE`. -/
def pushclosure (g : GlobalState) (env p : Nat) (cs : List Capture) (n : Nat) :
    GlobalState :=
  let r := (g.link (.function n) (.lua env p [])).captures cs
  (r.1.setFunction n (.lua env p r.2)).push (.function n)

def newupval (g : GlobalState) (n : Nat) : GlobalState :=
  g.link (.upval n) (.closed .nil)

def newupvals (g : GlobalState) (ns : List Nat) : GlobalState :=
  ns.foldl newupval g

/-- The end of `f_parser`: the closure of a main function. -/
def loaded (g : GlobalState) (env p : Nat) (ns : List Nat) (n : Nat) :
    GlobalState :=
  let g1 := (g.link (.function n) (.lua env p [])).newupvals ns
  (g1.setFunction n (.lua env p ns)).push (.function n)

/-- `luaF_newproto`, with the source that `open_func` stores in it, if any. -/
def newproto (g : GlobalState) (source : Option Nat) (n : Nat) : GlobalState :=
  (g.link (.proto n)
    { source := source, k := [], upvalues := [], p := [], locvars := [] }).push
      (.proto n)

def newthread (g : GlobalState) (n : Nat) : GlobalState :=
  (g.link (.thread n)
    { globals := (g.thread g.running).globals
      stack := []
      openupval := [] }).push (.thread n)

/-!
# Stores
-/

/-- `newkey` and the store of the value in `luaV_settable` or `lua_rawset`. -/
def settable (g : GlobalState) (t : Nat) (h : Table) (key val : TValue) :
    GlobalState :=
  ((g.setTable t h).barriert t key).barriert t val

/-- The metatable of a table in `lua_setmetatable`. -/
def setmetatable (g : GlobalState) (t : Nat) (mt : Option Nat) :
    GlobalState :=
  let g1 := g.setTable t { g.table t with metatable := mt }
  match mt with
  | none => g1
  | some m => g1.objbarriert t (.table m)

def setudatamt (g : GlobalState) (n : Nat) (mt : Option Nat) : GlobalState :=
  let g1 := g.setUdata n { g.udata n with metatable := mt }
  match mt with
  | none => g1
  | some m => g1.objbarrier (.udata n) (.table m)

/-- The metatable of a basic type in `lua_setmetatable`. -/
def settypemt (g : GlobalState) (ty : LuaType) (mt : Option Nat) :
    GlobalState :=
  { g with mt := fun ty' => if ty' = ty then mt else g.mt ty' }

/-- The environment of a function in `lua_setfenv`. -/
def setfenv (g : GlobalState) (n env : Nat) : GlobalState :=
  (g.setFunction n ((g.function n).setEnv env)).objbarrier (.function n)
    (.table env)

def setudataenv (g : GlobalState) (n env : Nat) : GlobalState :=
  (g.setUdata n { g.udata n with env := env }).objbarrier (.udata n)
    (.table env)

/-- The store through `uv->v`. -/
def setupvalue (g : GlobalState) (n : Nat) (v : TValue) : GlobalState :=
  match g.upval n with
  | .closed _ => g.setUpval n (.closed v)
  | .opened th level => g.setStack th ((g.thread th).stack.set level v)

def opSetupval (g : GlobalState) (n : Nat) (v : TValue) : GlobalState :=
  (g.setupvalue n v).barrier (.upval n) v

/-- The upvalue of a C function in `lua_setupvalue` or `lua_replace`. -/
def setcupvalue (g : GlobalState) (f i : Nat) (v : TValue) : GlobalState :=
  match g.function f with
  | .c env upvalue =>
      (g.setFunction f (.c env (upvalue.set i v))).barrier (.function f) v
  | .lua _ _ _ => g

/-- The upvalue of a Lua function in `lua_setupvalue`: the barrier is on `f`. -/
def luaSetupvalue (g : GlobalState) (f n : Nat) (v : TValue) : GlobalState :=
  (g.setupvalue n v).barrier (.function f) v

/--
The store of `lua_setupvalue` makes a black upvalue refer to a white object, and
the function, which may share the upvalue with a black one, gets no barrier.
-/
def Unbarriered (g : GlobalState) (f n : Nat) (v : TValue) : Prop :=
  g.gcstate = .propagate ∧ g.isblack (.upval n) = true ∧
    g.isblack (.function f) = false ∧ v.gcvalue.any g.iswhite = true

/-- A store of the compiler into a prototype: `addk` and the like. -/
def storeproto (g : GlobalState) (n : Nat) (f : Proto) (v : TValue) :
    GlobalState :=
  (g.setProto n f).barrier (.proto n) v

/-- In the mark phase the store would let a black object refer to a white one. -/
def Unguarded (g : GlobalState) (x : GCObject) (v : TValue) : Prop :=
  g.gcstate = .propagate ∧ g.isblack x = true ∧
    v.gcvalue.any g.iswhite = true

/-- A store of `lundump.c` into a prototype: there is no barrier. -/
def undump (g : GlobalState) (n : Nat) (f : Proto) : GlobalState :=
  g.setProto n f

/-- `lua_replace` on the registry, which has no barrier either. -/
def setregistry (g : GlobalState) (v : TValue) : GlobalState :=
  { g with registry := v }

end GlobalState
end Gc
end LuaServer
