import LuaServer.Platform.Scalars

/-!
# Lua values

The values of the interpreter as far as the socket library can tell them apart.
Heap objects are named by numbers; the pointer inside a light userdata keeps
where it came from.
-/

namespace LuaServer

/--
A C pointer held by a light userdata.  `sentinel` is the address of `sentinel_`
in `loadlib.c`; `block` is an address that `malloc` gave out; `udata` is the
memory block of a full userdata.
-/
inductive Ptr where
  | null
  | sentinel
  | block (addr : Nat)
  | udata (u : Nat)
deriving DecidableEq

/-- The C functions of the socket library. -/
inductive CFunction where
  | create
  | bind
  | listen
  | accept
  | recv
  | send
  | close
  | onCollectSocket
deriving DecidableEq

/--
A C function is a closure of its own each time `lua_pushcclosure` makes one:
`made` is the number of the record for which `init_socket_instance` has made it,
and `none` is the closure that `luaopen_socket` has made.
-/
inductive Value where
  | nil
  | boolean (b : Bool)
  | lightuserdata (p : Ptr)
  | number (n : LuaNumber)
  | string (s : LuaString)
  | table (t : Nat)
  | cfunction (f : CFunction) (made : Option Nat)
  | closure (c : Nat)
  | userdata (u : Nat)
  | thread (c : Nat)
deriving DecidableEq

/-- The tags that index the per-type metatables of `global_State`. -/
inductive LuaType where
  | nil
  | boolean
  | lightuserdata
  | number
  | string
  | table
  | function
  | userdata
  | thread
deriving DecidableEq

namespace Value

def ttype : Value -> LuaType
  | nil => .nil
  | boolean _ => .boolean
  | lightuserdata _ => .lightuserdata
  | number _ => .number
  | string _ => .string
  | table _ => .table
  | cfunction _ _ => .function
  | closure _ => .function
  | userdata _ => .userdata
  | thread _ => .thread

def isFunction (v : Value) : Bool := decide (v.ttype = .function)

def toBoolean : Value -> Bool
  | nil => false
  | boolean b => b
  | _ => true

/-- `lua_touserdata`: the null pointer for a value that is no userdata. -/
def toUserdata : Value -> Ptr
  | userdata u => .udata u
  | lightuserdata p => p
  | _ => .null

/-- `luaO_rawequalObj`. -/
def rawEqual : Value -> Value -> Bool
  | number x, number y => x.numEq y
  | v, w => decide (v = w)

@[simp] theorem rawEqual_lightuserdata (p q : Ptr) :
    rawEqual (lightuserdata p) (lightuserdata q) = decide (p = q) := by
  simp [rawEqual]

end Value

/-- `luaL_typename`; an absent argument has the type name `no value`. -/
def luaLTypename : Option Value -> String
  | none => "no value"
  | some v =>
      match v.ttype with
      | .nil => "nil"
      | .boolean => "boolean"
      | .lightuserdata => "userdata"
      | .number => "number"
      | .string => "string"
      | .table => "table"
      | .function => "function"
      | .userdata => "userdata"
      | .thread => "thread"

/-!
# Errors

The error value that a longjmp carries: a message, the argument error of
`luaL_argerror`, the preallocated memory error, or any value that Lua code
raised.
-/

inductive LuaError where
  | message (text : String)
  | argument (narg : Nat) (text : String)
  | memory
  | value (v : Value)
deriving DecidableEq

def luaLTyperror (narg : Nat) (tname : String) (got : Option Value) : LuaError :=
  .argument narg (tname ++ " expected, got " ++ luaLTypename got)

end LuaServer
