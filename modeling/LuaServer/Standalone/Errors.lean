import LuaServer.Library.Effects
import LuaServer.Lua.Collector

/-!
# Errors and the traceback function

How code leaves by an error, what `luaG_errormsg` makes of it with `traceback` of
`lua.c` as the error function, and what a protected call leaves behind.
-/

namespace LuaServer

/-- The status codes of `lua.h` and `lauxlib.h`. -/
inductive LuaStatus where
  | ok
  | errRun
  | errSyntax
  | errMem
  | errErr
  | errFile
deriving DecidableEq

/--
How code leaves by an error: with a value given to `luaG_errormsg`, which is called
`depth` C calls below the code's caller, or by `luaD_throw` alone.
-/
inductive Raise where
  | error (v : Value) (depth : Nat)
  | memory
  | errErr
deriving DecidableEq

/-- What `luaD_throw` passes on: the status and the value on top of the stack. -/
structure Thrown where
  status : LuaStatus
  top : Value
deriving DecidableEq

namespace Standalone

/-- The state of the interpreter.  `turn` counts what its surroundings answered. -/
structure RunState where
  lua : LuaState
  turn : Nat

abbrev LuaM := EStateM Raise RunState

/-- How a piece of Lua code ends. -/
inductive CodeResult where
  | returns (results : List Value)
  | raises (r : Raise)

/-- The stream and the parser behind `luaL_loadfile`. -/
inductive Parsed where
  | compiled
  | syntaxError (msg : LuaString)
  | memory

inductive ScriptFile where
  | openFails (serr : LuaString)
  | reopenFails (serr : LuaString)
  | loads (parsed : Parsed) (readError : Option LuaString)

/-- The allocations that `dofile` makes outside a protected call. -/
inductive Allocation where
  | filename
  | message
  | traceback
  | errorMessage
  | number
deriving DecidableEq

/--
What Lua code, memory and the file system answer.  `run` is the code of a function,
`grow` the failure of a call or a lookup to get its memory, `position` the place
that `luaG_runerror` puts before a message.  `finalizers` and `step` bound the
finalizers that `lua_gc` and a collection step of `lua_tostring` get to.
-/
structure Vm where
  run : Nat -> LuaState -> Value -> List Value -> LuaState × CodeResult
  grow : Nat -> Option Raise := fun _ => none
  position : Nat -> LuaString := fun _ => []
  number2str : LuaNumber -> LuaString := fun _ => []
  file : ScriptFile := .loads .compiled none
  memory : Allocation -> Bool := fun _ => true
  finalizers : Nat
  step : Option Nat := none

/-!
# Lua code
-/

section LuaCode

variable (vm : Vm)

def luaCall (f : Value) (args : List Value) : LuaM (List Value) := fun s =>
  match vm.run s.turn s.lua f args with
  | (L, .returns results) => .ok results ⟨L, s.turn + 1⟩
  | (L, .raises r) => .error r ⟨L, s.turn + 1⟩

def allocate : LuaM Unit := fun s =>
  match vm.grow s.turn with
  | none => .ok () ⟨s.lua, s.turn + 1⟩
  | some r => .error r ⟨s.lua, s.turn + 1⟩

/-- The value that `luaV_gettable` finds no way to index. -/
def unindexable (L : LuaState) : Nat -> Value -> Value
  | 0, t => t
  | n + 1, t =>
      let tm := L.metamethod t (ascii "__index")
      if tm = .nil then t else unindexable L n tm

/-- `luaG_typeerror` for an index operation of a C function. -/
def indexError (L : LuaState) (t : Value) : Value :=
  let culprit := unindexable L LuaState.maxTagLoop t
  .string (ascii ("attempt to index a " ++ luaLTypename (some culprit) ++ " value"))

def luaGetfield (t : Value) (k : LuaString) : LuaM Value := do
  allocate vm
  let s ← get
  match s.lua.gettable t (.string k) with
  | .value v => return v
  | .call tm obj => return (← luaCall vm tm [obj, .string k]).headD .nil
  | .typeError => throw (.error (indexError s.lua t) 0)
  | .loop => throw (.error (.string (ascii "loop in gettable")) 0)

def isString : Value -> Bool
  | .string _ => true
  | .number _ => true
  | _ => false

/-- `traceback` of `lua.c`. -/
def traceback (msg : Value) : LuaM Value := do
  if !isString msg then return msg
  let debug ← luaGetfield vm (.table (← get).lua.globals) (ascii "debug")
  if debug.ttype ≠ .table then return msg
  let f ← luaGetfield vm debug (ascii "traceback")
  if !f.isFunction then return msg
  return (← luaCall vm f [msg, .number (LuaNumber.ofInt 2)]).headD .nil

end LuaCode

/-!
# Errors in protected calls
-/

def luaiMaxccalls : Nat := 200

section Errors

variable (vm : Vm)

/-- `luaD_call` of the error function. -/
def callTraceback (nCcalls : Nat) (msg : Value) : LuaM Value := do
  if nCcalls = luaiMaxccalls then
    throw (.error (.string
      (cString (vm.position (← get).turn) ++ ascii "C stack overflow")) 0)
  if luaiMaxccalls + luaiMaxccalls / 8 ≤ nCcalls then throw .errErr
  allocate vm
  traceback vm msg

/--
An error in a function that runs `nCcalls` C calls deep, up to the `luaD_throw`
that ends it: the error function is called, and an error in it is an error again.
The C calls grow with each, so `fuel` need not exceed their limit.
-/
def throwing : Nat -> Nat -> Raise -> RunState -> Thrown × RunState
  | _, _, .memory, s => (⟨.errMem, .nil⟩, s)
  | _, _, .errErr, s => (⟨.errErr, .nil⟩, s)
  | 0, _, .error _ _, s => (⟨.errErr, .nil⟩, s)
  | fuel + 1, nCcalls, .error v depth, s =>
      match callTraceback vm (nCcalls + depth + 1) v s with
      | .ok w s' => (⟨.errRun, w⟩, s')
      | .error r s' => throwing fuel (nCcalls + depth + 1) r s'

def luaDSeterrorobj (t : Thrown) : Value :=
  match t.status with
  | .errMem => .string (ascii "not enough memory")
  | .errErr => .string (ascii "error in error handling")
  | _ => t.top

/-- `luaD_call` entered `pmain` and then the chunk. -/
def chunkDepth : Nat := 2

def errorFuel : Nat := luaiMaxccalls + luaiMaxccalls / 8

/-- `luaD_rawrunprotected` of a chunk, with `traceback` as the error function. -/
def runProtected (f : Value) (args : List Value) (s : RunState) :
    Except Thrown (List Value) × RunState :=
  match luaCall vm f args s with
  | .ok results s' => (.ok results, s')
  | .error r s' =>
      let thrown := throwing vm errorFuel chunkDepth r s'
      (.error thrown.1, thrown.2)

end Errors

/-!
# Finalizers
-/

section Finalizers

variable (vm : Vm)

/-- The finalize phase: `GCTM`, this often or until no finalizer is due. -/
def finalize : Nat -> LuaM Unit
  | 0 => pure ()
  | n + 1 => do
      let s ← get
      match s.lua.takeDue with
      | none => pure ()
      | some (L, u, tm) =>
          set (RunState.mk L s.turn)
          if tm ≠ .nil then
            let _ ← luaCall vm tm [.userdata u]
          finalize n

/-- A collection that keeps what the stack refers to. -/
def collect (stack : List Value) (finalizers : Nat) : LuaM Unit := do
  modify fun s => { s with lua := s.lua.fullgc stack }
  finalize vm finalizers

end Finalizers

end Standalone

end LuaServer
