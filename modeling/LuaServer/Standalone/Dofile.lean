import LuaServer.Standalone.Errors

/-!
# dofile

`dofile` of `lua.c` with the functions it calls: the stack of `pmain`, what goes
to `stderr`, and the errors that no protected call of `dofile` stops.
-/

namespace LuaServer
namespace Standalone

/--
The state of `pmain`.  The stack has its top at the end.  `stderr` holds what each
diagnostic passed for `%s`, where nothing stands for the null pointer.
-/
structure PmainState where
  run : RunState
  stack : List Value
  stderr : List (Option LuaString)

/-- Errors end in the protected call of `main`. -/
abbrev Pmain := EStateM Thrown PmainState

/-!
# The stack
-/

def push (v : Value) : Pmain Unit :=
  modify fun s => { s with stack := s.stack ++ [v] }

def luaPop (n : Nat) : Pmain Unit :=
  modify fun s => { s with stack := s.stack.take (s.stack.length - n) }

/-- `lua_settop` that drops values. -/
def luaSettop (idx : Nat) : Pmain Unit :=
  modify fun s => { s with stack := s.stack.take idx }

def luaRemove (idx : Nat) : Pmain Unit :=
  modify fun s => { s with stack := s.stack.eraseIdx (idx - 1) }

def luaInsert (idx : Nat) : Pmain Unit :=
  modify fun s =>
    { s with
      stack := s.stack.dropLast.insertIdx (idx - 1) (s.stack.getLastD .nil) }

/-!
# Outside protected calls
-/

/-- Without an error function, `luaG_errormsg` throws what it is given. -/
def Raise.thrown : Raise -> Thrown
  | .error v _ => ⟨.errRun, v⟩
  | .memory => ⟨.errMem, .nil⟩
  | .errErr => ⟨.errErr, .nil⟩

def unprotected {α : Type} (x : LuaM α) : Pmain α := fun s =>
  match x s.run with
  | .ok a run => .ok a { s with run := run }
  | .error r run => .error (Raise.thrown r) { s with run := run }

section Pmain

variable (vm : Vm)

def allocating (a : Allocation) : Pmain Unit :=
  if vm.memory a then pure () else throw ⟨.errMem, .nil⟩

def luaGcCollect : Pmain Unit := do
  let s ← get
  unprotected (collect vm s.stack vm.finalizers)

def luaCCheckGC : Pmain Unit := do
  match vm.step with
  | none => pure ()
  | some finalizers =>
      let s ← get
      unprotected (collect vm s.stack finalizers)

/-- `lua_tostring` of the value on top, which it converts in place. -/
def luaTostring : Pmain (Option LuaString) := do
  match (← get).stack.getLastD .nil with
  | .string text => return some text
  | .number n =>
      allocating vm .number
      luaPop 1
      push (.string (vm.number2str n))
      luaCCheckGC vm
      return some (vm.number2str n)
  | _ => return none

/-- The closure that `lua_load` or `lua_pushcfunction` pushes. -/
def pushClosure (upvalues : List Value) : Pmain Unit :=
  modify fun s =>
    let L := s.run.lua.newCell upvalues
    { s with
      run := { s.run with lua := L.1 }
      stack := s.stack ++ [.closure L.2] }

/-!
# Loading
-/

def errfile (what : String) (serr : LuaString) (fnameindex : Nat) :
    Pmain LuaStatus := do
  let chunkname := (← get).stack.getD (fnameindex - 1) .nil
  let filename := match chunkname with
    | .string s => cString (s.drop 1)
    | _ => []
  allocating vm .message
  push (.string (ascii ("cannot " ++ what ++ " ") ++ filename ++ ascii ": " ++
    cString serr))
  luaRemove fnameindex
  return .errFile

/-- `lua_load`: the parser runs protected and leaves a function or a message. -/
def luaLoad (parsed : Parsed) : Pmain LuaStatus := do
  match parsed with
  | .compiled =>
      pushClosure []
      return .ok
  | .syntaxError msg =>
      push (.string (cString msg))
      return .errSyntax
  | .memory =>
      push (.string (ascii "not enough memory"))
      return .errMem

/-- The end of `luaL_loadfile`, after the stream was closed. -/
def closeStream (status : LuaStatus) (readError : Option LuaString)
    (fnameindex : Nat) : Pmain LuaStatus :=
  match readError with
  | some serr => do
      luaSettop fnameindex
      errfile vm "read" serr fnameindex
  | none => do
      luaRemove fnameindex
      return status

def luaLLoadfile (filename : LuaString) : Pmain LuaStatus := do
  let fnameindex := (← get).stack.length + 1
  allocating vm .filename
  push (.string (ascii "@" ++ cString filename))
  match vm.file with
  | .openFails serr => errfile vm "open" serr fnameindex
  | .reopenFails serr => errfile vm "reopen" serr fnameindex
  | .loads parsed readError =>
      let status ← luaLoad parsed
      closeStream vm status readError fnameindex

/-!
# lua.c
-/

/-- As many results as were asked for, all of them for `LUA_MULTRET`. -/
def adjust (results : List Value) : Option Nat -> List Value
  | none => results
  | some n => (results ++ List.replicate n Value.nil).take n

/-- `luaD_seterrorobj` on the stack; the message of `LUA_ERRERR` is a new string. -/
def setErrorObject (thrown : Thrown) : Pmain LuaStatus := do
  if thrown.status = .errErr then allocating vm .errorMessage else pure ()
  push (luaDSeterrorobj thrown)
  return thrown.status

/-- The results, or the error object, take the place of the function. -/
def finishPcall (below : List Value) (nresults : Option Nat) :
    Except Thrown (List Value) × RunState -> Pmain LuaStatus
  | (.ok results, run) => do
      modify fun s =>
        { s with run := run, stack := below ++ adjust results nresults }
      return .ok
  | (.error thrown, run) => do
      modify fun s => { s with run := run, stack := below }
      setErrorObject vm thrown

/-- `lua_pcall` with `traceback` as its error function. -/
def luaPcall (nargs : Nat) (nresults : Option Nat) : Pmain LuaStatus := do
  let s ← get
  let func := s.stack.length - (nargs + 1)
  finishPcall vm (s.stack.take func) nresults
    (runProtected vm (s.stack.getD func .nil) (s.stack.drop (func + 1)) s.run)

def doluacall (narg : Nat) (clear : Bool) : Pmain LuaStatus := do
  let base := (← get).stack.length - narg
  allocating vm .traceback
  pushClosure []
  luaInsert base
  let status ← luaPcall vm narg (if clear then some 0 else none)
  luaRemove base
  if status ≠ .ok then luaGcCollect vm
  return status

/-- `print_lua_error`, which takes its text from the stack. -/
def printLuaError (_msg : LuaString) : Pmain Unit := do
  let text ← luaTostring vm
  modify fun s => { s with stderr := s.stderr ++ [text.map cString] }

def report (status : Int) : Pmain Int := do
  if status ≠ 0 ∧ (← get).stack.getLastD .nil ≠ .nil then
    let msg ← luaTostring vm
    printLuaError vm (msg.getD (ascii "(error object is not a string)"))
    luaPop 1
  return status

def dofile (name : LuaString) : Pmain Int := do
  let loaded ← luaLLoadfile vm name
  let failed ←
    if loaded ≠ .ok then pure true
    else (fun status => decide (status ≠ .ok)) <$> doluacall vm 0 true
  report vm (if failed then 1 else 0)

end Pmain

end Standalone
end LuaServer
