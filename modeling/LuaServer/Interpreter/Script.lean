import LuaServer.Lua.Collector
import LuaServer.Socklib.Functions

/-!
# What a script does to the Lua state

A script acts on the heap by primitive steps whose operands are values it has at
hand.  Everything the standard libraries without `debug` let it do with tables,
metatables, userdata, closures and threads is made of these steps.
-/

namespace LuaServer

inductive Prim where
  | literal (v : Value)
  | forget (i : Nat)
  | newTable
  | rawGet (t : Nat) (key : Value)
  | rawNext (t i : Nat)
  | rawSet (t : Nat) (key v : Value)
  | getMetatable (v : Value)
  | setMetatable (t : Nat) (m : Option Nat)
  | newProxy (arg : Value)
  | openFile
  | newClosure (upvalues : List Value)
  | newThread (values : List Value)
  | getCell (v : Value) (i : Nat)
  | setCell (v : Value) (values : List Value)
  | requireMark (name : LuaString)
  | setGlobals (t : Nat)
deriving DecidableEq

def Value.isLiteral : Value -> Bool
  | .nil => true
  | .boolean _ => true
  | .number _ => true
  | .string _ => true
  | _ => false

def Value.cell? : Value -> Option Nat
  | .closure c => some c
  | .thread c => some c
  | _ => none

def fileHandleName : LuaString := ascii "FILE*"

def loadedName : LuaString := ascii "_LOADED"

namespace LuaState

def holds (L : LuaState) (v : Value) : Bool := decide (v ∈ L.stack)

def holdsFunction (L : LuaState) (f : CFunction) : Bool :=
  L.stack.any fun v =>
    match v with
    | .cfunction g _ => decide (g = f)
    | _ => false

def metafield (L : LuaState) (m : Nat) : Value :=
  (L.tables m).get (.string (ascii "__metatable"))

def metatableValue (L : LuaState) (v : Value) : Value :=
  match L.getmetatable v with
  | none => .nil
  | some m => if L.metafield m ≠ .nil then L.metafield m else .table m

/-- `luaB_setmetatable` refuses to change a protected metatable. -/
def isProtected (L : LuaState) (t : Nat) : Bool :=
  match (L.tables t).metatable with
  | none => false
  | some m => decide (L.metafield m ≠ .nil)

/--
`luaB_newproxy`: no metatable, a new one, or the one of a value whose metatable
the weak table of `newproxy` knows.
-/
def newproxy (L : LuaState) (arg : Value) : Option LuaState :=
  match arg with
  | .boolean true =>
      let (L, m) := L.newTable
      let (L, u) := { L with proxies := m :: L.proxies }.newUdata (some m)
      some (L.push (.userdata u))
  | v =>
      if v.toBoolean then
        match L.getmetatable v with
        | none => none
        | some m =>
            if m ∈ L.proxies then
              let (L, u) := L.newUdata (some m)
              some (L.push (.userdata u))
            else none
      else
        let (L, u) := L.newUdata none
        some (L.push (.userdata u))

/-- `newfile` of `liolib.c` uses the metatable that the registry holds for files. -/
def openFile (L : LuaState) : Option LuaState :=
  match L.registryField fileHandleName with
  | .table m =>
      let (L, u) := L.newUdata (some m)
      some (L.push (.userdata u))
  | _ => none

/--
The step of `ll_require` that stores the sentinel in `_LOADED[name]`, if no true
value is there.  If a `__newindex` function takes the store, it gets the
sentinel as an argument.
-/
def requireMark (L : LuaState) (name : LuaString) : Option LuaState :=
  let sentinel := Value.lightuserdata .sentinel
  let loaded := L.registryField loadedName
  let missing :=
    match L.gettable loaded (.string name) with
    | .value v => !v.toBoolean
    | .call _ _ => true
    | _ => false
  if missing then
    match L.settable loaded (.string name) with
    | .stored t => some (L.rawset t (.string name) sentinel)
    | .call _ _ => some (L.push sentinel)
    | _ => none
  else none

/-- One primitive step; impossible if an operand is not at hand. -/
def scriptStep (L : LuaState) : Prim -> Option LuaState
  | .literal v => if v.isLiteral then some (L.push v) else none
  | .forget i => some { L with stack := L.stack.eraseIdx i }
  | .newTable =>
      let (L, t) := L.newTable
      some (L.push (.table t))
  | .rawGet t key =>
      if L.holds (.table t) && L.holds key then
        some (L.push ((L.tables t).get key))
      else none
  | .rawNext t i =>
      if L.holds (.table t) then
        (L.tables t).content[i]?.map fun entry => L.push entry.1
      else none
  | .rawSet t key v =>
      if L.holds (.table t) && L.holds key && L.holds v && decide (key ≠ .nil)
      then some (L.rawset t key v)
      else none
  | .getMetatable v =>
      if L.holds v then some (L.push (L.metatableValue v)) else none
  | .setMetatable t m =>
      if L.holds (.table t) && !L.isProtected t &&
          (match m with
            | none => true
            | some m => L.holds (.table m)) then
        some (L.setmetatable (.table t) m)
      else none
  | .newProxy arg => if L.holds arg then L.newproxy arg else none
  | .openFile => L.openFile
  | .newClosure upvalues =>
      if upvalues.all L.holds then
        let (L, c) := L.newCell upvalues
        some (L.push (.closure c))
      else none
  | .newThread values =>
      if values.all L.holds then
        let (L, c) := L.newCell values
        some (L.push (.thread c))
      else none
  | .getCell v i =>
      if L.holds v then
        match v.cell? with
        | none => none
        | some c => (L.cells c)[i]?.map L.push
      else none
  | .setCell v values =>
      if L.holds v && values.all L.holds then
        v.cell?.map fun c => L.setCell c values
      else none
  | .requireMark name => L.requireMark name
  | .setGlobals t =>
      if L.holds (.table t) then some { L with globals := t } else none

end LuaState

end LuaServer
