import LuaServer.Lua.Value

/-!
# The Lua state

Tables, userdata, closures and threads of the heap, the metatables of the basic
types, and the stack of values the running code holds.  The operations are those
of `lapi.c`, `lvm.c` and `lauxlib.c` that the socket library goes through.
-/

namespace LuaServer

structure Table where
  content : List (Value × Value) := []
  metatable : Option Nat := none

namespace Table

def lookup : List (Value × Value) -> Value -> Value
  | [], _ => .nil
  | (k, v) :: rest, key => if k = key then v else lookup rest key

/-- `luaH_get`. -/
def get (t : Table) (key : Value) : Value := lookup t.content key

/-- `luaH_set` followed by the store; storing `nil` empties the entry. -/
def set (t : Table) (key v : Value) : Table :=
  let others := t.content.filter fun entry => entry.1 ≠ key
  { t with content := if v = .nil then others else (key, v) :: others }

theorem lookup_filter_self (entries : List (Value × Value)) (key : Value) :
    lookup (entries.filter fun entry => entry.1 ≠ key) key = .nil := by
  induction entries with
  | nil => rfl
  | cons entry rest ih =>
      rcases entry with ⟨k, v⟩
      by_cases hk : k = key
      · simpa [hk] using ih
      · simpa [hk, lookup] using ih

theorem lookup_filter_of_ne (entries : List (Value × Value))
    {key other : Value} (hne : other ≠ key) :
    lookup (entries.filter fun entry => entry.1 ≠ key) other =
      lookup entries other := by
  induction entries with
  | nil => rfl
  | cons entry rest ih =>
      rcases entry with ⟨k, v⟩
      by_cases hk : k = key
      · have hother : k ≠ other := fun h => hne (h.symm.trans hk)
        simpa [hk, lookup, hk ▸ hother] using ih
      · by_cases hother : k = other
        · simp [lookup, hother, hother ▸ hk]
        · simpa [hk, lookup, hother] using ih

@[simp] theorem get_set_self (t : Table) (key v : Value) :
    (t.set key v).get key = v := by
  by_cases hv : v = .nil
  · simpa [get, set, hv] using lookup_filter_self t.content key
  · simp [get, set, hv, lookup]

theorem get_set_of_ne (t : Table) {key other : Value} (v : Value)
    (hne : other ≠ key) : (t.set key v).get other = t.get other := by
  by_cases hv : v = .nil
  · simpa [get, set, hv] using lookup_filter_of_ne t.content hne
  · have hkey : ¬key = other := fun h => hne h.symm
    simpa [get, set, hv, lookup, hkey] using
      lookup_filter_of_ne t.content hne

@[simp] theorem set_metatable (t : Table) (key v : Value) :
    (t.set key v).metatable = t.metatable := rfl

theorem mem_content_of_lookup_ne_nil {entries : List (Value × Value)}
    {key : Value} (h : lookup entries key ≠ .nil) :
    (key, lookup entries key) ∈ entries := by
  induction entries with
  | nil => exact absurd rfl h
  | cons entry rest ih =>
      rcases entry with ⟨k, v⟩
      by_cases hk : k = key
      · simp [lookup, hk]
      · simp only [lookup, hk, if_false] at h ⊢
        exact List.mem_cons_of_mem _ (ih h)

theorem mem_content_set {t : Table} {key v : Value} {entry : Value × Value}
    (h : entry ∈ (t.set key v).content) :
    entry = (key, v) ∨ entry ∈ t.content := by
  unfold set at h
  simp only at h
  split at h
  · exact Or.inr (List.mem_filter.mp h).1
  · rcases List.mem_cons.mp h with hhead | htail
    · exact Or.inl hhead
    · exact Or.inr (List.mem_filter.mp htail).1

end Table

/-- A full userdata: its metatable and the mark that its finalizer has run. -/
structure Udata where
  metatable : Option Nat := none
  finalized : Bool := false

/--
The global state with the stack of the running code.  `stack` holds the values
the running script has at hand, `cells` the upvalues of closures and the stacks
of suspended threads, `proxies` the metatables that `newproxy` accepts,
`rootudata` the list of userdata after the main thread and `tmudata` the
userdata whose finalizer is due.
-/
structure LuaState where
  tables : Nat -> Table
  nextTable : Nat
  udata : Nat -> Udata
  nextUdata : Nat
  cells : Nat -> List Value
  nextCell : Nat
  mt : LuaType -> Option Nat
  registry : Nat
  globals : Nat
  proxies : List Nat
  stack : List Value
  rootudata : List Nat
  tmudata : List Nat

namespace LuaState

def setTable (L : LuaState) (t : Nat) (table : Table) : LuaState :=
  { L with tables := fun i => if i = t then table else L.tables i }

def setUdata (L : LuaState) (u : Nat) (data : Udata) : LuaState :=
  { L with udata := fun i => if i = u then data else L.udata i }

def setCell (L : LuaState) (c : Nat) (values : List Value) : LuaState :=
  { L with cells := fun i => if i = c then values else L.cells i }

def push (L : LuaState) (v : Value) : LuaState :=
  { L with stack := v :: L.stack }

def newTable (L : LuaState) : LuaState × Nat :=
  ({ L.setTable L.nextTable {} with nextTable := L.nextTable + 1 }, L.nextTable)

/-- A new userdata is linked right after the main thread. -/
def newUdata (L : LuaState) (metatable : Option Nat) : LuaState × Nat :=
  ({ L.setUdata L.nextUdata { metatable := metatable } with
      nextUdata := L.nextUdata + 1
      rootudata := L.nextUdata :: L.rootudata }, L.nextUdata)

def newCell (L : LuaState) (values : List Value) : LuaState × Nat :=
  ({ L.setCell L.nextCell values with nextCell := L.nextCell + 1 }, L.nextCell)

/-!
# Metatables
-/

/-- `lua_getmetatable`: tables and full userdata have one of their own. -/
def getmetatable (L : LuaState) : Value -> Option Nat
  | .table t => (L.tables t).metatable
  | .userdata u => (L.udata u).metatable
  | v => L.mt v.ttype

/-- `luaT_gettmbyobj`. -/
def metamethod (L : LuaState) (v : Value) (event : LuaString) : Value :=
  match L.getmetatable v with
  | none => .nil
  | some m => (L.tables m).get (.string event)

/-- `lua_setmetatable` with the object and the metatable given by value. -/
def setmetatable (L : LuaState) (obj : Value) (m : Option Nat) : LuaState :=
  match obj with
  | .table t => L.setTable t { L.tables t with metatable := m }
  | .userdata u => L.setUdata u { L.udata u with metatable := m }
  | v => { L with mt := fun ty => if ty = v.ttype then m else L.mt ty }

/-!
# Indexing

`luaV_gettable` and `luaV_settable` follow chains of `__index` and `__newindex`
for at most `MAXTAGLOOP` steps.  When they reach a function they call it; the
result of the call is up to the Lua code.
-/

def maxTagLoop : Nat := 100

inductive GetResult where
  | value (v : Value)
  | call (tm obj : Value)
  | typeError
  | loop

inductive SetResult where
  | stored (t : Nat)
  | call (tm obj : Value)
  | typeError
  | loop

def gettableLoop (L : LuaState) (key : Value) : Nat -> Value -> GetResult
  | 0, _ => .loop
  | n + 1, t =>
      let tm := L.metamethod t (ascii "__index")
      let follow :=
        if tm.isFunction then GetResult.call tm t else gettableLoop L key n tm
      match t with
      | .table h =>
          let res := (L.tables h).get key
          if res ≠ .nil ∨ tm = .nil then .value res else follow
      | _ => if tm = .nil then .typeError else follow

def gettable (L : LuaState) (t key : Value) : GetResult :=
  gettableLoop L key maxTagLoop t

def settableLoop (L : LuaState) (key : Value) : Nat -> Value -> SetResult
  | 0, _ => .loop
  | n + 1, t =>
      let tm := L.metamethod t (ascii "__newindex")
      let follow :=
        if tm.isFunction then SetResult.call tm t else settableLoop L key n tm
      match t with
      | .table h =>
          if (L.tables h).get key ≠ .nil ∨ tm = .nil then .stored h else follow
      | _ => if tm = .nil then .typeError else follow

/-- `luaV_settable`, which names the table that the value is stored in. -/
def settable (L : LuaState) (t key : Value) : SetResult :=
  settableLoop L key maxTagLoop t

def rawset (L : LuaState) (t : Nat) (key v : Value) : LuaState :=
  L.setTable t ((L.tables t).set key v)

/-!
# The registry
-/

def registryField (L : LuaState) (name : LuaString) : Value :=
  (L.tables L.registry).get (.string name)

/--
`luaL_checkudata`: the pointer of a userdata whose metatable is the one stored
in the registry under the name.
-/
def checkudata (L : LuaState) (v : Value) (tname : LuaString) : Option Ptr :=
  if v.toUserdata = .null then none
  else
    match L.getmetatable v with
    | none => none
    | some m =>
        if (Value.table m).rawEqual (L.registryField tname) then
          some v.toUserdata
        else none

theorem checkudata_eq_some_iff {L : LuaState} {v : Value} {tname : LuaString}
    {p : Ptr} :
    L.checkudata v tname = some p <->
      v.toUserdata = p ∧ p ≠ .null ∧
        exists m, L.getmetatable v = some m ∧
          L.registryField tname = .table m := by
  unfold checkudata
  by_cases hnull : v.toUserdata = .null
  · simp only [hnull, if_true]
    constructor
    · intro h
      cases h
    · rintro ⟨rfl, hne, _⟩
      exact absurd rfl hne
  · simp only [hnull, if_false]
    cases hm : L.getmetatable v with
    | none => simp
    | some m =>
        have heq : (Value.table m).rawEqual (L.registryField tname) = true <->
            L.registryField tname = .table m := by
          unfold Value.rawEqual
          rw [decide_eq_true_iff]
          exact eq_comm
        simp only [heq]
        constructor
        · intro h
          split at h
          · rename_i hreg
            cases h
            exact ⟨rfl, hnull, m, rfl, hreg⟩
          · cases h
        · rintro ⟨rfl, _, m', hm', hreg⟩
          cases hm'
          rw [if_pos hreg]

end LuaState

end LuaServer
