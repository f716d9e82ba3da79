import LuaServer.Library.Marking
import LuaServer.Lua.State

/-!
# The garbage collector

The mark phase, the separation of userdata that need finalization, the clearing
of weak tables and the sweep of the userdata list, as `lgc.c` performs them in
one full collection.  A light userdata is no object: it is neither marked nor
linked in any list.
-/

namespace LuaServer

open Library

/-- The collectable objects that can refer to others. -/
inductive Obj where
  | table (t : Nat)
  | udata (u : Nat)
  | cell (c : Nat)
deriving DecidableEq

def Value.obj? : Value -> Option Obj
  | .table t => some (.table t)
  | .userdata u => some (.udata u)
  | .closure c => some (.cell c)
  | .thread c => some (.cell c)
  | _ => none

namespace LuaState

/-!
# Traversal
-/

/-- Whether the `__mode` of the table's metatable contains the letter. -/
def hasMode (L : LuaState) (t : Table) (letter : UInt8) : Bool :=
  match t.metatable with
  | none => false
  | some m =>
      match (L.tables m).get (.string (ascii "__mode")) with
      | .string mode => decide (letter ∈ cString mode)
      | _ => false

def weakKey (L : LuaState) (t : Table) : Bool := L.hasMode t 107

def weakValue (L : LuaState) (t : Table) : Bool := L.hasMode t 118

def tableSlots (L : LuaState) (t : Table) : List Value :=
  (match t.metatable with
    | none => []
    | some m => [.table m]) ++
  (if L.weakKey t then [] else t.content.map Prod.fst) ++
  (if L.weakValue t then [] else t.content.map Prod.snd)

def udataSlots (data : Udata) : List Value :=
  match data.metatable with
  | none => []
  | some m => [.table m]

/-- The values an object keeps alive. -/
def slots (L : LuaState) : Obj -> List Value
  | .table t => if t < L.nextTable then L.tableSlots (L.tables t) else []
  | .udata u => if u < L.nextUdata then udataSlots (L.udata u) else []
  | .cell c => if c < L.nextCell then L.cells c else []

def children (L : LuaState) (o : Obj) : List Obj :=
  (L.slots o).filterMap Value.obj?

def objects (L : LuaState) : List Obj :=
  (List.range L.nextTable).map Obj.table ++
    ((List.range L.nextUdata).map Obj.udata ++
      (List.range L.nextCell).map Obj.cell)

def basicTypes : List LuaType :=
  [.nil, .boolean, .lightuserdata, .number, .string, .table, .function,
    .userdata, .thread]

/--
`markroot` and `markmt`: the main thread with its stack, the global table, the
registry and the metatables of the basic types.
-/
def rootValues (L : LuaState) : List Value :=
  L.stack ++ [.table L.globals, .table L.registry] ++
    basicTypes.filterMap fun ty => (L.mt ty).map Value.table

def markFrom (L : LuaState) (extra : List Value) : List Obj :=
  mark L.children L.objects
    ((L.rootValues ++ extra).filterMap Value.obj?)

/-!
# Finalization
-/

/-- `fasttm(L, metatable, TM_GC)`. -/
def gcMetamethod (L : LuaState) (u : Nat) : Value :=
  match (L.udata u).metatable with
  | none => .nil
  | some m => (L.tables m).get (.string (ascii "__gc"))

def markfinalized (L : LuaState) (u : Nat) : LuaState :=
  L.setUdata u { L.udata u with finalized := true }

/--
The loop of `luaC_separateudata` over the userdata list: the state with the new
marks, the userdata that stay in the list, and those whose finalizer is due.
-/
def separateLoop (white : Nat -> Bool) (all : Bool) :
    LuaState -> List Nat -> LuaState × List Nat × List Nat
  | L, [] => (L, [], [])
  | L, curr :: rest =>
      if !(white curr || all) || (L.udata curr).finalized then
        let r := separateLoop white all L rest
        (r.1, curr :: r.2.1, r.2.2)
      else if L.gcMetamethod curr = .nil then
        let r := separateLoop white all (L.markfinalized curr) rest
        (r.1, curr :: r.2.1, r.2.2)
      else
        let r := separateLoop white all (L.markfinalized curr) rest
        (r.1, r.2.1, curr :: r.2.2)

/-- `luaC_separateudata`: due userdata are linked at the end of `tmudata`. -/
def separateudata (L : LuaState) (white : Nat -> Bool) (all : Bool) : LuaState :=
  let r := separateLoop white all L L.rootudata
  { r.1 with rootudata := r.2.1, tmudata := L.tmudata ++ r.2.2 }

/-!
# One full collection
-/

/-- `iscleared`; strings and values without an object are never cleared. -/
def iscleared (L : LuaState) (black : List Obj) (iskey : Bool) (v : Value) :
    Bool :=
  match v.obj? with
  | none => false
  | some o =>
      decide (o ∉ black) ||
        match o with
        | .udata u => !iskey && (L.udata u).finalized
        | _ => false

/-- `cleartable`: drop the entries of marked weak tables that refer to the dead. -/
def cleartable (L : LuaState) (black : List Obj) : LuaState :=
  { L with
    tables := fun t =>
      let table := L.tables t
      if decide (Obj.table t ∈ black) && (L.weakKey table || L.weakValue table)
      then
        { table with
          content := table.content.filter fun entry =>
            !(L.iscleared black true entry.1 || L.iscleared black false entry.2) }
      else table }

def sweepudata (L : LuaState) (black : List Obj) : LuaState :=
  { L with rootudata := L.rootudata.filter fun u => decide (Obj.udata u ∈ black) }

/--
`luaC_fullgc` up to the finalizers: mark, separate, mark what the separated
userdata keep alive, clear the weak tables and sweep.  `extra` are the values on
the stacks of C functions in progress.
-/
def fullgc (L : LuaState) (extra : List Value) : LuaState :=
  let black := L.markFrom extra
  let L1 := L.separateudata (fun u => decide (Obj.udata u ∉ black)) false
  let black1 := L1.markFrom (extra ++ L1.tmudata.map Value.userdata)
  (L1.cleartable black1).sweepudata black1

/--
The first step of `GCTM`: the first userdata of `tmudata` goes back to the
userdata list, and its finalizer is looked up.
-/
def takeDue (L : LuaState) : Option (LuaState × Nat × Value) :=
  match L.tmudata with
  | [] => none
  | u :: rest =>
      let L1 := { L with tmudata := rest, rootudata := u :: L.rootudata }
      some (L1, u, L1.gcMetamethod u)

/-!
# Reachability
-/

/-- An object is alive if it is reached from the roots or the extra values. -/
def Alive (L : LuaState) (extra : List Value) (o : Obj) : Prop :=
  Reaches L.children ((L.rootValues ++ extra).filterMap Value.obj?) o

/--
A value a script can still get at: it is on a stack or in a root, or an object
that is alive holds it; entries of weak tables count.
-/
def ReachableValue (L : LuaState) (extra : List Value) (v : Value) : Prop :=
  v ∈ L.rootValues ++ extra ∨
    (exists c, L.Alive extra (.cell c) ∧ v ∈ L.cells c) ∨
    (exists t entry, L.Alive extra (.table t) ∧
      entry ∈ (L.tables t).content ∧ (v = entry.1 ∨ v = entry.2))

theorem children_of_notMem_objects (L : LuaState) (o : Obj)
    (h : o ∉ L.objects) : L.children o = [] := by
  cases o with
  | table t =>
      have ht : ¬t < L.nextTable := fun hlt => h (by simp [objects, hlt])
      simp [children, slots, ht]
  | udata u =>
      have hu : ¬u < L.nextUdata := fun hlt => h (by simp [objects, hlt])
      simp [children, slots, hu]
  | cell c =>
      have hc : ¬c < L.nextCell := fun hlt => h (by simp [objects, hlt])
      simp [children, slots, hc]

/-- The mark phase marks exactly the objects that are alive. -/
theorem mem_markFrom_iff (L : LuaState) (extra : List Value) (o : Obj) :
    o ∈ L.markFrom extra <-> L.Alive extra o :=
  mem_mark_iff L.children_of_notMem_objects o

def contents (L : LuaState) : Obj -> List Value
  | .table t =>
      (L.tables t).content.map Prod.fst ++ (L.tables t).content.map Prod.snd
  | .udata _ => []
  | .cell c => L.cells c

theorem reachableValue_iff (L : LuaState) (extra : List Value) (v : Value) :
    L.ReachableValue extra v <->
      v ∈ L.rootValues ++ extra ∨
        exists o, o ∈ L.markFrom extra ∧ v ∈ L.contents o := by
  unfold ReachableValue
  constructor
  · rintro (hroot | ⟨c, hc, hv⟩ | ⟨t, entry, ht, hentry, hv⟩)
    · exact Or.inl hroot
    · exact Or.inr ⟨_, (L.mem_markFrom_iff extra _).mpr hc, hv⟩
    · refine Or.inr ⟨_, (L.mem_markFrom_iff extra _).mpr ht, ?_⟩
      rcases hv with rfl | rfl
      · exact List.mem_append_left _ (List.mem_map_of_mem hentry)
      · exact List.mem_append_right _ (List.mem_map_of_mem hentry)
  · rintro (hroot | ⟨o, ho, hv⟩)
    · exact Or.inl hroot
    · have halive := (L.mem_markFrom_iff extra o).mp ho
      cases o with
      | udata u => cases hv
      | cell c => exact Or.inr (Or.inl ⟨c, halive, hv⟩)
      | table t =>
          right
          right
          rcases List.mem_append.mp hv with hv | hv
          · rcases List.mem_map.mp hv with ⟨entry, hentry, rfl⟩
            exact ⟨t, entry, halive, hentry, Or.inl rfl⟩
          · rcases List.mem_map.mp hv with ⟨entry, hentry, rfl⟩
            exact ⟨t, entry, halive, hentry, Or.inr rfl⟩

instance (L : LuaState) (extra : List Value) (v : Value) :
    Decidable (L.ReachableValue extra v) :=
  decidable_of_iff _ (L.reachableValue_iff extra v).symm

end LuaState

end LuaServer
