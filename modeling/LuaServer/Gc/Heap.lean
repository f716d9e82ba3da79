import LuaServer.Lua.Collector
import Mathlib.Logic.Function.Basic

/-!
# The heap of the incremental collector

The collectable objects with the references they hold, and the global state with
the lists that the collector threads through them, as `lobject.h`, `lstate.h` and
`lgc.h` lay them out.  An object is named by its type and a number that stands
for its address.
-/

namespace LuaServer
namespace Gc

/-- A pointer to a collectable object. -/
inductive GCObject where
  | string (n : Nat)
  | udata (n : Nat)
  | upval (n : Nat)
  | function (n : Nat)
  | table (n : Nat)
  | thread (n : Nat)
  | proto (n : Nat)
deriving DecidableEq

/--
A tagged value.  `plain` stands for every value that is not collectable but
`nil`; `deadkey` is the tag `LUA_TDEADKEY`.  Prototypes are on the stack while
they are built.
-/
inductive TValue where
  | nil
  | plain
  | deadkey
  | string (n : Nat)
  | udata (n : Nat)
  | function (n : Nat)
  | table (n : Nat)
  | thread (n : Nat)
  | proto (n : Nat)
deriving DecidableEq

namespace TValue

def gcvalue : TValue -> Option GCObject
  | nil => none
  | plain => none
  | deadkey => none
  | string n => some (.string n)
  | udata n => some (.udata n)
  | function n => some (.function n)
  | table n => some (.table n)
  | thread n => some (.thread n)
  | proto n => some (.proto n)

theorem ne_upval {v : TValue} {x : GCObject} (h : v.gcvalue = some x)
    (n : Nat) : x ≠ .upval n := by
  rintro rfl
  cases v <;> cases h

end TValue

def referents (values : List TValue) : List GCObject :=
  values.filterMap TValue.gcvalue

theorem mem_referents {values : List TValue} {x : GCObject} :
    x ∈ referents values <-> exists v, v ∈ values ∧ v.gcvalue = some x := by
  simp [referents, List.mem_filterMap]

@[simp] theorem referents_nil : referents [] = [] := rfl

theorem referents_append (first second : List TValue) :
    referents (first ++ second) = referents first ++ referents second := by
  simp [referents, List.filterMap_append]

/-!
# Objects
-/

/-- A full userdata; `finalized` is the bit `FINALIZEDBIT` of `marked`. -/
structure Udata where
  metatable : Option Nat
  env : Nat
  finalized : Bool

/-- An open upvalue lives in a slot of the stack of a thread. -/
inductive UpVal where
  | closed (value : TValue)
  | opened (thread level : Nat)

inductive Closure where
  | c (env : Nat) (upvalue : List TValue)
  | lua (env p : Nat) (upvals : List Nat)

structure Node where
  key : TValue
  val : TValue

/-- `keyweak` and `valueweak` are bits of `marked`. -/
structure Table where
  metatable : Option Nat
  array : List TValue
  node : List Node
  keyweak : Bool
  valueweak : Bool

/-- A thread; `stack` holds the slots below `top`. -/
structure Thread where
  globals : TValue
  stack : List TValue
  openupval : List Nat

/-- Names and nested prototypes are `none` while they are still being created. -/
structure Proto where
  source : Option Nat
  k : List TValue
  upvalues : List (Option Nat)
  p : List (Option Nat)
  locvars : List (Option Nat)

def GCObject.Payload : GCObject -> Type
  | string _ => LuaString
  | udata _ => Udata
  | upval _ => UpVal
  | function _ => Closure
  | table _ => Table
  | thread _ => Thread
  | proto _ => Proto

namespace Udata

def slots (u : Udata) : List GCObject :=
  u.metatable.toList.map .table ++ [.table u.env]

end Udata

namespace Closure

def slots : Closure -> List GCObject
  | c env upvalue => .table env :: referents upvalue
  | lua env p upvals => .table env :: .proto p :: upvals.map .upval

end Closure

namespace Table

def live (h : Table) : List Node := h.node.filter fun n => n.val ≠ .nil

def slots (h : Table) : List GCObject :=
  h.metatable.toList.map .table ++ referents h.array ++
    (referents (h.live.map Node.key) ++ referents (h.live.map Node.val))

/-- What the marks of a table with these weak bits keep alive. -/
def strongSlots (h : Table) : List GCObject :=
  h.metatable.toList.map .table ++
    (if h.valueweak then [] else referents h.array) ++
    ((if h.keyweak then [] else referents (h.live.map Node.key)) ++
      (if h.valueweak then [] else referents (h.live.map Node.val)))

end Table

namespace Thread

def slots (th : Thread) : List GCObject :=
  referents (th.globals :: th.stack)

end Thread

namespace Proto

def slots (f : Proto) : List GCObject :=
  f.source.toList.map .string ++ referents f.k ++
    (f.upvalues.flatMap Option.toList).map .string ++
    (f.p.flatMap Option.toList).map .proto ++
    (f.locvars.flatMap Option.toList).map .string

end Proto

/-!
# Marks
-/

/--
The color bits of `marked`.  White is one of two whites: the one that new
objects get, or the one of the objects that the running sweep has to free.
-/
inductive Color where
  | white (bit : Bool)
  | gray
  | black
deriving DecidableEq

/-- The field `marked`; `fixed` is `FIXEDBIT`. -/
structure Marked where
  color : Color
  fixed : Bool
deriving DecidableEq

inductive GCState where
  | pause
  | propagate
  | sweepstring
  | sweep
  | finalize
deriving DecidableEq

/--
The global state.  `marked` is `none` where no object is allocated.  `passed` and
`sweepgc` are the parts of the list `rootgc` before and after the sweep pointer;
`strt` are the lists of the string table.  `tmGc` and `tmMode` are the names of
the events in `tmname`.
-/
structure GlobalState where
  objs : (x : GCObject) -> x.Payload
  marked : GCObject -> Option Marked
  currentwhite : Bool
  gcstate : GCState
  passed : List GCObject
  sweepgc : List GCObject
  strt : List (List Nat)
  sweepstrgc : Nat
  gray : List GCObject
  grayagain : List GCObject
  weak : List GCObject
  tmudata : List Nat
  uvhead : List Nat
  mainthread : Nat
  running : Nat
  registry : TValue
  mt : LuaType -> Option Nat
  tmGc : Nat
  tmMode : Nat

namespace GlobalState

/-- The list of all collectable objects but strings and open upvalues. -/
def rootgc (g : GlobalState) : List GCObject := g.passed ++ g.sweepgc

def text (g : GlobalState) (n : Nat) : LuaString := g.objs (.string n)

def udata (g : GlobalState) (n : Nat) : Udata := g.objs (.udata n)

def upval (g : GlobalState) (n : Nat) : UpVal := g.objs (.upval n)

def function (g : GlobalState) (n : Nat) : Closure := g.objs (.function n)

def table (g : GlobalState) (n : Nat) : Table := g.objs (.table n)

def thread (g : GlobalState) (n : Nat) : Thread := g.objs (.thread n)

def proto (g : GlobalState) (n : Nat) : Proto := g.objs (.proto n)

def write (g : GlobalState) (x : GCObject) (p : x.Payload) : GlobalState :=
  { g with objs := Function.update g.objs x p }

def setUdata (g : GlobalState) (n : Nat) (u : Udata) : GlobalState :=
  g.write (.udata n) u

def setUpval (g : GlobalState) (n : Nat) (uv : UpVal) : GlobalState :=
  g.write (.upval n) uv

def setFunction (g : GlobalState) (n : Nat) (cl : Closure) : GlobalState :=
  g.write (.function n) cl

def setTable (g : GlobalState) (n : Nat) (h : Table) : GlobalState :=
  g.write (.table n) h

def setThread (g : GlobalState) (n : Nat) (th : Thread) : GlobalState :=
  g.write (.thread n) th

def setProto (g : GlobalState) (n : Nat) (f : Proto) : GlobalState :=
  g.write (.proto n) f

/-- The contents of the slot `uv->v` of a thread's stack. -/
def stackAt (g : GlobalState) (th level : Nat) : TValue :=
  (g.thread th).stack[level]?.getD .nil

/-- `*uv->v`. -/
def upvalValue (g : GlobalState) (n : Nat) : TValue :=
  match g.upval n with
  | .closed v => v
  | .opened th level => g.stackAt th level

def isOpened (g : GlobalState) (n : Nat) : Bool :=
  match g.upval n with
  | .closed _ => false
  | .opened _ _ => true

/-!
# Colors
-/

def Allocated (g : GlobalState) (x : GCObject) : Prop := g.marked x ≠ none

def color? (g : GlobalState) (x : GCObject) : Option Color :=
  (g.marked x).map Marked.color

def iswhite (g : GlobalState) (x : GCObject) : Bool :=
  match g.color? x with
  | some (.white _) => true
  | _ => false

def isblack (g : GlobalState) (x : GCObject) : Bool :=
  g.color? x = some .black

def isgray (g : GlobalState) (x : GCObject) : Bool :=
  g.color? x = some .gray

/-- `isdead`: the object has the white that is not current. -/
def isdead (g : GlobalState) (x : GCObject) : Bool :=
  g.color? x = some (.white !g.currentwhite)

def paint (g : GlobalState) (x : GCObject) (c : Color) : GlobalState :=
  { g with
    marked := Function.update g.marked x
      ((g.marked x).map fun m => { m with color := c }) }

def makewhite (g : GlobalState) (x : GCObject) : GlobalState :=
  g.paint x (.white g.currentwhite)

/-!
# References

The objects that an object refers to.  A node without a value and a dead key refer
to nothing; an open upvalue refers to what is in its slot of the stack.
-/

/-- The references of an object, those of a weak table included. -/
def slots (g : GlobalState) : GCObject -> List GCObject
  | .string _ => []
  | .udata n => (g.udata n).slots
  | .upval n => referents [g.upvalValue n]
  | .function n => (g.function n).slots
  | .table n => (g.table n).slots
  | .thread n => (g.thread n).slots
  | .proto n => (g.proto n).slots

def metatables (g : GlobalState) : List GCObject :=
  LuaState.basicTypes.filterMap fun ty => (g.mt ty).map GCObject.table

/-- What the program starts from to get at an object. -/
def roots (g : GlobalState) : List GCObject :=
  [.thread g.mainthread, .thread g.running] ++ referents [g.registry] ++
    g.metatables

/-- The program can get at the object, perhaps through a weak table. -/
def Accessible (g : GlobalState) (x : GCObject) : Prop :=
  Library.Reaches g.slots g.roots x

/-- A value the program can have at hand. -/
def AtHand (g : GlobalState) (v : TValue) : Prop :=
  forall x, v.gcvalue = some x -> g.Accessible x

/-!
# Writing and painting
-/

section Frame

variable (g : GlobalState) (x : GCObject)

@[simp] theorem objs_write_self (p : x.Payload) : (g.write x p).objs x = p := by
  simp [write]

theorem objs_write_of_ne (p : x.Payload) {y : GCObject} (h : y ≠ x) :
    (g.write x p).objs y = g.objs y := by
  simp [write, h]

@[simp] theorem marked_write (p : x.Payload) :
    (g.write x p).marked = g.marked := rfl

theorem color?_paint (c : Color) (y : GCObject) :
    (g.paint x c).color? y =
      if y = x then (g.color? x).map fun _ => c else g.color? y := by
  unfold color? paint
  by_cases h : y = x
  · rw [if_pos h, h]
    simp only [Function.update_self]
    cases g.marked x with
    | none => rfl
    | some m => rfl
  · simp [h]

end Frame

theorem udata_setUdata (g : GlobalState) (m n : Nat) (u : Udata) :
    (g.setUdata m u).udata n = if n = m then u else g.udata n := by
  by_cases h : n = m
  · subst h
    rw [if_pos rfl]
    exact objs_write_self g (.udata n) u
  · rw [if_neg h]
    exact objs_write_of_ne g (.udata m) u fun heq => h (GCObject.udata.inj heq)

theorem upval_setUpval (g : GlobalState) (m n : Nat) (uv : UpVal) :
    (g.setUpval m uv).upval n = if n = m then uv else g.upval n := by
  by_cases h : n = m
  · subst h
    rw [if_pos rfl]
    exact objs_write_self g (.upval n) uv
  · rw [if_neg h]
    exact objs_write_of_ne g (.upval m) uv fun heq => h (GCObject.upval.inj heq)

theorem function_setFunction (g : GlobalState) (m n : Nat) (cl : Closure) :
    (g.setFunction m cl).function n = if n = m then cl else g.function n := by
  by_cases h : n = m
  · subst h
    rw [if_pos rfl]
    exact objs_write_self g (.function n) cl
  · rw [if_neg h]
    exact objs_write_of_ne g (.function m) cl fun heq => h (GCObject.function.inj heq)

theorem table_setTable (g : GlobalState) (m n : Nat) (t : Table) :
    (g.setTable m t).table n = if n = m then t else g.table n := by
  by_cases h : n = m
  · subst h
    rw [if_pos rfl]
    exact objs_write_self g (.table n) t
  · rw [if_neg h]
    exact objs_write_of_ne g (.table m) t fun heq => h (GCObject.table.inj heq)

theorem thread_setThread (g : GlobalState) (m n : Nat) (th : Thread) :
    (g.setThread m th).thread n = if n = m then th else g.thread n := by
  by_cases h : n = m
  · subst h
    rw [if_pos rfl]
    exact objs_write_self g (.thread n) th
  · rw [if_neg h]
    exact objs_write_of_ne g (.thread m) th fun heq => h (GCObject.thread.inj heq)

theorem proto_setProto (g : GlobalState) (m n : Nat) (f : Proto) :
    (g.setProto m f).proto n = if n = m then f else g.proto n := by
  by_cases h : n = m
  · subst h
    rw [if_pos rfl]
    exact objs_write_self g (.proto n) f
  · rw [if_neg h]
    exact objs_write_of_ne g (.proto m) f fun heq => h (GCObject.proto.inj heq)

theorem iswhite_iff {g : GlobalState} {x : GCObject} :
    g.iswhite x = true <-> exists b, g.color? x = some (.white b) := by
  unfold iswhite
  cases hx : g.color? x with
  | none => simp
  | some c => cases c <;> simp

theorem isgray_iff {g : GlobalState} {x : GCObject} :
    g.isgray x = true <-> g.color? x = some .gray := by
  simp [isgray]

theorem isblack_iff {g : GlobalState} {x : GCObject} :
    g.isblack x = true <-> g.color? x = some .black := by
  simp [isblack]

theorem isdead_iff {g : GlobalState} {x : GCObject} :
    g.isdead x = true <-> g.color? x = some (.white !g.currentwhite) := by
  simp [isdead]

theorem allocated_iff {g : GlobalState} {x : GCObject} :
    g.Allocated x <-> exists c, g.color? x = some c := by
  unfold Allocated color?
  cases g.marked x with
  | none => simp
  | some m => simp

end GlobalState

end Gc
end LuaServer
