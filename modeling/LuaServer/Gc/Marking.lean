import LuaServer.Gc.Heap

/-!
# The mark phase

`reallymarkobject`, the traversal of gray objects and the atomic step that ends
the mark phase.  Of the costs that the functions return and of the estimates that
pace the collector nothing is kept.
-/

namespace LuaServer
namespace Gc
namespace GlobalState

/-!
# Marking one object
-/

/-- An object that is traversed later goes on the list of gray objects. -/
def shade (g : GlobalState) (x : GCObject) : GlobalState :=
  { g.paint x .gray with gray := x :: g.gray }

/-- `markobject` of a table, which `reallymarkobject` only links. -/
def marktable (g : GlobalState) (n : Nat) : GlobalState :=
  if g.iswhite (.table n) then g.shade (.table n) else g

def reallymarkudata (g : GlobalState) (n : Nat) : GlobalState :=
  let g1 := g.paint (.udata n) .black
  let g2 :=
    match (g.udata n).metatable with
    | none => g1
    | some mt => g1.marktable mt
  g2.marktable (g.udata n).env

/-- `reallymarkobject` of what a value can refer to. -/
def reallymarkreferent (g : GlobalState) : GCObject -> GlobalState
  | .string n => g.paint (.string n) .gray
  | .udata n => g.reallymarkudata n
  | x => g.shade x

def markvalue (g : GlobalState) (v : TValue) : GlobalState :=
  match v.gcvalue with
  | none => g
  | some x => if g.iswhite x then g.reallymarkreferent x else g

/-- Open upvalues are never black. -/
def reallymarkupval (g : GlobalState) (n : Nat) : GlobalState :=
  let g1 := (g.paint (.upval n) .gray).markvalue (g.upvalValue n)
  if g.isOpened n then g1 else g1.paint (.upval n) .black

def reallymarkobject (g : GlobalState) : GCObject -> GlobalState
  | .upval n => g.reallymarkupval n
  | x => g.reallymarkreferent x

def markobject (g : GlobalState) (x : GCObject) : GlobalState :=
  if g.iswhite x then g.reallymarkobject x else g

def markobjects (g : GlobalState) (xs : List GCObject) : GlobalState :=
  xs.foldl markobject g

def markvalues (g : GlobalState) (vs : List TValue) : GlobalState :=
  vs.foldl markvalue g

def stringmark (g : GlobalState) (n : Nat) : GlobalState :=
  if g.iswhite (.string n) then g.paint (.string n) .gray else g

def stringmarks (g : GlobalState) (ns : List Nat) : GlobalState :=
  ns.foldl stringmark g

/-!
# Events
-/

/-- `luaH_getstr` in the nodes of a table. -/
def getstr (nodes : List Node) (name : Nat) : TValue :=
  match nodes.find? fun n => n.key = .string name with
  | none => .nil
  | some n => n.val

/-- `gfasttm`, without the cache of absent events. -/
def gfasttm (g : GlobalState) (metatable : Option Nat) (name : Nat) : TValue :=
  match metatable with
  | none => .nil
  | some mt => getstr (g.table mt).node name

/-- The letter is in the string under `__mode`. -/
def hasMode (g : GlobalState) (metatable : Option Nat) (letter : UInt8) : Bool :=
  match g.gfasttm metatable g.tmMode with
  | .string n => decide (letter ∈ cString (g.text n))
  | _ => false

/-!
# Traversal
-/

/-- `removeentry`: the key of a node without a value is dead. -/
def removeentry (n : Node) : Node :=
  if n.key.gcvalue = none then n else { n with key := .deadkey }

def removeempty (n : Node) : Node :=
  if n.val = .nil then removeentry n else n

/-- The marks that the loop over the nodes makes. -/
def marknode (weakkey weakvalue : Bool) (g : GlobalState) (n : Node) :
    GlobalState :=
  if n.val = .nil then g
  else
    let g1 := if weakkey then g else g.markvalue n.key
    if weakvalue then g1 else g1.markvalue n.val

def markmetatable (g : GlobalState) (metatable : Option Nat) : GlobalState :=
  match metatable with
  | none => g
  | some mt => g.markobject (.table mt)

/-- Put a weak table in the list of tables to clear. -/
def linkweak (g : GlobalState) (t : Nat) (weakkey weakvalue : Bool) :
    GlobalState :=
  { g.setTable t
      { g.table t with keyweak := weakkey, valueweak := weakvalue } with
    weak := .table t :: g.weak }

/-- The loops over the array part and the nodes. -/
def markentries (h : Table) (weakkey weakvalue : Bool) (g : GlobalState) :
    GlobalState :=
  h.node.reverse.foldl (marknode weakkey weakvalue)
    (if weakvalue then g else g.markvalues h.array.reverse)

def removeempties (g : GlobalState) (t : Nat) : GlobalState :=
  g.setTable t
    { g.table t with node := (g.table t).node.map removeempty }

def traversemode (g : GlobalState) (t : Nat) (weakkey weakvalue : Bool) :
    GlobalState × Bool :=
  let g1 :=
    if weakkey || weakvalue then g.linkweak t weakkey weakvalue else g
  if weakkey && weakvalue then (g1, true)
  else
    ((markentries (g.table t) weakkey weakvalue g1).removeempties t,
      weakkey || weakvalue)

/-- `traversetable`, with whether the table is weak. -/
def traversetable (g : GlobalState) (t : Nat) : GlobalState × Bool :=
  (g.markmetatable (g.table t).metatable).traversemode t
    (g.hasMode (g.table t).metatable 107) (g.hasMode (g.table t).metatable 118)

def traverseproto (g : GlobalState) (n : Nat) : GlobalState :=
  let f := g.proto n
  let g1 := g.stringmarks f.source.toList
  let g2 := g1.markvalues f.k
  let g3 := g2.stringmarks (f.upvalues.flatMap Option.toList)
  let g4 := g3.markobjects ((f.p.flatMap Option.toList).map .proto)
  g4.stringmarks (f.locvars.flatMap Option.toList)

def traverseclosure (g : GlobalState) (n : Nat) : GlobalState :=
  match g.function n with
  | .c env upvalue => (g.markobject (.table env)).markvalues upvalue
  | .lua env p upvals =>
      ((g.markobject (.table env)).markobject (.proto p)).markobjects
        (upvals.map .upval)

/-- `traversestack`; the slots from `top` on are not part of the model. -/
def traversestack (g : GlobalState) (n : Nat) : GlobalState :=
  (g.markvalue (g.thread n).globals).markvalues (g.thread n).stack

/-- Traverse one gray object, turning it to black. -/
def propagatemark (g : GlobalState) : GlobalState :=
  match g.gray with
  | [] => g
  | o :: rest =>
      let g1 := { g.paint o .black with gray := rest }
      match o with
      | .table n =>
          let r := g1.traversetable n
          if r.2 then r.1.paint o .gray else r.1
      | .function n => g1.traverseclosure n
      | .thread n =>
          ({ g1.paint o .gray with grayagain := o :: g.grayagain }).traversestack n
      | .proto n => g1.traverseproto n
      | _ => g

def propagateLoop : Nat -> GlobalState -> GlobalState
  | 0, g => g
  | fuel + 1, g =>
      match g.gray with
      | [] => g
      | _ => propagateLoop fuel g.propagatemark

/-- Every gray object is traversed once, and only white ones become gray. -/
def propagateall (g : GlobalState) : GlobalState :=
  propagateLoop (g.gray.length + g.rootgc.length) g

/-!
# Roots
-/

def markmt (g : GlobalState) : GlobalState := g.markobjects g.metatables

def markroot (g : GlobalState) : GlobalState :=
  let g0 := { g with gray := [], grayagain := [], weak := [] }
  let g1 := g0.markobject (.thread g0.mainthread)
  let g2 := g1.markvalue (g1.thread g1.mainthread).globals
  let g3 := g2.markvalue g2.registry
  { g3.markmt with gcstate := .propagate }

def remarkupval (g : GlobalState) (n : Nat) : GlobalState :=
  if g.isgray (.upval n) then g.markvalue (g.upvalValue n) else g

def remarkupvals (g : GlobalState) : GlobalState :=
  g.uvhead.foldl remarkupval g

/-!
# Finalization
-/

def markfinalized (g : GlobalState) (n : Nat) : GlobalState :=
  g.setUdata n { g.udata n with finalized := true }

/-- The list after the main thread holds the userdata. -/
def udataList (g : GlobalState) : List GCObject :=
  (g.rootgc.dropWhile fun x => x ≠ .thread g.mainthread).tail

/--
The loop of `luaC_separateudata`: the objects that stay in the list, and the
userdata whose finalizer is due.
-/
def separateLoop (all : Bool) :
    GlobalState -> List GCObject -> GlobalState × List GCObject × List Nat
  | g, [] => (g, [], [])
  | g, .udata curr :: rest =>
      if !(g.iswhite (.udata curr) || all) || (g.udata curr).finalized then
        let r := separateLoop all g rest
        (r.1, .udata curr :: r.2.1, r.2.2)
      else if g.gfasttm (g.udata curr).metatable g.tmGc = .nil then
        let r := separateLoop all (g.markfinalized curr) rest
        (r.1, .udata curr :: r.2.1, r.2.2)
      else
        let r := separateLoop all (g.markfinalized curr) rest
        (r.1, r.2.1, curr :: r.2.2)
  | g, x :: rest =>
      let r := separateLoop all g rest
      (r.1, x :: r.2.1, r.2.2)

/-- `luaC_separateudata`: due userdata go to the end of `tmudata`. -/
def separateudata (g : GlobalState) (all : Bool) : GlobalState :=
  let r := separateLoop all g g.udataList
  { r.1 with
    passed :=
      g.rootgc.take (g.rootgc.length - g.udataList.length) ++ r.2.1
    sweepgc := []
    tmudata := g.tmudata ++ r.2.2 }

/-- One turn of `marktmu`; the userdata may be marked from a previous cycle. -/
def marktmuTurn (g : GlobalState) (n : Nat) : GlobalState :=
  (g.makewhite (.udata n)).reallymarkobject (.udata n)

def marktmu (g : GlobalState) : GlobalState := g.tmudata.foldl marktmuTurn g

/-!
# Weak tables
-/

/-- `iscleared`, without the mark that it gives to a string. -/
def iscleared (g : GlobalState) (iskey : Bool) (v : TValue) : Bool :=
  match v.gcvalue with
  | none => false
  | some (.string _) => false
  | some (.udata n) =>
      g.iswhite (.udata n) || (!iskey && (g.udata n).finalized)
  | some x => g.iswhite x

/-- The mark that `iscleared` gives to a string. -/
def keepstring (g : GlobalState) (v : TValue) : GlobalState :=
  match v with
  | .string n => g.stringmark n
  | _ => g

/-- The marks of the loop of `cleartable` over the nodes. -/
def keepnode (g : GlobalState) (n : Node) : GlobalState :=
  if n.val = .nil then g
  else
    let g1 := g.keepstring n.key
    if g.iscleared true n.key then g1 else g1.keepstring n.val

def clearvalue (g : GlobalState) (v : TValue) : TValue :=
  if g.iscleared false v then .nil else v

def clearnode (g : GlobalState) (n : Node) : Node :=
  if n.val = .nil then n
  else if g.iscleared true n.key || g.iscleared false n.val then
    removeentry { n with val := .nil }
  else n

def clearone (g : GlobalState) (t : Nat) : GlobalState :=
  let h := g.table t
  let g1 := if h.valueweak then h.array.reverse.foldl keepstring g else g
  let g2 := h.node.reverse.foldl keepnode g1
  g2.setTable t
    { h with
      array := if h.valueweak then h.array.map g.clearvalue else h.array
      node := h.node.map g.clearnode }

def cleartable (g : GlobalState) (l : List GCObject) : GlobalState :=
  l.foldl
    (fun g x =>
      match x with
      | .table t => g.clearone t
      | _ => g)
    g

/-!
# The atomic step
-/

/-- `atomic` up to the flip of the current white. -/
def finishmark (g : GlobalState) : GlobalState :=
  let g1 := g.remarkupvals.propagateall
  let g2 := { g1 with gray := g1.weak, weak := [] }
  let g3 := ((g2.markobject (.thread g2.running)).markmt).propagateall
  let g4 := ({ g3 with gray := g3.grayagain, grayagain := [] }).propagateall
  let g5 := (g4.separateudata false).marktmu.propagateall
  g5.cleartable g5.weak

/-- `atomic`: end the mark phase and start the sweep. -/
def atomic (g : GlobalState) : GlobalState :=
  let g1 := g.finishmark
  { g1 with
    currentwhite := !g1.currentwhite
    sweepstrgc := 0
    passed := []
    sweepgc := g1.rootgc
    gcstate := .sweepstring }

end GlobalState
end Gc
end LuaServer
