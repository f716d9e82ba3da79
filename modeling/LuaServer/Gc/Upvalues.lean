import LuaServer.Gc.Marking

/-!
# Links, barriers and upvalues

How `lgc.c` links new objects and answers stores into black ones, and how
`lfunc.c` finds, closes and frees the upvalues that live in a stack.
-/

namespace LuaServer
namespace Gc
namespace GlobalState

/-!
# Links
-/

/-- The first place of `rootgc`; the sweep pointer may be right before it. -/
def linkroot (g : GlobalState) (x : GCObject) : GlobalState :=
  match g.passed with
  | [] => { g with sweepgc := x :: g.sweepgc }
  | _ => { g with passed := x :: g.passed }

/-- A new object with the current white. -/
def create (g : GlobalState) (x : GCObject) (p : x.Payload) : GlobalState :=
  { g.write x p with
    marked := Function.update g.marked x
      (some { color := .white g.currentwhite, fixed := false }) }

def link (g : GlobalState) (x : GCObject) (p : x.Payload) : GlobalState :=
  (g.create x p).linkroot x

def insertAfter (m x : GCObject) : List GCObject -> List GCObject
  | [] => []
  | y :: rest => if y = m then y :: x :: rest else y :: insertAfter m x rest

/-- The place after the main thread; the sweep pointer may be right before it. -/
def linkudata (g : GlobalState) (x : GCObject) : GlobalState :=
  let m := GCObject.thread g.mainthread
  if m ∈ g.passed then
    if g.passed.getLast? = some m then { g with sweepgc := x :: g.sweepgc }
    else { g with passed := insertAfter m x g.passed }
  else { g with sweepgc := insertAfter m x g.sweepgc }

def release (g : GlobalState) (x : GCObject) : GlobalState :=
  { g with marked := Function.update g.marked x none }

/-!
# Barriers
-/

/-- `luaC_barrierf`: mark the value, or spare the object further barriers. -/
def barrierf (g : GlobalState) (o v : GCObject) : GlobalState :=
  if g.gcstate = .propagate then g.reallymarkobject v else g.makewhite o

def objbarrier (g : GlobalState) (p o : GCObject) : GlobalState :=
  if g.iswhite o && g.isblack p then g.barrierf p o else g

def barrier (g : GlobalState) (p : GCObject) (v : TValue) : GlobalState :=
  match v.gcvalue with
  | none => g
  | some o => g.objbarrier p o

/-- `luaC_barrierback`: the table is traversed again in the atomic step. -/
def barrierback (g : GlobalState) (t : Nat) : GlobalState :=
  { g.paint (.table t) .gray with grayagain := .table t :: g.grayagain }

def objbarriert (g : GlobalState) (t : Nat) (o : GCObject) : GlobalState :=
  if g.iswhite o && g.isblack (.table t) then g.barrierback t else g

def barriert (g : GlobalState) (t : Nat) (v : TValue) : GlobalState :=
  match v.gcvalue with
  | none => g
  | some o => g.objbarriert t o

/-!
# Upvalues
-/

/-- The slot of the stack in which an open upvalue lives. -/
def level (g : GlobalState) (n : Nat) : Nat :=
  match g.upval n with
  | .closed _ => 0
  | .opened _ l => l

def setOpenupval (g : GlobalState) (th : Nat) (ns : List Nat) : GlobalState :=
  g.setThread th { g.thread th with openupval := ns }

/-- `luaF_freeupval` of an open upvalue, which `unlinkupval` takes off `uvhead`. -/
def freeupval (g : GlobalState) (n : Nat) : GlobalState :=
  { g.release (.upval n) with uvhead := g.uvhead.erase n }

/-- `luaC_linkupval`: a closed upvalue needs a barrier. -/
def linkupval (g : GlobalState) (n : Nat) : GlobalState :=
  let g1 := g.linkroot (.upval n)
  if g1.isgray (.upval n) then
    if g1.gcstate = .propagate then
      (g1.paint (.upval n) .black).barrier (.upval n) (g1.upvalValue n)
    else g1.makewhite (.upval n)
  else g1

def closeupval (g : GlobalState) (n : Nat) : GlobalState :=
  (({ g with uvhead := g.uvhead.erase n }).setUpval n
    (.closed (g.upvalValue n))).linkupval n

/-- The loop of `luaF_close` over the open upvalues of the thread. -/
def closeLoop (th limit : Nat) : List Nat -> GlobalState -> GlobalState
  | [], g => g
  | n :: rest, g =>
      if limit ≤ g.level n then
        let g1 := g.setOpenupval th rest
        closeLoop th limit rest
          (if g1.isdead (.upval n) then g1.freeupval n else g1.closeupval n)
      else g

/-- `luaF_close`: close the upvalues from a level on. -/
def close (g : GlobalState) (th limit : Nat) : GlobalState :=
  closeLoop th limit (g.thread th).openupval g

def findLoop (g : GlobalState) (limit : Nat) : List Nat -> Option Nat
  | [] => none
  | n :: rest =>
      if limit ≤ g.level n then
        if g.level n = limit then some n else findLoop g limit rest
      else none

/-- The proper position of a new open upvalue. -/
def chainLoop (g : GlobalState) (limit uv : Nat) : List Nat -> List Nat
  | [] => [uv]
  | n :: rest =>
      if limit ≤ g.level n then n :: chainLoop g limit uv rest
      else uv :: n :: rest

/-- `changewhite` of a dead object: the program has found it again. -/
def resurrect (g : GlobalState) (x : GCObject) : GlobalState :=
  if g.isdead x then g.makewhite x else g

/--
`luaF_findupval`: the upvalue of the slot; `uv` is the address that a new one
would get.
-/
def findupval (g : GlobalState) (th limit uv : Nat) : GlobalState × Nat :=
  match findLoop g limit (g.thread th).openupval with
  | some n => (g.resurrect (.upval n), n)
  | none =>
      let g1 := g.create (.upval uv) (.opened th limit)
      ({ g1.setOpenupval th (chainLoop g limit uv (g.thread th).openupval) with
        uvhead := uv :: g1.uvhead }, uv)

end GlobalState
end Gc
end LuaServer
