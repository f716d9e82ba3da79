import LuaServer.Gc.Strings

/-!
# The sweep phase and the steps of the collector

`sweeplist` on the lists of objects, the call of finalizers and `singlestep`,
which advances the collector by one step of its cycle.
-/

namespace LuaServer
namespace Gc
namespace GlobalState

/-!
# Sweep
-/

/-- The test of `sweeplist`: the object is not dead, or it is fixed. -/
def survives (g : GlobalState) (x : GCObject) : Bool :=
  match g.marked x with
  | none => false
  | some m => m.fixed || decide (m.color ≠ .white (!g.currentwhite))

def sweepwholelist (obj : Nat -> GCObject)
    (free : GlobalState -> Nat -> GlobalState) :
    GlobalState -> List Nat -> GlobalState × List Nat
  | g, [] => (g, [])
  | g, n :: rest =>
      if g.survives (obj n) then
        let r := sweepwholelist obj free (g.makewhite (obj n)) rest
        (r.1, n :: r.2)
      else sweepwholelist obj free (free g n) rest

/-- The sweep of the open upvalues of a thread. -/
def sweepupvals (g : GlobalState) (th : Nat) : GlobalState :=
  let r := sweepwholelist .upval freeupval g (g.thread th).openupval
  r.1.setOpenupval th r.2

/-- `freeobj`; `luaE_freethread` closes the upvalues of a thread first. -/
def freeobj (g : GlobalState) (x : GCObject) : GlobalState :=
  match x with
  | .thread n => (g.close n 0).release x
  | _ => g.release x

def sweepone (g : GlobalState) : GlobalState :=
  match g.sweepgc with
  | [] => g
  | curr :: rest =>
      let g1 :=
        match curr with
        | .thread n => g.sweepupvals n
        | _ => g
      if g1.survives curr then
        { g1.makewhite curr with
          passed := g1.passed ++ [curr]
          sweepgc := rest }
      else ({ g1 with sweepgc := rest }).freeobj curr

def sweeplist : Nat -> GlobalState -> GlobalState
  | 0, g => g
  | count + 1, g =>
      match g.sweepgc with
      | [] => g
      | _ => sweeplist count g.sweepone

def gcSweepMax : Nat := 40

/-- The sweep of the next list of the string table. -/
def sweepstrings (g : GlobalState) : GlobalState :=
  let r := sweepwholelist .string (fun g n => g.release (.string n)) g
    (g.strt.getD g.sweepstrgc [])
  { r.1 with
    strt := r.1.strt.set g.sweepstrgc r.2
    sweepstrgc := g.sweepstrgc + 1 }

/-!
# Finalizers
-/

def push (g : GlobalState) (v : TValue) : GlobalState :=
  g.setThread g.running
    { g.thread g.running with stack := (g.thread g.running).stack ++ [v] }

/--
`GCTM` up to the call: the first userdata of `tmudata` goes back to the list
after the main thread; its finalizer and the userdata are pushed.
-/
def gctm (g : GlobalState) : GlobalState :=
  match g.tmudata with
  | [] => g
  | n :: rest =>
      let g1 := ({ g with tmudata := rest }).linkudata (.udata n)
      let g2 := g1.makewhite (.udata n)
      let tm := g2.gfasttm (g2.udata n).metatable g2.tmGc
      if tm = .nil then g2 else (g2.push tm).push (.udata n)

/-!
# Steps
-/

def singlestep (g : GlobalState) : GlobalState :=
  match g.gcstate with
  | .pause => g.markroot
  | .propagate =>
      match g.gray with
      | [] => g.atomic
      | _ => g.propagatemark
  | .sweepstring =>
      let g1 := g.sweepstrings
      if g1.strt.length ≤ g1.sweepstrgc then { g1 with gcstate := .sweep } else g1
  | .sweep =>
      let g1 := sweeplist gcSweepMax g
      match g1.sweepgc with
      | [] => { g1.checkSizes with gcstate := .finalize }
      | _ => g1
  | .finalize =>
      match g.tmudata with
      | [] => { g with gcstate := .pause }
      | _ => g.gctm

/--
The first part of `luaC_fullgc`: a cycle that is still marking is given up, and
all elements are swept, which returns them to white.
-/
def resetcycle (g : GlobalState) : GlobalState :=
  { g with
    sweepstrgc := 0
    passed := []
    sweepgc := g.rootgc
    gray := []
    grayagain := []
    weak := []
    gcstate := .sweepstring }

end GlobalState
end Gc
end LuaServer
