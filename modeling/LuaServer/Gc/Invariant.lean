import LuaServer.Gc.Sweep
import LuaServer.Gc.Traversal
import LuaServer.Library.Tricolor

/-!
# The invariant of the collector

What holds between any two steps of the program and of the collector: where the
objects are linked, which colors they may have, and what keeps the references of
the objects that are not dead from dangling.
-/

namespace LuaServer
namespace Gc
namespace GlobalState

/-!
# Kinds of objects
-/

/-- The object is allocated, and the running sweep will not free it. -/
def Alive (g : GlobalState) (x : GCObject) : Prop :=
  g.Allocated x ∧ g.isdead x = false

/-- The object is gray or black. -/
def Dark (g : GlobalState) (x : GCObject) : Prop :=
  g.Allocated x ∧ g.iswhite x = false

def White (g : GlobalState) (x : GCObject) : Prop := g.iswhite x = true

def OpenUpval (g : GlobalState) (x : GCObject) : Prop :=
  exists n, x = .upval n ∧ g.isOpened n = true

def Due (g : GlobalState) (x : GCObject) : Prop :=
  exists n, x = .udata n ∧ n ∈ g.tmudata

def graylists (g : GlobalState) : List GCObject :=
  g.gray ++ (g.grayagain ++ g.weak)

/-- The collector comes to the object again before the mark phase ends. -/
def Pending (g : GlobalState) (x : GCObject) : Prop :=
  x ∈ g.graylists ∨ g.OpenUpval x ∨ g.Due x

/-- The objects that are linked in `rootgc` or in `tmudata`. -/
def rooted (g : GlobalState) : GCObject -> Bool
  | .string _ => false
  | .upval n => !g.isOpened n
  | _ => true

def blackens (g : GlobalState) : GCObject -> Bool
  | .string _ => false
  | .thread _ => false
  | .upval n => !g.isOpened n
  | _ => true

theorem rooted_upval (g : GlobalState) (n : Nat) :
    g.rooted (.upval n) = !g.isOpened n := rfl

theorem blackens_upval (g : GlobalState) (n : Nat) :
    g.blackens (.upval n) = !g.isOpened n := rfl

/-- The sweep has still to come to the object. -/
def Unswept (g : GlobalState) (x : GCObject) : Prop :=
  (g.gcstate = .sweepstring ∧
    exists n, x = .string n ∧ n ∈ (g.strt.drop g.sweepstrgc).flatten) ∨
  (g.gcstate = .sweepstring ∨ g.gcstate = .sweep) ∧
    (x ∈ g.sweepgc ∨
      exists n th l, x = .upval n ∧ g.upval n = .opened th l ∧
        .thread th ∈ g.sweepgc)

/-!
# The parts of the invariant
-/

/-- What is not dead refers to nothing that is dead or not allocated. -/
structure Closed (g : GlobalState) : Prop where
  slots : forall x y, g.Alive x -> y ∈ g.slots x -> g.Alive y
  roots : forall x, x ∈ g.roots -> g.Alive x
  due : forall n, n ∈ g.tmudata -> g.Alive (.udata n)

/-- Every object is linked once in its list. -/
structure Linked (g : GlobalState) : Prop where
  main : .thread g.mainthread ∈ g.rootgc
  fixed : (g.marked (.thread g.mainthread)).map Marked.fixed = some true
  fixedKinds : forall x, (g.marked x).map Marked.fixed = some true ->
    (exists n, x = .string n) ∨ x = .thread g.mainthread
  nodup : g.rootgc.Nodup
  allocated : forall x, x ∈ g.rootgc -> g.Allocated x ∧ g.rooted x = true
  listed : forall x, g.Allocated x -> g.rooted x = true ->
    x ∈ g.rootgc ∨ g.Due x
  due : forall n, n ∈ g.tmudata ->
    g.Allocated (.udata n) ∧ .udata n ∉ g.rootgc
  dueNodup : g.tmudata.Nodup
  strings : forall n, g.Allocated (.string n) <-> n ∈ g.strings
  stringsNodup : g.strings.Nodup
  table : 0 < g.strt.length

/-- An open upvalue is in the list of its thread, in the order of the slots. -/
structure Upvals (g : GlobalState) : Prop where
  opened : forall n th l, g.Allocated (.upval n) -> g.upval n = .opened th l ->
    g.Allocated (.thread th) ∧ n ∈ (g.thread th).openupval
  listed : forall th n, g.Allocated (.thread th) ->
    n ∈ (g.thread th).openupval ->
      g.Allocated (.upval n) ∧
        exists l, g.upval n = .opened th l ∧ l < (g.thread th).stack.length
  sorted : forall th, g.Allocated (.thread th) ->
    (g.thread th).openupval.Pairwise fun m n => g.level n < g.level m
  uvhead : forall n, n ∈ g.uvhead <->
    g.Allocated (.upval n) ∧ g.isOpened n = true
  uvheadNodup : g.uvhead.Nodup

structure Colors (g : GlobalState) : Prop where
  black : forall x, g.isblack x = true -> g.blackens x = true
  udata : forall n, g.isgray (.udata n) = false

/-- No object is in two of the lists that are threaded through `gclist`. -/
structure GrayLists (g : GlobalState) : Prop where
  grays : forall x, g.isgray x = true ->
    x ∈ g.graylists ∨ g.OpenUpval x ∨ exists n, x = .string n
  lists : forall x, x ∈ g.graylists ->
    g.isgray x = true ∧ x.traversed = true
  nodup : g.graylists.Nodup

/-- The roots that are not marked again in the atomic step. -/
def oldRoots (g : GlobalState) : List GCObject :=
  .thread g.mainthread :: referents [g.registry]

structure Propagating (g : GlobalState) : Prop where
  noDead : forall x, g.isdead x = false
  marked : forall x, x ∈ g.oldRoots -> g.iswhite x = false
  tricolor : Library.Tricolor g.Dark g.White g.Pending g.slots
  lists : g.GrayLists

/-- Outside the mark phase, what the sweep has passed has the current white. -/
def Swept (g : GlobalState) : Prop :=
  forall x, g.Allocated x ->
    g.color? x = some (.white g.currentwhite) ∨ g.Unswept x ∨ g.Due x

structure Inv (g : GlobalState) : Prop where
  closed : g.Closed
  linked : g.Linked
  upvals : g.Upvals
  colors : g.Colors
  propagating : g.gcstate = .propagate -> g.Propagating
  swept : g.gcstate ≠ .propagate -> g.Swept

theorem Closed.accessible {g : GlobalState} (h : g.Closed) {x : GCObject}
    (hx : g.Accessible x) : g.Alive x :=
  Library.Reaches.closed hx h.roots h.slots

theorem Closed.atHand {g : GlobalState} (h : g.Closed) {v : TValue}
    (hv : g.AtHand v) {x : GCObject} (hx : v.gcvalue = some x) : g.Alive x :=
  h.accessible (hv x hx)

/-!
# Steps that leave the links as they are
-/

/-- The lists, and what they depend on, are the same. -/
structure SameLinks (g g' : GlobalState) : Prop where
  allocated : forall x, g'.Allocated x <-> g.Allocated x
  fixed : forall x,
    (g'.marked x).map Marked.fixed = (g.marked x).map Marked.fixed
  rootgc : g'.rootgc = g.rootgc
  tmudata : g'.tmudata = g.tmudata
  strt : g'.strt = g.strt
  uvhead : g'.uvhead = g.uvhead
  mainthread : g'.mainthread = g.mainthread
  opened : forall n th l, g'.upval n = .opened th l <-> g.upval n = .opened th l
  openupval : forall th,
    (g'.thread th).openupval = (g.thread th).openupval
  stack : forall n th l, g.Allocated (.upval n) -> g.upval n = .opened th l ->
    l < (g.thread th).stack.length -> l < (g'.thread th).stack.length

namespace SameLinks

variable {g g' g'' : GlobalState}

theorem trans (h : SameLinks g g') (h' : SameLinks g' g'') :
    SameLinks g g'' where
  allocated := fun x => (h'.allocated x).trans (h.allocated x)
  fixed := fun x => (h'.fixed x).trans (h.fixed x)
  rootgc := h'.rootgc.trans h.rootgc
  tmudata := h'.tmudata.trans h.tmudata
  strt := h'.strt.trans h.strt
  uvhead := h'.uvhead.trans h.uvhead
  mainthread := h'.mainthread.trans h.mainthread
  opened := fun n th l => (h'.opened n th l).trans (h.opened n th l)
  openupval := fun th => (h'.openupval th).trans (h.openupval th)
  stack := fun n th l hn hup hl => h'.stack n th l ((h.allocated _).mpr hn)
    ((h.opened n th l).mpr hup) (h.stack n th l hn hup hl)

theorem isOpened (h : SameLinks g g') (n : Nat) :
    g'.isOpened n = g.isOpened n := by
  unfold GlobalState.isOpened
  cases hn : g.upval n with
  | closed v =>
      cases hn' : g'.upval n with
      | closed v' => rfl
      | opened th l =>
          rw [(h.opened n th l).mp hn'] at hn
          cases hn
  | opened th l => rw [(h.opened n th l).mpr hn]

theorem level (h : SameLinks g g') (n : Nat) : g'.level n = g.level n := by
  unfold GlobalState.level
  cases hn : g.upval n with
  | closed v =>
      cases hn' : g'.upval n with
      | closed v' => rfl
      | opened th l =>
          rw [(h.opened n th l).mp hn'] at hn
          cases hn
  | opened th l => rw [(h.opened n th l).mpr hn]

theorem rooted (h : SameLinks g g') (x : GCObject) :
    g'.rooted x = g.rooted x := by
  cases x with
  | upval n => simp only [GlobalState.rooted, h.isOpened]
  | _ => rfl

theorem blackens (h : SameLinks g g') (x : GCObject) :
    g'.blackens x = g.blackens x := by
  cases x with
  | upval n => simp only [GlobalState.blackens, h.isOpened]
  | _ => rfl

theorem openUpval (h : SameLinks g g') (x : GCObject) :
    g'.OpenUpval x <-> g.OpenUpval x := by
  simp only [OpenUpval, h.isOpened]

theorem due (h : SameLinks g g') (x : GCObject) : g'.Due x <-> g.Due x := by
  simp only [Due, h.tmudata]

theorem linked (h : SameLinks g g') (hg : g.Linked) : g'.Linked where
  main := by
    rw [h.mainthread, h.rootgc]
    exact hg.main
  fixed := by
    rw [h.mainthread, h.fixed]
    exact hg.fixed
  fixedKinds := by
    intro x hx
    rw [h.fixed] at hx
    rw [h.mainthread]
    exact hg.fixedKinds x hx
  nodup := by
    rw [h.rootgc]
    exact hg.nodup
  allocated := by
    intro x hx
    rw [h.allocated, h.rooted]
    exact hg.allocated x (h.rootgc ▸ hx)
  listed := by
    intro x hx
    rw [h.rooted, h.rootgc, h.due]
    exact hg.listed x ((h.allocated x).mp hx)
  due := by
    intro n hn
    rw [h.allocated, h.rootgc]
    exact hg.due n (h.tmudata ▸ hn)
  dueNodup := by
    rw [h.tmudata]
    exact hg.dueNodup
  strings := by
    intro n
    rw [h.allocated, strings, h.strt]
    exact hg.strings n
  stringsNodup := by
    rw [strings, h.strt]
    exact hg.stringsNodup
  table := by
    rw [h.strt]
    exact hg.table

theorem upvals (h : SameLinks g g') (hg : g.Upvals) : g'.Upvals where
  opened := by
    intro n th l hn hup
    rw [h.allocated, h.openupval]
    exact hg.opened n th l ((h.allocated _).mp hn) ((h.opened n th l).mp hup)
  listed := by
    intro th n hth hn
    rw [h.openupval] at hn
    rcases hg.listed th n ((h.allocated _).mp hth) hn with ⟨hn', l, hup, hl⟩
    exact ⟨(h.allocated _).mpr hn', l, (h.opened n th l).mpr hup,
      h.stack n th l hn' hup hl⟩
  sorted := by
    intro th hth
    rw [h.openupval]
    refine (hg.sorted th ((h.allocated _).mp hth)).imp ?_
    intro m n hmn
    rw [h.level, h.level]
    exact hmn
  uvhead := by
    intro n
    rw [h.uvhead, h.allocated, h.isOpened]
    exact hg.uvhead n
  uvheadNodup := by
    rw [h.uvhead]
    exact hg.uvheadNodup

end SameLinks

end GlobalState
end Gc
end LuaServer
