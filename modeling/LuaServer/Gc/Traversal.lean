import LuaServer.Gc.Marks

/-!
# The traversal of a gray object

What `propagatemark` does to the heap: the object leaves the gray list and gets
its color, and then everything it keeps alive is marked.
-/

namespace LuaServer
namespace Gc
namespace GlobalState

/-!
# Objects without their empty entries
-/

/-- Nothing but empty entries and weak bits of tables has changed. -/
structure SameObjs (g g' : GlobalState) : Prop where
  other : forall x, (forall t, x ≠ .table t) -> g'.objs x = g.objs x
  metatable : forall t, (g'.table t).metatable = (g.table t).metatable
  array : forall t, (g'.table t).array = (g.table t).array
  live : forall t, (g'.table t).live = (g.table t).live

namespace SameObjs

variable {g g' g'' : GlobalState}

theorem refl (g : GlobalState) : SameObjs g g :=
  ⟨fun _ _ => rfl, fun _ => rfl, fun _ => rfl, fun _ => rfl⟩

theorem of_objs (h : g'.objs = g.objs) : SameObjs g g' where
  other := fun x _ => by rw [h]
  metatable := fun t => by rw [table, table, h]
  array := fun t => by rw [table, table, h]
  live := fun t => by rw [table, table, h]

theorem trans (h : SameObjs g g') (h' : SameObjs g' g'') : SameObjs g g'' where
  other := fun x hx => (h'.other x hx).trans (h.other x hx)
  metatable := fun t => (h'.metatable t).trans (h.metatable t)
  array := fun t => (h'.array t).trans (h.array t)
  live := fun t => (h'.live t).trans (h.live t)

theorem symm (h : SameObjs g g') : SameObjs g' g where
  other := fun x hx => (h.other x hx).symm
  metatable := fun t => (h.metatable t).symm
  array := fun t => (h.array t).symm
  live := fun t => (h.live t).symm

theorem udata (h : SameObjs g g') (n : Nat) : g'.udata n = g.udata n :=
  h.other (.udata n) fun _ => GCObject.noConfusion

theorem upval (h : SameObjs g g') (n : Nat) : g'.upval n = g.upval n :=
  h.other (.upval n) fun _ => GCObject.noConfusion

theorem thread (h : SameObjs g g') (n : Nat) : g'.thread n = g.thread n :=
  h.other (.thread n) fun _ => GCObject.noConfusion

theorem function (h : SameObjs g g') (n : Nat) : g'.function n = g.function n :=
  h.other (.function n) fun _ => GCObject.noConfusion

theorem proto (h : SameObjs g g') (n : Nat) : g'.proto n = g.proto n :=
  h.other (.proto n) fun _ => GCObject.noConfusion

theorem isOpened (h : SameObjs g g') (n : Nat) :
    g'.isOpened n = g.isOpened n := by
  rw [GlobalState.isOpened, GlobalState.isOpened, h.upval]

theorem upvalValue (h : SameObjs g g') (n : Nat) :
    g'.upvalValue n = g.upvalValue n := by
  simp only [GlobalState.upvalValue, stackAt, h.upval, h.thread]

theorem slots (h : SameObjs g g') (x : GCObject) : g'.slots x = g.slots x := by
  cases x with
  | string n => rfl
  | udata n => simp only [GlobalState.slots, h.udata]
  | upval n => simp only [GlobalState.slots, h.upvalValue]
  | function n => simp only [GlobalState.slots, h.function]
  | table n =>
      simp only [GlobalState.slots, Table.slots, h.metatable, h.array, h.live]
  | thread n => simp only [GlobalState.slots, h.thread]
  | proto n => simp only [GlobalState.slots, h.proto]

end SameObjs

theorem live_map_removeempty (nodes : List Node) :
    (nodes.map removeempty).filter (fun n => n.val ≠ .nil) =
      nodes.filter fun n => n.val ≠ .nil := by
  induction nodes with
  | nil => rfl
  | cons n rest ih =>
      rw [List.map_cons]
      by_cases hn : n.val = .nil
      · have hval : (removeempty n).val = .nil := by
          unfold removeempty removeentry
          rw [if_pos hn]
          split <;> exact hn
        rw [List.filter_cons_of_neg (by simp [hval]),
          List.filter_cons_of_neg (by simp [hn])]
        exact ih
      · have hsame : removeempty n = n := by
          unfold removeempty
          rw [if_neg hn]
        rw [hsame, List.filter_cons_of_pos (by simp [hn]),
          List.filter_cons_of_pos (by simp [hn]), ih]

theorem sameObjs_setTable {g : GlobalState} {t : Nat} {h : Table}
    (hmt : h.metatable = (g.table t).metatable)
    (harray : h.array = (g.table t).array)
    (hlive : h.live = (g.table t).live) : SameObjs g (g.setTable t h) := by
  refine ⟨?_, ?_, ?_, ?_⟩
  · intro x hx
    exact objs_write_of_ne g (.table t) h (hx t)
  · intro n
    rw [table_setTable]
    split
    · rename_i hn
      rw [hn, hmt]
    · rfl
  · intro n
    rw [table_setTable]
    split
    · rename_i hn
      rw [hn, harray]
    · rfl
  · intro n
    rw [table_setTable]
    split
    · rename_i hn
      rw [hn, hlive]
    · rfl

/-!
# Marking looks at no table
-/

theorem Marks.swap {g g' g0 : GlobalState} (h : Marks g g')
    (hsame : SameObjs g g0) (w : List GCObject) :
    Marks { g with objs := g0.objs, weak := w }
      { g' with objs := g0.objs, weak := w } where
  frame := by
    rw [h.frame]
  fixed := h.fixed
  kept := h.kept
  white := h.white
  shaded := by
    intro x hwhite hdark
    have hslots : GlobalState.slots { g with objs := g0.objs, weak := w } x =
        g.slots x := hsame.slots x
    rcases h.shaded x hwhite hdark with ⟨hcolor, hgray, hdarkSlots⟩
    refine ⟨?_, hgray, ?_⟩
    · rw [show GlobalState.color? { g' with objs := g0.objs, weak := w } x =
        g'.color? x from rfl, hcolor]
      cases x with
      | upval n =>
          change some (if g.isOpened n then Color.gray else .black) =
            some (if g0.isOpened n then Color.gray else .black)
          rw [hsame.isOpened]
      | _ => rfl
    · intro hx y hy
      rw [hslots] at hy
      exact hdarkSlots hx y hy
  entered := h.entered

/-!
# The traversals
-/

/-- Everything the object refers to is dark. -/
def Covered (g : GlobalState) (x : GCObject) : Prop :=
  forall y, y ∈ g.slots x -> g.iswhite y = false

theorem Marks.covered {g g' : GlobalState} (h : Marks g g') {x : GCObject}
    (hx : g.Covered x) : g'.Covered x := by
  intro y hy
  rw [h.slots] at hy
  exact h.dark (hx y hy)

theorem traverseclosure_covers (g : GlobalState) (n : Nat) :
    Marks g (g.traverseclosure n) ∧
      (g.traverseclosure n).Covered (.function n) := by
  unfold traverseclosure
  cases hcl : g.function n with
  | c env upvalue =>
      have hmarks := (g.marks_markobject (.table env)).trans
        (marks_markvalues _ upvalue)
      refine ⟨hmarks, ?_⟩
      intro y hy
      rw [hmarks.slots] at hy
      simp only [slots, hcl, Closure.slots, List.mem_cons] at hy
      rcases hy with rfl | hy
      · exact (marks_markvalues _ _).dark (g.dark_markobject _)
      · exact dark_markvalues _ hy
  | lua env p upvals =>
      have henv := g.marks_markobject (.table env)
      have hp := marks_markobject (g.markobject (.table env)) (.proto p)
      have hups := marks_markobjects
        ((g.markobject (.table env)).markobject (.proto p))
        (upvals.map .upval)
      refine ⟨(henv.trans hp).trans hups, ?_⟩
      intro y hy
      rw [((henv.trans hp).trans hups).slots] at hy
      simp only [slots, hcl, Closure.slots, List.mem_cons] at hy
      rcases hy with rfl | rfl | hy
      · exact (hp.trans hups).dark (g.dark_markobject _)
      · exact hups.dark (dark_markobject _ _)
      · exact dark_markobjects _ hy

theorem traverseproto_covers (g : GlobalState) (n : Nat) :
    Marks g (g.traverseproto n) ∧ (g.traverseproto n).Covered (.proto n) := by
  unfold traverseproto
  simp only
  have h1 := g.marks_stringmarks (g.proto n).source.toList
  have h2 := fun g1 => marks_markvalues g1 (g.proto n).k
  have h3 := fun g1 =>
    marks_stringmarks g1 ((g.proto n).upvalues.flatMap Option.toList)
  have h4 := fun g1 => marks_markobjects g1
    (((g.proto n).p.flatMap Option.toList).map GCObject.proto)
  have h5 := fun g1 =>
    marks_stringmarks g1 ((g.proto n).locvars.flatMap Option.toList)
  have hall := (((h1.trans (h2 _)).trans (h3 _)).trans (h4 _)).trans (h5 _)
  refine ⟨hall, ?_⟩
  intro y hy
  rw [hall.slots] at hy
  simp only [slots, Proto.slots, List.mem_append] at hy
  rcases hy with (((hy | hy) | hy) | hy) | hy
  · exact ((((h2 _).trans (h3 _)).trans (h4 _)).trans (h5 _)).dark
      (g.dark_stringmarks hy)
  · exact (((h3 _).trans (h4 _)).trans (h5 _)).dark (dark_markvalues _ hy)
  · exact ((h4 _).trans (h5 _)).dark (dark_stringmarks _ hy)
  · exact (h5 _).dark (dark_markobjects _ hy)
  · exact dark_stringmarks _ hy

theorem traversestack_covers (g : GlobalState) (n : Nat) :
    Marks g (g.traversestack n) ∧
      (g.traversestack n).Covered (.thread n) := by
  unfold traversestack
  have hglobals := g.marks_markvalue (g.thread n).globals
  have hstack := marks_markvalues (g.markvalue (g.thread n).globals)
    (g.thread n).stack
  refine ⟨hglobals.trans hstack, ?_⟩
  intro y hy
  rw [(hglobals.trans hstack).slots] at hy
  rcases mem_referents.mp hy with ⟨v, hv, hvy⟩
  rcases List.mem_cons.mp hv with rfl | hv
  · exact hstack.dark (g.dark_markvalue hvy)
  · exact dark_markvalues _ (mem_referents.mpr ⟨v, hv, hvy⟩)

/-!
# Tables
-/

theorem marks_marknode (weakkey weakvalue : Bool) (g : GlobalState)
    (n : Node) : Marks g (marknode weakkey weakvalue g n) := by
  unfold marknode
  split
  · exact Marks.refl g
  · cases weakkey <;> cases weakvalue
    · exact (g.marks_markvalue n.key).trans (marks_markvalue _ n.val)
    · exact g.marks_markvalue n.key
    · exact g.marks_markvalue n.val
    · exact Marks.refl g

theorem dark_marknodes {weakkey weakvalue : Bool} {nodes : List Node}
    (g : GlobalState) {n : Node} (hn : n ∈ nodes) (hval : n.val ≠ .nil)
    {x : GCObject}
    (hx : weakkey = false ∧ n.key.gcvalue = some x ∨
      weakvalue = false ∧ n.val.gcvalue = some x) :
    (nodes.foldl (marknode weakkey weakvalue) g).iswhite x = false := by
  refine Marks.dark_foldl
    (fun n x => n.val ≠ .nil ∧ (weakkey = false ∧ n.key.gcvalue = some x ∨
      weakvalue = false ∧ n.val.gcvalue = some x))
    (marks_marknode weakkey weakvalue) ?_ nodes g hn ⟨hval, hx⟩
  intro g m y hy
  rcases hy with ⟨hm, hy⟩
  unfold marknode
  rw [if_neg hm]
  rcases hy with ⟨hweak, hkey⟩ | ⟨hweak, hvalue⟩
  · rw [hweak]
    cases weakvalue with
    | false => exact (marks_markvalue _ m.val).dark (g.dark_markvalue hkey)
    | true => exact g.dark_markvalue hkey
  · rw [hweak]
    exact dark_markvalue _ hvalue

theorem markmetatable_covers (g : GlobalState) (mt : Option Nat) :
    Marks g (g.markmetatable mt) ∧
      forall y, y ∈ mt.toList.map GCObject.table ->
        (g.markmetatable mt).iswhite y = false := by
  cases mt with
  | none => exact ⟨Marks.refl g, fun y hy => by cases hy⟩
  | some m =>
      refine ⟨g.marks_markobject (.table m), ?_⟩
      intro y hy
      rw [Option.toList_some, List.map_singleton, List.mem_singleton] at hy
      rw [hy]
      exact g.dark_markobject _

theorem mem_reverse_referents {values : List TValue} {x : GCObject} :
    x ∈ referents values.reverse <-> x ∈ referents values := by
  simp [mem_referents]

theorem markentries_covers (h : Table) (weakkey weakvalue : Bool)
    (g : GlobalState) :
    Marks g (markentries h weakkey weakvalue g) ∧
      (weakvalue = false -> forall y, y ∈ referents h.array ->
        (markentries h weakkey weakvalue g).iswhite y = false) ∧
      (weakkey = false -> forall y, y ∈ referents (h.live.map Node.key) ->
        (markentries h weakkey weakvalue g).iswhite y = false) ∧
      (weakvalue = false -> forall y, y ∈ referents (h.live.map Node.val) ->
        (markentries h weakkey weakvalue g).iswhite y = false) := by
  have hnodes : forall g1, Marks g1
      (h.node.reverse.foldl (marknode weakkey weakvalue) g1) :=
    fun g1 => Marks.foldl (marks_marknode weakkey weakvalue) _ g1
  refine ⟨?_, ?_, ?_, ?_⟩
  · cases weakvalue with
    | false => exact (g.marks_markvalues _).trans (hnodes _)
    | true => exact hnodes g
  · intro heq y hy
    subst heq
    exact (hnodes _).dark (g.dark_markvalues (mem_reverse_referents.mpr hy))
  · intro hweak y hy
    rcases mem_referents.mp hy with ⟨v, hv, hvy⟩
    rcases List.mem_map.mp hv with ⟨n, hn, rfl⟩
    rcases List.mem_filter.mp hn with ⟨hmem, hval⟩
    exact dark_marknodes _ (List.mem_reverse.mpr hmem)
      (of_decide_eq_true hval) (Or.inl ⟨hweak, hvy⟩)
  · intro hweak y hy
    rcases mem_referents.mp hy with ⟨v, hv, hvy⟩
    rcases List.mem_map.mp hv with ⟨n, hn, rfl⟩
    rcases List.mem_filter.mp hn with ⟨hmem, hval⟩
    exact dark_marknodes _ (List.mem_reverse.mpr hmem)
      (of_decide_eq_true hval) (Or.inr ⟨hweak, hvy⟩)

def traversedTable (h : Table) (weakkey weakvalue : Bool) : Table :=
  let h1 :=
    if weakkey || weakvalue then
      { h with keyweak := weakkey, valueweak := weakvalue }
    else h
  if weakkey && weakvalue then h1
  else { h1 with node := h.node.map removeempty }

theorem sameObjs_traversedTable (g : GlobalState) (t : Nat)
    (weakkey weakvalue : Bool) :
    SameObjs g
      (g.setTable t (traversedTable (g.table t) weakkey weakvalue)) := by
  apply sameObjs_setTable
  · cases weakkey <;> cases weakvalue <;> rfl
  · cases weakkey <;> cases weakvalue <;> rfl
  · cases weakkey <;> cases weakvalue <;>
      first | rfl | exact live_map_removeempty _

def tableBase (g : GlobalState) (t : Nat) (weakkey weakvalue : Bool) :
    GlobalState :=
  { g with
    objs := (g.setTable t
      (traversedTable (g.table t) weakkey weakvalue)).objs
    weak := if weakkey || weakvalue then .table t :: g.weak else g.weak }

theorem table_linkweak (g : GlobalState) (t : Nat)
    (weakkey weakvalue : Bool) :
    (g.linkweak t weakkey weakvalue).table t =
      { g.table t with keyweak := weakkey, valueweak := weakvalue } :=
  objs_write_self g (.table t) _

theorem sameObjs_linkweak (g : GlobalState) (t : Nat)
    (weakkey weakvalue : Bool) :
    SameObjs g (g.linkweak t weakkey weakvalue) :=
  (sameObjs_setTable (t := t)
    (h := { g.table t with keyweak := weakkey, valueweak := weakvalue })
    rfl rfl rfl).trans (SameObjs.of_objs rfl)

/-- The second write of the table overwrites the first. -/
theorem objs_linkweak_setTable (g : GlobalState) (t : Nat)
    (weakkey weakvalue : Bool) (h : Table) :
    ((g.linkweak t weakkey weakvalue).setTable t h).objs =
      (g.setTable t h).objs :=
  Function.update_idem _ _ _

/-- The loops of the traversal, with the emptied nodes written first. -/
theorem markentries_removeempties {g1 g2 g0 : GlobalState} (t : Nat)
    {w : List GCObject} (h : Marks g1 g2) (hsame : SameObjs g1 g0) (hw : g2.weak = w)
    (hobjs : g0.objs = (g1.setTable t
      { g1.table t with node := (g1.table t).node.map removeempty }).objs) :
    Marks { g1 with objs := g0.objs, weak := w } (g2.removeempties t) := by
  have hr : g2.removeempties t =
      { g2 with objs := g0.objs, weak := w } := by
    rw [hobjs, ← hw]
    unfold removeempties setTable write
    simp only [table, h.objs]
  rw [hr]
  exact h.swap hsame w

theorem marks_traversemode (g : GlobalState) (t : Nat)
    (weakkey weakvalue : Bool) :
    Marks (g.tableBase t weakkey weakvalue)
      (g.traversemode t weakkey weakvalue).1 := by
  have hentries := markentries_covers (g.table t) weakkey weakvalue
  have hsame := g.sameObjs_traversedTable t weakkey weakvalue
  cases weakkey with
  | false =>
      cases weakvalue with
      | false =>
          exact markentries_removeempties t (hentries g).1 hsame
            (hentries g).1.weak rfl
      | true =>
          have hmarks := markentries_removeempties t
            (hentries (g.linkweak t false true)).1
            ((g.sameObjs_linkweak t false true).symm.trans hsame)
            (hentries (g.linkweak t false true)).1.weak
            (by rw [objs_linkweak_setTable, table_linkweak]; rfl)
          exact hmarks
  | true =>
      cases weakvalue with
      | false =>
          have hmarks := markentries_removeempties t
            (hentries (g.linkweak t true false)).1
            ((g.sameObjs_linkweak t true false).symm.trans hsame)
            (hentries (g.linkweak t true false)).1.weak
            (by rw [objs_linkweak_setTable, table_linkweak]; rfl)
          exact hmarks
      | true => exact Marks.refl _

theorem iswhite_removeempties (g : GlobalState) (t : Nat) (x : GCObject) :
    (g.removeempties t).iswhite x = g.iswhite x := rfl

theorem dark_traversemode (g : GlobalState) (t : Nat)
    (weakkey weakvalue : Bool) (hboth : (weakkey && weakvalue) = false) :
    (weakvalue = false -> forall y, y ∈ referents (g.table t).array ->
      (g.traversemode t weakkey weakvalue).1.iswhite y = false) ∧
    (weakkey = false -> forall y,
      y ∈ referents ((g.table t).live.map Node.key) ->
        (g.traversemode t weakkey weakvalue).1.iswhite y = false) ∧
    (weakvalue = false -> forall y,
      y ∈ referents ((g.table t).live.map Node.val) ->
        (g.traversemode t weakkey weakvalue).1.iswhite y = false) := by
  have hentries := fun g1 =>
    (markentries_covers (g.table t) weakkey weakvalue g1).2
  unfold traversemode
  simp only [hboth, Bool.false_eq_true, if_false, iswhite_removeempties]
  exact hentries _

theorem mem_strongSlots_traversed {h : Table} {weakkey weakvalue : Bool}
    (hweak : (weakkey || weakvalue) = true) {y : GCObject}
    (hy : y ∈ (traversedTable h weakkey weakvalue).strongSlots) :
    y ∈ h.metatable.toList.map GCObject.table ∨
      (weakvalue = false ∧ y ∈ referents h.array) ∨
      (weakkey = false ∧ y ∈ referents (h.live.map Node.key)) ∨
      (weakvalue = false ∧ y ∈ referents (h.live.map Node.val)) := by
  have hlive : (traversedTable h weakkey weakvalue).live = h.live := by
    cases weakkey <;> cases weakvalue <;>
      first | rfl | exact live_map_removeempty _
  unfold Table.strongSlots at hy
  rw [hlive] at hy
  cases weakkey with
  | false =>
      cases weakvalue with
      | false => cases hweak
      | true =>
          simpa [traversedTable] using hy
  | true =>
      cases weakvalue with
      | false => simpa [traversedTable] using hy
      | true => simpa [traversedTable] using hy

theorem covered_traversetable (g : GlobalState) (t : Nat)
    (hstrong : (g.traversetable t).2 = false) :
    (g.traversetable t).1.Covered (.table t) := by
  have hmt := g.markmetatable_covers (g.table t).metatable
  have hsame := SameObjs.of_objs hmt.1.objs
  unfold traversetable at hstrong ⊢
  generalize g.hasMode (g.table t).metatable 107 = weakkey at hstrong ⊢
  generalize g.hasMode (g.table t).metatable 118 = weakvalue at hstrong ⊢
  generalize g.markmetatable (g.table t).metatable = g1 at hmt hsame hstrong ⊢
  have hkey : weakkey = false := by
    cases weakkey with
    | false => rfl
    | true => cases weakvalue <;> cases hstrong
  have hvalue : weakvalue = false := by
    rw [hkey] at hstrong
    cases weakvalue with
    | false => rfl
    | true => cases hstrong
  subst hkey hvalue
  have hmarks := marks_traversemode g1 t false false
  rcases dark_traversemode g1 t false false rfl with ⟨harray, hkeys, hvals⟩
  have hbase : forall x, x ∈ g.slots (.table t) <->
      x ∈ (g1.traversemode t false false).1.slots (.table t) := by
    intro x
    rw [hmarks.slots, ← hsame.slots]
    exact iff_of_eq (congrArg (x ∈ ·)
      ((sameObjs_traversedTable g1 t false false).slots (.table t)).symm)
  intro y hy
  have hdark : forall x, g1.iswhite x = false ->
      (g1.traversemode t false false).1.iswhite x = false :=
    fun x hx => hmarks.dark hx
  have hy := (hbase y).mpr hy
  simp only [slots, Table.slots, List.mem_append] at hy
  rcases hy with (hy | hy) | hy | hy
  · exact hdark y (hmt.2 y hy)
  · rw [← hsame.array] at hy
    exact harray rfl y hy
  · rw [← hsame.live] at hy
    exact hkeys rfl y hy
  · rw [← hsame.live] at hy
    exact hvals rfl y hy

/-- The traversal of a weak table marks what its mode does not exempt. -/
theorem strong_traversetable (g : GlobalState) (t : Nat)
    (hweak : (g.traversetable t).2 = true) :
    .table t ∈ (g.traversetable t).1.weak ∧
      forall y, y ∈ ((g.traversetable t).1.table t).strongSlots ->
        (g.traversetable t).1.iswhite y = false := by
  have hmt := g.markmetatable_covers (g.table t).metatable
  have hsame := SameObjs.of_objs hmt.1.objs
  unfold traversetable at hweak ⊢
  generalize g.hasMode (g.table t).metatable 107 = weakkey at hweak ⊢
  generalize g.hasMode (g.table t).metatable 118 = weakvalue at hweak ⊢
  generalize g.markmetatable (g.table t).metatable = g1 at hmt hsame hweak ⊢
  have hmarks := marks_traversemode g1 t weakkey weakvalue
  have hor : (weakkey || weakvalue) = true := by
    cases weakkey <;> cases weakvalue <;> first | rfl | cases hweak
  have htable : (g1.traversemode t weakkey weakvalue).1.table t =
      traversedTable (g1.table t) weakkey weakvalue := by
    rw [table, hmarks.objs]
    exact objs_write_self g1 (.table t) _
  constructor
  · rw [hmarks.weak]
    simp [tableBase, hor]
  · rw [htable]
    intro y hy
    have hmem := mem_strongSlots_traversed hor hy
    rw [hsame.metatable] at hmem
    rcases hmem with hy | hy
    · exact hmarks.dark (hmt.2 y hy)
    · cases hboth : weakkey && weakvalue with
      | false =>
          rcases dark_traversemode g1 t weakkey weakvalue hboth with
            ⟨harray, hkeys, hvals⟩
          rcases hy with ⟨hw, hy⟩ | ⟨hw, hy⟩ | ⟨hw, hy⟩
          · exact harray hw y hy
          · exact hkeys hw y hy
          · exact hvals hw y hy
      | true =>
          rw [Bool.and_eq_true] at hboth
          rcases hy with ⟨hw, _⟩ | ⟨hw, _⟩ | ⟨hw, _⟩
          · exact absurd (hboth.2.symm.trans hw) Bool.noConfusion
          · exact absurd (hboth.1.symm.trans hw) Bool.noConfusion
          · exact absurd (hboth.2.symm.trans hw) Bool.noConfusion

theorem marks_traversetable (g : GlobalState) (t : Nat) :
    exists g0, SameObjs g g0 ∧
      (forall x, x ≠ .table t -> g0.objs x = g.objs x) ∧
      Marks
        { g with
          objs := g0.objs
          weak :=
            if (g.traversetable t).2 then .table t :: g.weak else g.weak }
        (g.traversetable t).1 := by
  have hmt := (g.markmetatable_covers (g.table t).metatable).1
  unfold traversetable
  generalize g.hasMode (g.table t).metatable 107 = weakkey
  generalize g.hasMode (g.table t).metatable 118 = weakvalue
  generalize g.markmetatable (g.table t).metatable = g1 at hmt ⊢
  have hsame := (SameObjs.of_objs hmt.objs).trans
    (sameObjs_traversedTable g1 t weakkey weakvalue)
  have hbit : (g1.traversemode t weakkey weakvalue).2 =
      (weakkey || weakvalue) := by
    cases weakkey <;> cases weakvalue <;> rfl
  refine ⟨_, hsame, ?_, ?_⟩
  · intro x hx
    rw [← hmt.objs]
    exact objs_write_of_ne g1 (.table t) _ hx
  have hswap := hmt.swap hsame
    (if (weakkey || weakvalue) = true then .table t :: g.weak else g.weak)
  have hmarks := marks_traversemode g1 t weakkey weakvalue
  unfold tableBase at hmarks
  rw [hmt.weak] at hmarks
  rw [hbit]
  exact hswap.trans hmarks

/-!
# One step of the propagation
-/

/--
Everything the object keeps alive is dark: all of its references, or those of a
weak table in the list of tables to clear.
-/
def Settled (g : GlobalState) (x : GCObject) : Prop :=
  g.Covered x ∨
    exists t, x = .table t ∧ x ∈ g.weak ∧
      forall y, y ∈ (g.table t).strongSlots -> g.iswhite y = false

/-- The object leaves the gray list, in its color and in the list it goes to. -/
inductive Pops (g : GlobalState) (rest : List GCObject) :
    GCObject -> GlobalState -> Prop where
  | strong (o : GCObject) (g1 : GlobalState) (hthread : forall n, o ≠ .thread n)
      (hsame : SameObjs g g1)
      (hother : forall x, x ≠ o -> g1.objs x = g.objs x) :
      Pops g rest o { g.paint o .black with objs := g1.objs, gray := rest }
  | thread (n : Nat) :
      Pops g rest (.thread n)
        { g.paint (.thread n) .gray with
          gray := rest
          grayagain := .thread n :: g.grayagain }
  | weak (t : Nat) (g1 : GlobalState) (hsame : SameObjs g g1)
      (hother : forall x, x ≠ .table t -> g1.objs x = g.objs x) :
      Pops g rest (.table t)
        { g.paint (.table t) .gray with
          objs := g1.objs
          gray := rest
          weak := .table t :: g.weak }

theorem paint_paint (g : GlobalState) (x : GCObject) (c c' : Color) :
    (g.paint x c).paint x c' = g.paint x c' := by
  unfold paint
  simp only [Function.update_self, Function.update_idem]
  cases g.marked x <;> rfl

theorem paint_pop (g : GlobalState) (x : GCObject) (c c' : Color)
    (rest : List GCObject) :
    paint { g.paint x c with gray := rest } x c' =
      { g.paint x c' with gray := rest } :=
  congrArg (fun s : GlobalState => { s with gray := rest })
    (g.paint_paint x c c')

theorem propagatemark_pops {g : GlobalState} {o : GCObject}
    {rest : List GCObject} (hgray : g.gray = o :: rest)
    (htrav : o.traversed = true) :
    exists base, Pops g rest o base ∧ Marks base g.propagatemark ∧
      g.propagatemark.Settled o := by
  unfold propagatemark
  rw [hgray]
  cases o with
  | string n => cases htrav
  | udata n => cases htrav
  | upval n => cases htrav
  | function n =>
      have hcovers := traverseclosure_covers
        { g.paint (.function n) .black with gray := rest } n
      exact ⟨_, .strong _ g (fun _ => GCObject.noConfusion) (SameObjs.refl g)
        (fun _ _ => rfl), hcovers.1, Or.inl hcovers.2⟩
  | proto n =>
      have hcovers := traverseproto_covers
        { g.paint (.proto n) .black with gray := rest } n
      exact ⟨_, .strong _ g (fun _ => GCObject.noConfusion) (SameObjs.refl g)
        (fun _ _ => rfl), hcovers.1, Or.inl hcovers.2⟩
  | thread n =>
      have hcovers := traversestack_covers
        { g.paint (.thread n) .gray with
          gray := rest
          grayagain := .thread n :: g.grayagain } n
      simp only [paint_pop]
      exact ⟨_, .thread n, hcovers.1, Or.inl hcovers.2⟩
  | table t =>
      simp only
      rcases marks_traversetable
        { g.paint (.table t) .black with gray := rest } t with
        ⟨g0, hsame, hother, hmarks⟩
      have hstrong := covered_traversetable
        { g.paint (.table t) .black with gray := rest } t
      have hweak := strong_traversetable
        { g.paint (.table t) .black with gray := rest } t
      generalize traversetable { g.paint (.table t) .black with gray := rest } t
        = r at hmarks hstrong hweak ⊢
      have hsame' : SameObjs g g0 :=
        SameObjs.trans
          (show SameObjs g { g.paint (.table t) .black with gray := rest } from
            SameObjs.of_objs rfl) hsame
      cases hr : r.2 with
      | false =>
          rw [hr] at hmarks
          exact ⟨_, .strong _ g0 (fun _ => GCObject.noConfusion) hsame' hother,
            hmarks, Or.inl (hstrong hr)⟩
      | true =>
          rw [hr] at hmarks
          have hbase : Marks
              (paint
                { g with
                  objs := g0.objs
                  gray := rest
                  weak := .table t :: g.weak }
                (.table t) .black) r.1 := hmarks
          have hrecolor := @Marks.recolor _ _ _ _ .gray
            (fun _ => Color.noConfusion) (fun _ => Color.noConfusion) hbase
          refine ⟨_, .weak t g0 hsame' hother, hrecolor, Or.inr ⟨t, rfl, ?_, ?_⟩⟩
          · exact (hweak hr).1
          · intro y hy
            by_cases hyt : y = .table t
            · rw [hyt]
              exact iswhite_paint_self fun _ => Color.noConfusion
            · exact (iswhite_paint_of_ne _ hyt).trans ((hweak hr).2 y hy)

end GlobalState
end Gc
end LuaServer
