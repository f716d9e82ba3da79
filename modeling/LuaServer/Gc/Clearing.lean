import LuaServer.Gc.Separation

/-!
# The clearing of weak tables

`cleartable` drops the entries of weak tables that refer to white objects, and
marks the strings that stay.
-/

namespace LuaServer
namespace Gc
namespace GlobalState

variable {g g' : GlobalState}

/-!
# Strings are values
-/

/-- Only strings have been marked. -/
structure MarksStrings (g g' : GlobalState) : Prop where
  marks : Marks g g'
  gray : g'.gray = g.gray
  other : forall x, (forall n, x ≠ .string n) -> g'.color? x = g.color? x

theorem MarksStrings.refl (g : GlobalState) : MarksStrings g g :=
  ⟨Marks.refl g, rfl, fun _ _ => rfl⟩

theorem MarksStrings.trans {g'' : GlobalState} (h : MarksStrings g g')
    (h' : MarksStrings g' g'') : MarksStrings g g'' :=
  ⟨h.marks.trans h'.marks, h'.gray.trans h.gray,
    fun x hx => (h'.other x hx).trans (h.other x hx)⟩

theorem MarksStrings.foldl {item : Type}
    {f : GlobalState -> item -> GlobalState}
    (hf : forall g a, MarksStrings g (f g a)) (items : List item)
    (g : GlobalState) : MarksStrings g (items.foldl f g) := by
  induction items generalizing g with
  | nil => exact MarksStrings.refl g
  | cons a rest ih => exact (hf g a).trans (ih (f g a))

theorem marksStrings_keepstring (g : GlobalState) (v : TValue) :
    MarksStrings g (g.keepstring v) := by
  cases v with
  | string n =>
      refine ⟨g.marks_stringmark n, ?_, ?_⟩
      · change (g.stringmark n).gray = g.gray
        unfold stringmark
        split <;> rfl
      · intro x hx
        change (g.stringmark n).color? x = g.color? x
        unfold stringmark
        split
        · exact (color?_paint g _ .gray x).trans (if_neg (hx n))
        · rfl
  | _ => exact MarksStrings.refl g

theorem marksStrings_keepnode (g : GlobalState) (n : Node) :
    MarksStrings g (g.keepnode n) := by
  unfold keepnode
  split
  · exact MarksStrings.refl g
  · simp only
    split
    · exact g.marksStrings_keepstring n.key
    · exact (g.marksStrings_keepstring n.key).trans
        (marksStrings_keepstring _ n.val)

theorem marks_keepstring (g : GlobalState) (v : TValue) :
    Marks g (g.keepstring v) := (g.marksStrings_keepstring v).marks

theorem marks_keepnode (g : GlobalState) (n : Node) :
    Marks g (g.keepnode n) := (g.marksStrings_keepnode n).marks

theorem iscleared_false {iskey : Bool} {v : TValue} {x : GCObject}
    (hv : v.gcvalue = some x) (h : g.iscleared iskey v = false) :
    (exists n, v = .string n) ∨ g.iswhite x = false := by
  cases v with
  | string n => exact Or.inl ⟨n, rfl⟩
  | udata n =>
      cases hv
      right
      simp only [iscleared, TValue.gcvalue, Bool.or_eq_false_iff] at h
      exact h.1
  | nil => cases hv
  | plain => cases hv
  | deadkey => cases hv
  | function n =>
      cases hv
      exact Or.inr h
  | table n =>
      cases hv
      exact Or.inr h
  | thread n =>
      cases hv
      exact Or.inr h
  | proto n =>
      cases hv
      exact Or.inr h

theorem Marks.iscleared (h : Marks g g') {iskey : Bool} {v : TValue}
    (hv : g.iscleared iskey v = false) : g'.iscleared iskey v = false := by
  cases v with
  | udata n =>
      simp only [GlobalState.iscleared, TValue.gcvalue,
        Bool.or_eq_false_iff] at hv ⊢
      refine ⟨h.dark hv.1, ?_⟩
      rw [udata, h.objs]
      exact hv.2
  | nil => rfl
  | plain => rfl
  | deadkey => rfl
  | string n => rfl
  | function n => exact h.dark hv
  | table n => exact h.dark hv
  | thread n => exact h.dark hv
  | proto n => exact h.dark hv

theorem dark_keepstrings (g : GlobalState) {vs : List TValue} {n : Nat}
    (hn : .string n ∈ vs) :
    (vs.foldl keepstring g).iswhite (.string n) = false := by
  refine Marks.dark_foldl (fun v x => v = .string n ∧ x = .string n)
    marks_keepstring ?_ vs g hn ⟨rfl, rfl⟩
  intro g v x h
  rcases h with ⟨rfl, rfl⟩
  exact g.dark_stringmark n

theorem dark_keepnodes {nodes : List Node} {n : Node} (hn : n ∈ nodes)
    (hval : n.val ≠ .nil) (hkey : g.iscleared true n.key = false) {m : Nat}
    (hm : n.key = .string m ∨ n.val = .string m) :
    (nodes.foldl keepnode g).iswhite (.string m) = false := by
  induction nodes generalizing g with
  | nil => cases hn
  | cons first rest ih =>
      rcases List.mem_cons.mp hn with rfl | hn
      · refine (Marks.foldl marks_keepnode rest _).dark ?_
        unfold keepnode
        rw [if_neg hval]
        simp only [hkey, Bool.false_eq_true, if_false]
        rcases hm with hm | hm
        · refine (marks_keepstring _ n.val).dark ?_
          rw [hm]
          exact g.dark_stringmark m
        · rw [hm]
          exact dark_stringmark _ m
      · exact ih hn ((g.marks_keepnode first).iscleared hkey)

/-!
# One weak table
-/

def keepstrings (g : GlobalState) (h : Table) : GlobalState :=
  h.node.reverse.foldl keepnode
    (if h.valueweak then h.array.reverse.foldl keepstring g else g)

/-- A weak table without the entries that refer to white objects. -/
def clearedTable (g : GlobalState) (h : Table) : Table :=
  { h with
    array := if h.valueweak then h.array.map g.clearvalue else h.array
    node := h.node.map g.clearnode }

theorem clearone_eq (g : GlobalState) (t : Nat) :
    g.clearone t =
      (g.keepstrings (g.table t)).setTable t (g.clearedTable (g.table t)) := rfl

theorem marksStrings_keepstrings (g : GlobalState) (h : Table) :
    MarksStrings g (g.keepstrings h) := by
  unfold keepstrings
  split
  · exact (MarksStrings.foldl marksStrings_keepstring _ g).trans
      (MarksStrings.foldl marksStrings_keepnode _ _)
  · exact MarksStrings.foldl marksStrings_keepnode _ g

theorem marks_keepstrings (g : GlobalState) (h : Table) :
    Marks g (g.keepstrings h) := (g.marksStrings_keepstrings h).marks

theorem clearnode_live {n : Node} (h : (g.clearnode n).val ≠ .nil) :
    g.clearnode n = n ∧ n.val ≠ .nil ∧ g.iscleared true n.key = false ∧
      g.iscleared false n.val = false := by
  unfold clearnode at h ⊢
  split at h
  · rename_i hval
    exact absurd hval h
  · rename_i hval
    split at h
    · exfalso
      apply h
      unfold removeentry
      split <;> rfl
    · rename_i hkeep
      rw [if_neg hval, if_neg hkeep]
      rw [Bool.or_eq_true, not_or, Bool.not_eq_true, Bool.not_eq_true] at hkeep
      exact ⟨rfl, hval, hkeep.1, hkeep.2⟩

theorem mem_live_clearedTable {h : Table} {n : Node}
    (hn : n ∈ (g.clearedTable h).live) :
    n ∈ h.live ∧ g.iscleared true n.key = false ∧
      g.iscleared false n.val = false := by
  rcases List.mem_filter.mp hn with ⟨hmem, hval⟩
  rcases List.mem_map.mp hmem with ⟨m, hm, rfl⟩
  rcases clearnode_live (of_decide_eq_true hval) with ⟨heq, hmval, hkey, hv⟩
  rw [heq]
  exact ⟨List.mem_filter.mpr ⟨hm, decide_eq_true hmval⟩, hkey, hv⟩

theorem mem_array_clearedTable {h : Table} (hweak : h.valueweak = true)
    {y : GCObject} (hy : y ∈ referents (g.clearedTable h).array) :
    exists v, v ∈ h.array ∧ v.gcvalue = some y ∧
      g.iscleared false v = false := by
  rcases mem_referents.mp hy with ⟨w, hw, hwy⟩
  simp only [clearedTable, hweak, if_true] at hw
  rcases List.mem_map.mp hw with ⟨v, hv, rfl⟩
  unfold clearvalue at hwy
  split at hwy
  · cases hwy
  · rename_i hkeep
    exact ⟨v, hv, hwy, Bool.eq_false_of_not_eq_true hkeep⟩

theorem slots_clearedTable {h : Table} {y : GCObject}
    (hy : y ∈ (g.clearedTable h).slots) : y ∈ h.slots := by
  simp only [Table.slots, List.mem_append] at hy ⊢
  rcases hy with (hy | hy) | hy | hy
  · exact Or.inl (Or.inl hy)
  · left
    right
    cases hweak : h.valueweak with
    | true =>
        rcases mem_array_clearedTable hweak hy with ⟨v, hv, hvy, _⟩
        exact mem_referents.mpr ⟨v, hv, hvy⟩
    | false =>
        simp only [clearedTable, hweak, Bool.false_eq_true, if_false] at hy
        exact hy
  · rcases mem_referents.mp hy with ⟨v, hv, hvy⟩
    rcases List.mem_map.mp hv with ⟨n, hn, rfl⟩
    exact Or.inr (Or.inl (mem_referents.mpr ⟨n.key,
      List.mem_map_of_mem (mem_live_clearedTable hn).1, hvy⟩))
  · rcases mem_referents.mp hy with ⟨v, hv, hvy⟩
    rcases List.mem_map.mp hv with ⟨n, hn, rfl⟩
    exact Or.inr (Or.inr (mem_referents.mpr ⟨n.val,
      List.mem_map_of_mem (mem_live_clearedTable hn).1, hvy⟩))

theorem dark_clearedTable {h : Table}
    (hstrong : forall y, y ∈ h.strongSlots -> g.iswhite y = false)
    {y : GCObject} (hy : y ∈ (g.clearedTable h).slots) :
    (g.keepstrings h).iswhite y = false := by
  have hmarks := g.marks_keepstrings h
  have hnode : forall n, n ∈ (g.clearedTable h).live ->
      forall v, v = n.key ∨ v = n.val -> v.gcvalue = some y ->
        (g.keepstrings h).iswhite y = false := by
    intro n hn v hv hvy
    rcases mem_live_clearedTable hn with ⟨hlive, hkey, hval⟩
    have hv' : g.iscleared true v = false ∨ g.iscleared false v = false := by
      rcases hv with rfl | rfl
      · exact Or.inl hkey
      · exact Or.inr hval
    have hcases : (exists m, v = .string m) ∨ g.iswhite y = false := by
      rcases hv' with hclear | hclear
      · exact iscleared_false hvy hclear
      · exact iscleared_false hvy hclear
    rcases hcases with ⟨m, rfl⟩ | hdark
    · cases hvy
      rcases List.mem_filter.mp hlive with ⟨hmem, hnil⟩
      unfold keepstrings
      refine dark_keepnodes (List.mem_reverse.mpr hmem)
        (of_decide_eq_true hnil) ?_ (hv.imp Eq.symm Eq.symm)
      split
      · exact (Marks.foldl marks_keepstring _ g).iscleared hkey
      · exact hkey
    · exact hmarks.dark hdark
  simp only [Table.slots, List.mem_append] at hy
  rcases hy with (hy | hy) | hy | hy
  · refine hmarks.dark (hstrong y ?_)
    simp only [Table.strongSlots, List.mem_append]
    exact Or.inl (Or.inl hy)
  · cases hweak : h.valueweak with
    | true =>
        rcases mem_array_clearedTable hweak hy with ⟨v, hv, hvy, hkeep⟩
        rcases iscleared_false hvy hkeep with ⟨m, rfl⟩ | hdark
        · cases hvy
          unfold keepstrings
          rw [if_pos hweak]
          exact (Marks.foldl marks_keepnode _ _).dark
            (dark_keepstrings g (List.mem_reverse.mpr hv))
        · exact hmarks.dark hdark
    | false =>
        simp only [clearedTable, hweak, Bool.false_eq_true, if_false] at hy
        refine hmarks.dark (hstrong y ?_)
        simp only [Table.strongSlots, hweak, List.mem_append]
        exact Or.inl (Or.inr hy)
  · rcases mem_referents.mp hy with ⟨v, hv, hvy⟩
    rcases List.mem_map.mp hv with ⟨n, hn, rfl⟩
    exact hnode n hn _ (Or.inl rfl) hvy
  · rcases mem_referents.mp hy with ⟨v, hv, hvy⟩
    rcases List.mem_map.mp hv with ⟨n, hn, rfl⟩
    exact hnode n hn _ (Or.inr rfl) hvy

/-!
# All weak tables
-/

/-- Some entries of tables are gone, and some strings are marked. -/
structure Clears (g g' : GlobalState) : Prop where
  frame : g' = { g with objs := g'.objs, marked := g'.marked }
  objs : forall x, (forall t, x ≠ .table t) -> g'.objs x = g.objs x
  slots : forall x y, y ∈ g'.slots x -> y ∈ g.slots x
  fixed : forall x,
    (g'.marked x).map Marked.fixed = (g.marked x).map Marked.fixed
  dark : forall x, g.iswhite x = false -> g'.iswhite x = false
  white : forall x, g'.iswhite x = true -> g'.color? x = g.color? x
  other : forall x, (forall n, x ≠ .string n) -> g'.color? x = g.color? x
  string : forall n, g'.isblack (.string n) = true ->
    g.isblack (.string n) = true

namespace Clears

variable {g'' : GlobalState}

theorem refl (g : GlobalState) : Clears g g :=
  ⟨rfl, fun _ _ => rfl, fun _ _ h => h, fun _ => rfl, fun _ h => h,
    fun _ _ => rfl, fun _ _ => rfl, fun _ h => h⟩

theorem trans (h : Clears g g') (h' : Clears g' g'') : Clears g g'' where
  frame := by
    rw [h'.frame, h.frame]
  objs := fun x hx => (h'.objs x hx).trans (h.objs x hx)
  slots := fun x y hy => h.slots x y (h'.slots x y hy)
  fixed := fun x => (h'.fixed x).trans (h.fixed x)
  dark := fun x hx => h'.dark x (h.dark x hx)
  white := by
    intro x hx
    rw [h'.white x hx]
    exact h.white x (iswhite_iff.mpr (by
      rcases iswhite_iff.mp hx with ⟨b, hb⟩
      exact ⟨b, (h'.white x hx).symm.trans hb⟩))
  other := fun x hx => (h'.other x hx).trans (h.other x hx)
  string := fun n hn => h.string n (h'.string n hn)

theorem sameLinks (h : Clears g g') : SameLinks g g' where
  allocated := fun x => allocated_iff_of_fixed (h.fixed x)
  fixed := h.fixed
  rootgc := by
    rw [h.frame]
    rfl
  tmudata := by rw [h.frame]
  strt := by rw [h.frame]
  uvhead := by rw [h.frame]
  mainthread := by rw [h.frame]
  opened := by
    intro n th l
    rw [upval, h.objs (.upval n) fun _ => GCObject.noConfusion]
    rfl
  openupval := by
    intro th
    rw [thread, h.objs (.thread th) fun _ => GCObject.noConfusion]
    rfl
  stack := by
    intro n th l _ _ hl
    rw [thread, h.objs (.thread th) fun _ => GCObject.noConfusion]
    exact hl

/-- The tables before their entries are cleared refer to all that is needed. -/
theorem tricolor (h : Clears g g') {todo todo' : GCObject -> Prop}
    (hg : Library.Tricolor g.Dark g.White todo g.slots)
    (htodo : forall x, g'.Dark x -> todo x ->
      todo' x ∨ forall y, y ∈ g'.slots x -> g'.iswhite y = false) :
    Library.Tricolor g'.Dark g'.White todo' g'.slots := by
  intro x hx
  by_cases hstring : exists n, x = .string n
  · rcases hstring with ⟨n, rfl⟩
    right
    intro y hy
    cases hy
  · have hcolor := h.other x fun n hn => hstring ⟨n, hn⟩
    have hold : g.Dark x :=
      ⟨(h.sameLinks.allocated x).mp hx.1,
        (iswhite_eq_of_color? hcolor).symm.trans hx.2⟩
    rcases hg x hold with hp | hslots
    · rcases htodo x hx hp with hp' | hdark
      · exact Or.inl hp'
      · right
        intro y hy hwhite
        exact absurd (hwhite.symm.trans (hdark y hy)) Bool.noConfusion
    · right
      intro y hy hwhite
      have hdark := h.dark y
        (Bool.eq_false_of_not_eq_true (hslots y (h.slots x y hy)))
      exact absurd (hwhite.symm.trans hdark) Bool.noConfusion

end Clears

theorem clears_clearone (g : GlobalState) (t : Nat) :
    Clears g (g.clearone t) := by
  have hstrings := g.marksStrings_keepstrings (g.table t)
  have hmarks := hstrings.marks
  rw [clearone_eq]
  generalize g.keepstrings (g.table t) = g1 at hstrings hmarks ⊢
  have htable : forall n, (g1.setTable t (g.clearedTable (g.table t))).table n =
      if n = t then g.clearedTable (g.table t) else g.table n := by
    intro n
    rw [table_setTable]
    split
    · rfl
    · rw [table, hmarks.objs]
      rfl
  have hobjs : forall x, (forall t, x ≠ .table t) ->
      (g1.setTable t (g.clearedTable (g.table t))).objs x = g.objs x := by
    intro x hx
    rw [← hmarks.objs]
    exact objs_write_of_ne g1 (.table t) _ (hx t)
  refine ⟨?_, hobjs, ?_, hmarks.fixed, fun _ => hmarks.dark, hmarks.white,
    hstrings.other, ?_⟩
  · have hframe : g1 = { g with marked := g1.marked } := by
      rw [hmarks.frame, hstrings.gray]
    rw [hframe]
    rfl
  · intro x y hy
    cases x with
    | table n =>
        simp only [slots, htable] at hy ⊢
        split at hy
        · rename_i hn
          rw [hn]
          exact slots_clearedTable hy
        · exact hy
    | string n => cases hy
    | udata n =>
        simp only [slots, udata] at hy ⊢
        rw [hobjs (.udata n) fun _ => GCObject.noConfusion] at hy
        exact hy
    | upval n =>
        simp only [slots, upvalValue, stackAt, upval, thread] at hy ⊢
        rw [hobjs (.upval n) fun _ => GCObject.noConfusion] at hy
        cases hup : g.objs (.upval n) with
        | closed v =>
            rw [hup] at hy
            exact hy
        | opened th l =>
            rw [hup] at hy
            simp only at hy ⊢
            rw [hobjs (.thread th) fun _ => GCObject.noConfusion] at hy
            exact hy
    | function n =>
        simp only [slots, function] at hy ⊢
        rw [hobjs (.function n) fun _ => GCObject.noConfusion] at hy
        exact hy
    | thread n =>
        simp only [slots, thread] at hy ⊢
        rw [hobjs (.thread n) fun _ => GCObject.noConfusion] at hy
        exact hy
    | proto n =>
        simp only [slots, proto] at hy ⊢
        rw [hobjs (.proto n) fun _ => GCObject.noConfusion] at hy
        exact hy
  · intro n hn
    cases hwhite : g.iswhite (.string n) with
    | false =>
        exact (isblack_eq_of_color? (hmarks.kept _ hwhite)).symm.trans hn
    | true =>
        have hshaded := (hmarks.shaded _ hwhite (iswhite_of_isblack hn)).1
        have hblack : g1.color? (.string n) = some .black := isblack_iff.mp hn
        rw [hblack] at hshaded
        cases hshaded

theorem table_clearone (g : GlobalState) (t n : Nat) :
    (g.clearone t).table n =
      if n = t then g.clearedTable (g.table t) else g.table n := by
  rw [clearone_eq, table_setTable]
  split
  · rfl
  · rw [table, (g.marks_keepstrings _).objs]
    rfl

/-- A table of the list, up to its weak entries. -/
def WeaklyIn (g : GlobalState) (l : List GCObject) (x : GCObject) : Prop :=
  exists t, x = .table t ∧ x ∈ l ∧
    forall y, y ∈ (g.table t).strongSlots -> g.iswhite y = false

theorem cleartable_covers (l : List GCObject)
    (hg : Library.Tricolor g.Dark g.White (g.WeaklyIn l) g.slots) :
    Clears g (g.cleartable l) ∧
      Library.Tricolor (g.cleartable l).Dark (g.cleartable l).White
        (fun _ => False) (g.cleartable l).slots := by
  induction l generalizing g with
  | nil =>
      refine ⟨Clears.refl g, (Clears.refl g).tricolor hg ?_⟩
      intro x _ hmem
      rcases hmem with ⟨t, _, hmem, _⟩
      cases hmem
  | cons first rest ih =>
      by_cases hfirst : exists t, first = .table t
      · rcases hfirst with ⟨t, rfl⟩
        have hclears := g.clears_clearone t
        have hnext : Library.Tricolor (g.clearone t).Dark (g.clearone t).White
            ((g.clearone t).WeaklyIn rest) (g.clearone t).slots := by
          refine hclears.tricolor hg ?_
          intro x _ hstrong
          rcases hstrong with ⟨n, rfl, hmem, hstrong⟩
          by_cases hn : n = t
          · right
            intro y hy
            subst hn
            simp only [slots, table_clearone, if_true] at hy
            exact dark_clearedTable hstrong hy
          · left
            refine ⟨n, rfl, ?_, ?_⟩
            · rcases List.mem_cons.mp hmem with heq | hmem
              · exact absurd (GCObject.table.inj heq) hn
              · exact hmem
            · intro y hy
              rw [table_clearone, if_neg hn] at hy
              exact hclears.dark y (hstrong y hy)
        rcases ih hnext with ⟨hrest, hall⟩
        exact ⟨hclears.trans hrest, hall⟩
      · have hskip : g.cleartable (first :: rest) = g.cleartable rest := by
          cases first with
          | table t => exact absurd ⟨t, rfl⟩ hfirst
          | _ => rfl
        rw [hskip]
        refine ih ((Clears.refl g).tricolor hg ?_)
        intro x _ hstrong
        rcases hstrong with ⟨n, rfl, hmem, hstrong⟩
        left
        refine ⟨n, rfl, ?_, hstrong⟩
        rcases List.mem_cons.mp hmem with heq | hmem
        · exact absurd ⟨n, heq.symm⟩ hfirst
        · exact hmem

/-!
# The end of the mark phase
-/

/-- The roots are the same, and what is dark stays dark. -/
structure KeepsDark (g g' : GlobalState) : Prop where
  roots : g'.roots = g.roots
  oldRoots : g'.oldRoots = g.oldRoots
  dark : forall x, g.iswhite x = false -> g'.iswhite x = false

theorem KeepsDark.trans {g'' : GlobalState} (h : KeepsDark g g')
    (h' : KeepsDark g' g'') : KeepsDark g g'' :=
  ⟨h'.roots.trans h.roots, h'.oldRoots.trans h.oldRoots,
    fun x hx => h'.dark x (h.dark x hx)⟩

theorem Marks.keepsDark (h : Marks g g') : KeepsDark g g' :=
  ⟨h.roots, h.oldRoots, fun _ => h.dark⟩

theorem Advances.keepsDark (h : Advances g g') : KeepsDark g g' :=
  ⟨h.roots, h.oldRoots, h.dark⟩

theorem Clears.keepsDark (h : Clears g g') : KeepsDark g g' where
  roots := by
    rw [h.frame]
    rfl
  oldRoots := by
    rw [h.frame]
    rfl
  dark := h.dark

def remarkWeak (g : GlobalState) : GlobalState :=
  { g with gray := g.weak, weak := [] }

def remarkAgain (g : GlobalState) : GlobalState :=
  { g with gray := g.grayagain, grayagain := [] }

theorem Marking.remarkWeak (hg : g.Marking) : g.remarkWeak.Marking where
  noDead := hg.noDead
  closed := ⟨hg.closed.slots, hg.closed.roots, hg.closed.due⟩
  linked := ⟨hg.linked.main, hg.linked.fixed, hg.linked.fixedKinds,
    hg.linked.nodup,
    hg.linked.allocated, hg.linked.listed, hg.linked.due, hg.linked.dueNodup,
    hg.linked.strings, hg.linked.stringsNodup, hg.linked.table⟩
  upvals := ⟨hg.upvals.opened, hg.upvals.listed, hg.upvals.sorted,
    hg.upvals.uvhead, hg.upvals.uvheadNodup⟩
  colors := ⟨hg.colors.black, hg.colors.udata⟩
  kinds := by
    intro x hx
    refine hg.kinds x ?_
    simp only [GlobalState.remarkWeak, graylists, List.mem_append,
      List.not_mem_nil, or_false] at hx ⊢
    tauto

theorem Marking.remarkAgain (hg : g.Marking) : g.remarkAgain.Marking where
  noDead := hg.noDead
  closed := ⟨hg.closed.slots, hg.closed.roots, hg.closed.due⟩
  linked := ⟨hg.linked.main, hg.linked.fixed, hg.linked.fixedKinds,
    hg.linked.nodup,
    hg.linked.allocated, hg.linked.listed, hg.linked.due, hg.linked.dueNodup,
    hg.linked.strings, hg.linked.stringsNodup, hg.linked.table⟩
  upvals := ⟨hg.upvals.opened, hg.upvals.listed, hg.upvals.sorted,
    hg.upvals.uvhead, hg.upvals.uvheadNodup⟩
  colors := ⟨hg.colors.black, hg.colors.udata⟩
  kinds := by
    intro x hx
    refine hg.kinds x ?_
    simp only [GlobalState.remarkAgain, graylists, List.mem_append,
      List.not_mem_nil, false_or] at hx ⊢
    tauto

def remarkRoots (g : GlobalState) : GlobalState :=
  (g.markobject (.thread g.running)).markmt

theorem finishmark_eq (g : GlobalState) :
    g.finishmark =
      let g1 := g.remarkupvals.propagateall
      let g2 := g1.remarkWeak.remarkRoots.propagateall
      let g3 := g2.remarkAgain.propagateall
      let g4 := (g3.separateudata false).marktmu.propagateall
      g4.cleartable g4.weak := rfl

/-- The atomic step has come so far, and this is still to be handled. -/
structure Remarked (g g' : GlobalState) (todo : GCObject -> Prop) : Prop where
  marking : g'.Marking
  keeps : KeepsDark g g'
  gray : g'.gray = []
  settled : g'.SettledBut todo

theorem Inv.remarkedUpvals (hg : g.Inv) (hstate : g.gcstate = .propagate) :
    Remarked g g.remarkupvals.propagateall fun x =>
      x ∈ g.remarkupvals.propagateall.grayagain ∨
        x ∈ g.remarkupvals.propagateall.weak ∨
        g.remarkupvals.propagateall.Due x := by
  have hmarks := g.marks_remarkupvals
  have hmarking := (hg.marking hstate).advances hmarks.advances
  rcases propagateall_settles hmarking (hg.remarkupvals hstate) with
    ⟨hadv, hnil, hset⟩
  refine ⟨hmarking.advances hadv, hmarks.keepsDark.trans hadv.keepsDark, hnil,
    hset.mono ?_⟩
  intro x _ hx
  rcases hx with hx | hx | hx
  · rw [← hmarks.grayagain] at hx
    exact Or.inl (Or.inl (hadv.again x hx))
  · rw [← hmarks.weak] at hx
    exact Or.inl (Or.inr (Or.inl (hadv.weak x hx)))
  · exact Or.inl (Or.inr (Or.inr ((hadv.links.due x).mpr
      ((hmarks.sameLinks.due x).mpr hx))))

theorem marks_remarkRoots (g : GlobalState) : Marks g g.remarkRoots :=
  (g.marks_markobject _).trans (marks_markobjects _ _)

theorem dark_remarkRoots (g : GlobalState) {x : GCObject}
    (hx : x ∈ GCObject.thread g.running :: g.metatables) :
    g.remarkRoots.iswhite x = false := by
  have hmt : (g.markobject (.thread g.running)).metatables = g.metatables := by
    rw [(g.marks_markobject _).frame]
    rfl
  rcases List.mem_cons.mp hx with rfl | hx
  · exact (marks_markobjects _ _).dark (g.dark_markobject _)
  · exact dark_markobjects _ (hmt ▸ hx)

theorem Marking.remarkedWeak (hg : g.Marking)
    (hset : g.SettledBut fun x => x ∈ g.grayagain ∨ x ∈ g.weak ∨ g.Due x) :
    (Remarked g g.remarkWeak.remarkRoots.propagateall fun x =>
      x ∈ g.remarkWeak.remarkRoots.propagateall.grayagain ∨
        g.remarkWeak.remarkRoots.propagateall.Due x) ∧
      forall x, x ∈ GCObject.thread g.running :: g.metatables ->
        g.remarkWeak.remarkRoots.propagateall.iswhite x = false := by
  have hset1 : g.remarkWeak.SettledBut fun x =>
      x ∈ g.remarkWeak.gray ∨ x ∈ g.grayagain ∨ g.Due x := by
    refine hset.recolor (fun _ _ _ _ hy => hy) ?_
    intro x hx
    refine Or.inl ⟨hx, ?_⟩
    intro hmem
    rcases hmem with (hp | hp | hp) | ⟨t, rfl, hmem, _⟩
    · exact Or.inl (Or.inr (Or.inl hp))
    · exact Or.inl (Or.inl hp)
    · exact Or.inl (Or.inr (Or.inr hp))
    · exact Or.inl (Or.inl hmem)
  have hmarks := g.remarkWeak.marks_remarkRoots
  have hroots := fun x => @dark_remarkRoots g.remarkWeak x
  have hmarking := hg.remarkWeak.advances hmarks.advances
  rcases propagateall_settles hmarking (hmarks.settledBut hset1) with
    ⟨hadv, hnil, hset2⟩
  have hkeep := hmarks.keepsDark.trans hadv.keepsDark
  refine ⟨⟨hmarking.advances hadv, ⟨hkeep.roots, hkeep.oldRoots, hkeep.dark⟩,
    hnil, hset2.mono ?_⟩, fun x hx => hadv.dark x (hroots x hx)⟩
  intro x _ hx
  rcases hx with hx | hx
  · have hmid : x ∈ g.remarkWeak.remarkRoots.grayagain := by
      rw [hmarks.grayagain]
      exact hx
    exact Or.inl (Or.inl (hadv.again x hmid))
  · exact Or.inl (Or.inr ((hadv.links.due x).mpr
      ((hmarks.sameLinks.due x).mpr hx)))

theorem Marking.remarkedAgain (hg : g.Marking)
    (hset : g.SettledBut fun x => x ∈ g.grayagain ∨ g.Due x) :
    Remarked g g.remarkAgain.propagateall g.remarkAgain.propagateall.Due := by
  have hset1 : g.remarkAgain.SettledBut fun x =>
      x ∈ g.remarkAgain.gray ∨ g.remarkAgain.Due x := hset
  rcases propagateall_settles hg.remarkAgain hset1 with ⟨hadv, hnil, hset2⟩
  have hkeep := hadv.keepsDark
  refine ⟨hg.remarkAgain.advances hadv, ⟨hkeep.roots, hkeep.oldRoots,
    hkeep.dark⟩, hnil, hset2.mono ?_⟩
  intro x _ hx
  exact Or.inl ((hadv.links.due x).mpr hx)

theorem Marking.remarkedDue (hg : g.Marking) (hgray : g.gray = [])
    (hset : g.SettledBut g.Due) :
    (Remarked g (g.separateudata false).marktmu.propagateall
      fun _ => False) ∧
      forall x, (g.separateudata false).marktmu.propagateall.Due x ->
        (g.separateudata false).marktmu.propagateall.iswhite x = false := by
  rcases hg.separateudata false with ⟨hsep, hdue⟩
  have hmain := hg.linked.main
  have hsepset := hset.separateudata hmain false
  rcases separateudata_spec hmain false with ⟨g0, due, hfin, hstate, _, _⟩
  have hkeep : KeepsDark g (g.separateudata false) := by
    rw [hstate]
    refine ⟨?_, ?_, ?_⟩
    · rw [hfin.frame]
      rfl
    · rw [hfin.frame]
      rfl
    · intro x hx
      exact (iswhite_eq_of_color? (color?_eq_of_marked hfin.marked)).trans hx
  have hnil : (g.separateudata false).gray = [] := by
    rw [hstate, hfin.frame]
    exact hgray
  generalize g.separateudata false = s at hsep hdue hsepset hkeep hnil ⊢
  rcases hsep.marktmu s.tmudata (fun _ hn => hn) (hsepset.mono fun x _ hx =>
      Or.inl (Or.inr (hdue x hx))) with ⟨hmarks, hset1, hdark⟩
  have hmarking := hsep.advances hmarks.advances
  rcases propagateall_settles hmarking hset1 with ⟨hadv, hnil', hset2⟩
  refine ⟨⟨hmarking.advances hadv,
    hkeep.trans (hmarks.keepsDark.trans hadv.keepsDark), hnil', hset2⟩, ?_⟩
  intro x hx
  rcases (hadv.links.due x).mp hx with ⟨n, rfl, hn⟩
  rw [hmarks.sameLinks.tmudata] at hn
  exact hadv.dark _ (hdark n hn)

theorem Clears.marking (h : Clears g g') (hg : g.Marking) : g'.Marking := by
  have hdead : forall x, g'.isdead x = false := by
    intro x
    cases hx : g'.isdead x with
    | false => rfl
    | true =>
        have hcolor := isdead_iff.mp hx
        rw [h.white x (iswhite_iff.mpr ⟨_, hcolor⟩)] at hcolor
        have hcw : g'.currentwhite = g.currentwhite := by rw [h.frame]
        rw [hcw] at hcolor
        exact absurd ((isdead_iff.mpr hcolor).symm.trans (hg.noDead x))
          Bool.noConfusion
  have hroots : g'.roots = g.roots := h.keepsDark.roots
  have halive : forall x, g'.Alive x <-> g.Alive x := by
    intro x
    rw [Alive, Alive, h.sameLinks.allocated, hdead, hg.noDead]
  refine ⟨hdead, ⟨?_, ?_, ?_⟩, h.sameLinks.linked hg.linked,
    h.sameLinks.upvals hg.upvals, ⟨?_, ?_⟩, ?_⟩
  · intro x y hx hy
    rw [halive] at hx ⊢
    exact hg.closed.slots x y hx (h.slots x y hy)
  · intro x hx
    rw [halive]
    exact hg.closed.roots x (hroots ▸ hx)
  · intro n hn
    rw [halive]
    exact hg.closed.due n (h.sameLinks.tmudata ▸ hn)
  · intro x hx
    rw [h.sameLinks.blackens]
    by_cases hstring : exists n, x = .string n
    · rcases hstring with ⟨n, rfl⟩
      exact hg.colors.black _ (h.string n hx)
    · exact hg.colors.black x ((isblack_eq_of_color?
        (h.other x fun n hn => hstring ⟨n, hn⟩)).symm.trans hx)
  · intro n
    rw [isgray_eq_of_color? (h.other _ fun _ => GCObject.noConfusion)]
    exact hg.colors.udata n
  · intro x hx
    have hlists : g'.graylists = g.graylists := by
      rw [h.frame]
      rfl
    rw [hlists] at hx
    exact hg.kinds x hx

/-- What holds when all is marked. -/
structure Finished (g : GlobalState) : Prop where
  marking : g.Marking
  covered : forall x y, g.Dark x -> y ∈ g.slots x -> g.Dark y
  roots : forall x, x ∈ g.roots -> g.Dark x
  due : forall n, n ∈ g.tmudata -> g.Dark (.udata n)

theorem Inv.finishmark (hg : g.Inv) (hstate : g.gcstate = .propagate) :
    g.finishmark.Finished := by
  have h1 := hg.remarkedUpvals hstate
  rw [finishmark_eq]
  simp only
  generalize g.remarkupvals.propagateall = g1 at h1 ⊢
  rcases h1.marking.remarkedWeak h1.settled with ⟨h2, hroots⟩
  generalize g1.remarkWeak.remarkRoots.propagateall = g2 at h2 hroots ⊢
  have h3 := h2.marking.remarkedAgain h2.settled
  generalize g2.remarkAgain.propagateall = g3 at h3 ⊢
  rcases h3.marking.remarkedDue h3.gray h3.settled with ⟨h4, hdue⟩
  generalize (g3.separateudata false).marktmu.propagateall = g4 at h4 hdue ⊢
  have hweakly : Library.Tricolor g4.Dark g4.White (g4.WeaklyIn g4.weak)
      g4.slots := by
    refine h4.settled.recolor (fun _ _ _ _ hy => hy) ?_
    intro x hx
    exact Or.inl ⟨hx, fun hp => hp.resolve_left id⟩
  rcases cleartable_covers g4.weak hweakly with ⟨hclears, hall⟩
  have hmarking := hclears.marking h4.marking
  have htail := (h3.keeps.trans h4.keeps).trans hclears.keepsDark
  have hkeep := (h1.keeps.trans h2.keeps).trans htail
  refine ⟨hmarking, ?_, ?_, ?_⟩
  · intro x y hx hy
    exact ⟨(hmarking.closed.slots x y ⟨hx.1, hmarking.noDead x⟩ hy).1,
      Bool.eq_false_of_not_eq_true (hall.finish (fun _ => id) hx hy)⟩
  · intro x hx
    refine ⟨(hmarking.closed.roots x hx).1, ?_⟩
    rw [hkeep.roots, ← h1.keeps.roots] at hx
    have hold : x ∈ g1.oldRoots ->
        (g4.cleartable g4.weak).iswhite x = false := by
      intro hx
      rw [h1.keeps.oldRoots] at hx
      exact hkeep.dark x ((hg.propagating hstate).marked x hx)
    have hnew := fun hx => htail.dark x (hroots x hx)
    simp only [GlobalState.roots, List.mem_append, List.mem_cons,
      List.not_mem_nil, or_false] at hx
    rcases hx with ((rfl | rfl) | hx) | hx
    · exact hold List.mem_cons_self
    · exact hnew List.mem_cons_self
    · exact hold (List.mem_cons_of_mem _ hx)
    · exact hnew (List.mem_cons_of_mem _ hx)
  · intro n hn
    refine ⟨(hmarking.closed.due n hn).1, hclears.dark _ (hdue _ ⟨n, rfl, ?_⟩)⟩
    rw [hclears.sameLinks.tmudata] at hn
    exact hn

/-- The flip of the white makes dead what has not been marked. -/
theorem alive_flip (hg : g.Marking) (h : g' = { g with
      currentwhite := !g.currentwhite
      sweepstrgc := g'.sweepstrgc
      passed := g'.passed
      sweepgc := g'.sweepgc
      gcstate := g'.gcstate }) (x : GCObject) :
    g'.Alive x <-> g.Dark x := by
  have hmarked : g'.marked = g.marked := by rw [h]
  have hcolor : g'.color? x = g.color? x := color?_eq_of_marked hmarked
  have hcw : g'.currentwhite = !g.currentwhite := by rw [h]
  have halloc : g'.Allocated x <-> g.Allocated x := by
    rw [Allocated, hmarked]
    rfl
  rw [Alive, Dark, halloc]
  refine and_congr_right fun _ => ?_
  cases hwhite : g.iswhite x with
  | false =>
      have hdark := (iswhite_eq_of_color? hcolor).trans hwhite
      simp [isdead_of_dark hdark]
  | true =>
      have hc := color?_of_iswhite (hg.noDead x) hwhite
      have hdead : g'.isdead x = true := by
        rw [isdead_iff, hcolor, hc, hcw, Bool.not_not]
      simp [hdead]

theorem Inv.atomic (hg : g.Inv) (hstate : g.gcstate = .propagate) :
    g.atomic.Inv := by
  have hfin := hg.finishmark hstate
  unfold GlobalState.atomic
  generalize g.finishmark = s at hfin ⊢
  simp only
  have halive : forall x,
      Alive
        { s with
          currentwhite := !s.currentwhite
          sweepstrgc := 0
          passed := []
          sweepgc := s.rootgc
          gcstate := .sweepstring } x <-> s.Dark x :=
    fun x => alive_flip hfin.marking rfl x
  have hm := hfin.marking
  refine ⟨⟨?_, ?_, ?_⟩, ⟨hm.linked.main, hm.linked.fixed, hm.linked.fixedKinds,
      hm.linked.nodup,
      hm.linked.allocated, hm.linked.listed, hm.linked.due,
      hm.linked.dueNodup, hm.linked.strings, hm.linked.stringsNodup,
      hm.linked.table⟩,
    ⟨hm.upvals.opened, hm.upvals.listed, hm.upvals.sorted, hm.upvals.uvhead,
      hm.upvals.uvheadNodup⟩,
    ⟨hm.colors.black, hm.colors.udata⟩, ?_, ?_⟩
  · intro x y hx hy
    rw [halive] at hx ⊢
    exact hfin.covered x y hx hy
  · intro x hx
    rw [halive]
    exact hfin.roots x hx
  · intro n hn
    rw [halive]
    exact hfin.due n hn
  · intro h
    cases h
  · intro _ x hx
    right
    have halloc : s.Allocated x := hx
    by_cases hstring : exists n, x = .string n
    · rcases hstring with ⟨n, rfl⟩
      exact Or.inl (Or.inl ⟨rfl, n, rfl, (hm.linked.strings n).mp halloc⟩)
    · by_cases hopen : s.OpenUpval x
      · rcases hopen with ⟨n, rfl, hn⟩
        unfold isOpened at hn
        cases hup : s.upval n with
        | closed v =>
            rw [hup] at hn
            cases hn
        | opened th l =>
            have hth := (hm.upvals.opened n th l halloc hup).1
            exact Or.inl (Or.inr ⟨Or.inl rfl, Or.inr ⟨n, th, l, rfl, hup,
              hm.linked.traversed hth rfl⟩⟩)
      · have hrooted : s.rooted x = true := by
          cases x with
          | string n => exact absurd ⟨n, rfl⟩ hstring
          | upval n =>
              rw [rooted_upval]
              cases hn : s.isOpened n with
              | false => rfl
              | true => exact absurd ⟨n, rfl, hn⟩ hopen
          | _ => rfl
        rcases hm.linked.listed x halloc hrooted with hmem | hdue
        · exact Or.inl (Or.inr ⟨Or.inl rfl, Or.inl hmem⟩)
        · exact Or.inr hdue

end GlobalState
end Gc
end LuaServer
