import LuaServer.Gc.Atomic

/-!
# The separation of userdata

`luaC_separateudata` moves the userdata whose finalizer is due from the list
after the main thread to the end of `tmudata`.
-/

namespace LuaServer
namespace Gc
namespace GlobalState

variable {g g' g'' : GlobalState}

/-- Some userdata have been marked as finalized. -/
structure Finalizes (g g' : GlobalState) : Prop where
  frame : g' = { g with objs := g'.objs }
  other : forall x, (forall n, x ≠ .udata n) -> g'.objs x = g.objs x
  metatable : forall n, (g'.udata n).metatable = (g.udata n).metatable
  env : forall n, (g'.udata n).env = (g.udata n).env
  finalized : forall n, (g.udata n).finalized = true ->
    (g'.udata n).finalized = true

namespace Finalizes

theorem refl (g : GlobalState) : Finalizes g g :=
  ⟨rfl, fun _ _ => rfl, fun _ => rfl, fun _ => rfl, fun _ h => h⟩

theorem trans (h : Finalizes g g') (h' : Finalizes g' g'') :
    Finalizes g g'' where
  frame := by
    rw [h'.frame, h.frame]
  other := fun x hx => (h'.other x hx).trans (h.other x hx)
  metatable := fun n => (h'.metatable n).trans (h.metatable n)
  env := fun n => (h'.env n).trans (h.env n)
  finalized := fun n hn => h'.finalized n (h.finalized n hn)

theorem marked (h : Finalizes g g') : g'.marked = g.marked := by
  rw [h.frame]

theorem slots (h : Finalizes g g') (x : GCObject) : g'.slots x = g.slots x := by
  have hup := fun n =>
    h.other (.upval n) fun _ => GCObject.noConfusion
  have hth := fun n =>
    h.other (.thread n) fun _ => GCObject.noConfusion
  cases x with
  | string n => rfl
  | udata n =>
      simp only [GlobalState.slots, Udata.slots, h.metatable, h.env]
  | upval n =>
      simp only [GlobalState.slots, upvalValue, stackAt, upval, thread, hup, hth]
  | function n =>
      simp only [GlobalState.slots, function,
        h.other (.function n) fun _ => GCObject.noConfusion]
  | table n =>
      simp only [GlobalState.slots, table,
        h.other (.table n) fun _ => GCObject.noConfusion]
  | thread n => simp only [GlobalState.slots, thread, hth]
  | proto n =>
      simp only [GlobalState.slots, proto,
        h.other (.proto n) fun _ => GCObject.noConfusion]

theorem sameLinks (h : Finalizes g g') : SameLinks g g' where
  allocated := by
    intro x
    rw [Allocated, h.marked]
    rfl
  fixed := by
    intro x
    rw [h.marked]
  rootgc := by
    rw [h.frame]
    rfl
  tmudata := by rw [h.frame]
  strt := by rw [h.frame]
  uvhead := by rw [h.frame]
  mainthread := by rw [h.frame]
  opened := by
    intro n th l
    rw [upval, h.other (.upval n) fun _ => GCObject.noConfusion]
    rfl
  openupval := by
    intro th
    rw [thread, h.other (.thread th) fun _ => GCObject.noConfusion]
    rfl
  stack := by
    intro n th l _ _ hl
    rw [thread, h.other (.thread th) fun _ => GCObject.noConfusion]
    exact hl

end Finalizes

theorem finalizes_markfinalized (g : GlobalState) (n : Nat) :
    Finalizes g (g.markfinalized n) := by
  refine ⟨rfl, ?_, ?_, ?_, ?_⟩
  · intro x hx
    exact objs_write_of_ne g (.udata n) _ (hx n)
  · intro m
    rw [markfinalized, udata_setUdata]
    split
    · rename_i hm
      rw [hm]
    · rfl
  · intro m
    rw [markfinalized, udata_setUdata]
    split
    · rename_i hm
      rw [hm]
    · rfl
  · intro m hm
    rw [markfinalized, udata_setUdata]
    split
    · rfl
    · exact hm

/-- The loop only sorts the list into what stays and what is due. -/
theorem separateLoop_spec (all : Bool) (g : GlobalState)
    (l : List GCObject) :
    Finalizes g (separateLoop all g l).1 ∧
      l.Perm ((separateLoop all g l).2.1 ++
        (separateLoop all g l).2.2.map GCObject.udata) := by
  induction l generalizing g with
  | nil => exact ⟨Finalizes.refl g, List.Perm.refl _⟩
  | cons x rest ih =>
      cases x with
      | udata curr =>
          rw [separateLoop]
          split
          · rcases ih g with ⟨hfin, hperm⟩
            exact ⟨hfin, hperm.cons _⟩
          · split
            · rcases ih (g.markfinalized curr) with ⟨hfin, hperm⟩
              exact ⟨(g.finalizes_markfinalized curr).trans hfin, hperm.cons _⟩
            · rcases ih (g.markfinalized curr) with ⟨hfin, hperm⟩
              refine ⟨(g.finalizes_markfinalized curr).trans hfin, ?_⟩
              exact (hperm.cons _).trans List.perm_middle.symm
      | _ =>
          rcases ih g with ⟨hfin, hperm⟩
          exact ⟨hfin, hperm.cons _⟩

theorem dropWhile_ne_split (m : GCObject) {l : List GCObject} (h : m ∈ l) :
    exists pre,
      l = (pre ++ [m]) ++ (l.dropWhile fun x => decide (x ≠ m)).tail := by
  induction l with
  | nil => cases h
  | cons x rest ih =>
      by_cases hx : x = m
      · refine ⟨[], ?_⟩
        rw [List.dropWhile_cons_of_neg (by simp [hx]), hx]
        rfl
      · have hrest : m ∈ rest := by
          rcases List.mem_cons.mp h with heq | hrest
          · exact absurd heq.symm hx
          · exact hrest
        rcases ih hrest with ⟨pre, hpre⟩
        refine ⟨x :: pre, ?_⟩
        rw [List.dropWhile_cons_of_pos (by simp [hx])]
        exact congrArg (x :: ·) hpre

theorem rootgc_split (h : .thread g.mainthread ∈ g.rootgc) :
    g.rootgc =
      g.rootgc.take (g.rootgc.length - g.udataList.length) ++ g.udataList ∧
      .thread g.mainthread ∈
        g.rootgc.take (g.rootgc.length - g.udataList.length) := by
  rcases dropWhile_ne_split _ h with ⟨pre, hpre⟩
  have htake : g.rootgc.take (g.rootgc.length - g.udataList.length) =
      pre ++ [.thread g.mainthread] := by
    have hlength := congrArg List.length hpre
    rw [List.length_append] at hlength
    have hcount : g.rootgc.length - g.udataList.length =
        (pre ++ [GCObject.thread g.mainthread]).length := by
      unfold udataList
      omega
    rw [hcount]
    rw [hpre]
    exact List.take_left
  rw [htake]
  exact ⟨hpre, by simp⟩

theorem separateudata_spec (hmain : .thread g.mainthread ∈ g.rootgc)
    (all : Bool) :
    exists g0 due,
      Finalizes g g0 ∧
      g.separateudata all =
        { g0 with
          passed := (g.separateudata all).passed
          sweepgc := (g.separateudata all).sweepgc
          tmudata := g.tmudata ++ due } ∧
      g.rootgc.Perm
        ((g.separateudata all).rootgc ++ due.map GCObject.udata) ∧
      .thread g.mainthread ∈ (g.separateudata all).rootgc := by
  rcases separateLoop_spec all g g.udataList with ⟨hfin, hperm⟩
  rcases rootgc_split hmain with ⟨hsplit, hmem⟩
  refine ⟨_, (separateLoop all g g.udataList).2.2, hfin, rfl, ?_, ?_⟩
  · have hroot : (g.separateudata all).rootgc =
        g.rootgc.take (g.rootgc.length - g.udataList.length) ++
          (separateLoop all g g.udataList).2.1 :=
      List.append_nil _
    rw [hroot, List.append_assoc]
    nth_rewrite 1 [hsplit]
    exact hperm.append_left _
  · exact List.mem_append_left _ (List.mem_append_left _ hmem)

theorem Marking.separateudata (hg : g.Marking) (all : Bool) :
    (g.separateudata all).Marking ∧
      forall x, g.Due x -> (g.separateudata all).Due x := by
  rcases separateudata_spec hg.linked.main all with
    ⟨g0, due, hfin, hstate, hperm, hmain⟩
  generalize g.separateudata all = s at hstate hperm hmain
  have hlinks := hfin.sameLinks
  have hlinked0 := hlinks.linked hg.linked
  have hupvals0 := hlinks.upvals hg.upvals
  have hmarked : s.marked = g.marked := by
    rw [hstate]
    exact hfin.marked
  have hslots : s.slots = g.slots := by
    rw [hstate]
    exact funext hfin.slots
  have hroots : s.roots = g.roots := by
    rw [hstate, hfin.frame]
    rfl
  have htm : s.tmudata = g.tmudata ++ due := by rw [hstate]
  have hmt : s.mainthread = g.mainthread := by
    rw [hstate, hfin.frame]
  have hcolor : s.color? = g.color? := by
    funext x
    exact color?_eq_of_marked hmarked
  have halloc : s.Allocated = g.Allocated := by
    funext x
    rw [Allocated, hmarked]
    rfl
  have hcw : s.currentwhite = g.currentwhite := by
    rw [hstate, hfin.frame]
  have hdead : s.isdead = g.isdead := by
    funext x
    rw [isdead, hcolor, hcw]
    rfl
  have halive : s.Alive = g.Alive := by
    funext x
    rw [Alive, halloc, hdead]
    rfl
  have hrooted : s.rooted = g.rooted := by
    rw [hstate]
    exact funext hlinks.rooted
  have hblackens : s.blackens = g.blackens := by
    rw [hstate]
    exact funext hlinks.blackens
  have hmem : forall x, x ∈ g.rootgc <->
      x ∈ s.rootgc ∨ exists n, x = .udata n ∧ n ∈ due := by
    intro x
    rw [hperm.mem_iff, List.mem_append, List.mem_map]
    simp only [eq_comm, and_comm]
  have hnodup := hperm.nodup_iff.mp hg.linked.nodup
  rw [List.nodup_append] at hnodup
  have hdisjoint : forall n, n ∈ due -> .udata n ∉ s.rootgc :=
    fun n hn hs => hnodup.2.2 _ hs _ (List.mem_map_of_mem hn) rfl
  have hduelive : forall n, n ∈ due -> g.Allocated (.udata n) :=
    fun n hn => (hg.linked.allocated _
      ((hmem _).mpr (Or.inr ⟨n, rfl, hn⟩))).1
  refine ⟨⟨?_, ⟨?_, ?_, ?_⟩, ⟨?_, ?_, ?_, hnodup.1, ?_, ?_, ?_, ?_, ?_, ?_, ?_⟩,
    ?_, ⟨?_, ?_⟩, ?_⟩, ?_⟩
  · rw [hdead]
    exact hg.noDead
  · rw [halive, hslots]
    exact hg.closed.slots
  · rw [halive, hroots]
    exact hg.closed.roots
  · intro n hn
    rw [halive]
    rw [htm] at hn
    rcases List.mem_append.mp hn with hn | hn
    · exact hg.closed.due n hn
    · exact ⟨hduelive n hn, hg.noDead _⟩
  · rw [hmt]
    exact hmain
  · rw [hmt, hmarked]
    exact hg.linked.fixed
  · rw [hmt, hmarked]
    exact hg.linked.fixedKinds
  · intro x hx
    rw [halloc, hrooted]
    exact hg.linked.allocated x ((hmem x).mpr (Or.inl hx))
  · intro x hx hr
    rw [halloc] at hx
    rw [hrooted] at hr
    rcases hg.linked.listed x hx hr with hx | ⟨n, rfl, hn⟩
    · rcases (hmem x).mp hx with hx | ⟨n, rfl, hn⟩
      · exact Or.inl hx
      · exact Or.inr ⟨n, rfl, htm ▸ List.mem_append_right _ hn⟩
    · exact Or.inr ⟨n, rfl, htm ▸ List.mem_append_left _ hn⟩
  · intro n hn
    rw [halloc]
    rw [htm] at hn
    rcases List.mem_append.mp hn with hn | hn
    · exact ⟨(hg.linked.due n hn).1,
        fun hs => (hg.linked.due n hn).2 ((hmem _).mpr (Or.inl hs))⟩
    · exact ⟨hduelive n hn, hdisjoint n hn⟩
  · rw [htm, List.nodup_append]
    refine ⟨hg.linked.dueNodup, List.Nodup.of_map _ hnodup.2.1, ?_⟩
    intro m hm n hn heq
    subst heq
    exact (hg.linked.due m hm).2 ((hmem _).mpr (Or.inr ⟨m, rfl, hn⟩))
  · intro n
    rw [halloc, strings, show s.strt = g.strt by rw [hstate, hfin.frame]]
    exact hg.linked.strings n
  · rw [strings, show s.strt = g.strt by rw [hstate, hfin.frame]]
    exact hg.linked.stringsNodup
  · rw [show s.strt = g.strt by rw [hstate, hfin.frame]]
    exact hg.linked.table
  · rw [hstate]
    exact ⟨hupvals0.opened, hupvals0.listed, hupvals0.sorted, hupvals0.uvhead,
      hupvals0.uvheadNodup⟩
  · intro x hx
    rw [hblackens]
    unfold isblack at hx
    rw [hcolor] at hx
    exact hg.colors.black x hx
  · intro n
    unfold isgray
    rw [hcolor]
    exact hg.colors.udata n
  · intro x hx
    have hlists : s.graylists = g.graylists := by
      rw [hstate, hfin.frame]
      rfl
    rw [hlists] at hx
    exact hg.kinds x hx
  · intro x hn
    rcases hn with ⟨n, rfl, hn⟩
    exact ⟨n, rfl, htm ▸ List.mem_append_left _ hn⟩

theorem SettledBut.congr {todo : GCObject -> Prop} (hg : g.SettledBut todo)
    (hmarked : g'.marked = g.marked) (hslots : g'.slots = g.slots)
    (hweak : g'.weak = g.weak) (htable : forall t, g'.table t = g.table t) :
    g'.SettledBut todo := by
  have hcolor : g'.color? = g.color? := funext fun x => color?_eq_of_marked hmarked
  have hwhite : g'.iswhite = g.iswhite :=
    funext fun x => iswhite_eq_of_color? (congrFun hcolor x)
  unfold SettledBut
  rw [hslots]
  refine hg.recolor ?_ ?_
  · intro x y _ _ hy
    exact (congrFun hwhite y).symm.trans hy
  · intro x hx
    refine Or.inl ⟨⟨?_, ?_⟩, ?_⟩
    · unfold Dark Allocated at hx
      rw [hmarked] at hx
      exact hx.1
    · exact (congrFun hwhite x).symm.trans hx.2
    · intro hstrong
      rcases hstrong with hp | ⟨t, rfl, hmem, hstrong⟩
      · exact Or.inl hp
      · refine Or.inr ⟨t, rfl, hweak ▸ hmem, ?_⟩
        intro y hy
        rw [htable] at hy
        rw [hwhite]
        exact hstrong y hy

theorem SettledBut.separateudata {todo : GCObject -> Prop}
    (hg : g.SettledBut todo) (hmain : .thread g.mainthread ∈ g.rootgc)
    (all : Bool) : (g.separateudata all).SettledBut todo := by
  rcases separateudata_spec hmain all with ⟨g0, due, hfin, hstate, _, _⟩
  refine hg.congr ?_ ?_ ?_ ?_
  · rw [hstate]
    exact hfin.marked
  · rw [hstate]
    exact funext hfin.slots
  · rw [hstate, hfin.frame]
  · intro t
    rw [hstate]
    exact hfin.other (.table t) fun _ => GCObject.noConfusion

end GlobalState
end Gc
end LuaServer
