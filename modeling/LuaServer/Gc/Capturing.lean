import LuaServer.Gc.Allocation

/-!
# Closures and the upvalues they capture

`luaF_findupval` keeps one open upvalue for a slot of the stack, in the order of
the slots, and the closures of Lua functions are built from what it returns.
-/

namespace LuaServer
namespace Gc
namespace GlobalState

variable {g g' : GlobalState}

/-!
# The place of a new open upvalue
-/

theorem findLoop_some {limit n : Nat} {ns : List Nat}
    (h : findLoop g limit ns = some n) : n ∈ ns ∧ g.level n = limit := by
  induction ns with
  | nil => cases h
  | cons m rest ih =>
      rw [findLoop] at h
      split at h
      · split at h
        · rename_i hlevel
          cases h
          exact ⟨List.mem_cons_self, hlevel⟩
        · rcases ih h with ⟨hmem, hlevel⟩
          exact ⟨List.mem_cons_of_mem m hmem, hlevel⟩
      · cases h

/-- The search stops early, but only where no slot can match any more. -/
theorem findLoop_none {limit : Nat} {ns : List Nat}
    (hsorted : ns.Pairwise fun m k => g.level k < g.level m)
    (h : findLoop g limit ns = none) {n : Nat} (hn : n ∈ ns) :
    g.level n ≠ limit := by
  induction ns with
  | nil => cases hn
  | cons m rest ih =>
      rcases List.pairwise_cons.mp hsorted with ⟨hfirst, hrest⟩
      rw [findLoop] at h
      split at h
      · split at h
        · cases h
        · rename_i hne
          rcases List.mem_cons.mp hn with rfl | hn
          · exact hne
          · exact ih hrest h hn
      · rename_i hlimit
        have hm : g.level m < limit := Nat.lt_of_not_le hlimit
        rcases List.mem_cons.mp hn with rfl | hn
        · exact Nat.ne_of_lt hm
        · exact Nat.ne_of_lt (Nat.lt_trans (hfirst n hn) hm)

theorem mem_chainLoop {limit uv m : Nat} {ns : List Nat} :
    m ∈ chainLoop g limit uv ns <-> m = uv ∨ m ∈ ns := by
  induction ns with
  | nil => simp [chainLoop]
  | cons n rest ih =>
      rw [chainLoop]
      split
      · rw [List.mem_cons, ih, List.mem_cons]
        exact or_left_comm
      · rw [List.mem_cons]

theorem sorted_chainLoop {limit uv : Nat} {ns : List Nat}
    (hsorted : ns.Pairwise fun m k => g.level k < g.level m)
    (hne : forall n, n ∈ ns -> g.level n ≠ limit)
    (hold : forall n, n ∈ ns -> g'.level n = g.level n)
    (huv : g'.level uv = limit) :
    (chainLoop g limit uv ns).Pairwise fun m k => g'.level k < g'.level m := by
  induction ns with
  | nil => exact List.pairwise_singleton _ _
  | cons n rest ih =>
      rcases List.pairwise_cons.mp hsorted with ⟨hfirst, hrest⟩
      have hlevel := hold n List.mem_cons_self
      rw [chainLoop]
      split
      · rename_i hlimit
        refine List.pairwise_cons.mpr ⟨?_, ih hrest
          (fun m hm => hne m (List.mem_cons_of_mem n hm))
          fun m hm => hold m (List.mem_cons_of_mem n hm)⟩
        intro m hm
        rw [hlevel]
        rcases mem_chainLoop.mp hm with rfl | hm
        · rw [huv]
          exact Nat.lt_of_le_of_ne hlimit (hne n List.mem_cons_self).symm
        · rw [hold m (List.mem_cons_of_mem n hm)]
          exact hfirst m hm
      · rename_i hlimit
        have hn : g.level n < limit := Nat.lt_of_not_le hlimit
        refine List.pairwise_cons.mpr ⟨?_, List.pairwise_cons.mpr ⟨?_, ?_⟩⟩
        · intro m hm
          rw [huv, hold m hm]
          rcases List.mem_cons.mp hm with rfl | hm
          · exact hn
          · exact Nat.lt_trans (hfirst m hm) hn
        · intro m hm
          rw [hlevel, hold m (List.mem_cons_of_mem n hm)]
          exact hfirst m hm
        · refine hrest.imp_of_mem ?_
          intro m k hm hk hmk
          rw [hold m (List.mem_cons_of_mem n hm),
            hold k (List.mem_cons_of_mem n hk)]
          exact hmk

/-!
# luaF_findupval
-/

/-- An upvalue that is found or made is alive, and nothing else changes. -/
structure Captured (g g' : GlobalState) (n : Nat) : Prop where
  inv : g'.Inv
  alive : forall x, g.Alive x -> g'.Alive x
  self : g'.Alive (.upval n)
  color : forall x, (forall m, x ≠ .upval m) -> g'.color? x = g.color? x
  running : g'.running = g.running
  stack : (g'.thread g'.running).stack = (g.thread g.running).stack

def openupval (g : GlobalState) (th level uv : Nat) : GlobalState :=
  { (g.create (.upval uv) (.opened th level)).setOpenupval th
      (chainLoop g level uv (g.thread th).openupval) with
    uvhead := uv :: g.uvhead }

theorem thread_openupval (th level uv t : Nat) :
    (g.openupval th level uv).thread t =
      if t = th then
        { g.thread th with
          openupval := chainLoop g level uv (g.thread th).openupval }
      else g.thread t := by
  have hcreate : forall t, (g.create (.upval uv) (.opened th level)).thread t =
      g.thread t :=
    fun t => objs_write_of_ne g (.upval uv) (.opened th level)
      (y := .thread t) GCObject.noConfusion
  have hset := thread_setOpenupval
    (g := g.create (.upval uv) (.opened th level)) th t
    (chainLoop g level uv (g.thread th).openupval)
  rw [hcreate, hcreate] at hset
  exact hset

theorem upval_openupval (th level uv n : Nat) :
    (g.openupval th level uv).upval n =
      if n = uv then .opened th level else g.upval n := by
  have hset := congrFun (upval_setOpenupval
    (g := g.create (.upval uv) (.opened th level)) th
    (chainLoop g level uv (g.thread th).openupval)) n
  exact hset.trans (upval_setUpval g uv n (.opened th level))

theorem slots_openupval {th level uv : Nat} (hfresh : ¬g.Allocated (.upval uv))
    {y : GCObject} (hy : g.Allocated y) :
    (g.openupval th level uv).slots y = g.slots y := by
  have hobjs : forall x, x ≠ .upval uv -> x ≠ .thread th ->
      (g.openupval th level uv).objs x = g.objs x := by
    intro x hx hth
    exact (objs_setOpenupval (g := g.create (.upval uv) (.opened th level)) th _
      hth).trans (objs_write_of_ne g (.upval uv) _ hx)
  have hglobals : forall t,
      ((g.openupval th level uv).thread t).globals = (g.thread t).globals := by
    intro t
    rw [thread_openupval]
    split
    · rename_i ht
      rw [ht]
    · rfl
  have hstack : forall t,
      ((g.openupval th level uv).thread t).stack = (g.thread t).stack := by
    intro t
    rw [thread_openupval]
    split
    · rename_i ht
      rw [ht]
    · rfl
  cases y with
  | string n => rfl
  | udata n =>
      simp only [slots, udata, hobjs (.udata n) GCObject.noConfusion
        GCObject.noConfusion]
  | function n =>
      simp only [slots, function, hobjs (.function n) GCObject.noConfusion
        GCObject.noConfusion]
  | table n =>
      simp only [slots, table, hobjs (.table n) GCObject.noConfusion
        GCObject.noConfusion]
  | proto n =>
      simp only [slots, proto, hobjs (.proto n) GCObject.noConfusion
        GCObject.noConfusion]
  | thread n => simp only [slots, Thread.slots, hglobals, hstack]
  | upval n =>
      have hn : n ≠ uv := by
        intro heq
        subst heq
        exact hfresh hy
      simp only [slots, upvalValue, upval_openupval, if_neg hn, stackAt, hstack]

theorem Inv.openupval (hg : g.Inv) {th level uv : Nat}
    (hth : g.Alive (.thread th)) (hfresh : ¬g.Allocated (.upval uv))
    (hlevel : level < (g.thread th).stack.length)
    (hnone : findLoop g level (g.thread th).openupval = none) :
    Created g (g.openupval th level uv) (.upval uv) ∧
      (g.openupval th level uv).Inv := by
  have hold : forall n, g.Allocated (.upval n) ->
      (g.openupval th level uv).upval n = g.upval n := by
    intro n hn
    rw [upval_openupval, if_neg]
    intro heq
    subst heq
    exact hfresh hn
  have hself : (g.openupval th level uv).upval uv = .opened th level := by
    rw [upval_openupval, if_pos rfl]
  have hcreated : Created g (g.openupval th level uv) (.upval uv) := by
    refine ⟨hfresh, rfl, fun y hy => slots_openupval hfresh hy, hold, ?_, ?_⟩
    · intro y hy
      simp only [slots, upvalValue, hself, stackAt, thread_openupval, if_pos]
        at hy
      rcases referents_getElem? hy with ⟨v, hget, hgc⟩
      refine hg.closed.slots _ y hth ?_
      exact mem_referents.mpr
        ⟨v, List.mem_cons_of_mem _ (List.mem_of_getElem? hget), hgc⟩
    · intro y hy ht
      rcases ht with ⟨hs, hstring⟩ | ⟨hs, hmem | ⟨n, t, l, rfl, hup, ht⟩⟩
      · exact Or.inl ⟨hs, hstring⟩
      · exact Or.inr ⟨hs, Or.inl hmem⟩
      · exact Or.inr ⟨hs, Or.inr ⟨n, t, l, rfl, (hold n hy).trans hup, ht⟩⟩
  have hopened : (g.openupval th level uv).isOpened uv = true := by
    unfold isOpened
    rw [hself]
  have hlevelOld : forall n, g.Allocated (.upval n) ->
      (g.openupval th level uv).level n = g.level n := by
    intro n hn
    unfold GlobalState.level
    rw [hold n hn]
  have hlist : forall t m,
      m ∈ ((g.openupval th level uv).thread t).openupval <->
        t = th ∧ m = uv ∨ m ∈ (g.thread t).openupval := by
    intro t m
    rw [thread_openupval]
    split
    · rename_i ht
      rw [ht]
      simp [mem_chainLoop]
    · rename_i ht
      simp [ht]
  have hstack : forall t, ((g.openupval th level uv).thread t).stack =
      (g.thread t).stack := by
    intro t
    rw [thread_openupval]
    split
    · rename_i ht
      rw [ht]
    · rfl
  refine ⟨hcreated, hcreated.inv hg (hcreated.linked hg.linked
    (Or.inr ⟨?_, rfl⟩) (Or.inr ⟨fun _ => GCObject.noConfusion,
      List.Perm.refl _⟩) hg.linked.table) ⟨?_, ?_, ?_, ?_, ?_⟩⟩
  · rw [rooted_upval, hopened]
    rfl
  · intro n t l halloc hup
    rw [hcreated.allocated, hlist]
    rcases (hcreated.allocated _).mp halloc with heq | halloc
    · cases heq
      rw [hself] at hup
      cases hup
      exact ⟨Or.inr hth.1, Or.inl ⟨rfl, rfl⟩⟩
    · rw [hold n halloc] at hup
      rcases hg.upvals.opened n t l halloc hup with ⟨ht, hmem⟩
      exact ⟨Or.inr ht, Or.inr hmem⟩
  · intro t n halloc hn
    have ht : g.Allocated (.thread t) :=
      ((hcreated.allocated _).mp halloc).resolve_left GCObject.noConfusion
    rw [hcreated.allocated, hstack]
    rcases (hlist t n).mp hn with ⟨rfl, rfl⟩ | hmem
    · exact ⟨Or.inl rfl, level, hself, hlevel⟩
    · rcases hg.upvals.listed t n ht hmem with ⟨hnalloc, l, hup, hl⟩
      exact ⟨Or.inr hnalloc, l, (hold n hnalloc).trans hup, hl⟩
  · intro t halloc
    have ht : g.Allocated (.thread t) :=
      ((hcreated.allocated _).mp halloc).resolve_left GCObject.noConfusion
    have hallocated : forall n, n ∈ (g.thread t).openupval ->
        g.Allocated (.upval n) := fun n hn => (hg.upvals.listed t n ht hn).1
    rw [thread_openupval]
    split
    · rename_i heq
      subst heq
      refine sorted_chainLoop (hg.upvals.sorted t ht)
        (fun n hn => findLoop_none (hg.upvals.sorted t ht) hnone hn)
        (fun n hn => hlevelOld n (hallocated n hn)) ?_
      unfold GlobalState.level
      rw [hself]
    · refine (hg.upvals.sorted t ht).imp_of_mem ?_
      intro m n hm hn hmn
      rw [hlevelOld m (hallocated m hm), hlevelOld n (hallocated n hn)]
      exact hmn
  · intro n
    have huvhead : (g.openupval th level uv).uvhead = uv :: g.uvhead := rfl
    rw [huvhead, List.mem_cons, hg.upvals.uvhead, hcreated.allocated]
    constructor
    · intro hopen
      rcases hopen with rfl | ⟨halloc, hopen⟩
      · exact ⟨Or.inl rfl, hopened⟩
      · exact ⟨Or.inr halloc, (hcreated.isOpened halloc).trans hopen⟩
    · intro hopen
      rcases hopen with ⟨heq | halloc, hopen⟩
      · exact Or.inl (GCObject.upval.inj heq)
      · exact Or.inr ⟨halloc, (hcreated.isOpened halloc).symm.trans hopen⟩
  · refine List.nodup_cons.mpr ⟨?_, hg.upvals.uvheadNodup⟩
    exact fun hmem => hfresh ((hg.upvals.uvhead uv).mp hmem).1

theorem Inv.findupval (hg : g.Inv) {level uv : Nat}
    (hfresh : ¬g.Allocated (.upval uv))
    (hlevel : level < (g.thread g.running).stack.length) :
    Captured g (g.findupval g.running level uv).1
      (g.findupval g.running level uv).2 := by
  have hrunning := hg.closed.running
  unfold GlobalState.findupval
  cases hfind : findLoop g level (g.thread g.running).openupval with
  | some n =>
      rcases hg.upvals.listed g.running n hrunning.1 (findLoop_some hfind).1 with
        ⟨halloc, l, hup, _⟩
      have hslots : forall y, y ∈ g.slots (.upval n) -> g.Alive y := by
        intro y hy
        simp only [slots, upvalValue, hup, stackAt] at hy
        rcases referents_getElem? hy with ⟨v, hget, hgc⟩
        refine hg.closed.slots _ y hrunning ?_
        exact mem_referents.mpr
          ⟨v, List.mem_cons_of_mem _ (List.mem_of_getElem? hget), hgc⟩
      rcases hg.resurrect halloc hslots with ⟨hinv, halive⟩
      refine ⟨hinv, fun x hx => (halive x).mpr (Or.inr hx),
        (halive _).mpr (Or.inl rfl), ?_, ?_, ?_⟩
      · intro x hx
        show (g.resurrect (.upval n)).color? x = g.color? x
        unfold GlobalState.resurrect
        split
        · exact color?_makewhite_of_ne (hx n)
        · rfl
      · show (g.resurrect (.upval n)).running = g.running
        unfold GlobalState.resurrect
        split <;> rfl
      · show ((g.resurrect (.upval n)).thread
          (g.resurrect (.upval n)).running).stack = _
        unfold GlobalState.resurrect
        split <;> rfl
  | none =>
      rcases hg.openupval hrunning hfresh hlevel hfind with ⟨hcreated, hinv⟩
      refine ⟨hinv, fun x hx => (hcreated.alive x).mpr (Or.inr hx),
        (hcreated.alive _).mpr (Or.inl rfl), ?_, rfl, ?_⟩
      · intro x hx
        exact (hcreated.color? x).trans (if_neg (hx uv))
      · show ((g.openupval g.running level uv).thread g.running).stack = _
        rw [thread_openupval, if_pos rfl]

/-- What the captures of `OP_CLOSURE` find in the enclosing function. -/
inductive Capturable : GlobalState -> List Capture -> Prop where
  | nil (g : GlobalState) : Capturable g []
  | outer {g : GlobalState} {uv : Nat} {rest : List Capture} :
      g.Accessible (.upval uv) -> Capturable g rest ->
        Capturable g (.outer uv :: rest)
  | stack {g : GlobalState} {level uv : Nat} {rest : List Capture} :
      ¬g.Allocated (.upval uv) ->
      level < (g.thread g.running).stack.length ->
      Capturable (g.findupval g.running level uv).1 rest ->
        Capturable g (.stack level uv :: rest)

/-- What the loop of `OP_CLOSURE` keeps. -/
structure Capturing (g g' : GlobalState) (ns : List Nat) : Prop where
  inv : g'.Inv
  alive : forall x, g.Alive x -> g'.Alive x
  upvals : forall n, n ∈ ns -> g'.Alive (.upval n)
  color : forall x, (forall m, x ≠ .upval m) -> g'.color? x = g.color? x

theorem Inv.captures {cs : List Capture} (hcs : Capturable g cs) (hg : g.Inv) :
    Capturing g (g.captures cs).1 (g.captures cs).2 := by
  induction hcs with
  | nil g => exact ⟨hg, fun _ hx => hx, fun _ hn => absurd hn List.not_mem_nil,
      fun _ _ => rfl⟩
  | outer hacc hrest ih =>
      have hlater := ih hg
      refine ⟨hlater.inv, hlater.alive, ?_, hlater.color⟩
      intro n hn
      rcases List.mem_cons.mp hn with rfl | hn
      · exact hlater.alive _ (hg.closed.accessible hacc)
      · exact hlater.upvals n hn
  | stack hfresh hlevel hrest ih =>
      have hfound := hg.findupval hfresh hlevel
      have hlater := ih hfound.inv
      refine ⟨hlater.inv, fun x hx => hlater.alive x (hfound.alive x hx), ?_,
        fun x hx => (hlater.color x hx).trans (hfound.color x hx)⟩
      intro n hn
      rcases List.mem_cons.mp hn with rfl | hn
      · exact hlater.alive _ hfound.self
      · exact hlater.upvals n hn

/-!
# Closures
-/

theorem Inv.fillClosure (hg : g.Inv) {env p n : Nat} {ns : List Nat}
    (hn : g.Alive (.function n)) (hwhite : g.iswhite (.function n) = true)
    (henv : g.Alive (.table env)) (hp : g.Alive (.proto p))
    (hns : forall m, m ∈ ns -> g.Alive (.upval m)) :
    ((g.setFunction n (.lua env p ns)).push (.function n)).Inv := by
  have hwritten : Written g (g.setFunction n (.lua env p ns)) (.function n)
      (.table env :: .proto p :: ns.map .upval) :=
    written_setFunction fun y hy => Or.inr hy
  have hexposed := hwritten.exposed hg hn (by
    intro y hy
    rcases List.mem_cons.mp hy with rfl | hy
    · exact henv
    · rcases List.mem_cons.mp hy with rfl | hy
      · exact hp
      · rcases List.mem_map.mp hy with ⟨m, hm, rfl⟩
        exact hns m hm)
  have hblack : (g.setFunction n (.lua env p ns)).isblack (.function n) =
      false := by
    rw [isblack_eq_of_color? (hwritten.color? _)]
    cases hb : g.isblack (.function n) with
    | false => rfl
    | true =>
        rw [iswhite_of_isblack hb] at hwhite
        cases hwhite
  refine (hexposed.notBlack hblack).push ?_
  intro x hx
  cases hx
  exact hexposed.allocated

theorem Inv.newLclosure (hg : g.Inv) {env p n : Nat}
    (hfresh : ¬g.Allocated (.function n)) (henv : g.Alive (.table env))
    (hp : g.Alive (.proto p)) :
    Created g (g.link (.function n) (.lua env p [])) (.function n) ∧
      (g.link (.function n) (.lua env p [])).Inv := by
  have hself : (g.link (.function n) (.lua env p [])).function n =
      .lua env p [] := objs_link (.function n) _
  refine hg.link hfresh rfl (fun _ => GCObject.noConfusion) ?_
  intro y hy
  simp only [slots, hself] at hy
  rcases List.mem_cons.mp hy with rfl | hy
  · exact henv
  · rw [List.mem_singleton.mp hy]
    exact hp

theorem Inv.pushclosure (hg : g.Inv) {env p n : Nat} {cs : List Capture}
    (hfresh : ¬g.Allocated (.function n)) (henv : g.Alive (.table env))
    (hp : g.Alive (.proto p))
    (hcs : Capturable (g.link (.function n) (.lua env p [])) cs) :
    (g.pushclosure env p cs n).Inv := by
  rcases hg.newLclosure hfresh henv hp with ⟨hcreated, hinv⟩
  have hcaptured := Inv.captures hcs hinv
  have hold : forall x, g.Alive x -> _ :=
    fun x hx => hcaptured.alive x ((hcreated.alive x).mpr (Or.inr hx))
  refine hcaptured.inv.fillClosure
    (hcaptured.alive _ ((hcreated.alive _).mpr (Or.inl rfl))) ?_ (hold _ henv)
    (hold _ hp) hcaptured.upvals
  rw [iswhite_eq_of_color? (hcaptured.color _ fun _ => GCObject.noConfusion)]
  exact iswhite_iff.mpr ⟨_, hcreated.color_self⟩

theorem Inv.newupval (hg : g.Inv) {n : Nat} (hfresh : ¬g.Allocated (.upval n)) :
    Created g (g.newupval n) (.upval n) ∧ (g.newupval n).Inv := by
  have hself : (g.newupval n).upval n = .closed .nil := objs_link (.upval n) _
  have hins := inserted_linkroot (g.create (.upval n) (.closed .nil)) (.upval n)
  refine hins.inv hfresh hg ?_ ?_ (fun _ => GCObject.noConfusion)
  · intro y hy
    have hy' : y ∈ (g.newupval n).slots (.upval n) := hy
    simp only [slots, upvalValue, hself] at hy'
    cases hy'
  · show (!(g.newupval n).isOpened n) = true
    unfold isOpened
    rw [hself]
    rfl

theorem Inv.newupvals (hg : g.Inv) {ns : List Nat}
    (hfresh : forall n, n ∈ ns -> ¬g.Allocated (.upval n)) (hnodup : ns.Nodup) :
    Capturing g (g.newupvals ns) ns := by
  induction ns generalizing g with
  | nil => exact ⟨hg, fun _ hx => hx, fun _ hn => absurd hn List.not_mem_nil,
      fun _ _ => rfl⟩
  | cons n rest ih =>
      rcases List.nodup_cons.mp hnodup with ⟨hnot, hrest⟩
      rcases hg.newupval (hfresh n List.mem_cons_self) with ⟨hcreated, hinv⟩
      have hlater := ih hinv (by
        intro m hm halloc
        rcases (hcreated.allocated _).mp halloc with heq | halloc
        · exact hnot (GCObject.upval.inj heq ▸ hm)
        · exact hfresh m (List.mem_cons_of_mem n hm) halloc) hrest
      refine ⟨hlater.inv, ?_, ?_, ?_⟩
      · exact fun x hx => hlater.alive x ((hcreated.alive x).mpr (Or.inr hx))
      · intro m hm
        rcases List.mem_cons.mp hm with rfl | hm
        · exact hlater.alive _ ((hcreated.alive _).mpr (Or.inl rfl))
        · exact hlater.upvals m hm
      · intro x hx
        exact (hlater.color x hx).trans ((hcreated.color? x).trans
          (if_neg (hx n)))

theorem Inv.loaded (hg : g.Inv) {env p n : Nat} {ns : List Nat}
    (hfresh : ¬g.Allocated (.function n)) (henv : g.Alive (.table env))
    (hp : g.Alive (.proto p))
    (hns : forall m, m ∈ ns -> ¬g.Allocated (.upval m)) (hnodup : ns.Nodup) :
    (g.loaded env p ns n).Inv := by
  rcases hg.newLclosure hfresh henv hp with ⟨hcreated, hinv⟩
  have hcaptured := hinv.newupvals (by
    intro m hm halloc
    exact hns m hm (((hcreated.allocated _).mp halloc).resolve_left
      GCObject.noConfusion)) hnodup
  have hold : forall x, g.Alive x -> _ :=
    fun x hx => hcaptured.alive x ((hcreated.alive x).mpr (Or.inr hx))
  refine hcaptured.inv.fillClosure
    (hcaptured.alive _ ((hcreated.alive _).mpr (Or.inl rfl))) ?_ (hold _ henv)
    (hold _ hp) hcaptured.upvals
  rw [iswhite_eq_of_color? (hcaptured.color _ fun _ => GCObject.noConfusion)]
  exact iswhite_iff.mpr ⟨_, hcreated.color_self⟩

/-- `lua_pushcclosure`: the values go from the stack into the closure. -/
theorem Inv.pushcclosure (hg : g.Inv) {env count n : Nat}
    (hfresh : ¬g.Allocated (.function n)) (henv : g.Alive (.table env)) :
    (g.pushcclosure env count n).Inv := by
  have hrunning := hg.closed.running
  let stack := (g.thread g.running).stack
  let cl : Closure := .c env (stack.drop (stack.length - count))
  have hvalues : forall v x, v ∈ stack -> v.gcvalue = some x -> g.Alive x := by
    intro v x hv hgc
    exact hg.closed.slots _ x hrunning
      (mem_referents.mpr ⟨v, List.mem_cons_of_mem _ hv, hgc⟩)
  have hself : (g.link (.function n) cl).function n = cl :=
    objs_link (.function n) cl
  rcases hg.link (x := .function n) (p := cl) hfresh rfl
    (fun _ => GCObject.noConfusion) (by
      intro y hy
      simp only [slots, hself] at hy
      rcases List.mem_cons.mp hy with rfl | hy
      · exact henv
      · rcases mem_referents.mp hy with ⟨v, hv, hgc⟩
        exact hvalues v y (List.mem_of_mem_drop hv) hgc) with ⟨hcreated, hinv⟩
  refine @Inv.restack (g.link (.function n) cl) hinv g.running
    (stack.take (stack.length - count) ++ [.function n])
    ((hcreated.alive _).mpr (Or.inr hrunning)) ?_
  intro x hx
  rcases mem_referents.mp hx with ⟨v, hv, hgc⟩
  rw [hcreated.alive]
  rcases List.mem_append.mp hv with hv | hv
  · exact Or.inr (hvalues v x (List.mem_of_mem_take hv) hgc)
  · rw [List.mem_singleton] at hv
    subst hv
    cases hgc
    exact Or.inl rfl

end GlobalState
end Gc
end LuaServer
