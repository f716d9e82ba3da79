import LuaServer.Gc.Closing

/-!
# The sweep keeps the invariant

Each turn of the sweep frees an object that is dead, or gives it the current
white and leaves it behind.
-/

namespace LuaServer
namespace Gc
namespace GlobalState

variable {g g' : GlobalState}

/-!
# What a sweep leaves
-/

theorem isdead_of_not_survives {x : GCObject} (halloc : g.Allocated x)
    (h : g.survives x = false) : g.isdead x = true := by
  unfold survives at h
  unfold Allocated at halloc
  rw [isdead_iff, color?]
  cases hm : g.marked x with
  | none => exact absurd hm halloc
  | some m =>
      rw [hm] at h
      simp only [Bool.or_eq_false_iff, decide_eq_false_iff_not,
        Decidable.not_not] at h
      rw [Option.map_some, h.2]

theorem survives_cases {x : GCObject} (h : g.survives x = true) :
    g.Allocated x ∧ (g.isdead x = false ∨
      (g.marked x).map Marked.fixed = some true) := by
  unfold survives at h
  cases hm : g.marked x with
  | none =>
      rw [hm] at h
      cases h
  | some m =>
      rw [hm] at h
      refine ⟨fun hnone => ?_, ?_⟩
      · rw [hnone] at hm
        cases hm
      · simp only [Bool.or_eq_true, decide_eq_true_eq] at h
        rcases h with hfixed | hcolor
        · right
          rw [Option.map_some, hfixed]
        · left
          unfold isdead color?
          rw [hm, Option.map_some]
          simp [hcolor]

theorem Inv.survivor (hg : g.Inv) {x : GCObject} (h : g.survives x = true) :
    forall y, y ∈ g.slots x -> g.Alive y := by
  intro y hy
  rcases survives_cases h with ⟨halloc, hdead | hfixed⟩
  · exact hg.closed.slots x y ⟨halloc, hdead⟩ hy
  · rcases hg.linked.fixedKinds x hfixed with ⟨n, rfl⟩ | rfl
    · cases hy
    · exact hg.closed.slots _ y (hg.closed.roots _ List.mem_cons_self) hy

/-!
# Moves of the sweep pointer
-/

/-- The lists are cut at other places, and the strings may be in other lists. -/
structure Relisted (g g' : GlobalState) : Prop where
  frame : g' = { g with
    passed := g'.passed
    sweepgc := g'.sweepgc
    sweepstrgc := g'.sweepstrgc
    strt := g'.strt
    gray := g'.gray
    grayagain := g'.grayagain
    weak := g'.weak
    gcstate := g'.gcstate }
  rootgc : g'.rootgc = g.rootgc
  strings : g'.strings.Perm g.strings
  table : 0 < g.strt.length -> 0 < g'.strt.length

namespace Relisted

theorem marked (h : Relisted g g') : g'.marked = g.marked := by
  rw [h.frame]

theorem currentwhite (h : Relisted g g') :
    g'.currentwhite = g.currentwhite := by
  rw [h.frame]

theorem objs (h : Relisted g g') : g'.objs = g.objs := by
  rw [h.frame]

theorem tmudata (h : Relisted g g') : g'.tmudata = g.tmudata := by
  rw [h.frame]

theorem mainthread (h : Relisted g g') : g'.mainthread = g.mainthread := by
  rw [h.frame]

theorem uvhead (h : Relisted g g') : g'.uvhead = g.uvhead := by
  rw [h.frame]

theorem roots (h : Relisted g g') : g'.roots = g.roots := by
  rw [h.frame]
  rfl

theorem allocated (h : Relisted g g') (x : GCObject) :
    g'.Allocated x <-> g.Allocated x := by
  rw [Allocated, h.marked]
  rfl

theorem alive (h : Relisted g g') (x : GCObject) :
    g'.Alive x <-> g.Alive x := by
  unfold Alive isdead
  rw [h.allocated, color?_eq_of_marked h.marked, h.currentwhite]

theorem same (h : Relisted g g') : SameObjs g g' := SameObjs.of_objs h.objs

theorem linked (h : Relisted g g') (hg : g.Linked) : g'.Linked := by
  have hrooted : forall x, g'.rooted x = g.rooted x := by
    intro x
    cases x with
    | upval n => rw [rooted_upval, rooted_upval, h.same.isOpened]
    | _ => rfl
  refine ⟨?_, ?_, ?_, ?_, ?_, ?_, ?_, ?_, ?_, ?_, ?_⟩
  · rw [h.mainthread, h.rootgc]
    exact hg.main
  · rw [h.mainthread, h.marked]
    exact hg.fixed
  · rw [h.mainthread, h.marked]
    exact hg.fixedKinds
  · rw [h.rootgc]
    exact hg.nodup
  · intro x hx
    rw [h.allocated, hrooted]
    rw [h.rootgc] at hx
    exact hg.allocated x hx
  · intro x hx hr
    rw [h.rootgc, Due, h.tmudata]
    rw [hrooted] at hr
    exact hg.listed x ((h.allocated x).mp hx) hr
  · intro n hn
    rw [h.allocated, h.rootgc]
    rw [h.tmudata] at hn
    exact hg.due n hn
  · rw [h.tmudata]
    exact hg.dueNodup
  · intro n
    rw [h.allocated, h.strings.mem_iff]
    exact hg.strings n
  · exact h.strings.nodup_iff.mpr hg.stringsNodup
  · exact h.table hg.table

theorem upvals (h : Relisted g g') (hg : g.Upvals) : g'.Upvals := by
  have hlevel : forall n, g'.level n = g.level n := by
    intro n
    unfold level
    rw [h.same.upval]
  refine ⟨?_, ?_, ?_, ?_, ?_⟩
  · intro n th l hn hup
    rw [h.same.upval] at hup
    rw [h.allocated, h.same.thread]
    exact hg.opened n th l ((h.allocated _).mp hn) hup
  · intro th n hth hn
    rw [h.same.thread] at hn
    rw [h.allocated, h.same.thread, h.same.upval]
    exact hg.listed th n ((h.allocated _).mp hth) hn
  · intro th hth
    rw [h.same.thread]
    refine (hg.sorted th ((h.allocated _).mp hth)).imp ?_
    intro m n hmn
    rw [hlevel, hlevel]
    exact hmn
  · intro n
    rw [h.uvhead, h.allocated, h.same.isOpened]
    exact hg.uvhead n
  · rw [h.uvhead]
    exact hg.uvheadNodup

/-- Outside the mark phase the lists only have to show what is unswept. -/
theorem inv (h : Relisted g g') (hg : g.Inv) (hne : g'.gcstate ≠ .propagate)
    (hswept : g'.Swept) : g'.Inv := by
  have hcolor : forall x, g'.color? x = g.color? x :=
    fun x => color?_eq_of_marked h.marked
  refine ⟨⟨?_, ?_, ?_⟩, h.linked hg.linked, h.upvals hg.upvals, ⟨?_, ?_⟩,
    fun hstate => absurd hstate hne, fun _ => hswept⟩
  · intro x y hx hy
    rw [h.alive] at hx ⊢
    rw [h.same.slots] at hy
    exact hg.closed.slots x y hx hy
  · intro x hx
    rw [h.alive]
    rw [h.roots] at hx
    exact hg.closed.roots x hx
  · intro n hn
    rw [h.alive]
    rw [h.tmudata] at hn
    exact hg.closed.due n hn
  · intro x hx
    rw [isblack_eq_of_color? (hcolor x)] at hx
    have hold := hg.colors.black x hx
    cases x with
    | upval n =>
        rw [blackens_upval, h.same.isOpened]
        exact hold
    | _ => exact hold
  · intro n
    rw [isgray_eq_of_color? (hcolor _)]
    exact hg.colors.udata n

end Relisted

/-!
# Open upvalues
-/

theorem write_write (g : GlobalState) (x : GCObject) (p q : x.Payload) :
    (g.write x p).write x q = g.write x q := by
  have hsame : Function.update (Function.update g.objs x p) x q =
      Function.update g.objs x q := Function.update_idem p q g.objs
  exact congrArg (fun objs => { g with objs := objs }) hsame

theorem setOpenupval_setOpenupval (g : GlobalState) (th : Nat)
    (ms ns : List Nat) :
    (g.setOpenupval th ms).setOpenupval th ns = g.setOpenupval th ns := by
  have hthread : (g.setOpenupval th ms).thread th =
      { g.thread th with openupval := ms } := by
    rw [thread_setOpenupval, if_pos rfl]
  unfold setOpenupval at hthread ⊢
  rw [hthread]
  exact write_write g (.thread th) _ _

/-- The open upvalues of a thread have been swept. -/
structure SweptUpvals (g s : GlobalState) (th : Nat) : Prop where
  inv : s.Inv
  frame : s = { g with
    objs := s.objs
    marked := s.marked
    uvhead := s.uvhead }
  marked : forall x, (forall n, x ≠ .upval n) -> s.marked x = g.marked x
  white : forall n, n ∈ (s.thread th).openupval ->
    s.color? (.upval n) = some (.white s.currentwhite)

theorem sweepupvals_loop {th : Nat} (rest kept : List Nat)
    (hne : g.gcstate ≠ .propagate) (halloc : g.Allocated (.thread th))
    (hg : (g.setOpenupval th (kept ++ rest)).Inv)
    (hwhite : forall n, n ∈ kept ->
      g.color? (.upval n) = some (.white g.currentwhite)) :
    SweptUpvals g
      ((sweepwholelist .upval freeupval g rest).1.setOpenupval th
        (kept ++ (sweepwholelist .upval freeupval g rest).2)) th := by
  induction rest generalizing g kept with
  | nil =>
      rw [sweepwholelist]
      refine ⟨hg, rfl, fun _ _ => rfl, ?_⟩
      intro n hn
      rw [openupval_setOpenupval, if_pos rfl, List.append_nil] at hn
      exact hwhite n hn
  | cons n rest ih =>
      have hopenin : OpenIn (g.setOpenupval th (kept ++ n :: rest)) th n
          (kept ++ rest) := by
        have hnodup := @Upvals.nodup _ hg.upvals th halloc
        refine ⟨halloc, ?_, ?_⟩
        · rw [openupval_setOpenupval, if_pos rfl]
          exact List.mem_append_right _ List.mem_cons_self
        · rw [openupval_setOpenupval, if_pos rfl] at hnodup ⊢
          have hnot : n ∉ kept := by
            intro hmem
            exact (List.disjoint_of_nodup_append hnodup) hmem
              List.mem_cons_self
          rw [List.erase_append_right _ hnot, List.erase_cons_head]
      have hopened := hopenin.opened hg.upvals
      rw [sweepwholelist]
      split
      · rename_i hsurvives
        have hnext : ((g.makewhite (.upval n)).setOpenupval th
            (kept ++ n :: rest)).Inv :=
          hg.makewhite (x := .upval n) hne hopened.1 (hg.survivor hsurvives)
        have hkept : kept ++ n :: rest = (kept ++ [n]) ++ rest := by simp
        rw [hkept] at hnext
        have hlater := ih (g := g.makewhite (.upval n)) (kept ++ [n]) hne
          ((sameLinks_makewhite g _).allocated _ |>.mpr halloc) hnext (by
            intro m hm
            by_cases hmn : m = n
            · rw [hmn]
              exact color?_makewhite hopened.1
            · rw [color?_makewhite_of_ne fun heq => hmn (GCObject.upval.inj heq)]
              refine hwhite m ((List.mem_append.mp hm).resolve_right ?_)
              exact fun hs => hmn (List.mem_singleton.mp hs))
        simp only
        generalize sweepwholelist .upval freeupval (g.makewhite (.upval n)) rest
          = r at hlater ⊢
        rw [show kept ++ n :: r.2 = (kept ++ [n]) ++ r.2 by simp]
        refine ⟨hlater.inv, hlater.frame, ?_, hlater.white⟩
        intro x hx
        refine (hlater.marked x hx).trans ?_
        simp [GlobalState.makewhite, paint, hx n]
      · rename_i hdies
        have hdead := isdead_of_not_survives
          (g := g.setOpenupval th (kept ++ n :: rest)) hopened.1
          (Bool.eq_false_of_not_eq_true hdies)
        have hfree := hg.closeFree hopenin hdead
        rw [setOpenupval_setOpenupval] at hfree
        have hlater := ih (g := g.freeupval n) kept hne (by
            show (g.release (.upval n)).Allocated (.thread th)
            exact allocated_release.mpr ⟨GCObject.noConfusion, halloc⟩) hfree (by
            intro m hm
            have hmn : m ≠ n := by
              intro heq
              subst heq
              have hnodup := @Upvals.nodup _ hg.upvals th halloc
              rw [openupval_setOpenupval, if_pos rfl] at hnodup
              exact (List.disjoint_of_nodup_append hnodup) hm List.mem_cons_self
            have hcolor := color?_release (g := g) (.upval n) (.upval m)
            rw [if_neg fun heq => hmn (GCObject.upval.inj heq)] at hcolor
            exact hcolor.trans (hwhite m hm))
        refine ⟨hlater.inv, hlater.frame, ?_, hlater.white⟩
        intro x hx
        refine (hlater.marked x hx).trans ?_
        simp [freeupval, release, hx n]

theorem Inv.sweepupvals (hg : g.Inv) (hne : g.gcstate ≠ .propagate) {th : Nat}
    (halloc : g.Allocated (.thread th)) :
    SweptUpvals g (g.sweepupvals th) th := by
  have hself : g.setOpenupval th ([] ++ (g.thread th).openupval) = g := by
    unfold setOpenupval setThread write
    rw [List.nil_append]
    have hsame : Function.update g.objs (.thread th) (g.thread th) = g.objs :=
      Function.update_eq_self _ _
    exact congrArg (fun objs => { g with objs := objs }) hsame
  refine sweepupvals_loop _ [] hne halloc ?_ ?_
  · rw [hself]
    exact hg
  · intro n hn
    cases hn

/-!
# The list of all objects
-/

/-- The object has been taken off the list before it is freed. -/
def unlink (g : GlobalState) (x : GCObject) : GlobalState :=
  { g with sweepgc := g.sweepgc.erase x }

theorem linkroot_unlink {x y : GCObject} (h : y ≠ x) :
    (g.unlink x).linkroot y = (g.linkroot y).unlink x := by
  unfold linkroot unlink
  cases g.passed with
  | nil =>
      simp only
      rw [List.erase_cons_tail (by simp [h])]
  | cons z rest => rfl

theorem moveupval_unlink {x : GCObject} {th n : Nat} (rest : List Nat)
    (h : .upval n ≠ x) :
    (g.unlink x).moveupval th n rest = (g.moveupval th n rest).unlink x := by
  unfold moveupval
  exact linkroot_unlink (g := ({ g.setOpenupval th rest with
    uvhead := g.uvhead.erase n }).setUpval n
      (.closed ((g.setOpenupval th rest).upvalValue n))) h

theorem closeTurn_eq (hne : g.gcstate ≠ .propagate) (th n : Nat)
    (rest : List Nat) :
    g.closeTurn th n rest =
      if g.isdead (.upval n) then (g.setOpenupval th rest).freeupval n
      else if g.isgray (.upval n) then
        (g.moveupval th n rest).makewhite (.upval n)
      else g.moveupval th n rest := by
  have hm := moved_moveupval g th n rest
  unfold closeTurn
  rw [closeupval_eq, isgray_eq_of_color? (hm.color? (.upval n)),
    if_neg fun h => hne (hm.gcstate.symm.trans h)]

theorem closeTurn_gcstate (hne : g.gcstate ≠ .propagate) (th n : Nat)
    (rest : List Nat) : (g.closeTurn th n rest).gcstate = g.gcstate := by
  have hm := moved_moveupval g th n rest
  rw [closeTurn_eq hne]
  split
  · rfl
  · split
    · exact hm.gcstate
    · exact hm.gcstate

theorem closeTurn_unlink (hne : g.gcstate ≠ .propagate) {x : GCObject}
    {th n : Nat} (rest : List Nat) (h : .upval n ≠ x) :
    (g.unlink x).closeTurn th n rest = (g.closeTurn th n rest).unlink x := by
  rw [closeTurn_eq hne, closeTurn_eq (g := g.unlink x) hne,
    moveupval_unlink rest h]
  split
  · rename_i hdead
    rw [if_pos (show g.isdead (.upval n) = true from hdead)]
    rfl
  · rename_i hdead
    rw [if_neg (show ¬g.isdead (.upval n) = true from hdead)]
    split
    · rename_i hgray
      rw [if_pos (show g.isgray (.upval n) = true from hgray)]
      rfl
    · rename_i hgray
      rw [if_neg (show ¬g.isgray (.upval n) = true from hgray)]

theorem closeLoop_unlink {x : GCObject} (th limit : Nat) (ns : List Nat)
    (hne : g.gcstate ≠ .propagate) (h : forall n, .upval n ≠ x) :
    closeLoop th limit ns (g.unlink x) = (closeLoop th limit ns g).unlink x := by
  induction ns generalizing g with
  | nil => rfl
  | cons n rest ih =>
      rw [closeLoop_cons, closeLoop_cons]
      by_cases hlimit : limit ≤ g.level n
      · rw [if_pos (show limit ≤ (g.unlink x).level n from hlimit),
          if_pos hlimit, closeTurn_unlink hne rest (h n)]
        refine ih ?_
        rw [closeTurn_gcstate hne]
        exact hne
      · rw [if_neg (show ¬limit ≤ (g.unlink x).level n from hlimit),
          if_neg hlimit]

theorem Inv.free (hg : g.Inv) {x : GCObject} (hdead : g.isdead x = true)
    (hmem : x ∈ g.sweepgc)
    (hthread : forall th, x = .thread th -> (g.thread th).openupval = []) :
    ((g.unlink x).release x).Inv := by
  have hreleased : Released g ((g.unlink x).release x) x :=
    ⟨hdead, rfl, rfl, rfl, fun _ => rfl, rfl, rfl, rfl, rfl⟩
  have hroot : x ∈ g.rootgc := List.mem_append_right _ hmem
  have hrooted := (hg.linked.allocated x hroot).2
  have hpassed : x ∉ g.passed := fun h =>
    (List.disjoint_of_nodup_append hg.linked.nodup) h hmem
  refine hreleased.inv hg
    (hreleased.linked hg ?_ ?_ hg.linked.stringsNodup hg.linked.table)
    (hreleased.upvals hg.upvals hthread ?_ rfl rfl) ?_
  · exact (List.erase_append_right _ hpassed).symm
  · intro n
    refine ⟨fun h => ⟨?_, h⟩, fun h => h.2⟩
    intro heq
    subst heq
    cases hrooted
  · intro n heq
    subst heq
    rw [rooted_upval] at hrooted
    cases hopen : g.isOpened n with
    | false => rfl
    | true =>
        rw [hopen] at hrooted
        cases hrooted
  · intro y hy halloc hu
    have hmemErase : forall z, z ≠ x -> z ∈ g.sweepgc ->
        z ∈ g.sweepgc.erase x := fun z hz hzmem =>
      (List.mem_erase_of_ne hz).mpr hzmem
    rcases hu with ⟨hs, hstring⟩ | ⟨hs, hmemy | ⟨m, t, l, rfl, hup, hth⟩⟩
    · exact Or.inl ⟨hs, hstring⟩
    · exact Or.inr ⟨hs, Or.inl (hmemErase y hy hmemy)⟩
    · by_cases ht : .thread t = x
      · have hopened := (hg.upvals.opened m t l halloc hup).2
        rw [hthread t ht.symm] at hopened
        cases hopened
      · exact Or.inr ⟨hs, Or.inr ⟨m, t, l, rfl, hup, hmemErase _ ht hth⟩⟩

theorem Inv.freeobj (hg : g.Inv) {x : GCObject} (hdead : g.isdead x = true)
    (hmem : x ∈ g.sweepgc) (hne : g.gcstate ≠ .propagate) :
    ((g.unlink x).freeobj x).Inv ∧
      ((g.unlink x).freeobj x).gcstate = g.gcstate := by
  cases x with
  | thread th =>
      have halloc := (hg.linked.allocated _ (List.mem_append_right _ hmem)).1
      rcases hg.close halloc 0 with ⟨hclosing, hlevel⟩
      have hopen : ((g.close th 0).thread th).openupval = [] := by
        cases hlist : ((g.close th 0).thread th).openupval with
        | nil => rfl
        | cons n rest =>
            have hn := hlevel n (hlist ▸ List.mem_cons_self)
            exact absurd hn (Nat.not_lt_zero _)
      have hstill : (g.close th 0).isdead (.thread th) = true := by
        rw [isdead_iff, hclosing.currentwhite,
          (hclosing.color _ fun _ => GCObject.noConfusion).resolve_right hne]
        exact isdead_iff.mp hdead
      have hcomm : (g.unlink (.thread th)).close th 0 =
          (g.close th 0).unlink (.thread th) :=
        closeLoop_unlink th 0 _ hne fun _ => GCObject.noConfusion
      unfold GlobalState.freeobj
      simp only
      rw [hcomm]
      refine ⟨hclosing.inv.free hstill (hclosing.kept _ hmem) ?_,
        hclosing.gcstate⟩
      intro t ht
      cases ht
      exact hopen
  | string n => exact ⟨hg.free hdead hmem (fun _ => GCObject.noConfusion), rfl⟩
  | udata n => exact ⟨hg.free hdead hmem (fun _ => GCObject.noConfusion), rfl⟩
  | upval n => exact ⟨hg.free hdead hmem (fun _ => GCObject.noConfusion), rfl⟩
  | function n => exact ⟨hg.free hdead hmem (fun _ => GCObject.noConfusion), rfl⟩
  | table n => exact ⟨hg.free hdead hmem (fun _ => GCObject.noConfusion), rfl⟩
  | proto n => exact ⟨hg.free hdead hmem (fun _ => GCObject.noConfusion), rfl⟩

/-- The sweep pointer leaves an object with the current white behind. -/
theorem Inv.pass (hg : g.Inv) (hne : g.gcstate ≠ .propagate) {x : GCObject}
    {rest : List GCObject} (hsweep : g.sweepgc = x :: rest)
    (hwhite : g.color? x = some (.white g.currentwhite))
    (hupvals : forall th n, x = .thread th -> n ∈ (g.thread th).openupval ->
      g.color? (.upval n) = some (.white g.currentwhite)) :
    Inv { g with passed := g.passed ++ [x], sweepgc := rest } := by
  have hroot : (g.passed ++ [x]) ++ rest = g.passed ++ g.sweepgc := by
    rw [hsweep, List.append_assoc]
    rfl
  refine Relisted.inv (g := g) ⟨rfl, hroot, List.Perm.refl _, id⟩ hg hne ?_
  intro y hy
  rcases hg.swept hne y hy with hw | hu | hd
  · exact Or.inl hw
  · rcases hu with ⟨hs, hstring⟩ | ⟨hs, hmem | ⟨n, th, l, rfl, hup, hth⟩⟩
    · exact Or.inr (Or.inl (Or.inl ⟨hs, hstring⟩))
    · rw [hsweep] at hmem
      rcases List.mem_cons.mp hmem with rfl | hmem
      · exact Or.inl hwhite
      · exact Or.inr (Or.inl (Or.inr ⟨hs, Or.inl hmem⟩))
    · rw [hsweep] at hth
      rcases List.mem_cons.mp hth with heq | hth
      · exact Or.inl (hupvals th n heq.symm (hg.upvals.opened n th l hy hup).2)
      · exact Or.inr (Or.inl (Or.inr ⟨hs, Or.inr ⟨n, th, l, rfl, hup, hth⟩⟩))
  · exact Or.inr (Or.inr hd)

def sweepopen (g : GlobalState) (x : GCObject) : GlobalState :=
  match x with
  | .thread n => g.sweepupvals n
  | _ => g

theorem sweepone_cons {x : GCObject} {rest : List GCObject}
    (h : g.sweepgc = x :: rest) :
    g.sweepone =
      if (g.sweepopen x).survives x then
        { (g.sweepopen x).makewhite x with
          passed := (g.sweepopen x).passed ++ [x]
          sweepgc := rest }
      else ({ g.sweepopen x with sweepgc := rest }).freeobj x := by
  unfold sweepone
  rw [h]
  rfl

/-- The upvalues of the object, when it is a thread, have been swept. -/
structure SweptOpen (g s : GlobalState) (x : GCObject) : Prop where
  inv : s.Inv
  passed : s.passed = g.passed
  sweepgc : s.sweepgc = g.sweepgc
  gcstate : s.gcstate = g.gcstate
  white : forall th n, x = .thread th -> n ∈ (s.thread th).openupval ->
    s.color? (.upval n) = some (.white s.currentwhite)

theorem Inv.sweepopen (hg : g.Inv) (hne : g.gcstate ≠ .propagate)
    {x : GCObject} (halloc : g.Allocated x) :
    SweptOpen g (g.sweepopen x) x := by
  cases x with
  | thread th =>
      have hswept := hg.sweepupvals hne halloc
      show SweptOpen g (g.sweepupvals th) (.thread th)
      refine ⟨hswept.inv, ?_, ?_, ?_, ?_⟩
      · rw [hswept.frame]
      · rw [hswept.frame]
      · rw [hswept.frame]
      · intro t n ht
        cases ht
        exact hswept.white n
  | string n => exact ⟨hg, rfl, rfl, rfl, fun _ _ => GCObject.noConfusion⟩
  | udata n => exact ⟨hg, rfl, rfl, rfl, fun _ _ => GCObject.noConfusion⟩
  | upval n => exact ⟨hg, rfl, rfl, rfl, fun _ _ => GCObject.noConfusion⟩
  | function n => exact ⟨hg, rfl, rfl, rfl, fun _ _ => GCObject.noConfusion⟩
  | table n => exact ⟨hg, rfl, rfl, rfl, fun _ _ => GCObject.noConfusion⟩
  | proto n => exact ⟨hg, rfl, rfl, rfl, fun _ _ => GCObject.noConfusion⟩

theorem Inv.sweepone (hg : g.Inv) (hne : g.gcstate ≠ .propagate) :
    g.sweepone.Inv ∧ g.sweepone.gcstate = g.gcstate := by
  cases hsweep : g.sweepgc with
  | nil =>
      unfold GlobalState.sweepone
      rw [hsweep]
      exact ⟨hg, rfl⟩
  | cons x rest =>
      have hmem : x ∈ g.rootgc := by
        refine List.mem_append_right _ ?_
        rw [hsweep]
        exact List.mem_cons_self
      have hopen := hg.sweepopen hne (hg.linked.allocated x hmem).1
      rw [sweepone_cons hsweep]
      generalize g.sweepopen x = s at hopen ⊢
      have hnes : s.gcstate ≠ .propagate := fun h => hne (hopen.gcstate ▸ h)
      have hlist : s.sweepgc = x :: rest := hopen.sweepgc.trans hsweep
      have hmems : x ∈ s.sweepgc := hlist ▸ List.mem_cons_self
      have halloc := (hopen.inv.linked.allocated x
        (List.mem_append_right _ hmems)).1
      split
      · rename_i hsurvives
        refine ⟨?_, hopen.gcstate⟩
        refine Inv.pass (hopen.inv.makewhite hnes halloc
          (hopen.inv.survivor hsurvives)) hnes hlist
          (color?_makewhite halloc) ?_
        intro th n heq hn
        subst heq
        rw [color?_makewhite_of_ne GCObject.noConfusion]
        exact hopen.white th n rfl hn
      · rename_i hdies
        have hdead := isdead_of_not_survives halloc
          (Bool.eq_false_of_not_eq_true hdies)
        have hunlink : { s with sweepgc := rest } = s.unlink x := by
          unfold unlink
          rw [hlist, List.erase_cons_head]
        rw [hunlink]
        rcases hopen.inv.freeobj hdead hmems hnes with ⟨hinv, hstate⟩
        exact ⟨hinv, hstate.trans hopen.gcstate⟩

theorem Inv.sweeplist (hg : g.Inv) (hne : g.gcstate ≠ .propagate)
    (count : Nat) :
    (sweeplist count g).Inv ∧ (sweeplist count g).gcstate = g.gcstate := by
  induction count generalizing g with
  | zero => exact ⟨hg, rfl⟩
  | succ count ih =>
      rw [GlobalState.sweeplist]
      cases hsweep : g.sweepgc with
      | nil => exact ⟨hg, rfl⟩
      | cons x rest =>
          rcases hg.sweepone hne with ⟨hinv, hstate⟩
          rcases ih hinv fun h => hne (hstate ▸ h) with ⟨hlast, hlastState⟩
          exact ⟨hlast, hlastState.trans hstate⟩

/-!
# The string table
-/

theorem perm_flatten_set {l : List (List Nat)} {i : Nat} (hi : i < l.length)
    (kept rest : List Nat) (n : Nat) :
    (l.set i (kept ++ n :: rest)).flatten.Perm
      (n :: (l.set i (kept ++ rest)).flatten) := by
  rw [List.set_eq_take_append_cons_drop, List.set_eq_take_append_cons_drop,
    if_pos hi, if_pos hi]
  simp only [List.flatten_append, List.flatten_cons, List.append_assoc]
  refine List.Perm.trans ?_ List.perm_middle
  refine List.Perm.append_left _ ?_
  exact List.perm_middle

def setList (g : GlobalState) (i : Nat) (ns : List Nat) : GlobalState :=
  { g with strt := g.strt.set i ns }

theorem Inv.freestring (i : Nat) {kept rest : List Nat} {n : Nat}
    (hi : i < g.strt.length) (hg : (g.setList i (kept ++ n :: rest)).Inv)
    (hpos : g.sweepstrgc = i) (hdead : g.isdead (.string n) = true) :
    ((g.release (.string n)).setList i (kept ++ rest)).Inv := by
  have hperm := perm_flatten_set hi kept rest n
  have hnodup : (n :: (g.strt.set i (kept ++ rest)).flatten).Nodup :=
    hperm.nodup_iff.mp hg.linked.stringsNodup
  have hreleased : Released (g.setList i (kept ++ n :: rest))
      ((g.release (.string n)).setList i (kept ++ rest)) (.string n) :=
    ⟨hdead, rfl, rfl, rfl, fun _ => rfl, rfl, rfl, rfl, rfl⟩
  have hnot : .string n ∉ g.rootgc := by
    intro hmem
    cases (hg.linked.allocated (.string n) hmem).2
  refine hreleased.inv hg (hreleased.linked hg ?_ ?_ ?_ ?_)
    (hreleased.upvals hg.upvals (fun _ => GCObject.noConfusion)
      (fun _ => GCObject.noConfusion) rfl rfl) ?_
  · exact (List.erase_of_not_mem hnot).symm
  · intro m
    refine Iff.trans ?_ (and_congr_right fun _ => (hperm.mem_iff).symm)
    rw [List.mem_cons]
    constructor
    · intro hm
      refine ⟨?_, Or.inr hm⟩
      intro heq
      cases heq
      exact (List.nodup_cons.mp hnodup).1 hm
    · intro hm
      rcases hm with ⟨hne, rfl | hm⟩
      · exact absurd rfl hne
      · exact hm
  · exact (List.nodup_cons.mp hnodup).2
  · show 0 < (g.strt.set i (kept ++ rest)).length
    rw [List.length_set]
    exact Nat.lt_of_le_of_lt (Nat.zero_le i) hi
  · intro y hy halloc hrest
    rcases hrest with ⟨hs, m, rfl, hm⟩ | hrest
    · refine Or.inl ⟨hs, m, rfl, ?_⟩
      have hmn : m ≠ n := fun h => hy (h ▸ rfl)
      show m ∈ ((g.strt.set i (kept ++ rest)).drop g.sweepstrgc).flatten
      have hold : m ∈
          ((g.strt.set i (kept ++ n :: rest)).drop g.sweepstrgc).flatten := hm
      rw [hpos, List.drop_set, if_neg (Nat.lt_irrefl i), Nat.sub_self] at hold ⊢
      have hdrop : 0 < (g.strt.drop i).length := by
        rw [List.length_drop]
        omega
      have hmem := (perm_flatten_set hdrop kept rest n).mem_iff.mp hold
      exact (List.mem_cons.mp hmem).resolve_left hmn
    · exact Or.inr hrest

/-- A list of the string table has been swept. -/
structure SweptList (g s : GlobalState) (i : Nat) (ns : List Nat) : Prop where
  inv : s.Inv
  frame : s = { g with marked := s.marked, strt := s.strt }
  strt : s.strt = g.strt.set i ns
  white : forall n, n ∈ ns ->
    s.color? (.string n) = some (.white s.currentwhite)

theorem sweepstrings_loop (i : Nat) (rest kept : List Nat)
    (hi : i < g.strt.length) (hne : g.gcstate ≠ .propagate)
    (hpos : g.sweepstrgc = i) (hg : (g.setList i (kept ++ rest)).Inv)
    (hwhite : forall n, n ∈ kept ->
      g.color? (.string n) = some (.white g.currentwhite)) :
    let r := sweepwholelist .string
      (fun g n => g.release (.string n)) g rest
    SweptList g (r.1.setList i (kept ++ r.2)) i (kept ++ r.2) := by
  induction rest generalizing g kept with
  | nil =>
      simp only [sweepwholelist]
      refine ⟨hg, rfl, rfl, ?_⟩
      intro n hn
      rw [List.append_nil] at hn
      exact hwhite n hn
  | cons n rest ih =>
      have hmem : n ∈ (g.strt.set i (kept ++ n :: rest)).flatten :=
        (perm_flatten_set hi kept rest n).mem_iff.mpr List.mem_cons_self
      have halloc : g.Allocated (.string n) := (hg.linked.strings n).mpr hmem
      rw [sweepwholelist]
      split
      · rename_i hsurvives
        have hnext : ((g.makewhite (.string n)).setList i
            (kept ++ n :: rest)).Inv :=
          hg.makewhite (x := .string n) hne halloc (hg.survivor hsurvives)
        have hkept : kept ++ n :: rest = (kept ++ [n]) ++ rest := by simp
        rw [hkept] at hnext
        have hlater := ih (g := g.makewhite (.string n)) (kept ++ [n]) hi hne
          hpos hnext (by
            intro m hm
            by_cases hmn : m = n
            · rw [hmn]
              exact color?_makewhite halloc
            · rw [color?_makewhite_of_ne fun heq =>
                hmn (GCObject.string.inj heq)]
              refine hwhite m ((List.mem_append.mp hm).resolve_right ?_)
              exact fun hs => hmn (List.mem_singleton.mp hs))
        simp only at hlater ⊢
        generalize sweepwholelist .string
          (fun g n => g.release (.string n)) (g.makewhite (.string n)) rest = r
          at hlater ⊢
        rw [show kept ++ n :: r.2 = (kept ++ [n]) ++ r.2 by simp]
        exact ⟨hlater.inv, hlater.frame, hlater.strt, hlater.white⟩
      · rename_i hdies
        have hdead := isdead_of_not_survives halloc
          (Bool.eq_false_of_not_eq_true hdies)
        have hlater := ih (g := g.release (.string n)) kept hi hne hpos
          (Inv.freestring i hi hg hpos hdead) (by
            intro m hm
            have hmn : m ≠ n := by
              intro heq
              subst heq
              have hnodup := (perm_flatten_set hi kept rest m).nodup_iff.mp
                hg.linked.stringsNodup
              refine (List.nodup_cons.mp hnodup).1 (List.mem_flatten.mpr ?_)
              exact ⟨kept ++ rest, List.mem_set hi _, List.mem_append_left _ hm⟩
            rw [color?_release, if_neg fun heq => hmn (GCObject.string.inj heq)]
            exact hwhite m hm)
        exact ⟨hlater.inv, hlater.frame, hlater.strt, hlater.white⟩

theorem Inv.sweepstrings (hg : g.Inv) (hstate : g.gcstate = .sweepstring) :
    g.sweepstrings.Inv ∧ g.sweepstrings.gcstate = g.gcstate := by
  have hne : g.gcstate ≠ .propagate := by
    rw [hstate]
    exact GCState.noConfusion
  by_cases hi : g.sweepstrgc < g.strt.length
  · have hget : g.strt.getD g.sweepstrgc [] = g.strt[g.sweepstrgc] := by
      rw [List.getD_eq_getElem?_getD, List.getElem?_eq_getElem hi]
      rfl
    have hself : g.setList g.sweepstrgc
        ([] ++ g.strt.getD g.sweepstrgc []) = g := by
      unfold setList
      rw [List.nil_append, hget, List.set_getElem_self]
    have hswept := sweepstrings_loop g.sweepstrgc
      (g.strt.getD g.sweepstrgc []) [] hi hne rfl
      (by
        rw [hself]
        exact hg)
      (fun _ h => absurd h List.not_mem_nil)
    simp only [List.nil_append] at hswept
    unfold GlobalState.sweepstrings
    generalize sweepwholelist .string (fun g n => g.release (.string n)) g
      (g.strt.getD g.sweepstrgc []) = r at hswept ⊢
    have hpos : (r.1.setList g.sweepstrgc r.2).sweepstrgc = g.sweepstrgc := by
      rw [hswept.frame]
    have hstates : (r.1.setList g.sweepstrgc r.2).gcstate = g.gcstate := by
      rw [hswept.frame]
    show Inv { r.1.setList g.sweepstrgc r.2 with
      sweepstrgc := g.sweepstrgc + 1 } ∧ _
    refine ⟨?_, hstates⟩
    refine Relisted.inv (g := r.1.setList g.sweepstrgc r.2)
      ⟨rfl, rfl, List.Perm.refl _, id⟩ hswept.inv (fun h => hne (hstates ▸ h)) ?_
    intro y hy
    rcases hswept.inv.swept (fun h => hne (hstates ▸ h)) y hy with hw | hu | hd
    · exact Or.inl hw
    · rcases hu with ⟨hs, n, rfl, hn⟩ | hrest
      · rw [hpos, hswept.strt] at hn
        have hcut := List.drop_eq_getElem_cons
          (show g.sweepstrgc < (g.strt.set g.sweepstrgc r.2).length by
            rw [List.length_set]
            exact hi)
        rw [hcut, List.flatten_cons, List.getElem_set_self] at hn
        rcases List.mem_append.mp hn with hn | hn
        · exact Or.inl (hswept.white n hn)
        · refine Or.inr (Or.inl (Or.inl ⟨hs, n, rfl, ?_⟩))
          show n ∈ ((r.1.setList g.sweepstrgc r.2).strt.drop
            (g.sweepstrgc + 1)).flatten
          rw [hswept.strt]
          exact hn
      · exact Or.inr (Or.inl (Or.inr hrest))
    · exact Or.inr (Or.inr hd)
  · have hnil : g.strt.getD g.sweepstrgc [] = [] := by
      rw [List.getD_eq_getElem?_getD,
        List.getElem?_eq_none (Nat.le_of_not_lt hi)]
      rfl
    have hset : g.strt.set g.sweepstrgc [] = g.strt :=
      List.set_eq_of_length_le (Nat.le_of_not_lt hi)
    unfold GlobalState.sweepstrings
    rw [hnil, sweepwholelist]
    refine ⟨?_, rfl⟩
    refine Relisted.inv (g := g) ⟨rfl, rfl, ?_, ?_⟩ hg hne ?_
    · show ((g.strt.set g.sweepstrgc []).flatten).Perm g.strt.flatten
      rw [hset]
    · show 0 < g.strt.length -> 0 < (g.strt.set g.sweepstrgc []).length
      rw [hset]
      exact id
    intro y hy
    rcases hg.swept hne y hy with hw | hu | hd
    · exact Or.inl hw
    · rcases hu with ⟨hs, n, rfl, hn⟩ | hrest
      · rw [List.drop_eq_nil_of_le (Nat.le_of_not_lt hi)] at hn
        cases hn
      · exact Or.inr (Or.inl (Or.inr hrest))
    · exact Or.inr (Or.inr hd)

end GlobalState
end Gc
end LuaServer
