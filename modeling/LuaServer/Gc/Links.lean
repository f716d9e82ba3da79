import LuaServer.Gc.Clearing

/-!
# Links, barriers and freed objects

A new link changes nothing but the list it is put in, and a barrier in the mark
phase is marking.  An object that is dead may go: nothing alive refers to it.
-/

namespace LuaServer
namespace Gc
namespace GlobalState

variable {g g' : GlobalState}

/-!
# Links
-/

/-- The object has been put in the list `rootgc`. -/
structure Inserted (g g' : GlobalState) (x : GCObject) : Prop where
  frame : g' = { g with passed := g'.passed, sweepgc := g'.sweepgc }
  perm : g'.rootgc.Perm (x :: g.rootgc)
  kept : forall y, y ∈ g.sweepgc -> y ∈ g'.sweepgc

theorem inserted_linkroot (g : GlobalState) (x : GCObject) :
    Inserted g (g.linkroot x) x := by
  unfold linkroot
  cases hpassed : g.passed with
  | nil =>
      refine ⟨rfl, ?_, fun y hy => List.mem_cons_of_mem x hy⟩
      unfold rootgc
      simp only [hpassed]
      exact List.Perm.refl _
  | cons y rest =>
      refine ⟨rfl, ?_, fun y hy => hy⟩
      unfold rootgc
      simp only [hpassed]
      exact List.Perm.refl _

theorem perm_insertAfter {m : GCObject} (x : GCObject) {l : List GCObject}
    (hm : m ∈ l) : (insertAfter m x l).Perm (x :: l) := by
  induction l with
  | nil => cases hm
  | cons y rest ih =>
      rw [insertAfter]
      split
      · exact List.Perm.swap x y rest
      · rename_i hne
        have hrest : m ∈ rest := by
          rcases List.mem_cons.mp hm with heq | hrest
          · exact absurd heq.symm hne
          · exact hrest
        exact ((ih hrest).cons y).trans (List.Perm.swap x y rest)

theorem inserted_linkudata (x : GCObject)
    (hmain : .thread g.mainthread ∈ g.rootgc) :
    Inserted g (g.linkudata x) x := by
  unfold linkudata
  simp only
  split
  · rename_i hmem
    split
    · refine ⟨rfl, ?_, fun y hy => List.mem_cons_of_mem x hy⟩
      exact List.perm_middle
    · refine ⟨rfl, ?_, fun y hy => hy⟩
      exact (perm_insertAfter x hmem).append_right g.sweepgc
  · rename_i hnot
    have hmem : .thread g.mainthread ∈ g.sweepgc :=
      (List.mem_append.mp hmain).resolve_left hnot
    refine ⟨rfl, ?_, ?_⟩
    · exact ((perm_insertAfter x hmem).append_left g.passed).trans
        List.perm_middle
    · intro y hy
      exact (perm_insertAfter x hmem).mem_iff.mpr (List.mem_cons_of_mem x hy)

theorem Inserted.marked {x : GCObject} (h : Inserted g g' x) :
    g'.marked = g.marked := by
  rw [h.frame]

/-!
# Barriers
-/

theorem objbarrier_marks (hstate : g.gcstate = .propagate)
    {p o : GCObject} (hblack : g.isblack p = true) :
    Marks g (g.objbarrier p o) ∧ (g.objbarrier p o).iswhite o = false := by
  unfold objbarrier barrierf
  rw [hblack, Bool.and_true, if_pos hstate]
  split
  · rename_i hwhite
    exact g.marks_reallymarkobject hwhite
  · rename_i hdark
    exact ⟨Marks.refl g, Bool.eq_false_of_not_eq_true hdark⟩

theorem barrier_marks (hstate : g.gcstate = .propagate) {p : GCObject}
    (hblack : g.isblack p = true) (v : TValue) :
    Marks g (g.barrier p v) ∧
      forall x, v.gcvalue = some x -> (g.barrier p v).iswhite x = false := by
  unfold barrier
  cases hv : v.gcvalue with
  | none => exact ⟨Marks.refl g, fun x hx => by cases hx⟩
  | some o =>
      rcases objbarrier_marks (o := o) hstate hblack with ⟨hmarks, hdark⟩
      refine ⟨hmarks, ?_⟩
      intro x hx
      cases hx
      exact hdark

/-!
# The colors of an object
-/

theorem color?_paint_of_ne {x y : GCObject} (c : Color) (h : y ≠ x) :
    (g.paint x c).color? y = g.color? y :=
  (color?_paint g x c y).trans (if_neg h)

theorem iswhite_of_isdead {x : GCObject} (h : g.isdead x = true) :
    g.iswhite x = true :=
  iswhite_iff.mpr ⟨_, isdead_iff.mp h⟩

theorem isdead_of_color? {x : GCObject}
    (h : g.color? x = some (.white g.currentwhite)) : g.isdead x = false := by
  cases hd : g.isdead x with
  | false => rfl
  | true =>
      have hcolor := isdead_iff.mp hd
      rw [h] at hcolor
      cases hcw : g.currentwhite <;> rw [hcw] at hcolor <;> cases hcolor

/-- Nothing is dead but in a sweep. -/
theorem Inv.noDead (hg : g.Inv)
    (hsweep : g.gcstate ≠ .sweepstring) (hsweep' : g.gcstate ≠ .sweep)
    (x : GCObject) : g.isdead x = false := by
  by_cases hstate : g.gcstate = .propagate
  · exact (hg.propagating hstate).noDead x
  · cases hd : g.isdead x with
    | false => rfl
    | true =>
        have halloc := allocated_of_iswhite (iswhite_of_isdead hd)
        have hrest : g.gcstate = .pause ∨ g.gcstate = .finalize := by
          cases hs : g.gcstate with
          | pause => exact Or.inl rfl
          | finalize => exact Or.inr rfl
          | propagate => exact absurd hs hstate
          | sweepstring => exact absurd hs hsweep
          | sweep => exact absurd hs hsweep'
        rcases (hg.swept hstate).white hrest halloc with hwhite | ⟨n, rfl, hn⟩
        · exact hd.symm.trans (isdead_of_color? hwhite)
        · exact hd.symm.trans (hg.closed.due n hn).2

theorem Colors.opened (hg : g.Colors) {n : Nat} (h : g.isOpened n = true) :
    g.isblack (.upval n) = false := by
  cases hb : g.isblack (.upval n) with
  | false => rfl
  | true =>
      have hblackens := hg.black _ hb
      rw [blackens_upval, h] at hblackens
      cases hblackens

theorem sameLinks_paint (g : GlobalState) (x : GCObject) (c : Color) :
    SameLinks g (g.paint x c) :=
  ⟨fun y => allocated_iff_of_fixed (g.fixed_paint x c y), g.fixed_paint x c,
    rfl, rfl, rfl, rfl, rfl, fun _ _ _ => Iff.rfl, fun _ => rfl,
    fun _ _ _ _ _ hl => hl⟩

/-!
# A dead object is freed
-/

theorem color?_release (x y : GCObject) :
    (g.release x).color? y = if y = x then none else g.color? y := by
  unfold color? release
  by_cases h : y = x
  · simp [h]
  · simp [h]

theorem allocated_release {x y : GCObject} :
    (g.release x).Allocated y <-> y ≠ x ∧ g.Allocated y := by
  rw [allocated_iff, color?_release]
  by_cases h : y = x
  · simp [h]
  · rw [if_neg h, allocated_iff]
    exact ⟨fun hc => ⟨h, hc⟩, fun hc => hc.2⟩

/-- The state in which a dead object is gone, and the others are as they were. -/
structure Released (g g' : GlobalState) (x : GCObject) : Prop where
  dead : g.isdead x = true
  marked : g'.marked = (g.release x).marked
  currentwhite : g'.currentwhite = g.currentwhite
  gcstate : g'.gcstate = g.gcstate
  slots : forall y, g'.slots y = g.slots y
  upval : g'.upval = g.upval
  roots : g'.roots = g.roots
  mainthread : g'.mainthread = g.mainthread
  tmudata : g'.tmudata = g.tmudata

namespace Released

variable {x : GCObject}

theorem color? (h : Released g g' x) (y : GCObject) :
    g'.color? y = if y = x then none else g.color? y := by
  rw [color?_eq_of_marked h.marked, color?_release]

theorem allocated (h : Released g g' x) (y : GCObject) :
    g'.Allocated y <-> y ≠ x ∧ g.Allocated y := by
  rw [← allocated_release, Allocated, h.marked]
  rfl

theorem isdead (h : Released g g' x) {y : GCObject} (hy : y ≠ x) :
    g'.isdead y = g.isdead y := by
  unfold GlobalState.isdead
  rw [h.color?, if_neg hy, h.currentwhite]

theorem alive (h : Released g g' x) (y : GCObject) :
    g'.Alive y <-> g.Alive y := by
  unfold Alive
  rw [h.allocated]
  by_cases hy : y = x
  · rw [hy, h.dead]
    simp
  · rw [h.isdead hy]
    simp [hy]

theorem closed (h : Released g g' x) (hg : g.Closed) : g'.Closed where
  slots := by
    intro y z hy hz
    rw [h.alive] at hy ⊢
    rw [h.slots] at hz
    exact hg.slots y z hy hz
  roots := by
    intro y hy
    rw [h.alive]
    rw [h.roots] at hy
    exact hg.roots y hy
  due := by
    intro n hn
    rw [h.alive]
    rw [h.tmudata] at hn
    exact hg.due n hn

theorem sweeping (h : Released g g' x) (hg : g.Inv) :
    g.gcstate = .sweepstring ∨ g.gcstate = .sweep := by
  by_cases h1 : g.gcstate = .sweepstring
  · exact Or.inl h1
  · by_cases h2 : g.gcstate = .sweep
    · exact Or.inr h2
    · exact absurd (h.dead.symm.trans (hg.noDead h1 h2 x)) Bool.noConfusion

theorem notPropagate (h : Released g g' x) (hg : g.Inv) :
    g'.gcstate ≠ .propagate := by
  rw [h.gcstate]
  rcases h.sweeping hg with hs | hs <;> rw [hs] <;> exact GCState.noConfusion

theorem isOpened (h : Released g g' x) (n : Nat) :
    g'.isOpened n = g.isOpened n := by
  unfold GlobalState.isOpened
  rw [h.upval]

theorem level (h : Released g g' x) (n : Nat) : g'.level n = g.level n := by
  unfold GlobalState.level
  rw [h.upval]

theorem rooted (h : Released g g' x) (y : GCObject) :
    g'.rooted y = g.rooted y := by
  cases y with
  | upval n => rw [rooted_upval, rooted_upval, h.isOpened]
  | _ => rfl

theorem colors (h : Released g g' x) (hg : g.Colors) : g'.Colors where
  black := by
    intro y hy
    rw [isblack_iff, h.color?] at hy
    split at hy
    · cases hy
    · have hold := hg.black y (isblack_iff.mpr hy)
      cases y with
      | upval n =>
          rw [blackens_upval, h.isOpened]
          exact hold
      | _ => exact hold
  udata := by
    intro n
    cases hgray : g'.isgray (.udata n) with
    | false => rfl
    | true =>
        rw [isgray_iff, h.color?] at hgray
        split at hgray
        · cases hgray
        · have hnot := hg.udata n
          rw [isgray_iff.mpr hgray] at hnot
          cases hnot

theorem marked_of_ne (h : Released g g' x) {y : GCObject} (hy : y ≠ x) :
    g'.marked y = g.marked y := by
  rw [h.marked]
  simp [release, hy]

theorem marked_self (h : Released g g' x) : g'.marked x = none := by
  rw [h.marked]
  simp [release]

theorem ne_mainthread (h : Released g g' x) (hg : g.Closed) :
    .thread g.mainthread ≠ x := by
  intro heq
  subst heq
  have halive := hg.roots (.thread g.mainthread) List.mem_cons_self
  exact Bool.noConfusion (h.dead.symm.trans halive.2)

theorem ne_due (h : Released g g' x) (hg : g.Closed) {n : Nat}
    (hn : n ∈ g.tmudata) : .udata n ≠ x := by
  intro heq
  subst heq
  exact Bool.noConfusion (h.dead.symm.trans (hg.due n hn).2)

theorem linked (h : Released g g' x) (hg : g.Inv)
    (hroot : g'.rootgc = g.rootgc.erase x)
    (hstrings : forall n, n ∈ g'.strings <-> .string n ≠ x ∧ n ∈ g.strings)
    (hnodup : g'.strings.Nodup) (htable : 0 < g'.strt.length) :
    g'.Linked where
  main := by
    rw [h.mainthread, hroot, List.mem_erase_of_ne (h.ne_mainthread hg.closed)]
    exact hg.linked.main
  fixed := by
    rw [h.mainthread, h.marked_of_ne (h.ne_mainthread hg.closed)]
    exact hg.linked.fixed
  fixedKinds := by
    intro y hy
    rw [h.mainthread]
    by_cases hyx : y = x
    · rw [hyx, h.marked_self] at hy
      cases hy
    · rw [h.marked_of_ne hyx] at hy
      exact hg.linked.fixedKinds y hy
  nodup := by
    rw [hroot]
    exact hg.linked.nodup.erase x
  allocated := by
    intro y hy
    rw [hroot, hg.linked.nodup.mem_erase_iff] at hy
    rw [h.allocated, h.rooted]
    have hold := hg.linked.allocated y hy.2
    exact ⟨⟨hy.1, hold.1⟩, hold.2⟩
  listed := by
    intro y hy hr
    rcases (h.allocated y).mp hy with ⟨hyx, halloc⟩
    rw [h.rooted] at hr
    rw [hroot, List.mem_erase_of_ne hyx, Due, h.tmudata]
    exact hg.linked.listed y halloc hr
  due := by
    intro n hn
    rw [h.tmudata] at hn
    rw [h.allocated, hroot, List.mem_erase_of_ne (h.ne_due hg.closed hn)]
    exact ⟨⟨h.ne_due hg.closed hn, (hg.linked.due n hn).1⟩,
      (hg.linked.due n hn).2⟩
  dueNodup := by
    rw [h.tmudata]
    exact hg.linked.dueNodup
  strings := by
    intro n
    rw [h.allocated, hstrings, hg.linked.strings]
  stringsNodup := hnodup
  table := htable

theorem swept (h : Released g g' x) (hg : g.Inv)
    (hunswept : forall y, y ≠ x -> g.Allocated y -> g.Unswept y ->
      g'.Unswept y) : g'.Swept := by
  intro y hy
  rcases (h.allocated y).mp hy with ⟨hyx, halloc⟩
  have hne : g.gcstate ≠ .propagate := by
    rw [← h.gcstate]
    exact h.notPropagate hg
  rw [h.color?, if_neg hyx, h.currentwhite, Due, h.tmudata]
  rcases hg.swept hne y halloc with hw | hu | hd
  · exact Or.inl hw
  · exact Or.inr (Or.inl (hunswept y hyx halloc hu))
  · exact Or.inr (Or.inr hd)

/-- A dead object may be freed once nothing links it. -/
theorem inv (h : Released g g' x) (hg : g.Inv) (hlinked : g'.Linked)
    (hupvals : g'.Upvals)
    (hunswept : forall y, y ≠ x -> g.Allocated y -> g.Unswept y ->
      g'.Unswept y) : g'.Inv where
  closed := h.closed hg.closed
  linked := hlinked
  upvals := hupvals
  colors := h.colors hg.colors
  propagating := fun hstate => absurd hstate (h.notPropagate hg)
  swept := fun _ => h.swept hg hunswept

theorem upvals (h : Released g g' x) (hg : g.Upvals)
    (hthread : forall th, x = .thread th -> (g.thread th).openupval = [])
    (hupval : forall n, x = .upval n -> g.isOpened n = false)
    (hthreads : g'.thread = g.thread) (huvhead : g'.uvhead = g.uvhead) :
    g'.Upvals where
  opened := by
    intro n th l halloc hup
    rw [h.upval] at hup
    have hold := hg.opened n th l ((h.allocated _).mp halloc).2 hup
    rw [h.allocated, hthreads]
    refine ⟨⟨?_, hold.1⟩, hold.2⟩
    intro heq
    subst heq
    have hmem := hold.2
    rw [hthread th rfl] at hmem
    cases hmem
  listed := by
    intro th n halloc hn
    rw [hthreads] at hn ⊢
    rcases hg.listed th n ((h.allocated _).mp halloc).2 hn with
      ⟨hold, l, hup, hl⟩
    rw [h.allocated, h.upval]
    refine ⟨⟨?_, hold⟩, l, hup, hl⟩
    intro heq
    subst heq
    have hclosed := hupval n rfl
    unfold GlobalState.isOpened at hclosed
    rw [hup] at hclosed
    cases hclosed
  sorted := by
    intro th halloc
    rw [hthreads]
    refine (hg.sorted th ((h.allocated _).mp halloc).2).imp ?_
    intro m n hmn
    rw [h.level, h.level]
    exact hmn
  uvhead := by
    intro n
    rw [huvhead, h.allocated, h.isOpened, hg.uvhead]
    refine ⟨fun hp => ⟨⟨?_, hp.1⟩, hp.2⟩, fun hp => ⟨hp.1.2, hp.2⟩⟩
    intro heq
    subst heq
    exact Bool.noConfusion (hp.2.symm.trans (hupval n rfl))
  uvheadNodup := by
    rw [huvhead]
    exact hg.uvheadNodup

end Released

/-!
# White outside the mark phase
-/

theorem sameLinks_makewhite (g : GlobalState) (x : GCObject) :
    SameLinks g (g.makewhite x) := sameLinks_paint g x _

theorem currentwhite_makewhite (g : GlobalState) (x : GCObject) :
    (g.makewhite x).currentwhite = g.currentwhite := rfl

theorem color?_makewhite_of_ne {x y : GCObject} (h : y ≠ x) :
    (g.makewhite x).color? y = g.color? y := color?_paint_of_ne _ h

theorem isdead_makewhite {x : GCObject} (h : g.Allocated x) (y : GCObject) :
    (g.makewhite x).isdead y = if y = x then false else g.isdead y := by
  by_cases hy : y = x
  · rw [if_pos hy, hy]
    exact isdead_of_color? (color?_makewhite h)
  · rw [if_neg hy]
    unfold isdead
    rw [color?_makewhite_of_ne hy, currentwhite_makewhite]

theorem alive_makewhite {x : GCObject} (h : g.Allocated x) (y : GCObject) :
    (g.makewhite x).Alive y <-> y = x ∨ g.Alive y := by
  unfold Alive
  rw [isdead_makewhite h, (sameLinks_makewhite g x).allocated]
  by_cases hy : y = x
  · rw [if_pos hy, hy]
    exact ⟨fun _ => Or.inl rfl, fun _ => ⟨h, rfl⟩⟩
  · rw [if_neg hy]
    exact ⟨Or.inr, fun hor => hor.resolve_left hy⟩

/--
An object may get the current white outside the mark phase, unless it refers to
what is dead.
-/
theorem makewhite_inv {x : GCObject} (hclosed : g.Closed) (hlinked : g.Linked)
    (hupvals : g.Upvals) (hcolors : g.Colors) (hne : g.gcstate ≠ .propagate)
    (hx : g.Allocated x) (hslots : forall y, y ∈ g.slots x -> g.Alive y)
    (hswept : forall y, y ≠ x -> g.Allocated y ->
      g.color? y = some (.white g.currentwhite) ∨ g.Unswept y ∨ g.Due y) :
    (g.makewhite x).Inv := by
  have hlinks := sameLinks_makewhite g x
  refine ⟨⟨?_, ?_, ?_⟩, hlinks.linked hlinked, hlinks.upvals hupvals,
    ⟨?_, ?_⟩, fun h => absurd h hne, fun _ => ?_⟩
  · intro y z hy hz
    rw [alive_makewhite hx] at hy ⊢
    right
    rcases hy with rfl | hy
    · exact hslots z hz
    · exact hclosed.slots y z hy hz
  · intro y hy
    rw [alive_makewhite hx]
    exact Or.inr (hclosed.roots y hy)
  · intro n hn
    rw [alive_makewhite hx]
    exact Or.inr (hclosed.due n hn)
  · intro y hy
    by_cases hyx : y = x
    · rw [hyx, isblack_iff, color?_makewhite hx] at hy
      cases hy
    · rw [isblack_iff, color?_makewhite_of_ne hyx] at hy
      exact hcolors.black y (isblack_iff.mpr hy)
  · intro n
    cases hgray : (g.makewhite x).isgray (.udata n) with
    | false => rfl
    | true =>
        rw [isgray_iff] at hgray
        by_cases hnx : .udata n = x
        · rw [hnx, color?_makewhite hx] at hgray
          cases hgray
        · rw [color?_makewhite_of_ne hnx] at hgray
          have hnot := hcolors.udata n
          rw [isgray_iff.mpr hgray] at hnot
          cases hnot
  · intro y hy
    by_cases hyx : y = x
    · rw [hyx]
      exact Or.inl (color?_makewhite hx)
    · rw [color?_makewhite_of_ne hyx]
      exact hswept y hyx ((hlinks.allocated y).mp hy)

theorem Inv.makewhite (hg : g.Inv) (hne : g.gcstate ≠ .propagate)
    {x : GCObject} (hx : g.Allocated x)
    (hslots : forall y, y ∈ g.slots x -> g.Alive y) : (g.makewhite x).Inv :=
  makewhite_inv hg.closed hg.linked hg.upvals hg.colors hne hx hslots
    fun y _ hy => hg.swept hne y hy

end GlobalState
end Gc
end LuaServer
