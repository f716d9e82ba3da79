import LuaServer.Gc.Program
import LuaServer.Gc.Sweeping

/-!
# Stores and their barriers

A store may leave a black object with a reference to a white one.  Until the
barrier of the store the invariant holds but for that reference.
-/

namespace LuaServer
namespace Gc
namespace GlobalState

variable {g g' : GlobalState}

/-!
# The invariant before the barrier
-/

/-- In the mark phase, but for the references of `x` to the objects in `fresh`. -/
structure PropagatingBut (g : GlobalState) (x : GCObject)
    (fresh : List GCObject) : Prop where
  noDead : forall y, g.isdead y = false
  marked : forall y, y ∈ g.oldRoots -> g.iswhite y = false
  tricolor : Library.Tricolor g.Dark g.White (fun y => g.Pending y ∨ y = x)
    g.slots
  stored : g.Dark x -> g.Pending x ∨
    forall y, y ∈ g.slots x -> g.White y -> y ∈ fresh
  lists : g.GrayLists

/-- The invariant, but for the references of `x` to the objects in `fresh`. -/
structure Exposed (g : GlobalState) (x : GCObject) (fresh : List GCObject) :
    Prop where
  closed : g.Closed
  linked : g.Linked
  upvals : g.Upvals
  colors : g.Colors
  allocated : g.Alive x
  propagating : g.gcstate = .propagate -> g.PropagatingBut x fresh
  swept : g.gcstate ≠ .propagate -> g.Swept

/-- An object that is neither black nor pending refers to nothing white. -/
theorem PropagatingBut.pending {x : GCObject} {fresh : List GCObject}
    (h : g.PropagatingBut x fresh) (hx : g.Dark x) (hblack : g.isblack x = false) :
    g.Pending x ∨ g.slots x = [] := by
  rcases dark_cases hx with hgray | hb
  · rcases h.lists.grays x hgray with hlist | hopen | ⟨n, rfl⟩
    · exact Or.inl (Or.inl hlist)
    · exact Or.inl (Or.inr (Or.inl hopen))
    · exact Or.inr rfl
  · rw [hblack] at hb
    cases hb

namespace Exposed

variable {x o : GCObject} {fresh : List GCObject}

theorem inv (h : Exposed g x fresh)
    (hsafe : g.gcstate = .propagate -> g.Dark x -> g.Pending x ∨
      forall y, y ∈ g.slots x -> ¬g.White y) : g.Inv where
  closed := h.closed
  linked := h.linked
  upvals := h.upvals
  colors := h.colors
  propagating := by
    intro hstate
    have hp := h.propagating hstate
    refine ⟨hp.noDead, hp.marked, ?_, hp.lists⟩
    intro y hy
    by_cases hyx : y = x
    · rw [hyx] at hy ⊢
      exact hsafe hstate hy
    · exact (hp.tricolor y hy).imp_left fun hor => hor.resolve_right hyx
  swept := h.swept

theorem done (h : Exposed g x []) : g.Inv := by
  refine h.inv ?_
  intro hstate hx
  refine ((h.propagating hstate).stored hx).imp_right ?_
  intro hstored y hy hwhite
  cases hstored y hy hwhite

theorem notBlack (h : Exposed g x fresh) (hblack : g.isblack x = false) :
    g.Inv := by
  refine h.inv ?_
  intro hstate hx
  refine ((h.propagating hstate).pending hx hblack).imp_right ?_
  intro hnil y hy
  rw [hnil] at hy
  cases hy

theorem marks (h : Exposed g x (o :: fresh)) (hstate : g.gcstate = .propagate)
    (hmarks : Marks g g') (hdark : g'.iswhite o = false) :
    Exposed g' x fresh := by
  have hp := h.propagating hstate
  refine ⟨hmarks.closed hp.noDead h.closed, hmarks.sameLinks.linked h.linked,
    hmarks.sameLinks.upvals h.upvals, hmarks.colors h.colors,
    (hmarks.alive hp.noDead x).mpr h.allocated, fun _ => ?_,
    fun hne => absurd (hmarks.gcstate.trans hstate) hne⟩
  refine ⟨fun y => hmarks.isdead (hp.noDead y), ?_, ?_, ?_,
    hmarks.grayLists hp.lists⟩
  · intro y hy
    rw [hmarks.oldRoots] at hy
    exact hmarks.dark (hp.marked y hy)
  · refine hmarks.tricolor (fun y => g'.Pending y ∨ y = x) hp.tricolor ?_ ?_
    · exact fun y hy => hy.imp_left hmarks.pending
    · exact fun y hy => Or.inl (Or.inl (List.mem_append_left _ hy))
  · intro hx
    cases hwhite : g.iswhite x with
    | false =>
        rcases hp.stored ((hmarks.dark_iff hwhite).mp hx) with hpending | hstored
        · exact Or.inl (hmarks.pending hpending)
        · right
          intro y hy hwy
          rw [hmarks.slots] at hy
          rcases List.mem_cons.mp (hstored y hy (hmarks.wasWhite hwy)) with
            rfl | hy
          · exact absurd (hwy.symm.trans hdark) Bool.noConfusion
          · exact hy
    | true =>
        rcases hmarks.shaded_cases hwhite hx.2 with hlist | hcovered
        · exact Or.inl (Or.inl (List.mem_append_left _ hlist))
        · right
          intro y hy hwy
          exact absurd (hwy.symm.trans (hcovered y hy)) Bool.noConfusion

theorem skip (h : Exposed g x (o :: fresh))
    (hskip : (g.iswhite o && g.isblack x) = false) : Exposed g x fresh := by
  refine { h with propagating := fun hstate => ?_ }
  have hp := h.propagating hstate
  refine { hp with stored := fun hx => ?_ }
  cases hblack : g.isblack x with
  | false =>
      refine (hp.pending hx hblack).imp_right ?_
      intro hnil y hy
      rw [hnil] at hy
      cases hy
  | true =>
      rw [hblack, Bool.and_true] at hskip
      refine (hp.stored hx).imp_right ?_
      intro hstored y hy hwy
      rcases List.mem_cons.mp (hstored y hy hwy) with rfl | hy
      · exact absurd (hwy.symm.trans hskip) Bool.noConfusion
      · exact hy

theorem objbarrier (h : Exposed g x [o]) : (g.objbarrier x o).Inv := by
  cases hneeded : g.iswhite o && g.isblack x with
  | false =>
      have hsame : g.objbarrier x o = g := by
        unfold GlobalState.objbarrier
        rw [hneeded]
        rfl
      rw [hsame]
      exact (h.skip hneeded).done
  | true =>
      have hblack : g.isblack x = true := (Bool.and_eq_true _ _ ▸ hneeded).2
      by_cases hstate : g.gcstate = .propagate
      · rcases objbarrier_marks (o := o) hstate hblack with ⟨hmarks, hdark⟩
        exact (h.marks hstate hmarks hdark).done
      · have hwhite : g.objbarrier x o = g.makewhite x := by
          unfold GlobalState.objbarrier barrierf
          rw [hneeded, if_pos rfl, if_neg hstate]
        rw [hwhite]
        have hinv := h.inv fun hs => absurd hs hstate
        exact hinv.makewhite hstate h.allocated.1 fun y hy =>
          h.closed.slots x y h.allocated hy

theorem barrier {v : TValue} (h : Exposed g x v.gcvalue.toList) :
    (g.barrier x v).Inv := by
  unfold GlobalState.barrier
  cases hv : v.gcvalue with
  | none =>
      rw [hv] at h
      exact h.done
  | some o =>
      rw [hv] at h
      exact h.objbarrier

end Exposed

/-!
# Barriers of tables
-/

theorem color?_barrierback (t : Nat) (halloc : g.Allocated (.table t))
    (y : GCObject) :
    (g.barrierback t).color? y =
      if y = .table t then some .gray else g.color? y := by
  have hpaint : (g.barrierback t).color? y =
      (g.paint (.table t) .gray).color? y := rfl
  rw [hpaint]
  by_cases hy : y = .table t
  · rw [if_pos hy, hy]
    exact color?_paint_allocated _ halloc
  · rw [if_neg hy]
    exact color?_paint_of_ne _ hy

theorem sameLinks_barrierback (g : GlobalState) (t : Nat) :
    SameLinks g (g.barrierback t) := by
  have hpaint := sameLinks_paint g (.table t) .gray
  exact ⟨hpaint.allocated, hpaint.fixed, rfl, rfl, rfl, rfl, rfl,
    fun _ _ _ => Iff.rfl, fun _ => rfl, fun _ _ _ _ _ hl => hl⟩

theorem graylists_barrierback (t : Nat) :
    (g.barrierback t).graylists.Perm (.table t :: g.graylists) :=
  List.perm_middle

theorem GrayLists.barrierback {t : Nat} (hg : g.GrayLists)
    (hblack : g.isblack (.table t) = true) : (g.barrierback t).GrayLists := by
  have hperm := graylists_barrierback (g := g) t
  have hcolor := color?_barrierback t (allocated_of_isblack hblack)
  have hne : forall y, g.isgray y = true -> y ≠ .table t := by
    intro y hy heq
    subst heq
    rw [isgray_iff, isblack_iff.mp hblack] at hy
    cases hy
  refine ⟨?_, ?_, ?_⟩
  · intro y hy
    rw [hperm.mem_iff, List.mem_cons]
    rw [isgray_iff, hcolor] at hy
    split at hy
    · rename_i hyt
      exact Or.inl (Or.inl hyt)
    · rcases hg.grays y (isgray_iff.mpr hy) with hlist | hother
      · exact Or.inl (Or.inr hlist)
      · exact Or.inr hother
  · intro y hy
    rw [hperm.mem_iff, List.mem_cons] at hy
    rw [isgray_iff, hcolor]
    rcases hy with rfl | hy
    · exact ⟨if_pos rfl, rfl⟩
    · rcases hg.lists y hy with ⟨hgray, htrav⟩
      rw [if_neg (hne y hgray)]
      exact ⟨isgray_iff.mp hgray, htrav⟩
  · rw [hperm.nodup_iff, List.nodup_cons]
    exact ⟨fun hmem => hne _ (hg.lists _ hmem).1 rfl, hg.nodup⟩

theorem Exposed.barrierback {t : Nat} {fresh : List GCObject}
    (h : Exposed g (.table t) fresh) (hblack : g.isblack (.table t) = true) :
    (g.barrierback t).Inv := by
  have hcolor := color?_barrierback t (allocated_of_isblack hblack)
  have hlinks := sameLinks_barrierback g t
  have hgray : (g.barrierback t).isgray (.table t) = true :=
    isgray_iff.mpr ((hcolor _).trans (if_pos rfl))
  have hwhite : forall y, (g.barrierback t).iswhite y = g.iswhite y := by
    intro y
    by_cases hy : y = .table t
    · rw [hy, iswhite_of_isgray hgray, iswhite_of_isblack hblack]
    · exact iswhite_eq_of_color? ((hcolor y).trans (if_neg hy))
  have hdead : forall y, (g.barrierback t).isdead y = g.isdead y := by
    intro y
    by_cases hy : y = .table t
    · rw [hy, isdead_of_dark (iswhite_of_isgray hgray),
        isdead_of_dark (iswhite_of_isblack hblack)]
    · have hcurrent : (g.barrierback t).currentwhite = g.currentwhite := rfl
      unfold isdead
      rw [hcolor, if_neg hy, hcurrent]
  have halive : forall y, (g.barrierback t).Alive y <-> g.Alive y := by
    intro y
    rw [Alive, Alive, hlinks.allocated, hdead]
  refine ⟨⟨?_, ?_, ?_⟩, hlinks.linked h.linked, hlinks.upvals h.upvals,
    ⟨?_, ?_⟩, ?_, ?_⟩
  · intro y z hy hz
    rw [halive] at hy ⊢
    exact h.closed.slots y z hy hz
  · intro y hy
    rw [halive]
    exact h.closed.roots y hy
  · intro n hn
    rw [halive]
    exact h.closed.due n hn
  · intro y hy
    rw [isblack_iff, hcolor] at hy
    split at hy
    · cases hy
    · rw [hlinks.blackens]
      exact h.colors.black y (isblack_iff.mpr hy)
  · intro n
    rw [isgray_eq_of_color? ((hcolor _).trans (if_neg GCObject.noConfusion))]
    exact h.colors.udata n
  · intro hstate
    have hp := h.propagating hstate
    have hpending : forall y, g.Pending y -> (g.barrierback t).Pending y := by
      intro y hy
      rcases hy with hy | hy
      · left
        rw [(graylists_barrierback t).mem_iff]
        exact List.mem_cons_of_mem _ hy
      · exact Or.inr hy
    refine ⟨fun y => (hdead y).trans (hp.noDead y), ?_, ?_,
      hp.lists.barrierback hblack⟩
    · intro y hy
      exact (hwhite y).trans (hp.marked y hy)
    · refine hp.tricolor.recolor ?_ ?_
      · intro y z _ _ hz
        exact (hwhite z).symm.trans hz
      · intro y hy
        refine Or.inl ⟨⟨(hlinks.allocated y).mp hy.1,
          (hwhite y).symm.trans hy.2⟩, ?_⟩
        intro hold
        rcases hold with hold | rfl
        · exact hpending y hold
        · left
          rw [(graylists_barrierback t).mem_iff]
          exact List.mem_cons_self
  · intro hne y hy
    have hold := h.swept hne y ((hlinks.allocated y).mp hy)
    rw [hcolor]
    split
    · rename_i hyt
      rw [hyt] at hold ⊢
      rcases hold with hw | hu
      · rw [isblack_iff.mp hblack] at hw
        cases hw
      · exact Or.inr hu
    · exact hold

theorem Inv.exposed (hg : g.Inv) {x : GCObject} (hx : g.Alive x)
    (fresh : List GCObject) : Exposed g x fresh where
  closed := hg.closed
  linked := hg.linked
  upvals := hg.upvals
  colors := hg.colors
  allocated := hx
  propagating := by
    intro hstate
    have hp := hg.propagating hstate
    refine ⟨hp.noDead, hp.marked, ?_, ?_, hp.lists⟩
    · exact fun y hy => (hp.tricolor y hy).imp_left Or.inl
    · intro hdark
      refine (hp.tricolor x hdark).imp_right ?_
      intro hslots y hy hwhite
      exact absurd hwhite (hslots y hy)
  swept := hg.swept

theorem Exposed.objbarriert {t : Nat} {o : GCObject} {fresh : List GCObject}
    (h : Exposed g (.table t) (o :: fresh)) :
    Exposed (g.objbarriert t o) (.table t) fresh := by
  unfold GlobalState.objbarriert
  cases hneeded : g.iswhite o && g.isblack (.table t) with
  | false => exact h.skip hneeded
  | true =>
      rw [if_pos rfl]
      have hblack : g.isblack (.table t) = true :=
        (Bool.and_eq_true _ _ ▸ hneeded).2
      refine (h.barrierback hblack).exposed ?_ fresh
      constructor
      · have hcolor := color?_barrierback t (allocated_of_isblack hblack)
          (.table t)
        rw [if_pos rfl] at hcolor
        exact allocated_iff.mpr ⟨_, hcolor⟩
      · have hcolor := color?_barrierback t (allocated_of_isblack hblack)
          (.table t)
        rw [if_pos rfl] at hcolor
        exact isdead_of_dark (iswhite_of_isgray (isgray_iff.mpr hcolor))

theorem Exposed.barriert {t : Nat} {v : TValue} {fresh : List GCObject}
    (h : Exposed g (.table t) (v.gcvalue.toList ++ fresh)) :
    Exposed (g.barriert t v) (.table t) fresh := by
  unfold GlobalState.barriert
  cases hv : v.gcvalue with
  | none =>
      rw [hv] at h
      exact h
  | some o =>
      rw [hv] at h
      exact h.objbarriert

/-!
# Writing an object
-/

/--
References to the objects in `fresh` have been stored in `x`.  Where others have
changed too the collector will come to them again.
-/
structure Written (g g' : GlobalState) (x : GCObject) (fresh : List GCObject) :
    Prop where
  frame : g' = { g with objs := g'.objs }
  links : SameLinks g g'
  slots : forall y z, z ∈ g'.slots y -> z ∈ g.slots y ∨ z ∈ fresh
  others : g.gcstate = .propagate -> forall y, y ≠ x -> g.Dark y ->
    g.Pending y ∨ forall z, z ∈ g'.slots y -> z ∈ g.slots y

namespace Written

variable {x : GCObject} {fresh : List GCObject}

theorem marked (h : Written g g' x fresh) : g'.marked = g.marked := by
  rw [h.frame]

theorem color? (h : Written g g' x fresh) (y : GCObject) :
    g'.color? y = g.color? y := color?_eq_of_marked h.marked

theorem isdead (h : Written g g' x fresh) (y : GCObject) :
    g'.isdead y = g.isdead y := by
  unfold GlobalState.isdead
  rw [h.color?, show g'.currentwhite = g.currentwhite by rw [h.frame]]

theorem alive (h : Written g g' x fresh) (y : GCObject) :
    g'.Alive y <-> g.Alive y := by
  rw [Alive, Alive, h.isdead, h.links.allocated]

theorem closedRefs (h : Written g g' x fresh) (hg : g.Closed)
    (hfresh : forall y, y ∈ fresh -> g.Alive y) : g'.Closed where
  slots := by
    intro y z hy hz
    rw [h.alive] at hy ⊢
    rcases h.slots y z hz with hold | hnew
    · exact hg.slots y z hy hold
    · exact hfresh z hnew
  roots := by
    intro y hy
    rw [h.alive]
    have hroots : g'.roots = g.roots := by
      rw [h.frame]
      rfl
    exact hg.roots y (hroots ▸ hy)
  due := by
    intro n hn
    rw [h.alive]
    rw [h.links.tmudata] at hn
    exact hg.due n hn

theorem colors (h : Written g g' x fresh) (hg : g.Colors) : g'.Colors where
  black := by
    intro y hy
    rw [isblack_eq_of_color? (h.color? y)] at hy
    rw [h.links.blackens]
    exact hg.black y hy
  udata := by
    intro n
    rw [isgray_eq_of_color? (h.color? _)]
    exact hg.udata n

theorem graylists (h : Written g g' x fresh) : g'.graylists = g.graylists := by
  rw [h.frame]
  rfl

theorem pending (h : Written g g' x fresh) (y : GCObject) :
    g'.Pending y <-> g.Pending y := by
  rw [Pending, Pending, h.graylists, h.links.openUpval, h.links.due]

theorem grayLists (h : Written g g' x fresh) (hg : g.GrayLists) :
    g'.GrayLists where
  grays := by
    intro y hy
    rw [isgray_eq_of_color? (h.color? y)] at hy
    rw [h.graylists, h.links.openUpval]
    exact hg.grays y hy
  lists := by
    intro y hy
    rw [h.graylists] at hy
    rw [isgray_eq_of_color? (h.color? y)]
    exact hg.lists y hy
  nodup := by
    rw [h.graylists]
    exact hg.nodup

theorem unswept (h : Written g g' x fresh) (y : GCObject) :
    g'.Unswept y <-> g.Unswept y := by
  have hopened := h.links.opened
  unfold Unswept
  rw [h.frame] at hopened ⊢
  simp only [hopened]

theorem propagating (h : Written g g' x fresh) (hg : g.Propagating)
    (hstate : g.gcstate = .propagate) : g'.PropagatingBut x fresh := by
  have hwhite : forall y, g'.iswhite y = g.iswhite y :=
    fun y => iswhite_eq_of_color? (h.color? y)
  have hdark : forall y, g'.Dark y <-> g.Dark y := by
    intro y
    rw [Dark, Dark, hwhite, h.links.allocated]
  refine ⟨fun y => (h.isdead y).trans (hg.noDead y), ?_, ?_, ?_,
    h.grayLists hg.lists⟩
  · intro y hy
    have hroots : g'.oldRoots = g.oldRoots := by
      rw [h.frame]
      rfl
    rw [hroots] at hy
    exact (hwhite y).trans (hg.marked y hy)
  · intro y hy
    by_cases hyx : y = x
    · exact Or.inl (Or.inr hyx)
    · rcases h.others hstate y hyx ((hdark y).mp hy) with hp | hsub
      · exact Or.inl (Or.inl ((h.pending y).mpr hp))
      · rcases hg.tricolor y ((hdark y).mp hy) with hp | hslots
        · exact Or.inl (Or.inl ((h.pending y).mpr hp))
        · right
          intro z hz hwz
          exact hslots z (hsub z hz) ((hwhite z).symm.trans hwz)
  · intro hx
    rw [h.pending]
    refine (hg.tricolor x ((hdark x).mp hx)).imp_right ?_
    intro hslots y hy hwy
    refine (h.slots x y hy).resolve_left ?_
    intro hold
    exact hslots y hold ((hwhite y).symm.trans hwy)

theorem exposed (h : Written g g' x fresh) (hg : g.Inv) (hx : g.Alive x)
    (hfresh : forall y, y ∈ fresh -> g.Alive y) : Exposed g' x fresh where
  closed := h.closedRefs hg.closed hfresh
  linked := h.links.linked hg.linked
  upvals := h.links.upvals hg.upvals
  colors := h.colors hg.colors
  allocated := (h.alive x).mpr hx
  propagating := by
    intro hstate
    rw [h.frame] at hstate
    exact h.propagating (hg.propagating hstate) hstate
  swept := by
    intro hne y hy
    rw [h.frame] at hne
    rw [h.color?, h.unswept, h.links.due,
      show g'.currentwhite = g.currentwhite by rw [h.frame]]
    exact hg.swept hne y ((h.links.allocated y).mp hy)

end Written

def GCObject.inert : GCObject -> Bool
  | .upval _ => false
  | .thread _ => false
  | _ => true

theorem written_write {x : GCObject} (hx : GCObject.inert x = true)
    (p : x.Payload) {fresh : List GCObject}
    (hself : forall y, y ∈ (g.write x p).slots x ->
      y ∈ g.slots x ∨ y ∈ fresh) : Written g (g.write x p) x fresh := by
  have hup : (g.write x p).upval = g.upval := by
    funext n
    refine objs_write_of_ne g x p ?_
    intro heq
    subst heq
    cases hx
  have hth : (g.write x p).thread = g.thread := by
    funext n
    refine objs_write_of_ne g x p ?_
    intro heq
    subst heq
    cases hx
  have hvalue : (g.write x p).upvalValue = g.upvalValue := by
    funext n
    simp only [upvalValue, hup, stackAt, hth]
  have hothers : forall y, y ≠ x -> (g.write x p).slots y = g.slots y := by
    intro y hy
    cases y with
    | string n => rfl
    | upval n => simp only [slots, hvalue]
    | thread n => simp only [slots, hth]
    | udata n => simp only [slots, udata, objs_write_of_ne g x p hy]
    | function n => simp only [slots, function, objs_write_of_ne g x p hy]
    | table n => simp only [slots, table, objs_write_of_ne g x p hy]
    | proto n => simp only [slots, proto, objs_write_of_ne g x p hy]
  refine ⟨rfl, ⟨fun _ => Iff.rfl, fun _ => rfl, rfl, rfl, rfl, rfl, rfl, ?_, ?_,
    ?_⟩, ?_, fun _ y hy _ => Or.inr fun z hz => hothers y hy ▸ hz⟩
  · intro n th l
    rw [hup]
  · intro th
    rw [hth]
  · intro n th l _ _ hl
    rw [hth]
    exact hl
  · intro y z hz
    by_cases hy : y = x
    · rw [hy] at hz ⊢
      exact hself z hz
    · rw [hothers y hy] at hz
      exact Or.inl hz

/-!
# Writing the stack
-/

theorem thread_setStack (th n : Nat) (values : List TValue) :
    (g.setStack th values).thread n =
      if n = th then { g.thread th with stack := values } else g.thread n :=
  g.thread_setThread th n _

theorem upval_setStack (th : Nat) (values : List TValue) :
    (g.setStack th values).upval = g.upval :=
  funext fun _ => objs_write_of_ne g (.thread th) _ GCObject.noConfusion

theorem openUpval_of_opened {n th l : Nat} (h : g.upval n = .opened th l) :
    g.OpenUpval (.upval n) := by
  refine ⟨n, rfl, ?_⟩
  unfold isOpened
  rw [h]

theorem mem_slots_setStack (th : Nat) (values : List TValue) {y z : GCObject}
    (hz : z ∈ (g.setStack th values).slots y) :
    z ∈ g.slots y ∨ y = .thread th ∧ z ∈ referents values ∨
      exists n l, y = .upval n ∧ g.upval n = .opened th l ∧
        z ∈ referents [values[l]?.getD .nil] := by
  have hobjs : forall x, x ≠ .thread th ->
      (g.setStack th values).objs x = g.objs x :=
    fun x hx => objs_write_of_ne g (.thread th) _ hx
  cases y with
  | string n => cases hz
  | udata n =>
      left
      simpa only [slots, udata, hobjs (.udata n) GCObject.noConfusion] using hz
  | function n =>
      left
      simpa only [slots, function, hobjs (.function n) GCObject.noConfusion]
        using hz
  | table n =>
      left
      simpa only [slots, table, hobjs (.table n) GCObject.noConfusion] using hz
  | proto n =>
      left
      simpa only [slots, proto, hobjs (.proto n) GCObject.noConfusion] using hz
  | thread n =>
      simp only [slots, thread_setStack] at hz ⊢
      split at hz
      · rename_i hn
        rw [hn]
        rcases mem_referents.mp hz with ⟨v, hv, hgc⟩
        rcases List.mem_cons.mp hv with rfl | hv
        · exact Or.inl (mem_referents.mpr ⟨_, List.mem_cons_self, hgc⟩)
        · exact Or.inr (Or.inl ⟨rfl, mem_referents.mpr ⟨v, hv, hgc⟩⟩)
      · exact Or.inl hz
  | upval n =>
      simp only [slots, upvalValue, upval_setStack] at hz ⊢
      cases hup : g.upval n with
      | closed v =>
          rw [hup] at hz
          exact Or.inl hz
      | opened t l =>
          rw [hup] at hz
          simp only [stackAt, thread_setStack] at hz ⊢
          split at hz
          · rename_i ht
            subst ht
            exact Or.inr (Or.inr ⟨n, l, rfl, hup, hz⟩)
          · exact Or.inl hz

theorem referents_getElem? {values : List TValue} {l : Nat} {z : GCObject}
    (hz : z ∈ referents [values[l]?.getD .nil]) :
    exists v, values[l]? = some v ∧ v.gcvalue = some z := by
  rcases mem_referents.mp hz with ⟨v, hv, hgc⟩
  rw [List.mem_singleton] at hv
  subst hv
  cases hget : values[l]? with
  | none =>
      rw [hget] at hgc
      cases hgc
  | some w =>
      rw [hget] at hgc
      exact ⟨w, rfl, hgc⟩

theorem sameLinks_setStack {th : Nat} {values : List TValue} (hg : g.Upvals)
    (hth : g.Allocated (.thread th))
    (hlevels : forall n, n ∈ (g.thread th).openupval ->
      g.level n < values.length) : SameLinks g (g.setStack th values) := by
  refine ⟨fun _ => Iff.rfl, fun _ => rfl, rfl, rfl, rfl, rfl, rfl, ?_, ?_, ?_⟩
  · intro n t l
    rw [upval_setStack]
  · intro t
    rw [thread_setStack]
    split
    · rename_i ht
      rw [ht]
    · rfl
  · intro n t l hn hup hl
    rw [thread_setStack]
    split
    · rename_i ht
      subst ht
      have hlevel := hlevels n (hg.opened n t l hn hup).2
      unfold level at hlevel
      rw [hup] at hlevel
      exact hlevel
    · exact hl

theorem Inv.setStack (hg : g.Inv) {th : Nat} {values : List TValue}
    (hth : g.Alive (.thread th))
    (hvalues : forall x, x ∈ referents values -> g.Alive x)
    (hlevels : forall n, n ∈ (g.thread th).openupval ->
      g.level n < values.length) : (g.setStack th values).Inv := by
  have hwritten : Written g (g.setStack th values) (.thread th)
      (referents values) := by
    refine ⟨rfl, sameLinks_setStack hg.upvals hth.1 hlevels, ?_, ?_⟩
    · intro y z hz
      refine (mem_slots_setStack th values hz).imp_right ?_
      intro hz
      rcases hz with ⟨_, hz⟩ | ⟨n, l, _, _, hz⟩
      · exact hz
      · rcases referents_getElem? hz with ⟨v, hget, hgc⟩
        exact mem_referents.mpr ⟨v, List.mem_of_getElem? hget, hgc⟩
    · intro _ y hy _
      by_cases hopen : g.OpenUpval y
      · exact Or.inl (Or.inr (Or.inl hopen))
      · right
        intro z hz
        refine (mem_slots_setStack th values hz).resolve_right ?_
        intro hup
        rcases hup with ⟨hyt, _⟩ | ⟨n, l, rfl, hup, _⟩
        · exact hy hyt
        · exact hopen (openUpval_of_opened hup)
  refine (hwritten.exposed hg hth hvalues).notBlack ?_
  cases hblack : (g.setStack th values).isblack (.thread th) with
  | false => rfl
  | true =>
      have hkind := (hwritten.colors hg.colors).black _ hblack
      cases hkind

/-- Before the top is lowered the upvalues above it are closed. -/
theorem Inv.restack (hg : g.Inv) {th : Nat} {values : List TValue}
    (hth : g.Alive (.thread th))
    (hvalues : forall x, x ∈ referents values -> g.Alive x) :
    (g.restack th values).Inv := by
  rcases hg.close hth.1 values.length with ⟨hclosing, hlevels⟩
  refine hclosing.inv.setStack
    (hclosing.alive (fun _ => GCObject.noConfusion) hth) ?_ hlevels
  intro x hx
  refine hclosing.alive ?_ (hvalues x hx)
  rcases mem_referents.mp hx with ⟨v, _, hgc⟩
  exact TValue.ne_upval hgc

theorem Inv.push (hg : g.Inv) {v : TValue}
    (hv : forall x, v.gcvalue = some x -> g.Alive x) : (g.push v).Inv := by
  have hrunning : g.Alive (.thread g.running) := by
    refine hg.closed.roots _ ?_
    exact List.mem_append_left _ (List.mem_append_left _
      (List.mem_cons_of_mem _ List.mem_cons_self))
  refine @Inv.setStack g hg g.running ((g.thread g.running).stack ++ [v])
    hrunning ?_ ?_
  · intro x hx
    rw [referents_append] at hx
    rcases List.mem_append.mp hx with hx | hx
    · refine hg.closed.slots _ x hrunning ?_
      rcases mem_referents.mp hx with ⟨w, hw, hgc⟩
      exact mem_referents.mpr ⟨w, List.mem_cons_of_mem _ hw, hgc⟩
    · rcases mem_referents.mp hx with ⟨w, hw, hgc⟩
      rw [List.mem_singleton] at hw
      exact hv x (hw ▸ hgc)
  · intro n hn
    rcases hg.upvals.listed _ n hrunning.1 hn with ⟨_, l, hup, hl⟩
    unfold level
    rw [hup, List.length_append]
    exact Nat.lt_of_lt_of_le hl (Nat.le_add_right _ _)

end GlobalState
end Gc
end LuaServer
