import LuaServer.Gc.Finishing

/-!
# The atomic step

At the end of `atomic` nothing that is dark refers to a white object: open
upvalues, weak tables, threads and the userdata that are due have been marked
again, and weak tables have lost their entries that refer to white objects.
-/

namespace LuaServer
namespace Gc
namespace GlobalState

variable {g g' base : GlobalState}

theorem Inv.marking (hg : g.Inv) (hstate : g.gcstate = .propagate) :
    g.Marking where
  noDead := (hg.propagating hstate).noDead
  closed := hg.closed
  linked := hg.linked
  upvals := hg.upvals
  colors := hg.colors
  kinds := fun x hx => ((hg.propagating hstate).lists.lists x hx).2

/-!
# Open upvalues
-/

theorem marks_remarkupval (g : GlobalState) (n : Nat) :
    Marks g (g.remarkupval n) := by
  unfold remarkupval
  split
  · exact g.marks_markvalue _
  · exact Marks.refl g

theorem marks_remarkupvals (g : GlobalState) : Marks g g.remarkupvals :=
  Marks.foldl marks_remarkupval g.uvhead g

theorem Marks.isgray (h : Marks g g') {x : GCObject}
    (hx : g.isgray x = true) : g'.isgray x = true :=
  (isgray_eq_of_color? (h.kept x (iswhite_of_isgray hx))).trans hx

theorem covered_remarkupvals (ns : List Nat) {n : Nat} (hn : n ∈ ns)
    (hgray : g.isgray (.upval n) = true) :
    (ns.foldl remarkupval g).Covered (.upval n) := by
  induction ns generalizing g with
  | nil => cases hn
  | cons m rest ih =>
      rcases List.mem_cons.mp hn with rfl | hn
      · refine (Marks.foldl marks_remarkupval rest _).covered ?_
        intro y hy
        rw [(g.marks_remarkupval n).slots] at hy
        unfold remarkupval
        rw [if_pos hgray]
        exact g.dark_markvalue (g.upvalValue_slots.mp hy)
      · exact ih hn ((g.marks_remarkupval m).isgray hgray)

/-- After `remarkupvals` only listed objects and due userdata are pending. -/
theorem Inv.remarkupvals (hg : g.Inv) (hstate : g.gcstate = .propagate) :
    g.remarkupvals.SettledBut fun x =>
      x ∈ g.remarkupvals.gray ∨ x ∈ g.grayagain ∨ x ∈ g.weak ∨ g.Due x := by
  have hmarks := g.marks_remarkupvals
  have htri := hmarks.tricolor
    (fun x => g.OpenUpval x ∨ x ∈ g.remarkupvals.gray ∨ x ∈ g.grayagain ∨
      x ∈ g.weak ∨ g.Due x) (hg.propagating hstate).tricolor
    (by
      intro x hx
      rcases hx with hx | hx | hx
      · rcases List.mem_append.mp hx with hx | hx
        · exact Or.inr (Or.inl (hmarks.mem_gray hx))
        · rcases List.mem_append.mp hx with hx | hx
          · exact Or.inr (Or.inr (Or.inl hx))
          · exact Or.inr (Or.inr (Or.inr (Or.inl hx)))
      · exact Or.inl hx
      · exact Or.inr (Or.inr (Or.inr (Or.inr hx))))
    (fun x hx => Or.inr (Or.inl hx))
  refine htri.recolor (fun _ _ _ _ hy => hy) ?_
  intro x hx
  by_cases hopen : g.OpenUpval x
  · right
    right
    have hcovered : g.remarkupvals.Covered x := by
      rcases hopen with ⟨n, rfl, hn⟩
      cases hwhite : g.iswhite (.upval n) with
      | true =>
          intro y hy
          rw [hmarks.slots] at hy
          exact (hmarks.shaded _ hwhite hx.2).2.2 rfl y hy
      | false =>
          have halloc := (hmarks.sameLinks.allocated _).mp hx.1
          have hgray : g.isgray (.upval n) = true := by
            rcases dark_cases ⟨halloc, hwhite⟩ with hgray | hblack
            · exact hgray
            · have hblackens := hg.colors.black _ hblack
              rw [blackens_upval, hn] at hblackens
              cases hblackens
          exact covered_remarkupvals g.uvhead
            ((hg.upvals.uvhead n).mpr ⟨halloc, hn⟩) hgray
    intro y hy hwhite
    exact absurd (hwhite.symm.trans (hcovered y hy)) Bool.noConfusion
  · exact Or.inl ⟨hx, fun hp => Or.inl (hp.resolve_left hopen)⟩

/-!
# Userdata that are due
-/

theorem color?_makewhite {x : GCObject} (h : g.Allocated x) :
    (g.makewhite x).color? x = some (.white g.currentwhite) :=
  color?_paint_allocated _ h

theorem paint_self {x : GCObject} {c : Color} (h : g.color? x = some c) :
    g.paint x c = g := by
  unfold paint color? at *
  rcases Option.map_eq_some_iff.mp h with ⟨m, hm, rfl⟩
  rw [hm, Option.map_some]
  have hsame : Function.update g.marked x (some m) = g.marked := by
    rw [← hm]
    exact Function.update_eq_self x g.marked
  rw [hsame]

theorem color?_of_iswhite {x : GCObject} (hdead : g.isdead x = false)
    (hwhite : g.iswhite x = true) :
    g.color? x = some (.white g.currentwhite) := by
  rcases iswhite_iff.mp hwhite with ⟨b, hb⟩
  have hne : b ≠ !g.currentwhite := by
    intro heq
    subst heq
    rw [isdead_iff.mpr hb] at hdead
    cases hdead
  rw [hb]
  cases b <;> cases hcw : g.currentwhite <;> simp_all

/-- A userdata that may be black already is marked again. -/
theorem marktmuTurn_marks {n : Nat} (halloc : g.Allocated (.udata n))
    (hgray : g.isgray (.udata n) = false)
    (hdead : g.isdead (.udata n) = false) :
    Marks g (g.marktmuTurn n) ∧ (g.marktmuTurn n).Covered (.udata n) ∧
      (g.marktmuTurn n).iswhite (.udata n) = false := by
  have hmid := iswhite_iff.mpr ⟨_, color?_makewhite halloc⟩
  rcases (g.makewhite (.udata n)).marks_reallymarkobject hmid with
    ⟨hmarks, hdark⟩
  have hshaded := hmarks.shaded _ hmid hdark
  have hcovered : (g.marktmuTurn n).Covered (.udata n) := by
    intro y hy
    have hslots : (g.marktmuTurn n).slots = (g.makewhite (.udata n)).slots :=
      hmarks.slots
    rw [hslots] at hy
    exact hshaded.2.2 rfl y hy
  refine ⟨?_, hcovered, hdark⟩
  cases hwhite : g.iswhite (.udata n) with
  | true =>
      have hsame : g.makewhite (.udata n) = g :=
        paint_self (color?_of_iswhite hdead hwhite)
      rw [hsame] at hmarks
      unfold marktmuTurn
      rw [hsame]
      exact hmarks
  | false =>
      have hblack : g.color? (.udata n) = some .black := by
        rcases dark_cases ⟨halloc, hwhite⟩ with hg | hb
        · rw [hgray] at hg
          cases hg
        · exact isblack_iff.mp hb
      have hpaint : (g.makewhite (.udata n)).paint (.udata n) .black = g := by
        unfold makewhite
        rw [paint_paint, paint_self hblack]
      -- `reallymarkudata` paints black first, which undoes the white
      have hfrom : Marks g
          ((g.makewhite (.udata n)).reallymarkobject (.udata n)) := by
        change Marks g ((g.makewhite (.udata n)).reallymarkudata n)
        unfold reallymarkudata
        rw [hpaint]
        cases ((g.makewhite (.udata n)).udata n).metatable with
        | none => exact marks_marktable _ _
        | some mt => exact (marks_marktable _ _).trans (marks_marktable _ _)
      exact hfrom

theorem Marking.marktmu (hg : g.Marking) (ns : List Nat)
    (hdue : forall n, n ∈ ns -> n ∈ g.tmudata)
    (hsettled : g.SettledBut fun x =>
      x ∈ g.gray ∨ exists n, x = .udata n ∧ n ∈ ns) :
    Marks g (ns.foldl marktmuTurn g) ∧
      (ns.foldl marktmuTurn g).SettledBut
        (fun x => x ∈ (ns.foldl marktmuTurn g).gray ∨ False) ∧
      forall n, n ∈ ns -> (ns.foldl marktmuTurn g).iswhite (.udata n) = false := by
  induction ns generalizing g with
  | nil =>
      refine ⟨Marks.refl g, hsettled.mono ?_, fun n hn => by cases hn⟩
      intro x _ hn
      rcases hn with hx | ⟨n, _, hn⟩
      · exact Or.inl (Or.inl hx)
      · cases hn
  | cons n rest ih =>
      have halive := hg.closed.due n (hdue n List.mem_cons_self)
      rcases marktmuTurn_marks halive.1 (hg.colors.udata n) halive.2 with
        ⟨hmarks, hcovered, hdark⟩
      have hturn : (g.marktmuTurn n).SettledBut fun x =>
          x ∈ (g.marktmuTurn n).gray ∨ exists m, x = .udata m ∧ m ∈ rest := by
        refine (hmarks.settledBut hsettled).recolor (fun _ _ _ _ hy => hy) ?_
        intro x hx
        by_cases hxn : x = .udata n
        · right
          right
          intro y hy hwhite
          rw [hxn] at hy
          exact absurd (hwhite.symm.trans (hcovered y hy)) Bool.noConfusion
        · refine Or.inl ⟨hx, ?_⟩
          intro hp
          rcases hp with (hp | ⟨m, rfl, hm⟩) | hp
          · exact Or.inl (Or.inl hp)
          · rcases List.mem_cons.mp hm with rfl | hm
            · exact absurd rfl hxn
            · exact Or.inl (Or.inr ⟨m, rfl, hm⟩)
          · exact Or.inr hp
      have hmarking := hg.advances hmarks.advances
      rcases ih hmarking
        (fun m hm => by
          rw [hmarks.sameLinks.tmudata]
          exact hdue m (List.mem_cons_of_mem n hm)) hturn with
        ⟨hrest, hall, hdarks⟩
      refine ⟨hmarks.trans hrest, hall, ?_⟩
      intro m hm
      rcases List.mem_cons.mp hm with rfl | hm
      · exact hrest.dark hdark
      · exact hdarks m hm

end GlobalState
end Gc
end LuaServer
