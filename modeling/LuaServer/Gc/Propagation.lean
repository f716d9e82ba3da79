import LuaServer.Gc.Invariant

/-!
# The mark phase keeps the invariant

Marking turns white objects dark and leaves everything else as it is; a step of
the propagation settles one gray object; `markroot` starts the phase.
-/

namespace LuaServer
namespace Gc
namespace GlobalState

variable {g g' base : GlobalState}

/-!
# Colors
-/

theorem isdead_of_dark {x : GCObject} (h : g.iswhite x = false) :
    g.isdead x = false := by
  cases hd : g.isdead x with
  | false => rfl
  | true =>
      have hwhite := iswhite_iff.mpr ⟨_, isdead_iff.mp hd⟩
      exact absurd (hwhite.symm.trans h) Bool.noConfusion

theorem iswhite_of_isgray {x : GCObject} (h : g.isgray x = true) :
    g.iswhite x = false :=
  iswhite_of_color? (isgray_iff.mp h) fun _ => Color.noConfusion

theorem iswhite_of_isblack {x : GCObject} (h : g.isblack x = true) :
    g.iswhite x = false :=
  iswhite_of_color? (isblack_iff.mp h) fun _ => Color.noConfusion

theorem isgray_eq_of_color? {x : GCObject} (h : g'.color? x = g.color? x) :
    g'.isgray x = g.isgray x := by
  simp [isgray, h]

theorem isblack_eq_of_color? {x : GCObject} (h : g'.color? x = g.color? x) :
    g'.isblack x = g.isblack x := by
  simp [isblack, h]

theorem dark_cases {x : GCObject} (h : g.Dark x) :
    g.isgray x = true ∨ g.isblack x = true := by
  rcases allocated_iff.mp h.1 with ⟨c, hc⟩
  cases c with
  | white b =>
      exact absurd ((iswhite_iff.mpr ⟨b, hc⟩).symm.trans h.2) Bool.noConfusion
  | gray => exact Or.inl (isgray_iff.mpr hc)
  | black => exact Or.inr (isblack_iff.mpr hc)

theorem allocated_of_isgray {x : GCObject} (h : g.isgray x = true) :
    g.Allocated x :=
  allocated_iff.mpr ⟨_, isgray_iff.mp h⟩

theorem allocated_of_isblack {x : GCObject} (h : g.isblack x = true) :
    g.Allocated x :=
  allocated_iff.mpr ⟨_, isblack_iff.mp h⟩

theorem allocated_of_iswhite {x : GCObject} (h : g.iswhite x = true) :
    g.Allocated x := by
  rcases iswhite_iff.mp h with ⟨b, hb⟩
  exact allocated_iff.mpr ⟨_, hb⟩

theorem allocated_iff_of_fixed {x : GCObject}
    (h : (g'.marked x).map Marked.fixed = (g.marked x).map Marked.fixed) :
    g'.Allocated x <-> g.Allocated x := by
  unfold Allocated
  cases hm : g.marked x with
  | none =>
      rw [hm] at h
      simp [Option.map_eq_none_iff.mp h]
  | some m =>
      rw [hm] at h
      rcases Option.map_eq_some_iff.mp h with ⟨m', hm', _⟩
      simp [hm']

/-!
# Marking
-/

namespace Marks

theorem sameLinks (h : Marks g g') : SameLinks g g' where
  allocated := fun x => allocated_iff_of_fixed (h.fixed x)
  fixed := h.fixed
  rootgc := by
    rw [h.frame]
    rfl
  tmudata := by rw [h.frame]
  strt := by rw [h.frame]
  uvhead := by rw [h.frame]
  mainthread := by rw [h.frame]
  opened := by
    intro n th l
    rw [upval, h.objs]
    rfl
  openupval := by
    intro th
    rw [thread, h.objs]
    rfl
  stack := by
    intro n th l _ _ hl
    rw [thread, h.objs]
    exact hl

theorem roots (h : Marks g g') : g'.roots = g.roots := by
  rw [h.frame]
  rfl

theorem oldRoots (h : Marks g g') : g'.oldRoots = g.oldRoots := by
  rw [h.frame]
  rfl

theorem currentwhite (h : Marks g g') : g'.currentwhite = g.currentwhite := by
  rw [h.frame]

theorem gcstate (h : Marks g g') : g'.gcstate = g.gcstate := by
  rw [h.frame]

theorem grayagain (h : Marks g g') : g'.grayagain = g.grayagain := by
  rw [h.frame]

theorem isdead (h : Marks g g') {x : GCObject} (hx : g.isdead x = false) :
    g'.isdead x = false := by
  cases hwhite : g'.iswhite x with
  | false => exact isdead_of_dark hwhite
  | true =>
      unfold GlobalState.isdead at hx ⊢
      rw [h.white x hwhite, h.currentwhite]
      exact hx

theorem dark_iff (h : Marks g g') {x : GCObject} (hx : g.iswhite x = false) :
    g'.Dark x <-> g.Dark x := by
  unfold Dark
  rw [h.sameLinks.allocated, hx, h.dark hx]

theorem graylists (h : Marks g g') :
    exists new, g'.graylists = new ++ g.graylists ∧ new.Nodup ∧
      forall x, x ∈ new ->
        g.iswhite x = true ∧ g'.iswhite x = false ∧ x.traversed = true := by
  rcases h.entered with ⟨new, hnew, hnodup, hmem⟩
  refine ⟨new, ?_, hnodup, hmem⟩
  unfold GlobalState.graylists
  rw [hnew, h.grayagain, h.weak, List.append_assoc]

theorem isgray_new (h : Marks g g') {x : GCObject} (hwhite : g.iswhite x = true)
    (hdark : g'.iswhite x = false) (hx : x.traversed = true) :
    g'.isgray x = true := by
  rw [isgray_iff, (h.shaded x hwhite hdark).1]
  cases x with
  | function n => rfl
  | table n => rfl
  | thread n => rfl
  | proto n => rfl
  | _ => cases hx

theorem colors (h : Marks g g') (hg : g.Colors) : g'.Colors where
  black := by
    intro x hx
    rw [h.sameLinks.blackens]
    cases hwhite : g.iswhite x with
    | false =>
        exact hg.black x
          ((isblack_eq_of_color? (h.kept x hwhite)).symm.trans hx)
    | true =>
        have hcolor := (h.shaded x hwhite (iswhite_of_isblack hx)).1
        rw [isblack_iff.mp hx, Option.some.injEq] at hcolor
        cases x with
        | udata n => rfl
        | upval n =>
            rw [restColor_upval] at hcolor
            rw [blackens_upval]
            cases hopen : g.isOpened n with
            | false => rfl
            | true =>
                rw [hopen] at hcolor
                cases hcolor
        | _ => cases hcolor
  udata := by
    intro n
    cases hgray : g'.isgray (.udata n) with
    | false => rfl
    | true =>
        cases hwhite : g.iswhite (.udata n) with
        | false =>
            have hold := isgray_eq_of_color? (h.kept (.udata n) hwhite)
            rw [hgray, hg.udata n] at hold
            cases hold
        | true =>
            have hcolor :=
              (h.shaded (.udata n) hwhite (iswhite_of_isgray hgray)).1
            rw [isgray_iff.mp hgray] at hcolor
            cases hcolor

/-- What turns dark is on the gray list, or all it refers to is dark. -/
theorem shaded_cases (h : Marks g g') {x : GCObject}
    (hwhite : g.iswhite x = true) (hdark : g'.iswhite x = false) :
    x ∈ g'.gray ∨ g'.Covered x := by
  rcases h.shaded x hwhite hdark with ⟨_, hgray, hcovered⟩
  cases htrav : x.traversed with
  | true => exact Or.inl (hgray htrav)
  | false =>
      right
      intro y hy
      rw [h.slots] at hy
      exact hcovered htrav y hy

theorem tricolor (h : Marks g g') {pending : GCObject -> Prop}
    (pending' : GCObject -> Prop)
    (hg : Library.Tricolor g.Dark g.White pending g.slots)
    (hpending : forall x, pending x -> pending' x)
    (hgray : forall x, x ∈ g'.gray -> pending' x) :
    Library.Tricolor g'.Dark g'.White pending' g'.slots := by
  rw [h.slots]
  refine hg.recolor (fun _ y _ _ hy => h.wasWhite hy) ?_
  intro x hx
  cases hwhite : g.iswhite x with
  | false => exact Or.inl ⟨(h.dark_iff hwhite).mp hx, hpending x⟩
  | true =>
      right
      rcases h.shaded_cases hwhite hx.2 with hlist | hcovered
      · exact Or.inl (hgray x hlist)
      · right
        intro y hy hwy
        rw [← h.slots] at hy
        exact absurd (hwy.symm.trans (hcovered y hy)) Bool.noConfusion

theorem pending (h : Marks g g') {x : GCObject} (hx : g.Pending x) :
    g'.Pending x := by
  rcases hx with hx | hx | hx
  · rcases h.graylists with ⟨new, hnew, _⟩
    left
    rw [hnew]
    exact List.mem_append_right new hx
  · exact Or.inr (Or.inl ((h.sameLinks.openUpval x).mpr hx))
  · exact Or.inr (Or.inr ((h.sameLinks.due x).mpr hx))

theorem grayLists (h : Marks g g') (hg : g.GrayLists) : g'.GrayLists where
  grays := by
    intro x hx
    rcases h.graylists with ⟨new, hnew, _⟩
    rw [hnew, h.sameLinks.openUpval]
    cases hwhite : g.iswhite x with
    | false =>
        have hold := isgray_eq_of_color? (h.kept x hwhite)
        rcases hg.grays x (hold.symm.trans hx) with hlist | hother
        · exact Or.inl (List.mem_append_right new hlist)
        · exact Or.inr hother
    | true =>
        rcases h.shaded x hwhite (iswhite_of_isgray hx) with ⟨hcolor, hgray, _⟩
        rw [← hnew]
        have hlisted : x.traversed = true -> x ∈ g'.graylists :=
          fun htrav => List.mem_append_left _ (hgray htrav)
        rw [isgray_iff.mp hx, Option.some.injEq] at hcolor
        cases x with
        | string n => exact Or.inr (Or.inr ⟨n, rfl⟩)
        | udata n => cases hcolor
        | upval n =>
            rw [restColor_upval] at hcolor
            cases hopen : g.isOpened n with
            | false =>
                rw [hopen] at hcolor
                cases hcolor
            | true => exact Or.inr (Or.inl ⟨n, rfl, hopen⟩)
        | _ => exact Or.inl (hlisted rfl)
  lists := by
    intro x hx
    rcases h.graylists with ⟨new, hnew, _, hmem⟩
    rw [hnew] at hx
    rcases List.mem_append.mp hx with hx | hx
    · rcases hmem x hx with ⟨hwhite, hdark, htrav⟩
      exact ⟨h.isgray_new hwhite hdark htrav, htrav⟩
    · rcases hg.lists x hx with ⟨hgray, htrav⟩
      exact ⟨(isgray_eq_of_color? (h.kept x (iswhite_of_isgray hgray))).trans
        hgray, htrav⟩
  nodup := by
    rcases h.graylists with ⟨new, hnew, hnodup, hmem⟩
    rw [hnew]
    refine List.Nodup.append hnodup hg.nodup ?_
    intro x hx hold
    have hdark := iswhite_of_isgray (hg.lists x hold).1
    exact absurd ((hmem x hx).1.symm.trans hdark) Bool.noConfusion

theorem alive (h : Marks g g') (hdead : forall x, g.isdead x = false)
    (x : GCObject) : g'.Alive x <-> g.Alive x := by
  unfold Alive
  rw [h.sameLinks.allocated, hdead x, h.isdead (hdead x)]

theorem closed (h : Marks g g') (hdead : forall x, g.isdead x = false)
    (hg : g.Closed) : g'.Closed where
  slots := by
    intro x y hx hy
    rw [h.alive hdead] at hx ⊢
    rw [h.slots] at hy
    exact hg.slots x y hx hy
  roots := by
    intro x hx
    rw [h.alive hdead]
    rw [h.roots] at hx
    exact hg.roots x hx
  due := by
    intro n hn
    rw [h.alive hdead]
    rw [h.sameLinks.tmudata] at hn
    exact hg.due n hn

end Marks

/-!
# One step of the propagation
-/

/-- What `propagatemark` has done when it starts to mark. -/
structure Popped (g base : GlobalState) (o : GCObject) (rest : List GCObject) :
    Prop where
  frame : base = { g with
    objs := base.objs
    marked := base.marked
    gray := base.gray
    grayagain := base.grayagain
    weak := base.weak }
  same : SameObjs g base
  objs : forall x, x ≠ o -> base.objs x = g.objs x
  fixed : forall x,
    (base.marked x).map Marked.fixed = (g.marked x).map Marked.fixed
  other : forall x, x ≠ o -> base.color? x = g.color? x
  self : base.iswhite o = false
  gray : base.gray = rest
  again : forall x, x ∈ g.grayagain -> x ∈ base.grayagain
  weak : forall x, x ∈ g.weak -> x ∈ base.weak
  rested : (forall n, o ≠ .thread n) ∧ base.isgray o = false ∧
      base.grayagain ++ base.weak = g.grayagain ++ g.weak ∨
    base.isblack o = false ∧ (g.Allocated o -> base.isgray o = true) ∧
      (base.grayagain ++ base.weak).Perm (o :: (g.grayagain ++ g.weak))

theorem color?_eq_of_marked {x : GCObject} (h : g'.marked = g.marked) :
    g'.color? x = g.color? x := by
  unfold color?
  rw [h]

theorem color?_paint_allocated {x : GCObject} (c : Color)
    (h : g.Allocated x) : (g.paint x c).color? x = some c := by
  rcases allocated_iff.mp h with ⟨d, hd⟩
  rw [color?_paint, if_pos rfl, hd]
  rfl

theorem color?_paint_cases (x : GCObject) (c : Color) :
    (g.paint x c).color? x = none ∨ (g.paint x c).color? x = some c := by
  rw [color?_paint, if_pos rfl]
  cases g.color? x with
  | none => exact Or.inl rfl
  | some d => exact Or.inr rfl

theorem Pops.popped {o : GCObject} {rest : List GCObject}
    (h : Pops g rest o base) : Popped g base o rest := by
  have hother : forall x c y, y ≠ x -> (g.paint x c).color? y = g.color? y :=
    fun x c y hy => (color?_paint g x c y).trans (if_neg hy)
  cases h with
  | strong _ g1 hthread hsame hobjs =>
      refine ⟨rfl, hsame.trans (SameObjs.of_objs rfl), hobjs,
        g.fixed_paint o .black, hother o .black, ?_, rfl, fun x hx => hx,
        fun x hx => hx, Or.inl ⟨hthread, ?_, rfl⟩⟩
      · exact iswhite_paint_self fun _ => Color.noConfusion
      · change (decide ((g.paint o .black).color? o = some .gray)) = false
        rcases color?_paint_cases (g := g) o .black with hc | hc <;>
          simp [hc]
  | thread n =>
      refine ⟨rfl, SameObjs.of_objs rfl, fun _ _ => rfl, g.fixed_paint _ .gray,
        hother _ .gray, ?_, rfl, fun x hx => List.mem_cons_of_mem _ hx,
        fun x hx => hx, Or.inr ⟨?_, ?_, List.Perm.refl _⟩⟩
      · exact iswhite_paint_self fun _ => Color.noConfusion
      · change (decide ((g.paint _ .gray).color? _ = some .black)) = false
        rcases color?_paint_cases (g := g) (.thread n) .gray with hc | hc <;>
          simp [hc]
      · intro halloc
        exact isgray_iff.mpr (color?_paint_allocated .gray halloc)
  | weak t g1 hsame hobjs =>
      refine ⟨rfl, hsame.trans (SameObjs.of_objs rfl), hobjs,
        g.fixed_paint _ .gray, hother _ .gray, ?_, rfl,
        fun x hx => hx, fun x hx => List.mem_cons_of_mem _ hx,
        Or.inr ⟨?_, ?_, List.perm_middle⟩⟩
      · exact iswhite_paint_self fun _ => Color.noConfusion
      · change (decide ((g.paint _ .gray).color? _ = some .black)) = false
        rcases color?_paint_cases (g := g) (.table t) .gray with hc | hc <;>
          simp [hc]
      · intro halloc
        exact isgray_iff.mpr (color?_paint_allocated .gray halloc)

namespace Popped

variable {o : GCObject} {rest : List GCObject}

theorem sameLinks (h : Popped g base o rest) : SameLinks g base where
  allocated := fun x => allocated_iff_of_fixed (h.fixed x)
  fixed := h.fixed
  rootgc := by
    rw [h.frame]
    rfl
  tmudata := by rw [h.frame]
  strt := by rw [h.frame]
  uvhead := by rw [h.frame]
  mainthread := by rw [h.frame]
  opened := by
    intro n th l
    rw [h.same.upval]
  openupval := by
    intro th
    rw [h.same.thread]
  stack := by
    intro n th l _ _ hl
    rw [h.same.thread]
    exact hl

theorem roots (h : Popped g base o rest) : base.roots = g.roots := by
  rw [h.frame]
  rfl

theorem oldRoots (h : Popped g base o rest) : base.oldRoots = g.oldRoots := by
  rw [h.frame]
  rfl

theorem white (h : Popped g base o rest) {x : GCObject}
    (hx : g.iswhite x = false) : base.iswhite x = false := by
  by_cases hxo : x = o
  · rw [hxo]
    exact h.self
  · rw [iswhite_eq_of_color? (h.other x hxo)]
    exact hx

theorem gcstate (h : Popped g base o rest) : base.gcstate = g.gcstate := by
  rw [h.frame]

theorem currentwhite (h : Popped g base o rest) :
    base.currentwhite = g.currentwhite := by
  rw [h.frame]

theorem isdead (h : Popped g base o rest) {x : GCObject}
    (hx : g.isdead x = false) : base.isdead x = false := by
  by_cases hxo : x = o
  · rw [hxo]
    exact isdead_of_dark h.self
  · unfold GlobalState.isdead at hx ⊢
    rw [h.other x hxo, h.currentwhite]
    exact hx

theorem closed (h : Popped g base o rest)
    (hdead : forall x, g.isdead x = false) (hg : g.Closed) : base.Closed where
  slots := by
    intro x y hx hy
    rw [h.same.slots] at hy
    exact ⟨(h.sameLinks.allocated y).mpr
      (hg.slots x y ⟨(h.sameLinks.allocated x).mp hx.1, hdead x⟩ hy).1,
      h.isdead (hdead y)⟩
  roots := by
    intro x hx
    rw [h.roots] at hx
    exact ⟨(h.sameLinks.allocated x).mpr (hg.roots x hx).1, h.isdead (hdead x)⟩
  due := by
    intro n hn
    rw [h.sameLinks.tmudata] at hn
    exact ⟨(h.sameLinks.allocated _).mpr (hg.due n hn).1, h.isdead (hdead _)⟩

theorem colors (h : Popped g base o rest) (htrav : o.traversed = true)
    (hg : g.Colors) : base.Colors where
  black := by
    intro x hx
    rw [h.sameLinks.blackens]
    by_cases hxo : x = o
    · rw [hxo] at hx ⊢
      rcases h.rested with ⟨hthread, _⟩ | ⟨hblack, _⟩
      · cases o with
        | thread n => exact absurd rfl (hthread n)
        | function n => rfl
        | table n => rfl
        | proto n => rfl
        | _ => cases htrav
      · rw [hx] at hblack
        cases hblack
    · exact hg.black x ((isblack_eq_of_color? (h.other x hxo)).symm.trans hx)
  udata := by
    intro n
    have hne : GCObject.udata n ≠ o := by
      intro heq
      subst heq
      cases htrav
    rw [isgray_eq_of_color? (h.other _ hne)]
    exact hg.udata n

theorem dark (h : Popped g base o rest) {x : GCObject} (hx : x ≠ o) :
    base.Dark x <-> g.Dark x := by
  unfold Dark
  rw [h.sameLinks.allocated, iswhite_eq_of_color? (h.other x hx)]

/--
The gray object is left out of the tricolor invariant until what it keeps alive
is marked.
-/
theorem tricolor (h : Popped g base o rest)
    {pending : GCObject -> Prop} (pending' : GCObject -> Prop)
    (hg : Library.Tricolor g.Dark g.White pending g.slots)
    (hpending : forall x, x ≠ o -> pending x -> pending' x)
    (hself : pending' o) :
    Library.Tricolor base.Dark base.White pending' base.slots := by
  rw [show base.slots = g.slots from funext h.same.slots]
  refine hg.recolor ?_ ?_
  · intro _ y _ _ hy
    by_cases hyo : y = o
    · rw [hyo] at hy
      exact absurd (hy.symm.trans h.self) Bool.noConfusion
    · exact (iswhite_eq_of_color? (h.other y hyo)).symm.trans hy
  · intro x hx
    by_cases hxo : x = o
    · rw [hxo]
      exact Or.inr (Or.inl hself)
    · exact Or.inl ⟨(h.dark hxo).mp hx, hpending x hxo⟩

theorem mem_graylists (h : Popped g base o rest)
    (hgray : g.gray = o :: rest) (x : GCObject) :
    (x ∈ base.graylists -> x ∈ g.graylists) ∧
      (x ∈ g.graylists -> x ≠ o -> x ∈ base.graylists) := by
  unfold graylists
  rw [h.gray, hgray]
  rcases h.rested with ⟨_, _, htail⟩ | ⟨_, _, hperm⟩
  · rw [htail]
    refine ⟨List.mem_cons_of_mem o, ?_⟩
    intro hx hne
    rcases List.mem_cons.mp hx with heq | hx
    · exact absurd heq hne
    · exact hx
  · simp only [List.cons_append, List.mem_append, List.mem_cons]
    have hmem := hperm.mem_iff (a := x)
    simp only [List.mem_append, List.mem_cons] at hmem
    rw [hmem]
    tauto

theorem grayLists (h : Popped g base o rest) (hgray : g.gray = o :: rest)
    (hg : g.GrayLists) : base.GrayLists where
  grays := by
    intro x hx
    rw [h.sameLinks.openUpval]
    by_cases hxo : x = o
    · rcases h.rested with ⟨_, hnot, _⟩ | ⟨_, _, hperm⟩
      · rw [hxo, hnot] at hx
        cases hx
      · left
        unfold graylists
        rw [hxo]
        exact List.mem_append_right _ (hperm.mem_iff.mpr List.mem_cons_self)
    · rcases hg.grays x
        ((isgray_eq_of_color? (h.other x hxo)).symm.trans hx) with hlist | hother
      · exact Or.inl ((h.mem_graylists hgray x).2 hlist hxo)
      · exact Or.inr hother
  lists := by
    intro x hx
    rcases hg.lists x ((h.mem_graylists hgray x).1 hx) with ⟨hold, htrav⟩
    refine ⟨?_, htrav⟩
    by_cases hxo : x = o
    · rcases h.rested with ⟨_, _, htail⟩ | ⟨_, hself, _⟩
      · have hnodup := hg.nodup
        unfold graylists at hx hnodup
        rw [h.gray, htail, hxo] at hx
        rw [hgray] at hnodup
        exact absurd hx (List.nodup_cons.mp hnodup).1
      · rw [hxo]
        exact hself (allocated_of_isgray (hxo ▸ hold))
    · exact (isgray_eq_of_color? (h.other x hxo)).trans hold
  nodup := by
    have hnodup := hg.nodup
    unfold graylists at hnodup ⊢
    rw [hgray] at hnodup
    rw [h.gray]
    rcases h.rested with ⟨_, _, htail⟩ | ⟨_, _, hperm⟩
    · rw [htail]
      exact (List.nodup_cons.mp hnodup).2
    · have hall : (rest ++ (base.grayagain ++ base.weak)).Perm
          (o :: rest ++ (g.grayagain ++ g.weak)) :=
        (hperm.append_left rest).trans List.perm_middle
      exact hall.nodup_iff.mpr hnodup

end Popped

/-- The state after a step of the propagation, before what it settles counts. -/
theorem propagatemark_step {o : GCObject} {rest : List GCObject}
    (hgray : g.gray = o :: rest) (htrav : o.traversed = true) :
    exists base, Popped g base o rest ∧ Marks base g.propagatemark ∧
      g.propagatemark.Settled o := by
  rcases propagatemark_pops hgray htrav with ⟨base, hpops, hmarks, hsettled⟩
  exact ⟨base, hpops.popped, hmarks, hsettled⟩

theorem Inv.propagatemark (hg : g.Inv) (hstate : g.gcstate = .propagate) :
    g.propagatemark.Inv := by
  cases hgray : g.gray with
  | nil =>
      unfold GlobalState.propagatemark
      rw [hgray]
      exact hg
  | cons o rest =>
      have hprop := hg.propagating hstate
      have htrav : o.traversed = true := by
        refine (hprop.lists.lists o ?_).2
        unfold graylists
        rw [hgray]
        exact List.mem_cons_self
      rcases propagatemark_step hgray htrav with
        ⟨base, hpopped, hmarks, hsettled⟩
      have hdead : forall x, base.isdead x = false :=
        fun x => hpopped.isdead (hprop.noDead x)
      have hlinks := hpopped.sameLinks.trans hmarks.sameLinks
      have hstate' : g.propagatemark.gcstate = .propagate := by
        rw [hmarks.gcstate, hpopped.gcstate, hstate]
      have hbase := hpopped.tricolor (fun x => base.Pending x ∨ x = o)
        hprop.tricolor (by
          intro x hxo hx
          rcases hx with hx | hx | hx
          · exact Or.inl (Or.inl ((hpopped.mem_graylists hgray x).2 hx hxo))
          · exact Or.inl (Or.inr (Or.inl
              ((hpopped.sameLinks.openUpval x).mpr hx)))
          · exact Or.inl (Or.inr (Or.inr ((hpopped.sameLinks.due x).mpr hx))))
        (Or.inr rfl)
      have hnext := hmarks.tricolor
        (fun x => g.propagatemark.Pending x ∨ x = o) hbase
        (fun x hx => hx.imp hmarks.pending id)
        fun x hx => Or.inl (Or.inl (List.mem_append_left _ hx))
      refine ⟨hmarks.closed hdead (hpopped.closed hprop.noDead hg.closed),
        hlinks.linked hg.linked, hlinks.upvals hg.upvals,
        hmarks.colors (hpopped.colors htrav hg.colors), fun _ => ⟨?_, ?_, ?_, ?_⟩,
        fun hne => absurd hstate' hne⟩
      · exact fun x => hmarks.isdead (hdead x)
      · intro x hx
        rw [hmarks.oldRoots, hpopped.oldRoots] at hx
        exact hmarks.dark (hpopped.white (hprop.marked x hx))
      · refine hnext.recolor (fun _ _ _ _ hy => hy) ?_
        intro x hx
        by_cases hxo : x = o
        · right
          rcases hsettled with hcovered | ⟨t, hxt, hweak, _⟩
          · right
            intro y hy hwhite
            rw [hxo] at hy
            exact absurd (hwhite.symm.trans (hcovered y hy)) Bool.noConfusion
          · left
            rw [hxo]
            exact Or.inl (List.mem_append_right _
              (List.mem_append_right _ hweak))
        · exact Or.inl ⟨hx, fun hp => hp.resolve_right hxo⟩
      · exact hmarks.grayLists (hpopped.grayLists hgray hprop.lists)

/-!
# The start of a cycle
-/

theorem Marks.setState (h : Marks g g') (s : GCState) :
    Marks { g with gcstate := s } { g' with gcstate := s } where
  frame := by rw [h.frame]
  fixed := h.fixed
  kept := h.kept
  white := h.white
  shaded := h.shaded
  entered := h.entered

def cycleStart (g : GlobalState) : GlobalState :=
  { g with gray := [], grayagain := [], weak := [], gcstate := .propagate }

theorem marks_markroot (g : GlobalState) :
    Marks g.cycleStart g.markroot ∧
      forall x, x ∈ g.oldRoots -> g.markroot.iswhite x = false := by
  have h1 := marks_markobject { g with gray := [], grayagain := [], weak := [] }
    (.thread g.mainthread)
  have hdark := dark_markobject
    { g with gray := [], grayagain := [], weak := [] } (.thread g.mainthread)
  unfold markroot
  simp only
  generalize markobject { g with gray := [], grayagain := [], weak := [] }
    (.thread g.mainthread) = g1 at h1 hdark ⊢
  have h2 := g1.marks_markvalue (g1.thread g1.mainthread).globals
  generalize g1.markvalue (g1.thread g1.mainthread).globals = g2 at h2 ⊢
  have h3 := g2.marks_markvalue g2.registry
  have hregistry := fun x => @dark_markvalue g2 g2.registry x
  have hsame : g2.registry = g.registry := by
    rw [h2.frame]
    simp only
    rw [h1.frame]
  generalize g2.markvalue g2.registry = g3 at h3 hregistry ⊢
  have h4 := marks_markobjects g3 g3.metatables
  have hmarks := ((h1.trans h2).trans h3).trans h4
  refine ⟨hmarks.setState .propagate, ?_⟩
  intro x hx
  rcases List.mem_cons.mp hx with rfl | hx
  · exact h4.dark (h3.dark (h2.dark hdark))
  · rcases mem_referents.mp hx with ⟨v, hv, hvx⟩
    rw [List.mem_singleton] at hv
    rw [hv, ← hsame] at hvx
    exact h4.dark (hregistry x hvx)

theorem Swept.white (hg : g.Swept)
    (hstate : g.gcstate = .pause ∨ g.gcstate = .finalize) {x : GCObject}
    (hx : g.Allocated x) :
    g.color? x = some (.white g.currentwhite) ∨ g.Due x := by
  rcases hg x hx with hwhite | hunswept | hdue
  · exact Or.inl hwhite
  · rcases hstate with hstate | hstate
    · rcases hunswept with ⟨hs, _⟩ | ⟨hs | hs, _⟩ <;>
        exact absurd (hs.symm.trans hstate) GCState.noConfusion
    · rcases hunswept with ⟨hs, _⟩ | ⟨hs | hs, _⟩ <;>
        exact absurd (hs.symm.trans hstate) GCState.noConfusion
  · exact Or.inr hdue

theorem Inv.markroot (hg : g.Inv)
    (hstate : g.gcstate = .pause ∨ g.gcstate = .finalize) :
    g.markroot.Inv := by
  have hswept := hg.swept (by
    rcases hstate with h | h <;> rw [h] <;> exact GCState.noConfusion)
  have hdead : forall x, g.isdead x = false := by
    intro x
    cases hx : g.isdead x with
    | false => rfl
    | true =>
        have hcolor := isdead_iff.mp hx
        rcases hswept.white hstate (allocated_iff.mpr ⟨_, hcolor⟩) with
          hwhite | ⟨n, rfl, hn⟩
        · rw [hwhite] at hcolor
          cases hcw : g.currentwhite <;> rw [hcw] at hcolor <;> cases hcolor
        · rw [(hg.closed.due n hn).2] at hx
          cases hx
  have hdue : forall x, g.Dark x -> g.Due x := by
    intro x hx
    rcases hswept.white hstate hx.1 with hwhite | hdue
    · exact absurd ((iswhite_iff.mpr ⟨_, hwhite⟩).symm.trans hx.2)
        Bool.noConfusion
    · exact hdue
  rcases g.marks_markroot with ⟨hmarks, hroots⟩
  have hlinks : SameLinks g g.cycleStart :=
    ⟨fun _ => Iff.rfl, fun _ => rfl, rfl, rfl, rfl, rfl, rfl,
      fun _ _ _ => Iff.rfl, fun _ => rfl, fun _ _ _ _ _ hl => hl⟩
  have hnot : forall x, g.isgray x = false := by
    intro x
    cases hx : g.isgray x with
    | false => rfl
    | true =>
        rcases hdue x ⟨allocated_of_isgray hx, iswhite_of_isgray hx⟩ with
          ⟨n, rfl, _⟩
        rw [hg.colors.udata n] at hx
        cases hx
  have hlists : g.cycleStart.GrayLists := by
    refine ⟨?_, ?_, List.nodup_nil⟩
    · intro x hx
      rw [show g.cycleStart.isgray x = g.isgray x from rfl, hnot x] at hx
      cases hx
    · intro x hx
      cases hx
  have htricolor : Library.Tricolor g.cycleStart.Dark g.cycleStart.White
      g.cycleStart.Pending g.cycleStart.slots :=
    fun x hx => Or.inl (Or.inr (Or.inr (hdue x hx)))
  refine ⟨hmarks.closed hdead ⟨hg.closed.slots, hg.closed.roots,
      hg.closed.due⟩,
    (hlinks.trans hmarks.sameLinks).linked hg.linked,
    (hlinks.trans hmarks.sameLinks).upvals hg.upvals,
    hmarks.colors ⟨hg.colors.black, hg.colors.udata⟩, fun _ => ?_, ?_⟩
  · exact ⟨fun x => hmarks.isdead (hdead x),
      fun x hx => hroots x (hmarks.oldRoots ▸ hx),
      hmarks.tricolor _ htricolor (fun _ => hmarks.pending)
        fun _ hx => Or.inl (List.mem_append_left _ hx),
      hmarks.grayLists hlists⟩
  · intro hne
    exact absurd hmarks.gcstate hne

end GlobalState
end Gc
end LuaServer
