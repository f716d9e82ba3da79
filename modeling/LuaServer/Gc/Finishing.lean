import LuaServer.Gc.Propagation

/-!
# Propagation without the program

Within the atomic step nothing but the collector runs.  Whatever it traverses
there is settled for good: `propagateall` empties the gray list, and only what is
still to be handled may refer to white objects.
-/

namespace LuaServer
namespace Gc
namespace GlobalState

variable {g g' g'' base : GlobalState}

/-!
# Progress of the collector
-/

/-- The collector has marked and traversed some objects. -/
structure Advances (g g' : GlobalState) : Prop where
  frame : g' = { g with
    objs := g'.objs
    marked := g'.marked
    gray := g'.gray
    grayagain := g'.grayagain
    weak := g'.weak }
  same : SameObjs g g'
  links : SameLinks g g'
  noDead : (forall x, g.isdead x = false) -> forall x, g'.isdead x = false
  dark : forall x, g.iswhite x = false -> g'.iswhite x = false
  colors : (forall x, x ∈ g.gray -> x.traversed = true) -> g.Colors -> g'.Colors
  again : forall x, x ∈ g.grayagain -> x ∈ g'.grayagain
  weak : forall x, x ∈ g.weak -> x ∈ g'.weak
  kinds : (forall x, x ∈ g.graylists -> x.traversed = true) ->
    forall x, x ∈ g'.graylists -> x.traversed = true

theorem Marks.advances (h : Marks g g') : Advances g g' where
  frame := by
    rw [h.frame]
  same := SameObjs.of_objs h.objs
  links := h.sameLinks
  noDead := fun hdead x => h.isdead (hdead x)
  dark := fun _ => h.dark
  colors := fun _ => h.colors
  again := by
    intro x hx
    rw [h.grayagain]
    exact hx
  weak := by
    intro x hx
    rw [h.weak]
    exact hx
  kinds := by
    intro hkinds x hx
    rcases h.graylists with ⟨new, hnew, _, hmem⟩
    rw [hnew] at hx
    rcases List.mem_append.mp hx with hx | hx
    · exact (hmem x hx).2.2
    · exact hkinds x hx

theorem Popped.advances {o : GCObject} {rest : List GCObject}
    (h : Popped g base o rest) (hgray : g.gray = o :: rest) :
    Advances g base where
  frame := h.frame
  same := h.same
  links := h.sameLinks
  noDead := fun hdead x => h.isdead (hdead x)
  dark := fun _ => h.white
  colors := fun hkinds =>
    h.colors (hkinds o (hgray ▸ List.mem_cons_self))
  again := h.again
  weak := h.weak
  kinds := fun hkinds x hx => hkinds x ((h.mem_graylists hgray x).1 hx)

namespace Advances

theorem refl (g : GlobalState) : Advances g g := (Marks.refl g).advances

theorem trans (h : Advances g g') (h' : Advances g' g'')
    (hkinds : forall x, x ∈ g.graylists -> x.traversed = true) :
    Advances g g'' where
  frame := by
    rw [h'.frame, h.frame]
  same := h.same.trans h'.same
  links := h.links.trans h'.links
  noDead := fun hdead => h'.noDead (h.noDead hdead)
  dark := fun x hx => h'.dark x (h.dark x hx)
  colors := by
    intro hgray hg
    refine h'.colors ?_ (h.colors hgray hg)
    exact fun x hx => h.kinds hkinds x (List.mem_append_left _ hx)
  again := fun x hx => h'.again x (h.again x hx)
  weak := fun x hx => h'.weak x (h.weak x hx)
  kinds := fun hkinds => h'.kinds (h.kinds hkinds)

theorem slots (h : Advances g g') : g'.slots = g.slots :=
  funext h.same.slots

theorem roots (h : Advances g g') : g'.roots = g.roots := by
  rw [h.frame]
  rfl

theorem oldRoots (h : Advances g g') : g'.oldRoots = g.oldRoots := by
  rw [h.frame]
  rfl

theorem tmudata (h : Advances g g') : g'.tmudata = g.tmudata := by
  rw [h.frame]

end Advances

/-!
# The state of the atomic step
-/

/-- What holds all through the atomic step. -/
structure Marking (g : GlobalState) : Prop where
  noDead : forall x, g.isdead x = false
  closed : g.Closed
  linked : g.Linked
  upvals : g.Upvals
  colors : g.Colors
  kinds : forall x, x ∈ g.graylists -> x.traversed = true

theorem Marking.advances (hg : g.Marking) (h : Advances g g') : g'.Marking where
  noDead := h.noDead hg.noDead
  closed :=
    { slots := by
        intro x y hx hy
        rw [h.slots] at hy
        exact ⟨(h.links.allocated y).mpr (hg.closed.slots x y
          ⟨(h.links.allocated x).mp hx.1, hg.noDead x⟩ hy).1,
          h.noDead hg.noDead y⟩
      roots := by
        intro x hx
        rw [h.roots] at hx
        exact ⟨(h.links.allocated x).mpr (hg.closed.roots x hx).1,
          h.noDead hg.noDead x⟩
      due := by
        intro n hn
        rw [h.tmudata] at hn
        exact ⟨(h.links.allocated _).mpr (hg.closed.due n hn).1,
          h.noDead hg.noDead _⟩ }
  linked := h.links.linked hg.linked
  upvals := h.links.upvals hg.upvals
  colors := h.colors
    (fun x hx => hg.kinds x (List.mem_append_left _ hx)) hg.colors
  kinds := h.kinds hg.kinds

/-- A weak table in the list of tables to clear, up to its weak entries. -/
def Weakly (g : GlobalState) (x : GCObject) : Prop :=
  exists t, x = .table t ∧ x ∈ g.weak ∧
    forall y, y ∈ (g.table t).strongSlots -> g.iswhite y = false

def SettledBut (g : GlobalState) (todo : GCObject -> Prop) : Prop :=
  Library.Tricolor g.Dark g.White (fun x => todo x ∨ g.Weakly x) g.slots

theorem SettledBut.mono {todo todo' : GCObject -> Prop}
    (hg : g.SettledBut todo)
    (h : forall x, g.Dark x -> todo x -> todo' x ∨ g.Weakly x) :
    g.SettledBut todo' := by
  intro x hx
  rcases hg x hx with (htodo | hweak) | hslots
  · exact Or.inl (h x hx htodo)
  · exact Or.inl (Or.inr hweak)
  · exact Or.inr hslots

theorem Marks.weakly (h : Marks g g') {x : GCObject} (hx : g.Weakly x) :
    g'.Weakly x := by
  rcases hx with ⟨t, rfl, hweak, hslots⟩
  refine ⟨t, rfl, ?_, ?_⟩
  · rw [h.weak]
    exact hweak
  · intro y hy
    rw [table, h.objs] at hy
    exact h.dark (hslots y hy)

theorem Marks.settledBut (h : Marks g g') {todo : GCObject -> Prop}
    (hg : g.SettledBut fun x => x ∈ g.gray ∨ todo x) :
    g'.SettledBut fun x => x ∈ g'.gray ∨ todo x := by
  refine h.tricolor _ hg ?_ ?_
  · intro x hx
    rcases hx with (hx | hx) | hx
    · exact Or.inl (Or.inl (h.mem_gray hx))
    · exact Or.inl (Or.inr hx)
    · exact Or.inr (h.weakly hx)
  · exact fun x hx => Or.inl (Or.inl hx)

theorem Popped.weakly {o : GCObject} {rest : List GCObject}
    (h : Popped g base o rest) {x : GCObject} (hxo : x ≠ o)
    (hx : g.Weakly x) : base.Weakly x := by
  rcases hx with ⟨t, rfl, hweak, hslots⟩
  refine ⟨t, rfl, h.weak _ hweak, ?_⟩
  intro y hy
  rw [table, h.objs _ hxo] at hy
  exact h.white (hslots y hy)

theorem SettledBut.propagatemark {todo : GCObject -> Prop} {o : GCObject}
    {rest : List GCObject} (hgray : g.gray = o :: rest)
    (htrav : o.traversed = true)
    (hg : g.SettledBut fun x => x ∈ g.gray ∨ todo x) :
    g.propagatemark.SettledBut fun x => x ∈ g.propagatemark.gray ∨ todo x := by
  rcases propagatemark_step hgray htrav with ⟨base, hpopped, hmarks, hsettled⟩
  have hbase := hpopped.tricolor
    (fun x => ((x ∈ base.gray ∨ todo x) ∨ base.Weakly x) ∨ x = o) hg (by
      intro x hxo hx
      rcases hx with (hx | hx) | hx
      · rw [hgray] at hx
        rcases List.mem_cons.mp hx with heq | hx
        · exact absurd heq hxo
        · exact Or.inl (Or.inl (Or.inl (hpopped.gray ▸ hx)))
      · exact Or.inl (Or.inl (Or.inr hx))
      · exact Or.inl (Or.inr (hpopped.weakly hxo hx)))
    (Or.inr rfl)
  have hnext := hmarks.tricolor
    (fun x => ((x ∈ g.propagatemark.gray ∨ todo x) ∨
      g.propagatemark.Weakly x) ∨ x = o) hbase
    (by
      intro x hx
      rcases hx with ((hx | hx) | hx) | hx
      · exact Or.inl (Or.inl (Or.inl (hmarks.mem_gray hx)))
      · exact Or.inl (Or.inl (Or.inr hx))
      · exact Or.inl (Or.inr (hmarks.weakly hx))
      · exact Or.inr hx)
    (fun x hx => Or.inl (Or.inl (Or.inl hx)))
  refine hnext.recolor (fun _ _ _ _ hy => hy) ?_
  intro x hx
  by_cases hxo : x = o
  · right
    rcases hsettled with hcovered | hweak
    · right
      intro y hy hwhite
      rw [hxo] at hy
      exact absurd (hwhite.symm.trans (hcovered y hy)) Bool.noConfusion
    · left
      rw [hxo]
      exact Or.inr hweak
  · exact Or.inl ⟨hx, fun hp => hp.resolve_right hxo⟩

/-!
# The gray list runs empty
-/

/-- What `propagateall` has still to do at most. -/
def measure (g : GlobalState) : Nat :=
  g.gray.length + g.rootgc.countP g.iswhite

theorem countP_split {item : Type} (p q : item -> Bool) (items : List item)
    (hqp : forall x, q x = true -> p x = true) :
    items.countP p =
      items.countP q + (items.filter fun x => p x && !q x).length := by
  induction items with
  | nil => rfl
  | cons x rest ih =>
      rw [List.countP_cons, List.countP_cons, ih]
      cases hq : q x with
      | true =>
          rw [List.filter_cons_of_neg (by simp [hq]), hqp x hq]
          simp only [if_true]
          omega
      | false =>
          cases hp : p x with
          | true =>
              rw [List.filter_cons_of_pos (by simp [hp, hq]), List.length_cons]
              simp only [if_true, Bool.false_eq_true, if_false]
              omega
          | false =>
              rw [List.filter_cons_of_neg (by simp [hp])]
              simp

/-- Each object that marking puts on the gray list was white. -/
theorem Marks.measure_le (h : Marks g g')
    (hlisted : forall x, g.iswhite x = true -> x.traversed = true ->
      x ∈ g.rootgc) : g'.measure ≤ g.measure := by
  rcases h.entered with ⟨new, hnew, hnodup, hmem⟩
  have hsplit := countP_split g.iswhite g'.iswhite g.rootgc fun _ => h.wasWhite
  have hsub : new ⊆ g.rootgc.filter fun x => g.iswhite x && !g'.iswhite x := by
    intro x hx
    rcases hmem x hx with ⟨hwhite, hdark, htrav⟩
    rw [List.mem_filter]
    exact ⟨hlisted x hwhite htrav, by simp [hwhite, hdark]⟩
  have hlength := (List.subperm_of_subset hnodup hsub).length_le
  unfold measure
  rw [hnew, h.sameLinks.rootgc, List.length_append, hsplit]
  omega

theorem Popped.measure_lt {o : GCObject} {rest : List GCObject}
    (h : Popped g base o rest) (hgray : g.gray = o :: rest) :
    base.measure < g.measure := by
  have hle : g.rootgc.countP base.iswhite ≤ g.rootgc.countP g.iswhite := by
    refine List.countP_mono_left ?_
    intro x _ hx
    by_cases hxo : x = o
    · rw [hxo, h.self] at hx
      cases hx
    · exact (iswhite_eq_of_color? (h.other x hxo)).symm.trans hx
  unfold measure
  rw [h.gray, hgray, h.sameLinks.rootgc, List.length_cons]
  omega

theorem Linked.traversed (h : g.Linked) {x : GCObject}
    (hx : g.Allocated x) (htrav : x.traversed = true) : x ∈ g.rootgc := by
  have hrooted : g.rooted x = true := by
    cases x with
    | function n => rfl
    | table n => rfl
    | thread n => rfl
    | proto n => rfl
    | _ => cases htrav
  rcases h.listed x hx hrooted with hmem | ⟨n, rfl, _⟩
  · exact hmem
  · cases htrav

theorem propagateLoop_settles {todo : GCObject -> Prop} {fuel : Nat}
    (hfuel : g.measure ≤ fuel) (hg : g.Marking)
    (hsettled : g.SettledBut fun x => x ∈ g.gray ∨ todo x) :
    Advances g (propagateLoop fuel g) ∧ (propagateLoop fuel g).gray = [] ∧
      (propagateLoop fuel g).SettledBut todo := by
  induction fuel generalizing g with
  | zero =>
      have hgray : g.gray = [] := by
        unfold measure at hfuel
        exact List.length_eq_zero_iff.mp (by omega)
      refine ⟨Advances.refl g, hgray, hsettled.mono ?_⟩
      intro x _ hx
      rcases hx with hx | hx
      · rw [hgray] at hx
        cases hx
      · exact Or.inl hx
  | succ fuel ih =>
      rw [propagateLoop]
      cases hgray : g.gray with
      | nil =>
          refine ⟨Advances.refl g, hgray, hsettled.mono ?_⟩
          intro x _ hx
          rcases hx with hx | hx
          · rw [hgray] at hx
            cases hx
          · exact Or.inl hx
      | cons o rest =>
          have hkind : o.traversed = true := by
            refine hg.kinds o (List.mem_append_left _ ?_)
            rw [hgray]
            exact List.mem_cons_self
          rcases propagatemark_step hgray hkind with ⟨base, hpopped, hmarks, _⟩
          have hbase := hg.advances (hpopped.advances hgray)
          have hstep := (hpopped.advances hgray).trans hmarks.advances hg.kinds
          have hless : g.propagatemark.measure ≤ fuel := by
            have h1 := hpopped.measure_lt hgray
            have h2 := hmarks.measure_le fun x hx htrav =>
              hbase.linked.traversed (allocated_of_iswhite hx) htrav
            omega
          rcases ih hless (hg.advances hstep)
            (hsettled.propagatemark hgray hkind) with ⟨hadv, hnil, hall⟩
          exact ⟨hstep.trans hadv hg.kinds, hnil, hall⟩

/-- `propagateall` empties the gray list and settles what it takes from it. -/
theorem propagateall_settles {todo : GCObject -> Prop} (hg : g.Marking)
    (hsettled : g.SettledBut fun x => x ∈ g.gray ∨ todo x) :
    Advances g g.propagateall ∧ g.propagateall.gray = [] ∧
      g.propagateall.SettledBut todo := by
  refine propagateLoop_settles ?_ hg hsettled
  unfold measure
  have hcount := List.countP_le_length (p := g.iswhite) (l := g.rootgc)
  omega

end GlobalState
end Gc
end LuaServer
