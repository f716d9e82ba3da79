import LuaServer.Gc.Marking
import Mathlib.Data.List.Perm.Subperm

/-!
# What marking does

Every function of the mark phase that starts from white objects only turns some
of them dark: it leaves the objects as they are and puts those that are traversed
later on the gray list.
-/

namespace LuaServer
namespace Gc

def GCObject.traversed : GCObject -> Bool
  | .string _ => false
  | .udata _ => false
  | .upval _ => false
  | .function _ => true
  | .table _ => true
  | .thread _ => true
  | .proto _ => true

namespace GlobalState

def restColor (g : GlobalState) : GCObject -> Color
  | .udata _ => .black
  | .upval n => if g.isOpened n then .gray else .black
  | _ => .gray

theorem restColor_upval (g : GlobalState) (n : Nat) :
    g.restColor (.upval n) = if g.isOpened n then .gray else .black := rfl

/-- Marking has turned some white objects dark. -/
structure Marks (g g' : GlobalState) : Prop where
  frame : g' = { g with marked := g'.marked, gray := g'.gray }
  fixed : forall x,
    (g'.marked x).map Marked.fixed = (g.marked x).map Marked.fixed
  kept : forall x, g.iswhite x = false -> g'.color? x = g.color? x
  white : forall x, g'.iswhite x = true -> g'.color? x = g.color? x
  shaded : forall x, g.iswhite x = true -> g'.iswhite x = false ->
    g'.color? x = some (g.restColor x) ∧
      (x.traversed = true -> x ∈ g'.gray) ∧
      (x.traversed = false -> forall y, y ∈ g.slots x -> g'.iswhite y = false)
  entered : exists new, g'.gray = new ++ g.gray ∧ new.Nodup ∧
    forall x, x ∈ new ->
      g.iswhite x = true ∧ g'.iswhite x = false ∧ x.traversed = true

theorem restColor_ne_white (g : GlobalState) (x : GCObject) (b : Bool) :
    g.restColor x ≠ .white b := by
  cases x with
  | upval n => by_cases h : g.isOpened n = true <;> simp [restColor, h]
  | _ => simp [restColor]

theorem iswhite_eq_of_color? {g g' : GlobalState} {x : GCObject}
    (h : g'.color? x = g.color? x) : g'.iswhite x = g.iswhite x := by
  simp [iswhite, h]

theorem iswhite_of_color? {g : GlobalState} {x : GCObject} {c : Color}
    (h : g.color? x = some c) (hc : forall b, c ≠ .white b) :
    g.iswhite x = false := by
  cases c with
  | white b => exact absurd rfl (hc b)
  | gray => simp [iswhite, h]
  | black => simp [iswhite, h]

theorem iswhite_paint_of_ne {g : GlobalState} {x y : GCObject} (c : Color)
    (h : y ≠ x) : (g.paint x c).iswhite y = g.iswhite y := by
  apply iswhite_eq_of_color?
  rw [color?_paint, if_neg h]

theorem iswhite_paint_self {g : GlobalState} {x : GCObject} {c : Color}
    (hc : forall b, c ≠ .white b) : (g.paint x c).iswhite x = false := by
  unfold iswhite
  rw [color?_paint, if_pos rfl]
  cases g.color? x with
  | none => rfl
  | some d =>
      cases c with
      | white b => exact absurd rfl (hc b)
      | gray => rfl
      | black => rfl

theorem color?_paint_self {g : GlobalState} {x : GCObject} (c : Color)
    (h : g.iswhite x = true) : (g.paint x c).color? x = some c := by
  rcases iswhite_iff.mp h with ⟨b, hb⟩
  rw [color?_paint, if_pos rfl, hb]
  rfl

theorem fixed_paint (g : GlobalState) (x : GCObject) (c : Color)
    (y : GCObject) :
    ((g.paint x c).marked y).map Marked.fixed =
      (g.marked y).map Marked.fixed := by
  unfold paint
  by_cases h : y = x
  · rw [h]
    simp only [Function.update_self]
    cases g.marked x with
    | none => rfl
    | some m => rfl
  · simp [h]

/-!
# Composition
-/

namespace Marks

variable {g g' g'' : GlobalState}

theorem refl (g : GlobalState) : Marks g g where
  frame := rfl
  fixed := fun _ => rfl
  kept := fun _ _ => rfl
  white := fun _ _ => rfl
  shaded := by
    intro x hwhite hdark
    rw [hwhite] at hdark
    cases hdark
  entered := ⟨[], rfl, List.nodup_nil, fun _ h => by cases h⟩

theorem objs (h : Marks g g') : g'.objs = g.objs := by
  rw [h.frame]

theorem weak (h : Marks g g') : g'.weak = g.weak := by
  rw [h.frame]

theorem slots (h : Marks g g') : g'.slots = g.slots := by
  rw [h.frame]
  rfl

theorem isOpened (h : Marks g g') : g'.isOpened = g.isOpened := by
  rw [h.frame]
  rfl

theorem restColor (h : Marks g g') : g'.restColor = g.restColor := by
  rw [h.frame]
  rfl

theorem dark (h : Marks g g') {x : GCObject} (hx : g.iswhite x = false) :
    g'.iswhite x = false := by
  rw [iswhite_eq_of_color? (h.kept x hx)]
  exact hx

theorem wasWhite (h : Marks g g') {x : GCObject} (hx : g'.iswhite x = true) :
    g.iswhite x = true := by
  rw [← iswhite_eq_of_color? (h.white x hx)]
  exact hx

theorem mem_gray (h : Marks g g') {x : GCObject} (hx : x ∈ g.gray) :
    x ∈ g'.gray := by
  rcases h.entered with ⟨new, hnew, _⟩
  rw [hnew]
  exact List.mem_append_right new hx

theorem trans (h : Marks g g') (h' : Marks g' g'') : Marks g g'' where
  frame := by
    rw [h'.frame, h.frame]
  fixed := fun x => (h'.fixed x).trans (h.fixed x)
  kept := fun x hx => (h'.kept x (h.dark hx)).trans (h.kept x hx)
  white := fun x hx => (h'.white x hx).trans (h.white x (h'.wasWhite hx))
  shaded := by
    intro x hwhite hdark
    cases hmid : g'.iswhite x with
    | true =>
        have hshaded := h'.shaded x hmid hdark
        rw [h.restColor, h.slots] at hshaded
        exact hshaded
    | false =>
        rcases h.shaded x hwhite hmid with ⟨hcolor, hgray, hslots⟩
        refine ⟨?_, ?_, ?_⟩
        · rw [h'.kept x hmid]
          exact hcolor
        · intro hx
          exact h'.mem_gray (hgray hx)
        · intro hx y hy
          exact h'.dark (hslots hx y hy)
  entered := by
    rcases h.entered with ⟨new, hnew, hnodup, hmem⟩
    rcases h'.entered with ⟨new', hnew', hnodup', hmem'⟩
    refine ⟨new' ++ new, ?_, ?_, ?_⟩
    · rw [hnew', hnew, List.append_assoc]
    · refine List.Nodup.append hnodup' hnodup ?_
      intro x hx' hx
      have hwhite := (hmem' x hx').1
      rw [(hmem x hx).2.1] at hwhite
      cases hwhite
    · intro x hx
      rcases List.mem_append.mp hx with hx | hx
      · rcases hmem' x hx with ⟨hwhite, hdark, htrav⟩
        exact ⟨h.wasWhite hwhite, hdark, htrav⟩
      · rcases hmem x hx with ⟨hwhite, hdark, htrav⟩
        exact ⟨hwhite, h'.dark hdark, htrav⟩

theorem foldl {item : Type} {f : GlobalState -> item -> GlobalState}
    (hf : forall g a, Marks g (f g a)) (items : List item) (g : GlobalState) :
    Marks g (items.foldl f g) := by
  induction items generalizing g with
  | nil => exact Marks.refl g
  | cons a rest ih => exact (hf g a).trans (ih (f g a))

/-- What each turn of a loop turns dark is dark after the loop. -/
theorem dark_foldl {item : Type} {f : GlobalState -> item -> GlobalState}
    (target : item -> GCObject -> Prop)
    (hf : forall g a, Marks g (f g a))
    (htarget : forall g a x, target a x -> (f g a).iswhite x = false)
    (items : List item) (g : GlobalState) {a : item} (ha : a ∈ items)
    {x : GCObject} (hx : target a x) :
    (items.foldl f g).iswhite x = false := by
  induction items generalizing g with
  | nil => cases ha
  | cons b rest ih =>
      rcases List.mem_cons.mp ha with rfl | hrest
      · exact (foldl hf rest (f g a)).dark (htarget g a x hx)
      · exact ih (f g b) hrest

theorem shade {x : GCObject} (hwhite : g.iswhite x = true)
    (hx : x.traversed = true) : Marks g (g.shade x) where
  frame := rfl
  fixed := g.fixed_paint x .gray
  kept := by
    intro y hy
    have hne : y ≠ x := by
      intro heq
      subst heq
      rw [hwhite] at hy
      cases hy
    exact (color?_paint g x .gray y).trans (if_neg hne)
  white := by
    intro y hy
    by_cases hyx : y = x
    · subst hyx
      have hdark := iswhite_paint_self (g := g) (x := y) (c := .gray)
        (fun _ => Color.noConfusion)
      exact absurd (hy.symm.trans hdark) Bool.noConfusion
    · exact (color?_paint g x .gray y).trans (if_neg hyx)
  shaded := by
    intro y hy hdark
    by_cases hyx : y = x
    · subst hyx
      refine ⟨?_, fun _ => List.mem_cons_self, ?_⟩
      · refine (color?_paint_self .gray hwhite).trans ?_
        cases y with
        | function n => rfl
        | table n => rfl
        | thread n => rfl
        | proto n => rfl
        | _ => cases hx
      · intro hnot
        rw [hx] at hnot
        cases hnot
    · have hsame := iswhite_paint_of_ne (g := g) .gray hyx
      exact absurd (hdark.symm.trans (hsame.trans hy)) Bool.noConfusion
  entered := by
    refine ⟨[x], rfl, List.nodup_singleton x, ?_⟩
    intro y hy
    rw [List.mem_singleton] at hy
    subst hy
    exact ⟨hwhite, iswhite_paint_self fun _ => Color.noConfusion, hx⟩

/-- An object that is not traversed later is painted before what it refers to. -/
theorem of_paint {x : GCObject} (hwhite : g.iswhite x = true)
    (hx : x.traversed = false) (h : Marks (g.paint x (g.restColor x)) g')
    (hslots : forall y, y ∈ g.slots x -> g'.iswhite y = false) :
    Marks g g' where
  frame := by
    rw [h.frame]
    rfl
  fixed := fun y => (h.fixed y).trans (g.fixed_paint x _ y)
  kept := by
    intro y hy
    have hne : y ≠ x := by
      intro heq
      subst heq
      rw [hwhite] at hy
      cases hy
    rw [h.kept y ((iswhite_paint_of_ne _ hne).trans hy), color?_paint,
      if_neg hne]
  white := by
    intro y hy
    have hmid := h.wasWhite hy
    by_cases hyx : y = x
    · subst hyx
      have hdark := iswhite_paint_self (g := g) (x := y)
        (g.restColor_ne_white y)
      exact absurd (hmid.symm.trans hdark) Bool.noConfusion
    · rw [h.white y hy, color?_paint, if_neg hyx]
  shaded := by
    intro y hy hdark
    by_cases hyx : y = x
    · subst hyx
      have hmid := iswhite_paint_self (g := g) (x := y)
        (g.restColor_ne_white y)
      refine ⟨?_, ?_, fun _ => hslots⟩
      · rw [h.kept y hmid]
        exact color?_paint_self _ hwhite
      · intro htrav
        rw [hx] at htrav
        cases htrav
    · exact h.shaded y ((iswhite_paint_of_ne _ hyx).trans hy) hdark
  entered := by
    rcases h.entered with ⟨new, hnew, hnodup, hmem⟩
    refine ⟨new, hnew, hnodup, ?_⟩
    intro y hy
    rcases hmem y hy with ⟨hmid, hdark, htrav⟩
    have hne : y ≠ x := by
      intro heq
      subst heq
      rw [hx] at htrav
      cases htrav
    exact ⟨(iswhite_paint_of_ne _ hne).symm.trans hmid, hdark, htrav⟩

/-- Marking other objects does not look at which dark color an object has. -/
theorem recolor {x : GCObject} {c c' : Color}
    (hc : forall b, c ≠ .white b) (hc' : forall b, c' ≠ .white b)
    (h : Marks (g.paint x c) g') : Marks (g.paint x c') (g'.paint x c') := by
  have hwhite : forall y, (g.paint x c').iswhite y = (g.paint x c).iswhite y := by
    intro y
    by_cases hyx : y = x
    · rw [hyx, iswhite_paint_self hc, iswhite_paint_self hc']
    · rw [iswhite_paint_of_ne _ hyx, iswhite_paint_of_ne _ hyx]
  have hwhite' : forall y, (g'.paint x c').iswhite y = g'.iswhite y := by
    intro y
    by_cases hyx : y = x
    · rw [hyx, iswhite_paint_self hc', h.dark (iswhite_paint_self hc)]
    · rw [iswhite_paint_of_ne _ hyx]
  have hcolor : forall y, y ≠ x ->
      (g'.color? y = (g.paint x c).color? y ->
        (g'.paint x c').color? y = (g.paint x c').color? y) := by
    intro y hyx hy
    rw [color?_paint, if_neg hyx, hy, color?_paint, if_neg hyx, color?_paint,
      if_neg hyx]
  have hself : (g'.paint x c').color? x = (g.paint x c').color? x := by
    have hkept := h.kept x (iswhite_paint_self hc)
    rw [color?_paint, if_pos rfl] at hkept
    rw [color?_paint, if_pos rfl, color?_paint, if_pos rfl, hkept]
    cases g.color? x with
    | none => rfl
    | some d => rfl
  refine ⟨?_, ?_, ?_, ?_, ?_, ?_⟩
  · rw [h.frame]
    rfl
  · intro y
    rw [fixed_paint, h.fixed, fixed_paint, fixed_paint]
  · intro y hy
    by_cases hyx : y = x
    · rw [hyx, hself]
    · exact hcolor y hyx (h.kept y ((hwhite y).symm.trans hy))
  · intro y hy
    by_cases hyx : y = x
    · rw [hyx, hself]
    · exact hcolor y hyx (h.white y ((hwhite' y).symm.trans hy))
  · intro y hy hdark
    have hyx : y ≠ x := by
      intro heq
      subst heq
      rw [iswhite_paint_self hc'] at hy
      cases hy
    rcases h.shaded y ((hwhite y).symm.trans hy)
      ((hwhite' y).symm.trans hdark) with ⟨hrest, hgray, hslots⟩
    refine ⟨?_, hgray, ?_⟩
    · rw [color?_paint, if_neg hyx]
      exact hrest
    · intro hy z hz
      rw [hwhite']
      exact hslots hy z hz
  · rcases h.entered with ⟨new, hnew, hnodup, hmem⟩
    refine ⟨new, hnew, hnodup, ?_⟩
    intro y hy
    rw [hwhite, hwhite']
    exact hmem y hy

end Marks

/-!
# The functions that mark
-/

variable (g : GlobalState)

theorem marks_marktable (n : Nat) : Marks g (g.marktable n) := by
  unfold marktable
  split
  · rename_i hwhite
    exact Marks.shade hwhite rfl
  · exact Marks.refl g

theorem iswhite_shade (x : GCObject) : (g.shade x).iswhite x = false :=
  iswhite_paint_self (g := g) (c := .gray) fun _ => Color.noConfusion

theorem dark_marktable (n : Nat) :
    (g.marktable n).iswhite (.table n) = false := by
  unfold marktable
  split
  · exact g.iswhite_shade (.table n)
  · rename_i hdark
    exact Bool.eq_false_of_not_eq_true hdark

theorem marks_reallymarkudata {n : Nat} (hwhite : g.iswhite (.udata n) = true) :
    Marks g (g.reallymarkudata n) := by
  unfold reallymarkudata
  cases hmt : (g.udata n).metatable with
  | none =>
      refine Marks.of_paint hwhite rfl (marks_marktable _ _) ?_
      intro y hy
      simp only [slots, Udata.slots, hmt, Option.toList_none, List.map_nil,
        List.nil_append, List.mem_singleton] at hy
      rw [hy]
      exact dark_marktable _ _
  | some mt =>
      refine Marks.of_paint hwhite rfl
        ((marks_marktable _ _).trans (marks_marktable _ _)) ?_
      intro y hy
      simp only [slots, Udata.slots, hmt, Option.toList_some, List.map_cons,
        List.map_nil, List.singleton_append, List.mem_cons, List.not_mem_nil,
        or_false] at hy
      rcases hy with rfl | rfl
      · exact (marks_marktable _ _).dark (dark_marktable _ _)
      · exact dark_marktable _ _

theorem marks_reallymarkreferent {x : GCObject} (hwhite : g.iswhite x = true)
    (hx : forall n, x ≠ .upval n) : Marks g (g.reallymarkreferent x) := by
  cases x with
  | string n =>
      exact Marks.of_paint hwhite rfl (Marks.refl _) fun y hy => by cases hy
  | udata n => exact g.marks_reallymarkudata hwhite
  | upval n => exact absurd rfl (hx n)
  | function n => exact Marks.shade hwhite rfl
  | table n => exact Marks.shade hwhite rfl
  | thread n => exact Marks.shade hwhite rfl
  | proto n => exact Marks.shade hwhite rfl

theorem gcvalue_ne_upval {v : TValue} {x : GCObject} (h : v.gcvalue = some x)
    (n : Nat) : x ≠ .upval n := by
  intro heq
  subst heq
  cases v <;> cases h

theorem marks_markvalue (v : TValue) : Marks g (g.markvalue v) := by
  unfold markvalue
  cases hv : v.gcvalue with
  | none => exact Marks.refl g
  | some x =>
      simp only
      split
      · rename_i hwhite
        exact g.marks_reallymarkreferent hwhite (gcvalue_ne_upval hv)
      · exact Marks.refl g

theorem dark_reallymarkreferent (x : GCObject) (hx : g.iswhite x = true)
    (hne : forall n, x ≠ .upval n) :
    (g.reallymarkreferent x).iswhite x = false := by
  cases x with
  | string n => exact iswhite_paint_self fun _ => Color.noConfusion
  | udata n =>
      have hpaint := iswhite_paint_self (g := g) (x := .udata n) (c := .black)
        fun _ => Color.noConfusion
      change (g.reallymarkudata n).iswhite _ = false
      unfold reallymarkudata
      cases (g.udata n).metatable with
      | none => exact (marks_marktable _ _).dark hpaint
      | some mt =>
          exact ((marks_marktable _ _).trans (marks_marktable _ _)).dark hpaint
  | upval n => exact absurd rfl (hne n)
  | function n => exact g.iswhite_shade _
  | table n => exact g.iswhite_shade _
  | thread n => exact g.iswhite_shade _
  | proto n => exact g.iswhite_shade _

theorem dark_markvalue {v : TValue} {x : GCObject} (hv : v.gcvalue = some x) :
    (g.markvalue v).iswhite x = false := by
  unfold markvalue
  rw [hv]
  simp only
  split
  · rename_i hwhite
    exact g.dark_reallymarkreferent x hwhite (gcvalue_ne_upval hv)
  · rename_i hdark
    exact Bool.eq_false_of_not_eq_true hdark

theorem marks_markvalues (vs : List TValue) : Marks g (g.markvalues vs) :=
  Marks.foldl marks_markvalue vs g

theorem dark_markvalues {vs : List TValue} {x : GCObject}
    (hx : x ∈ referents vs) : (g.markvalues vs).iswhite x = false := by
  rcases mem_referents.mp hx with ⟨v, hv, hvx⟩
  exact Marks.dark_foldl (fun v x => v.gcvalue = some x)
    marks_markvalue (fun g v x => g.dark_markvalue) vs g hv hvx

theorem upvalValue_slots {n : Nat} {y : GCObject} :
    y ∈ g.slots (.upval n) <-> (g.upvalValue n).gcvalue = some y := by
  simp [slots, mem_referents]

theorem marks_reallymarkupval {n : Nat}
    (hwhite : g.iswhite (.upval n) = true) : Marks g (g.reallymarkupval n) := by
  have hmarks := marks_markvalue (g.paint (.upval n) .gray) (g.upvalValue n)
  have hslots : forall y, y ∈ g.slots (.upval n) ->
      ((g.paint (.upval n) .gray).markvalue (g.upvalValue n)).iswhite y =
        false :=
    fun y hy => dark_markvalue _ (g.upvalValue_slots.mp hy)
  unfold reallymarkupval
  simp only
  split
  · rename_i hopen
    refine Marks.of_paint hwhite rfl ?_ hslots
    have hrest : g.restColor (.upval n) = .gray := by
      simp [restColor, hopen]
    rw [hrest]
    exact hmarks
  · rename_i hclosed
    refine Marks.of_paint hwhite rfl ?_ ?_
    · have hrest : g.restColor (.upval n) = .black := by
        simp [restColor, hclosed]
      rw [hrest]
      exact hmarks.recolor (fun _ => Color.noConfusion)
        fun _ => Color.noConfusion
    · intro y hy
      by_cases hyn : y = .upval n
      · rw [hyn]
        exact iswhite_paint_self fun _ => Color.noConfusion
      · rw [iswhite_paint_of_ne _ hyn]
        exact hslots y hy

theorem dark_reallymarkupval (n : Nat) :
    (g.reallymarkupval n).iswhite (.upval n) = false := by
  unfold reallymarkupval
  simp only
  split
  · exact (marks_markvalue _ _).dark
      (iswhite_paint_self fun _ => Color.noConfusion)
  · exact iswhite_paint_self fun _ => Color.noConfusion

theorem marks_reallymarkobject {x : GCObject} (hwhite : g.iswhite x = true) :
    Marks g (g.reallymarkobject x) ∧
      (g.reallymarkobject x).iswhite x = false := by
  cases x with
  | upval n => exact ⟨g.marks_reallymarkupval hwhite, g.dark_reallymarkupval n⟩
  | _ =>
      exact ⟨g.marks_reallymarkreferent hwhite (fun _ => GCObject.noConfusion),
        g.dark_reallymarkreferent _ hwhite fun _ => GCObject.noConfusion⟩

theorem marks_markobject (x : GCObject) : Marks g (g.markobject x) := by
  unfold markobject
  split
  · rename_i hwhite
    exact (g.marks_reallymarkobject hwhite).1
  · exact Marks.refl g

theorem dark_markobject (x : GCObject) :
    (g.markobject x).iswhite x = false := by
  unfold markobject
  split
  · rename_i hwhite
    exact (g.marks_reallymarkobject hwhite).2
  · rename_i hdark
    exact Bool.eq_false_of_not_eq_true hdark

theorem marks_markobjects (xs : List GCObject) : Marks g (g.markobjects xs) :=
  Marks.foldl marks_markobject xs g

theorem dark_markobjects {xs : List GCObject} {x : GCObject} (hx : x ∈ xs) :
    (g.markobjects xs).iswhite x = false :=
  Marks.dark_foldl (fun y x => y = x) marks_markobject
    (fun g y _ hyx => hyx ▸ g.dark_markobject y) xs g hx rfl

theorem marks_stringmark (n : Nat) : Marks g (g.stringmark n) := by
  unfold stringmark
  split
  · rename_i hwhite
    exact Marks.of_paint hwhite rfl (Marks.refl _) fun y hy => by cases hy
  · exact Marks.refl g

theorem dark_stringmark (n : Nat) :
    (g.stringmark n).iswhite (.string n) = false := by
  unfold stringmark
  split
  · exact iswhite_paint_self fun _ => Color.noConfusion
  · rename_i hdark
    exact Bool.eq_false_of_not_eq_true hdark

theorem marks_stringmarks (ns : List Nat) : Marks g (g.stringmarks ns) :=
  Marks.foldl marks_stringmark ns g

theorem dark_stringmarks {ns : List Nat} {x : GCObject}
    (hx : x ∈ ns.map GCObject.string) :
    (g.stringmarks ns).iswhite x = false := by
  rcases List.mem_map.mp hx with ⟨n, hn, rfl⟩
  exact Marks.dark_foldl (fun n x => x = .string n) marks_stringmark
    (fun g n x hx => hx ▸ g.dark_stringmark n) ns g hn rfl

end GlobalState
end Gc
end LuaServer
