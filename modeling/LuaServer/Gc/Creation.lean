import LuaServer.Gc.Mutation

/-!
# New objects

A new object has the current white, so no step of the collector takes it for
garbage, and nothing dark refers to it yet.
-/

namespace LuaServer
namespace Gc
namespace GlobalState

variable {g g' : GlobalState}

/-!
# One new object
-/

/-- The object is new, and all that it refers to is alive. -/
structure Created (g g' : GlobalState) (x : GCObject) : Prop where
  fresh : ¬g.Allocated x
  frame : g' = { g with
    objs := g'.objs
    marked := Function.update g.marked x
      (some { color := .white g.currentwhite, fixed := false })
    passed := g'.passed
    sweepgc := g'.sweepgc
    strt := g'.strt
    uvhead := g'.uvhead }
  slots : forall y, g.Allocated y -> g'.slots y = g.slots y
  upval : forall n, g.Allocated (.upval n) -> g'.upval n = g.upval n
  self : forall y, y ∈ g'.slots x -> g.Alive y
  unswept : forall y, g.Allocated y -> g.Unswept y -> g'.Unswept y

namespace Created

variable {x : GCObject}

theorem marked (h : Created g g' x) (y : GCObject) :
    g'.marked y =
      if y = x then some { color := .white g.currentwhite, fixed := false }
      else g.marked y := by
  rw [h.frame]
  exact Function.update_apply _ _ _ _

theorem color? (h : Created g g' x) (y : GCObject) :
    g'.color? y =
      if y = x then some (.white g.currentwhite) else g.color? y := by
  unfold GlobalState.color?
  rw [h.marked]
  split <;> rfl

theorem currentwhite (h : Created g g' x) :
    g'.currentwhite = g.currentwhite := by
  rw [h.frame]

theorem gcstate (h : Created g g' x) : g'.gcstate = g.gcstate := by
  rw [h.frame]

theorem tmudata (h : Created g g' x) : g'.tmudata = g.tmudata := by
  rw [h.frame]

theorem mainthread (h : Created g g' x) : g'.mainthread = g.mainthread := by
  rw [h.frame]

theorem graylists (h : Created g g' x) : g'.graylists = g.graylists := by
  rw [h.frame]
  rfl

theorem ne (h : Created g g' x) {y : GCObject} (hy : g.Allocated y) : y ≠ x := by
  intro heq
  subst heq
  exact h.fresh hy

theorem allocated (h : Created g g' x) (y : GCObject) :
    g'.Allocated y <-> y = x ∨ g.Allocated y := by
  unfold Allocated
  rw [h.marked]
  by_cases hy : y = x
  · simp [hy]
  · simp [hy]

theorem color_self (h : Created g g' x) :
    g'.color? x = some (.white g'.currentwhite) := by
  rw [h.color?, if_pos rfl, h.currentwhite]

theorem color_old (h : Created g g' x) {y : GCObject} (hy : g.Allocated y) :
    g'.color? y = g.color? y := by
  rw [h.color?, if_neg (h.ne hy)]

theorem alive (h : Created g g' x) (y : GCObject) :
    g'.Alive y <-> y = x ∨ g.Alive y := by
  by_cases hy : y = x
  · subst hy
    refine ⟨fun _ => Or.inl rfl, fun _ => ⟨(h.allocated y).mpr (Or.inl rfl), ?_⟩⟩
    exact isdead_of_color? h.color_self
  · unfold Alive isdead
    rw [h.allocated, h.color?, if_neg hy, h.currentwhite]
    simp [hy]

theorem iswhite_old (h : Created g g' x) {y : GCObject} (hy : g.Allocated y) :
    g'.iswhite y = g.iswhite y := iswhite_eq_of_color? (h.color_old hy)

theorem dark (h : Created g g' x) (y : GCObject) : g'.Dark y <-> g.Dark y := by
  unfold Dark
  rw [h.allocated]
  constructor
  · intro hwhite
    rcases hwhite with ⟨rfl | hy, hwhite⟩
    · have hx : g'.iswhite y = true := iswhite_iff.mpr ⟨_, h.color_self⟩
      rw [hx] at hwhite
      cases hwhite
    · exact ⟨hy, (h.iswhite_old hy).symm.trans hwhite⟩
  · intro hwhite
    rcases hwhite with ⟨hy, hwhite⟩
    exact ⟨Or.inr hy, (h.iswhite_old hy).trans hwhite⟩

theorem isOpened (h : Created g g' x) {n : Nat} (hn : g.Allocated (.upval n)) :
    g'.isOpened n = g.isOpened n := by
  unfold GlobalState.isOpened
  rw [h.upval n hn]

theorem openUpval (h : Created g g' x) {y : GCObject} (hy : g.Allocated y) :
    g'.OpenUpval y <-> g.OpenUpval y := by
  constructor
  · intro hn
    rcases hn with ⟨n, rfl, hn⟩
    exact ⟨n, rfl, (h.isOpened hy).symm.trans hn⟩
  · intro hn
    rcases hn with ⟨n, rfl, hn⟩
    exact ⟨n, rfl, (h.isOpened hy).trans hn⟩

theorem rooted (h : Created g g' x) {y : GCObject} (hy : g.Allocated y) :
    g'.rooted y = g.rooted y := by
  cases y with
  | upval n => rw [rooted_upval, rooted_upval, h.isOpened hy]
  | _ => rfl

theorem closedRefs (h : Created g g' x) (hg : g.Closed) : g'.Closed where
  slots := by
    intro y z hy hz
    rw [h.alive] at hy ⊢
    right
    by_cases hyx : y = x
    · exact h.self z (hyx ▸ hz)
    · have hold := hy.resolve_left hyx
      rw [h.slots y hold.1] at hz
      exact hg.slots y z hold hz
  roots := by
    intro y hy
    have hroots : g'.roots = g.roots := by
      rw [h.frame]
      rfl
    rw [h.alive]
    exact Or.inr (hg.roots y (hroots ▸ hy))
  due := by
    intro n hn
    rw [h.alive]
    rw [h.tmudata] at hn
    exact Or.inr (hg.due n hn)

theorem colors (h : Created g g' x) (hg : g.Colors) : g'.Colors where
  black := by
    intro y hy
    rw [isblack_iff, h.color?] at hy
    split at hy
    · cases hy
    · have hold := isblack_iff.mpr hy
      have hblackens := hg.black y hold
      cases y with
      | upval n =>
          rw [blackens_upval, h.isOpened (allocated_of_isblack hold)]
          exact hblackens
      | _ => exact hblackens
  udata := by
    intro n
    cases hgray : g'.isgray (.udata n) with
    | false => rfl
    | true =>
        rw [isgray_iff, h.color?] at hgray
        split at hgray
        · cases hgray
        · have hnot := hg.udata n
          rw [isgray_iff.mpr hgray] at hnot
          cases hnot

theorem isgray (h : Created g g' x) (y : GCObject) :
    g'.isgray y = g.isgray y := by
  unfold GlobalState.isgray
  rw [h.color?]
  split
  · rename_i hy
    have hnone : g.color? x = none := by
      unfold GlobalState.color?
      rw [Decidable.not_not.mp h.fresh]
      rfl
    rw [hy, hnone]
    rfl
  · rfl

theorem propagating (h : Created g g' x) (hclosed : g.Closed)
    (hg : g.Propagating) : g'.Propagating where
  noDead := by
    intro y
    cases hdead : g'.isdead y with
    | false => rfl
    | true =>
        have halloc := allocated_of_iswhite (iswhite_of_isdead hdead)
        rcases (h.allocated y).mp halloc with rfl | hy
        · rw [isdead_of_color? h.color_self] at hdead
          cases hdead
        · rw [((h.alive y).mpr (Or.inr ⟨hy, hg.noDead y⟩)).2] at hdead
          cases hdead
  marked := by
    intro y hy
    have hroots : g'.oldRoots = g.oldRoots := by
      rw [h.frame]
      rfl
    rw [hroots] at hy
    have halloc : g.Allocated y := by
      refine (hclosed.roots y ?_).1
      rcases List.mem_cons.mp hy with rfl | hy
      · exact List.mem_cons_self
      · exact List.mem_append_left _ (List.mem_append_right _ hy)
    exact (h.iswhite_old halloc).trans (hg.marked y hy)
  tricolor := by
    intro y hy
    have hold := (h.dark y).mp hy
    rcases hg.tricolor y hold with hp | hslots
    · left
      unfold Pending Due at hp ⊢
      rw [h.graylists, h.openUpval hold.1, h.tmudata]
      exact hp
    · right
      intro z hz hwhite
      rw [h.slots y hold.1] at hz
      have halive := hclosed.slots y z ⟨hold.1, hg.noDead y⟩ hz
      exact hslots z hz ((h.iswhite_old halive.1).symm.trans hwhite)
  lists := by
    refine ⟨?_, ?_, ?_⟩
    · intro y hy
      rw [h.isgray] at hy
      rw [h.graylists, h.openUpval (allocated_of_isgray hy)]
      exact hg.lists.grays y hy
    · intro y hy
      rw [h.graylists] at hy
      rw [h.isgray]
      exact hg.lists.lists y hy
    · rw [h.graylists]
      exact hg.lists.nodup

theorem swept (h : Created g g' x) (hg : g.Swept) : g'.Swept := by
  intro y hy
  rcases (h.allocated y).mp hy with rfl | hold
  · exact Or.inl h.color_self
  · rw [h.color_old hold, h.currentwhite]
    rcases hg y hold with hw | hu | hd
    · exact Or.inl hw
    · exact Or.inr (Or.inl (h.unswept y hold hu))
    · right
      right
      unfold Due at hd ⊢
      rw [h.tmudata]
      exact hd

/-- A new object keeps the invariant once it is linked where it belongs. -/
theorem inv (h : Created g g' x) (hg : g.Inv) (hlinked : g'.Linked)
    (hupvals : g'.Upvals) : g'.Inv where
  closed := h.closedRefs hg.closed
  linked := hlinked
  upvals := hupvals
  colors := h.colors hg.colors
  propagating := fun hstate => h.propagating hg.closed
    (hg.propagating (h.gcstate ▸ hstate))
  swept := fun hne => h.swept (hg.swept fun hs => hne (h.gcstate.trans hs))

/-!
# Where new objects are linked
-/

theorem linked (h : Created g g' x) (hg : g.Linked)
    (hroot : g'.rooted x = true ∧ g'.rootgc.Perm (x :: g.rootgc) ∨
      g'.rooted x = false ∧ g'.rootgc = g.rootgc)
    (hstrings : (exists n, x = .string n ∧ g'.strings.Perm (n :: g.strings)) ∨
      (forall n, x ≠ .string n) ∧ g'.strings.Perm g.strings)
    (htable : 0 < g'.strt.length) : g'.Linked := by
  have hmem : forall y, y ∈ g'.rootgc <->
      y = x ∧ g'.rooted x = true ∨ y ∈ g.rootgc := by
    intro y
    rcases hroot with ⟨hr, hperm⟩ | ⟨hr, heq⟩
    · rw [hperm.mem_iff, List.mem_cons]
      simp [hr]
    · rw [heq, hr]
      simp
  have hnot : x ∉ g.rootgc := fun hx => h.fresh (hg.allocated x hx).1
  have hfixed : forall y, (g'.marked y).map Marked.fixed = some true ->
      (g.marked y).map Marked.fixed = some true := by
    intro y hy
    rw [h.marked] at hy
    split at hy
    · cases hy
    · exact hy
  have hmt := h.mainthread
  refine ⟨?_, ?_, ?_, ?_, ?_, ?_, ?_, ?_, ?_, ?_, htable⟩
  · rw [hmt, hmem]
    exact Or.inr hg.main
  · rw [hmt, h.marked, if_neg (h.ne (hg.allocated _ hg.main).1)]
    exact hg.fixed
  · intro y hy
    rw [hmt]
    exact hg.fixedKinds y (hfixed y hy)
  · rcases hroot with ⟨_, hperm⟩ | ⟨_, heq⟩
    · exact hperm.nodup_iff.mpr (List.nodup_cons.mpr ⟨hnot, hg.nodup⟩)
    · rw [heq]
      exact hg.nodup
  · intro y hy
    rw [h.allocated]
    rcases (hmem y).mp hy with ⟨rfl, hr⟩ | hold
    · exact ⟨Or.inl rfl, hr⟩
    · rcases hg.allocated y hold with ⟨halloc, hr⟩
      exact ⟨Or.inr halloc, (h.rooted halloc).trans hr⟩
  · intro y hy hr
    rw [hmem]
    rcases (h.allocated y).mp hy with rfl | hold
    · exact Or.inl (Or.inl ⟨rfl, hr⟩)
    · rw [h.rooted hold] at hr
      unfold Due
      rw [h.tmudata]
      exact (hg.listed y hold hr).imp_left Or.inr
  · intro n hn
    rw [h.tmudata] at hn
    rw [h.allocated, hmem]
    rcases hg.due n hn with ⟨halloc, hout⟩
    refine ⟨Or.inr halloc, ?_⟩
    intro hin
    rcases hin with ⟨heq, _⟩ | hin
    · exact h.ne halloc heq
    · exact hout hin
  · rw [h.tmudata]
    exact hg.dueNodup
  · intro n
    rw [h.allocated, hg.strings]
    rcases hstrings with ⟨m, rfl, hperm⟩ | ⟨hne, hperm⟩
    · rw [hperm.mem_iff, List.mem_cons, GCObject.string.injEq]
    · rw [hperm.mem_iff]
      exact ⟨fun hor => hor.resolve_left (Ne.symm (hne n)), Or.inr⟩
  · rcases hstrings with ⟨m, rfl, hperm⟩ | ⟨_, hperm⟩
    · refine hperm.nodup_iff.mpr (List.nodup_cons.mpr ⟨?_, hg.stringsNodup⟩)
      exact fun hm => h.fresh ((hg.strings m).mpr hm)
    · exact hperm.nodup_iff.mpr hg.stringsNodup

theorem upvals (h : Created g g' x) (hg : g.Upvals)
    (hold : forall t, g.Allocated (.thread t) -> g'.thread t = g.thread t)
    (hthread : forall t, x = .thread t -> (g'.thread t).openupval = [])
    (hupval : forall n, x = .upval n -> g'.isOpened n = false)
    (huvhead : g'.uvhead = g.uvhead) : g'.Upvals where
  opened := by
    intro n t l halloc hup
    rcases (h.allocated _).mp halloc with heq | halloc
    · have hclosed := hupval n heq.symm
      unfold GlobalState.isOpened at hclosed
      rw [hup] at hclosed
      cases hclosed
    · rw [h.upval n halloc] at hup
      rcases hg.opened n t l halloc hup with ⟨ht, hmem⟩
      rw [h.allocated, hold t ht]
      exact ⟨Or.inr ht, hmem⟩
  listed := by
    intro t n halloc hn
    rcases (h.allocated _).mp halloc with heq | halloc
    · rw [hthread t heq.symm] at hn
      cases hn
    · rw [hold t halloc] at hn ⊢
      rcases hg.listed t n halloc hn with ⟨hnalloc, l, hup, hl⟩
      rw [h.allocated, h.upval n hnalloc]
      exact ⟨Or.inr hnalloc, l, hup, hl⟩
  sorted := by
    intro t halloc
    rcases (h.allocated _).mp halloc with heq | halloc
    · rw [hthread t heq.symm]
      exact List.Pairwise.nil
    · rw [hold t halloc]
      refine (hg.sorted t halloc).imp_of_mem ?_
      intro m n hm hn hmn
      unfold level
      rw [h.upval m (hg.listed t m halloc hm).1,
        h.upval n (hg.listed t n halloc hn).1]
      exact hmn
  uvhead := by
    intro n
    rw [huvhead, hg.uvhead, h.allocated]
    constructor
    · intro hopen
      rcases hopen with ⟨halloc, hopen⟩
      exact ⟨Or.inr halloc, (h.isOpened halloc).trans hopen⟩
    · intro hopen
      rcases hopen with ⟨heq | halloc, hopen⟩
      · rw [hupval n heq.symm] at hopen
        cases hopen
      · exact ⟨halloc, (h.isOpened halloc).symm.trans hopen⟩
  uvheadNodup := by
    rw [huvhead]
    exact hg.uvheadNodup

end Created

end GlobalState
end Gc
end LuaServer
