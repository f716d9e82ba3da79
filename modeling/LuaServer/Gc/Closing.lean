import LuaServer.Gc.Links

/-!
# Closing upvalues

`luaF_close` frees the upvalues that are dead and moves the others from the list
of their thread to `rootgc`.
-/

namespace LuaServer
namespace Gc
namespace GlobalState

variable {g g' : GlobalState}

/-!
# The list of open upvalues
-/

theorem thread_setOpenupval (th n : Nat) (ns : List Nat) :
    (g.setOpenupval th ns).thread n =
      if n = th then { g.thread th with openupval := ns } else g.thread n :=
  g.thread_setThread th n _

theorem openupval_setOpenupval (th n : Nat) (ns : List Nat) :
    ((g.setOpenupval th ns).thread n).openupval =
      if n = th then ns else (g.thread n).openupval := by
  rw [thread_setOpenupval]
  split <;> rfl

theorem stack_setOpenupval (th n : Nat) (ns : List Nat) :
    ((g.setOpenupval th ns).thread n).stack = (g.thread n).stack := by
  rw [thread_setOpenupval]
  split
  · rename_i hn
    rw [hn]
  · rfl

theorem objs_setOpenupval (th : Nat) (ns : List Nat) {x : GCObject}
    (hx : x ≠ .thread th) : (g.setOpenupval th ns).objs x = g.objs x :=
  objs_write_of_ne g (.thread th) _ hx

theorem upval_setOpenupval (th : Nat) (ns : List Nat) :
    (g.setOpenupval th ns).upval = g.upval :=
  funext fun _ => objs_setOpenupval th ns GCObject.noConfusion

theorem upvalValue_setOpenupval (th : Nat) (ns : List Nat) :
    (g.setOpenupval th ns).upvalValue = g.upvalValue := by
  funext n
  simp only [upvalValue, upval_setOpenupval, stackAt, stack_setOpenupval]

theorem slots_setOpenupval (th : Nat) (ns : List Nat) :
    (g.setOpenupval th ns).slots = g.slots := by
  funext x
  cases x with
  | string n => rfl
  | upval n => simp only [slots, upvalValue_setOpenupval]
  | thread n =>
      simp only [slots, thread_setOpenupval]
      split
      · rename_i hn
        rw [hn]
        rfl
      · rfl
  | udata n =>
      simp only [slots, udata, objs_setOpenupval th ns (x := .udata n)
        GCObject.noConfusion]
  | function n =>
      simp only [slots, function, objs_setOpenupval th ns (x := .function n)
        GCObject.noConfusion]
  | table n =>
      simp only [slots, table, objs_setOpenupval th ns (x := .table n)
        GCObject.noConfusion]
  | proto n =>
      simp only [slots, proto, objs_setOpenupval th ns (x := .proto n)
        GCObject.noConfusion]

theorem Upvals.nodup (hg : g.Upvals) {th : Nat}
    (halloc : g.Allocated (.thread th)) : (g.thread th).openupval.Nodup := by
  refine (hg.sorted th halloc).imp ?_
  intro m k hmk heq
  subst heq
  exact Nat.lt_irrefl _ hmk

/-- An open upvalue of a thread, with the others of the thread. -/
structure OpenIn (g : GlobalState) (th n : Nat) (rest : List Nat) : Prop where
  thread : g.Allocated (.thread th)
  mem : n ∈ (g.thread th).openupval
  rest : (g.thread th).openupval.erase n = rest

namespace OpenIn

variable {th n : Nat} {rest : List Nat}

theorem opened (h : OpenIn g th n rest) (hg : g.Upvals) :
    g.Allocated (.upval n) ∧ exists l, g.upval n = .opened th l := by
  rcases hg.listed th n h.thread h.mem with
    ⟨halloc, l, hup, _⟩
  exact ⟨halloc, l, hup⟩

theorem isOpened (h : OpenIn g th n rest) (hg : g.Upvals) :
    g.isOpened n = true := by
  rcases h.opened hg with ⟨_, l, hup⟩
  unfold GlobalState.isOpened
  rw [hup]

theorem notMem (h : OpenIn g th n rest) (hg : g.Upvals) : n ∉ rest := by
  rw [← h.rest]
  exact (hg.nodup h.thread).not_mem_erase

theorem mem_rest (h : OpenIn g th n rest) {m : Nat} (hm : m ≠ n) :
    m ∈ rest <-> m ∈ (g.thread th).openupval := by
  rw [← h.rest]
  exact List.mem_erase_of_ne hm

theorem of_cons (halloc : g.Allocated (.thread th))
    (hlist : (g.thread th).openupval = n :: rest) : OpenIn g th n rest := by
  refine ⟨halloc, ?_, ?_⟩
  · rw [hlist]
    exact List.mem_cons_self
  · rw [hlist]
    exact List.erase_cons_head n rest

end OpenIn

/-- The open upvalues when one of a thread is taken off. -/
structure TakenOff (g g' : GlobalState) (th n : Nat) (rest : List Nat) :
    Prop where
  openupval : forall t, (g'.thread t).openupval =
    if t = th then rest else (g.thread t).openupval
  stack : forall t, (g'.thread t).stack = (g.thread t).stack
  other : forall m, m ≠ n -> g'.upval m = g.upval m
  self : g'.Allocated (.upval n) -> g'.isOpened n = false
  allocated : forall x, x ≠ .upval n -> (g'.Allocated x <-> g.Allocated x)
  uvhead : g'.uvhead = g.uvhead.erase n

theorem TakenOff.upvals {th n : Nat} {rest : List Nat}
    (h : TakenOff g g' th n rest) (hg : g.Upvals)
    (hopenin : OpenIn g th n rest) : g'.Upvals := by
  have hnotOpen : forall t l, g'.Allocated (.upval n) ->
      g'.upval n ≠ .opened t l := by
    intro t l halloc hup
    have hclosed := h.self halloc
    unfold isOpened at hclosed
    rw [hup] at hclosed
    cases hclosed
  have hisOpened : forall m, m ≠ n -> g'.isOpened m = g.isOpened m := by
    intro m hm
    unfold isOpened
    rw [h.other m hm]
  have hlevel : forall m, m ≠ n -> g'.level m = g.level m := by
    intro m hm
    unfold level
    rw [h.other m hm]
  rcases hopenin.opened hg with ⟨_, l0, hup0⟩
  have hne : forall t m, g.Allocated (.thread t) ->
      m ∈ (g'.thread t).openupval -> m ≠ n ∧ m ∈ (g.thread t).openupval := by
    intro t m ht hm
    rw [h.openupval] at hm
    split at hm
    · rename_i heq
      subst heq
      have hmn : m ≠ n := fun hmn => hopenin.notMem hg (hmn ▸ hm)
      exact ⟨hmn, (hopenin.mem_rest hmn).mp hm⟩
    · rename_i hneq
      refine ⟨?_, hm⟩
      intro heq
      subst heq
      rcases hg.listed t m ht hm with ⟨_, l, hup, _⟩
      rw [hup0] at hup
      cases hup
      exact hneq rfl
  refine ⟨?_, ?_, ?_, ?_, ?_⟩
  · intro m t l halloc hup
    by_cases hm : m = n
    · subst hm
      exact absurd hup (hnotOpen t l halloc)
    · rw [h.other m hm] at hup
      have hold := hg.opened m t l ((h.allocated _ (by
        intro heq
        exact hm (GCObject.upval.inj heq))).mp halloc) hup
      refine ⟨(h.allocated _ GCObject.noConfusion).mpr hold.1, ?_⟩
      rw [h.openupval]
      split
      · rename_i heq
        subst heq
        exact (hopenin.mem_rest hm).mpr hold.2
      · exact hold.2
  · intro t m ht hm
    have ht' := (h.allocated _ GCObject.noConfusion).mp ht
    rcases hne t m ht' hm with ⟨hmn, hmem⟩
    rcases hg.listed t m ht' hmem with ⟨halloc, l, hup, hl⟩
    refine ⟨(h.allocated _ (by
      intro heq
      exact hmn (GCObject.upval.inj heq))).mpr halloc, l, ?_, ?_⟩
    · rw [h.other m hmn]
      exact hup
    · rw [h.stack]
      exact hl
  · intro t ht
    have ht' := (h.allocated _ GCObject.noConfusion).mp ht
    have hsorted : (g'.thread t).openupval.Pairwise fun m k =>
        g.level k < g.level m := by
      have hold := hg.sorted t ht'
      rw [h.openupval]
      split
      · rename_i heq
        subst heq
        rw [← hopenin.rest]
        exact hold.sublist List.erase_sublist
      · exact hold
    refine hsorted.imp_of_mem ?_
    intro m k hm hk hmk
    rw [hlevel m (hne t m ht' hm).1, hlevel k (hne t k ht' hk).1]
    exact hmk
  · intro m
    rw [h.uvhead, hg.uvheadNodup.mem_erase_iff, hg.uvhead]
    by_cases hm : m = n
    · subst hm
      constructor
      · intro hne
        rcases hne with ⟨hne, _⟩
        exact absurd rfl hne
      · intro hopen
        rcases hopen with ⟨halloc, hopen⟩
        rw [h.self halloc] at hopen
        cases hopen
    · rw [hisOpened m hm, h.allocated _ (by
        intro heq
        exact hm (GCObject.upval.inj heq))]
      exact ⟨fun hp => hp.2, fun hp => ⟨hm, hp⟩⟩
  · rw [h.uvhead]
    exact hg.uvheadNodup.erase n

/-!
# A dead upvalue is freed
-/

theorem upval_freeupval (th n : Nat) (rest : List Nat) :
    ((g.setOpenupval th rest).freeupval n).upval = g.upval :=
  upval_setOpenupval th rest

theorem released_freeupval {n : Nat} (th : Nat) (rest : List Nat)
    (hdead : g.isdead (.upval n) = true) :
    Released g ((g.setOpenupval th rest).freeupval n) (.upval n) :=
  ⟨hdead, rfl, rfl, rfl,
    fun y => congrFun (slots_setOpenupval (g := g) th rest) y,
    upval_freeupval th n rest, rfl, rfl, rfl⟩

theorem taken_freeupval {n : Nat} (th : Nat) (rest : List Nat)
    (hdead : g.isdead (.upval n) = true) :
    TakenOff g ((g.setOpenupval th rest).freeupval n) th n rest := by
  have hreleased := released_freeupval th rest hdead
  refine ⟨fun t => openupval_setOpenupval th t rest,
    fun t => stack_setOpenupval th t rest, ?_, ?_, ?_, rfl⟩
  · intro m _
    rw [upval_freeupval]
  · intro halloc
    exact absurd rfl ((hreleased.allocated _).mp halloc).1
  · intro x hx
    rw [hreleased.allocated]
    exact ⟨fun h => h.2, fun h => ⟨hx, h⟩⟩

theorem Inv.closeFree (hg : g.Inv) {th n : Nat} {rest : List Nat}
    (hopenin : OpenIn g th n rest) (hdead : g.isdead (.upval n) = true) :
    ((g.setOpenupval th rest).freeupval n).Inv := by
  have hreleased := released_freeupval th rest hdead
  have htaken := taken_freeupval th rest hdead
  have hnot : .upval n ∉ g.rootgc := by
    intro hmem
    have hrooted := (hg.linked.allocated _ hmem).2
    rw [rooted_upval, hopenin.isOpened hg.upvals] at hrooted
    cases hrooted
  refine hreleased.inv hg (hreleased.linked hg ?_ ?_ hg.linked.stringsNodup
      hg.linked.table)
    (htaken.upvals hg.upvals hopenin) ?_
  · exact (List.erase_of_not_mem hnot).symm
  · exact fun m => ⟨fun h => ⟨GCObject.noConfusion, h⟩, fun h => h.2⟩
  · intro x _ _ hx
    unfold Unswept at hx ⊢
    rw [hreleased.upval]
    exact hx

/-!
# A live upvalue is closed
-/

/-- The upvalue has moved out of the stack, with its color. -/
structure Moved (g g' : GlobalState) (th n : Nat) (rest : List Nat) : Prop where
  taken : TakenOff g g' th n rest
  closed : g'.isOpened n = false
  value : g'.upvalValue n = g.upvalValue n
  frame : g' = { g with
    objs := g'.objs
    passed := g'.passed
    sweepgc := g'.sweepgc
    uvhead := g'.uvhead }
  slots : forall x, g'.slots x = g.slots x
  perm : g'.rootgc.Perm (.upval n :: g.rootgc)
  kept : forall x, x ∈ g.sweepgc -> x ∈ g'.sweepgc

/-- `luaF_close` up to the colors of an upvalue that is not dead. -/
def moveupval (g : GlobalState) (th n : Nat) (rest : List Nat) : GlobalState :=
  let g1 := g.setOpenupval th rest
  (({ g1 with uvhead := g1.uvhead.erase n }).setUpval n
    (.closed (g1.upvalValue n))).linkroot (.upval n)

theorem moved_moveupval (g : GlobalState) (th n : Nat) (rest : List Nat) :
    Moved g (g.moveupval th n rest) th n rest := by
  unfold moveupval
  simp only
  have hinserted := inserted_linkroot
    (({ g.setOpenupval th rest with
      uvhead := (g.setOpenupval th rest).uvhead.erase n }).setUpval n
        (.closed ((g.setOpenupval th rest).upvalValue n))) (.upval n)
  have hupval : forall m, upval
      (({ g.setOpenupval th rest with
        uvhead := (g.setOpenupval th rest).uvhead.erase n }).setUpval n
          (.closed ((g.setOpenupval th rest).upvalValue n))) m =
      if m = n then .closed (g.upvalValue n) else g.upval m := by
    intro m
    rw [upval_setUpval, upvalValue_setOpenupval]
    split
    · rfl
    · exact congrFun (upval_setOpenupval (g := g) th rest) m
  have hthread : forall t, thread
      (({ g.setOpenupval th rest with
        uvhead := (g.setOpenupval th rest).uvhead.erase n }).setUpval n
          (.closed ((g.setOpenupval th rest).upvalValue n))) t =
      (g.setOpenupval th rest).thread t := by
    intro t
    exact objs_write_of_ne _ (.upval n) _ GCObject.noConfusion
  have hobjs : forall x, x ≠ .upval n -> objs
      (({ g.setOpenupval th rest with
        uvhead := (g.setOpenupval th rest).uvhead.erase n }).setUpval n
          (.closed ((g.setOpenupval th rest).upvalValue n))) x =
      (g.setOpenupval th rest).objs x := by
    intro x hx
    exact objs_write_of_ne _ (.upval n) _ hx
  generalize hs : (({ g.setOpenupval th rest with
      uvhead := (g.setOpenupval th rest).uvhead.erase n }).setUpval n
        (.closed ((g.setOpenupval th rest).upvalValue n))) = s
    at hinserted hupval hthread hobjs ⊢
  have hsframe : s = { g with objs := s.objs, uvhead := g.uvhead.erase n } := by
    rw [← hs]
    rfl
  have hroot : s.rootgc = g.rootgc := by
    rw [hsframe]
    rfl
  have hobj : (s.linkroot (.upval n)).objs = s.objs := by
    rw [hinserted.frame]
  have hself : s.upval n = .closed (g.upvalValue n) := by
    rw [hupval, if_pos rfl]
  have hvalue : forall m, s.upvalValue m = g.upvalValue m := by
    intro m
    unfold upvalValue
    rw [hupval]
    by_cases hm : m = n
    · rw [if_pos hm, hm]
      rfl
    · rw [if_neg hm]
      cases g.upval m with
      | closed v => rfl
      | opened t l =>
          simp only [stackAt, hthread]
          rw [stack_setOpenupval]
  have hslots : forall x, s.slots x = g.slots x := by
    intro x
    cases x with
    | upval m => simp only [slots, hvalue]
    | string m => rfl
    | thread t =>
        have hold := congrFun (slots_setOpenupval (g := g) th rest) (.thread t)
        simp only [slots, hthread] at hold ⊢
        exact hold
    | udata m =>
        have hold := congrFun (slots_setOpenupval (g := g) th rest) (.udata m)
        simp only [slots, udata, hobjs (.udata m) GCObject.noConfusion]
          at hold ⊢
        exact hold
    | function m =>
        have hold :=
          congrFun (slots_setOpenupval (g := g) th rest) (.function m)
        simp only [slots, function, hobjs (.function m) GCObject.noConfusion]
          at hold ⊢
        exact hold
    | table m =>
        have hold := congrFun (slots_setOpenupval (g := g) th rest) (.table m)
        simp only [slots, table, hobjs (.table m) GCObject.noConfusion]
          at hold ⊢
        exact hold
    | proto m =>
        have hold := congrFun (slots_setOpenupval (g := g) th rest) (.proto m)
        simp only [slots, proto, hobjs (.proto m) GCObject.noConfusion]
          at hold ⊢
        exact hold
  have hsame := SameObjs.of_objs hobj
  have hmarked : (s.linkroot (.upval n)).marked = g.marked := by
    rw [hinserted.marked, hsframe]
  refine ⟨⟨?_, ?_, ?_, ?_, ?_, ?_⟩, ?_, ?_, ?_, ?_, ?_, ?_⟩
  · intro t
    rw [hsame.thread, hthread]
    exact openupval_setOpenupval th t rest
  · intro t
    rw [hsame.thread, hthread]
    exact stack_setOpenupval th t rest
  · intro m hm
    rw [hsame.upval, hupval, if_neg hm]
  · intro _
    rw [hsame.isOpened, isOpened, hself]
  · intro x _
    rw [Allocated, hmarked]
    rfl
  · rw [hinserted.frame, hsframe]
  · rw [hsame.isOpened, isOpened, hself]
  · rw [hsame.upvalValue, hvalue]
  · rw [hinserted.frame, hsframe]
  · intro x
    rw [hsame.slots, hslots]
  · rw [← hroot]
    exact hinserted.perm
  · intro x hx
    refine hinserted.kept x ?_
    rw [hsframe]
    exact hx

namespace Moved

variable {th n : Nat} {rest : List Nat}

theorem marked (h : Moved g g' th n rest) : g'.marked = g.marked := by
  rw [h.frame]

theorem color? (h : Moved g g' th n rest) (x : GCObject) :
    g'.color? x = g.color? x := color?_eq_of_marked h.marked

theorem currentwhite (h : Moved g g' th n rest) :
    g'.currentwhite = g.currentwhite := by
  rw [h.frame]

theorem gcstate (h : Moved g g' th n rest) : g'.gcstate = g.gcstate := by
  rw [h.frame]

theorem allocated (h : Moved g g' th n rest) (x : GCObject) :
    g'.Allocated x <-> g.Allocated x := by
  rw [Allocated, h.marked]
  rfl

theorem isdead (h : Moved g g' th n rest) (x : GCObject) :
    g'.isdead x = g.isdead x := by
  unfold GlobalState.isdead
  rw [h.color?, h.currentwhite]

theorem isOpened (h : Moved g g' th n rest) {m : Nat} (hm : m ≠ n) :
    g'.isOpened m = g.isOpened m := by
  unfold GlobalState.isOpened
  rw [h.taken.other m hm]

theorem roots (h : Moved g g' th n rest) : g'.roots = g.roots := by
  rw [h.frame]
  rfl

theorem oldRoots (h : Moved g g' th n rest) : g'.oldRoots = g.oldRoots := by
  rw [h.frame]
  rfl

theorem tmudata (h : Moved g g' th n rest) : g'.tmudata = g.tmudata := by
  rw [h.frame]

theorem graylists (h : Moved g g' th n rest) : g'.graylists = g.graylists := by
  rw [h.frame]
  rfl

theorem due (h : Moved g g' th n rest) (x : GCObject) :
    g'.Due x <-> g.Due x := by
  simp only [Due, h.tmudata]

theorem closedRefs (h : Moved g g' th n rest) (hg : g.Closed) :
    g'.Closed := by
  have halive : forall x, g'.Alive x <-> g.Alive x := by
    intro x
    rw [Alive, Alive, h.allocated, h.isdead]
  refine ⟨?_, ?_, ?_⟩
  · intro x y hx hy
    rw [halive] at hx ⊢
    rw [h.slots] at hy
    exact hg.slots x y hx hy
  · intro x hx
    rw [halive]
    rw [h.roots] at hx
    exact hg.roots x hx
  · intro m hm
    rw [halive]
    rw [h.tmudata] at hm
    exact hg.due m hm

theorem linked (h : Moved g g' th n rest) (hg : g.Linked)
    (hopen : g.isOpened n = true) (halloc : g.Allocated (.upval n)) :
    g'.Linked := by
  have hmem : forall x, x ∈ g'.rootgc <-> x = .upval n ∨ x ∈ g.rootgc := by
    intro x
    rw [h.perm.mem_iff, List.mem_cons]
  have hmt : g'.mainthread = g.mainthread := by rw [h.frame]
  have hstrt : g'.strt = g.strt := by rw [h.frame]
  have hnot : .upval n ∉ g.rootgc := by
    intro hn
    have hr := (hg.allocated _ hn).2
    rw [rooted_upval, hopen] at hr
    cases hr
  have hrooted : forall x, x ≠ .upval n -> g'.rooted x = g.rooted x := by
    intro x hx
    cases x with
    | upval m =>
        rw [rooted_upval, rooted_upval,
          h.isOpened fun hm => hx (hm ▸ rfl)]
    | _ => rfl
  refine ⟨?_, ?_, ?_, ?_, ?_, ?_, ?_, ?_, ?_, ?_, ?_⟩
  · rw [hmt, hmem]
    exact Or.inr hg.main
  · rw [hmt, h.marked]
    exact hg.fixed
  · rw [hmt, h.marked]
    exact hg.fixedKinds
  · exact h.perm.nodup_iff.mpr (List.nodup_cons.mpr ⟨hnot, hg.nodup⟩)
  · intro x hx
    rw [h.allocated]
    by_cases hxn : x = .upval n
    · rw [hxn, rooted_upval, h.closed]
      exact ⟨halloc, rfl⟩
    · rw [hrooted x hxn]
      exact hg.allocated x (((hmem x).mp hx).resolve_left hxn)
  · intro x hx hr
    rw [hmem, h.due]
    by_cases hxn : x = .upval n
    · exact Or.inl (Or.inl hxn)
    · rw [hrooted x hxn] at hr
      rcases hg.listed x ((h.allocated x).mp hx) hr with hold | hdue
      · exact Or.inl (Or.inr hold)
      · exact Or.inr hdue
  · intro m hm
    rw [h.tmudata] at hm
    rw [h.allocated, hmem]
    refine ⟨(hg.due m hm).1, ?_⟩
    intro hold
    rcases hold with heq | hold
    · cases heq
    · exact (hg.due m hm).2 hold
  · rw [h.tmudata]
    exact hg.dueNodup
  · intro m
    rw [h.allocated, strings, hstrt]
    exact hg.strings m
  · rw [strings, hstrt]
    exact hg.stringsNodup
  · rw [hstrt]
    exact hg.table

theorem colors (h : Moved g g' th n rest) (hg : g.Colors) : g'.Colors := by
  constructor
  · intro x hx
    rw [isblack_eq_of_color? (h.color? x)] at hx
    have hold := hg.black x hx
    cases x with
    | upval m =>
        rw [blackens_upval] at hold ⊢
        by_cases hm : m = n
        · rw [hm, h.closed]
          rfl
        · rw [h.isOpened hm]
          exact hold
    | _ => exact hold
  · intro m
    rw [isgray_eq_of_color? (h.color? _)]
    exact hg.udata m

theorem openUpval (h : Moved g g' th n rest) {x : GCObject}
    (hx : x ≠ .upval n) : g'.OpenUpval x <-> g.OpenUpval x := by
  constructor
  · intro hm
    rcases hm with ⟨m, rfl, hm⟩
    exact ⟨m, rfl, (h.isOpened fun hmn => hx (hmn ▸ rfl)).symm.trans hm⟩
  · intro hm
    rcases hm with ⟨m, rfl, hm⟩
    exact ⟨m, rfl, (h.isOpened fun hmn => hx (hmn ▸ rfl)).trans hm⟩

theorem unswept (h : Moved g g' th n rest) {x : GCObject}
    (hx : x ≠ .upval n) (hg : g.Unswept x) : g'.Unswept x := by
  unfold Unswept at hg ⊢
  rw [h.gcstate]
  rcases hg with ⟨hs, hstring⟩ | ⟨hs, hmem | ⟨m, t, l, rfl, hup, hth⟩⟩
  · left
    refine ⟨hs, ?_⟩
    rw [h.frame]
    exact hstring
  · exact Or.inr ⟨hs, Or.inl (h.kept x hmem)⟩
  · refine Or.inr ⟨hs, Or.inr ⟨m, t, l, rfl, ?_, h.kept _ hth⟩⟩
    rw [h.taken.other m fun hmn => hx (hmn ▸ rfl)]
    exact hup

end Moved

theorem closeupval_eq (g : GlobalState) (th n : Nat) (rest : List Nat) :
    (g.setOpenupval th rest).closeupval n =
      if (g.moveupval th n rest).isgray (.upval n) then
        if (g.moveupval th n rest).gcstate = .propagate then
          ((g.moveupval th n rest).paint (.upval n) .black).barrier (.upval n)
            ((g.moveupval th n rest).upvalValue n)
        else (g.moveupval th n rest).makewhite (.upval n)
      else g.moveupval th n rest := rfl

theorem Inv.opened_cases (hg : g.Inv) {n : Nat}
    (halloc : g.Allocated (.upval n)) (hopen : g.isOpened n = true)
    (hdead : g.isdead (.upval n) = false) :
    g.isgray (.upval n) = true ∨
      g.color? (.upval n) = some (.white g.currentwhite) := by
  cases hwhite : g.iswhite (.upval n) with
  | true => exact Or.inr (color?_of_iswhite hdead hwhite)
  | false =>
      rcases dark_cases ⟨halloc, hwhite⟩ with hgray | hblack
      · exact Or.inl hgray
      · rw [hg.colors.opened hopen] at hblack
        cases hblack

/-- Closing a gray upvalue in the mark phase: it gets black, behind a barrier. -/
theorem Inv.closeGray (hg : g.Inv) {th n : Nat} {rest : List Nat}
    {m : GlobalState} (hm : Moved g m th n rest)
    (hopenin : OpenIn g th n rest) (hstate : g.gcstate = .propagate)
    (hgray : g.isgray (.upval n) = true) :
    ((m.paint (.upval n) .black).barrier (.upval n) (m.upvalValue n)).Inv := by
  have hprop := hg.propagating hstate
  have halloc := (hopenin.opened hg.upvals).1
  have hopen := hopenin.isOpened hg.upvals
  have hcolor : forall x, x ≠ .upval n ->
      (m.paint (.upval n) .black).color? x = g.color? x :=
    fun x hx => (color?_paint_of_ne _ hx).trans (hm.color? x)
  have hself : (m.paint (.upval n) .black).isblack (.upval n) = true :=
    isblack_iff.mpr (color?_paint_allocated _ ((hm.allocated _).mpr halloc))
  have hwhite : forall x,
      (m.paint (.upval n) .black).iswhite x = g.iswhite x := by
    intro x
    by_cases hx : x = .upval n
    · rw [hx, iswhite_of_isblack hself, iswhite_of_isgray hgray]
    · exact iswhite_eq_of_color? (hcolor x hx)
  have hlinks := sameLinks_paint m (.upval n) .black
  have hstate' : (m.paint (.upval n) .black).gcstate = .propagate :=
    hm.gcstate.trans hstate
  have hdead : forall x, (m.paint (.upval n) .black).isdead x = false := by
    intro x
    by_cases hx : x = .upval n
    · rw [hx]
      exact isdead_of_dark (iswhite_of_isblack hself)
    · unfold isdead
      rw [hcolor x hx, show (m.paint (.upval n) .black).currentwhite =
        g.currentwhite from hm.currentwhite]
      exact hprop.noDead x
  have hdeadm : forall x, m.isdead x = false :=
    fun x => (hm.isdead x).trans (hprop.noDead x)
  have hclosed : (m.paint (.upval n) .black).Closed := by
    have hold := hm.closedRefs hg.closed
    have halive : forall x, (m.paint (.upval n) .black).Alive x <-> m.Alive x := by
      intro x
      rw [Alive, Alive, hlinks.allocated, hdead, hdeadm]
    refine ⟨?_, ?_, ?_⟩
    · intro x y hx hy
      rw [halive] at hx ⊢
      exact hold.slots x y hx hy
    · intro x hx
      rw [halive]
      exact hold.roots x hx
    · intro k hk
      rw [halive]
      exact hold.due k hk
  have hcolors : (m.paint (.upval n) .black).Colors := by
    have hold := hm.colors hg.colors
    constructor
    · intro x hx
      rw [hlinks.blackens]
      by_cases hxn : x = .upval n
      · rw [hxn, blackens_upval, hm.closed]
        rfl
      · exact hold.black x
          ((isblack_eq_of_color? (color?_paint_of_ne _ hxn)).symm.trans hx)
    · intro k
      rw [isgray_eq_of_color? (color?_paint_of_ne _ GCObject.noConfusion)]
      exact hold.udata k
  have hlists : (m.paint (.upval n) .black).GrayLists := by
    have hsame : (m.paint (.upval n) .black).graylists = g.graylists :=
      hm.graylists
    refine ⟨?_, ?_, ?_⟩
    · intro x hx
      have hxn : x ≠ .upval n := by
        intro heq
        subst heq
        have hblack := isblack_iff.mp hself
        rw [isgray_iff.mp hx] at hblack
        cases hblack
      rw [hsame, hlinks.openUpval, hm.openUpval hxn]
      exact hprop.lists.grays x
        ((isgray_eq_of_color? (hcolor x hxn)).symm.trans hx)
    · intro x hx
      rw [hsame] at hx
      rcases hprop.lists.lists x hx with ⟨hold, htrav⟩
      refine ⟨(isgray_eq_of_color? (hcolor x ?_)).trans hold, htrav⟩
      intro heq
      subst heq
      cases htrav
    · rw [hsame]
      exact hprop.lists.nodup
  -- the upvalue itself is left out until its value is marked
  have htricolor : Library.Tricolor (m.paint (.upval n) .black).Dark
      (m.paint (.upval n) .black).White
      (fun x => (m.paint (.upval n) .black).Pending x ∨ x = .upval n)
      (m.paint (.upval n) .black).slots := by
    have hslots : (m.paint (.upval n) .black).slots = g.slots :=
      funext hm.slots
    rw [hslots]
    refine hprop.tricolor.recolor ?_ ?_
    · intro x y _ _ hy
      exact (hwhite y).symm.trans hy
    · intro x hx
      by_cases hxn : x = .upval n
      · exact Or.inr (Or.inl (Or.inr hxn))
      · refine Or.inl ⟨⟨(hm.allocated x).mp ((hlinks.allocated x).mp hx.1),
          (hwhite x).symm.trans hx.2⟩, ?_⟩
        intro hp
        rcases hp with hp | hp | hp
        · refine Or.inl (Or.inl ?_)
          rw [show (m.paint (.upval n) .black).graylists = g.graylists from
            hm.graylists]
          exact hp
        · exact Or.inl (Or.inr (Or.inl ((hlinks.openUpval x).mpr
            ((hm.openUpval hxn).mpr hp))))
        · exact Or.inl (Or.inr (Or.inr ((hm.due x).mpr hp)))
  rcases barrier_marks hstate' hself (m.upvalValue n) with ⟨hmarks, hdark⟩
  have hcovered : ((m.paint (.upval n) .black).barrier (.upval n)
      (m.upvalValue n)).Covered (.upval n) := by
    intro y hy
    rw [hmarks.slots] at hy
    exact hdark y (m.upvalValue_slots.mp hy)
  have hnext := hmarks.tricolor
    (fun x => ((m.paint (.upval n) .black).barrier (.upval n)
      (m.upvalValue n)).Pending x ∨ x = .upval n) htricolor
    (fun x hx => hx.imp hmarks.pending id)
    fun x hx => Or.inl (Or.inl (List.mem_append_left _ hx))
  refine ⟨hmarks.closed hdead hclosed,
    hmarks.sameLinks.linked (hlinks.linked
      (hm.linked hg.linked hopen halloc)),
    hmarks.sameLinks.upvals (hlinks.upvals
      (hm.taken.upvals hg.upvals hopenin)),
    hmarks.colors hcolors, fun _ => ⟨fun x => hmarks.isdead (hdead x), ?_, ?_,
      hmarks.grayLists hlists⟩, ?_⟩
  · intro x hx
    rw [hmarks.oldRoots] at hx
    refine hmarks.dark ((hwhite x).trans (hprop.marked x ?_))
    rw [← hm.oldRoots]
    exact hx
  · refine hnext.recolor (fun _ _ _ _ hy => hy) ?_
    intro x hx
    by_cases hxn : x = .upval n
    · right
      right
      intro y hy hwhite
      rw [hxn] at hy
      exact absurd (hwhite.symm.trans (hcovered y hy)) Bool.noConfusion
    · exact Or.inl ⟨hx, fun hp => hp.resolve_right hxn⟩
  · intro hne
    exact absurd (hmarks.gcstate.trans hstate') hne

theorem Inv.closeWhite (hg : g.Inv) {th n : Nat} {rest : List Nat}
    {m : GlobalState} (hm : Moved g m th n rest)
    (hopenin : OpenIn g th n rest) (hstate : g.gcstate = .propagate)
    (hwhite : g.iswhite (.upval n) = true) : m.Inv := by
  have hprop := hg.propagating hstate
  have hopened := hopenin.opened hg.upvals
  have hiswhite : forall x, m.iswhite x = g.iswhite x :=
    fun x => iswhite_eq_of_color? (hm.color? x)
  have hdark : forall x, m.Dark x <-> g.Dark x := by
    intro x
    rw [Dark, Dark, hm.allocated, hiswhite]
  have hgray : forall x, m.isgray x = g.isgray x :=
    fun x => isgray_eq_of_color? (hm.color? x)
  have hneOf : forall x, g.iswhite x = false -> x ≠ .upval n := by
    intro x hx heq
    subst heq
    rw [hwhite] at hx
    cases hx
  refine ⟨hm.closedRefs hg.closed,
    hm.linked hg.linked (hopenin.isOpened hg.upvals) hopened.1,
    hm.taken.upvals hg.upvals hopenin, hm.colors hg.colors,
    fun _ => ⟨fun x => (hm.isdead x).trans (hprop.noDead x), ?_, ?_,
      ⟨?_, ?_, ?_⟩⟩, fun hne => absurd (hm.gcstate.trans hstate) hne⟩
  · intro x hx
    rw [hm.oldRoots] at hx
    exact (hiswhite x).trans (hprop.marked x hx)
  · rw [funext hm.slots]
    refine hprop.tricolor.recolor ?_ ?_
    · intro x y _ _ hy
      exact (hiswhite y).symm.trans hy
    · intro x hx
      refine Or.inl ⟨(hdark x).mp hx, ?_⟩
      intro hp
      rcases hp with hp | hp | hp
      · left
        rw [hm.graylists]
        exact hp
      · have hxn := hneOf x ((hdark x).mp hx).2
        exact Or.inr (Or.inl ((hm.openUpval hxn).mpr hp))
      · exact Or.inr (Or.inr ((hm.due x).mpr hp))
  · intro x hx
    rw [hgray] at hx
    rw [hm.graylists, hm.openUpval (hneOf x (iswhite_of_isgray hx))]
    exact hprop.lists.grays x hx
  · intro x hx
    rw [hm.graylists] at hx
    rw [hgray]
    exact hprop.lists.lists x hx
  · rw [hm.graylists]
    exact hprop.lists.nodup

/-- Outside the mark phase a closed upvalue gets the current white. -/
theorem Inv.closeSwept (hg : g.Inv) {th n : Nat} {rest : List Nat}
    {m : GlobalState} (hm : Moved g m th n rest)
    (hopenin : OpenIn g th n rest) (hne : g.gcstate ≠ .propagate)
    (hdead : g.isdead (.upval n) = false) : (m.makewhite (.upval n)).Inv := by
  have halloc := (hopenin.opened hg.upvals).1
  have hclosed := hm.closedRefs hg.closed
  refine makewhite_inv hclosed
    (hm.linked hg.linked (hopenin.isOpened hg.upvals) halloc)
    (hm.taken.upvals hg.upvals hopenin) (hm.colors hg.colors)
    (fun h => hne (hm.gcstate.symm.trans h)) ((hm.allocated _).mpr halloc) ?_ ?_
  · intro y hy
    refine hclosed.slots (.upval n) y ⟨(hm.allocated _).mpr halloc, ?_⟩ hy
    exact (hm.isdead _).trans hdead
  · intro y hy hyalloc
    rw [hm.color?, hm.currentwhite, hm.due]
    rcases hg.swept hne y ((hm.allocated y).mp hyalloc) with hw | hu | hd
    · exact Or.inl hw
    · exact Or.inr (Or.inl (hm.unswept hy hu))
    · exact Or.inr (Or.inr hd)

/-!
# luaF_close
-/

def closeTurn (g : GlobalState) (th n : Nat) (rest : List Nat) : GlobalState :=
  if g.isdead (.upval n) then (g.setOpenupval th rest).freeupval n
  else (g.setOpenupval th rest).closeupval n

/-- One open upvalue of the thread has been closed. -/
structure ClosedOne (g s : GlobalState) (th n : Nat) (rest : List Nat) :
    Prop where
  taken : TakenOff g s th n rest
  color : forall x, x ≠ .upval n ->
    s.color? x = g.color? x ∨ g.gcstate = .propagate
  gcstate : s.gcstate = g.gcstate
  currentwhite : s.currentwhite = g.currentwhite
  kept : forall x, x ∈ g.sweepgc -> x ∈ s.sweepgc

theorem Moved.closedOne {th n : Nat} {rest : List Nat} {m : GlobalState}
    (hm : Moved g m th n rest) : ClosedOne g m th n rest :=
  ⟨hm.taken, fun _ _ => Or.inl (hm.color? _), hm.gcstate, hm.currentwhite, hm.kept⟩

theorem TakenOff.congr {s : GlobalState} {th n : Nat} {rest : List Nat}
    (h : TakenOff g g' th n rest) (hlinks : SameLinks g' s)
    (hobjs : s.objs = g'.objs) : TakenOff g s th n rest := by
  have hsame := SameObjs.of_objs hobjs
  refine ⟨?_, ?_, ?_, ?_, ?_, hlinks.uvhead.trans h.uvhead⟩
  · intro t
    rw [hsame.thread]
    exact h.openupval t
  · intro t
    rw [hsame.thread]
    exact h.stack t
  · intro m hm
    rw [hsame.upval]
    exact h.other m hm
  · intro halloc
    rw [hsame.isOpened]
    exact h.self ((hlinks.allocated _).mp halloc)
  · intro x hx
    exact (hlinks.allocated x).trans (h.allocated x hx)

theorem Inv.closeTurn (hg : g.Inv) {th n : Nat} {rest : List Nat}
    (hopenin : OpenIn g th n rest) :
    (g.closeTurn th n rest).Inv ∧
      ClosedOne g (g.closeTurn th n rest) th n rest := by
  have hm := moved_moveupval g th n rest
  unfold GlobalState.closeTurn
  cases hdead : g.isdead (.upval n) with
  | true =>
      rw [if_pos rfl]
      have hreleased := released_freeupval th rest hdead
      refine ⟨hg.closeFree hopenin hdead, taken_freeupval th rest hdead,
        fun x hx => Or.inl ?_, rfl, rfl, fun _ hx => hx⟩
      rw [hreleased.color?, if_neg hx]
  | false =>
      rw [if_neg Bool.noConfusion, closeupval_eq]
      generalize g.moveupval th n rest = m at hm ⊢
      have hcases := hg.opened_cases (hopenin.opened hg.upvals).1
        (hopenin.isOpened hg.upvals) hdead
      have hgray : m.isgray (.upval n) = g.isgray (.upval n) :=
        isgray_eq_of_color? (hm.color? _)
      by_cases hstate : g.gcstate = .propagate
      · split
        · rename_i hisgray
          rw [if_pos (hm.gcstate.trans hstate)]
          refine ⟨hg.closeGray hm hopenin hstate (hgray.symm.trans hisgray), ?_⟩
          have hself : (m.paint (.upval n) .black).isblack (.upval n) = true :=
            isblack_iff.mpr (color?_paint_allocated _
              ((hm.allocated _).mpr (hopenin.opened hg.upvals).1))
          have hmarks := (barrier_marks
            (g := m.paint (.upval n) .black)
            (hm.gcstate.trans hstate) hself (m.upvalValue n)).1
          refine ⟨?_, fun _ _ => Or.inr hstate, hmarks.gcstate.trans hm.gcstate,
            hmarks.currentwhite.trans hm.currentwhite, ?_⟩
          · exact hm.taken.congr ((sameLinks_paint m _ _).trans
              hmarks.sameLinks) hmarks.objs
          · intro x hx
            rw [hmarks.frame]
            exact hm.kept x hx
        · rename_i hnot
          rw [hgray] at hnot
          refine ⟨hg.closeWhite hm hopenin hstate ?_, hm.closedOne⟩
          exact iswhite_iff.mpr ⟨_, hcases.resolve_left hnot⟩
      · have hnext := hg.closeSwept hm hopenin hstate hdead
        have hwhite : (if m.isgray (.upval n) = true then
            if m.gcstate = .propagate then
              (m.paint (.upval n) .black).barrier (.upval n) (m.upvalValue n)
            else m.makewhite (.upval n)
          else m) = m.makewhite (.upval n) := by
          split
          · rw [if_neg fun h => hstate (hm.gcstate.symm.trans h)]
          · rename_i hnot
            rw [hgray] at hnot
            refine (paint_self ?_).symm
            rw [hm.color?, hm.currentwhite]
            exact hcases.resolve_left hnot
        rw [hwhite]
        refine ⟨hnext, hm.taken.congr (sameLinks_paint m _ _) rfl,
          fun x hx => Or.inl ?_, hm.gcstate, hm.currentwhite, hm.kept⟩
        rw [color?_makewhite_of_ne hx]
        exact hm.color? _

/-- What the loop of `luaF_close` keeps. -/
structure Closing (g s : GlobalState) : Prop where
  inv : s.Inv
  color : forall x, (forall n, x ≠ .upval n) ->
    s.color? x = g.color? x ∨ g.gcstate = .propagate
  gcstate : s.gcstate = g.gcstate
  currentwhite : s.currentwhite = g.currentwhite
  kept : forall x, x ∈ g.sweepgc -> x ∈ s.sweepgc
  allocated : forall x, (forall n, x ≠ .upval n) ->
    (s.Allocated x <-> g.Allocated x)
  stack : forall t, (s.thread t).stack = (g.thread t).stack

theorem Closing.refl (hg : g.Inv) : Closing g g :=
  ⟨hg, fun _ _ => Or.inl rfl, rfl, rfl, fun _ hx => hx, fun _ _ => Iff.rfl,
    fun _ => rfl⟩

theorem Inv.closing (hg : g.Inv) {th n : Nat} {rest : List Nat}
    (hopenin : OpenIn g th n rest) : Closing g (g.closeTurn th n rest) := by
  rcases hg.closeTurn hopenin with ⟨hinv, hclosed⟩
  exact ⟨hinv, fun x hx => hclosed.color x (hx n), hclosed.gcstate,
    hclosed.currentwhite, hclosed.kept,
    fun x hx => hclosed.taken.allocated x (hx n), hclosed.taken.stack⟩

theorem Closing.trans {s s' : GlobalState} (h : Closing g s)
    (h' : Closing s s') : Closing g s' where
  inv := h'.inv
  color := by
    intro x hx
    rcases h.color x hx with hs | hstate
    · rcases h'.color x hx with hs' | hstate'
      · exact Or.inl (hs'.trans hs)
      · exact Or.inr (h.gcstate.symm.trans hstate')
    · exact Or.inr hstate
  gcstate := h'.gcstate.trans h.gcstate
  currentwhite := h'.currentwhite.trans h.currentwhite
  kept := fun x hx => h'.kept x (h.kept x hx)
  allocated := fun x hx => (h'.allocated x hx).trans (h.allocated x hx)
  stack := fun t => (h'.stack t).trans (h.stack t)

theorem Closing.alive {s : GlobalState} (h : Closing g s) {x : GCObject}
    (hx : forall n, x ≠ .upval n) (halive : g.Alive x) : s.Alive x := by
  refine ⟨(h.allocated x hx).mpr halive.1, ?_⟩
  rcases h.color x hx with hcolor | hstate
  · unfold isdead
    rw [hcolor, h.currentwhite]
    exact halive.2
  · exact (h.inv.propagating (h.gcstate.trans hstate)).noDead x

theorem closeLoop_cons (th limit n : Nat) (rest : List Nat) (g : GlobalState) :
    closeLoop th limit (n :: rest) g =
      if limit ≤ g.level n then closeLoop th limit rest (g.closeTurn th n rest)
      else g := rfl

/-- The loop of `luaF_close`, with the upvalues that stay open. -/
theorem closeLoop_spec (th limit : Nat) (ns : List Nat) (hg : g.Inv)
    (halloc : g.Allocated (.thread th)) (hns : (g.thread th).openupval = ns) :
    Closing g (closeLoop th limit ns g) ∧
      forall n, n ∈ ((closeLoop th limit ns g).thread th).openupval ->
        (closeLoop th limit ns g).level n < limit := by
  induction ns generalizing g with
  | nil =>
      rw [closeLoop]
      refine ⟨Closing.refl hg, ?_⟩
      intro n hn
      rw [hns] at hn
      cases hn
  | cons n rest ih =>
      rw [closeLoop_cons]
      split
      · have hopenin : OpenIn g th n rest := OpenIn.of_cons halloc hns
        have hturn := hg.closing hopenin
        have hopen : ((g.closeTurn th n rest).thread th).openupval = rest := by
          rw [(hg.closeTurn hopenin).2.taken.openupval, if_pos rfl]
        have hth := (hturn.allocated (.thread th)
          fun _ => GCObject.noConfusion).mpr halloc
        rcases ih hturn.inv hth hopen with ⟨hclosing, hlevel⟩
        exact ⟨hturn.trans hclosing, hlevel⟩
      · rename_i hlimit
        refine ⟨Closing.refl hg, ?_⟩
        intro m hm
        have hsorted := hg.upvals.sorted th halloc
        rw [hns] at hm hsorted
        rcases List.mem_cons.mp hm with rfl | hm
        · exact Nat.lt_of_not_le hlimit
        · exact Nat.lt_trans ((List.pairwise_cons.mp hsorted).1 m hm)
            (Nat.lt_of_not_le hlimit)

theorem Inv.close (hg : g.Inv) {th : Nat} (halloc : g.Allocated (.thread th))
    (limit : Nat) :
    Closing g (g.close th limit) ∧
      forall n, n ∈ ((g.close th limit).thread th).openupval ->
        (g.close th limit).level n < limit :=
  closeLoop_spec th limit _ hg halloc rfl

end GlobalState
end Gc
end LuaServer
