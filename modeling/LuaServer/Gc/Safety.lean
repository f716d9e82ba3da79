import LuaServer.Gc.Runs

/-!
# What holds in every run

No step of the collector, whenever it comes, takes away an object that the
program can get at, and no object is lost or linked twice.
-/

namespace LuaServer
namespace Gc
namespace GlobalState

variable {g : GlobalState}

/-!
# Safety
-/

/--
What the program can get at is allocated, and the sweep will not free it; nor
does any object that is not dead refer to one that is dead or has been freed.
-/
theorem Reached.safe (h : Reached g) :
    (forall x, g.Accessible x -> g.Alive x) ∧
      forall x y, g.Alive x -> y ∈ g.slots x -> g.Alive y :=
  ⟨fun _ hx => h.inv.closed.accessible hx, h.inv.closed.slots⟩

/-- A table on the stack while the collector has started to mark. -/
theorem safe_marking :
    ((luaopen 0 1).createtable 0 0 2).singlestep.Alive (.table 2) := by
  have hreached : Reached ((luaopen 0 1).createtable 0 0 2).singlestep := by
    refine Reached.next (Reached.next (Reached.start 0 1) ?_) (Step.singlestep _)
    exact Step.createtable 0 0 (fun h => h rfl)
  refine hreached.safe.1 _ (Library.Reaches.step
    (x := .thread 0) (Library.Reaches.root ?_) ?_)
  · exact List.mem_cons_self
  · decide

/-!
# The mark phase
-/

/-- Black objects refer to no white ones, but for userdata that are due. -/
def BlackDark (g : GlobalState) : Prop :=
  g.gcstate = .propagate -> forall x y, g.isblack x = true ->
    (forall n, n ∈ g.tmudata -> x ≠ .udata n) -> y ∈ g.slots x -> g.Dark y

theorem Inv.blackDark (hg : g.Inv) : g.BlackDark := by
  intro hstate x y hblack hdue hy
  have hp := hg.propagating hstate
  have halloc := allocated_of_isblack hblack
  have hclosed := hg.closed.slots x y ⟨halloc, hp.noDead x⟩ hy
  refine ⟨hclosed.1, ?_⟩
  rcases hp.tricolor x ⟨halloc, iswhite_of_isblack hblack⟩ with hpending | hslots
  · exfalso
    rcases hpending with hlist | ⟨n, rfl, hopen⟩ | ⟨n, rfl, hn⟩
    · have hgray := (hp.lists.lists x hlist).1
      rw [isgray_iff, isblack_iff.mp hblack] at hgray
      cases hgray
    · rw [hg.colors.opened hopen] at hblack
      cases hblack
    · exact hdue n hn rfl
  · exact Bool.eq_false_of_not_eq_true (hslots y hy)

/-- In the mark phase a black object refers to no white one. -/
theorem Reached.black_dark (h : Reached g) (hstate : g.gcstate = .propagate)
    {x y : GCObject} (hblack : g.isblack x = true)
    (hdue : forall n, n ∈ g.tmudata -> x ≠ .udata n) (hy : y ∈ g.slots x) :
    g.Dark y :=
  h.inv.blackDark hstate x y hblack hdue hy

def linkedTables : GlobalState := (luaopen 0 1).setmetatable 0 (some 1)

theorem reached_linkedTables : Reached linkedTables := by
  have hglobals : (luaopen 0 1).Accessible (.table 0) :=
    Library.Reaches.step (x := .thread 0)
      (Library.Reaches.root List.mem_cons_self) (by decide)
  have hregistry : (luaopen 0 1).Accessible (.table 1) :=
    Library.Reaches.root (by decide)
  refine Reached.next (Reached.start 0 1) (Step.setmetatable hglobals ?_)
  intro m hm
  cases hm
  exact hregistry

theorem tricolor_linkedTables :
    linkedTables.singlestep.singlestep.singlestep.Dark (.table 1) := by
  have hreached : Reached linkedTables.singlestep.singlestep.singlestep :=
    Reached.next (Reached.next (Reached.next reached_linkedTables
      (Step.singlestep _)) (Step.singlestep _)) (Step.singlestep _)
  refine hreached.black_dark (x := .table 0) ?_ ?_ ?_ ?_
  · decide
  · decide
  · intro n hn
    exact GCObject.noConfusion
  · decide

/-!
# A run with a finalizer
-/

theorem Reached.iterate (h : Reached g) (n : Nat) :
    Reached (singlestep^[n] g) := by
  induction n generalizing g with
  | zero => exact h
  | succ n ih => exact ih (h.next (Step.singlestep g))

theorem accessible_slot {x : GCObject} (hmain : g.mainthread = 0)
    (hx : x ∈ g.slots (.thread 0)) : g.Accessible x := by
  refine Library.Reaches.step (x := .thread 0) (Library.Reaches.root ?_) hx
  rw [← hmain]
  exact List.mem_cons_self

def finalizer : GlobalState :=
  ((((luaopen 0 1).fixstring (ascii "__gc") 0).createtable 0 0 2).pushcclosure
    0 0 0).pushlstring (ascii "__gc") 9

def finalizable : GlobalState :=
  ((finalizer.settable 2
    { finalizer.table 2 with
      node := [{ key := .string 0, val := .function 0 }] }
    (.string 0) (.function 0)).newuserdata 0 0).setudatamt 0 (some 2)

/-- A closure that shares the slot of the metatable. -/
def captured : GlobalState :=
  ((finalizable.pushlstring (ascii "a") 1).newproto (some 1) 0).pushclosure 0 0
    [.stack 0 0] 1

/-- A thread with a closure that shares a slot of its stack. -/
def coroutine : GlobalState :=
  ((((captured.newthread 1).switch 1).createtable 0 0 4).pushclosure 0 0
    [.stack 0 1] 2).switch 0

/-- The userdata, the thread and a new table have left the stack. -/
def dropped : GlobalState :=
  (coroutine.createtable 0 0 3).restack 0 [.table 2, .function 1, .function 2]

theorem reached_finalizer : Reached finalizer := by
  have hfixed := (Reached.start 0 1).next
    (Step.fixstring (ascii "__gc") (n := 0) fun h => h rfl)
  have htable := hfixed.next (Step.createtable 0 0 (n := 2) fun h => h rfl)
  have hclosure := htable.next (@Step.pushcclosure _ 0 0 0 (fun h => h rfl)
    (accessible_slot rfl (by decide)))
  exact hclosure.next (Step.pushlstring _ fun h => h rfl)

theorem reached_finalizable : Reached finalizable := by
  have hstored := reached_finalizer.next (@Step.settable _ 2
    { finalizer.table 2 with
      node := [{ key := .string 0, val := .function 0 }] }
    (.string 0) (.function 0)
    (accessible_slot rfl (by decide +kernel)) ⟨rfl, by decide +kernel⟩ ?_ ?_)
  · refine (hstored.next (Step.newuserdata (n := 0) ?_ ?_)).next
      (Step.setudatamt ?_ ?_)
    · exact fun h => h rfl
    · exact accessible_slot rfl (by decide +kernel)
    · exact accessible_slot rfl (by decide +kernel)
    · intro m hm
      cases hm
      exact accessible_slot rfl (by decide +kernel)
  · intro x hx
    cases hx
    exact accessible_slot rfl (by decide +kernel)
  · intro x hx
    cases hx
    exact accessible_slot rfl (by decide +kernel)

theorem reached_captured : Reached captured := by
  have hsource := reached_finalizable.next
    (Step.pushlstring (ascii "a") (n := 1) fun h => h (by decide +kernel))
  have hproto := hsource.next (@Step.newproto _ (some 1) 0
    (fun h => h (by decide +kernel)) (by
      intro s hs
      cases hs
      exact accessible_slot (by decide +kernel) (by decide +kernel)))
  refine hproto.next (Step.pushclosure (fun h => h (by decide +kernel)) ?_ ?_
    (Capturable.stack (fun h => h (by decide +kernel)) (by decide +kernel)
      (Capturable.nil _)))
  · exact accessible_slot (by decide +kernel) (by decide +kernel)
  · exact accessible_slot (by decide +kernel) (by decide +kernel)

theorem reached_coroutine : Reached coroutine := by
  have hthread := reached_captured.next
    (Step.newthread (n := 1) fun h => h (by decide +kernel))
  have hrunning := hthread.next (@Step.switch _ 1
    (accessible_slot (by decide +kernel) (by decide +kernel)))
  have htable := hrunning.next
    (Step.createtable 0 0 (n := 4) fun h => h (by decide +kernel))
  have hclosure := htable.next (@Step.pushclosure _ 0 0 2 [.stack 0 1]
    (fun h => h (by decide +kernel))
    (accessible_slot (by decide +kernel) (by decide +kernel))
    (accessible_slot (by decide +kernel) (by decide +kernel))
    (Capturable.stack (fun h => h (by decide +kernel)) (by decide +kernel)
      (Capturable.nil _)))
  exact hclosure.next (Step.switch (Library.Reaches.root (by decide +kernel)))

theorem reached_dropped : Reached dropped := by
  have htable := reached_coroutine.next
    (Step.createtable 0 0 (n := 3) fun h => h (by decide +kernel))
  have hthread : (coroutine.createtable 0 0 3).Accessible (.thread 1) :=
    accessible_slot (by decide +kernel) (by decide +kernel)
  refine htable.next (Step.restack (Library.Reaches.root (by decide +kernel)) ?_)
  intro v hv x hx
  rcases List.mem_cons.mp hv with rfl | hv
  · cases hx
    exact accessible_slot (by decide +kernel) (by decide +kernel)
  · rcases List.mem_cons.mp hv with rfl | hv
    · cases hx
      exact accessible_slot (by decide +kernel) (by decide +kernel)
    · rw [List.mem_singleton.mp hv] at hx
      cases hx
      exact Library.Reaches.step hthread (by decide +kernel)

/-- The marks are done, and the sweep has come to the first list of strings. -/
def sweeping : GlobalState := singlestep^[11] dropped

/-- The sweep is done, and the finalizer is due. -/
def finalizing : GlobalState := singlestep^[44] dropped

theorem reached_finalizing : Reached finalizing := reached_dropped.iterate 44

/-!
# The sweep
-/

/--
When no sweep is under way nothing is left that the last one had to free, and
between two cycles all objects are white again but those that are due.
-/
theorem Reached.sweep_complete (h : Reached g)
    (hsweep : g.gcstate ≠ .sweepstring ∧ g.gcstate ≠ .sweep) :
    (forall x, g.isdead x = false) ∧
      (g.gcstate ≠ .propagate -> forall x, g.Allocated x ->
        g.color? x = some (.white g.currentwhite) ∨
          exists n, x = .udata n ∧ n ∈ g.tmudata) := by
  refine ⟨h.inv.noDead hsweep.1 hsweep.2, ?_⟩
  intro hne x hx
  refine (h.inv.swept hne).white ?_ hx
  cases hstate : g.gcstate with
  | pause => exact Or.inl rfl
  | finalize => exact Or.inr rfl
  | propagate => exact absurd hstate hne
  | sweepstring => exact absurd hstate hsweep.1
  | sweep => exact absurd hstate hsweep.2

theorem swept_finalizing :
    dropped.Allocated (.table 3) ∧ ¬finalizing.Allocated (.table 3) ∧
      finalizing.isdead (.table 2) = false ∧ finalizing.tmudata = [0] ∧
        finalizing.color? (.table 2) = some (.white finalizing.currentwhite) := by
  have hstate : finalizing.gcstate = .finalize := by decide +kernel
  have hdue : finalizing.tmudata = [0] := by decide +kernel
  have hswept := reached_finalizing.sweep_complete
    ⟨fun h => GCState.noConfusion (hstate.symm.trans h),
      fun h => GCState.noConfusion (hstate.symm.trans h)⟩
  refine ⟨?_, ?_, hswept.1 _, hdue, ?_⟩
  · unfold Allocated
    decide +kernel
  · unfold Allocated
    decide +kernel
  · refine (hswept.2 ?_ (.table 2) ?_).resolve_right ?_
    · exact fun h => GCState.noConfusion (hstate.symm.trans h)
    · unfold Allocated
      decide +kernel
    · rintro ⟨n, hn, _⟩
      cases hn

/-!
# The lists
-/

/-- All the lists by which the collector gets at objects to sweep them. -/
def linked (g : GlobalState) : List GCObject :=
  g.rootgc ++ (g.tmudata.map .udata ++
    (g.strings.map .string ++ g.uvhead.map .upval))

/-- Every object that is allocated is in one of the lists, and only once. -/
theorem Reached.linkedOnce (h : Reached g) :
    g.linked.Nodup ∧ forall x, x ∈ g.linked <-> g.Allocated x := by
  have hl := h.inv.linked
  have hu := h.inv.upvals
  have hmem : forall x, x ∈ g.linked <-> x ∈ g.rootgc ∨ g.Due x ∨
      (exists n, x = .string n ∧ n ∈ g.strings) ∨
        exists n, x = .upval n ∧ n ∈ g.uvhead := by
    intro x
    simp only [GlobalState.linked, Due, List.mem_append, List.mem_map, eq_comm,
      and_comm]
  constructor
  · refine List.Nodup.append hl.nodup (List.Nodup.append ?_
      (List.Nodup.append ?_ ?_ ?_) ?_) ?_
    · exact hl.dueNodup.map fun _ _ heq => GCObject.udata.inj heq
    · exact hl.stringsNodup.map fun _ _ heq => GCObject.string.inj heq
    · exact hu.uvheadNodup.map fun _ _ heq => GCObject.upval.inj heq
    · intro x hx hy
      rcases List.mem_map.mp hx with ⟨n, _, rfl⟩
      rcases List.mem_map.mp hy with ⟨m, _, hm⟩
      cases hm
    · intro x hx hy
      rcases List.mem_map.mp hx with ⟨n, _, rfl⟩
      rcases List.mem_append.mp hy with hy | hy
      · rcases List.mem_map.mp hy with ⟨m, _, hm⟩
        cases hm
      · rcases List.mem_map.mp hy with ⟨m, _, hm⟩
        cases hm
    · intro x hx hy
      rcases List.mem_append.mp hy with hy | hy
      · rcases List.mem_map.mp hy with ⟨n, hn, rfl⟩
        exact (hl.due n hn).2 hx
      · rcases List.mem_append.mp hy with hy | hy
        · rcases List.mem_map.mp hy with ⟨n, _, rfl⟩
          cases (hl.allocated _ hx).2
        · rcases List.mem_map.mp hy with ⟨n, hn, rfl⟩
          have hr := (hl.allocated _ hx).2
          rw [rooted_upval, ((hu.uvhead n).mp hn).2] at hr
          cases hr
  · intro x
    rw [hmem]
    constructor
    · intro hn
      rcases hn with hx | ⟨n, rfl, hn⟩ | ⟨n, rfl, hn⟩ | ⟨n, rfl, hn⟩
      · exact (hl.allocated x hx).1
      · exact (hl.due n hn).1
      · exact (hl.strings n).mpr hn
      · exact ((hu.uvhead n).mp hn).1
    · intro hx
      cases hr : g.rooted x with
      | true => exact (hl.listed x hx hr).imp_right Or.inl
      | false =>
          right
          right
          cases x with
          | string n => exact Or.inl ⟨n, rfl, (hl.strings n).mp hx⟩
          | upval n =>
              refine Or.inr ⟨n, rfl, (hu.uvhead n).mpr ⟨hx, ?_⟩⟩
              rw [rooted_upval] at hr
              cases hopen : g.isOpened n with
              | true => rfl
              | false =>
                  rw [hopen] at hr
                  cases hr
          | _ => cases hr

theorem linkedOnce_finalizing :
    finalizing.linked.Nodup ∧ .string 0 ∈ finalizing.linked ∧
      .upval 0 ∈ finalizing.linked ∧ .udata 0 ∈ finalizing.linked ∧
        .table 3 ∉ finalizing.linked := by
  rcases reached_finalizing.linkedOnce with ⟨hnodup, hmem⟩
  simp only [hmem]
  refine ⟨hnodup, ?_, ?_, ?_, ?_⟩
  · unfold Allocated
    decide +kernel
  · unfold Allocated
    decide +kernel
  · unfold Allocated
    decide +kernel
  · unfold Allocated
    decide +kernel

/-!
# Shared upvalues
-/

theorem findLoop_of_mem {limit n : Nat} {ns : List Nat}
    (hsorted : ns.Pairwise fun m k => g.level k < g.level m)
    (hn : n ∈ ns) (hlevel : g.level n = limit) :
    findLoop g limit ns = some n := by
  induction ns with
  | nil => cases hn
  | cons m rest ih =>
      rcases List.pairwise_cons.mp hsorted with ⟨hfirst, hrest⟩
      rw [findLoop]
      rcases List.mem_cons.mp hn with rfl | hn
      · rw [if_pos (Nat.le_of_eq hlevel.symm), if_pos hlevel]
      · have hlt := hfirst n hn
        rw [hlevel] at hlt
        rw [if_pos (Nat.le_of_lt hlt), if_neg (Nat.ne_of_gt hlt)]
        exact ih hrest hn

/--
A slot of a stack has at most one open upvalue: every closure that captures the
slot while it is open shares it, and the slot is still there.
-/
theorem Reached.shared (h : Reached g) {n th level : Nat}
    (hn : g.Allocated (.upval n)) (hup : g.upval n = .opened th level) :
    (forall uv, (g.findupval th level uv).2 = n) ∧
      level < (g.thread th).stack.length ∧ g.isblack (.upval n) = false := by
  have hu := h.inv.upvals
  rcases hu.opened n th level hn hup with ⟨hth, hmem⟩
  have hlevel : g.level n = level := by
    unfold GlobalState.level
    rw [hup]
  refine ⟨?_, ?_, ?_⟩
  · intro uv
    unfold findupval
    rw [findLoop_of_mem (hu.sorted th hth) hmem hlevel]
  · rcases hu.listed th n hth hmem with ⟨_, l, hup', hl⟩
    rw [hup] at hup'
    cases hup'
    exact hl
  · refine h.inv.colors.opened ?_
    unfold isOpened
    rw [hup]

/-- A prototype on the stack, above its source. -/
def compiled : GlobalState :=
  ((luaopen 0 1).pushlstring [97] 0).newproto (some 0) 0

theorem reached_compiled : Reached compiled := by
  have hstring : Reached ((luaopen 0 1).pushlstring [97] 0) :=
    Reached.next (Reached.start 0 1) (Step.pushlstring [97] fun h => h rfl)
  refine Reached.next hstring (Step.newproto (fun h => h rfl) ?_)
  intro s hs
  cases hs
  exact Library.Reaches.step (x := .thread 0)
    (Library.Reaches.root List.mem_cons_self) (by decide)

theorem shared_closure :
    ((compiled.pushclosure 0 0 [.stack 0 0] 0).findupval 0 0 7).2 = 0 := by
  have hreached : Reached (compiled.pushclosure 0 0 [.stack 0 0] 0) := by
    refine Reached.next reached_compiled (Step.pushclosure (fun h => h rfl)
      ?_ ?_ (Capturable.stack (fun h => h rfl) (by decide) (Capturable.nil _)))
    · exact Library.Reaches.step (x := .thread 0)
        (Library.Reaches.root List.mem_cons_self) (by decide)
    · exact Library.Reaches.step (x := .thread 0)
        (Library.Reaches.root List.mem_cons_self) (by decide)
  exact (@Reached.shared _ hreached 0 0 0
    (fun h => by cases h) rfl).1 7

/-!
# The barrier of `lua_setupvalue`
-/

/-- `lua_setupvalue` keeps black objects off white ones unless its store is missed. -/
theorem Reached.blackDark_luaSetupvalue (h : Reached g) {f n : Nat} {v : TValue}
    (hf : g.Accessible (.function f)) (hn : g.Accessible (.upval n))
    (hv : g.AtHand v) :
    (g.luaSetupvalue f n v).BlackDark <-> ¬g.Unbarriered f n v := by
  constructor
  · intro hall hmissed
    rcases hmissed.exposed h.inv.colors with ⟨hstate, hblack, x, hx, hwhite⟩
    have hdark := hall hstate (.upval n) x hblack
      (fun _ _ => GCObject.noConfusion) hx
    exact absurd (hwhite.symm.trans hdark.2) Bool.noConfusion
  · intro hbarrier
    exact (h.next (Step.luaSetupvalue hf hn hv hbarrier)).inv.blackDark

/-- Two closures share a closed upvalue. -/
def sharing : GlobalState :=
  ((compiled.pushclosure 0 0 [.stack 0 0] 0).pushclosure 0 0 [.stack 0 7] 1).close
    0 0

/-- One of them has been traversed, and a new table is on the stack. -/
def halfMarked : GlobalState :=
  (singlestep^[5] sharing).createtable 0 0 5

theorem reached_sharing : Reached sharing := by
  have hfirst : Reached (compiled.pushclosure 0 0 [.stack 0 0] 0) := by
    refine Reached.next reached_compiled (Step.pushclosure (fun h => h rfl)
      ?_ ?_ (Capturable.stack (fun h => h rfl) (by decide) (Capturable.nil _)))
    · exact accessible_slot rfl (by decide)
    · exact accessible_slot rfl (by decide)
  have hsecond : Reached ((compiled.pushclosure 0 0 [.stack 0 0] 0).pushclosure
      0 0 [.stack 0 7] 1) := by
    refine Reached.next hfirst (Step.pushclosure (fun h => h rfl)
      ?_ ?_ (Capturable.stack (fun h => h rfl) (by decide) (Capturable.nil _)))
    · exact accessible_slot rfl (by decide)
    · exact accessible_slot rfl (by decide)
  refine Reached.next hsecond (Step.close 0 ?_)
  exact Library.Reaches.root List.mem_cons_self

theorem reached_halfMarked : Reached halfMarked :=
  (reached_sharing.iterate 5).next (Step.createtable 0 0 fun h => h rfl)

theorem unbarriered_halfMarked : halfMarked.Unbarriered 0 0 (.table 5) := by
  refine ⟨?_, ?_, ?_, ?_⟩
  · decide
  · decide
  · decide
  · decide

/-- The table that was stored has left the stack, and the cycle has ended. -/
def lostTable : GlobalState :=
  singlestep^[40] ((halfMarked.luaSetupvalue 0 0 (.table 5)).restack 0
    [.function 0, .function 1])

theorem leads_lostTable :
    Relation.ReflTransGen Step (halfMarked.luaSetupvalue 0 0 (.table 5))
      lostTable := by
  have hsteps : forall (n : Nat) (g : GlobalState),
      Relation.ReflTransGen Step g (singlestep^[n] g) := by
    intro n
    induction n with
    | zero => exact fun g => Relation.ReflTransGen.refl
    | succ n ih => exact fun g => (ih g.singlestep).head (Step.singlestep g)
  refine Relation.ReflTransGen.head (Step.restack ?_ ?_) (hsteps 40 _)
  · exact Library.Reaches.root (by decide)
  · intro v hv x hx
    rcases List.mem_cons.mp hv with rfl | hv
    · cases hx
      exact accessible_slot (by decide) (by decide)
    · rw [List.mem_singleton.mp hv] at hx
      cases hx
      exact accessible_slot (by decide) (by decide)

/-- Two closures share the upvalue, and the table in it has been freed. -/
theorem lost_lostTable :
    lostTable.Accessible (.function 0) ∧ lostTable.Accessible (.function 1) ∧
      .upval 0 ∈ lostTable.slots (.function 0) ∧
      .upval 0 ∈ lostTable.slots (.function 1) ∧
        .table 5 ∈ lostTable.slots (.upval 0) ∧
          ¬lostTable.Allocated (.table 5) := by
  refine ⟨accessible_slot ?_ ?_, accessible_slot ?_ ?_, ?_, ?_, ?_,
    fun h => h ?_⟩ <;> decide +kernel

/--
`lua_setupvalue` keeps black objects off white ones if and only if its store is
none of those that the barrier on the function misses, and such a store can have
a table freed that two closures can get at.
-/
theorem luaSetupvalue_barrier :
    (forall (g : GlobalState) (f n : Nat) (v : TValue), Reached g ->
      g.Accessible (.function f) -> g.Accessible (.upval n) -> g.AtHand v ->
        ((g.luaSetupvalue f n v).BlackDark <-> ¬g.Unbarriered f n v)) ∧
      exists (g g' : GlobalState) (f k n t : Nat), Reached g ∧
        g.Accessible (.function f) ∧ g.Accessible (.upval n) ∧
        g.AtHand (.table t) ∧ g.Unbarriered f n (.table t) ∧
        Relation.ReflTransGen Step (g.luaSetupvalue f n (.table t)) g' ∧
        f ≠ k ∧ g'.Accessible (.function f) ∧ g'.Accessible (.function k) ∧
        .upval n ∈ g'.slots (.function f) ∧ .upval n ∈ g'.slots (.function k) ∧
        .table t ∈ g'.slots (.upval n) ∧ ¬g'.Allocated (.table t) := by
  refine ⟨fun g f n v h hf hn hv => h.blackDark_luaSetupvalue hf hn hv, ?_⟩
  have hfunction : halfMarked.Accessible (.function 0) :=
    accessible_slot (by decide) (by decide)
  have hupval : halfMarked.Accessible (.upval 0) :=
    Library.Reaches.step hfunction (by decide)
  refine ⟨halfMarked, lostTable, 0, 1, 0, 5, reached_halfMarked, hfunction,
    hupval, ?_, unbarriered_halfMarked, leads_lostTable, by decide, ?_⟩
  · intro x hx
    cases hx
    exact accessible_slot (by decide) (by decide)
  · exact lost_lostTable

theorem luaSetupvalue_halfMarked :
    ¬(halfMarked.luaSetupvalue 0 0 (.table 5)).BlackDark := by
  have hfunction : halfMarked.Accessible (.function 0) :=
    accessible_slot (by decide) (by decide)
  have hiff := luaSetupvalue_barrier.1 halfMarked 0 0 (.table 5)
    reached_halfMarked hfunction (Library.Reaches.step hfunction (by decide)) (by
      intro x hx
      cases hx
      exact accessible_slot (by decide) (by decide))
  exact fun hdark => hiff.mp hdark unbarriered_halfMarked

end GlobalState
end Gc
end LuaServer
