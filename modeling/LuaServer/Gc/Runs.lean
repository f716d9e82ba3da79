import LuaServer.Gc.Cycle

/-!
# Runs of the program and of the collector

The program stores and creates what it has at hand, and between any two of its
steps the collector may take one of its own.
-/

namespace LuaServer
namespace Gc
namespace GlobalState

variable {g g' : GlobalState}

/-!
# The first state
-/

def blank : (x : GCObject) -> x.Payload
  | .string _ => ([] : LuaString)
  | .udata _ => ({ metatable := none, env := 0, finalized := false } : Udata)
  | .upval _ => UpVal.closed .nil
  | .function _ => Closure.c 0 []
  | .table _ =>
      ({ metatable := none, array := [], node := [], keyweak := false,
         valueweak := false } : Table)
  | .thread _ => ({ globals := .nil, stack := [], openupval := [] } : Thread)
  | .proto _ =>
      ({ source := none, k := [], upvalues := [], p := [], locvars := [] } : Proto)

/-- `lua_newstate`; the event names will get the addresses `gc` and `mode`. -/
def newstate (gc mode : Nat) : GlobalState where
  objs := blank
  marked := Function.update (fun _ => none) (.thread 0)
    (some { color := .white false, fixed := true })
  currentwhite := false
  gcstate := .pause
  passed := []
  sweepgc := [.thread 0]
  strt := []
  sweepstrgc := 0
  gray := []
  grayagain := []
  weak := []
  tmudata := []
  uvhead := []
  mainthread := 0
  running := 0
  registry := .nil
  mt := fun _ => none
  tmGc := gc
  tmMode := mode

/-- `f_luaopen` up to `luaS_resize`. -/
def luaopen (gc mode : Nat) : GlobalState :=
  let g1 := ((newstate gc mode).newtable 0 2 0).setGlobals 0 (.table 0)
  let g2 := { g1.newtable 0 2 1 with registry := .table 1 }
  g2.resize minStrTabSize

def fix (g : GlobalState) (n : Nat) : GlobalState :=
  { g with
    marked := Function.update g.marked (.string n)
      ((g.marked (.string n)).map fun m => { m with fixed := true }) }

/-- A string that is never collected, as `luaT_init` and `luaX_init` make them. -/
def fixstring (g : GlobalState) (str : LuaString) (n : Nat) : GlobalState :=
  (g.internlstr str n).1.fix (g.internlstr str n).2

/-!
# Steps
-/

inductive Step : GlobalState -> GlobalState -> Prop where
  | singlestep (g : GlobalState) : Step g g.singlestep
  | resetcycle {g : GlobalState} :
      g.gcstate = .pause ∨ g.gcstate = .propagate -> Step g g.resetcycle
  | restart {g : GlobalState} : g.gcstate = .finalize -> Step g g.markroot
  | restack {g : GlobalState} {th : Nat} {values : List TValue} :
      g.Accessible (.thread th) ->
      (forall v, v ∈ values -> g.AtHand v) -> Step g (g.restack th values)
  | setGlobals {g : GlobalState} {th : Nat} {v : TValue} :
      g.Accessible (.thread th) -> g.AtHand v -> Step g (g.setGlobals th v)
  | switch {g : GlobalState} {th : Nat} :
      g.Accessible (.thread th) -> Step g (g.switch th)
  | close {g : GlobalState} {th : Nat} (limit : Nat) :
      g.Accessible (.thread th) -> Step g (g.close th limit)
  | pushlstring {g : GlobalState} (str : LuaString) {n : Nat} :
      ¬g.Allocated (.string n) -> Step g (g.pushlstring str n)
  | fixstring {g : GlobalState} (str : LuaString) {n : Nat} :
      ¬g.Allocated (.string n) -> Step g (g.fixstring str n)
  | createtable {g : GlobalState} (narray nhash : Nat) {n : Nat} :
      ¬g.Allocated (.table n) -> Step g (g.createtable narray nhash n)
  | newuserdata {g : GlobalState} {env n : Nat} :
      ¬g.Allocated (.udata n) -> g.Accessible (.table env) ->
        Step g (g.newuserdata env n)
  | pushcclosure {g : GlobalState} {env count n : Nat} :
      ¬g.Allocated (.function n) -> g.Accessible (.table env) ->
        Step g (g.pushcclosure env count n)
  | pushclosure {g : GlobalState} {env p n : Nat} {cs : List Capture} :
      ¬g.Allocated (.function n) -> g.Accessible (.table env) ->
      g.Accessible (.proto p) ->
      Capturable (g.link (.function n) (.lua env p [])) cs ->
        Step g (g.pushclosure env p cs n)
  | loaded {g : GlobalState} {env p n : Nat} {ns : List Nat} :
      ¬g.Allocated (.function n) -> g.Accessible (.table env) ->
      g.Accessible (.proto p) ->
      (forall m, m ∈ ns -> ¬g.Allocated (.upval m)) -> ns.Nodup ->
        Step g (g.loaded env p ns n)
  | newproto {g : GlobalState} {source : Option Nat} {n : Nat} :
      ¬g.Allocated (.proto n) ->
      (forall s, source = some s -> g.Accessible (.string s)) ->
        Step g (g.newproto source n)
  | newthread {g : GlobalState} {n : Nat} :
      ¬g.Allocated (.thread n) -> Step g (g.newthread n)
  | settable {g : GlobalState} {t : Nat} {h : Table} {key val : TValue} :
      g.Accessible (.table t) -> Table.Stored (g.table t) h key val ->
      g.AtHand key -> g.AtHand val -> Step g (g.settable t h key val)
  | setmetatable {g : GlobalState} {t : Nat} {mt : Option Nat} :
      g.Accessible (.table t) ->
      (forall m, mt = some m -> g.Accessible (.table m)) ->
        Step g (g.setmetatable t mt)
  | setudatamt {g : GlobalState} {n : Nat} {mt : Option Nat} :
      g.Accessible (.udata n) ->
      (forall m, mt = some m -> g.Accessible (.table m)) ->
        Step g (g.setudatamt n mt)
  | settypemt {g : GlobalState} (ty : LuaType) {mt : Option Nat} :
      (forall m, mt = some m -> g.Accessible (.table m)) ->
        Step g (g.settypemt ty mt)
  | setfenv {g : GlobalState} {n env : Nat} :
      g.Accessible (.function n) -> g.Accessible (.table env) ->
        Step g (g.setfenv n env)
  | setudataenv {g : GlobalState} {n env : Nat} :
      g.Accessible (.udata n) -> g.Accessible (.table env) ->
        Step g (g.setudataenv n env)
  | opSetupval {g : GlobalState} {n : Nat} {v : TValue} :
      g.Accessible (.upval n) -> g.AtHand v -> Step g (g.opSetupval n v)
  | setcupvalue {g : GlobalState} {f : Nat} (i : Nat) {v : TValue} :
      g.Accessible (.function f) -> g.AtHand v -> Step g (g.setcupvalue f i v)
  | luaSetupvalue {g : GlobalState} {f n : Nat} {v : TValue} :
      g.Accessible (.function f) -> g.Accessible (.upval n) -> g.AtHand v ->
      ¬g.Unbarriered f n v ->
        Step g (g.luaSetupvalue f n v)
  | storeproto {g : GlobalState} {n : Nat} {f : Proto} {v : TValue} :
      g.Accessible (.proto n) -> Proto.Stored (g.proto n) f v -> g.AtHand v ->
        Step g (g.storeproto n f v)
  | undump {g : GlobalState} {n : Nat} {f : Proto} {v : TValue} :
      g.Accessible (.proto n) -> Proto.Stored (g.proto n) f v -> g.AtHand v ->
      ¬g.Unguarded (.proto n) v -> Step g (g.undump n f)
  | setregistry {g : GlobalState} {v : TValue} :
      g.AtHand v ->
      (g.gcstate = .propagate -> v.gcvalue.any g.iswhite = false) ->
        Step g (g.setregistry v)

/-- The states that the program and the collector can get to. -/
inductive Reached : GlobalState -> Prop where
  | start (gc mode : Nat) : Reached (luaopen gc mode)
  | next {g g' : GlobalState} : Reached g -> Step g g' -> Reached g'

/-!
# Strings that are fixed
-/

theorem color?_fix (n : Nat) (x : GCObject) :
    (g.fix n).color? x = g.color? x := by
  unfold color? fix
  by_cases hx : x = .string n
  · subst hx
    simp only [Function.update_self, Option.map_map]
    rfl
  · simp [hx]

theorem allocated_fix (n : Nat) (x : GCObject) :
    (g.fix n).Allocated x <-> g.Allocated x := by
  rw [allocated_iff, allocated_iff, color?_fix]

theorem fixed_fix (n : Nat) {x : GCObject} (hx : x ≠ .string n) :
    (g.fix n).marked x = g.marked x := by
  simp [fix, hx]

/-- Only the sweep looks at the bit that keeps a string for good. -/
theorem Inv.fix (hg : g.Inv) (n : Nat) : (g.fix n).Inv := by
  have hdead : forall x, (g.fix n).isdead x = g.isdead x := by
    intro x
    unfold isdead
    rw [color?_fix]
    rfl
  have halive : forall x, (g.fix n).Alive x <-> g.Alive x := by
    intro x
    rw [Alive, Alive, allocated_fix, hdead]
  have hwhite : forall x, (g.fix n).iswhite x = g.iswhite x :=
    fun x => iswhite_eq_of_color? (color?_fix n x)
  have hgray : forall x, (g.fix n).isgray x = g.isgray x :=
    fun x => isgray_eq_of_color? (color?_fix n x)
  refine ⟨⟨?_, ?_, ?_⟩, ⟨hg.linked.main, ?_, ?_, hg.linked.nodup, ?_, ?_, ?_,
    hg.linked.dueNodup, ?_, hg.linked.stringsNodup, hg.linked.table⟩,
    ⟨?_, ?_, ?_, ?_, hg.upvals.uvheadNodup⟩, ⟨?_, ?_⟩, ?_, ?_⟩
  · intro x y hx hy
    rw [halive] at hx ⊢
    exact hg.closed.slots x y hx hy
  · intro x hx
    rw [halive]
    exact hg.closed.roots x hx
  · intro m hm
    rw [halive]
    exact hg.closed.due m hm
  · have hmain : (g.fix n).marked (.thread g.mainthread) =
        g.marked (.thread g.mainthread) := fixed_fix n GCObject.noConfusion
    exact (congrArg (Option.map Marked.fixed) hmain).trans hg.linked.fixed
  · intro x hx
    by_cases hxn : x = .string n
    · exact Or.inl ⟨n, hxn⟩
    · rw [fixed_fix n hxn] at hx
      exact hg.linked.fixedKinds x hx
  · intro x hx
    rw [allocated_fix]
    exact hg.linked.allocated x hx
  · intro x hx hr
    exact hg.linked.listed x ((allocated_fix n x).mp hx) hr
  · intro m hm
    rw [allocated_fix]
    exact hg.linked.due m hm
  · intro m
    rw [allocated_fix]
    exact hg.linked.strings m
  · intro m th l hm hup
    rw [allocated_fix] at hm ⊢
    exact hg.upvals.opened m th l hm hup
  · intro th m hth hm
    rw [allocated_fix] at hth ⊢
    exact hg.upvals.listed th m hth hm
  · intro th hth
    rw [allocated_fix] at hth
    exact hg.upvals.sorted th hth
  · intro m
    rw [allocated_fix]
    exact hg.upvals.uvhead m
  · intro x hx
    rw [isblack_eq_of_color? (color?_fix n x)] at hx
    exact hg.colors.black x hx
  · intro m
    rw [hgray]
    exact hg.colors.udata m
  · intro hstate
    have hp := hg.propagating hstate
    refine ⟨fun x => (hdead x).trans (hp.noDead x),
      fun x hx => (hwhite x).trans (hp.marked x hx), ?_, ⟨?_, ?_, hp.lists.nodup⟩⟩
    · refine hp.tricolor.recolor
        (fun _ y _ _ hy => (hwhite y).symm.trans hy) ?_
      intro x hx
      exact Or.inl ⟨⟨(allocated_fix n x).mp hx.1, (hwhite x).symm.trans hx.2⟩, id⟩
    · intro x hx
      rw [hgray] at hx
      exact hp.lists.grays x hx
    · intro x hx
      rw [hgray]
      exact hp.lists.lists x hx
  · intro hne x hx
    rw [color?_fix]
    exact hg.swept hne x ((allocated_fix n x).mp hx)

/-!
# The first state keeps the invariant
-/

/-- The state with a string table but without the first two tables. -/
def newstateTable (gc mode : Nat) : GlobalState :=
  { newstate gc mode with strt := List.replicate minStrTabSize [] }

theorem allocated_newstate {gc mode : Nat} {x : GCObject} :
    (newstateTable gc mode).Allocated x <-> x = .thread 0 := by
  unfold Allocated newstateTable newstate
  by_cases hx : x = .thread 0
  · simp [hx]
  · simp [hx]

theorem newstate_inv (gc mode : Nat) : (newstateTable gc mode).Inv := by
  have hcolor : (newstateTable gc mode).color? (.thread 0) =
      some (.white false) := rfl
  have hslots : (newstateTable gc mode).slots (.thread 0) = [] := rfl
  have hdead : (newstateTable gc mode).isdead (.thread 0) = false := rfl
  have hstrings : (newstateTable gc mode).strings = [] := rfl
  have halive : (newstateTable gc mode).Alive (.thread 0) :=
    ⟨allocated_newstate.mpr rfl, hdead⟩
  refine ⟨⟨?_, ?_, fun n hn => absurd hn List.not_mem_nil⟩,
    ⟨List.mem_cons_self, rfl, ?_, List.nodup_singleton _, ?_, ?_,
      fun n hn => absurd hn List.not_mem_nil, List.nodup_nil, ?_, ?_, ?_⟩,
    ⟨?_, ?_, ?_, ?_, List.nodup_nil⟩, ⟨?_, ?_⟩,
    fun h => absurd h GCState.noConfusion, fun _ => ?_⟩
  · intro x y hx hy
    rw [allocated_newstate.mp hx.1, hslots] at hy
    cases hy
  · intro x hx
    have hroots : (newstateTable gc mode).roots = [.thread 0, .thread 0] := rfl
    rw [hroots] at hx
    have hx0 : x = .thread 0 := by simpa using hx
    rw [hx0]
    exact halive
  · intro x hx
    have halloc : (newstateTable gc mode).Allocated x := by
      intro hnone
      rw [hnone] at hx
      cases hx
    exact Or.inr (allocated_newstate.mp halloc)
  · intro x hx
    rw [List.mem_singleton.mp hx]
    exact ⟨halive.1, rfl⟩
  · intro x hx _
    rw [allocated_newstate.mp hx]
    exact Or.inl List.mem_cons_self
  · intro n
    rw [hstrings, allocated_newstate]
    exact ⟨fun h => GCObject.noConfusion h, fun h => absurd h List.not_mem_nil⟩
  · rw [hstrings]
    exact List.nodup_nil
  · exact Nat.zero_lt_succ _
  · intro n th l hn _
    cases allocated_newstate.mp hn
  · intro th n hth hn
    cases allocated_newstate.mp hth
    cases hn
  · intro th hth
    cases allocated_newstate.mp hth
    exact List.Pairwise.nil
  · intro n
    refine ⟨fun h => absurd h List.not_mem_nil, fun h => ?_⟩
    cases allocated_newstate.mp h.1
  · intro x hx
    have hx0 := allocated_newstate.mp (allocated_of_isblack hx)
    rw [hx0, isblack_iff, hcolor] at hx
    cases hx
  · intro n
    cases hgray : (newstateTable gc mode).isgray (.udata n) with
    | false => rfl
    | true => cases allocated_newstate.mp (allocated_of_isgray hgray)
  · intro x hx
    rw [allocated_newstate.mp hx]
    exact Or.inl hcolor

/-- The registry is marked once, so what is white cannot replace it then. -/
theorem Inv.setregistry (hg : g.Inv) {v : TValue}
    (hv : forall x, v.gcvalue = some x -> g.Alive x)
    (hmarked : g.gcstate = .propagate -> v.gcvalue.any g.iswhite = false) :
    (g.setregistry v).Inv where
  closed := by
    refine ⟨hg.closed.slots, ?_, hg.closed.due⟩
    intro x hx
    rcases List.mem_append.mp hx with hx | hx
    · rcases List.mem_append.mp hx with hx | hx
      · exact hg.closed.roots x
          (List.mem_append_left _ (List.mem_append_left _ hx))
      · rcases mem_referents.mp hx with ⟨w, hw, hgc⟩
        rw [List.mem_singleton.mp hw] at hgc
        exact hv x hgc
    · exact hg.closed.roots x (List.mem_append_right _ hx)
  linked := { hg.linked with }
  upvals := { hg.upvals with }
  colors := { hg.colors with }
  propagating := by
    intro hstate
    have hp := hg.propagating hstate
    refine ⟨hp.noDead, ?_, hp.tricolor, { hp.lists with }⟩
    intro x hx
    rcases List.mem_cons.mp hx with rfl | hx
    · exact hp.marked _ List.mem_cons_self
    · rcases mem_referents.mp hx with ⟨w, hw, hgc⟩
      have hnot := hmarked hstate
      have hself : w = v := List.mem_singleton.mp hw
      rw [← hself, hgc] at hnot
      exact hnot
  swept := hg.swept

theorem luaopen_inv (gc mode : Nat) : (luaopen gc mode).Inv := by
  have hfirst := @Inv.newtable _ (newstate_inv gc mode) 0 2 0
    (fun h => GCObject.noConfusion (allocated_newstate.mp h))
  rcases hfirst with ⟨hcreated, hinv⟩
  have hthread := (hcreated.alive (.thread 0)).mpr
    (Or.inr ⟨allocated_newstate.mpr rfl, rfl⟩)
  have hglobals := hinv.setGlobals (v := .table 0) hthread (by
    intro x hx
    cases hx
    exact (hcreated.alive _).mpr (Or.inl rfl))
  have hsecond := @Inv.newtable _ hglobals 0 2 1 (by
    intro h
    rcases (hcreated.allocated (.table 1)).mp h with heq | hold
    · cases heq
    · cases allocated_newstate.mp hold)
  rcases hsecond with ⟨hcreated', hinv'⟩
  refine hinv'.setregistry (v := .table 1) ?_ GCState.noConfusion
  intro x hx
  cases hx
  exact (hcreated'.alive _).mpr (Or.inl rfl)

/-!
# Every run keeps the invariant
-/

theorem Inv.fixstring (hg : g.Inv) (str : LuaString) {n : Nat}
    (hfresh : ¬g.Allocated (.string n)) : (g.fixstring str n).Inv :=
  (@Inv.internlstr g hg str n hfresh).1.fix _

theorem Step.inv (h : Step g g') (hg : g.Inv) : g'.Inv := by
  have halive : forall {x : GCObject}, g.Accessible x -> g.Alive x :=
    fun hx => hg.closed.accessible hx
  have hhand : forall {v : TValue}, g.AtHand v ->
      forall x, v.gcvalue = some x -> g.Alive x :=
    fun hv _ hx => hg.closed.atHand hv hx
  cases h with
  | singlestep => exact hg.singlestep
  | resetcycle _ => exact hg.resetcycle
  | restart hstate => exact hg.markroot (Or.inr hstate)
  | restack hth hvalues =>
      refine hg.restack (halive hth) ?_
      intro x hx
      rcases mem_referents.mp hx with ⟨v, hv, hgc⟩
      exact hhand (hvalues v hv) x hgc
  | setGlobals hth hv => exact hg.setGlobals (halive hth) (hhand hv)
  | switch hth => exact hg.switch (halive hth)
  | close limit hth => exact (hg.close (halive hth).1 limit).1.inv
  | pushlstring str hfresh => exact hg.pushlstring hfresh
  | fixstring str hfresh => exact hg.fixstring str hfresh
  | createtable narray nhash hfresh => exact hg.createtable hfresh
  | newuserdata hfresh henv => exact hg.newuserdata hfresh (halive henv)
  | pushcclosure hfresh henv => exact hg.pushcclosure hfresh (halive henv)
  | pushclosure hfresh henv hp hcs =>
      exact hg.pushclosure hfresh (halive henv) (halive hp) hcs
  | loaded hfresh henv hp hns hnodup =>
      exact hg.loaded hfresh (halive henv) (halive hp) hns hnodup
  | newproto hfresh hsource =>
      exact hg.newproto hfresh fun s hs => halive (hsource s hs)
  | newthread hfresh => exact hg.newthread hfresh
  | settable ht hstored hkey hval =>
      exact hg.settable (halive ht) hstored (hhand hkey) (hhand hval)
  | setmetatable ht hmt =>
      exact hg.setmetatable (halive ht) fun m hm => halive (hmt m hm)
  | setudatamt hn hmt =>
      exact hg.setudatamt (halive hn) fun m hm => halive (hmt m hm)
  | settypemt ty hmt => exact hg.settypemt ty fun m hm => halive (hmt m hm)
  | setfenv hn henv => exact hg.setfenv (halive hn) (halive henv)
  | setudataenv hn henv => exact hg.setudataenv (halive hn) (halive henv)
  | opSetupval hn hv => exact hg.opSetupval (halive hn) (hhand hv)
  | setcupvalue i hf hv => exact hg.setcupvalue (halive hf) (hhand hv)
  | luaSetupvalue hf hn hv hbarrier =>
      exact hg.luaSetupvalue (halive hf) (halive hn) (hhand hv) hbarrier
  | storeproto hn hstored hv =>
      exact hg.storeproto (halive hn) hstored (hhand hv)
  | undump hn hstored hv hguard =>
      exact hg.undump (halive hn) hstored (hhand hv) hguard
  | setregistry hv hmarked => exact hg.setregistry (hhand hv) hmarked

theorem Reached.inv (h : Reached g) : g.Inv := by
  induction h with
  | start gc mode => exact luaopen_inv gc mode
  | next _ hstep ih => exact hstep.inv ih

end GlobalState
end Gc
end LuaServer
