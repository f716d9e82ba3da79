import LuaServer.Interpreter.Lookups

/-!
# The metatable of sockets

What a call in progress writes into the table that it makes or finds registered,
and what stays true of this table as long as the script does not modify it: it has
no metatable of its own.
-/

namespace LuaServer

open Library LuaState

deriving instance DecidableEq for Table

namespace Frame

def ownTable (fr : Frame) : Option Nat :=
  match fr.stack.reverse with
  | _ :: .table m :: _ => some m
  | _ => none

/-- The call has stored `__index` and not given the table to its socket yet. -/
def isIndexed (fr : Frame) : Bool :=
  match fr.code with
  | .pushcfunction _ :: _ => true
  | [.setfield _, .setmetatable] => true
  | [.setmetatable] => true
  | _ => false

/-- The table and the value that the call is about to store in it under a name. -/
def fieldStore (name : LuaString) (fr : Frame) : Option (Nat × Value) :=
  match fr.code, fr.stack with
  | .setfield field :: _, v :: .table m :: _ =>
      if field = name then some (m, v) else none
  | _, _ => none

end Frame

/-- What a step of a call in progress does to the tables. -/
inductive TableChange (L : LuaState) (fr : Frame) (L' : LuaState)
    (fr' : Frame) : Prop where
  | moved :
      L' = L ->
      (forall m, fr'.ownTable = some m -> fr.ownTable = some m ∨
        L.registryField socketDataName = .table m) ->
      (fr'.isIndexed = true ->
        fr.isIndexed = true ∧ fr'.ownTable = fr.ownTable) ->
      (fr'.isCreating = true -> fr.isCreating = true ∨
        L.registryField socketDataName = .nil) ->
      TableChange L fr L' fr'
  | made :
      fr.isCreating = true -> L' = L.newTable.1 ->
      fr'.ownTable = some L.nextTable -> TableChange L fr L' fr'
  | registered {m : Nat} :
      fr.isCreating = true -> fr.ownTable = some m ->
      L' = L.rawset L.registry (.string socketDataName) (.table m) ->
      fr'.ownTable = some m -> TableChange L fr L' fr'
  | indexed {m : Nat} {v : Value} :
      fr.fieldStore (ascii "__index") = some (m, v) -> fr.ownTable = some m ->
      L' = L.rawset m (.string (ascii "__index")) v ->
      fr'.ownTable = some m -> fr'.isCreating = false ->
      TableChange L fr L' fr'
  | handled {m : Nat} {v : Value} :
      fr.fieldStore (ascii "__gc") = some (m, v) -> fr.isIndexed = true ->
      fr.ownTable = some m -> L' = L.rawset m (.string (ascii "__gc")) v ->
      fr'.ownTable = some m -> fr'.isCreating = false ->
      TableChange L fr L' fr'
  | shared {p : Ptr} {m : Nat} :
      fr.isIndexed = true -> fr.ownTable = some m ->
      L' = L.setmetatable (.lightuserdata p) (some m) ->
      fr'.ownTable = none -> fr'.isIndexed = false ->
      fr'.isCreating = false -> TableChange L fr L' fr'

section Calls

variable {L L' : LuaState} {allowed : Ptr -> Prop} {fr fr' : Frame}

theorem api_setfield_plain {result v : Value} {m : Nat} {name : LuaString}
    {rest : List ApiCall} {stack : List Value}
    (hplain : (L.tables m).metatable = none)
    (hcode : fr.code = .setfield name :: rest)
    (hstack : fr.stack = v :: .table m :: stack)
    (h : apiStep L fr result = some (L', fr')) :
    L' = L.rawset m (.string name) v ∧
      fr' = { fr with code := rest, stack := .table m :: stack } := by
  unfold apiStep at h
  rw [hcode, hstack] at h
  simp only [settable_plain hplain] at h
  cases h
  exact ⟨rfl, rfl⟩

theorem api_tables {result : Value} (hL : L.Confines allowed)
    (hreg : L.Registers) (hfr : fr.Places L allowed)
    (hplain : forall m, fr.ownTable = some m ->
      (L.tables m).metatable = none)
    (h : apiStep L fr result = some (L', fr')) : TableChange L fr L' fr' := by
  rcases fr with ⟨caller, issue, code, stack⟩
  unfold Frame.Places at hfr
  simp only at hfr
  cases hfr with
  | start =>
      cases h
      exact .moved rfl (fun _ hm => nomatch hm) (fun hi => nomatch hi)
        fun hc => nomatch hc
  | pushed =>
      cases h
      rcases hreg.socket with hnil | ⟨m, hm, _⟩
      · refine .moved rfl ?_ (fun hi => nomatch hi) fun _ => Or.inr hnil
        rw [hnil]
        exact fun _ hm => nomatch hm
      · rw [hm]
        refine .moved rfl ?_ (fun hi => nomatch hi) fun hc => nomatch hc
        intro x hx
        cases hx
        exact Or.inr hm
  | missing | creating =>
      cases h
      exact .moved rfl (fun _ hm => nomatch hm) (fun hi => nomatch hi)
        fun _ => Or.inl rfl
  | found =>
      cases h
      exact .moved rfl (fun _ hm => Or.inl hm) (fun hi => nomatch hi)
        fun hc => nomatch hc
  | popped =>
      cases h
      exact .made rfl rfl rfl
  | made =>
      cases h
      exact .moved rfl (fun _ hm => Or.inl hm) (fun hi => nomatch hi)
        fun _ => Or.inl rfl
  | copied =>
      cases h
      exact .registered rfl rfl rfl rfl
  | ready =>
      rcases api_getglobal hL rfl h with ⟨rfl, v, _, rfl⟩
      exact .moved rfl (fun _ hm => Or.inl hm) (fun hi => nomatch hi)
        fun hc => nomatch hc
  | fetched =>
      rcases api_setfield_plain (hplain _ rfl) rfl rfl h with ⟨rfl, rfl⟩
      exact .indexed rfl rfl rfl rfl rfl
  | indexed =>
      cases h
      exact .moved rfl (fun _ hm => Or.inl hm) (fun _ => ⟨rfl, rfl⟩)
        fun hc => nomatch hc
  | handler =>
      rcases api_setfield_plain (hplain _ rfl) rfl rfl h with ⟨rfl, rfl⟩
      exact .handled rfl rfl rfl rfl rfl rfl
  | finishing =>
      cases h
      exact .shared rfl rfl rfl rfl rfl rfl
  | done => cases h

theorem tables_newTable_of_ne {t : Nat} (h : t ≠ L.nextTable) :
    L.newTable.1.tables t = L.tables t := if_neg h

theorem metatable_newTable :
    (L.newTable.1.tables L.nextTable).metatable = none := by
  simp [LuaState.newTable, LuaState.setTable]

theorem TableChange.plain {t : Nat} (h : TableChange L fr L' fr')
    (ht : (L.tables t).metatable = none) : (L'.tables t).metatable = none := by
  cases h with
  | moved hL => exact hL ▸ ht
  | made _ hL =>
      rw [hL]
      by_cases heq : t = L.nextTable
      · rw [heq, metatable_newTable]
      · rw [tables_newTable_of_ne heq, ht]
  | registered _ _ hL | indexed _ _ hL | handled _ _ _ hL =>
      rw [hL, metatable_rawset, ht]
  | shared _ _ hL =>
      rw [hL]
      exact ht

/-- A call in progress takes its table from the registry, or makes it. -/
theorem TableChange.own {m : Nat} (h : TableChange L fr L' fr')
    (hm : fr'.ownTable = some m) :
    fr.ownTable = some m ∨ L.registryField socketDataName = .table m ∨
      (m = L.nextTable ∧ L' = L.newTable.1) := by
  cases h with
  | moved _ hown =>
      rcases hown m hm with hold | hfield
      · exact Or.inl hold
      · exact Or.inr (Or.inl hfield)
  | made _ hL hown =>
      rw [hown] at hm
      exact Or.inr (Or.inr ⟨(Option.some.inj hm).symm, hL⟩)
  | registered _ hown _ hown' | indexed _ hown _ hown'
  | handled _ _ hown _ hown' =>
      exact Or.inl (hown.trans (hown'.symm.trans hm))
  | shared _ _ _ hown =>
      rw [hown] at hm
      cases hm

theorem TableChange.metatables {m : Nat} (h : TableChange L fr L' fr')
    (hreg : L.Registers)
    (hother : forall t, fr.ownTable = some t -> t ≠ L.registry)
    (hm : L'.mt .lightuserdata = some m ∨
      L'.registryField socketDataName = .table m) :
    (L.mt .lightuserdata = some m ∨
      L.registryField socketDataName = .table m) ∨ fr.ownTable = some m := by
  have hfield : forall {t key v}, t ≠ L.registry ->
      (L.rawset t key v).registryField socketDataName =
        L.registryField socketDataName := fun ht =>
    registryField_of_table (registry_setTable ht)
  cases h with
  | moved hL =>
      rw [hL] at hm
      exact Or.inl hm
  | made _ hL =>
      rw [hL, registryField_newTable hreg] at hm
      exact Or.inl hm
  | registered _ hown hL =>
      rw [hL, registryField_rawset, if_pos rfl] at hm
      rcases hm with hmt | hsame
      · exact Or.inl (Or.inl hmt)
      · rw [← Value.table.inj hsame]
        exact Or.inr hown
  | indexed _ hown hL | handled _ _ hown hL =>
      rw [hL, hfield (hother _ hown)] at hm
      exact Or.inl hm
  | shared _ hown hL =>
      rw [hL, mt_setmetatable] at hm
      rcases hm with hmt | hsame
      · exact Or.inr (hown.trans hmt)
      · exact Or.inl (Or.inr hsame)

theorem Frame.Places.ownTable (h : fr.Places L allowed) {m : Nat}
    (hm : fr.ownTable = some m) : fr.OwnTable L m := by
  rcases fr with ⟨caller, issue, code, stack⟩
  unfold Frame.Places at h
  simp only at h
  cases h with
  | found hown | made hown | copied hown | ready hown | fetched hown
  | indexed hown | handler hown | finishing hown =>
      cases hm
      exact hown
  | start | pushed | missing | creating | popped | done => cases hm

theorem Frame.Places.registered (h : fr.Places L allowed) {m : Nat}
    (hruns : fr.runsLua = true) (hm : fr.ownTable = some m) :
    L.registryField socketDataName = .table m := by
  have hwhere := (h.ownTable hm).2
  rcases fr with ⟨caller, issue, code, stack⟩
  unfold Frame.Places at h
  simp only at h
  cases h with
  | ready | fetched | indexed | handler => exact hwhere
  | popped => cases hm
  | start | pushed | missing | found | creating | made | copied | finishing
  | done => cases hruns

end Calls

/-!
# Scripts that leave the metatable alone
-/

namespace World

/-- The metatable that light userdata have, and the one that is registered. -/
def socketMetatables (w : World) : List Nat :=
  (w.lua.mt .lightuserdata).toList ++
    match w.lua.registryField socketDataName with
    | .table m => [m]
    | _ => []

/-- The script does not modify the tables in a step. -/
def LeavesTables (w : World) (ts : List Nat) : Action -> Prop
  | .script p =>
      forall L, w.lua.scriptStep p = some L ->
        forall t, t ∈ ts -> L.tables t = w.lua.tables t
  | _ => True

instance (w : World) (ts : List Nat) (a : Action) :
    Decidable (w.LeavesTables ts a) :=
  match a with
  | .script p =>
      match h : w.lua.scriptStep p with
      | none => isTrue fun L hL => by
          rw [h] at hL
          cases hL
      | some L =>
          decidable_of_iff (forall t, t ∈ ts -> L.tables t = w.lua.tables t) (by
            simp [LeavesTables, h])
  | .call .. | .apiArgs | .api _ | .apiRaise _ | .resume _ | .pausedRaise _
  | .collect | .gctm _ | .exit | .closeState => isTrue trivial

/-- The script does not modify the metatable of sockets in a step. -/
def LeavesMetatables (w : World) (a : Action) : Prop :=
  w.LeavesTables w.socketMetatables a

instance (w : World) (a : Action) : Decidable (w.LeavesMetatables a) :=
  inferInstanceAs (Decidable (w.LeavesTables _ a))

/-- The metatable of sockets as the library has made it. -/
structure Intact (w : World) : Prop where
  plain : forall m, m ∈ w.socketMetatables ->
    (w.lua.tables m).metatable = none
  own : forall fr, fr ∈ w.frames -> forall m, fr.ownTable = some m ->
    (w.lua.tables m).metatable = none

end World

section Steps

variable {plat : Platform} {w w' : World} {a : Action}

theorem mem_socketMetatables {m : Nat} :
    m ∈ w.socketMetatables <-> w.lua.mt .lightuserdata = some m ∨
      w.lua.registryField socketDataName = .table m := by
  unfold World.socketMetatables
  rw [List.mem_append, Option.mem_toList]
  cases w.lua.registryField socketDataName with
  | table t => simp [eq_comm]
  | nil | boolean | lightuserdata | number | string | cfunction | closure
  | userdata | thread => simp

theorem socketMetatables_of_keeps (h : w.lua.KeepsMetas w'.lua) :
    w'.socketMetatables = w.socketMetatables := by
  unfold World.socketMetatables
  rw [h.mt, h.registryField]

theorem tables_other (hintact : w.Intact) (hleaves : w.LeavesMetatables a)
    (hstep : step plat w a = some w')
    (h : (exists p, a = .script p) ∨ w.lua.KeepsPlain w'.lua) {m : Nat}
    (hm : m ∈ w.socketMetatables) : w'.lua.tables m = w.lua.tables m := by
  rcases h with ⟨p, rfl⟩ | hplain
  · exact hleaves _ (script_inv hstep).2 m hm
  · exact hplain m (hintact.plain m hm)

/-- So do they the tables of calls in progress, which the script cannot get at. -/
theorem tables_own_other (hmetas : w.MetasSound) (hintact : w.Intact)
    (hleaves : w.LeavesMetatables a) (hstep : step plat w a = some w')
    (h : (exists p, a = .script p) ∨ w.lua.KeepsPlain w'.lua) {fr : Frame}
    (hfr : fr ∈ w.frames) {m : Nat} (hm : fr.ownTable = some m) :
    w'.lua.tables m = w.lua.tables m := by
  rcases h with ⟨p, rfl⟩ | hplain
  · rcases script_inv hstep with ⟨hrun, hL⟩
    have hruns := hmetas.runsLua hrun hfr
    have hfield := (hmetas.places fr hfr).registered hruns hm
    exact hleaves _ hL m (mem_socketMetatables.mpr (Or.inr hfield))
  · exact hplain m (hintact.own fr hfr m hm)

theorem mem_frames_of_change {frames : List Frame} {fr : Frame}
    (h : FramesChange w frames) (hfr : fr ∈ frames) :
    fr ∈ w.frames ∨ exists f i, fr = initialFrame f i := by
  cases h with
  | kept => exact Or.inl hfr
  | started =>
      rcases List.mem_cons.mp hfr with rfl | hold
      · exact Or.inr ⟨_, _, rfl⟩
      · exact Or.inl hold
  | ended hcons =>
      left
      rw [hcons]
      exact List.mem_cons_of_mem _ hfr

theorem intact_other (hmetas : w.MetasSound) (hintact : w.Intact)
    (hleaves : w.LeavesMetatables a) (hstep : step plat w a = some w')
    (hkeeps : w.lua.KeepsMetas w'.lua)
    (h : (exists p, a = .script p) ∨ w.lua.KeepsPlain w'.lua)
    (hframes : FramesChange w w'.frames) : w'.Intact where
  plain := by
    intro m hm
    rw [socketMetatables_of_keeps hkeeps] at hm
    rw [tables_other hintact hleaves hstep h hm]
    exact hintact.plain m hm
  own := by
    intro fr hfr m hm
    rcases mem_frames_of_change hframes hfr with hold | ⟨f, i, rfl⟩
    · rw [tables_own_other hmetas hintact hleaves hstep h hold hm]
      exact hintact.own fr hold m hm
    · cases hm

theorem intact_call {result : Value} {fr fr' : Frame} {rest : List Frame}
    (hconfined : w.Confined) (hmetas : w.MetasSound) (hintact : w.Intact)
    (hframes : w.frames = fr :: rest) (hframes' : w'.frames = fr' :: rest)
    (hapi : apiStep w.lua fr result = some (w'.lua, fr')) : w'.Intact := by
  have hplaces := hmetas.places
  have hsuspended := hmetas.suspended
  have hown := hintact.own
  rw [hframes] at hplaces hsuspended hown
  have htop := hplaces fr List.mem_cons_self
  have hchange := api_tables hconfined.values hconfined.registers htop
    (hown fr List.mem_cons_self) hapi
  have hother : forall t, fr.ownTable = some t -> t ≠ w.lua.registry :=
    fun t ht => (htop.ownTable ht).1.ne_registry
  refine ⟨?_, ?_⟩
  · intro m hm
    apply hchange.plain
    rcases hchange.metatables hconfined.registers hother
      (mem_socketMetatables.mp hm) with hold | hnew
    · exact hintact.plain m (mem_socketMetatables.mpr hold)
    · exact hown fr List.mem_cons_self m hnew
  · rw [hframes']
    intro x hx m hm
    rcases List.mem_cons.mp hx with rfl | hx
    · rcases hchange.own hm with hold | hfield | ⟨rfl, hL⟩
      · exact hchange.plain (hown fr List.mem_cons_self m hold)
      · exact hchange.plain
          (hintact.plain m (mem_socketMetatables.mpr (Or.inr hfield)))
      · rw [hL]
        exact metatable_newTable
    · exact hchange.plain (hown x (List.mem_cons_of_mem _ hx) m hm)

theorem step_intact (hreach : ReachableWorld plat w)
    (h : w.phase ≠ .closed -> w.Intact) (hleaves : w.LeavesMetatables a)
    (hstep : step plat w a = some w') (hopen : w'.phase ≠ .closed) :
    w'.Intact := by
  have hconfined := reachable_confined hreach
  have hmetas := reachable_metasSound hreach
  have hintact := h (phase_of_step hstep)
  cases step_metas hconfined hstep with
  | other hkeeps hplain hframes =>
      exact intact_other hmetas hintact hleaves hstep hkeeps hplain hframes
  | call _ hframes hframes' hapi =>
      exact intact_call hconfined hmetas hintact hframes hframes' hapi
  | closed hphase => exact absurd hphase hopen

theorem initialWorld_intact : initialWorld.Intact where
  plain := fun _ hm => nomatch hm
  own := fun _ hfr => nomatch hfr

theorem run_intact {actions : List Action}
    (hrun : runFrom (step plat) initialWorld actions = some w)
    (hleaves : AllSteps (step plat) World.LeavesMetatables initialWorld actions)
    (hopen : w.phase ≠ .closed) : w.Intact := by
  have hboth : ReachableWorld plat w ∧ (w.phase ≠ .closed -> w.Intact) := by
    refine @runFrom_invariant _ _ (step plat)
      (fun x => ReachableWorld plat x ∧ (x.phase ≠ .closed -> x.Intact))
      _ ?_ _ _ _ ⟨⟨[], rfl⟩, fun _ => initialWorld_intact⟩ hleaves hrun
    rintro x b y ⟨hx, hintact⟩ hb hxy
    exact ⟨hx.next hxy, step_intact hx hintact hb hxy⟩
  exact hboth.2 hopen

end Steps

end LuaServer
