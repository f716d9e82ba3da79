import LuaServer.Interpreter.Metatable

/-!
# Lookups

What an indexing operation reads.  `luaV_gettable` goes from one `__index` to the
next, and two states that agree on what it reads on its way give the same result.
-/

namespace LuaServer

namespace LuaState

/-- The values that a lookup goes through, from one `__index` to the next. -/
def chain (L : LuaState) : Nat -> Value -> List Value
  | 0, _ => []
  | n + 1, v =>
      let tm := L.metamethod v (ascii "__index")
      v :: if tm = .nil ∨ tm.isFunction = true then [] else chain L n tm

/-- The tables that a lookup reads: those it goes through and the metatables. -/
def lookupTables (L : LuaState) (v : Value) : List Nat :=
  (L.chain maxTagLoop v).flatMap fun x =>
    (match x with
      | .table t => [t]
      | _ => []) ++ (L.getmetatable x).toList

/-- The tables that a lookup searches for a key, up to the first that has it. -/
def searched (L : LuaState) (key : Value) : Nat -> Value -> List Nat
  | 0, _ => []
  | n + 1, v =>
      let tm := L.metamethod v (ascii "__index")
      let follow :=
        if tm = .nil ∨ tm.isFunction = true then [] else searched L key n tm
      match v with
      | .table t => t :: if (L.tables t).get key = .nil then follow else []
      | _ => follow

/-- Another state has the tables and the metatables that a lookup reads in this one. -/
structure SamePath (L L' : LuaState) (v : Value) : Prop where
  tables : forall t, t ∈ L.lookupTables v -> L'.tables t = L.tables t
  metatables : forall x, x ∈ L.chain maxTagLoop v ->
    L'.getmetatable x = L.getmetatable x

/-- Another state gives a lookup the same at each point of its way. -/
def KeepsChain (L L' : LuaState) (v : Value) : Prop :=
  forall x, x ∈ L.chain maxTagLoop v ->
    L'.metamethod x (ascii "__index") = L.metamethod x (ascii "__index") ∧
      forall t key, x = .table t ->
        (L'.tables t).get key = (L.tables t).get key

/-- States that no lookup tells apart. -/
structure Alike (L L' : LuaState) : Prop where
  mt : L'.mt = L.mt
  udata : forall u, (L'.udata u).metatable = (L.udata u).metatable
  metatable : forall t, (L'.tables t).metatable = (L.tables t).metatable
  get : forall t key, (L'.tables t).get key = (L.tables t).get key

section Chains

variable {L L' L'' : LuaState}

theorem gettableLoop_of_chain {n : Nat} {key v : Value}
    (h : forall x, x ∈ L.chain n v ->
      L'.metamethod x (ascii "__index") = L.metamethod x (ascii "__index") ∧
        forall t key, x = .table t ->
          (L'.tables t).get key = (L.tables t).get key) :
    L'.gettableLoop key n v = L.gettableLoop key n v := by
  induction n generalizing v with
  | zero => rfl
  | succ n ih =>
      rcases h v List.mem_cons_self with ⟨hindex, hfields⟩
      simp only [chain] at h
      generalize htm : L.metamethod v (ascii "__index") = tm at h hindex
      simp only [gettableLoop, hindex, htm]
      -- the rest of the way matters if there is one
      have hfollow : tm ≠ .nil ->
          (if tm.isFunction = true then GetResult.call tm v
            else L'.gettableLoop key n tm) =
          if tm.isFunction = true then GetResult.call tm v
            else L.gettableLoop key n tm := by
        intro hnil
        split
        · rfl
        · rename_i hfunction
          rw [if_neg (not_or.mpr ⟨hnil, hfunction⟩)] at h
          exact ih fun x hx => h x (List.mem_cons_of_mem _ hx)
      by_cases hnil : tm = .nil
      · cases v with
        | table t => simp only [hfields t key rfl, hnil, or_true, if_true]
        | nil | boolean | lightuserdata | number | string | cfunction | closure
        | userdata | thread => simp only [hnil, if_true]
      · cases v with
        | table t => simp only [hfields t key rfl, hfollow hnil]
        | nil | boolean | lightuserdata | number | string | cfunction | closure
        | userdata | thread => simp only [hfollow hnil]

theorem KeepsChain.gettable {key v : Value} (h : L.KeepsChain L' v) :
    L'.gettable v key = L.gettable v key :=
  gettableLoop_of_chain h

theorem mem_lookupTables_of_table {v : Value} {t : Nat}
    (h : .table t ∈ L.chain maxTagLoop v) : t ∈ L.lookupTables v :=
  List.mem_flatMap.mpr ⟨_, h, List.mem_append_left _ (List.mem_singleton.mpr rfl)⟩

theorem mem_lookupTables_of_metatable {v x : Value} {m : Nat}
    (h : x ∈ L.chain maxTagLoop v) (hm : L.getmetatable x = some m) :
    m ∈ L.lookupTables v :=
  List.mem_flatMap.mpr
    ⟨_, h, List.mem_append_right _ (Option.mem_toList.mpr hm)⟩

theorem SamePath.keepsChain {v : Value} (h : L.SamePath L' v) :
    L.KeepsChain L' v := by
  intro x hx
  constructor
  · unfold LuaState.metamethod
    rw [h.metatables x hx]
    cases hm : L.getmetatable x with
    | none => rfl
    | some m =>
        simp only [h.tables m (mem_lookupTables_of_metatable hx hm)]
  · rintro t key rfl
    rw [h.tables t (mem_lookupTables_of_table hx)]

theorem Alike.refl (L : LuaState) : L.Alike L :=
  ⟨rfl, fun _ => rfl, fun _ => rfl, fun _ _ => rfl⟩

theorem Alike.trans (h : L.Alike L') (h' : L'.Alike L'') : L.Alike L'' where
  mt := h'.mt.trans h.mt
  udata := fun u => (h'.udata u).trans (h.udata u)
  metatable := fun t => (h'.metatable t).trans (h.metatable t)
  get := fun t key => (h'.get t key).trans (h.get t key)

theorem Alike.getmetatable (h : L.Alike L') (v : Value) :
    L'.getmetatable v = L.getmetatable v := by
  cases v with
  | table t => exact h.metatable t
  | userdata u => exact h.udata u
  | nil | boolean | lightuserdata | number | string | cfunction | closure
  | thread =>
      unfold LuaState.getmetatable
      rw [h.mt]

theorem Alike.metamethod (h : L.Alike L') (v : Value) (event : LuaString) :
    L'.metamethod v event = L.metamethod v event := by
  unfold LuaState.metamethod
  rw [h.getmetatable]
  cases L.getmetatable v with
  | none => rfl
  | some m => exact h.get m _

/-- Another state has the shared metatable, the registered one and a lookup as this. -/
structure SameLookups (L L' : LuaState) (s key : Value) : Prop where
  mt : L'.mt = L.mt
  registryField :
    L'.registryField socketDataName = L.registryField socketDataName
  gettable : L'.gettable s key = L.gettable s key

theorem Alike.keepsChain (h : L.Alike L') (v : Value) : L.KeepsChain L' v :=
  fun x _ => ⟨h.metamethod x _, fun t key _ => h.get t key⟩

theorem Alike.sameLookups (h : L.Alike L') (hregistry : L'.registry = L.registry)
    (s key : Value) : L.SameLookups L' s key where
  mt := h.mt
  registryField := by
    unfold LuaState.registryField
    rw [hregistry, h.get]
  gettable := (h.keepsChain s).gettable

/-!
# Operations that no lookup notices
-/

theorem alike_of_tables (hmt : L'.mt = L.mt)
    (hudata : forall u, (L'.udata u).metatable = (L.udata u).metatable)
    (htables : L'.tables = L.tables) : L.Alike L' where
  mt := hmt
  udata := hudata
  metatable := fun t => by rw [htables]
  get := fun t key => by rw [htables]

theorem SameHeap.alike (h : SameHeap L L') : L.Alike L' :=
  alike_of_tables h.mt h.udata h.tables

theorem metatable_rawset (m t : Nat) (key v : Value) :
    ((L.rawset m key v).tables t).metatable = (L.tables t).metatable := by
  show (if t = m then (L.tables m).set key v else L.tables t).metatable = _
  by_cases ht : t = m
  · rw [if_pos ht, ht, Table.set_metatable]
  · rw [if_neg ht]

theorem get_rawset (m : Nat) (key v : Value) :
    ((L.rawset m key v).tables m).get key = v := by
  show (if m = m then (L.tables m).set key v else L.tables m).get key = v
  rw [if_pos rfl, Table.get_set_self]

theorem get_rawset_of_ne {m t : Nat} {key other : Value} (v : Value)
    (hne : t ≠ m ∨ other ≠ key) :
    ((L.rawset m key v).tables t).get other = (L.tables t).get other := by
  show (if t = m then (L.tables m).set key v else L.tables t).get other = _
  by_cases ht : t = m
  · rw [if_pos ht, ht]
    rcases hne with hne | hne
    · exact absurd ht hne
    · exact Table.get_set_of_ne _ v hne
  · rw [if_neg ht]

theorem metamethod_rawset (m : Nat) {key v : Value} {event : LuaString} (x : Value)
    (hne : .string event ≠ key) :
    (L.rawset m key x).metamethod v event = L.metamethod v event := by
  have hmeta : (L.rawset m key x).getmetatable v = L.getmetatable v := by
    cases v with
    | table t => exact metatable_rawset m t key x
    | nil | boolean | lightuserdata | number | string | cfunction | closure
    | userdata | thread => rfl
  unfold LuaState.metamethod
  rw [hmeta]
  cases L.getmetatable v with
  | none => rfl
  | some t => exact get_rawset_of_ne x (Or.inr hne)

theorem alike_rawset {m : Nat} {key v : Value}
    (h : (L.tables m).get key = v) : L.Alike (L.rawset m key v) where
  mt := rfl
  udata := fun _ => rfl
  metatable := fun t => metatable_rawset m t key v
  get := by
    intro t other
    by_cases hsame : t = m ∧ other = key
    · rcases hsame with ⟨rfl, rfl⟩
      rw [get_rawset, h]
    · apply get_rawset_of_ne
      by_cases ht : t = m
      · exact Or.inr fun hkey => hsame ⟨ht, hkey⟩
      · exact Or.inl ht

/--
A lookup only notices a store, other than that of an `__index`, if it searches the
table for the field.
-/
theorem gettableLoop_rawset {m n : Nat} {name : LuaString} {key v : Value} (x : Value)
    (hname : name ≠ ascii "__index")
    (h : key = .string name -> m ∉ L.searched key n v) :
    (L.rawset m (.string name) x).gettableLoop key n v =
      L.gettableLoop key n v := by
  have hindex : forall y,
      (L.rawset m (.string name) x).metamethod y (ascii "__index") =
        L.metamethod y (ascii "__index") := fun y =>
    metamethod_rawset m x fun heq => hname (Value.string.inj heq).symm
  have hget : forall t, (key = .string name -> t ≠ m) ->
      ((L.rawset m (.string name) x).tables t).get key = (L.tables t).get key := by
    intro t ht
    apply get_rawset_of_ne
    by_cases hkey : key = .string name
    · exact Or.inl (ht hkey)
    · exact Or.inr hkey
  induction n generalizing v with
  | zero => rfl
  | succ n ih =>
      simp only [gettableLoop, searched, hindex] at h ⊢
      generalize L.metamethod v (ascii "__index") = tm at h ⊢
      have hfollow : tm ≠ .nil ->
          (key = .string name -> m ∉ if tm = .nil ∨ tm.isFunction = true then []
            else L.searched key n tm) ->
          (if tm.isFunction = true then GetResult.call tm v
            else (L.rawset m (.string name) x).gettableLoop key n tm) =
          if tm.isFunction = true then GetResult.call tm v
            else L.gettableLoop key n tm := by
        intro hnil hrest
        split
        · rfl
        · rename_i hfunction
          rw [if_neg (not_or.mpr ⟨hnil, hfunction⟩)] at hrest
          exact ih hrest
      by_cases hnil : tm = .nil
      · cases v with
        | table t =>
            have hkept := hget t fun hkey ht => h hkey (ht ▸ List.mem_cons_self)
            simp only [hkept, hnil, or_true, if_true]
        | nil | boolean | lightuserdata | number | string | cfunction | closure
        | userdata | thread => simp only [hnil, if_true]
      · cases v with
        | table t =>
            have hkept := hget t fun hkey ht => h hkey (ht ▸ List.mem_cons_self)
            simp only [hkept]
            by_cases hfound : (L.tables t).get key = .nil
            · simp only [hfound, if_true, List.mem_cons, not_or] at h
              rw [hfollow hnil fun hkey => (h hkey).2]
            · rw [if_pos (Or.inl hfound), if_pos (Or.inl hfound)]
        | nil | boolean | lightuserdata | number | string | cfunction | closure
        | userdata | thread => simp only [hfollow hnil h]

theorem alike_setmetatable {p : Ptr} {m : Nat}
    (h : L.mt .lightuserdata = some m) :
    L.Alike (L.setmetatable (.lightuserdata p) (some m)) where
  mt := by
    funext ty
    show (if ty = .lightuserdata then some m else L.mt ty) = L.mt ty
    by_cases hty : ty = .lightuserdata
    · rw [if_pos hty, hty, h]
    · rw [if_neg hty]
  udata := fun _ => rfl
  metatable := fun _ => rfl
  get := fun _ _ => rfl

theorem settable_plain {m : Nat} {key : Value}
    (h : (L.tables m).metatable = none) :
    L.settable (.table m) key = .stored m := by
  simp [settable, maxTagLoop, settableLoop, metamethod, getmetatable, h]

end Chains

end LuaState

open LuaState

section Steps

variable {plat : Platform} {w w' : World} {a : Action}

theorem alike_withStack (L : LuaState) (stack : List Value) :
    L.Alike { L with stack := stack } :=
  alike_of_tables rfl (fun _ => rfl) rfl

theorem performCall_alike {c : Invocation}
    (hadm : c.env.admissible plat c.start = true) :
    c.start.lua.Alike (c.start.performCall plat c.entry c.args c.env).lua := by
  rcases performCall_lua hadm with ⟨vs, hlua, _⟩
  rw [hlua]
  exact alike_withStack _ _

theorem gctm_alike {env : Env} (hstep : w.gctm plat env = some w') :
    w.lua.Alike w'.lua := by
  cases gctm_inv hstep with
  | nothing hdue => exact (sameHeap_takeDue hdue).alike
  | @called L u f _ hdue hadm =>
      exact (sameHeap_takeDue hdue).alike.trans (@performCall_alike plat
        ⟨.call f, [.userdata u], env, { w with lua := L }⟩ hadm)
  | handedOver hdue =>
      exact (sameHeap_takeDue hdue).alike.trans (alike_withStack _ _)

/-- The steps of Lua code and of the collector, which change the heap by themselves. -/
def Action.changesHeap : Action -> Bool
  | .script _ => true
  | .collect => true
  | _ => false

/--
The steps of the program as lookups notice them: a step of a call in progress,
the end, and steps that keep the metatable of sockets, most of them unnoticed.
-/
inductive LookupStep (w : World) (a : Action) (w' : World) : Prop where
  | other :
      w.lua.KeepsMetas w'.lua -> FramesChange w w'.frames ->
      a.changesHeap = true ∨ w.lua.Alike w'.lua -> LookupStep w a w'
  | call {result : Value} {fr fr' : Frame} {rest : List Frame} :
      a = .api result -> w.frames = fr :: rest -> w'.frames = fr' :: rest ->
      apiStep w.lua fr result = some (w'.lua, fr') -> LookupStep w a w'
  | closed : w'.frames = [] -> LookupStep w a w'

theorem script_inv {p : Prim} (h : step plat w (.script p) = some w') :
    w.canRunLua = true ∧ w.lua.scriptStep p = some w'.lua := by
  simp only [step] at h
  split at h
  · rename_i hrun
    rcases Option.map_eq_some_iff.mp h with ⟨L, hL, rfl⟩
    exact ⟨hrun, hL⟩
  · cases h

/-- No lookup notices what the library and the end of `main` do. -/
theorem step_alike (hstep : step plat w a = some w')
    (hapi : forall result, a ≠ .api result) (hclose : a ≠ .closeState) :
    a.changesHeap = true ∨ w.lua.Alike w'.lua := by
  cases a with
  | script | collect => exact Or.inl rfl
  | api result => exact absurd rfl (hapi result)
  | closeState => exact absurd rfl hclose
  | call f args env =>
      simp only [step, Bool.and_eq_true] at hstep
      split at hstep
      · rename_i hcond
        cases hstep
        exact Or.inr (@performCall_alike plat ⟨.call f, args, env, w⟩ hcond.2)
      · cases hstep
  | apiArgs =>
      simp only [step] at hstep
      split at hstep
      · split at hstep
        · cases hstep
        · cases hstep
          exact Or.inr (alike_withStack _ _)
      · cases hstep
  | apiRaise e =>
      rcases apiRaise_inv hstep with ⟨fr, rest, _, rfl⟩
      exact Or.inr (Alike.refl _)
  | resume env =>
      rcases resume_inv hstep with ⟨_, _, p, rest, _, hadm, rfl⟩
      exact Or.inr (@performCall_alike plat
        ⟨.resume p.point, p.args, env, { w with paused := rest }⟩ hadm)
  | pausedRaise e =>
      rcases pausedRaise_inv hstep with ⟨_, p, rest, _, rfl⟩
      exact Or.inr (Alike.refl _)
  | gctm env =>
      simp only [step] at hstep
      split at hstep
      · exact Or.inr (gctm_alike hstep)
      · cases hstep
  | exit =>
      simp only [step] at hstep
      split at hstep
      · cases hstep
        rw [exit_lua]
        exact Or.inr ((alike_withStack _ _).trans
          (sameHeap_separateudata _ _).alike)
      · cases hstep

theorem step_lookups (h : w.Confined) (hstep : step plat w a = some w') :
    LookupStep w a w' := by
  by_cases hapi : exists result, a = .api result
  · rcases hapi with ⟨result, rfl⟩
    rcases api_inv hstep with
      ⟨fr, rest, hframes, ⟨_, rfl⟩ | ⟨L, fr', happly, rfl⟩⟩
    · exact .other (withStack_keeps _).1 (.ended hframes)
        (Or.inr (alike_withStack _ _))
    · exact .call rfl hframes rfl happly
  · cases step_metas h hstep with
    | call ha => exact absurd ⟨_, ha⟩ hapi
    | closed _ hframes => exact .closed hframes
    | other hkeeps _ hframes =>
        by_cases hclose : a = .closeState
        · rw [hclose] at hstep
          simp only [step, Bool.and_eq_true, decide_eq_true_eq] at hstep
          split at hstep
          · rename_i hcond
            cases hstep
            exact .closed hcond.1.1.1.2
          · cases hstep
        · exact .other hkeeps hframes
            (step_alike hstep (not_exists.mp hapi) hclose)

end Steps

end LuaServer
