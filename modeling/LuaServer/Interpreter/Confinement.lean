import LuaServer.Interpreter.Script
import LuaServer.Lua.Collector

/-!
# Confinement

Which values a script can come by.  The registry stays out of its reach, and so
does a light userdata that nothing has handed to it: whatever the script does to
the heap, the values it can get at are made of those it already has.
-/

namespace LuaServer

/-- Values a script may come by: light userdata as allowed, and never the registry. -/
def Visible (allowed : Ptr -> Prop) (registry : Nat) : Value -> Prop
  | .lightuserdata p => allowed p
  | .table t => t ≠ registry
  | _ => True

theorem Visible.mono {allowed allowed' : Ptr -> Prop} {registry : Nat}
    {v : Value} (himp : forall p, allowed p -> allowed' p)
    (h : Visible allowed registry v) : Visible allowed' registry v := by
  cases v with
  | lightuserdata p => exact himp p h
  | nil | boolean | number | string | table | cfunction | closure | userdata
  | thread => exact h

theorem visible_of_isLiteral {allowed : Ptr -> Prop} {registry : Nat}
    {v : Value} (h : v.isLiteral = true) : Visible allowed registry v := by
  cases v with
  | nil | boolean | number | string => trivial
  | lightuserdata | table | cfunction | closure | userdata | thread => cases h

instance {allowed : Ptr -> Prop} [DecidablePred allowed] {registry : Nat}
    (v : Value) : Decidable (Visible allowed registry v) :=
  match v with
  | .lightuserdata p => inferInstanceAs (Decidable (allowed p))
  | .table t => inferInstanceAs (Decidable (t ≠ registry))
  | .nil | .boolean _ | .number _ | .string _ | .cfunction _ _ | .closure _
  | .userdata _ | .thread _ => .isTrue trivial

namespace LuaState

/-- Everything the heap and the stack refer to is visible. -/
structure Confines (L : LuaState) (allowed : Ptr -> Prop) : Prop where
  stack : forall v, v ∈ L.stack -> Visible allowed L.registry v
  cells : forall c v, v ∈ L.cells c -> Visible allowed L.registry v
  content : forall t entry, entry ∈ (L.tables t).content ->
    Visible allowed L.registry entry.1 ∧ Visible allowed L.registry entry.2
  tableMeta : forall t, (L.tables t).metatable ≠ some L.registry
  udataMeta : forall u, (L.udata u).metatable ≠ some L.registry
  typeMeta : forall ty, L.mt ty ≠ some L.registry
  globals : L.globals ≠ L.registry

section Chains

variable {L : LuaState} {allowed : Ptr -> Prop}

theorem Confines.metatable (h : L.Confines allowed) {v : Value} {m : Nat}
    (hm : L.getmetatable v = some m) : m ≠ L.registry := by
  rintro rfl
  cases v with
  | table t => exact h.tableMeta t hm
  | userdata u => exact h.udataMeta u hm
  | nil | boolean | lightuserdata | number | string | cfunction | closure
  | thread => exact h.typeMeta _ hm

theorem Confines.mono {allowed' : Ptr -> Prop} (h : L.Confines allowed)
    (himp : forall p, allowed p -> allowed' p) : L.Confines allowed' where
  stack := fun v hv => (h.stack v hv).mono himp
  cells := fun c v hv => (h.cells c v hv).mono himp
  content := fun t entry hentry =>
    ⟨(h.content t entry hentry).1.mono himp,
      (h.content t entry hentry).2.mono himp⟩
  tableMeta := h.tableMeta
  udataMeta := h.udataMeta
  typeMeta := h.typeMeta
  globals := h.globals

theorem Confines.get (h : L.Confines allowed) (t : Nat) (key : Value) :
    Visible allowed L.registry ((L.tables t).get key) := by
  by_cases hnil : (L.tables t).get key = .nil
  · rw [hnil]
    trivial
  · exact (h.content t _ (Table.mem_content_of_lookup_ne_nil hnil)).2

theorem Confines.metamethod (h : L.Confines allowed) (v : Value)
    (event : LuaString) :
    Visible allowed L.registry (L.metamethod v event) := by
  unfold LuaState.metamethod
  split
  · trivial
  · exact h.get _ _

/-- What a script can still get at is visible, but for the registry itself. -/
theorem Confines.reachable (h : L.Confines allowed) {v : Value}
    (hv : L.ReachableValue [] v) :
    v = .table L.registry ∨ Visible allowed L.registry v := by
  rcases hv with hroot | ⟨c, _, hv⟩ | ⟨t, entry, _, hentry, rfl | rfl⟩
  · rw [List.append_nil] at hroot
    unfold rootValues at hroot
    rcases List.mem_append.mp hroot with hroot | hmeta
    · rcases List.mem_append.mp hroot with hstack | hfixed
      · exact Or.inr (h.stack v hstack)
      · rcases List.mem_pair.mp hfixed with rfl | rfl
        · exact Or.inr h.globals
        · exact Or.inl rfl
    · rcases List.mem_filterMap.mp hmeta with ⟨ty, _, hty⟩
      rcases Option.map_eq_some_iff.mp hty with ⟨m, hm, rfl⟩
      right
      rintro rfl
      exact h.typeMeta ty hm
  · exact Or.inr (h.cells c v hv)
  · exact Or.inr (h.content t entry hentry).1
  · exact Or.inr (h.content t entry hentry).2

theorem Confines.registryField (h : L.Confines allowed) (name : LuaString) :
    Visible allowed L.registry (L.registryField name) :=
  h.get _ _

theorem Confines.gettableLoop (h : L.Confines allowed) {key : Value} {n : Nat}
    {t : Value} (ht : Visible allowed L.registry t) :
    (forall v, L.gettableLoop key n t = .value v ->
        Visible allowed L.registry v) ∧
      forall tm obj, L.gettableLoop key n t = .call tm obj ->
        Visible allowed L.registry obj := by
  induction n generalizing t with
  | zero =>
      constructor
      · intro v hv
        cases hv
      · intro tm obj hcall
        cases hcall
  | succ n ih =>
      have hnext := ih (h.metamethod t (ascii "__index"))
      simp only [LuaState.gettableLoop]
      cases t with
      | table x =>
          simp only
          split
          · constructor
            · intro v hv
              cases hv
              exact h.get x key
            · intro tm obj hcall
              cases hcall
          · split
            · constructor
              · intro v hv
                cases hv
              · intro tm obj hcall
                cases hcall
                exact ht
            · exact hnext
      | nil | boolean | lightuserdata | number | string | cfunction | closure
      | userdata | thread =>
          simp only
          split
          · constructor
            · intro v hv
              cases hv
            · intro tm obj hcall
              cases hcall
          · split
            · constructor
              · intro v hv
                cases hv
              · intro tm obj hcall
                cases hcall
                exact ht
            · exact hnext

theorem Confines.settableLoop (h : L.Confines allowed) {key : Value} {n : Nat}
    {t : Value} (ht : Visible allowed L.registry t) :
    (forall x, L.settableLoop key n t = .stored x -> x ≠ L.registry) ∧
      forall tm obj, L.settableLoop key n t = .call tm obj ->
        Visible allowed L.registry obj := by
  induction n generalizing t with
  | zero =>
      constructor
      · intro v hv
        cases hv
      · intro tm obj hcall
        cases hcall
  | succ n ih =>
      have hnext := ih (h.metamethod t (ascii "__newindex"))
      simp only [LuaState.settableLoop]
      cases t with
      | table x =>
          simp only
          split
          · constructor
            · intro y hy
              cases hy
              exact ht
            · intro tm obj hcall
              cases hcall
          · split
            · constructor
              · intro y hy
                cases hy
              · intro tm obj hcall
                cases hcall
                exact ht
            · exact hnext
      | nil | boolean | lightuserdata | number | string | cfunction | closure
      | userdata | thread =>
          simp only
          split
          · constructor
            · intro y hy
              cases hy
            · intro tm obj hcall
              cases hcall
          · split
            · constructor
              · intro y hy
                cases hy
              · intro tm obj hcall
                cases hcall
                exact ht
            · exact hnext

end Chains

/-!
# Operations on a confined state
-/

section Operations

variable {L : LuaState} {allowed : Ptr -> Prop} (h : L.Confines allowed)

include h

theorem Confines.withStack {stack : List Value}
    (hstack : forall v, v ∈ stack -> Visible allowed L.registry v) :
    Confines { L with stack := stack } allowed :=
  ⟨hstack, h.cells, h.content, h.tableMeta, h.udataMeta, h.typeMeta, h.globals⟩

theorem Confines.pushAll {vs : List Value}
    (hvs : forall v, v ∈ vs -> Visible allowed L.registry v) :
    Confines { L with stack := vs ++ L.stack } allowed := by
  apply h.withStack
  intro v hv
  rcases List.mem_append.mp hv with hnew | hold
  · exact hvs v hnew
  · exact h.stack v hold

theorem Confines.push {v : Value} (hv : Visible allowed L.registry v) :
    (L.push v).Confines allowed := by
  apply h.withStack
  intro x hx
  rcases List.mem_cons.mp hx with rfl | hx
  · exact hv
  · exact h.stack x hx

theorem Confines.setTable {t : Nat} {table : Table}
    (hcontent : forall entry, entry ∈ table.content ->
      Visible allowed L.registry entry.1 ∧ Visible allowed L.registry entry.2)
    (hmeta : table.metatable ≠ some L.registry) :
    (L.setTable t table).Confines allowed where
  stack := h.stack
  cells := h.cells
  content := by
    intro x entry hentry
    change entry ∈ (if x = t then table else L.tables x).content at hentry
    by_cases hx : x = t
    · rw [if_pos hx] at hentry
      exact hcontent entry hentry
    · rw [if_neg hx] at hentry
      exact h.content x entry hentry
  tableMeta := by
    intro x
    show (if x = t then table else L.tables x).metatable ≠ some L.registry
    by_cases hx : x = t
    · rw [if_pos hx]
      exact hmeta
    · rw [if_neg hx]
      exact h.tableMeta x
  udataMeta := h.udataMeta
  typeMeta := h.typeMeta
  globals := h.globals

theorem Confines.newTable : L.newTable.1.Confines allowed := by
  have hset := @Confines.setTable L allowed h L.nextTable {}
    (fun entry hentry => by cases hentry) (by simp)
  exact ⟨hset.stack, hset.cells, hset.content, hset.tableMeta, hset.udataMeta,
    hset.typeMeta, hset.globals⟩

theorem Confines.rawset {t : Nat} {key v : Value}
    (hkey : Visible allowed L.registry key)
    (hv : Visible allowed L.registry v) :
    (L.rawset t key v).Confines allowed := by
  apply h.setTable
  · intro entry hentry
    rcases Table.mem_content_set hentry with rfl | hold
    · exact ⟨hkey, hv⟩
    · exact h.content t entry hold
  · exact h.tableMeta t

theorem Confines.newUdata {m : Option Nat} (hm : m ≠ some L.registry) :
    (L.newUdata m).1.Confines allowed where
  stack := h.stack
  cells := h.cells
  content := h.content
  tableMeta := h.tableMeta
  udataMeta := by
    intro u
    show (if u = L.nextUdata then { metatable := m } else L.udata u).metatable ≠
      some L.registry
    by_cases hu : u = L.nextUdata
    · rw [if_pos hu]
      exact hm
    · rw [if_neg hu]
      exact h.udataMeta u
  typeMeta := h.typeMeta
  globals := h.globals

theorem Confines.setCell {c : Nat} {values : List Value}
    (hvalues : forall x, x ∈ values -> Visible allowed L.registry x) :
    (L.setCell c values).Confines allowed where
  stack := h.stack
  cells := by
    intro x v hv
    change v ∈ (if x = c then values else L.cells x) at hv
    by_cases hx : x = c
    · rw [if_pos hx] at hv
      exact hvalues v hv
    · rw [if_neg hx] at hv
      exact h.cells x v hv
  content := h.content
  tableMeta := h.tableMeta
  udataMeta := h.udataMeta
  typeMeta := h.typeMeta
  globals := h.globals

theorem Confines.setmetatable {obj : Value} {m : Option Nat}
    (hm : m ≠ some L.registry) : (L.setmetatable obj m).Confines allowed := by
  cases obj with
  | table t => exact h.setTable (fun entry hentry => h.content t entry hentry) hm
  | userdata u =>
      refine ⟨h.stack, h.cells, h.content, h.tableMeta, ?_, h.typeMeta,
        h.globals⟩
      intro x
      show (if x = u then { L.udata u with metatable := m }
        else L.udata x).metatable ≠ some L.registry
      by_cases hx : x = u
      · rw [if_pos hx]
        exact hm
      · rw [if_neg hx]
        exact h.udataMeta x
  | nil | boolean | lightuserdata | number | string | cfunction | closure
  | thread =>
      refine ⟨h.stack, h.cells, h.content, h.tableMeta, h.udataMeta, ?_,
        h.globals⟩
      intro ty
      simp only [LuaState.setmetatable]
      split
      · exact hm
      · exact h.typeMeta ty

end Operations

/-!
# What a script step does

Every step of a script is one of a few changes of the state, each with visible
operands.
-/

inductive ScriptChange (L : LuaState) (allowed : Ptr -> Prop) :
    LuaState -> Prop where
  | pushed {v : Value} :
      Visible allowed L.registry v -> ScriptChange L allowed (L.push v)
  | forgotten {i : Nat} :
      ScriptChange L allowed { L with stack := L.stack.eraseIdx i }
  | madeTable :
      ScriptChange L allowed (L.newTable.1.push (.table L.newTable.2))
  | stored {t : Nat} {key v : Value} :
      t ≠ L.registry -> Visible allowed L.registry key ->
      Visible allowed L.registry v -> ScriptChange L allowed (L.rawset t key v)
  | setMetatable {t : Nat} {m : Option Nat} :
      t ≠ L.registry -> m ≠ some L.registry ->
      ScriptChange L allowed (L.setmetatable (.table t) m)
  | madeProxy :
      ScriptChange L allowed
        (({ L.newTable.1 with
            proxies := L.newTable.2 :: L.newTable.1.proxies }.newUdata
          (some L.newTable.2)).1.push (.userdata L.nextUdata))
  | madeUserdata {m : Option Nat} :
      (forall x, m = some x ->
        x ∈ L.proxies ∨ L.registryField fileHandleName = .table x) ->
      ScriptChange L allowed ((L.newUdata m).1.push (.userdata L.nextUdata))
  | madeCell {values : List Value} {v : Value} :
      (forall x, x ∈ values -> Visible allowed L.registry x) ->
      Visible allowed L.registry v ->
      ScriptChange L allowed ((L.newCell values).1.push v)
  | setCell {c : Nat} {values : List Value} :
      (forall x, x ∈ values -> Visible allowed L.registry x) ->
      ScriptChange L allowed (L.setCell c values)
  | setGlobals {t : Nat} :
      t ≠ L.registry -> ScriptChange L allowed { L with globals := t }

section Steps

variable {L L' : LuaState} {allowed : Ptr -> Prop}

theorem Confines.holds (h : L.Confines allowed) {v : Value}
    (hv : L.holds v = true) : Visible allowed L.registry v :=
  h.stack v (of_decide_eq_true hv)

theorem Confines.holds_all (h : L.Confines allowed) {values : List Value}
    (hall : values.all L.holds = true) :
    forall x, x ∈ values -> Visible allowed L.registry x :=
  fun x hx => h.holds (List.all_eq_true.mp hall x hx)

theorem newproxy_change {arg : Value} (h : L.newproxy arg = some L') :
    ScriptChange L allowed L' := by
  unfold newproxy at h
  split at h
  · cases h
    exact ScriptChange.madeProxy
  · split at h
    · split at h
      · cases h
      · split at h
        · rename_i m _ hm
          cases h
          apply ScriptChange.madeUserdata
          intro x hx
          cases hx
          exact Or.inl hm
        · cases h
    · cases h
      apply ScriptChange.madeUserdata
      intro x hx
      cases hx

theorem openFile_change (h : L.openFile = some L') :
    ScriptChange L allowed L' := by
  unfold openFile at h
  split at h
  · rename_i m hm
    cases h
    apply ScriptChange.madeUserdata
    intro x hx
    cases hx
    exact Or.inr hm
  · cases h

theorem requireMark_change {name : LuaString} (hL : L.Confines allowed)
    (hsentinel : allowed .sentinel) (h : L.requireMark name = some L') :
    ScriptChange L allowed L' := by
  have hchain := @Confines.settableLoop L allowed hL (.string name) maxTagLoop _
    (hL.registryField loadedName)
  unfold requireMark at h
  have hstore := (Option.ite_none_right_eq_some.mp h).2
  split at hstore
  · rename_i t ht
    cases hstore
    exact ScriptChange.stored (hchain.1 t ht) trivial hsentinel
  · cases hstore
    exact ScriptChange.pushed hsentinel
  · cases hstore

theorem Confines.metatableValue (h : L.Confines allowed) (v : Value) :
    Visible allowed L.registry (L.metatableValue v) := by
  unfold LuaState.metatableValue
  split
  · trivial
  · rename_i m hm
    split
    · exact h.get m _
    · exact h.metatable hm

theorem scriptStep_change {p : Prim} (hL : L.Confines allowed)
    (hsentinel : allowed .sentinel) (h : L.scriptStep p = some L') :
    ScriptChange L allowed L' := by
  cases p with
  | literal v =>
      simp only [scriptStep] at h
      split at h
      · rename_i hv
        cases h
        exact ScriptChange.pushed (visible_of_isLiteral hv)
      · cases h
  | forget i =>
      cases h
      exact ScriptChange.forgotten
  | newTable =>
      cases h
      exact ScriptChange.madeTable
  | rawGet t key =>
      simp only [scriptStep] at h
      split at h
      · cases h
        exact ScriptChange.pushed (hL.get t key)
      · cases h
  | rawNext t i =>
      simp only [scriptStep] at h
      split at h
      · rcases Option.map_eq_some_iff.mp h with ⟨entry, hentry, rfl⟩
        exact ScriptChange.pushed
          (hL.content t entry (List.mem_of_getElem? hentry)).1
      · cases h
  | rawSet t key v =>
      simp only [scriptStep, Bool.and_eq_true] at h
      split at h
      · rename_i hcond
        cases h
        exact ScriptChange.stored (hL.holds hcond.1.1.1) (hL.holds hcond.1.1.2)
          (hL.holds hcond.1.2)
      · cases h
  | getMetatable v =>
      simp only [scriptStep] at h
      split at h
      · cases h
        exact ScriptChange.pushed (hL.metatableValue v)
      · cases h
  | setMetatable t m =>
      simp only [scriptStep] at h
      rcases Option.ite_none_right_eq_some.mp h with ⟨hcond, hset⟩
      cases hset
      rw [Bool.and_eq_true, Bool.and_eq_true] at hcond
      apply ScriptChange.setMetatable (hL.holds hcond.1.1)
      rintro rfl
      exact hL.holds hcond.2 rfl
  | newProxy arg =>
      simp only [scriptStep] at h
      split at h
      · exact newproxy_change h
      · cases h
  | openFile => exact openFile_change h
  | newClosure upvalues =>
      simp only [scriptStep] at h
      split at h
      · rename_i hall
        cases h
        exact ScriptChange.madeCell (hL.holds_all hall) trivial
      · cases h
  | newThread values =>
      simp only [scriptStep] at h
      split at h
      · rename_i hall
        cases h
        exact ScriptChange.madeCell (hL.holds_all hall) trivial
      · cases h
  | getCell v i =>
      simp only [scriptStep] at h
      split at h
      · split at h
        · cases h
        · rename_i c _
          rcases Option.map_eq_some_iff.mp h with ⟨x, hx, rfl⟩
          exact ScriptChange.pushed (hL.cells c x (List.mem_of_getElem? hx))
      · cases h
  | setCell v values =>
      simp only [scriptStep, Bool.and_eq_true] at h
      split at h
      · rename_i hcond
        rcases Option.map_eq_some_iff.mp h with ⟨c, _, rfl⟩
        exact ScriptChange.setCell (hL.holds_all hcond.2)
      · cases h
  | requireMark name => exact requireMark_change hL hsentinel h
  | setGlobals t =>
      simp only [scriptStep] at h
      split at h
      · rename_i ht
        cases h
        exact ScriptChange.setGlobals (hL.holds ht)
      · cases h

theorem ScriptChange.confines (hchange : ScriptChange L allowed L')
    (hL : L.Confines allowed)
    (hproxies : forall m, m ∈ L.proxies -> m ≠ L.registry)
    (hfresh : L.nextTable ≠ L.registry) : L'.Confines allowed := by
  cases hchange with
  | pushed hv => exact hL.push hv
  | forgotten =>
      apply hL.withStack
      intro v hv
      exact hL.stack v (List.mem_of_mem_eraseIdx hv)
  | madeTable => exact hL.newTable.push hfresh
  | stored _ hkey hv => exact hL.rawset hkey hv
  | setMetatable _ hm => exact hL.setmetatable hm
  | madeProxy =>
      have htable := hL.newTable
      have hproxied : Confines { L.newTable.1 with
          proxies := L.newTable.2 :: L.newTable.1.proxies } allowed :=
        ⟨htable.stack, htable.cells, htable.content, htable.tableMeta,
          htable.udataMeta, htable.typeMeta, htable.globals⟩
      refine Confines.push (hproxied.newUdata ?_) ?_
      · intro hm
        exact hfresh (Option.some.inj hm)
      · trivial
  | madeUserdata hm =>
      refine Confines.push (hL.newUdata ?_) ?_
      · rintro rfl
        rcases hm _ rfl with hproxy | hfield
        · exact hproxies _ hproxy rfl
        · have hvisible := hL.registryField fileHandleName
          rw [hfield] at hvisible
          exact hvisible rfl
      · trivial
  | @madeCell values v hvalues hv =>
      have hset : (L.setCell L.nextCell values).Confines allowed :=
        hL.setCell hvalues
      have hcell : (L.newCell values).1.Confines allowed :=
        ⟨hset.stack, hset.cells, hset.content, hset.tableMeta, hset.udataMeta,
          hset.typeMeta, hset.globals⟩
      exact hcell.push hv
  | setCell hvalues => exact hL.setCell hvalues
  | setGlobals ht =>
      exact ⟨hL.stack, hL.cells, hL.content, hL.tableMeta, hL.udataMeta,
        hL.typeMeta, ht⟩

end Steps

end LuaState

end LuaServer
