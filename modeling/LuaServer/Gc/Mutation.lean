import LuaServer.Gc.Stores

/-!
# The stores of the program

Every function that stores references keeps the invariant: what it stores is
alive, and its barrier answers for what may be white.
-/

namespace LuaServer
namespace Gc
namespace GlobalState

variable {g g' : GlobalState}

/-!
# Tables
-/

theorem table_setTable_slots (t : Nat) (h : Table) :
    (g.setTable t h).slots (.table t) = h.slots := by
  simp only [slots, table_setTable, if_pos]

theorem written_setTable {t : Nat} {h : Table} {fresh : List GCObject}
    (hslots : forall y, y ∈ h.slots -> y ∈ (g.table t).slots ∨ y ∈ fresh) :
    Written g (g.setTable t h) (.table t) fresh := by
  refine written_write (x := .table t) rfl h ?_
  intro y hy
  exact hslots y (table_setTable_slots t h ▸ hy)

theorem Inv.settable (hg : g.Inv) {t : Nat} {h : Table} {key val : TValue}
    (ht : g.Alive (.table t)) (hstored : Table.Stored (g.table t) h key val)
    (hkey : forall x, key.gcvalue = some x -> g.Alive x)
    (hval : forall x, val.gcvalue = some x -> g.Alive x) :
    (g.settable t h key val).Inv := by
  have hwritten : Written g (g.setTable t h) (.table t)
      (key.gcvalue.toList ++ (val.gcvalue.toList ++ [])) := by
    refine written_setTable ?_
    intro y hy
    simpa [eq_comm] using hstored.slots y hy
  have hexposed := hwritten.exposed hg ht (by
    intro y hy
    simp only [List.append_nil, List.mem_append, Option.mem_toList]
      at hy
    rcases hy with hy | hy
    · exact hkey y hy
    · exact hval y hy)
  exact hexposed.barriert.barriert.done

theorem Inv.setmetatable (hg : g.Inv) {t : Nat} (ht : g.Alive (.table t))
    {mt : Option Nat} (hmt : forall m, mt = some m -> g.Alive (.table m)) :
    (g.setmetatable t mt).Inv := by
  have hwritten : Written g
      (g.setTable t { g.table t with metatable := mt }) (.table t)
      (mt.toList.map .table) := by
    refine written_setTable ?_
    intro y hy
    simp only [Table.slots, List.mem_append] at hy ⊢
    rcases hy with (hy | hy) | hy
    · exact Or.inr hy
    · exact Or.inl (Or.inl (Or.inr hy))
    · exact Or.inl (Or.inr hy)
  have hexposed := hwritten.exposed hg ht (by
    intro y hy
    rcases List.mem_map.mp hy with ⟨m, hm, rfl⟩
    exact hmt m (Option.mem_toList.mp hm))
  cases mt with
  | none => exact hexposed.done
  | some m => exact (Exposed.objbarriert hexposed).done

/-!
# Userdata
-/

theorem written_setUdata {n : Nat} {u : Udata} {fresh : List GCObject}
    (hslots : forall y, y ∈ u.slots -> y ∈ (g.udata n).slots ∨ y ∈ fresh) :
    Written g (g.setUdata n u) (.udata n) fresh := by
  refine written_write (x := .udata n) rfl u ?_
  intro y hy
  have hself : (g.setUdata n u).slots (.udata n) = u.slots := by
    simp only [slots, udata_setUdata, if_pos]
  exact hslots y (hself ▸ hy)

theorem Inv.setudatamt (hg : g.Inv) {n : Nat} (hn : g.Alive (.udata n))
    {mt : Option Nat} (hmt : forall m, mt = some m -> g.Alive (.table m)) :
    (g.setudatamt n mt).Inv := by
  have hwritten : Written g
      (g.setUdata n { g.udata n with metatable := mt }) (.udata n)
      (mt.toList.map .table) := by
    refine written_setUdata ?_
    intro y hy
    simp only [Udata.slots, List.mem_append] at hy ⊢
    rcases hy with hy | hy
    · exact Or.inr hy
    · exact Or.inl (Or.inr hy)
  have hexposed := hwritten.exposed hg hn (by
    intro y hy
    rcases List.mem_map.mp hy with ⟨m, hm, rfl⟩
    exact hmt m (Option.mem_toList.mp hm))
  cases mt with
  | none => exact hexposed.done
  | some m => exact Exposed.objbarrier hexposed

theorem Inv.setudataenv (hg : g.Inv) {n env : Nat} (hn : g.Alive (.udata n))
    (henv : g.Alive (.table env)) : (g.setudataenv n env).Inv := by
  have hwritten : Written g
      (g.setUdata n { g.udata n with env := env }) (.udata n)
      [.table env] := by
    refine written_setUdata ?_
    intro y hy
    simp only [Udata.slots, List.mem_append] at hy ⊢
    rcases hy with hy | hy
    · exact Or.inl (Or.inl hy)
    · exact Or.inr hy
  have hexposed := hwritten.exposed hg hn (by
    intro y hy
    rw [List.mem_singleton.mp hy]
    exact henv)
  exact hexposed.objbarrier

/-!
# Functions
-/

theorem written_setFunction {n : Nat} {cl : Closure} {fresh : List GCObject}
    (hslots : forall y, y ∈ cl.slots -> y ∈ (g.function n).slots ∨ y ∈ fresh) :
    Written g (g.setFunction n cl) (.function n) fresh := by
  refine written_write (x := .function n) rfl cl ?_
  intro y hy
  have hself : (g.setFunction n cl).slots (.function n) = cl.slots := by
    simp only [slots, function_setFunction, if_pos]
  exact hslots y (hself ▸ hy)

theorem Inv.setfenv (hg : g.Inv) {n env : Nat} (hn : g.Alive (.function n))
    (henv : g.Alive (.table env)) : (g.setfenv n env).Inv := by
  have hwritten : Written g
      (g.setFunction n ((g.function n).setEnv env)) (.function n)
      [.table env] := by
    refine written_setFunction ?_
    intro y hy
    cases hf : g.function n with
    | c old upvalue =>
        rw [hf] at hy
        rcases List.mem_cons.mp hy with rfl | hy
        · exact Or.inr List.mem_cons_self
        · exact Or.inl (List.mem_cons_of_mem _ hy)
    | lua old p upvals =>
        rw [hf] at hy
        rcases List.mem_cons.mp hy with rfl | hy
        · exact Or.inr List.mem_cons_self
        · exact Or.inl (List.mem_cons_of_mem _ hy)
  have hexposed := hwritten.exposed hg hn (by
    intro y hy
    rw [List.mem_singleton.mp hy]
    exact henv)
  exact hexposed.objbarrier

theorem mem_gcvalue {v : TValue} {x : GCObject} :
    x ∈ v.gcvalue.toList <-> v.gcvalue = some x := by
  simp

theorem Inv.setcupvalue (hg : g.Inv) {f i : Nat} {v : TValue}
    (hf : g.Alive (.function f))
    (hv : forall x, v.gcvalue = some x -> g.Alive x) :
    (g.setcupvalue f i v).Inv := by
  unfold GlobalState.setcupvalue
  cases hfun : g.function f with
  | lua env p upvals => exact hg
  | c env upvalue =>
      have hwritten : Written g
          (g.setFunction f (.c env (upvalue.set i v))) (.function f)
          v.gcvalue.toList := by
        refine written_setFunction ?_
        intro y hy
        rw [hfun]
        rcases List.mem_cons.mp hy with rfl | hy
        · exact Or.inl List.mem_cons_self
        · rcases mem_referents.mp hy with ⟨w, hw, hgc⟩
          rcases List.mem_or_eq_of_mem_set hw with hold | rfl
          · exact Or.inl (List.mem_cons_of_mem _
              (mem_referents.mpr ⟨w, hold, hgc⟩))
          · exact Or.inr (mem_gcvalue.mpr hgc)
      exact (hwritten.exposed hg hf fun y hy => hv y (mem_gcvalue.mp hy)).barrier

/-!
# Prototypes
-/

structure Proto.Stored (f f' : Proto) (v : TValue) : Prop where
  slots : forall x, x ∈ f'.slots -> x ∈ f.slots ∨ v.gcvalue = some x

theorem written_setProto {n : Nat} {f : Proto} {v : TValue}
    (hstored : Proto.Stored (g.proto n) f v) :
    Written g (g.setProto n f) (.proto n) v.gcvalue.toList := by
  refine written_write (x := .proto n) rfl f ?_
  intro y hy
  have hself : (g.setProto n f).slots (.proto n) = f.slots := by
    simp only [slots, proto_setProto, if_pos]
  exact (hstored.slots y (hself ▸ hy)).imp_right mem_gcvalue.mpr

theorem Inv.storeproto (hg : g.Inv) {n : Nat} {f : Proto} {v : TValue}
    (hn : g.Alive (.proto n)) (hstored : Proto.Stored (g.proto n) f v)
    (hv : forall x, v.gcvalue = some x -> g.Alive x) :
    (g.storeproto n f v).Inv :=
  ((written_setProto hstored).exposed hg hn fun y hy =>
    hv y (mem_gcvalue.mp hy)).barrier

/-- The stores of `lundump.c` that would need a barrier are left out. -/
theorem Inv.undump (hg : g.Inv) {n : Nat} {f : Proto} {v : TValue}
    (hn : g.Alive (.proto n)) (hstored : Proto.Stored (g.proto n) f v)
    (hv : forall x, v.gcvalue = some x -> g.Alive x)
    (hguard : ¬g.Unguarded (.proto n) v) : (g.undump n f).Inv := by
  have hexposed := (written_setProto hstored).exposed hg hn fun y hy =>
    hv y (mem_gcvalue.mp hy)
  have hblack : (g.setProto n f).isblack (.proto n) = g.isblack (.proto n) :=
    rfl
  unfold GlobalState.undump
  cases hproto : g.isblack (.proto n) with
  | false => exact hexposed.notBlack (hblack.trans hproto)
  | true =>
      by_cases hstate : g.gcstate = .propagate
      · cases hgc : v.gcvalue with
        | none =>
            rw [hgc] at hexposed
            exact hexposed.done
        | some o =>
            rw [hgc] at hexposed
            have hwhite : g.iswhite o = false := by
              refine Bool.eq_false_of_not_eq_true fun hwhite => ?_
              refine hguard ⟨hstate, hproto, ?_⟩
              rw [hgc]
              exact hwhite
            have hskip : ((g.setProto n f).iswhite o &&
                (g.setProto n f).isblack (.proto n)) = false := by
              rw [Bool.and_eq_false_iff]
              exact Or.inl hwhite
            exact (hexposed.skip hskip).done
      · exact hexposed.inv fun hs => absurd hs hstate

/-!
# Upvalues
-/

theorem written_setUpval {n : Nat} {old v : TValue}
    (hold : g.upval n = .closed old) :
    Written g (g.setUpval n (.closed v)) (.upval n) v.gcvalue.toList := by
  have hobjs : forall x, x ≠ .upval n ->
      (g.setUpval n (.closed v)).objs x = g.objs x :=
    fun x hx => objs_write_of_ne g (.upval n) _ hx
  have hth : (g.setUpval n (.closed v)).thread = g.thread :=
    funext fun _ => hobjs (.thread _) GCObject.noConfusion
  have hothers : forall y, y ≠ .upval n ->
      (g.setUpval n (.closed v)).slots y = g.slots y := by
    intro y hy
    cases y with
    | string m => rfl
    | upval m =>
        have hm : m ≠ n := fun h => hy (h ▸ rfl)
        simp only [slots, upvalValue, upval_setUpval, if_neg hm, stackAt, hth]
    | thread m => simp only [slots, hth]
    | udata m => simp only [slots, udata, hobjs (.udata m) hy]
    | function m => simp only [slots, function, hobjs (.function m) hy]
    | table m => simp only [slots, table, hobjs (.table m) hy]
    | proto m => simp only [slots, proto, hobjs (.proto m) hy]
  refine ⟨rfl, ⟨fun _ => Iff.rfl, fun _ => rfl, rfl, rfl, rfl, rfl, rfl, ?_, ?_,
    ?_⟩, ?_, fun _ y hy _ => Or.inr fun z hz => hothers y hy ▸ hz⟩
  · intro m th l
    rw [upval_setUpval]
    split
    · rename_i hm
      rw [hm, hold]
      exact ⟨UpVal.noConfusion, UpVal.noConfusion⟩
    · exact Iff.rfl
  · intro th
    rw [hth]
  · intro m th l _ _ hl
    rw [hth]
    exact hl
  · intro y z hz
    by_cases hy : y = .upval n
    · right
      subst hy
      simpa [slots, upvalValue, upval_setUpval, referents] using hz
    · rw [hothers y hy] at hz
      exact Or.inl hz

theorem Inv.pendingThread (hg : g.Inv) (hstate : g.gcstate = .propagate)
    {th : Nat} (hth : g.Dark (.thread th)) : g.Pending (.thread th) := by
  rcases dark_cases hth with hgray | hblack
  · rcases (hg.propagating hstate).lists.grays _ hgray with
      hlist | ⟨n, hn, _⟩ | ⟨n, hn⟩
    · exact Or.inl hlist
    · cases hn
    · cases hn
  · cases hg.colors.black _ hblack

/-- The slot of an open upvalue, whose thread may be dead. -/
theorem written_setSlot (hg : g.Inv) {n th l : Nat} {v : TValue}
    (halloc : g.Allocated (.upval n)) (hup : g.upval n = .opened th l) :
    Written g (g.setStack th ((g.thread th).stack.set l v)) (.upval n)
      v.gcvalue.toList := by
  rcases hg.upvals.opened n th l halloc hup with ⟨hth, _⟩
  have hslots : forall y z,
      z ∈ (g.setStack th ((g.thread th).stack.set l v)).slots y ->
        z ∈ g.slots y ∨
          z ∈ v.gcvalue.toList ∧ (y = .thread th ∨ g.OpenUpval y) := by
    intro y z hz
    rcases mem_slots_setStack th _ hz with
      hold | ⟨rfl, hnew⟩ | ⟨m, k, rfl, hm, hnew⟩
    · exact Or.inl hold
    · rcases mem_referents.mp hnew with ⟨w, hw, hgc⟩
      rcases List.mem_or_eq_of_mem_set hw with hold | rfl
      · exact Or.inl (mem_referents.mpr ⟨w, List.mem_cons_of_mem _ hold, hgc⟩)
      · exact Or.inr ⟨mem_gcvalue.mpr hgc, Or.inl rfl⟩
    · rcases referents_getElem? hnew with ⟨w, hget, hgc⟩
      rw [List.getElem?_set] at hget
      split at hget
      · split at hget
        · cases hget
          exact Or.inr ⟨mem_gcvalue.mpr hgc, Or.inr (openUpval_of_opened hm)⟩
        · cases hget
      · left
        refine mem_referents.mpr ⟨w, ?_, hgc⟩
        simp [upvalValue, hm, stackAt, hget]
  refine ⟨rfl, sameLinks_setStack hg.upvals hth ?_, ?_, ?_⟩
  · intro m hm
    rcases hg.upvals.listed th m hth hm with ⟨_, l', hup', hl⟩
    unfold level
    rw [hup', List.length_set]
    exact hl
  · intro y z hz
    exact (hslots y z hz).imp_right And.left
  · intro hstate y _ hdark
    by_cases hopen : g.OpenUpval y
    · exact Or.inl (Or.inr (Or.inl hopen))
    · by_cases hy : y = .thread th
      · rw [hy] at hdark ⊢
        exact Or.inl (hg.pendingThread hstate hdark)
      · right
        intro z hz
        refine (hslots y z hz).resolve_right ?_
        intro hup
        rcases hup with ⟨_, hyt | hup⟩
        · exact hy hyt
        · exact hopen hup

theorem Inv.exposedUpvalue (hg : g.Inv) {n : Nat} {v : TValue}
    (hn : g.Alive (.upval n))
    (hv : forall x, v.gcvalue = some x -> g.Alive x) :
    Exposed (g.setupvalue n v) (.upval n) v.gcvalue.toList := by
  have hfresh : forall y, y ∈ v.gcvalue.toList -> g.Alive y :=
    fun y hy => hv y (mem_gcvalue.mp hy)
  unfold setupvalue
  cases hup : g.upval n with
  | closed old => exact (written_setUpval hup).exposed hg hn hfresh
  | opened th l => exact (written_setSlot hg hn.1 hup).exposed hg hn hfresh

theorem Inv.opSetupval (hg : g.Inv) {n : Nat} {v : TValue}
    (hn : g.Alive (.upval n))
    (hv : forall x, v.gcvalue = some x -> g.Alive x) :
    (g.opSetupval n v).Inv := (hg.exposedUpvalue hn hv).barrier

theorem marked_setupvalue (n : Nat) (v : TValue) :
    (g.setupvalue n v).marked = g.marked := by
  unfold setupvalue
  cases g.upval n with
  | closed old => rfl
  | opened th l => rfl

theorem gcstate_setupvalue (n : Nat) (v : TValue) :
    (g.setupvalue n v).gcstate = g.gcstate := by
  unfold setupvalue
  cases g.upval n with
  | closed old => rfl
  | opened th l => rfl

/--
`lua_setupvalue` puts the barrier on the function.  When the upvalue is black
this is of use only if the function is black too.
-/
theorem Inv.luaSetupvalue (hg : g.Inv) {f n : Nat} {v : TValue}
    (hf : g.Alive (.function f)) (hn : g.Alive (.upval n))
    (hv : forall x, v.gcvalue = some x -> g.Alive x)
    (hbarrier : ¬g.Unbarriered f n v) : (g.luaSetupvalue f n v).Inv := by
  have hexposed := hg.exposedUpvalue hn hv
  have hcolor : forall x, (g.setupvalue n v).color? x = g.color? x :=
    fun x => color?_eq_of_marked (marked_setupvalue n v)
  have hcurrent : (g.setupvalue n v).currentwhite = g.currentwhite := by
    unfold setupvalue
    cases g.upval n with
    | closed old => rfl
    | opened th l => rfl
  have hfalive : (g.setupvalue n v).Alive (.function f) := by
    unfold Alive Allocated isdead
    rw [hcolor, hcurrent, marked_setupvalue]
    exact hf
  have hgcstate := g.gcstate_setupvalue n v
  unfold GlobalState.luaSetupvalue
  generalize g.setupvalue n v = s at hexposed hcolor hfalive hgcstate ⊢
  have hplain : s.Inv -> (s.barrier (.function f) v).Inv :=
    fun hs => (hs.exposed hfalive _).barrier
  cases hup : s.isblack (.upval n) with
  | false => exact hplain (hexposed.notBlack hup)
  | true =>
      by_cases hstate : s.gcstate = .propagate
      · unfold GlobalState.barrier
        cases hgc : v.gcvalue with
        | none =>
            rw [hgc] at hexposed
            exact hexposed.done
        | some o =>
            rw [hgc] at hexposed
            cases hfblack : s.isblack (.function f) with
            | true =>
                rcases objbarrier_marks (o := o) hstate hfblack with
                  ⟨hmarks, hdark⟩
                exact (hexposed.marks hstate hmarks hdark).done
            | false =>
                have hwhite : s.iswhite o = false := by
                  rw [isblack_eq_of_color? (hcolor _)] at hup hfblack
                  rw [iswhite_eq_of_color? (hcolor o)]
                  refine Bool.eq_false_of_not_eq_true fun hwhite => ?_
                  refine hbarrier ⟨hgcstate ▸ hstate, hup, hfblack, ?_⟩
                  rw [hgc]
                  exact hwhite
                have hsame : s.objbarrier (.function f) o = s := by
                  unfold GlobalState.objbarrier
                  rw [hwhite]
                  rfl
                simp only
                rw [hsame]
                refine (hexposed.skip ?_).done
                rw [hwhite]
                rfl
      · exact hplain (hexposed.inv fun hs => absurd hs hstate)

/-- Otherwise a black upvalue refers to a white object after the store. -/
theorem Unbarriered.exposed {f n : Nat} {v : TValue}
    (h : g.Unbarriered f n v) (hg : g.Colors) :
    (g.luaSetupvalue f n v).gcstate = .propagate ∧
      (g.luaSetupvalue f n v).isblack (.upval n) = true ∧
        exists x, x ∈ (g.luaSetupvalue f n v).slots (.upval n) ∧
          (g.luaSetupvalue f n v).iswhite x = true := by
  rcases h with ⟨hstate, hblack, hfblack, hwhite⟩
  cases hgc : v.gcvalue with
  | none =>
      rw [hgc] at hwhite
      cases hwhite
  | some x =>
      rw [hgc] at hwhite
      cases hup : g.upval n with
      | opened th l =>
          have hopen : g.isOpened n = true := by
            unfold isOpened
            rw [hup]
          rw [hg.opened hopen] at hblack
          cases hblack
      | closed old =>
          -- the barrier sees a function that is not black
          have hstore : g.luaSetupvalue f n v = g.setUpval n (.closed v) := by
            unfold GlobalState.luaSetupvalue setupvalue barrier objbarrier
            rw [hup, hgc]
            simp only
            rw [if_neg]
            intro hneeded
            have hf := (Bool.and_eq_true _ _ ▸ hneeded).2
            exact absurd (hf.symm.trans hfblack) Bool.noConfusion
          rw [hstore]
          refine ⟨hstate, hblack, x, ?_, hwhite⟩
          simp [slots, upvalValue, upval_setUpval, referents, hgc]

/-!
# Roots
-/

theorem Inv.reroot (hg : g.Inv) (running : Nat) (mt : LuaType -> Option Nat)
    (hroots : forall x, x ∈ ({ g with running := running, mt := mt }).roots ->
      g.Alive x) : Inv { g with running := running, mt := mt } where
  closed := ⟨hg.closed.slots, hroots, hg.closed.due⟩
  linked := { hg.linked with }
  upvals := { hg.upvals with }
  colors := { hg.colors with }
  propagating := fun hstate => { hg.propagating hstate with
    lists := { (hg.propagating hstate).lists with } }
  swept := hg.swept

theorem Inv.switch (hg : g.Inv) {th : Nat} (hth : g.Alive (.thread th)) :
    (g.switch th).Inv := by
  refine hg.reroot th g.mt ?_
  intro x hx
  rcases List.mem_append.mp hx with hx | hx
  · rcases List.mem_append.mp hx with hx | hx
    · rcases List.mem_cons.mp hx with rfl | hx
      · exact hg.closed.roots _ List.mem_cons_self
      · rw [List.mem_singleton.mp hx]
        exact hth
    · exact hg.closed.roots _
        (List.mem_append_left _ (List.mem_append_right _ hx))
  · exact hg.closed.roots _ (List.mem_append_right _ hx)

theorem Inv.settypemt (hg : g.Inv) (ty : LuaType) {mt : Option Nat}
    (hmt : forall m, mt = some m -> g.Alive (.table m)) :
    (g.settypemt ty mt).Inv := by
  refine hg.reroot g.running
    (fun ty' => if ty' = ty then mt else g.mt ty') ?_
  intro x hx
  rcases List.mem_append.mp hx with hx | hx
  · exact hg.closed.roots _ (List.mem_append_left _ hx)
  · rcases List.mem_filterMap.mp hx with ⟨ty', hty, hsome⟩
    simp only at hsome
    split at hsome
    · rcases Option.map_eq_some_iff.mp hsome with ⟨m, hm, rfl⟩
      exact hmt m hm
    · refine hg.closed.roots _ (List.mem_append_right _ ?_)
      exact List.mem_filterMap.mpr ⟨ty', hty, hsome⟩

theorem mem_slots_setGlobals (th : Nat) (v : TValue) {y z : GCObject}
    (hz : z ∈ (g.setGlobals th v).slots y) :
    z ∈ g.slots y ∨ y = .thread th ∧ z ∈ v.gcvalue.toList := by
  have hobjs : forall x, x ≠ .thread th ->
      (g.setGlobals th v).objs x = g.objs x :=
    fun x hx => objs_write_of_ne g (.thread th) _ hx
  have hthread : forall n, (g.setGlobals th v).thread n =
      if n = th then { g.thread th with globals := v } else g.thread n :=
    fun n => g.thread_setThread th n _
  have hstack : forall n l, (g.setGlobals th v).stackAt n l = g.stackAt n l := by
    intro n l
    unfold stackAt
    rw [hthread]
    split
    · rename_i hn
      rw [hn]
    · rfl
  have hup : (g.setGlobals th v).upval = g.upval :=
    funext fun n => hobjs (.upval n) GCObject.noConfusion
  cases y with
  | string n => cases hz
  | udata n =>
      left
      simpa only [slots, udata, hobjs (.udata n) GCObject.noConfusion] using hz
  | function n =>
      left
      simpa only [slots, function, hobjs (.function n) GCObject.noConfusion]
        using hz
  | table n =>
      left
      simpa only [slots, table, hobjs (.table n) GCObject.noConfusion] using hz
  | proto n =>
      left
      simpa only [slots, proto, hobjs (.proto n) GCObject.noConfusion] using hz
  | upval n =>
      left
      simp only [slots, upvalValue, hup, hstack] at hz ⊢
      exact hz
  | thread n =>
      simp only [slots, hthread] at hz ⊢
      split at hz
      · rename_i hn
        rw [hn]
        rcases mem_referents.mp hz with ⟨w, hw, hgc⟩
        rcases List.mem_cons.mp hw with rfl | hw
        · exact Or.inr ⟨rfl, mem_gcvalue.mpr hgc⟩
        · exact Or.inl (mem_referents.mpr ⟨w, List.mem_cons_of_mem _ hw, hgc⟩)
      · exact Or.inl hz

theorem Inv.setGlobals (hg : g.Inv) {th : Nat} {v : TValue}
    (hth : g.Alive (.thread th))
    (hv : forall x, v.gcvalue = some x -> g.Alive x) :
    (g.setGlobals th v).Inv := by
  have hthread : forall n, (g.setGlobals th v).thread n =
      if n = th then { g.thread th with globals := v } else g.thread n :=
    fun n => g.thread_setThread th n _
  have hup : (g.setGlobals th v).upval = g.upval :=
    funext fun n => objs_write_of_ne g (.thread th) _ GCObject.noConfusion
  have hwritten : Written g (g.setGlobals th v) (.thread th)
      v.gcvalue.toList := by
    refine ⟨rfl, ⟨fun _ => Iff.rfl, fun _ => rfl, rfl, rfl, rfl, rfl, rfl, ?_,
      ?_, ?_⟩, ?_, ?_⟩
    · intro n t l
      rw [hup]
    · intro t
      rw [hthread]
      split
      · rename_i ht
        rw [ht]
      · rfl
    · intro n t l _ _ hl
      rw [hthread]
      split
      · rename_i ht
        rw [← ht]
        exact hl
      · exact hl
    · intro y z hz
      exact (mem_slots_setGlobals th v hz).imp_right And.right
    · intro _ y hy _
      right
      intro z hz
      exact (mem_slots_setGlobals th v hz).resolve_right fun h => hy h.1
  have hexposed := hwritten.exposed hg hth fun y hy => hv y (mem_gcvalue.mp hy)
  refine hexposed.notBlack ?_
  cases hblack : (g.setGlobals th v).isblack (.thread th) with
  | false => rfl
  | true => cases (hwritten.colors hg.colors).black _ hblack

end GlobalState
end Gc
end LuaServer
