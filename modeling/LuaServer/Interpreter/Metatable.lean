import LuaServer.Interpreter.Suspended

/-!
# The metatable of light userdata

Two places of the Lua state hold the metatable of sockets: the field of the
registry that the check compares with, and the metatable of all light userdata.
Each call in progress writes first the one and then the other, and a finalizer
that `lua_newtable` runs may start another call between its look at the field and
its write.
-/

namespace LuaServer

open Library

/-!
# Places
-/

namespace Frame

def isCreating (fr : Frame) : Bool :=
  match fr.code, fr.stack with
  | .testNil _ :: _, .nil :: _ => true
  | .pop :: _, _ => true
  | .newtable :: _, _ => true
  | .pushvalue :: _, _ => true
  | .setregistry _ :: _, _ => true
  | _, _ => false

/-- A table in the hands of a call is new, or it is the registered one. -/
def OwnTable (fr : Frame) (L : LuaState) (m : Nat) : Prop :=
  L.Own m ∧
    if fr.isCreating then L.mt .lightuserdata ≠ some m
    else L.registryField socketDataName = .table m

/-- The place of a call in progress with what it knows of its table. -/
def Places (fr : Frame) (L : LuaState) (allowed : Ptr -> Prop) : Prop :=
  Position (fr.OwnTable L) (Visible allowed L.registry) (.block fr.issue.addr)
    fr.code fr.stack

end Frame

/-- What a step of a call in progress does to the two places. -/
inductive MetaChange (L : LuaState) (fr : Frame) (L' : LuaState)
    (fr' : Frame) : Prop where
  | kept :
      L'.mt = L.mt ->
      L'.registryField socketDataName = L.registryField socketDataName ->
      fr'.code ≠ [] ->
      (fr'.isCreating = true -> fr.isCreating = true ∨
        L.registryField socketDataName = .nil) ->
      MetaChange L fr L' fr'
  | registered {m : Nat} :
      (exists rest, fr.code = .setregistry socketDataName :: rest) ->
      L'.mt = L.mt -> L.mt .lightuserdata ≠ some m ->
      L'.registryField socketDataName = .table m -> fr'.code ≠ [] ->
      fr'.isCreating = false -> MetaChange L fr L' fr'
  | shared {m : Nat} :
      L.Own m -> L'.mt .lightuserdata = some m ->
      L'.registryField socketDataName = .table m ->
      L.registryField socketDataName = .table m ->
      fr.isCreating = false -> fr'.code = [] -> fr'.isCreating = false ->
      MetaChange L fr L' fr'

section Places

variable {L L' : LuaState} {allowed allowed' : Ptr -> Prop} {fr fr' : Frame}

theorem Frame.Places.at (h : fr.Places L allowed) : fr.At L allowed :=
  h.mono (fun _ hm => hm.1) fun _ hv => hv

theorem registryField_newTable (hreg : L.Registers) (name : LuaString) :
    L.newTable.1.registryField name = L.registryField name :=
  LuaState.registryField_of_table hreg.registry_newTable

theorem mt_setmetatable {p : Ptr} {m : Option Nat} :
    (L.setmetatable (.lightuserdata p) m).mt .lightuserdata = m := by
  simp [LuaState.setmetatable, Value.ttype]

theorem MetaChange.moved (hcode : fr'.code ≠ [])
    (h : fr'.isCreating = false ∨ fr.isCreating = true) :
    MetaChange L fr L fr' := by
  refine .kept rfl rfl hcode ?_
  intro hcreating
  rcases h with hnot | hbefore
  · rw [hnot] at hcreating
    cases hcreating
  · exact Or.inl hbefore

theorem FieldStored.metaChange {m : Nat} {key v : Value}
    (h : FieldStored L m key v L') (hcode : fr'.code ≠ [])
    (hcreating : fr'.isCreating = false) : MetaChange L fr L' fr' := by
  refine .kept h.mt h.registryField hcode ?_
  intro htrue
  rw [hcreating] at htrue
  cases htrue

theorem api_places {result : Value} (hL : L.Confines allowed)
    (hreg : L.Registers)
    (hmt : forall m, L.mt .lightuserdata = some m -> m < L.nextTable)
    (hfr : fr.Places L allowed) (h : apiStep L fr result = some (L', fr')) :
    MetaChange L fr L' fr' ∧ fr'.Places L' allowed := by
  rcases fr with ⟨caller, issue, code, stack⟩
  unfold Frame.Places at hfr
  simp only at hfr
  cases hfr with
  | start =>
      cases h
      exact ⟨.moved (fun hnil => nomatch hnil) (Or.inl rfl), .pushed⟩
  | pushed =>
      cases h
      rcases hreg.socket with hnil | ⟨m, hm, hown⟩
      · refine ⟨.kept rfl rfl (fun hcode => nomatch hcode)
          fun _ => Or.inr hnil, ?_⟩
        rw [hnil]
        exact .missing
      · rw [hm]
        exact ⟨.moved (fun hnil => nomatch hnil) (Or.inl rfl),
          .found ⟨hown, hm⟩⟩
  | missing =>
      cases h
      exact ⟨.moved (fun hnil => nomatch hnil) (Or.inr rfl), .creating⟩
  | found hown =>
      cases h
      exact ⟨.moved (fun hnil => nomatch hnil) (Or.inl rfl), .ready hown⟩
  | creating =>
      cases h
      exact ⟨.moved (fun hnil => nomatch hnil) (Or.inr rfl), .popped⟩
  | popped =>
      cases h
      refine ⟨.kept rfl (registryField_newTable hreg _) (fun hnil => nomatch hnil)
        fun _ => Or.inl rfl, .made ⟨hreg.own_newTable, ?_⟩⟩
      intro heq
      exact Nat.lt_irrefl _ (hmt _ heq)
  | made hown =>
      cases h
      exact ⟨.moved (fun hnil => nomatch hnil) (Or.inr rfl), .copied hown⟩
  | @copied m hown =>
      cases h
      have hfield : (L.rawset L.registry (.string socketDataName)
          (.table m)).registryField socketDataName = .table m := by
        rw [LuaState.registryField_rawset, if_pos rfl]
      exact ⟨.registered ⟨_, rfl⟩ rfl hown.2 hfield (fun hnil => nomatch hnil) rfl,
        .ready ⟨hown.1.extends (.of_eq rfl rfl rfl), hfield⟩⟩
  | ready hown =>
      rcases api_getglobal hL rfl h with ⟨rfl, v, hv, rfl⟩
      exact ⟨.moved (fun hnil => nomatch hnil) (Or.inl rfl), .fetched hown hv⟩
  | fetched hown hv =>
      rcases api_setfield hL hown.1.ne_registry rfl rfl h with ⟨hstored, rfl⟩
      refine ⟨hstored.metaChange (fun hnil => nomatch hnil) rfl, .indexed ⟨?_, ?_⟩⟩
      · exact hown.1.extends (hstored.change hv).extends
      · exact hstored.registryField.trans hown.2
  | indexed hown =>
      cases h
      exact ⟨.moved (fun hnil => nomatch hnil) (Or.inl rfl), .handler hown⟩
  | handler hown =>
      rcases api_setfield hL hown.1.ne_registry rfl rfl h with ⟨hstored, rfl⟩
      refine ⟨hstored.metaChange (fun hnil => nomatch hnil) rfl,
        .finishing ⟨?_, ?_⟩⟩
      · have hchange := @FieldStored.change _ _ allowed _ _ _ hstored trivial
        exact hown.1.extends hchange.extends
      · exact hstored.registryField.trans hown.2
  | finishing hown =>
      cases h
      exact ⟨.shared hown.1 mt_setmetatable hown.2 hown.2 rfl rfl rfl, .done⟩
  | done => cases h

end Places

/-!
# The other steps
-/

/-- What the steps that are no step of a pending call leave as it is. -/
structure LuaState.KeepsMetas (L L' : LuaState) : Prop where
  mt : L'.mt = L.mt
  registryField : L'.registryField socketDataName =
    L.registryField socketDataName
  extension : L.Extends L'

def LuaState.KeepsPlain (L L' : LuaState) : Prop :=
  forall t, (L.tables t).metatable = none -> L'.tables t = L.tables t

section Keeping

variable {L L' L'' : LuaState} {allowed : Ptr -> Prop}

theorem LuaState.KeepsMetas.trans (h : L.KeepsMetas L')
    (h' : L'.KeepsMetas L'') : L.KeepsMetas L'' where
  mt := h'.mt.trans h.mt
  registryField := h'.registryField.trans h.registryField
  extension := h.extension.trans h'.extension

theorem LuaState.KeepsPlain.trans (h : L.KeepsPlain L')
    (h' : L'.KeepsPlain L'') : L.KeepsPlain L'' := by
  intro t ht
  have hfirst := h t ht
  rw [h' t (hfirst ▸ ht), hfirst]

theorem scriptChange_keepsMetas (h : L.Registers)
    (hchange : LuaState.ScriptChange L allowed L') : L.KeepsMetas L' :=
  ⟨hchange.mt, LuaState.registryField_of_table (hchange.registry h),
    hchange.extends⟩

theorem keeps_of_tables (hmt : L'.mt = L.mt) (htables : L'.tables = L.tables)
    (hext : L.Extends L') : L.KeepsMetas L' ∧ L.KeepsPlain L' := by
  refine ⟨⟨hmt, LuaState.registryField_of_table ?_, hext⟩, ?_⟩
  · rw [htables, hext.registry]
  · intro t _
    rw [htables]

theorem withStack_keeps (stack : List Value) :
    L.KeepsMetas { L with stack := stack } ∧
      L.KeepsPlain { L with stack := stack } :=
  keeps_of_tables rfl rfl (.of_eq rfl rfl rfl)

theorem sameHeap_keeps (h : LuaState.SameHeap L L') :
    L.KeepsMetas L' ∧ L.KeepsPlain L' :=
  keeps_of_tables h.mt h.tables h.extends

theorem fullgc_keeps (h : L.Registers) (extra : List Value) :
    L.KeepsMetas (L.fullgc extra) ∧ L.KeepsPlain (L.fullgc extra) := by
  rcases L.fullgc_eq extra with ⟨white, black, hgc⟩
  rw [hgc]
  have hsame := @LuaState.sameHeap_separateudata L white false
  have hfirst := sameHeap_keeps hsame
  have hplain : (L.separateudata white false).KeepsPlain
      (((L.separateudata white false).cleartable black).sweepudata black) :=
    fun t ht => LuaState.cleartable_plain black ht
  have hmetas : (L.separateudata white false).KeepsMetas
      (((L.separateudata white false).cleartable black).sweepudata black) :=
    ⟨rfl, LuaState.registryField_of_table
      (hplain _ (hsame.registers h).plain), .of_eq rfl rfl rfl⟩
  exact ⟨hfirst.1.trans hmetas, hfirst.2.trans hplain⟩

end Keeping

/-- How the calls in progress change in a step that is none of theirs. -/
inductive FramesChange (w : World) : List Frame -> Prop where
  | kept : FramesChange w w.frames
  | started {f : CFunction} {i : Issue} :
      w.canRunLua = true -> FramesChange w (initialFrame f i :: w.frames)
  | ended {fr : Frame} {rest : List Frame} :
      w.frames = fr :: rest -> FramesChange w rest

/-- Every step but the last is one of a call in progress or changes neither place. -/
inductive MetaStep (w : World) (a : Action) (w' : World) : Prop where
  | other :
      w.lua.KeepsMetas w'.lua ->
      (exists p, a = .script p) ∨ w.lua.KeepsPlain w'.lua ->
      FramesChange w w'.frames -> MetaStep w a w'
  | call {result : Value} {fr fr' : Frame} {rest : List Frame} :
      a = .api result -> w.frames = fr :: rest -> w'.frames = fr' :: rest ->
      apiStep w.lua fr result = some (w'.lua, fr') -> w'.log = w.log ->
      w'.phase = w.phase -> MetaStep w a w'
  | closed :
      w'.phase = .closed -> w'.frames = [] ->
      w'.lua.mt .lightuserdata = none -> MetaStep w a w'

section Steps

variable {plat : Platform} {w w' : World} {a : Action}

theorem performCall_metas {c : Invocation}
    (hadm : c.env.admissible plat c.start = true)
    (hstart : c.start.frames = w.frames) (hrun : w.canRunLua = true) :
    (c.start.lua.KeepsMetas (c.start.performCall plat c.entry c.args c.env).lua ∧
      c.start.lua.KeepsPlain
        (c.start.performCall plat c.entry c.args c.env).lua) ∧
      FramesChange w
        (c.start.performCall plat c.entry c.args c.env).frames := by
  rcases performCall_lua hadm with ⟨vs, hlua, _, hframes⟩
  constructor
  · rw [hlua]
    exact withStack_keeps _
  · rcases hframes with hkept | ⟨i, hstarted⟩
    · rw [hkept, hstart]
      exact .kept
    · rw [hstarted, hstart]
      exact .started hrun

theorem gctm_metas {env : Env} (hrun : w.canRunLua = true)
    (hstep : w.gctm plat env = some w') : MetaStep w a w' := by
  have htaken : forall {L u tm}, w.lua.takeDue = some (L, u, tm) ->
      w.lua.KeepsMetas L ∧ w.lua.KeepsPlain L := fun hdue =>
    sameHeap_keeps (LuaState.sameHeap_takeDue hdue)
  cases gctm_inv hstep with
  | nothing hdue => exact .other (htaken hdue).1 (Or.inr (htaken hdue).2) .kept
  | @called L u f _ hdue hadm =>
      rcases @performCall_metas plat w
        ⟨.call f, [.userdata u], env, { w with lua := L }⟩ hadm rfl hrun with
        ⟨hcall, hframes⟩
      exact .other ((htaken hdue).1.trans hcall.1)
        (Or.inr ((htaken hdue).2.trans hcall.2)) hframes
  | handedOver hdue =>
      exact .other ((htaken hdue).1.trans (withStack_keeps _).1)
        (Or.inr ((htaken hdue).2.trans (withStack_keeps _).2)) .kept

theorem step_metas (h : w.Confined) (hstep : step plat w a = some w') :
    MetaStep w a w' := by
  cases a with
  | script p =>
      simp only [step] at hstep
      split at hstep
      · rcases Option.map_eq_some_iff.mp hstep with ⟨L, hL, rfl⟩
        have hchange := LuaState.scriptStep_change h.values
          (Or.inr (Or.inl rfl)) hL
        exact .other (scriptChange_keepsMetas h.registers hchange)
          (Or.inl ⟨p, rfl⟩) .kept
      · cases hstep
  | call f args env =>
      simp only [step, Bool.and_eq_true] at hstep
      split at hstep
      · rename_i hcond
        cases hstep
        rcases @performCall_metas plat w ⟨.call f, args, env, w⟩ hcond.2 rfl
          hcond.1.1.1 with ⟨hcall, hframes⟩
        exact .other hcall.1 (Or.inr hcall.2) hframes
      · cases hstep
  | apiArgs =>
      simp only [step] at hstep
      split at hstep
      · split at hstep
        · cases hstep
        · cases hstep
          exact .other (withStack_keeps _).1 (Or.inr (withStack_keeps _).2) .kept
      · cases hstep
  | api result =>
      rcases api_inv hstep with
        ⟨fr, rest, hframes, ⟨hcode, rfl⟩ | ⟨L, fr', hapi, rfl⟩⟩
      · exact .other (withStack_keeps _).1 (Or.inr (withStack_keeps _).2)
          (.ended hframes)
      · exact .call rfl hframes rfl hapi rfl rfl
  | apiRaise e =>
      rcases apiRaise_inv hstep with ⟨fr, rest, hframes, rfl⟩
      exact .other ⟨rfl, rfl, .refl _⟩ (Or.inr fun _ _ => rfl) (.ended hframes)
  | resume env =>
      rcases resume_inv hstep with ⟨halive, hpause, p, rest, _, hadm, rfl⟩
      rcases @performCall_metas plat w
        ⟨.resume p.point, p.args, env, { w with paused := rest }⟩ hadm rfl
        (canRunLua_of_inPause halive hpause) with ⟨hcall, hframes⟩
      exact .other hcall.1 (Or.inr hcall.2) hframes
  | pausedRaise e =>
      rcases pausedRaise_inv hstep with ⟨_, p, rest, _, rfl⟩
      exact .other ⟨rfl, rfl, .refl _⟩ (Or.inr fun _ _ => rfl) .kept
  | collect =>
      simp only [step] at hstep
      split at hstep
      · cases hstep
        have hkeeps := fullgc_keeps h.registers w.callValues
        exact .other hkeeps.1 (Or.inr hkeeps.2) .kept
      · cases hstep
  | gctm env =>
      simp only [step] at hstep
      split at hstep
      · rename_i hrun
        exact gctm_metas hrun hstep
      · cases hstep
  | exit =>
      simp only [step] at hstep
      split at hstep
      · cases hstep
        have hkeeps := (@withStack_keeps w.lua [])
        have hsame := sameHeap_keeps (@LuaState.sameHeap_separateudata
          { w.lua with stack := [] } (fun _ => true) true)
        rw [← exit_lua] at hsame
        refine .other (hkeeps.1.trans hsame.1) (Or.inr (hkeeps.2.trans hsame.2))
          ?_
        rw [exit_frames]
        exact .kept
      · cases hstep
  | closeState =>
      simp only [step, Bool.and_eq_true, decide_eq_true_eq] at hstep
      split at hstep
      · rename_i hcond
        cases hstep
        exact .closed rfl hcond.1.1.1.2 rfl
      · cases hstep

end Steps

/-!
# The invariant
-/

namespace World

/-- Calls in progress and the two places fit together. -/
structure MetasSound (w : World) : Prop where
  mt_lt : forall m, w.lua.mt .lightuserdata = some m -> m < w.lua.nextTable
  places : forall fr, fr ∈ w.frames -> fr.Places w.lua w.allowed
  suspended : forall fr, fr ∈ w.frames.tail -> fr.runsLua = true
  nested : w.frames.Pairwise fun above below =>
    above.isCreating = true -> below.isCreating = true
  pauses : w.PausesSound

end World

section Invariant

variable {plat : Platform} {w w' : World} {a : Action}
variable {L L' : LuaState} {allowed allowed' : Ptr -> Prop} {fr : Frame}

theorem Frame.Places.keeps (h : fr.Places L allowed) (hkeeps : L.KeepsMetas L')
    (himp : forall p, allowed p -> allowed' p) : fr.Places L' allowed' := by
  apply h.mono
  · rintro m ⟨hown, hwhere⟩
    refine ⟨hown.extends hkeeps.extension, ?_⟩
    rw [hkeeps.mt, hkeeps.registryField]
    exact hwhere
  · intro v hv
    rw [hkeeps.extension.registry]
    exact hv.mono himp

/-- A suspended call that creates a metatable is in `lua_newtable`, with no table yet. -/
theorem Frame.Places.of_suspended {x : Frame} (h : x.Places L allowed)
    (hruns : x.runsLua = true) (hcreating : x.isCreating = true)
    (hregistry : L'.registry = L.registry) : x.Places L' allowed := by
  rcases x with ⟨caller, issue, code, stack⟩
  unfold Frame.Places at h ⊢
  simp only at h ⊢
  rw [hregistry]
  cases h with
  | popped => exact .popped
  | start | pushed | ready | fetched | indexed | handler | finishing | done
  | found => cases hcreating
  | missing | creating | made | copied => cases hruns

/-- Without a registered metatable a suspended call is creating one. -/
theorem Frame.Places.creating_of_nil {x : Frame} (h : x.Places L allowed)
    (hruns : x.runsLua = true)
    (hnil : L.registryField socketDataName = .nil) : x.isCreating = true := by
  rcases x with ⟨caller, issue, code, stack⟩
  unfold Frame.Places at h
  simp only at h
  cases h with
  | popped => rfl
  | start | pushed | missing | found | creating | made | copied | finishing
  | done => cases hruns
  | ready hown | fetched hown | indexed hown | handler hown =>
      have hfield := hown.2.symm.trans hnil
      cases hfield

theorem isCreating_of_setregistry {name : LuaString} {rest : List ApiCall}
    (h : fr.code = .setregistry name :: rest) : fr.isCreating = true := by
  unfold Frame.isCreating
  rw [h]

theorem mem_tail {fr : Frame} {frames : List Frame} (h : fr ∈ frames.tail) :
    fr ∈ frames := List.mem_of_mem_tail h

theorem World.MetasSound.runsLua (h : w.MetasSound) (hrun : w.canRunLua = true)
    {x : Frame} (hx : x ∈ w.frames) : x.runsLua = true :=
  h.pauses.runsLua h.suspended hrun x hx

theorem World.MetasSound.started {f : CFunction} {i : Issue}
    (h : w.MetasSound) :
    (initialFrame f i :: w.frames).Pairwise fun above below =>
      above.isCreating = true -> below.isCreating = true := by
  rw [List.pairwise_cons]
  refine ⟨?_, h.nested⟩
  intro x _ hcreating
  cases hcreating

theorem metasSound_other (h : w.MetasSound)
    (hlog : forall e, e ∈ w.log -> e ∈ w'.log)
    (hkeeps : w.lua.KeepsMetas w'.lua) (hframes : FramesChange w w'.frames)
    (hpauses : w'.PausesSound) : w'.MetasSound := by
  have hold : forall x, x ∈ w.frames -> x.Places w'.lua w'.allowed := fun x hx =>
    (h.places x hx).keeps hkeeps fun p => World.allowed_mono hlog
  have hlt : forall m, w'.lua.mt .lightuserdata = some m ->
      m < w'.lua.nextTable := by
    intro m hm
    rw [hkeeps.mt] at hm
    exact Nat.lt_of_lt_of_le (h.mt_lt m hm) hkeeps.extension.nextTable
  generalize hfs : w'.frames = frames at hframes
  cases hframes with
  | kept =>
      exact ⟨hlt, hfs ▸ hold, hfs ▸ h.suspended, hfs ▸ h.nested, hpauses⟩
  | started hrun =>
      refine ⟨hlt, ?_, ?_, by rw [hfs]; exact h.started, hpauses⟩
      · rw [hfs]
        intro x hx
        rcases List.mem_cons.mp hx with rfl | hx
        · exact .start
        · exact hold x hx
      · rw [hfs]
        exact fun x hx => h.runsLua hrun hx
  | ended hcons =>
      have hsuspended := h.suspended
      have hnested := h.nested
      rw [hcons] at hsuspended hnested
      refine ⟨hlt, ?_, ?_, hfs ▸ (List.pairwise_cons.mp hnested).2, hpauses⟩
      · rw [hfs]
        intro x hx
        exact hold x (by rw [hcons]; exact List.mem_cons_of_mem _ hx)
      · rw [hfs]
        intro x hx
        exact hsuspended x (mem_tail hx)

theorem api_registers {fr' : Frame} {result : Value} {name : LuaString}
    {rest : List ApiCall} (hfr : fr.Places L allowed)
    (hcode : fr.code = .setregistry name :: rest)
    (h : apiStep L fr result = some (L', fr')) :
    exists m, L.mt .lightuserdata ≠ some m ∧ L'.mt = L.mt ∧
      L'.registryField socketDataName = .table m := by
  rcases fr with ⟨caller, issue, code, stack⟩
  unfold Frame.Places at hfr
  simp only at hfr hcode
  cases hfr with
  | copied hown =>
      cases h
      refine ⟨_, hown.2, rfl, ?_⟩
      rw [LuaState.registryField_rawset, if_pos rfl]
  | start | pushed | missing | found | creating | popped | made | ready
  | fetched | indexed | handler | finishing | done => cases hcode

theorem MetaChange.suspended {fr fr' x : Frame} (h : MetaChange L fr L' fr')
    (hext : L.Extends L') (hx : x.Places L allowed) (hruns : x.runsLua = true)
    (hnested : fr.isCreating = true -> x.isCreating = true) :
    x.Places L' allowed := by
  cases h with
  | kept hmt hfield => exact hx.keeps ⟨hmt, hfield, hext⟩ fun _ hp => hp
  | registered hcode =>
      rcases hcode with ⟨rest, hcode⟩
      exact hx.of_suspended hruns (hnested (isCreating_of_setregistry hcode))
        hext.registry
  | shared _ _ hfield' hfield =>
      by_cases hcreating : x.isCreating = true
      · exact hx.of_suspended hruns hcreating hext.registry
      · apply hx.mono
        · rintro m ⟨hown, hwhere⟩
          rw [if_neg hcreating, hfield, ← hfield'] at hwhere
          refine ⟨hown.extends hext, ?_⟩
          rw [if_neg hcreating]
          exact hwhere
        · intro v hv
          rw [hext.registry]
          exact hv

/-- If the topmost call comes to create, the suspended ones do so already. -/
theorem MetaChange.nested {fr fr' x : Frame} (h : MetaChange L fr L' fr')
    (hx : x.Places L allowed) (hruns : x.runsLua = true)
    (hnested : fr.isCreating = true -> x.isCreating = true)
    (hcreating : fr'.isCreating = true) : x.isCreating = true := by
  cases h with
  | kept _ _ _ hcases =>
      rcases hcases hcreating with hbefore | hnil
      · exact hnested hbefore
      · exact hx.creating_of_nil hruns hnil
  | registered _ _ _ _ _ hnot | shared _ _ _ _ _ _ hnot =>
      rw [hnot] at hcreating
      cases hcreating

theorem MetaChange.mt_lt {fr fr' : Frame} (h : MetaChange L fr L' fr')
    (hext : L.Extends L')
    (hlt : forall m, L.mt .lightuserdata = some m -> m < L.nextTable) :
    forall m, L'.mt .lightuserdata = some m -> m < L'.nextTable := by
  intro x hx
  apply Nat.lt_of_lt_of_le _ hext.nextTable
  cases h with
  | kept hmt | registered _ hmt =>
      rw [hmt] at hx
      exact hlt x hx
  | shared hown hmt =>
      rw [hmt] at hx
      cases hx
      exact hown.lt

theorem metasSound_call {result : Value} {fr' : Frame} {rest : List Frame}
    (hconfined : w.Confined) (h : w.MetasSound) (hframes : w.frames = fr :: rest)
    (hframes' : w'.frames = fr' :: rest)
    (hapi : apiStep w.lua fr result = some (w'.lua, fr'))
    (hlog : w'.log = w.log) (hpauses : w'.PausesSound) : w'.MetasSound := by
  have hallowed : w'.allowed = w.allowed := by
    unfold World.allowed
    rw [hlog]
  have hplaces := h.places
  have hsuspended := h.suspended
  have hnested := h.nested
  rw [hframes] at hplaces hsuspended hnested
  have htop := hplaces fr List.mem_cons_self
  have hpairs := (List.pairwise_cons.mp hnested).1
  have hext := (api_change hconfined.values hconfined.registers htop.at
    hapi).1.extends
  rcases api_places hconfined.values hconfined.registers h.mt_lt htop hapi with
    ⟨hmeta, hfr'⟩
  have hrest : forall x, x ∈ rest -> x.Places w.lua w.allowed :=
    fun x hx => hplaces x (List.mem_cons_of_mem _ hx)
  refine ⟨hmeta.mt_lt hext h.mt_lt, ?_, ?_, ?_, hpauses⟩
  · rw [hframes', hallowed]
    intro x hx
    rcases List.mem_cons.mp hx with rfl | hx
    · exact hfr'
    · exact hmeta.suspended hext (hrest x hx) (hsuspended x hx) (hpairs x hx)
  · rw [hframes']
    exact hsuspended
  · rw [hframes', List.pairwise_cons]
    refine ⟨?_, (List.pairwise_cons.mp hnested).2⟩
    intro x hx hcreating
    exact hmeta.nested (hrest x hx) (hsuspended x hx) (hpairs x hx) hcreating

theorem step_metasSound (hconfined : w.Confined) (h : w.MetasSound)
    (hstep : step plat w a = some w') : w'.MetasSound := by
  have hpauses := step_pausesSound h.pauses h.suspended hstep
  cases step_metas hconfined hstep with
  | other hkeeps _ hframes =>
      exact metasSound_other h (fun e he => mem_log_of_step he hstep) hkeeps
        hframes hpauses
  | call _ hframes hframes' hapi hlog =>
      exact metasSound_call hconfined h hframes hframes' hapi hlog hpauses
  | closed _ hframes hmt =>
      refine ⟨?_, ?_, ?_, ?_, hpauses⟩
      · intro m hm
        rw [hmt] at hm
        cases hm
      · rw [hframes]
        exact fun x hx => nomatch hx
      · rw [hframes]
        exact fun x hx => nomatch hx
      · rw [hframes]
        exact List.Pairwise.nil

theorem initialWorld_metasSound : initialWorld.MetasSound where
  mt_lt := fun _ hm => by cases hm
  places := fun _ hx => by cases hx
  suspended := fun _ hx => by cases hx
  nested := List.Pairwise.nil
  pauses := initialWorld_pausesSound

theorem reachable_metasSound (h : ReachableWorld plat w) : w.MetasSound := by
  have hboth : w.Confined ∧ w.MetasSound := by
    refine @reachable_invariant _ _ (step plat)
      (fun x => x.Confined ∧ x.MetasSound) ?_ _ _
      ⟨initialWorld_confined, initialWorld_metasSound⟩ h
    rintro x b y ⟨hconfined, hmetas⟩ hxy
    exact ⟨confined_step hconfined hxy, step_metasSound hconfined hmetas hxy⟩
  exact hboth.2

/-!
# The first socket
-/

/-- There is a socket, or one is about to be returned. -/
def World.HasSocket (w : World) : Prop :=
  (exists i, Event.issued i ∈ w.log) ∨
    (exists fr, fr ∈ w.frames ∧ fr.code = [])

theorem issued_of_step {i : Issue} (hstep : step plat w a = some w')
    (hissued : Event.issued i ∈ w'.log) :
    w.HasSocket := by
  rcases step_logs hstep with ⟨es, hes, hevents⟩
  rw [hes] at hissued
  rcases List.mem_append.mp hissued with hold | hnew
  · exact Or.inl ⟨i, hold⟩
  · right
    cases hevents _ hnew with
    | call hcall he => cases he
    | issued hframes hcode => exact ⟨_, by simp [hframes], hcode⟩

theorem code_ne_nil_of_suspended {fr : Frame} (h : fr.runsLua = true) :
    fr.code ≠ [] := by
  intro hcode
  unfold Frame.runsLua at h
  rw [hcode] at h
  cases h

theorem hasSocket_other (hstep : step plat w a = some w')
    (hframes : FramesChange w w'.frames) (h : w'.HasSocket) : w.HasSocket := by
  rcases h with ⟨i, hissued⟩ | ⟨fr, hfr, hcode⟩
  · exact issued_of_step hstep hissued
  · right
    generalize w'.frames = frames at hframes hfr
    cases hframes with
    | kept => exact ⟨fr, hfr, hcode⟩
    | started =>
        rcases List.mem_cons.mp hfr with rfl | hold
        · cases hcode
        · exact ⟨fr, hold, hcode⟩
    | ended hcons =>
        refine ⟨fr, ?_, hcode⟩
        rw [hcons]
        exact List.mem_cons_of_mem _ hfr

/-- While a call still has API calls to make, the sockets are those returned. -/
theorem hasSocket_call {fr' : Frame} {rest : List Frame} (h : w.MetasSound)
    (hframes : w.frames = fr :: rest) (hframes' : w'.frames = fr' :: rest)
    (hlog : w'.log = w.log) (hsocket : w'.HasSocket) (hcode : fr'.code ≠ []) :
    exists i, Event.issued i ∈ w.log := by
  have hsuspended := h.suspended
  rw [hframes] at hsuspended
  rcases hsocket with hissued | ⟨x, hx, hdone⟩
  · rw [hlog] at hissued
    exact hissued
  · rw [hframes'] at hx
    rcases List.mem_cons.mp hx with rfl | hx
    · exact absurd hdone hcode
    · exact absurd hdone (code_ne_nil_of_suspended (hsuspended x hx))

/-- Light userdata have a metatable since the first socket, and a registered one. -/
structure World.SharesOne (w : World) : Prop where
  registered : w.lua.mt .lightuserdata ≠ none ->
    w.lua.registryField socketDataName ≠ .nil
  shared : w.HasSocket -> w.lua.mt .lightuserdata ≠ none

theorem MetaChange.registered_ne_nil {fr' : Frame} (h : MetaChange L fr L' fr')
    (hreg : L.mt .lightuserdata ≠ none ->
      L.registryField socketDataName ≠ .nil)
    (hmt : L'.mt .lightuserdata ≠ none) :
    L'.registryField socketDataName ≠ .nil := by
  cases h with
  | kept hsame hfield =>
      rw [hfield]
      rw [hsame] at hmt
      exact hreg hmt
  | registered _ _ _ hfield | shared _ _ hfield =>
      rw [hfield]
      simp

theorem step_sharesOne (hreach : ReachableWorld plat w)
    (h : w.phase ≠ .closed -> w.SharesOne) (hstep : step plat w a = some w')
    (hopen : w'.phase ≠ .closed) : w'.SharesOne := by
  have hconfined := reachable_confined hreach
  have hmetas := reachable_metasSound hreach
  have hshares := h (phase_of_step hstep)
  cases step_metas hconfined hstep with
  | other hkeeps _ hframes =>
      constructor
      · rw [hkeeps.mt, hkeeps.registryField]
        exact hshares.registered
      · intro hsocket
        rw [hkeeps.mt]
        exact hshares.shared (hasSocket_other hstep hframes hsocket)
  | call _ hframes hframes' hapi hlog =>
      have hmeta := (api_places hconfined.values hconfined.registers hmetas.mt_lt
        (hmetas.places _ (by simp [hframes])) hapi).1
      refine ⟨hmeta.registered_ne_nil hshares.registered, ?_⟩
      intro hsocket
      have hissued := hasSocket_call hmetas hframes hframes' hlog hsocket
      cases hmeta with
      | kept hmt _ hcode | registered _ hmt _ _ hcode =>
          rw [hmt]
          exact hshares.shared (Or.inl (hissued hcode))
      | shared _ hmt =>
          rw [hmt]
          simp
  | closed hphase => exact absurd hphase hopen

theorem reachable_sharesOne (h : ReachableWorld plat w)
    (hopen : w.phase ≠ .closed) : w.SharesOne := by
  have hboth : ReachableWorld plat w ∧ (w.phase ≠ .closed -> w.SharesOne) := by
    refine @reachable_invariant _ _ (step plat)
      (fun x => ReachableWorld plat x ∧ (x.phase ≠ .closed -> x.SharesOne))
      ?_ _ _ ⟨⟨[], rfl⟩, fun _ => ⟨fun hmt => absurd rfl hmt, ?_⟩⟩ h
    · rintro x b y ⟨hx, hshares⟩ hxy
      exact ⟨hx.next hxy, step_sharesOne hx hshares hxy⟩
    · rintro (⟨i, hissued⟩ | ⟨fr, hfr, _⟩)
      · cases hissued
      · cases hfr
  exact hboth.2 hopen

end Invariant

end LuaServer
