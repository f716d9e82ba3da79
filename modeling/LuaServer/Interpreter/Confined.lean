import LuaServer.Interpreter.Ownership
import LuaServer.Interpreter.Registration

/-!
# Confined scripts

In every state that the program can get into, the light userdata that a script can
come by are the sockets returned to it, the null pointer of the library's table and
the sentinel of `require`, and each call in progress is at one of its places.
-/

namespace LuaServer

open Library

namespace World

def allowed (w : World) (p : Ptr) : Prop :=
  p = .null ∨ p = .sentinel ∨
    exists i, Event.issued i ∈ w.log ∧ p = .block i.addr

/-- What a script can come by in a state, and where the calls in progress are. -/
structure Confined (w : World) : Prop where
  values : w.lua.Confines w.allowed
  registers : w.lua.Registers
  frames : forall fr, fr ∈ w.frames -> fr.At w.lua w.allowed

end World

/-!
# Every step confines the script
-/

section Steps

variable {plat : Platform} {w w' : World} {a : Action} {c : Invocation}

theorem World.allowed_mono (hlog : forall e, e ∈ w.log -> e ∈ w'.log) {p : Ptr}
    (h : w.allowed p) : w'.allowed p := by
  rcases h with h | h | ⟨i, hi, hp⟩
  · exact Or.inl h
  · exact Or.inr (Or.inl h)
  · exact Or.inr (Or.inr ⟨i, hlog _ hi, hp⟩)

theorem Frame.At.extends {fr : Frame} {L L' : LuaState}
    {allowed allowed' : Ptr -> Prop} (h : fr.At L allowed)
    (hext : L.Extends L') (himp : forall p, allowed p -> allowed' p) :
    fr.At L' allowed' := by
  apply h.mono
  · exact fun m hm => hm.extends hext
  · intro v hv
    rw [hext.registry]
    exact hv.mono himp

theorem World.Confined.extends (h : w.Confined)
    (hlog : forall e, e ∈ w.log -> e ∈ w'.log)
    (hvalues : w'.lua.Confines w'.allowed) (hregisters : w'.lua.Registers)
    (hext : w.lua.Extends w'.lua)
    (hframes : forall fr, fr ∈ w'.frames ->
      fr ∈ w.frames ∨ fr.At w'.lua w'.allowed) : w'.Confined where
  values := hvalues
  registers := hregisters
  frames := by
    intro fr hfr
    rcases hframes fr hfr with hold | hnew
    · exact (h.frames fr hold).extends hext fun p => World.allowed_mono hlog
    · exact hnew

theorem World.Confined.withLua {L : LuaState} (h : w.Confined)
    (hvalues : L.Confines w.allowed) (hregisters : L.Registers)
    (hext : w.lua.Extends L) : World.Confined { w with lua := L } :=
  World.Confined.extends h (fun _ he => he) hvalues hregisters hext
    fun _ hfr => Or.inl hfr

theorem World.Confined.pushAll {vs : List Value} (h : w.Confined)
    (hvs : forall v, v ∈ vs -> Visible w.allowed w.lua.registry v) :
    (w.pushAll vs).Confined :=
  h.withLua (h.values.pushAll hvs)
    (h.registers.extends (.of_eq rfl rfl rfl) rfl (fun _ _ hm => Or.inl hm)
      fun _ hm => hm)
    (.of_eq rfl rfl rfl)

theorem outcome_values {env : Env} {args : List Value} {entry : Entry}
    {vs : List Value} {v : World}
    (h : Outcome plat env args w entry (.ok (.values vs) v)) :
    forall x, x ∈ vs -> x.isLiteral = true := by
  intro x hx
  cases h with
  | acted _ _ _ hact =>
      generalize entry.f = f at hact
      cases hact with
      | bound | listened | closed => cases hx
      | sent =>
          rw [List.mem_singleton.mp hx]
          rfl
  | freed =>
      rw [List.mem_singleton.mp hx]
      rfl
  | collected => cases hx

theorem outcome_building {env : Env} {args : List Value} {entry : Entry}
    {fr : Frame} {v : World}
    (h : Outcome plat env args w entry (.ok (.building fr) v)) :
    exists i, fr = initialFrame entry.f i := by
  cases h with
  | acted _ _ _ hact =>
      generalize entry.f = f at hact
      cases hact with
      | accepted => exact ⟨_, rfl⟩
  | created => exact ⟨_, rfl⟩

theorem performCall_lua (hadm : c.env.admissible plat c.start = true) :
    exists vs, (c.start.performCall plat c.entry c.args c.env).lua =
        { c.start.lua with stack := vs ++ c.start.lua.stack } ∧
      (forall x, x ∈ vs -> x.isLiteral = true) ∧
      ((c.start.performCall plat c.entry c.args c.env).frames = c.start.frames ∨
        exists i, (c.start.performCall plat c.entry c.args c.env).frames =
          initialFrame c.f i :: c.start.frames) := by
  have houtcome := @enter_outcome plat c.env c.args c.start hadm c.entry
  have hlua := outcome_lua houtcome
  have hframes := outcome_frames houtcome
  unfold World.performCall
  generalize enter plat c.env c.args c.entry c.start = r at houtcome hlua hframes ⊢
  cases r with
  | error exit v =>
      cases exit with
      | raise | crash => exact ⟨[], hlua, (fun _ hx => nomatch hx), Or.inl hframes⟩
  | ok reply v =>
      cases reply with
      | paused =>
          exact ⟨[], hlua, (fun _ hx => nomatch hx), Or.inl hframes⟩
      | values vs =>
          refine ⟨vs, ?_, outcome_values houtcome, Or.inl hframes⟩
          show { v.lua with stack := vs ++ v.lua.stack } = _
          rw [show v.lua = c.start.lua from hlua]
      | building fr =>
          rcases outcome_building houtcome with ⟨i, rfl⟩
          exact ⟨[], hlua, (fun _ hx => nomatch hx),
            Or.inr ⟨i, congrArg (List.cons _) hframes⟩⟩

theorem confined_performCall (h : c.start.Confined)
    (hadm : c.env.admissible plat c.start = true) :
    (c.start.performCall plat c.entry c.args c.env).Confined := by
  have hlog : forall e, e ∈ c.start.log ->
      e ∈ (c.start.performCall plat c.entry c.args c.env).log := by
    intro e he
    rcases @performCall_endedLogs plat c hadm with ⟨es, hes, _⟩
    rw [hes]
    exact List.mem_append_left _ he
  rcases performCall_lua hadm with ⟨vs, hlua, hvs, hframes⟩
  apply h.extends hlog
  · rw [hlua]
    apply (h.values.mono fun p => World.allowed_mono hlog).pushAll
    exact fun x hx => visible_of_isLiteral (hvs x hx)
  · rw [hlua]
    exact h.registers.extends (.of_eq rfl rfl rfl) rfl
      (fun _ _ hm => Or.inl hm) fun _ hm => hm
  · rw [hlua]
    exact .of_eq rfl rfl rfl
  · intro fr hfr
    rcases hframes with hkept | ⟨i, hstarted⟩
    · rw [hkept] at hfr
      exact Or.inl hfr
    · rw [hstarted] at hfr
      rcases List.mem_cons.mp hfr with rfl | hold
      · exact Or.inr .start
      · exact Or.inl hold

theorem apiArguments_visible {fr : Frame} (h : w.lua.Confines w.allowed)
    (hfr : fr.At w.lua w.allowed) {x : Value}
    (hx : x ∈ apiArguments w.lua fr) :
    Visible w.allowed w.lua.registry x := by
  have hglobal := fun name =>
    (@LuaState.Confines.gettableLoop w.lua w.allowed h (.string name)
      LuaState.maxTagLoop (.table w.lua.globals) h.globals).2
  unfold apiArguments at hx
  split at hx
  · split at hx
    · rename_i name _ _ _ tm obj hcall
      rcases List.mem_pair.mp hx with rfl | rfl
      · exact hglobal name tm _ hcall
      · trivial
    · cases hx
  · rename_i name rest hcode
    rcases hfr.stack_of_setfield hcode fun _ => trivial with ⟨v, m, hv, hm, hstack⟩
    rw [hstack] at hx
    simp only at hx
    split at hx
    · rename_i tm obj hcall
      have hobj := (@LuaState.Confines.settableLoop w.lua w.allowed h
        (.string name) LuaState.maxTagLoop (.table m) hm.ne_registry).2 tm obj
        hcall
      simp only [List.mem_cons, List.not_mem_nil, or_false] at hx
      rcases hx with rfl | rfl | rfl
      · exact hobj
      · trivial
      · exact hv
    · cases hx
  · cases hx

theorem confined_gctm {env : Env} (h : w.Confined)
    (hstep : w.gctm plat env = some w') : w'.Confined := by
  have hdueConfined : forall {L u tm}, w.lua.takeDue = some (L, u, tm) ->
      World.Confined { w with lua := L } := by
    intro L u tm hdue
    have hsame := LuaState.sameHeap_takeDue hdue
    exact h.withLua (hsame.confines h.values) (hsame.registers h.registers)
      hsame.extends
  cases gctm_inv hstep with
  | nothing hdue => exact hdueConfined hdue
  | @called L u f _ hdue hadm =>
      exact @confined_performCall plat
        ⟨.call f, [.userdata u], env, { w with lua := L }⟩ (hdueConfined hdue)
        hadm
  | handedOver hdue =>
      apply (hdueConfined hdue).pushAll
      intro x hx
      rcases List.mem_pair.mp hx with rfl | rfl
      · exact h.values.takeDue hdue
      · trivial

theorem confined_exit (h : w.Confined) : (w.exit plat).Confined := by
  have hempty : LuaState.Confines { w.lua with stack := [] } w.allowed :=
    h.values.withStack fun v hv => by cases hv
  have hregisters : LuaState.Registers { w.lua with stack := [] } :=
    h.registers.extends (.of_eq rfl rfl rfl) rfl (fun _ _ hm => Or.inl hm)
      fun _ hm => hm
  have hsame := @LuaState.sameHeap_separateudata { w.lua with stack := [] }
    (fun _ => true) true
  have hlog : forall e, e ∈ w.log -> e ∈ (w.exit plat).log := by
    intro e he
    rw [exit_log]
    split
    · exact List.mem_append_left _ he
    · exact he
  rcases @exit_state plat w with ⟨L, handles, log, hexit⟩
  apply h.extends hlog
  · rw [exit_lua]
    exact (hsame.confines hempty).mono fun p => World.allowed_mono hlog
  · rw [exit_lua]
    exact hsame.registers hregisters
  · rw [exit_lua]
    exact .of_eq hsame.registry hsame.nextTable hsame.proxies
  · intro fr hfr
    rw [hexit] at hfr
    exact Or.inl hfr

theorem confines_closeState (h : w.lua.Confines w.allowed) :
    w.closeState.lua.Confines w.allowed where
  stack := fun _ hv => nomatch hv
  cells := fun _ _ hv => nomatch hv
  content := fun _ _ hentry => nomatch hentry
  tableMeta := fun _ hm => nomatch hm
  udataMeta := fun _ hm => nomatch hm
  typeMeta := fun _ hm => nomatch hm
  globals := h.globals

theorem registers_closeState (h : w.lua.Registers) :
    w.closeState.lua.Registers where
  registry_lt := h.registry_lt
  files_lt := h.files_lt
  proxies := h.proxies
  plain := rfl
  files := fun _ hm => nomatch hm
  udata := fun _ _ hm => nomatch hm
  socket := Or.inl rfl

theorem confined_returnFrame {fr : Frame} {rest : List Frame} (h : w.Confined)
    (hframes : w.frames = fr :: rest) (hcode : fr.code = []) :
    (w.returnFrame fr rest).Confined := by
  have hfr := h.frames fr (by simp [hframes])
  have hlog : forall e, e ∈ w.log -> e ∈ (w.returnFrame fr rest).log :=
    fun e he => List.mem_append_left _ he
  apply h.extends hlog
  · apply (h.values.mono fun p => World.allowed_mono hlog).pushAll
    intro x hx
    rw [List.mem_singleton.mp hx, hfr.stack_of_done hcode]
    exact Or.inr (Or.inr ⟨fr.issue, List.mem_append_right _ (by simp), rfl⟩)
  · exact h.registers.extends (.of_eq rfl rfl rfl) rfl
      (fun _ _ hm => Or.inl hm) fun _ hm => hm
  · exact .of_eq rfl rfl rfl
  · intro x hx
    left
    rw [hframes]
    exact List.mem_cons_of_mem _ hx

theorem confined_api {result : Value} (h : w.Confined)
    (hstep : step plat w (.api result) = some w') : w'.Confined := by
  rcases api_inv hstep with
    ⟨fr, rest, hframes, ⟨hcode, rfl⟩ | ⟨L, fr', hapi, rfl⟩⟩
  · exact confined_returnFrame h hframes hcode
  · have hfr := h.frames fr (by simp [hframes])
    rcases api_change h.values h.registers hfr hapi with ⟨hchange, hat⟩
    refine h.extends (fun _ he => he) (hchange.confines h.values)
      (hchange.registers h.registers) hchange.extends ?_
    intro x hx
    rcases List.mem_cons.mp hx with rfl | hold
    · exact Or.inr hat
    · left
      rw [hframes]
      exact List.mem_cons_of_mem _ hold

theorem confined_step (h : w.Confined) (hstep : step plat w a = some w') :
    w'.Confined := by
  cases a with
  | script p =>
      simp only [step] at hstep
      split at hstep
      · rcases Option.map_eq_some_iff.mp hstep with ⟨L, hL, rfl⟩
        have hchange := LuaState.scriptStep_change h.values
          (Or.inr (Or.inl rfl)) hL
        exact h.withLua
          (hchange.confines h.values (fun m hm => (h.registers.proxies m hm).2)
            (Nat.ne_of_gt h.registers.registry_lt))
          (hchange.registers h.registers) hchange.extends
      · cases hstep
  | call f args env =>
      simp only [step, Bool.and_eq_true] at hstep
      split at hstep
      · rename_i hcond
        cases hstep
        exact @confined_performCall plat ⟨.call f, args, env, w⟩ h hcond.2
      · cases hstep
  | apiArgs =>
      simp only [step] at hstep
      split at hstep
      · cases hframes : w.frames with
        | nil =>
            rw [hframes] at hstep
            cases hstep
        | cons fr rest =>
            rw [hframes] at hstep
            cases hstep
            apply h.pushAll
            intro x hx
            exact apiArguments_visible h.values
              (h.frames fr (by simp [hframes])) hx
      · cases hstep
  | api result => exact confined_api h hstep
  | apiRaise e =>
      rcases apiRaise_inv hstep with ⟨fr, rest, hframes, rfl⟩
      refine World.Confined.extends h (fun _ he => he) h.values h.registers
        (.refl _) ?_
      intro x hx
      left
      rw [hframes]
      exact List.mem_cons_of_mem _ hx
  | resume env =>
      rcases resume_inv hstep with ⟨_, _, p, rest, _, hadm, rfl⟩
      have hstart : World.Confined { w with paused := rest } :=
        ⟨h.values, h.registers, h.frames⟩
      exact @confined_performCall plat
        ⟨.resume p.point, p.args, env, { w with paused := rest }⟩ hstart hadm
  | pausedRaise e =>
      rcases pausedRaise_inv hstep with ⟨_, p, rest, _, rfl⟩
      exact ⟨h.values, h.registers, h.frames⟩
  | collect =>
      simp only [step] at hstep
      split at hstep
      · cases hstep
        exact h.withLua (h.values.fullgc _) (h.registers.fullgc _)
          (LuaState.extends_fullgc _)
      · cases hstep
  | gctm env =>
      simp only [step] at hstep
      split at hstep
      · exact confined_gctm h hstep
      · cases hstep
  | exit =>
      simp only [step] at hstep
      split at hstep
      · cases hstep
        exact confined_exit h
      · cases hstep
  | closeState =>
      simp only [step, Bool.and_eq_true, decide_eq_true_eq] at hstep
      split at hstep
      · rename_i hcond
        cases hstep
        refine ⟨confines_closeState h.values, registers_closeState h.registers,
          ?_⟩
        intro fr hfr
        rw [show w.closeState.frames = [] from hcond.1.1.1.2] at hfr
        cases hfr
      · cases hstep

end Steps

/-!
# The initial state
-/

/-- At the start the only light userdata is the null one of the library's table. -/
theorem initialTables_visible (t : Nat) :
    forall entry, entry ∈ (initialTables t).content ->
      Visible (fun p => p = .null) 0 entry.1 ∧
        Visible (fun p => p = .null) 0 entry.2 := by
  match t with
  | 0 | 1 | 2 | 3 | 4 | 5 | 6 | 7 => decide
  | t + 8 =>
      intro entry hentry
      cases hentry

theorem initialTables_metatable (t : Nat) :
    (initialTables t).metatable = none := by
  match t with
  | 0 | 1 | 2 | 3 | 4 | 5 | 6 | 7 | t + 8 => rfl

theorem initialWorld_confined : initialWorld.Confined where
  values :=
    { stack := by
        intro v hv
        rw [List.mem_singleton.mp hv]
        show (2 : Nat) ≠ 0
        decide
      cells := fun _ _ hv => nomatch hv
      content := by
        intro t entry hentry
        have hvisible := initialTables_visible t entry hentry
        exact ⟨hvisible.1.mono fun _ hp => Or.inl hp,
          hvisible.2.mono fun _ hp => Or.inl hp⟩
      tableMeta := by
        intro t
        show (initialTables t).metatable ≠ some 0
        rw [initialTables_metatable]
        simp
      udataMeta := by
        intro u
        show some (4 : Nat) ≠ some 0
        decide
      typeMeta := by
        intro ty
        show initialMt ty ≠ some 0
        cases ty <;> decide
      globals := by decide }
  registers :=
    { registry_lt := by decide
      files_lt := by decide
      proxies := fun _ hm => nomatch hm
      plain := rfl
      files := by
        intro m hm
        have hfield : initialLua.registryField fileHandleName = .table 4 := by
          decide
        rw [show initialWorld.lua = initialLua from rfl, hfield] at hm
        exact (Value.table.inj hm).symm
      udata := fun _ _ hm => Or.inl (Option.some.inj hm).symm
      socket := Or.inl (by decide) }
  frames := fun _ hfr => nomatch hfr

theorem reachable_confined {plat : Platform} {w : World}
    (h : ReachableWorld plat w) : w.Confined :=
  reachable_invariant (fun _ _ _ hconfined hstep =>
    confined_step hconfined hstep) initialWorld_confined h

end LuaServer
