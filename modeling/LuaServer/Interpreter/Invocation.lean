import LuaServer.Interpreter.Step
import LuaServer.Library.Effects

/-!
# The shape of a step

What one step of the program can do to the state of the sockets, stated once.
Most steps touch no socket at all; the others are calls of library functions,
the end of a pending call and the end of the script.
-/

namespace LuaServer

open Library

/-- A call of a library function, or its going on, with the state it starts in. -/
structure Invocation where
  entry : Entry
  args : List Value
  env : Env
  start : World

abbrev Invocation.f (c : Invocation) : CFunction := c.entry.f

namespace World

/--
The call that an action makes, directly or as the finalizer that is due, or the
suspended one that goes on.
-/
def invocation (w : World) : Action -> Option Invocation
  | .call f args env => some ⟨.call f, args, env, w⟩
  | .gctm env =>
      match w.lua.takeDue with
      | some (L, u, .cfunction f _) =>
          some ⟨.call f, [.userdata u], env, { w with lua := L }⟩
      | _ => none
  | .resume env =>
      match w.paused with
      | [] => none
      | p :: rest => some ⟨.resume p.point, p.args, env, { w with paused := rest }⟩
  | _ => none

def pendingIssues (w : World) : List Issue := w.frames.map Frame.issue

end World

theorem invocation_start {w : World} {a : Action} {c : Invocation}
    (h : w.invocation a = some c) :
    exists L paused, c.start = { w with lua := L, paused := paused } := by
  cases a with
  | call f args env =>
      cases h
      exact ⟨w.lua, w.paused, rfl⟩
  | gctm env =>
      simp only [World.invocation] at h
      split at h
      · rename_i L u f _ _
        cases h
        exact ⟨L, w.paused, rfl⟩
      · cases h
  | resume env =>
      simp only [World.invocation] at h
      split at h
      · cases h
      · rename_i p rest _
        cases h
        exact ⟨w.lua, rest, rfl⟩
  | script | apiArgs | api | apiRaise | pausedRaise | collect | exit
  | closeState => cases h

section Start

variable {w : World} {a : Action} {c : Invocation}

/-- A call is made anew, or it is the topmost suspended one. -/
theorem entry_of_invocation (h : w.invocation a = some c) :
    (exists f, c.entry = .call f ∧ c.start.paused = w.paused) ∨
      exists p rest, w.paused = p :: rest ∧ c.entry = .resume p.point ∧
        c.args = p.args ∧ c.start = { w with paused := rest } := by
  cases a with
  | call f args env =>
      cases h
      exact Or.inl ⟨f, rfl, rfl⟩
  | gctm env =>
      simp only [World.invocation] at h
      split at h
      · rename_i L u f _ _
        cases h
        exact Or.inl ⟨f, rfl, rfl⟩
      · cases h
  | resume env =>
      simp only [World.invocation] at h
      split at h
      · cases h
      · rename_i p rest hpaused
        cases h
        exact Or.inr ⟨p, rest, hpaused, rfl, rfl, rfl⟩
  | script | apiArgs | api | apiRaise | pausedRaise | collect | exit
  | closeState => cases h

theorem mem_paused_start (h : w.invocation a = some c) {p : Paused}
    (hp : p ∈ c.start.paused) : p ∈ w.paused := by
  rcases entry_of_invocation h with
    ⟨f, _, hpaused⟩ | ⟨q, rest, hpaused, _, _, hstart⟩
  · exact hpaused ▸ hp
  · rw [hstart] at hp
    rw [hpaused]
    exact List.mem_cons_of_mem _ hp

theorem entry_of_f {f : CFunction} (h : c.f = f)
    (hpoint : forall point : PausePoint, point.f ≠ f) : c.entry = .call f := by
  rcases c with ⟨entry, args, env, start⟩
  change entry.f = f at h
  cases entry with
  | call g => exact congrArg Entry.call h
  | resume point => exact absurd h (hpoint point)

theorem entry_of_collect (h : c.f = .onCollectSocket) :
    c.entry = .call .onCollectSocket :=
  entry_of_f h fun point => by cases point <;> simp [PausePoint.f]

theorem entry_of_close (h : c.f = .close) : c.entry = .call .close :=
  entry_of_f h fun point => by cases point <;> simp [PausePoint.f]

theorem start_socketsInitialized (h : w.invocation a = some c) :
    c.start.socketsInitialized = w.socketsInitialized := by
  rcases invocation_start h with ⟨L, paused, hstart⟩
  rw [hstart]

theorem start_phase (h : w.invocation a = some c) :
    c.start.phase = w.phase := by
  rcases invocation_start h with ⟨L, paused, hstart⟩
  rw [hstart]

theorem start_log (h : w.invocation a = some c) : c.start.log = w.log := by
  rcases invocation_start h with ⟨L, paused, hstart⟩
  rw [hstart]

end Start

/-- The calls in progress stay, or the topmost one takes its next step. -/
def World.Advances (w : World) (frames : List Frame) : Prop :=
  frames = w.frames ∨ w.inPause = false ∧
    exists fr fr' rest, w.frames = fr :: rest ∧ frames = fr' :: rest

inductive StepShape (plat : Platform) (w : World) (a : Action) :
    World -> Prop where
  | quiet {L : LuaState} {frames : List Frame} :
      w.invocation a = none -> frames.map Frame.issue = w.pendingIssues ->
      w.Advances frames ->
      StepShape plat w a { w with lua := L, frames := frames }
  | ended :
      a = .closeState -> w.phase = .closing -> w.frames = [] ->
      w.lua.tmudata = [] -> StepShape plat w a w.closeState
  | raised {e : LuaError} {fr : Frame} {rest : List Frame} :
      a = .apiRaise e -> w.frames = fr :: rest -> w.inPause = false ->
      StepShape plat w a { w with frames := rest, result := .raised e }
  | abandoned {e : LuaError} {p : Paused} {rest : List Paused} :
      a = .pausedRaise e -> w.paused = p :: rest ->
      StepShape plat w a { w with paused := rest, result := .raised e }
  | returned {v : Value} {fr : Frame} {rest : List Frame} :
      a = .api v -> w.frames = fr :: rest -> fr.code = [] ->
      w.inPause = false ->
      StepShape plat w a (w.returnFrame fr rest)
  | called {c : Invocation} :
      w.invocation a = some c -> c.env.admissible plat c.start = true ->
      w.canRunLua = true ->
      StepShape plat w a (c.start.performCall plat c.entry c.args c.env)
  | exited :
      a = .exit -> w.frames = [] -> w.paused = [] -> w.phase = .running ->
      StepShape plat w a (w.exit plat)

theorem apiStep_issue {L L' : LuaState} {fr fr' : Frame} {result : Value}
    (h : apiStep L fr result = some (L', fr')) : fr'.issue = fr.issue := by
  unfold apiStep at h
  repeat' split at h
  all_goals cases h
  all_goals rfl

section Shapes

variable {plat : Platform} {w w' : World}

/-- `GCTM` takes the first userdata that is due and calls its finalizer. -/
inductive GctmEnd (plat : Platform) (w : World) (env : Env) : World -> Prop where
  | nothing {L : LuaState} {u : Nat} :
      w.lua.takeDue = some (L, u, .nil) ->
      GctmEnd plat w env { w with lua := L }
  | called {L : LuaState} {u : Nat} {f : CFunction} {made : Option Nat} :
      w.lua.takeDue = some (L, u, .cfunction f made) ->
      env.admissible plat { w with lua := L } = true ->
      GctmEnd plat w env
        (World.performCall plat (.call f) [.userdata u] env { w with lua := L })
  | handedOver {L : LuaState} {u : Nat} {tm : Value} :
      w.lua.takeDue = some (L, u, tm) ->
      (forall f made, tm ≠ .cfunction f made) ->
      GctmEnd plat w env
        (World.pushAll { w with lua := L } [tm, .userdata u])

theorem gctm_inv {env : Env} (h : w.gctm plat env = some w') :
    GctmEnd plat w env w' := by
  unfold World.gctm at h
  cases hdue : w.lua.takeDue with
  | none =>
      rw [hdue] at h
      cases h
  | some due =>
      rcases due with ⟨L, u, tm⟩
      rw [hdue] at h
      cases tm with
      | nil =>
          cases h
          exact .nothing hdue
      | cfunction f made =>
          simp only at h
          split at h
          · rename_i hadm
            cases h
            exact .called hdue hadm
          · cases h
      | boolean | lightuserdata | number | string | table | closure
      | userdata | thread =>
          cases h
          exact .handedOver hdue fun _ _ heq => nomatch heq

theorem gctm_shape {env : Env} (hrun : w.canRunLua = true)
    (h : w.gctm plat env = some w') :
    StepShape plat w (.gctm env) w' := by
  cases gctm_inv h with
  | nothing hdue =>
      apply StepShape.quiet _ rfl (Or.inl rfl)
      unfold World.invocation
      rw [hdue]
  | @called L u f _ hdue hadm =>
      have hcall : w.invocation (.gctm env) =
          some ⟨.call f, [.userdata u], env, { w with lua := L }⟩ := by
        unfold World.invocation
        rw [hdue]
      exact StepShape.called hcall hadm hrun
  | @handedOver L u tm hdue hother =>
      apply StepShape.quiet _ rfl (Or.inl rfl)
      unfold World.invocation
      rw [hdue]
      cases tm with
      | cfunction f made => exact absurd rfl (hother f made)
      | nil | boolean | lightuserdata | number | string | table | closure
      | userdata | thread => rfl

theorem api_inv {result : Value} (h : step plat w (.api result) = some w') :
    exists fr rest, w.frames = fr :: rest ∧
      ((fr.code = [] ∧ w' = w.returnFrame fr rest) ∨
        exists L fr', apiStep w.lua fr result = some (L, fr') ∧
          w' = { w with lua := L, frames := fr' :: rest }) := by
  simp only [step] at h
  split at h
  · cases hframes : w.frames with
    | nil =>
        rw [hframes] at h
        cases h
    | cons fr rest =>
        rw [hframes] at h
        simp only at h
        refine ⟨fr, rest, rfl, ?_⟩
        split at h
        · rename_i hcode
          cases h
          exact Or.inl ⟨hcode, rfl⟩
        · rcases Option.map_eq_some_iff.mp h with ⟨⟨L, fr'⟩, hapi, rfl⟩
          exact Or.inr ⟨L, fr', hapi, rfl⟩
  · cases h

theorem apiRaise_inv {e : LuaError}
    (h : step plat w (.apiRaise e) = some w') :
    exists fr rest, w.frames = fr :: rest ∧
      w' = { w with frames := rest, result := .raised e } := by
  simp only [step] at h
  split at h
  · cases hframes : w.frames with
    | nil =>
        rw [hframes] at h
        cases h
    | cons fr rest =>
        rw [hframes] at h
        simp only at h
        split at h
        · cases h
        · split at h
          · cases h
            exact ⟨fr, rest, rfl, rfl⟩
          · cases h
  · cases h

/-- The calls below a suspended one wait for it. -/
theorem inPause_of_api {result : Value}
    (h : step plat w (.api result) = some w') : w.inPause = false := by
  simp only [step, Bool.and_eq_true, Bool.not_eq_true'] at h
  split at h
  · rename_i hcond
    exact hcond.2
  · cases h

theorem inPause_of_apiRaise {e : LuaError}
    (h : step plat w (.apiRaise e) = some w') : w.inPause = false := by
  simp only [step, Bool.and_eq_true, Bool.not_eq_true'] at h
  split at h
  · rename_i hcond
    exact hcond.2
  · cases h

theorem api_shape {result : Value}
    (h : step plat w (.api result) = some w') :
    StepShape plat w (.api result) w' := by
  have hpause := inPause_of_api h
  rcases api_inv h with ⟨fr, rest, hframes, ⟨hcode, rfl⟩ | ⟨L, fr', hapi, rfl⟩⟩
  · exact StepShape.returned rfl hframes hcode hpause
  · apply StepShape.quiet rfl
    · simp [World.pendingIssues, hframes, apiStep_issue hapi]
    · exact Or.inr ⟨hpause, fr, fr', rest, hframes, rfl⟩

theorem exit_inv (h : step plat w .exit = some w') :
    w.frames = [] ∧ w.paused = [] ∧ w.phase = .running ∧ w' = w.exit plat := by
  simp only [step, Bool.and_eq_true, decide_eq_true_eq] at h
  split at h
  · rename_i hcond
    cases h
    exact ⟨hcond.1.1.2, hcond.1.2, hcond.2, rfl⟩
  · cases h

theorem resume_inv {env : Env} (h : step plat w (.resume env) = some w') :
    w.isAlive = true ∧ w.inPause = true ∧ exists p rest, w.paused = p :: rest ∧
      env.admissible plat { w with paused := rest } = true ∧
      w' = World.performCall plat (.resume p.point) p.args env
        { w with paused := rest } := by
  simp only [step, Bool.and_eq_true] at h
  split at h
  · rename_i hcond
    cases hpaused : w.paused with
    | nil =>
        rw [hpaused] at h
        cases h
    | cons p rest =>
        rw [hpaused] at h
        simp only at h
        split at h
        · rename_i hadm
          cases h
          exact ⟨hcond.1, hcond.2, p, rest, rfl, hadm, rfl⟩
        · cases h
  · cases h

theorem pausedRaise_inv {e : LuaError}
    (h : step plat w (.pausedRaise e) = some w') :
    w.inPause = true ∧ exists p rest, w.paused = p :: rest ∧
      w' = { w with paused := rest, result := .raised e } := by
  simp only [step, Bool.and_eq_true] at h
  split at h
  · rename_i hcond
    cases hpaused : w.paused with
    | nil =>
        rw [hpaused] at h
        cases h
    | cons p rest =>
        rw [hpaused] at h
        cases h
        exact ⟨hcond.2, p, rest, rfl, rfl⟩
  · cases h

theorem canRunLua_of_inPause (halive : w.isAlive = true)
    (hpause : w.inPause = true) : w.canRunLua = true := by
  simp [World.canRunLua, halive, hpause]

/-- Every step has one of the shapes. -/
theorem step_shape {a : Action} (h : step plat w a = some w') :
    StepShape plat w a w' := by
  cases a with
  | script p =>
      simp only [step] at h
      split at h
      · rw [Option.map_eq_some_iff] at h
        rcases h with ⟨L, _, rfl⟩
        exact StepShape.quiet rfl rfl (Or.inl rfl)
      · cases h
  | call f args env =>
      simp only [step, Bool.and_eq_true] at h
      split at h
      · rename_i hcond
        cases h
        exact @StepShape.called plat w _ ⟨.call f, args, env, w⟩ rfl hcond.2
          hcond.1.1.1
      · cases h
  | apiArgs =>
      simp only [step] at h
      split at h
      · cases hframes : w.frames with
        | nil =>
            rw [hframes] at h
            cases h
        | cons fr rest =>
            rw [hframes] at h
            cases h
            exact StepShape.quiet rfl rfl (Or.inl rfl)
      · cases h
  | api result => exact api_shape h
  | apiRaise e =>
      have hpause := inPause_of_apiRaise h
      rcases apiRaise_inv h with ⟨fr, rest, hframes, rfl⟩
      exact StepShape.raised rfl hframes hpause
  | resume env =>
      rcases resume_inv h with ⟨halive, hpause, p, rest, hpaused, hadm, rfl⟩
      have hcall : w.invocation (.resume env) =
          some ⟨.resume p.point, p.args, env, { w with paused := rest }⟩ := by
        unfold World.invocation
        rw [hpaused]
      exact StepShape.called hcall hadm (canRunLua_of_inPause halive hpause)
  | pausedRaise e =>
      rcases pausedRaise_inv h with ⟨_, p, rest, hpaused, rfl⟩
      exact StepShape.abandoned rfl hpaused
  | collect =>
      simp only [step] at h
      split at h
      · cases h
        exact StepShape.quiet rfl rfl (Or.inl rfl)
      · cases h
  | gctm env =>
      simp only [step] at h
      split at h
      · rename_i hrun
        exact gctm_shape hrun h
      · cases h
  | exit =>
      rcases exit_inv h with ⟨hframes, hpaused, hphase, rfl⟩
      exact StepShape.exited rfl hframes hpaused hphase
  | closeState =>
      simp only [step, Bool.and_eq_true, decide_eq_true_eq] at h
      split at h
      · rename_i hcond
        cases h
        exact StepShape.ended rfl hcond.1.2 hcond.1.1.1.2 hcond.2
      · cases h

theorem phase_ne_closed (hrun : w.canRunLua = true) : w.phase ≠ .closed := by
  unfold World.canRunLua World.isAlive at hrun
  simp only [Bool.and_eq_true, decide_eq_true_eq] at hrun
  exact hrun.1.1

theorem phase_of_step {a : Action} (h : step plat w a = some w') :
    w.phase ≠ .closed := by
  intro hphase
  have halive : w.isAlive = false := by simp [World.isAlive, hphase]
  have hrun : w.canRunLua = false := by simp [World.canRunLua, halive]
  cases a with
  | script | call | apiArgs | collect | gctm =>
      simp [step, hrun] at h
  | api | apiRaise | resume | pausedRaise | exit | closeState =>
      simp [step, halive] at h

theorem step_of_invocation {a : Action} {c : Invocation}
    (hcall : w.invocation a = some c) (h : step plat w a = some w') :
    c.env.admissible plat c.start = true ∧
      w' = c.start.performCall plat c.entry c.args c.env := by
  cases step_shape h with
  | quiet hnone =>
      rw [hcall] at hnone
      cases hnone
  | ended ha | raised ha | abandoned ha | returned ha | exited ha =>
      rw [ha] at hcall
      cases hcall
  | called hcall' hadm =>
      rw [hcall] at hcall'
      cases hcall'
      exact ⟨hadm, rfl⟩

end Shapes

end LuaServer
