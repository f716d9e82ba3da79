import LuaServer.Standalone.HookSteps

/-!
# Interrupts

`on_int` sets the hook of the thread in `globalLState`, whichever thread is
executing, and `luaE_newthread` copies the hook of the thread that calls it.
Ctrl-C stops the code that is running exactly if that is code of the main thread,
run neither by a hook nor by a finalizer.
-/

namespace LuaServer

open Library

def ThreadAction.isHookPoint : ThreadAction -> Bool
  | instruction _ => true
  | call _ _ => true
  | tailcall => true
  | ret => true
  | _ => false

namespace Machine

/--
The thread that is executing has `lstop` installed, and its next instruction,
call or return raises the error of `lstop` in it.
-/
structure Stops (m : Machine) : Prop where
  installed : m.hook m.current = some .lstop
  raises : forall action m', action.isHookPoint = true ->
    m.step action = some m' -> m'.interrupted = m.current :: m.interrupted

/-- `on_int`, run while Lua code executes, stops that code. -/
def CtrlCReaches (m : Machine) (action : ThreadAction) : Prop :=
  action = .sigint -> m.sigint = .onInt -> m.ExecutesLua -> m.deliver.Stops

/-- After `lstop` has fired, no thread has it installed. -/
def LstopGone (m : Machine) : Prop :=
  m.interrupted ≠ [] -> forall t, m.hook t ≠ some .lstop

/-- `on_int`, run while Lua code executes, finds the main thread with hooks allowed. -/
def CtrlCInMain (m : Machine) (action : ThreadAction) : Prop :=
  action = .sigint -> m.sigint = .onInt -> m.ExecutesLua ->
    m.current = m.globalLState ∧ m.thread.hooks.allowhook = true

/-- A thread with `lstop` installed creates no thread. -/
def CreatesUnhooked (m : Machine) (action : ThreadAction) : Prop :=
  action = .newthread -> m.hook m.current ≠ some .lstop

instance (m : Machine) (action : ThreadAction) :
    Decidable (m.CtrlCInMain action) :=
  inferInstanceAs (Decidable (_ -> _ -> _ -> _ ∧ _))

instance (m : Machine) (action : ThreadAction) :
    Decidable (m.CreatesUnhooked action) :=
  inferInstanceAs (Decidable (_ -> _))

/-- As long as `on_int` handles `SIGINT`, it has not run. -/
def Armed (m : Machine) : Prop :=
  m.sigint = .onInt ->
    m.interrupted = [] ∧ forall t, m.hook t ≠ some .lstop

/-- Only the main thread has `lstop`, and not after it has fired. -/
structure Solitary (m : Machine) : Prop where
  main : forall t, m.hook t = some .lstop -> t = m.globalLState
  gone : m.interrupted ≠ [] -> m.hook m.globalLState ≠ some .lstop

section Interrupts

variable {m m' : Machine} {action : ThreadAction}

/-!
# Delivery
-/

theorem onInt_hook_ne {t : Nat} (hne : t ≠ m.globalLState) :
    m.onInt.hook t = m.hook t :=
  congrArg (fun th => th.hooks.hook) (threads_setThread_ne hne)

/-- In the main thread, `on_int` changes the hook of the thread that executes. -/
theorem onInt_hooks (hmain : m.current = m.globalLState) :
    m.onInt.thread.hooks = m.thread.hooks.onInt := by
  show (m.onInt.threads m.current).hooks = (m.threads m.current).hooks.onInt
  rw [hmain]
  exact congrArg LuaThread.hooks threads_setThread_self

theorem onInt_activations :
    m.onInt.thread.activations = m.thread.activations := by
  show (m.onInt.threads m.current).activations = m.thread.activations
  by_cases hmain : m.current = m.globalLState
  · unfold thread onInt setHooks
    rw [hmain, threads_setThread_self]
  · exact congrArg LuaThread.activations (threads_setThread_ne hmain)

/-!
# Where the code stops
-/

theorem callhook_stops {event : HookEvent} {rest : List HookEvent}
    (hhook : m.thread.hooks.hook = some .lstop)
    (hallow : m.thread.hooks.allowhook = true)
    (hdue : m.thread.hooks.due event = true) (returning : Bool) :
    (m.callhook (event :: rest) returning).interrupted =
      m.current :: m.interrupted := by
  unfold callhook
  rw [callhook_lstop hhook hallow hdue]
  exact lstop_interrupted

theorem callhook_passes (hallow : m.thread.hooks.allowhook = false)
    (events : List HookEvent) : m.callhook events false = m := by
  unfold callhook
  rw [callhook_disallowed hallow]
  rfl

theorem fetch_onInt (L : HookState) (newline : Bool) :
    L.onInt.fetch newline =
      ({ L.onInt with hookcount := 1 }, [.count]) := rfl

theorem setActivations_hooks (activations : List Activation) :
    (m.setActivations activations).thread.hooks = m.thread.hooks := by
  unfold setActivations
  rw [thread_setThread]

section Stopping

variable {L : HookState}

theorem stepLua_stops (hhooks : m.thread.hooks = L.onInt)
    (hallow : L.allowhook = true) {viaC : Bool} {tailcalls : Nat}
    {below : List Activation}
    (h : m.stepLua viaC tailcalls below action = some m') :
    m'.interrupted = m.current :: m.interrupted := by
  unfold stepLua at h
  rw [hhooks] at h
  split at h
  next newline =>
    rw [fetch_onInt] at h
    cases h
    refine callhook_stops ?_ ?_ rfl false
    · rw [thread_setHooks]
      rfl
    · rw [thread_setHooks]
      exact hallow
  next =>
    cases h
    refine callhook_stops ?_ ?_ rfl false
    · rw [setActivations_hooks, hhooks]
      rfl
    · rw [setActivations_hooks, hhooks]
      exact hallow
  next =>
    cases h
    refine callhook_stops ?_ ?_ rfl true
    · rw [hhooks]
      rfl
    · rw [hhooks]
      exact hallow
  next => cases h

theorem luaDPrecall_stops (hhooks : m.thread.hooks = L.onInt)
    (hallow : L.allowhook = true) (isC metamethod : Bool) (top : Activation) :
    (m.luaDPrecall isC metamethod top).interrupted =
      m.current :: m.interrupted := by
  unfold luaDPrecall
  rw [hhooks]
  refine callhook_stops ?_ ?_ rfl false
  · unfold push
    rw [setActivations_hooks, hhooks]
    rfl
  · unfold push
    rw [setActivations_hooks, hhooks]
    exact hallow

theorem return_stops (hhooks : m.thread.hooks = L.onInt)
    (hallow : L.allowhook = true) (tailcalls : Nat) :
    (m.callhook (m.thread.hooks.poscall tailcalls) true).interrupted =
      m.current :: m.interrupted := by
  rw [hhooks]
  refine callhook_stops ?_ ?_ rfl true
  · rw [hhooks]
    rfl
  · rw [hhooks]
    exact hallow

theorem stepC_stops (hhooks : m.thread.hooks = L.onInt)
    (hallow : L.allowhook = true) (hpoint : action.isHookPoint = true)
    (h : m.stepC action = some m') :
    m'.interrupted = m.current :: m.interrupted := by
  cases action with
  | ret =>
      cases h
      exact return_stops hhooks hallow 0
  | instruction newline => cases h
  | call isC metamethod => cases h
  | tailcall => cases h
  | _ => cases hpoint

theorem stepFunction_stops (hhooks : m.thread.hooks = L.onInt)
    (hallow : L.allowhook = true) (hpoint : action.isHookPoint = true)
    {top : Activation} {below : List Activation}
    (h : m.stepFunction top below action = some m') :
    m'.interrupted = m.current :: m.interrupted := by
  cases top with
  | lua viaC tailcalls => exact stepLua_stops hhooks hallow h
  | c viaC => exact stepC_stops hhooks hallow hpoint h
  | _ => cases h

theorem stops_of_onInt (hhooks : m.thread.hooks = L.onInt)
    (hallow : L.allowhook = true) : m.Stops where
  installed := congrArg HookState.hook hhooks
  raises := by
    intro action m' hpoint hstep
    rcases step_running hstep with ⟨_, top, below, _, h⟩
    cases action with
    | call isC metamethod =>
        cases h
        exact luaDPrecall_stops hhooks hallow isC metamethod top
    | instruction newline => exact stepFunction_stops hhooks hallow hpoint h
    | tailcall => exact stepFunction_stops hhooks hallow hpoint h
    | ret => exact stepFunction_stops hhooks hallow hpoint h
    | _ => cases hpoint

end Stopping

theorem instruction_passes (hphase : m.phase = .running) (hlua : m.ExecutesLua)
    (hallow : m.thread.hooks.allowhook = false) :
    exists m', m.step (.instruction false) = some m' ∧
      m'.interrupted = m.interrupted := by
  unfold ExecutesLua at hlua
  cases hstack : m.thread.activations with
  | nil =>
      rw [hstack] at hlua
      cases hlua
  | cons top below =>
      rw [hstack] at hlua
      cases top with
      | lua viaC tailcalls =>
          refine ⟨(m.setHooks m.current (m.thread.hooks.fetch false).1).callhook
            (m.thread.hooks.fetch false).2 false, ?_, ?_⟩
          · unfold step
            rw [hphase, hstack]
            rfl
          · rw [callhook_passes]
            · rfl
            · rw [thread_setHooks, fetch_allowhook]
              exact hallow
      | _ => cases hlua

/-- Ctrl-C reaches the code that is running exactly in the main thread, where hooks may run. -/
theorem onInt_stops_iff (harmed : forall t, m.hook t ≠ some .lstop)
    (hphase : m.phase = .running) (hlua : m.ExecutesLua) :
    m.onInt.Stops <->
      m.current = m.globalLState ∧ m.thread.hooks.allowhook = true := by
  constructor
  · intro hstops
    have hmain : m.current = m.globalLState := by
      by_contra hne
      apply harmed m.current
      rw [← onInt_hook_ne hne]
      exact hstops.installed
    refine ⟨hmain, ?_⟩
    cases hallow : m.thread.hooks.allowhook with
    | true => rfl
    | false =>
        have hlua' : m.onInt.ExecutesLua := by
          unfold ExecutesLua
          rw [onInt_activations]
          exact hlua
        have hallow' : m.onInt.thread.hooks.allowhook = false := by
          rw [onInt_hooks hmain]
          exact hallow
        rcases instruction_passes (m := m.onInt) hphase hlua' hallow' with ⟨m', hstep, hsame⟩
        have hraised := hstops.raises (.instruction false) m' rfl hstep
        rw [hsame] at hraised
        exact absurd hraised.symm (List.cons_ne_self _ _)
  · rintro ⟨hmain, hallow⟩
    exact stops_of_onInt (onInt_hooks hmain) hallow

/-!
# Along a run
-/

theorem newthread_hooks {t : Nat} (h : m.newthread.hook t = some .lstop) :
    m.hook t = some .lstop ∨ m.hook m.current = some .lstop := by
  by_cases heq : t = m.nextThread
  · subst heq
    refine Or.inr ?_
    have hcopy : m.newthread.hook m.nextThread = m.hook m.current :=
      congrArg (fun th => th.hooks.hook) threads_setThread_self
    exact hcopy.symm.trans h
  · refine Or.inl ?_
    have hkept : m.newthread.hook t = m.hook t :=
      congrArg (fun th => th.hooks.hook) (threads_setThread_ne heq)
    exact hkept.symm.trans h

theorem armed_step (harmed : m.Armed) (hstep : m.step action = some m') :
    m'.Armed := by
  intro hsigint
  cases step_hooks hstep with
  | calm h =>
      rcases harmed (h.sigint hsigint) with ⟨hnone, hhooks⟩
      exact ⟨h.interrupted.trans hnone, fun t ht => hhooks t (h.hooks t ht)⟩
  | fired h =>
      rcases h.fired with ⟨t, _, hhook, _⟩
      exact absurd hhook ((harmed (h.sigint hsigint)).2 t)
  | created _ h =>
      subst h
      rcases harmed hsigint with ⟨hnone, hhooks⟩
      refine ⟨hnone, fun t ht => ?_⟩
      rcases newthread_hooks ht with hold | hold
      · exact hhooks t hold
      · exact hhooks m.current hold
  | handled _ _ h =>
      subst h
      cases hsigint

theorem solitary_step (harmed : m.Armed) (hsolitary : m.Solitary)
    (hcond : m.CreatesUnhooked action) (hstep : m.step action = some m') :
    m'.Solitary := by
  cases step_hooks hstep with
  | calm h =>
      exact
        { main := fun t ht => (hsolitary.main t (h.hooks t ht)).trans h.main.symm
          gone := by
            rw [h.interrupted, h.main]
            exact fun hne ht => hsolitary.gone hne (h.hooks _ ht) }
  | fired h =>
      rcases h.fired with ⟨t, _, hhook, hgone⟩
      rw [hsolitary.main t hhook, ← h.main] at hgone
      exact
        { main := fun t ht => (hsolitary.main t (h.hooks t ht)).trans h.main.symm
          gone := fun _ => hgone }
  | created haction h =>
      subst h
      have hold : forall t, m.newthread.hook t = some .lstop ->
          m.hook t = some .lstop := fun t ht =>
        (newthread_hooks ht).resolve_right (hcond haction)
      exact
        { main := fun t ht => hsolitary.main t (hold t ht)
          gone := fun hne ht => hsolitary.gone hne (hold _ ht) }
  | handled _ hsigint h =>
      subst h
      rcases harmed hsigint with ⟨hnone, hhooks⟩
      refine { main := fun t ht => ?_, gone := fun hne => absurd hnone hne }
      by_contra hne
      rw [onInt_hook_ne (m := m) hne] at ht
      exact hhooks t ht

theorem lstopGone_of_solitary (h : m.Solitary) : m.LstopGone := by
  intro hfired t ht
  rw [h.main t ht] at ht
  exact h.gone hfired ht

theorem doluacall_hook (t : Nat) : doluacall.hook t = none := by
  by_cases heq : t = 0
  · subst heq
    rfl
  · simp [hook, doluacall, heq]

theorem doluacall_armed : doluacall.Armed := by
  intro _
  refine ⟨rfl, fun t ht => ?_⟩
  rw [doluacall_hook] at ht
  cases ht

theorem doluacall_solitary : doluacall.Solitary where
  main := by
    intro t ht
    rw [doluacall_hook] at ht
    cases ht
  gone := fun hne => absurd rfl hne

theorem ctrlCReaches_iff (harmed : m.Armed) (hstep : m.step action = some m') :
    m.CtrlCReaches action <-> m.CtrlCInMain action := by
  have hphase := (step_running hstep).1
  unfold CtrlCReaches CtrlCInMain
  refine imp_congr_right fun _ => imp_congr_right fun hsigint =>
    imp_congr_right fun hlua => ?_
  rw [deliver_onInt hsigint]
  exact onInt_stops_iff (harmed hsigint).2 hphase hlua

end Interrupts

/--
In a run of a script, Ctrl-C reaches the code that is running exactly as long as
it arrives in the main thread while hooks are allowed; and `lstop` is gone after
it has fired if no thread that has it creates another.
-/
theorem ctrlCReaches_iff_inMain {actions : List ThreadAction} {m : Machine}
    (hrun : runFrom step doluacall actions = some m) :
    (AllSteps step CtrlCReaches doluacall actions <->
      AllSteps step CtrlCInMain doluacall actions) ∧
    (AllSteps step CreatesUnhooked doluacall actions ->
      AllStates step LstopGone doluacall actions) := by
  constructor
  · exact @allSteps_congr _ _ step Armed CtrlCReaches CtrlCInMain
      (fun _ _ _ harmed hstep => ctrlCReaches_iff harmed hstep)
      (fun _ _ _ harmed _ hstep => armed_step harmed hstep)
      doluacall m actions doluacall_armed hrun
  · intro hsteps before after mid heq hbefore
    rw [heq, allSteps_append hbefore] at hsteps
    have hboth : mid.Armed ∧ mid.Solitary := by
      refine @runFrom_invariant _ _ _ (fun x => x.Armed ∧ x.Solitary)
        CreatesUnhooked ?_ doluacall mid before
        ⟨doluacall_armed, doluacall_solitary⟩ hsteps.1 hbefore
      rintro x a y ⟨harmed, hsolitary⟩ hcond hstep
      exact ⟨armed_step harmed hstep, solitary_step harmed hsolitary hcond hstep⟩
    exact lstopGone_of_solitary hboth.2

/-- Ctrl-C in a loop of the main chunk. -/
def mainLoop : List ThreadAction := [.instruction true, .sigint, .instruction false]

theorem mainLoop_stopped :
    (exists m, runFrom step doluacall mainLoop = some m ∧ m.interrupted = [0]) ∧
      AllSteps step CtrlCReaches doluacall mainLoop ∧
      AllStates step LstopGone doluacall mainLoop := by
  have hrun := ctrlCReaches_iff_inMain
    (show runFrom step doluacall mainLoop = some _ from rfl)
  exact ⟨⟨_, rfl, rfl⟩, hrun.1.mpr (by decide), hrun.2 (by decide)⟩

/-- Ctrl-C while the main chunk has resumed a coroutine, which loops. -/
def coroutineLoop : List ThreadAction :=
  [.call true false, .newthread, .ret, .call true false, .resume 1,
    .instruction true, .sigint, .instruction false]

/--
Ctrl-C while a hook function of the main thread runs, which then creates a
coroutine: `lstop` fires after the hook has returned.
-/
def hookCreates : List ThreadAction :=
  [.call true false, .sethook 0 (some []) 1, .ret, .instruction true,
    .call false false, .sigint, .call true false, .newthread, .ret, .ret, .finish,
    .instruction false]

theorem ctrlC_misses :
    ¬AllSteps step CtrlCReaches doluacall coroutineLoop ∧
      ¬AllStates step LstopGone doluacall hookCreates := by
  constructor
  · intro h
    have hinstalled : AllSteps step
        (fun m action => action = .sigint -> m.sigint = .onInt ->
          m.ExecutesLua -> m.deliver.hook m.deliver.current = some .lstop)
        doluacall coroutineLoop := by
      refine AllSteps.imp ?_ h
      exact fun m action hreaches haction hsigint hlua =>
        (hreaches haction hsigint hlua).installed
    revert hinstalled
    decide
  · intro h
    have hcopy : (runFrom step doluacall hookCreates).any (fun m =>
        decide (m.interrupted = [0] ∧ m.hook 1 = some .lstop)) = true := by
      decide +kernel
    rcases (Option.any_eq_true _ _).mp hcopy with ⟨m, hrun, hm⟩
    rcases of_decide_eq_true hm with ⟨hfired, hhook⟩
    refine h hookCreates [] m (List.append_nil _).symm hrun ?_ 1 hhook
    rw [hfired]
    exact List.cons_ne_nil 0 []

end Machine

end LuaServer
