import LuaServer.Standalone.Threads

/-!
# What the steps do to hooks

A step leaves `lstop` where it is, fires it, copies it to a new thread, or is
the one in which `on_int` installs it.
-/

namespace LuaServer
namespace Machine

/-- No thread got `lstop`, and none was stopped by it. -/
structure Calm (m m' : Machine) : Prop where
  hooks : forall t, m'.hook t = some .lstop -> m.hook t = some .lstop
  interrupted : m'.interrupted = m.interrupted
  sigint : m'.sigint = .onInt -> m.sigint = .onInt
  main : m'.globalLState = m.globalLState

/-- `lstop` ran as the hook of some thread and raised its error there. -/
structure Fired (m m' : Machine) : Prop where
  hooks : forall t, m'.hook t = some .lstop -> m.hook t = some .lstop
  fired : exists t, m'.interrupted = t :: m.interrupted ∧
    m.hook t = some .lstop ∧ m'.hook t ≠ some .lstop
  sigint : m'.sigint = .onInt -> m.sigint = .onInt
  main : m'.globalLState = m.globalLState

inductive HookStep (m : Machine) (action : ThreadAction) (m' : Machine) : Prop where
  | calm (h : Calm m m')
  | fired (h : Fired m m')
  | created (haction : action = .newthread) (h : m' = m.newthread)
  | handled (haction : action = .sigint) (hsigint : m.sigint = .onInt)
      (h : m' = m.onInt)

section Calm

variable {m m' m'' : Machine}

theorem Calm.refl (m : Machine) : Calm m m where
  hooks := fun _ h => h
  interrupted := rfl
  sigint := fun h => h
  main := rfl

theorem Calm.trans (h : Calm m m') (h' : Calm m' m'') : Calm m m'' where
  hooks := fun t ht => h.hooks t (h'.hooks t ht)
  interrupted := h'.interrupted.trans h.interrupted
  sigint := fun hs => h.sigint (h'.sigint hs)
  main := h'.main.trans h.main

theorem Calm.fired (h : Calm m m') (h' : Fired m' m'') : Fired m m'' where
  hooks := fun t ht => h.hooks t (h'.hooks t ht)
  fired := by
    rcases h'.fired with ⟨t, hinterrupted, hhook, hgone⟩
    exact ⟨t, h.interrupted ▸ hinterrupted, h.hooks t hhook, hgone⟩
  sigint := fun hs => h.sigint (h'.sigint hs)
  main := h'.main.trans h.main

theorem Fired.calm (h : Fired m m') (h' : Calm m' m'') : Fired m m'' where
  hooks := fun t ht => h.hooks t (h'.hooks t ht)
  fired := by
    rcases h.fired with ⟨t, hinterrupted, hhook, hgone⟩
    exact ⟨t, h'.interrupted.trans hinterrupted, hhook,
      fun ht => hgone (h'.hooks t ht)⟩
  sigint := fun hs => h.sigint (h'.sigint hs)
  main := h'.main.trans h.main

theorem setThread_calm {t : Nat} {th : LuaThread}
    (h : th.hooks.hook = some .lstop -> m.hook t = some .lstop) :
    Calm m (m.setThread t th) where
  hooks := by
    intro t' ht'
    unfold hook at ht'
    by_cases heq : t' = t
    · subst heq
      rw [threads_setThread_self] at ht'
      exact h ht'
    · rw [threads_setThread_ne heq] at ht'
      exact ht'
  interrupted := rfl
  sigint := fun hs => hs
  main := rfl

theorem setAllowhook_calm (allow : Bool) : Calm m (m.setAllowhook allow) :=
  setThread_calm fun h => h

theorem setActivations_calm (activations : List Activation) :
    Calm m (m.setActivations activations) :=
  setThread_calm fun h => h

theorem push_calm (a : Activation) : Calm m (m.push a) :=
  setActivations_calm (a :: m.thread.activations)

theorem setStatus_calm (t : Nat) (status : CoStatus) :
    Calm m (m.setStatus t status) :=
  setThread_calm fun h => h

theorem giveWay_calm : Calm m m.giveWay := by
  unfold giveWay
  split
  · exact
      { hooks := fun _ h => h
        interrupted := rfl
        sigint := fun h => nomatch h
        main := rfl }
  · exact
      { hooks := fun _ h => h
        interrupted := rfl
        sigint := fun h => h
        main := rfl }

theorem terminate_calm : Calm m m.terminate :=
  ((setActivations_calm []).trans (setStatus_calm m.current .dead)).trans
    giveWay_calm

theorem continueWith_calm (activations : List Activation) :
    Calm m (m.continueWith activations) := by
  unfold continueWith
  split
  · exact terminate_calm
  · exact setActivations_calm _

theorem luaDThrow_calm : Calm m m.luaDThrow := by
  unfold luaDThrow
  split
  · exact terminate_calm
  · exact (setAllowhook_calm _).trans (continueWith_calm _)

theorem luaGErrormsg_calm : Calm m m.luaGErrormsg := by
  unfold luaGErrormsg
  split
  · exact push_calm .errfunc
  · exact luaDThrow_calm

theorem yield_calm : Calm m m.yield := by
  unfold yield
  split
  · exact luaGErrormsg_calm
  · exact (setStatus_calm m.current .yielded).trans giveWay_calm

theorem setCurrent_calm (t : Nat) (resumers : List Nat) :
    Calm m { m with current := t, resumers := resumers } where
  hooks := fun _ h => h
  interrupted := rfl
  sigint := fun h => h
  main := rfl

end Calm

/-!
# Hooks that run
-/

section HookStep

variable {m m' : Machine} {action : ThreadAction}

theorem lstop_interrupted :
    m.lstop.interrupted = m.current :: m.interrupted :=
  luaGErrormsg_calm.interrupted

theorem unhook_hook_self : m.unhook.hook m.current = none := by
  unfold hook unhook setHooks
  rw [threads_setThread_self]
  rfl

theorem unhook_fired (hhook : m.hook m.current = some .lstop) :
    Fired m m.unhook where
  hooks := by
    intro t ht
    by_cases heq : t = m.current
    · rw [heq]
      exact hhook
    · unfold hook unhook setHooks at ht
      rw [threads_setThread_ne heq] at ht
      exact ht
  fired := by
    refine ⟨m.current, rfl, hhook, ?_⟩
    rw [unhook_hook_self]
    exact nofun
  sigint := fun h => h
  main := rfl

theorem callhook_hooks (events : List HookEvent) (returning : Bool) :
    Calm m (m.callhook events returning) ∨
      Fired m (m.callhook events returning) := by
  unfold callhook
  cases houtcome : luaDCallhook m.thread.hooks events with
  | passed =>
      refine Or.inl ?_
      cases returning with
      | false => exact Calm.refl m
      | true => exact continueWith_calm _
  | stopped =>
      exact Or.inr ((unhook_fired (hook_of_stopped houtcome).1).calm
        luaGErrormsg_calm)
  | entered rest =>
      exact Or.inl ((setAllowhook_calm false).trans (push_calm _))

theorem calm_callhook (h : Calm m m') (events : List HookEvent)
    (returning : Bool) : HookStep m action (m'.callhook events returning) := by
  rcases callhook_hooks (m := m') events returning with hcalm | hfired
  · exact .calm (h.trans hcalm)
  · exact .fired (h.fired hfired)

theorem finish_hooks {top : Activation} {below : List Activation}
    (h : m.finish top below = some m') : HookStep m action m' := by
  unfold finish at h
  split at h
  · cases h
    exact .calm (continueWith_calm _)
  · cases h
    exact calm_callhook
      ((setAllowhook_calm true).trans (setActivations_calm below)) _ _
  · cases h
    exact .calm ((setAllowhook_calm _).trans (setActivations_calm below))
  · cases h
    exact .calm luaDThrow_calm
  · cases h

theorem resume_hooks {co : Nat} (h : m.resume co = some m') :
    HookStep m action m' := by
  unfold resume at h
  have hresumed := (setStatus_calm (m := m) co .started).trans
    (setCurrent_calm co (m.current :: m.resumers))
  split at h
  · cases h
    exact calm_callhook (hresumed.trans (push_calm _)) _ _
  · cases h
    exact calm_callhook hresumed _ _
  · cases h

theorem stepC_hooks (h : m.stepC action = some m') : HookStep m action m' := by
  unfold stepC at h
  split at h
  · cases h
    exact .calm (push_calm _)
  · cases h
    exact .created rfl rfl
  next t smask count =>
    split at h
    · cases h
      exact .calm (setThread_calm fun hhook =>
        absurd hhook (dbSethook_hook_ne smask count))
    · cases h
  · exact resume_hooks h
  · cases h
    exact .calm yield_calm
  · cases h
    exact calm_callhook (Calm.refl m) _ _
  · cases h

theorem stepLua_hooks {viaC : Bool} {tailcalls : Nat} {below : List Activation}
    (h : m.stepLua viaC tailcalls below action = some m') :
    HookStep m action m' := by
  unfold stepLua at h
  split at h
  next newline =>
    cases h
    refine calm_callhook (setThread_calm fun hhook => ?_) _ _
    exact (fetch_hook newline).symm.trans hhook
  · cases h
    exact calm_callhook (setActivations_calm _) _ _
  · cases h
    exact calm_callhook (Calm.refl m) _ _
  · cases h

theorem stepFunction_hooks {top : Activation} {below : List Activation}
    (h : m.stepFunction top below action = some m') : HookStep m action m' := by
  unfold stepFunction at h
  split at h
  · exact stepLua_hooks h
  · exact stepC_hooks h
  · cases h

theorem deliver_hooks (haction : action = .sigint) (h : m' = m.deliver) :
    HookStep m action m' := by
  cases hsigint : m.sigint with
  | onInt =>
      rw [deliver_onInt hsigint] at h
      exact .handled haction hsigint h
  | default =>
      rw [h, deliver_default hsigint]
      exact .calm
        { hooks := fun _ ht => ht
          interrupted := rfl
          sigint := fun hs => hs
          main := rfl }

theorem stepAny_hooks {top : Activation} {below : List Activation}
    (h : m.stepAny top below action = some m') : HookStep m action m' := by
  unfold stepAny at h
  split at h
  · cases h
    exact calm_callhook (push_calm _) _ _
  · cases h
    exact .calm ((setAllowhook_calm false).trans (push_calm _))
  · exact finish_hooks h
  · cases h
    exact .calm luaGErrormsg_calm
  · cases h
    exact .calm luaDThrow_calm
  · cases h
    exact deliver_hooks rfl rfl
  · exact stepFunction_hooks h

theorem step_hooks (h : m.step action = some m') : HookStep m action m' := by
  rcases step_running h with ⟨_, _, _, _, hstep⟩
  exact stepAny_hooks hstep

end HookStep

end Machine
end LuaServer
