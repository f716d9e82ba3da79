import LuaServer.Interpreter.Confined

/-!
# Suspended calls

Frames and suspended calls make one stack.  A suspended call stands on the frames
that there were when it was suspended, and as long as it is the topmost C function no
frame below it takes a step, so that Lua code goes on running inside all of them.
-/

namespace LuaServer

open Library

def Frame.runsLua (fr : Frame) : Bool :=
  match fr.code with
  | [] => false
  | c :: _ => c.mayRunLua

/-- Suspended calls stand on frames that are there and run Lua. -/
structure World.PausesSound (w : World) : Prop where
  depth_le : forall p, p ∈ w.paused -> p.depth ≤ w.frames.length
  inPause : w.inPause = true -> forall fr, fr ∈ w.frames -> fr.runsLua = true

/-- A suspended call has been through the header and the check of its argument. -/
structure World.PausesChecked (w : World) : Prop where
  started : w.paused ≠ [] -> w.socketsInitialized = true
  socket : forall p q, p ∈ w.paused -> p.point.iSocket? = some q ->
    q ≠ .null ∧ (p.args.headD .nil).toUserdata = q

/--
A call that goes on has been through the header, and what a call reads is the socket
in its argument.
-/
structure Invocation.Checked (plat : Platform) (c : Invocation) : Prop where
  started : c.entry.hasHeader = false -> c.start.socketsInitialized = true
  socket : forall p, c.start.derefs plat c.env c.args c.entry = some p ->
    p ≠ .null ∧ (c.args.headD .nil).toUserdata = p

/-- What a call of the library does to the calls in progress. -/
inductive CallsChange (c : Invocation) (v : World) : Prop where
  | kept :
      v.frames = c.start.frames -> v.paused = c.start.paused -> CallsChange c v
  | started {i : Issue} :
      v.frames = initialFrame c.f i :: c.start.frames ->
      v.paused = c.start.paused -> CallsChange c v
  | suspended {args : List Value} {point : PausePoint} :
      v.frames = c.start.frames ->
      v.paused = ⟨args, point, c.start.frames.length⟩ :: c.start.paused ->
      CallsChange c v

/-- What a step does to the calls in progress. -/
inductive PausesStep (w w' : World) : Prop where
  | kept :
      w'.frames = w.frames -> (forall p, p ∈ w'.paused -> p ∈ w.paused) ->
      PausesStep w w'
  | started {fr : Frame} :
      w.canRunLua = true -> w'.frames = fr :: w.frames ->
      (forall p, p ∈ w'.paused -> p ∈ w.paused) -> PausesStep w w'
  | suspended {p : Paused} :
      w.canRunLua = true -> w'.frames = w.frames ->
      p.depth = w.frames.length ->
      (forall q, q ∈ w'.paused -> q = p ∨ q ∈ w.paused) -> PausesStep w w'
  | advanced {fr : Frame} {rest : List Frame} :
      w.inPause = false -> w.frames = fr :: rest ->
      (exists fr', w'.frames = fr' :: rest) ∨ w'.frames = rest ->
      w'.paused = w.paused -> PausesStep w w'

section Steps

variable {plat : Platform} {w w' : World} {a : Action} {c : Invocation}

theorem performCall_calls (hadm : c.env.admissible plat c.start = true) :
    CallsChange c (c.start.performCall plat c.entry c.args c.env) := by
  have houtcome := @enter_outcome plat c.env c.args c.start hadm c.entry
  have hframes := outcome_frames houtcome
  have hpaused := outcome_paused houtcome
  unfold World.performCall
  generalize enter plat c.env c.args c.entry c.start = r at houtcome hframes hpaused
  cases r with
  | error exit v =>
      cases exit with
      | raise | crash => exact .kept hframes hpaused
  | ok reply v =>
      cases reply with
      | values vs => exact .kept hframes hpaused
      | building fr =>
          rcases outcome_building houtcome with ⟨i, rfl⟩
          exact .started (congrArg (List.cons _) hframes) hpaused
      | paused args point =>
          refine @CallsChange.suspended _ _ args point hframes ?_
          show ⟨args, point, v.frames.length⟩ :: v.paused = _
          rw [show v.frames = _ from hframes, show v.paused = _ from hpaused]

theorem pauses_called (hcall : w.invocation a = some c)
    (hadm : c.env.admissible plat c.start = true) (hrun : w.canRunLua = true) :
    PausesStep w (c.start.performCall plat c.entry c.args c.env) := by
  have hstart : c.start.frames = w.frames := by
    rcases invocation_start hcall with ⟨L, paused, hstart⟩
    rw [hstart]
  have hmem := fun p => @mem_paused_start w a c hcall p
  cases performCall_calls hadm with
  | kept hframes hpaused =>
      rw [hstart] at hframes
      exact .kept hframes fun p hp => hmem p (hpaused ▸ hp)
  | started hframes hpaused =>
      rw [hstart] at hframes
      exact .started hrun hframes fun p hp => hmem p (hpaused ▸ hp)
  | @suspended args point hframes hpaused =>
      rw [hstart] at hframes hpaused
      refine @PausesStep.suspended _ _ ⟨args, point, w.frames.length⟩ hrun
        hframes rfl ?_
      intro q hq
      rw [hpaused] at hq
      rcases List.mem_cons.mp hq with rfl | hold
      · exact Or.inl rfl
      · exact Or.inr (hmem q hold)

theorem step_pauses (hstep : step plat w a = some w') : PausesStep w w' := by
  cases step_shape hstep with
  | quiet _ _ hframes =>
      rcases hframes with hsame | ⟨hpause, fr, fr', rest, hframes, hframes'⟩
      · exact .kept hsame fun _ hp => hp
      · exact .advanced hpause hframes (Or.inl ⟨fr', hframes'⟩) rfl
  | ended => exact .kept rfl fun _ hp => hp
  | raised _ hframes hpause => exact .advanced hpause hframes (Or.inr rfl) rfl
  | abandoned _ hpaused =>
      refine .kept rfl fun p hp => ?_
      rw [hpaused]
      exact List.mem_cons_of_mem _ hp
  | returned _ hframes _ hpause =>
      exact .advanced hpause hframes (Or.inr rfl) rfl
  | called hcall hadm hrun => exact pauses_called hcall hadm hrun
  | exited =>
      have hframes := @exit_frames plat w
      rcases @exit_state plat w with ⟨L, handles, log, hexit⟩
      refine .kept hframes fun p hp => ?_
      rw [hexit] at hp
      exact hp

theorem inPause_iff {v : World} :
    v.inPause = true <->
      exists p, p ∈ v.paused ∧ p.depth = v.frames.length := by
  unfold World.inPause
  rw [List.any_eq_true]
  simp only [decide_eq_true_eq]

/-- Lua code runs inside calls that can run it. -/
theorem World.PausesSound.runsLua (h : w.PausesSound)
    (hsuspended : forall fr, fr ∈ w.frames.tail -> fr.runsLua = true)
    (hrun : w.canRunLua = true) :
    forall fr, fr ∈ w.frames -> fr.runsLua = true := by
  unfold World.canRunLua at hrun
  rw [Bool.and_eq_true, Bool.or_eq_true] at hrun
  rcases hrun.2 with hpause | htop
  · exact h.inPause hpause
  · intro x hx
    cases hframes : w.frames with
    | nil =>
        rw [hframes] at hx
        cases hx
    | cons fr rest =>
        rw [hframes] at hx htop hsuspended
        rcases List.mem_cons.mp hx with rfl | hrest
        · exact htop
        · exact hsuspended x hrest

theorem step_pausesSound (h : w.PausesSound)
    (hsuspended : forall fr, fr ∈ w.frames.tail -> fr.runsLua = true)
    (hstep : step plat w a = some w') : w'.PausesSound := by
  have hruns := h.runsLua hsuspended
  cases step_pauses hstep with
  | kept hframes hpaused =>
      constructor
      · intro p hp
        rw [hframes]
        exact h.depth_le p (hpaused p hp)
      · intro hpause
        rcases inPause_iff.mp hpause with ⟨p, hp, hdepth⟩
        rw [hframes] at hdepth ⊢
        exact h.inPause (inPause_iff.mpr ⟨p, hpaused p hp, hdepth⟩)
  | started hrun hframes hpaused =>
      have hlength : w'.frames.length = w.frames.length + 1 := by rw [hframes]; rfl
      constructor
      · intro p hp
        rw [hlength]
        exact Nat.le_succ_of_le (h.depth_le p (hpaused p hp))
      · intro hpause
        rcases inPause_iff.mp hpause with ⟨p, hp, hdepth⟩
        have hle := h.depth_le p (hpaused p hp)
        omega
  | suspended hrun hframes hdepth hpaused =>
      rw [← hframes] at hdepth
      constructor
      · intro q hq
        rcases hpaused q hq with rfl | hold
        · exact Nat.le_of_eq hdepth
        · rw [hframes]
          exact h.depth_le q hold
      · intro _ fr hfr
        rw [hframes] at hfr
        exact hruns hrun fr hfr
  | @advanced fr rest hpause hframes hframes' hpaused =>
      -- no suspended call stands on all of the frames
      have hbelow : forall p, p ∈ w.paused -> p.depth ≤ rest.length := by
        intro p hp
        have hle := h.depth_le p hp
        have hne : p.depth ≠ w.frames.length := fun heq =>
          Bool.false_ne_true (hpause.symm.trans (inPause_iff.mpr ⟨p, hp, heq⟩))
        rw [hframes, List.length_cons] at hle hne
        omega
      rw [hframes] at hsuspended
      rcases hframes' with ⟨fr', hadvanced⟩ | hended
      · constructor
        · intro p hp
          rw [hadvanced]
          exact Nat.le_succ_of_le (hbelow p (hpaused ▸ hp))
        · intro hpause'
          rcases inPause_iff.mp hpause' with ⟨p, hp, hdepth⟩
          have hle := hbelow p (hpaused ▸ hp)
          rw [hadvanced, List.length_cons] at hdepth
          omega
      · constructor
        · intro p hp
          rw [hended]
          exact hbelow p (hpaused ▸ hp)
        · intro _ x hx
          rw [hended] at hx
          exact hsuspended x hx

theorem initialWorld_pausesSound : initialWorld.PausesSound where
  depth_le := fun _ hp => by cases hp
  inPause := fun hpause => by cases hpause

/-!
# The checks before a suspension
-/

theorem afterHeader_flag : w.afterHeader.socketsInitialized = true := by
  unfold World.afterHeader
  split
  · assumption
  · rfl

theorem luaVTostring_headD {env : Env} {args args' : List Value}
    (h : luaVTostring env args 2 = some args') :
    args'.headD .nil = args.headD .nil := by
  unfold luaVTostring at h
  split at h
  · cases h
    cases args with
    | nil | cons => rfl
  · cases h

/-- A call is suspended behind its header and the check of its socket. -/
theorem outcome_suspends {args args' : List Value} {env : Env} {entry : Entry}
    {point : PausePoint} {v : World}
    (h : Outcome plat env args w entry (.ok (.paused args' point) v)) :
    entry.hasHeader = true ∧ forall q, point.iSocket? = some q ->
      q ≠ .null ∧ (args'.headD .nil).toUserdata = q := by
  cases h with
  | @converting f p _ _ hsocket _ hpass hconvert _ hpoint =>
      refine ⟨hasHeader_of_takesSocket hsocket, ?_⟩
      intro q hq
      rw [hpoint] at hq
      cases hq
      rcases LuaState.checkudata_eq_some_iff.mp hpass with ⟨hp, hne, _⟩
      rw [luaVTostring_headD hconvert]
      exact ⟨hne, hp⟩
  | acted hsocket hderefs _ hact =>
      generalize hf : entry.f = f at hact
      cases hact with
      | received =>
          refine ⟨?_, by simp [PausePoint.iSocket?]⟩
          cases entry with
          | call f => exact hasHeader_of_takesSocket hsocket
          | resume point =>
              cases point with
              | bind | send => cases hf
              | recv => cases (checks_of_derefs hsocket hderefs).1

theorem outcome_flag {args : List Value} {env : Env} {entry : Entry}
    {r : EStateM.Result Exit World Reply} (h : Outcome plat env args w entry r)
    (hflag : w.socketsInitialized = true ∨ entry.hasHeader = true ∧
      exists reply v, r = .ok reply v) :
    (finalState r).socketsInitialized = true := by
  rcases outcome_undisturbed h with ⟨_, _, rfl⟩ | hsame
  · rcases hflag with hset | ⟨_, _, _, hok⟩
    · exact hset
    · cases hok
  · rw [hsame.socketsInitialized]
    unfold World.entered
    split
    · exact afterHeader_flag
    · rename_i hheader
      exact hflag.resolve_right fun hno => hheader hno.1

theorem called_pausesChecked (h : w.PausesChecked)
    (hcall : w.invocation a = some c)
    (hadm : c.env.admissible plat c.start = true) :
    (c.start.performCall plat c.entry c.args c.env).PausesChecked := by
  have houtcome := @enter_outcome plat c.env c.args c.start hadm c.entry
  have hpaused := outcome_paused houtcome
  have hflag := @outcome_flag plat c.start c.args c.env c.entry _ houtcome
  have hmem : forall p, p ∈ c.start.paused -> p ∈ w.paused :=
    fun _ => mem_paused_start hcall
  rw [start_socketsInitialized hcall] at hflag
  have hkept : forall {v : World}, v.paused = c.start.paused ->
      (w.socketsInitialized = true -> v.socketsInitialized = true) ->
      v.PausesChecked := by
    intro v hv hset
    constructor
    · intro hne
      apply hset
      rcases List.exists_mem_of_ne_nil _ hne with ⟨p, hp⟩
      exact h.started (List.ne_nil_of_mem (hmem p (hv ▸ hp)))
    · exact fun p q hp => h.socket p q (hmem p (hv ▸ hp))
  unfold World.performCall
  generalize enter plat c.env c.args c.entry c.start = r at houtcome hpaused hflag
  cases r with
  | error exit v =>
      cases exit with
      | raise | crash => exact hkept hpaused fun hset => hflag (Or.inl hset)
  | ok reply v =>
      cases reply with
      | values | building => exact hkept hpaused fun hset => hflag (Or.inl hset)
      | paused args' point =>
          rcases outcome_suspends houtcome with ⟨hheader, hpoint⟩
          constructor
          · exact fun _ => hflag (Or.inr ⟨hheader, _, _, rfl⟩)
          · intro p q hp
            rcases List.mem_cons.mp hp with rfl | hold
            · exact hpoint q
            · exact h.socket p q (hmem p (hpaused ▸ hold))

theorem step_pausesChecked (h : w.PausesChecked)
    (hstep : step plat w a = some w') : w'.PausesChecked := by
  cases step_shape hstep with
  | quiet | ended | raised | returned => exact ⟨h.started, h.socket⟩
  | abandoned _ hpaused =>
      constructor
      · exact fun _ => h.started (by simp [hpaused])
      · exact fun p q hp => h.socket p q (by simp [hpaused, hp])
  | called hcall hadm => exact called_pausesChecked h hcall hadm
  | exited _ _ hnone =>
      have hpaused : (w.exit plat).paused = [] := by
        rcases @exit_state plat w with ⟨L, handles, log, hexit⟩
        rw [hexit]
        exact hnone
      exact ⟨fun hne => absurd hpaused hne, fun p q hp => by
        rw [hpaused] at hp
        cases hp⟩

theorem initialWorld_pausesChecked : initialWorld.PausesChecked where
  started := fun hne => absurd rfl hne
  socket := fun _ _ hp => by cases hp

theorem checked_of_invocation (h : w.PausesChecked)
    (hcall : w.invocation a = some c) (hf : c.f ≠ .onCollectSocket) :
    c.Checked plat := by
  rcases entry_of_invocation hcall with
    ⟨f, hentry, _⟩ | ⟨p, rest, hpaused, hentry, hargs, _⟩
  · have hcollect : f ≠ .onCollectSocket := by
      rintro rfl
      exact hf (by rw [Invocation.f, hentry]; rfl)
    constructor
    · rw [hentry, hasHeader_of_ne hcollect]
      intro hheader
      cases hheader
    · intro p hderefs
      rw [hentry] at hderefs
      exact ⟨ne_null_of_passes
        (checks_call.mp (derefs_call_checks hcollect hderefs)).2.2,
        derefs_toUserdata hderefs⟩
  · constructor
    · intro _
      rw [start_socketsInitialized hcall]
      exact h.started (by simp [hpaused])
    · intro q hderefs
      rw [hentry] at hderefs
      rw [hargs]
      apply h.socket p q (by simp [hpaused])
      exact (checks_of_derefs (point_takesSocket _) hderefs).1

theorem reachable_pausesChecked (h : ReachableWorld plat w) : w.PausesChecked :=
  reachable_invariant (fun _ _ _ hs hstep => step_pausesChecked hs hstep)
    initialWorld_pausesChecked h

end Steps

end LuaServer
