import LuaServer.Interpreter.Suspended
import LuaServer.Library.Bracket

/-!
# The bracket of the socket subsystem

Every library function starts the subsystem if the flag says that it is not
started, and `lua_onexit` shuts it down.  Afterwards `lua_close` still runs
finalizers, which may call the library again, and the flag still says that the
subsystem is started.
-/

namespace LuaServer

open Library

/-- The operations of `__gc` are not among the work that is looked at. -/
def bracketSignal : Event -> Option Signal
  | .startup true => some .start
  | .shutdown => some .stop
  | .os call => if call.caller = .onCollectSocket then none else some .work
  | _ => none

/--
Work lies between the start and the shutdown; there is at most one successful
start, and the flag is set exactly if there was one; a run past `lua_onexit` has
shut down what it started.
-/
structure Bracketed (w : World) : Prop where
  operations : Past (Inside bracketSignal) w.log
  once : starts bracketSignal w.log ≤ 1
  retry : w.socketsInitialized = true <-> 0 < starts bracketSignal w.log
  shutdown : stops bracketSignal w.log =
    if w.phase = .running then 0 else starts bracketSignal w.log

/-- The call gets as far as an operation of the operating system. -/
def Invocation.reachesOs (plat : Platform) (c : Invocation) : Bool :=
  match c.entry with
  | .call .create => headerSucceeds plat c.env c.start
  | entry =>
      (c.start.derefs plat c.env c.args entry).isSome &&
        (decide (entry.f ≠ .bind) || c.env.malloc.isSome)

/--
A finalizer that `lua_close` runs makes no call that reaches the operating
system or, if the subsystem was never started, starts it.
-/
def QuietAfterExit (plat : Platform) (w : World) (a : Action) : Prop :=
  w.phase = .closing -> forall c, w.invocation a = some c ->
    c.f ≠ .onCollectSocket ->
    if w.socketsInitialized then c.reachesOs plat = false
    else startupSucceeds plat c.env = false

instance (plat : Platform) (w : World) (a : Action) :
    Decidable (QuietAfterExit plat w a) :=
  match hcall : w.invocation a with
  | none => isTrue fun _ c h => by
      rw [hcall] at h
      cases h
  | some c =>
      decidable_of_iff
        (w.phase = .closing -> c.f ≠ .onCollectSocket ->
          if w.socketsInitialized then c.reachesOs plat = false
          else startupSucceeds plat c.env = false) (by
        unfold QuietAfterExit
        simp [hcall])

/-- The stage that the flag and the phase of the program say. -/
def World.stage (w : World) : Stage :=
  if w.socketsInitialized then
    if w.phase = .running then .up else .down
  else .idle

section Calls

variable {plat : Platform} {env : Env} {args : List Value} {w : World}
variable {entry : Entry} {r : EStateM.Result Exit World Reply}

theorem callEvent_signal {e : Event} (h : CallEvent plat env args w entry e) :
    bracketSignal e = none ∨ bracketSignal e = some .work := by
  cases h with
  | os | make =>
      simp only [bracketSignal]
      split
      · exact Or.inl rfl
      · exact Or.inr rfl
  | pass | read | release | store => exact Or.inl rfl

theorem callEvent_collect {e : Event}
    (h : CallEvent plat env args w (.call .onCollectSocket) e) :
    bracketSignal e = none := by
  cases h with
  | make hf => cases hf
  | os => simp [bracketSignal, Entry.f]
  | pass | read | release | store => rfl

theorem outcome_initFailed (hheader : entry.hasHeader = true)
    (hinit : headerSucceeds plat env w = false)
    (h : Outcome plat env args w entry r) :
    r = .error (.raise initError) (w.emit (.startup false)) := by
  have hfails : forall {p}, w.checks plat env args entry ≠ some p := by
    intro p hchecks
    cases entry with
    | call f =>
        rw [(checks_call.mp hchecks).2.1] at hinit
        cases hinit
    | resume point => cases hheader
  cases h with
  | initFailed => rfl
  | rejected _ h | converting _ h | createFailed h | createNoMemory h
  | created h =>
      rw [hinit] at h
      cases h
  | invalid _ hchecks => exact absurd hchecks hfails
  | acted hsocket hderefs =>
      exact absurd (checks_of_derefs hsocket hderefs).1 hfails
  | resumedNull | freed | collectNull | collected => cases hheader

theorem checked_quiet {P : Event -> Prop} {p : Ptr}
    (hsocket : entry.f.takesSocket = true) (hP : P (.pass entry.f p)) :
    Logs P (w.entered entry) (w.checked entry p) := by
  cases entry with
  | call f =>
      rw [@entered_of_takesSocket w f hsocket]
      exact Logs.emit hP
  | resume point => exact Logs.refl w

theorem outcome_noWork {c : Invocation} (hf : c.f ≠ .onCollectSocket)
    (hquiet : c.reachesOs plat = false)
    (h : Outcome plat c.env c.args c.start c.entry r) :
    Logs (fun e => bracketSignal e = none) (c.start.entered c.entry)
      (finalState r) ∨
      r = .error (.raise initError) (c.start.emit (.startup false)) := by
  rcases c with ⟨entry, args, env, w⟩
  simp only at h ⊢
  cases h with
  | initFailed => exact Or.inr rfl
  | rejected hsocket =>
      rw [entered_of_takesSocket hsocket]
      exact Or.inl (Logs.refl _)
  | @converting f _ _ _ hsocket =>
      exact Or.inl (@checked_quiet w (.call f) _ _ hsocket rfl)
  | invalid hsocket => exact Or.inl (checked_quiet hsocket rfl)
  | acted hsocket hderefs _ hact =>
      unfold Invocation.reachesOs at hquiet
      split at hquiet
      · rename_i heq
        cases heq
        cases hsocket
      · simp only [hderefs, Option.isSome_some, Bool.true_and,
          Bool.or_eq_false_iff, decide_eq_false_iff_not, not_not] at hquiet
        rw [hquiet.1] at hact
        cases hact with
        | bindNoMemory =>
            apply Or.inl
            exact Logs.trans (checked_quiet hsocket rfl) (Logs.emit rfl)
        | bindFailed _ hmalloc | bound _ hmalloc =>
            rw [hmalloc] at hquiet
            cases hquiet.2
  | resumedNull => exact Or.inl (Logs.emit rfl)
  | freed => exact Or.inl logs_withoutBlock
  | createFailed hinit | createNoMemory hinit | created hinit =>
      exact absurd (hquiet.symm.trans hinit) Bool.false_ne_true
  | collectNull | collected => exact absurd rfl hf

theorem work_of_caller {c : Caller} {op : OsOp} {handle : Option Int}
    {opened : Option Nat} {ok : Bool} (hf : c.f ≠ .onCollectSocket) :
    bracketSignal (osEvent c op handle opened ok w) = some .work := by
  simp [bracketSignal, osEvent, hf]

theorem osLogged_works {c : Caller} {op : OsOp} {handle : Option Int}
    {opened : Option Nat} {ok : Bool} (hf : c.f ≠ .onCollectSocket) :
    LogsSome (fun e => bracketSignal e = some .work) w
      (w.osLogged c op handle opened ok) :=
  LogsSome.emit (work_of_caller hf)

theorem afterStatus_works {c : Caller} {op : OsOp} {h status : Int}
    {update : OsSocket -> OsSocket} (hf : c.f ≠ .onCollectSocket) :
    LogsSome (fun e => bracketSignal e = some .work) w
      (w.afterStatus c op h status update) := by
  unfold World.afterStatus
  split
  · exact osLogged_works hf
  · split
    · exact (osLogged_works hf).then_log_eq rfl
    · exact osLogged_works hf

theorem closing_works {c : Caller} {h : Int} (hf : c.f ≠ .onCollectSocket) :
    LogsSome (fun e => bracketSignal e = some .work) w (w.closing c h) := by
  have hrelease : forall (u : World) p, (u.releaseAt p).log = u.log := by
    intro u p
    cases p with
    | null | sentinel | udata | block => rfl
  unfold World.closing World.afterFree
  refine LogsSome.then_log_eq ?_ (hrelease _ _)
  exact ((osLogged_works hf).then_log_eq rfl).then_emit

theorem act_works {f : CFunction} {p : Ptr} {info : SocketInfo}
    (hf : f ≠ .bind ∨ env.malloc.isSome = true)
    (h : Act plat env args p w info f r) :
    LogsSome (fun e => bracketSignal e = some .work) w (finalState r) := by
  have hblock : Logs (fun _ => True) w (w.withBlock env) := logs_withBlock
  cases h with
  | bindNoMemory hnone =>
      rw [hnone] at hf
      simp at hf
  | bindFailed | bound =>
      exact LogsSome.logs_trans hblock (afterStatus_works (by simp))
  | listened => exact afterStatus_works (by simp)
  | acceptFailed => exact (osLogged_works (by simp)).then_emit
  | acceptNoMemory =>
      exact ((osLogged_works (by simp)).then_log_eq rfl).then_emit
  | accepted _ _ hu =>
      rw [hu]
      exact (((osLogged_works (by simp)).then_log_eq rfl).then_emit).then_log_eq
        rfl
  | recvFailed =>
      exact LogsSome.logs_trans hblock (osLogged_works (by simp))
  | recvNoMemory =>
      exact ((osLogged_works (by simp)).then_emit).then_emit
  | received =>
      exact LogsSome.logs_trans hblock
        ((osLogged_works (by simp)).then_emit).then_emit
  | sent => exact osLogged_works (by simp)
  | closed => exact closing_works (by simp)

theorem outcome_works {c : Invocation} (hf : c.f ≠ .onCollectSocket)
    (hreach : c.reachesOs plat = true)
    (hne : forall p, c.start.derefs plat c.env c.args c.entry = some p ->
      p ≠ .null)
    (h : Outcome plat c.env c.args c.start c.entry r) :
    LogsSome (fun e => bracketSignal e = some .work) (c.start.entered c.entry)
      (finalState r) := by
  rcases c with ⟨entry, args, env, w⟩
  change entry.f ≠ .onCollectSocket at hf
  by_cases hcreate : entry = .call .create
  · subst hcreate
    cases h with
    | initFailed _ hinit =>
        exact absurd (hinit.symm.trans hreach) Bool.false_ne_true
    | rejected htakes | converting htakes | invalid htakes | acted htakes =>
        cases htakes
    | createFailed | createNoMemory => exact osLogged_works (by simp)
    | created _ _ _ hu =>
        rw [hu]
        exact (osLogged_works (by simp)).then_log_eq rfl
  · have hsocket := takesSocket_of_ne hcreate hf
    unfold Invocation.reachesOs at hreach
    split at hreach
    · exact absurd (by assumption) hcreate
    rw [Bool.and_eq_true, Bool.or_eq_true, decide_eq_true_eq] at hreach
    rcases Option.isSome_iff_exists.mp hreach.1 with ⟨p, hp⟩
    have hread : Logs (fun _ => True) (w.entered entry) (w.reading entry p) :=
      (checked_quiet hsocket trivial).trans (Logs.emit trivial)
    apply LogsSome.logs_trans hread
    exact act_works hreach.2 (acted_of_derefs hsocket hp (hne p hp) h)

end Calls

section Steps

variable {plat : Platform} {w w' : World} {a : Action} {c : Invocation}

/-- The trace is in the stage that the flag and the phase say. -/
def Staged (w : World) : Prop := InStage bracketSignal w.stage w.log

theorem Staged.bracketed (h : Staged w) : Bracketed w := by
  have hstarts := h.starts_eq
  have hstops := h.stops_eq
  refine ⟨h.inside, ?_, ?_, ?_⟩
  · rw [hstarts]
    cases w.stage <;> decide
  · rw [hstarts]
    unfold World.stage
    cases w.socketsInitialized with
    | false => simp [Stage.starts]
    | true =>
        by_cases hphase : w.phase = .running
        · simp [hphase, Stage.starts]
        · simp [hphase, Stage.starts]
  · rw [hstarts, hstops]
    unfold World.stage
    cases w.socketsInitialized with
    | false => simp [Stage.stops, Stage.starts]
    | true =>
        by_cases hphase : w.phase = .running
        · simp [hphase, Stage.stops]
        · simp [hphase, Stage.stops, Stage.starts]

theorem Staged.congr (h : Staged w) (hstage : w'.stage = w.stage)
    (hlogs : Logs (fun e => bracketSignal e = none) w w') : Staged w' := by
  rcases hlogs with ⟨es, hes, hnone⟩
  unfold Staged
  rw [hstage, hes]
  exact InStage.neutral h hnone

theorem stage_of {v : World} (hflag : v.socketsInitialized = w.socketsInitialized)
    (hphase : v.phase = .running <-> w.phase = .running) :
    v.stage = w.stage := by
  unfold World.stage
  simp only [hflag, hphase]

theorem exit_socketsInitialized :
    (w.exit plat).socketsInitialized = w.socketsInitialized := by
  rcases @exit_state plat w with ⟨L, handles, log, hexit⟩
  rw [hexit]

theorem staged_exit (h : Staged w) (hphase : w.phase = .running) :
    Staged (w.exit plat) := by
  have hexit : (w.exit plat).phase = .closing := rfl
  unfold Staged World.stage at *
  rw [exit_log, exit_socketsInitialized, hexit]
  cases hinit : w.socketsInitialized with
  | false =>
      rw [hinit] at h
      simpa using h
  | true =>
      rw [hinit, hphase] at h
      simp only [if_true] at h ⊢
      exact h.stop rfl

theorem finishCall_phase (f : CFunction) (serial : Option Nat)
    (r : EStateM.Result Exit World Reply) :
    (World.finishCall f serial r).phase = (finalState r).phase := by
  rcases r with ⟨_ | _ | _, v⟩ | ⟨_ | _, v⟩
  · rfl
  · rfl
  · rfl
  · rfl
  · rfl

theorem finishCall_flag (f : CFunction) (serial : Option Nat)
    (r : EStateM.Result Exit World Reply) :
    (World.finishCall f serial r).socketsInitialized =
      (finalState r).socketsInitialized := by
  rcases r with ⟨_ | _ | _, v⟩ | ⟨_ | _, v⟩
  · rfl
  · rfl
  · rfl
  · rfl
  · rfl

theorem staged_finishCall {f : CFunction} {serial : Option Nat}
    {r : EStateM.Result Exit World Reply} (h : Staged (finalState r)) :
    Staged (World.finishCall f serial r) := by
  apply h.congr
  · unfold World.stage
    rw [finishCall_flag, finishCall_phase]
  · exact finishCall_logs rfl

theorem staged_afterHeader (h : Staged w) (hphase : w.phase = .running) :
    InStage bracketSignal .up w.afterHeader.log := by
  unfold Staged World.stage at h
  unfold World.afterHeader
  cases hinit : w.socketsInitialized with
  | false =>
      rw [hinit] at h
      exact InStage.start h rfl
  | true =>
      rw [hinit, hphase] at h
      exact h

theorem entered_of_checked (h : c.Checked plat) :
    c.start.entered c.entry = c.start.afterHeader := by
  unfold World.entered
  split
  · rfl
  · rename_i hheader
    unfold World.afterHeader
    rw [if_pos (h.started (Bool.eq_false_iff.mpr hheader))]

/-- The finalizer of a socket is no work and needs no subsystem. -/
theorem staged_collect {env : Env} {args : List Value}
    {r : EStateM.Result Exit World Reply} (h : Staged w)
    (houtcome : Outcome plat env args w (.call .onCollectSocket) r) :
    Staged (finalState r) := by
  rcases outcome_undisturbed houtcome with ⟨hf, _, _⟩ | hsame
  · cases hf
  · rcases outcome_logs houtcome with ⟨hf, _, _⟩ | hlogs
    · cases hf
    · apply h.congr
      · apply stage_of hsame.socketsInitialized
        rw [hsame.phase]
      · exact hlogs.imp fun e he => callEvent_collect he

theorem staged_working {r : EStateM.Result Exit World Reply}
    (h : Staged c.start) (hphase : c.start.phase = .running)
    (hchecked : c.Checked plat)
    (hheader : headerSucceeds plat c.env c.start = true)
    (houtcome : Outcome plat c.env c.args c.start c.entry r) :
    Staged (finalState r) := by
  have hlogs : Logs (CallEvent plat c.env c.args c.start c.entry)
      (c.start.entered c.entry) (finalState r) := by
    rcases outcome_logs houtcome with ⟨_, hfail, _⟩ | hlogs
    · rw [hheader] at hfail
      cases hfail
    · exact hlogs
  have hsame : Undisturbed (c.start.entered c.entry) (finalState r) := by
    rcases outcome_undisturbed houtcome with ⟨_, hfail, _⟩ | hsame
    · rw [hheader] at hfail
      cases hfail
    · exact hsame
  rw [entered_of_checked hchecked] at hlogs hsame
  have hstage : (finalState r).stage = .up := by
    unfold World.stage
    rw [hsame.socketsInitialized, afterHeader_flag, hsame.phase,
      afterHeader_phase, hphase]
    rfl
  rcases hlogs with ⟨es, hes, hevents⟩
  unfold Staged
  rw [hstage, hes]
  exact (staged_afterHeader h hphase).work fun e he =>
    callEvent_signal (hevents e he)

theorem staged_quiet {r : EStateM.Result Exit World Reply}
    (h : Staged c.start) (hflag : c.start.socketsInitialized = true)
    (hf : c.f ≠ .onCollectSocket) (hchecked : c.Checked plat)
    (hquiet : c.reachesOs plat = false)
    (houtcome : Outcome plat c.env c.args c.start c.entry r) :
    Staged (finalState r) := by
  have hheader : c.start.afterHeader = c.start := by
    unfold World.afterHeader
    rw [if_pos hflag]
  rcases outcome_noWork hf hquiet houtcome with hlogs | hr
  · rcases outcome_undisturbed houtcome with ⟨_, _, hr⟩ | hsame
    · rw [hr]
      exact h.congr rfl (Logs.emit rfl)
    · rw [entered_of_checked hchecked, hheader] at hlogs hsame
      apply h.congr _ hlogs
      apply stage_of hsame.socketsInitialized
      rw [hsame.phase]
  · rw [hr]
    exact h.congr rfl (Logs.emit rfl)

theorem staged_call {r : EStateM.Result Exit World Reply}
    (h : Staged c.start) (hopen : c.start.phase ≠ .closed)
    (hchecked : c.f ≠ .onCollectSocket -> c.Checked plat)
    (hquiet : c.start.phase = .closing -> c.f ≠ .onCollectSocket ->
      if c.start.socketsInitialized then c.reachesOs plat = false
      else startupSucceeds plat c.env = false)
    (houtcome : Outcome plat c.env c.args c.start c.entry r) :
    Staged (finalState r) := by
  by_cases hf : c.f = .onCollectSocket
  · rw [entry_of_collect hf] at houtcome
    exact staged_collect h houtcome
  · have hchecked := hchecked hf
    cases hheader : headerSucceeds plat c.env c.start with
    | false =>
        have hentry : c.entry.hasHeader = true := by
          by_contra hno
          have hflag := hchecked.started (Bool.eq_false_iff.mpr hno)
          simp [headerSucceeds, hflag] at hheader
        rw [outcome_initFailed hentry hheader houtcome]
        exact h.congr rfl (Logs.emit rfl)
    | true =>
        cases hphase : c.start.phase with
        | running => exact staged_working h hphase hchecked hheader houtcome
        | closed => exact absurd hphase hopen
        | closing =>
            have hcond := hquiet hphase hf
            cases hflag : c.start.socketsInitialized with
            | false =>
                rw [hflag] at hcond
                unfold headerSucceeds at hheader
                rw [hflag, Bool.false_or] at hheader
                simp [hheader] at hcond
            | true =>
                rw [hflag] at hcond
                exact staged_quiet h hflag hf hchecked hcond houtcome

theorem staged_start (hcall : w.invocation a = some c) (h : Staged w) :
    Staged c.start := by
  rcases invocation_start hcall with ⟨L, paused, hstart⟩
  rw [hstart]
  exact h

theorem step_staged (hpauses : w.PausesChecked) (h : Staged w)
    (hquiet : QuietAfterExit plat w a) (hstep : step plat w a = some w') :
    Staged w' := by
  cases step_shape hstep with
  | quiet | raised | abandoned => exact h
  | ended _ hphase =>
      have hstage : w.closeState.stage = w.stage := by
        refine stage_of ?_ ?_
        · rfl
        · rw [hphase]
          simp [World.closeState]
      exact h.congr hstage (Logs.of_log_eq rfl)
  | returned =>
      refine h.congr ?_ ((returnFrame_logs _ _).imp ?_)
      · rfl
      · rintro e rfl
        rfl
  | exited _ _ _ hphase => exact staged_exit h hphase
  | called hcall hadm hrun =>
      apply staged_finishCall
      apply staged_call (staged_start hcall h) _
        (checked_of_invocation hpauses hcall) _ (enter_outcome hadm _)
      · rw [start_phase hcall]
        exact phase_ne_closed hrun
      · rw [start_phase hcall, start_socketsInitialized hcall]
        intro hclosing hf
        exact hquiet hclosing _ hcall hf

theorem initialWorld_staged : Staged initialWorld := InStage.nil

/-- The bracket is broken: work outside, or a start that no shutdown answers. -/
def World.BracketBroken (w : World) : Prop :=
  ¬Past (Inside bracketSignal) w.log ∨
    (w.phase ≠ .running ∧
      stops bracketSignal w.log < starts bracketSignal w.log)

theorem Bracketed.not_broken (h : Bracketed w) : ¬w.BracketBroken := by
  rintro (hpast | ⟨hphase, hlt⟩)
  · exact hpast h.operations
  · have hshutdown := h.shutdown
    rw [if_neg hphase] at hshutdown
    rw [hshutdown] at hlt
    exact Nat.lt_irrefl _ hlt

theorem phase_ne_running (hphase : w.phase ≠ .running)
    (hstep : step plat w a = some w') : w'.phase ≠ .running := by
  cases step_shape hstep with
  | quiet | raised | abandoned => exact hphase
  | ended =>
      intro h
      cases h
  | returned => exact hphase
  | exited _ _ _ hrunning => exact absurd hrunning hphase
  | called hcall hadm =>
      unfold World.performCall
      rw [finishCall_phase, outcome_phase (enter_outcome hadm _),
        start_phase hcall]
      exact hphase

theorem stops_of_step (hphase : w.phase ≠ .running)
    (hstep : step plat w a = some w') :
    exists es, w'.log = w.log ++ es ∧ stops bracketSignal es = 0 := by
  have hlogs : Logs (fun e => bracketSignal e ≠ some .stop) w w' := by
    cases step_shape hstep with
    | quiet | ended | raised | abandoned => exact Logs.of_log_eq rfl
    | returned =>
        apply (returnFrame_logs _ _).imp
        rintro e rfl h
        cases h
    | exited _ _ _ hrunning => exact absurd hrunning hphase
    | called hcall hadm =>
        apply (performCall_logs hcall hadm).imp
        intro e he
        cases he with
        | call _ he =>
            rcases callEvent_signal he with h | h <;> simp [h]
        | shutdown ha =>
            rw [ha] at hcall
            cases hcall
        | startup =>
            rename_i ok
            cases ok <;> simp [bracketSignal]
        | returned | issued => simp [bracketSignal]
  rcases hlogs with ⟨es, hes, hnone⟩
  exact ⟨es, hes, stops_eq_zero hnone⟩

theorem bracketBroken_of_step (h : w.BracketBroken)
    (hstep : step plat w a = some w') : w'.BracketBroken := by
  rcases h with hpast | ⟨hphase, hlt⟩
  · rcases step_logs hstep with ⟨es, hes, _⟩
    apply Or.inl
    rw [hes]
    intro h
    exact hpast (past_inside_of_append h)
  · rcases stops_of_step hphase hstep with ⟨es, hes, hstops⟩
    refine Or.inr ⟨phase_ne_running hphase hstep, ?_⟩
    rw [hes, stops_append, starts_append, hstops]
    omega

theorem broken_of_works (h : Staged c.start)
    (hflag : c.start.socketsInitialized = true)
    (hphase : c.start.phase = .closing) (hf : c.f ≠ .onCollectSocket)
    (hchecked : c.Checked plat)
    (hadm : c.env.admissible plat c.start = true)
    (hreach : c.reachesOs plat = true) :
    (c.start.performCall plat c.entry c.args c.env).BracketBroken := by
  have hworks := outcome_works hf hreach (fun p hp => (hchecked.socket p hp).1)
    (enter_outcome hadm c.entry)
  have hheader : c.start.afterHeader = c.start := by
    unfold World.afterHeader
    rw [if_pos hflag]
  rw [entered_of_checked hchecked, hheader] at hworks
  rcases hworks.trans_logs (finishCall_logs trivial :
      Logs (fun _ => True) _ (c.start.performCall plat c.entry c.args c.env)) with
    ⟨es, hes, e, he, hwork⟩
  apply Or.inl
  unfold World.performCall
  rw [hes]
  have hstops := h.stops_eq
  unfold World.stage at hstops
  rw [hflag, hphase] at hstops
  apply not_past_inside_of_stopped _ he hwork
  rw [hstops]
  exact Nat.one_pos

theorem broken_of_startup (h : Staged c.start)
    (hflag : c.start.socketsInitialized = false)
    (hphase : c.start.phase = .closing) (hchecked : c.Checked plat)
    (hadm : c.env.admissible plat c.start = true)
    (hstartup : startupSucceeds plat c.env = true) :
    (c.start.performCall plat c.entry c.args c.env).BracketBroken := by
  have houtcome := @enter_outcome plat c.env c.args c.start hadm c.entry
  have hheader : headerSucceeds plat c.env c.start = true := by
    unfold headerSucceeds
    rw [hstartup, Bool.or_true]
  have hlogs : Logs (fun e => bracketSignal e ≠ some .stop)
      c.start.afterHeader (c.start.performCall plat c.entry c.args c.env) := by
    refine Logs.trans ?_ (finishCall_logs (by simp [bracketSignal]))
    rcases outcome_logs houtcome with ⟨_, hfail, _⟩ | hlogs
    · rw [hheader] at hfail
      cases hfail
    · rw [entered_of_checked hchecked] at hlogs
      apply hlogs.imp
      intro e he
      rcases callEvent_signal he with h | h <;> simp [h]
  have hlog : c.start.afterHeader.log = c.start.log ++ [.startup true] := by
    unfold World.afterHeader
    rw [hflag]
    rfl
  have hstops : stops bracketSignal c.start.log = Stage.idle.stops := by
    rw [h.stops_eq]
    unfold World.stage
    rw [hflag]
    rfl
  rcases hlogs with ⟨es, hes, hnone⟩
  refine Or.inr ⟨?_, ?_⟩
  · unfold World.performCall
    rw [finishCall_phase, outcome_phase houtcome, hphase]
    intro hrunning
    cases hrunning
  · have hone : starts bracketSignal [Event.startup true] = 1 := rfl
    have hzero : stops bracketSignal [Event.startup true] = 0 := rfl
    rw [hes, hlog, stops_append, stops_append, starts_append, starts_append,
      stops_eq_zero hnone, hstops, hone, hzero]
    simp only [Stage.stops]
    omega

theorem bracketBroken_of_not_quiet (hpauses : w.PausesChecked) (h : Staged w)
    (hstep : step plat w a = some w') (hquiet : ¬QuietAfterExit plat w a) :
    w'.BracketBroken := by
  unfold QuietAfterExit at hquiet
  push Not at hquiet
  rcases hquiet with ⟨hphase, c, hcall, hf, hloud⟩
  rcases step_of_invocation hcall hstep with ⟨hadm, rfl⟩
  have hstart := staged_start hcall h
  have hchecked := @checked_of_invocation plat w a c hpauses hcall hf
  rw [← start_phase hcall] at hphase
  rw [← start_socketsInitialized hcall] at hloud
  cases hflag : c.start.socketsInitialized with
  | true =>
      apply broken_of_works hstart hflag hphase hf hchecked hadm
      simpa [hflag] using hloud
  | false =>
      apply broken_of_startup hstart hflag hphase hchecked hadm
      simpa [hflag] using hloud

end Steps

/--
The socket subsystem is well bracketed in exactly the runs in which no finalizer
that `lua_close` runs gets to the operating system through the library.
-/
theorem bracketed_iff_quietAfterExit (plat : Platform) (actions : List Action)
    (w : World) (hrun : runFrom (step plat) initialWorld actions = some w) :
    Bracketed w <->
      AllSteps (step plat) (QuietAfterExit plat) initialWorld actions := by
  have hpreserved : forall s a s', s.PausesChecked ∧ Staged s ->
      QuietAfterExit plat s a -> step plat s a = some s' ->
      s'.PausesChecked ∧ Staged s' := fun _ _ _ hs hc hstep =>
    ⟨step_pausesChecked hs.1 hstep, step_staged hs.1 hs.2 hc hstep⟩
  have hinitial : initialWorld.PausesChecked ∧ Staged initialWorld :=
    ⟨initialWorld_pausesChecked, initialWorld_staged⟩
  constructor
  · intro h
    exact allSteps_of_final hpreserved
      (fun _ _ _ hs hstep hc => bracketBroken_of_not_quiet hs.1 hs.2 hstep hc)
      (fun _ _ _ hb hstep => bracketBroken_of_step hb hstep)
      hinitial hrun h.not_broken
  · intro h
    exact (runFrom_invariant hpreserved hinitial h hrun).2.bracketed

/--
`getmetatable(newproxy(true)).__gc = f` for a function of the library, after
which the script creates and closes a socket and ends.
-/
def finalizeAtExit (f : CFunction) (name : String) : List Action :=
  [.script (.literal (.boolean true)), .script (.newProxy (.boolean true)),
    .script (.getMetatable (.userdata 3))] ++
  createFirst { handle := some 3, malloc := some 16 } ++ fetch 3 name ++
  [.script (.literal (str "__gc")),
    .script (.rawSet 8 (str "__gc") (.cfunction f none))] ++
  callOn .close "close" 16 [] {} ++
  [.exit, .gctm { handle := some 4, malloc := some 32 }]

/-- The finalizer gets a socket from the system after the shutdown. -/
theorem createAtExit_not_bracketed :
    ¬forall actions w, runFrom (step .unix) initialWorld actions = some w ->
      Bracketed w := by
  intro hbracketed
  have hlate : (runFrom (step .unix) initialWorld
      (finalizeAtExit .create "create" ++ finishLater ++ [.closeState])).map
      (fun w => decide (0 < stops bracketSignal (w.log.take 9)) &&
        (w.log.drop 9).any fun e => decide (bracketSignal e = some .work)) =
          some true := by
    decide +kernel
  rcases Option.map_eq_some_iff.mp hlate with ⟨w, hrun, hlog⟩
  rw [Bool.and_eq_true, decide_eq_true_eq, List.any_eq_true] at hlog
  rcases hlog with ⟨hstopped, e, he, hwork⟩
  apply not_past_inside_of_stopped hstopped he (of_decide_eq_true hwork)
  rw [List.take_append_drop]
  exact (hbracketed _ w hrun).operations

/-- With `close` instead, the finalizer raises: its userdata is no socket. -/
theorem bracketed_closeAtExit :
    exists w,
      runFrom (step .unix) initialWorld
        (finalizeAtExit .close "close" ++ [.closeState]) = some w ∧
      Bracketed w := by
  have hsome : (runFrom (step .unix) initialWorld
      (finalizeAtExit .close "close" ++ [.closeState])).isSome = true := by
    decide +kernel
  rcases Option.isSome_iff_exists.mp hsome with ⟨w, hrun⟩
  exact ⟨w, hrun,
    (bracketed_iff_quietAfterExit .unix _ w hrun).mpr (by decide +kernel)⟩

end LuaServer
