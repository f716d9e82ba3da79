import LuaServer.Interpreter.Invocation
import LuaServer.Socklib.Events

/-!
# Ownership over runs

The accounts of records and handles along the steps of the program.  As long as
every call reads a live record, the accounts stay sound.
-/

namespace LuaServer

open Library

/-- The call reads a live record, or none. -/
def Invocation.ReadsLive (plat : Platform) (c : Invocation) : Prop :=
  forall p, c.start.derefs plat c.env c.args c.entry = some p ->
    (c.start.recordAt p).isSome = true

def ReadsLive (plat : Platform) (w : World) (a : Action) : Prop :=
  forall c, w.invocation a = some c -> c.ReadsLive plat

instance (plat : Platform) (w : World) (a : Action) :
    Decidable (ReadsLive plat w a) :=
  match hcall : w.invocation a with
  | none => isTrue fun c h => by
      rw [hcall] at h
      cases h
  | some c =>
      match hderefs : c.start.derefs plat c.env c.args c.entry with
      | none => isTrue fun c' h p hp => by
          rw [hcall] at h
          cases h
          rw [hderefs] at hp
          cases hp
      | some p =>
          decidable_of_iff ((c.start.recordAt p).isSome = true) (by
            unfold ReadsLive Invocation.ReadsLive
            simp [hcall, hderefs])

namespace World

def shutDown (plat : Platform) (w : World) : World :=
  match plat with
  | .windows => { w.emit .shutdown with handles := fun _ => none }
  | _ => w.emit .shutdown

/-- The exit ends the subsystem, and with it every socket of the process. -/
def ShutsDown (plat : Platform) (w : World) : Prop :=
  plat = .windows ∧ w.socketsInitialized = true

instance (plat : Platform) (w : World) : Decidable (w.ShutsDown plat) :=
  inferInstanceAs (Decidable (_ ∧ _))

/-- The exit has ended the subsystem on Windows. -/
def CutOff (plat : Platform) (w : World) : Prop :=
  plat = .windows ∧ Event.shutdown ∈ w.log

instance (plat : Platform) (w : World) : Decidable (w.CutOff plat) :=
  inferInstanceAs (Decidable (_ ∧ _))

end World

section Steps

variable {plat : Platform} {w w' : World} {a : Action} {c : Invocation}

theorem accounts_start (h : w.invocation a = some c) :
    c.start.accounts = w.accounts := by
  rcases invocation_start h with ⟨L, paused, hstart⟩
  rw [hstart]
  rfl

theorem accounts_finishCall (f : CFunction) (serial : Option Nat)
    (r : EStateM.Result Exit World Reply) :
    (World.finishCall f serial r).accounts = (finalState r).accounts := by
  cases r with
  | ok reply v =>
      cases reply with
      | values vs =>
          show ((v.pushAll vs).emit (.returned f serial)).accounts = _
          rw [accounts_emit rfl rfl]
          rfl
      | building | paused => rfl
  | error exit v =>
      cases exit with
      | raise e => rfl
      | crash => rfl

theorem accounts_returnFrame (fr : Frame) (rest : List Frame) :
    (w.returnFrame fr rest).accounts = w.accounts := by
  show ((w.pushAll [fr.stack.headD .nil]).emit (.issued fr.issue)).accounts = _
  rw [accounts_emit rfl rfl]
  rfl

theorem luaOnexit_run :
    luaOnexit plat w =
      .ok () (if w.socketsInitialized then w.shutDown plat else w) := by
  unfold luaOnexit
  rw [run_get_bind]
  cases hinit : w.socketsInitialized with
  | false => simp only [Bool.false_eq_true, if_false, run_pure]
  | true =>
      simp only [if_true, socketShutdownSockets, run_bind, emit_run]
      cases plat with
      | windows | mac | unix => rfl

theorem exit_cases :
    (w.socketsInitialized = true ∧ w.exit plat =
      { w.shutDown plat with
          lua := LuaState.separateudata { w.lua with stack := [] }
            (fun _ => true) true
          phase := .closing }) ∨
    (w.socketsInitialized = false ∧ w.exit plat =
      { w with
          lua := LuaState.separateudata { w.lua with stack := [] }
            (fun _ => true) true
          phase := .closing }) := by
  unfold World.exit
  rw [luaOnexit_run]
  by_cases hinit : w.socketsInitialized = true
  · rw [if_pos hinit]
    refine Or.inl ⟨hinit, ?_⟩
    cases plat with
    | windows | mac | unix => rfl
  · rw [if_neg hinit]
    exact Or.inr ⟨Bool.eq_false_iff.mpr hinit, rfl⟩

theorem exit_handles :
    (w.exit plat).handles =
      if w.ShutsDown plat then fun _ => none else w.handles := by
  rcases @exit_cases plat w with ⟨hinit, hexit⟩ | ⟨hinit, hexit⟩
  · rw [hexit]
    cases plat with
    | windows => rw [if_pos ⟨rfl, hinit⟩, World.shutDown]
    | mac | unix =>
        rw [if_neg fun h => nomatch h.1]
        rfl
  · rw [hexit, if_neg fun h => Bool.false_ne_true (hinit.symm.trans h.2)]

theorem exit_lua :
    (w.exit plat).lua =
      LuaState.separateudata { w.lua with stack := [] } (fun _ => true) true := by
  rcases @exit_cases plat w with ⟨_, hexit⟩ | ⟨_, hexit⟩
  · rw [hexit]
  · rw [hexit]

theorem exit_log :
    (w.exit plat).log =
      if w.socketsInitialized then w.log ++ [.shutdown] else w.log := by
  rcases @exit_cases plat w with ⟨hinit, hexit⟩ | ⟨hinit, hexit⟩
  · rw [hexit, hinit]
    cases plat with
    | windows | mac | unix => rfl
  · rw [hexit, hinit]
    rfl

/-- The end of `main` changes the Lua state, the handles, the phase and the log. -/
theorem exit_state :
    exists L handles log, w.exit plat =
      { w with lua := L, handles := handles, phase := .closing, log := log } := by
  rcases @exit_cases plat w with ⟨_, hexit⟩ | ⟨_, hexit⟩
  · rw [hexit]
    cases plat with
    | windows | mac | unix => exact ⟨_, _, _, rfl⟩
  · exact ⟨_, _, _, hexit⟩

theorem accounts_exit :
    (w.exit plat).accounts =
      if w.ShutsDown plat then w.accounts.shut else w.accounts := by
  rcases @exit_state plat w with ⟨L, handles, log, hexit⟩
  have hlog := @exit_log plat w
  have hhandles := @exit_handles plat w
  rw [hexit] at hlog hhandles ⊢
  have hsame : forall pick : Event -> Option Nat, pick .shutdown = none ->
      log.filterMap pick = w.log.filterMap pick := by
    intro pick hpick
    rw [show log = _ from hlog]
    split
    · rw [List.filterMap_append, List.filterMap_cons_none hpick]
      exact List.append_nil _
    · rfl
  have hreleased := hsame Event.released? rfl
  have hclosed := hsame Event.closed? rfl
  rw [show handles = _ from hhandles]
  unfold World.accounts Accounts.shut TokenTable.clear
  rw [show World.log _ = log from rfl, hreleased, hclosed]
  split
  · rfl
  · rfl

theorem accounts_exit_of_not (h : ¬w.ShutsDown plat) :
    (w.exit plat).accounts = w.accounts := by
  rw [accounts_exit, if_neg h]

theorem finishCall_logs {P : Event -> Prop} {f : CFunction}
    {serial : Option Nat} {r : EStateM.Result Exit World Reply}
    (hP : P (.returned f serial)) :
    Logs P (finalState r) (World.finishCall f serial r) := by
  cases r with
  | ok reply v =>
      cases reply with
      | values vs =>
          have hpush : Logs P v (v.pushAll vs) := Logs.of_log_eq rfl
          exact hpush.trans ((Logs.emit hP).trans (Logs.of_log_eq rfl))
      | building | paused => exact Logs.of_log_eq rfl
  | error exit v =>
      cases exit with
      | raise e => exact Logs.of_log_eq rfl
      | crash => exact Logs.of_log_eq rfl

theorem mem_log_finishCall {f : CFunction} {serial : Option Nat}
    {r : EStateM.Result Exit World Reply} {e : Event}
    (he : e ∈ (finalState r).log) : e ∈ (World.finishCall f serial r).log := by
  rcases @finishCall_logs (fun _ => True) f serial r trivial with ⟨es, hes, _⟩
  rw [hes]
  exact List.mem_append_left _ he

inductive StepEvent (plat : Platform) (w : World) (a : Action) :
    Event -> Prop where
  | startup {ok : Bool} : StepEvent plat w a (.startup ok)
  | call {c : Invocation} {e : Event} :
      w.invocation a = some c ->
      CallEvent plat c.env c.args c.start c.entry e -> StepEvent plat w a e
  | returned {f : CFunction} {serial : Option Nat} :
      StepEvent plat w a (.returned f serial)
  | issued {fr : Frame} {rest : List Frame} :
      w.frames = fr :: rest -> fr.code = [] ->
      StepEvent plat w a (.issued fr.issue)
  | shutdown :
      a = .exit -> w.socketsInitialized = true ->
      StepEvent plat w a .shutdown

theorem frames_finishCall {f : CFunction} {serial : Option Nat}
    {r : EStateM.Result Exit World Reply}
    (hr : forall fr v, r ≠ .ok (.building fr) v) :
    (World.finishCall f serial r).frames = (finalState r).frames := by
  cases r with
  | ok reply v =>
      cases reply with
      | values | paused => rfl
      | building fr => exact absurd rfl (hr fr v)
  | error exit v =>
      cases exit with
      | raise e => rfl
      | crash => rfl

def EndedCallEvent (plat : Platform) (c : Invocation) (e : Event) : Prop :=
  CallEvent plat c.env c.args c.start c.entry e ∨
    (exists ok, e = .startup ok) ∨ exists f serial, e = .returned f serial

theorem enter_logs (hadm : c.env.admissible plat c.start = true) :
    Logs (fun e => CallEvent plat c.env c.args c.start c.entry e ∨
        exists ok, e = .startup ok) c.start
      (finalState (enter plat c.env c.args c.entry c.start)) := by
  rcases outcome_logs (enter_outcome hadm c.entry) with
    ⟨_, _, hfail⟩ | hlogs
  · rw [hfail]
    exact Logs.emit (Or.inr ⟨false, rfl⟩)
  · exact (entered_logs _ (Or.inr ⟨true, rfl⟩)).trans
      (hlogs.imp fun e he => Or.inl he)

theorem performCall_endedLogs (hadm : c.env.admissible plat c.start = true) :
    Logs (EndedCallEvent plat c) c.start
      (c.start.performCall plat c.entry c.args c.env) := by
  have hrun : Logs (EndedCallEvent plat c) c.start
      (finalState (enter plat c.env c.args c.entry c.start)) := by
    apply (enter_logs hadm).imp
    rintro e (he | he)
    · exact Or.inl he
    · exact Or.inr (Or.inl he)
  exact hrun.trans (finishCall_logs (Or.inr (Or.inr ⟨_, _, rfl⟩)))

theorem performCall_logs (hcall : w.invocation a = some c)
    (hadm : c.env.admissible plat c.start = true) :
    Logs (StepEvent plat w a) w
      (c.start.performCall plat c.entry c.args c.env) := by
  have hstart : Logs (StepEvent plat w a) w c.start := by
    rcases invocation_start hcall with ⟨L, paused, hstart⟩
    rw [hstart]
    exact Logs.of_log_eq rfl
  apply hstart.trans
  apply (performCall_endedLogs hadm).imp
  rintro e (he | ⟨ok, rfl⟩ | ⟨f, serial, rfl⟩)
  · exact StepEvent.call hcall he
  · exact StepEvent.startup
  · exact StepEvent.returned

/-- The call returns normally from the function, with the record as its argument. -/
structure Invocation.Returns (plat : Platform) (c : Invocation) (g : CFunction)
    (serial : Option Nat) : Prop where
  function : g = c.f
  argument : serial = c.start.serialAt (c.args.headD .nil).toUserdata
  values : exists vs v,
    enter plat c.env c.args c.entry c.start = .ok (.values vs) v

theorem count_of_logs {P : Event -> Prop} {e : Event} (h : Logs P w w')
    (hP : ¬P e) : w'.log.count e = w.log.count e := by
  rcases h with ⟨es, hes, hall⟩
  rw [hes, List.count_append, List.count_eq_zero.mpr fun he => hP (hall e he),
    Nat.add_zero]

/-- A call logs at most one return, its own. -/
theorem performCall_count {g : CFunction} {serial : Option Nat}
    (hadm : c.env.admissible plat c.start = true) :
    (c.start.performCall plat c.entry c.args c.env).log.count
        (.returned g serial) = c.start.log.count (.returned g serial) ∨
      ((c.start.performCall plat c.entry c.args c.env).log.count
          (.returned g serial) = c.start.log.count (.returned g serial) + 1 ∧
        c.Returns plat g serial) := by
  have hcount : (finalState
      (enter plat c.env c.args c.entry c.start)).log.count
        (.returned g serial) = c.start.log.count (.returned g serial) := by
    apply count_of_logs (enter_logs hadm)
    rintro (h | ⟨ok, h⟩)
    · cases h
    · cases h
  unfold World.performCall
  cases hrun : enter plat c.env c.args c.entry c.start with
  | error exit v =>
      rw [hrun] at hcount
      cases exit with
      | raise | crash => exact Or.inl hcount
  | ok reply v =>
      rw [hrun] at hcount
      cases reply with
      | building | paused => exact Or.inl hcount
      | values vs =>
          rw [← hcount]
          show (v.log ++ [_]).count _ = _ ∨ ((v.log ++ [_]).count _ = _ ∧ _)
          rw [List.count_append, List.count_singleton]
          by_cases he : Event.returned c.f
              (c.start.serialAt (c.args.headD .nil).toUserdata) =
                .returned g serial
          · right
            rw [he, if_pos (beq_self_eq_true _)]
            rw [Event.returned.injEq] at he
            exact ⟨rfl, he.1.symm, he.2.symm, vs, v, hrun⟩
          · left
            rw [if_neg fun hb => he (beq_iff_eq.mp hb)]
            rfl

theorem mem_of_count {e : Event} {Q : Prop}
    (h : w'.log.count e = w.log.count e ∨ (w'.log.count e = w.log.count e + 1 ∧ Q))
    (hmem : e ∈ w'.log) : e ∈ w.log ∨ Q := by
  rcases h with h | h
  · rw [← List.count_pos_iff, h, List.count_pos_iff] at hmem
    exact Or.inl hmem
  · exact Or.inr h.2

theorem returned_performCall {g : CFunction} {serial : Option Nat}
    (hadm : c.env.admissible plat c.start = true)
    (hmem : Event.returned g serial ∈
      (c.start.performCall plat c.entry c.args c.env).log) :
    Event.returned g serial ∈ c.start.log ∨ c.Returns plat g serial :=
  mem_of_count (performCall_count hadm) hmem

theorem exit_frames : (w.exit plat).frames = w.frames := by
  rcases @exit_state plat w with ⟨L, handles, log, hexit⟩
  rw [hexit]

theorem exit_logs :
    Logs (fun e => e = .shutdown ∧ w.socketsInitialized = true) w
      (w.exit plat) := by
  cases hinit : w.socketsInitialized with
  | false =>
      apply Logs.of_log_eq
      rw [exit_log, hinit]
      rfl
  | true =>
      refine ⟨[.shutdown], ?_, ?_⟩
      · rw [exit_log, hinit]
        rfl
      · intro e he
        exact ⟨List.mem_singleton.mp he, rfl⟩

theorem returnFrame_logs (fr : Frame) (rest : List Frame) :
    Logs (fun e => e = .issued fr.issue) w (w.returnFrame fr rest) := by
  have hpush : Logs (fun e => e = Event.issued fr.issue) w
      (w.pushAll [fr.stack.headD .nil]) := Logs.of_log_eq rfl
  have hemit : Logs (fun e => e = Event.issued fr.issue)
      (w.pushAll [fr.stack.headD .nil])
      ((w.pushAll [fr.stack.headD .nil]).emit (.issued fr.issue)) :=
    Logs.emit rfl
  exact hpush.trans (hemit.trans (Logs.of_log_eq rfl))

theorem step_logs (h : step plat w a = some w') :
    Logs (StepEvent plat w a) w w' := by
  cases step_shape h with
  | quiet => exact Logs.of_log_eq rfl
  | ended => exact Logs.of_log_eq rfl
  | raised | abandoned => exact Logs.of_log_eq rfl
  | returned _ hframes hcode =>
      apply (returnFrame_logs _ _).imp
      rintro e rfl
      exact StepEvent.issued hframes hcode
  | exited ha =>
      apply exit_logs.imp
      rintro e ⟨rfl, hinit⟩
      exact StepEvent.shutdown ha hinit
  | called hcall hadm => exact performCall_logs hcall hadm

theorem mem_log_of_step {e : Event} (he : e ∈ w.log)
    (h : step plat w a = some w') : e ∈ w'.log := by
  rcases step_logs h with ⟨es, hes, _⟩
  rw [hes]
  exact List.mem_append_left _ he

inductive AccountsChange (plat : Platform) (w : World) (a : Action)
    (w' : World) : Prop where
  | kept : w'.accounts = w.accounts -> AccountsChange plat w a w'
  | called {c : Invocation} :
      w.invocation a = some c -> c.env.admissible plat c.start = true ->
      w' = c.start.performCall plat c.entry c.args c.env ->
      AccountsChange plat w a w'
  | shut :
      a = .exit -> w.frames = [] -> w.ShutsDown plat -> w' = w.exit plat ->
      w'.accounts = w.accounts.shut -> AccountsChange plat w a w'

/-- Only a call of the library and the shutdown on Windows change the accounts. -/
theorem step_accounts (h : step plat w a = some w') :
    AccountsChange plat w a w' := by
  cases step_shape h with
  | quiet | ended | raised | abandoned => exact .kept rfl
  | returned => exact .kept (accounts_returnFrame _ _)
  | exited ha hframes =>
      by_cases hshut : w.ShutsDown plat
      · refine .shut ha hframes hshut rfl ?_
        rw [accounts_exit, if_pos hshut]
      · exact .kept (accounts_exit_of_not hshut)
  | called hcall hadm => exact .called hcall hadm rfl

theorem cutOff_exit (h : w.ShutsDown plat) : (w.exit plat).CutOff plat := by
  refine ⟨h.1, ?_⟩
  rw [exit_log, if_pos h.2]
  exact List.mem_append_right _ List.mem_cons_self

theorem cutOff_of_step (hcut : w.CutOff plat) (h : step plat w a = some w') :
    w'.CutOff plat :=
  ⟨hcut.1, mem_log_of_step hcut.2 h⟩

theorem accounts_performCall (c : Invocation) :
    (c.start.performCall plat c.entry c.args c.env).accounts =
      (finalState (enter plat c.env c.args c.entry c.start)).accounts :=
  accounts_finishCall _ _ _

theorem step_count {g : CFunction} {serial : Option Nat}
    (h : step plat w a = some w') :
    w'.log.count (.returned g serial) = w.log.count (.returned g serial) ∨
      (w'.log.count (.returned g serial) =
          w.log.count (.returned g serial) + 1 ∧
        exists c, w.invocation a = some c ∧ c.Returns plat g serial) := by
  cases step_shape h with
  | quiet | ended | raised | abandoned => exact Or.inl rfl
  | returned => exact Or.inl (count_of_logs (returnFrame_logs _ _) (by simp))
  | exited => exact Or.inl (count_of_logs exit_logs (by simp))
  | @called c hcall hadm =>
      rw [← start_log hcall]
      rcases @performCall_count plat c g serial hadm with hsame | ⟨hnew, hreturns⟩
      · exact Or.inl hsame
      · exact Or.inr ⟨hnew, c, hcall, hreturns⟩

theorem returned_of_step {g : CFunction} {serial : Option Nat}
    (h : step plat w a = some w') (hmem : Event.returned g serial ∈ w'.log) :
    Event.returned g serial ∈ w.log ∨
      exists c, w.invocation a = some c ∧ c.Returns plat g serial :=
  mem_of_count (step_count h) hmem

theorem live_of_record {addr : Nat} {rec : SocketRecord}
    (hrec : w.records addr = some rec) :
    w.accounts.owners.live addr = some rec.serial :=
  Option.map_eq_some_iff.mpr ⟨rec, hrec, rfl⟩

theorem handle_free {env : Env} (hadm : env.admissible plat w = true) {h : Int}
    (hhandle : env.handle = some h) :
    w.accounts.resources.live h = none := by
  show (w.handles h).map _ = none
  rw [(Env.handle_fresh hadm hhandle).2.2]
  rfl

/-- Calls that read live records only keep the accounts sound until the shutdown. -/
theorem step_sound (hsound : w.accounts.Sound) (hlive : ReadsLive plat w a)
    (h : step plat w a = some w') (hopen : ¬w'.CutOff plat) :
    w'.accounts.Sound := by
  cases step_accounts h with
  | kept hkept =>
      rw [hkept]
      exact hsound
  | shut _ _ hshut hw' => exact absurd (hw' ▸ cutOff_exit hshut) hopen
  | @called c hcall hadm hw' =>
    rw [← accounts_start hcall] at hsound
    have heffect := outcome_effect hsound (hlive c hcall)
      (@enter_outcome plat c.env c.args c.start hadm c.entry)
    rw [hw', accounts_performCall]
    generalize enter plat c.env c.args c.entry c.start = r at heffect
    cases heffect with
    | kept hkept =>
        rw [hkept]
        exact hsound
    | lost _ hhandle _ haccounts =>
        simp only [finalState, haccounts]
        exact hsound.lose (handle_free hadm hhandle)
    | made _ hhandle _ haccounts =>
        simp only [finalState, haccounts]
        exact hsound.create (handle_free hadm hhandle)
    | dropped hf hrec hrelease haccounts =>
        rename_i addr rec v
        simp only [finalState, haccounts]
        apply hsound.close
        · show (c.start.records addr).map _ = _
          rw [hrec]
          rfl
        · show (c.start.records addr).map _ = _
          rw [hrec]
          rfl

theorem initialWorld_accounts_sound : initialWorld.accounts.Sound where
  owners := TokenTable.empty_sound
  resources := TokenTable.empty_sound
  holds_iff := fun _ => ⟨fun _ => rfl, fun _ => rfl⟩
  holds_live := fun h => by cases h
  holds_injective := fun h => by cases h

/-!
# The tables in every run
-/

/-- What the tables of records and handles keep to whatever a script does. -/
structure World.TablesSound (w : World) : Prop where
  records : w.accounts.owners.Sound
  records_complete : w.accounts.owners.Complete 0
  handles : w.accounts.resources.Sound

theorem step_tables (h : step plat w a = some w') :
    w.accounts.owners.Change w'.accounts.owners ∧
      w.accounts.resources.Turnover w'.accounts.resources := by
  cases step_accounts h with
  | kept hkept =>
      rw [hkept]
      exact ⟨.kept, .change .kept⟩
  | shut _ _ _ _ hshut =>
      rw [hshut]
      exact ⟨.kept, .cleared⟩
  | @called c hcall hadm hw' =>
      rw [hw', accounts_performCall, ← accounts_start hcall]
      have htables := outcome_tables hadm
        (@enter_outcome plat c.env c.args c.start hadm c.entry)
      exact ⟨htables.1, .change htables.2⟩

theorem step_tablesSound (htables : w.TablesSound)
    (h : step plat w a = some w') : w'.TablesSound := by
  rcases step_tables h with ⟨hrecords, hhandles⟩
  exact
    { records := hrecords.sound htables.records
      records_complete := hrecords.complete htables.records_complete
      handles := hhandles.sound htables.handles }

theorem initialWorld_tablesSound : initialWorld.TablesSound where
  records := TokenTable.empty_sound
  records_complete := TokenTable.complete_next _
  handles := TokenTable.empty_sound

theorem reachable_tablesSound (h : ReachableWorld plat w) : w.TablesSound :=
  reachable_invariant (fun _ _ _ htables hstep =>
    step_tablesSound htables hstep) initialWorld_tablesSound h

end Steps

end LuaServer
