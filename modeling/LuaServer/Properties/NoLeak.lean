import LuaServer.Interpreter.Issues

/-!
# Dropped sockets

What becomes of a socket that a script lets go without closing it.  Its value is
a light userdata, which the collector never finalizes, so the `__gc` handler runs
for a socket only where the script calls it.  A handle that no value stands for
is closed by nobody, but for the shutdown on Windows.
-/

namespace LuaServer

open Library

namespace World

/-- A script can still get at the value. -/
def CanReach (w : World) (v : Value) : Prop :=
  w.lua.ReachableValue w.callValues v

instance (w : World) (v : Value) : Decidable (w.CanReach v) :=
  inferInstanceAs (Decidable (w.lua.ReachableValue w.callValues v))

def timesReturned (w : World) (f : CFunction) (i : Issue) : Nat :=
  w.log.count (.returned f (some i.serial))

end World

/--
The handler has run once for every socket that was not closed and that nothing
reaches any more, and every open handle belongs to a socket that something
reaches.
-/
structure NoLeak (w : World) : Prop where
  finalized : forall i, Event.issued i ∈ w.log -> ¬w.CanReach i.value ->
    w.timesReturned .close i = 0 -> w.timesReturned .onCollectSocket i = 1
  reachable : forall h s, w.handles h = some s ->
    exists i, Event.issued i ∈ w.log ∧ i.inst = s.inst ∧ w.CanReach i.value

/--
In the run of the actions, the script itself calls the function on a value that
designates the record, which is still live, and the call gets through its checks.
-/
def ScriptCalls (plat : Platform) (actions : List Action) (f : CFunction)
    (serial : Nat) : Prop :=
  exists before args env after mid,
    actions = before ++ .call f args env :: after ∧
    runFrom (step plat) initialWorld before = some mid ∧
    (mid.derefs plat env args (.call f)).isSome = true ∧
    mid.serialAt (args.headD .nil).toUserdata = some serial

/--
The step hands the opening to `socket_Close`, or shuts the subsystem down on
Windows while it is open.
-/
inductive World.Ends (plat : Platform) (w : World) (a : Action) (inst : Nat) :
    Prop where
  | closed {c : Invocation} {p : Ptr} :
      w.invocation a = some c -> c.f = .close ∨ c.f = .onCollectSocket ->
      c.start.derefs plat c.env c.args c.entry = some p -> p ≠ .null ->
      w.instAt (c.start.infoAt c.env p).hSocket = some inst ->
      World.Ends plat w a inst
  | shut {h : Int} :
      a = .exit -> w.ShutsDown plat -> w.instAt h = some inst ->
      World.Ends plat w a inst

def EndedIn (plat : Platform) (actions : List Action) (inst : Nat) : Prop :=
  exists before a after mid, actions = before ++ a :: after ∧
    runFrom (step plat) initialWorld before = some mid ∧ mid.Ends plat a inst

/--
The script has closed every socket that it has let go, by `close` or with the
`__gc` handler, and steps of the run have ended every opening that was delivered
to no call that has returned.
-/
structure ClosesDropped (plat : Platform) (actions : List Action) (w : World) :
    Prop where
  dropped : forall i, Event.issued i ∈ w.log -> ¬w.CanReach i.value ->
    ScriptCalls plat actions .close i.serial ∨
      ScriptCalls plat actions .onCollectSocket i.serial
  ended : forall inst, inst < w.nextHandle ->
    (forall i, Event.issued i ∈ w.log -> i.inst ≠ inst) ->
    EndedIn plat actions inst

section Calls

variable {plat : Platform} {w w' : World} {a : Action} {c : Invocation}
variable {f : CFunction} {serial : Nat} {actions : List Action}

theorem outcome_closes_of_derefs {env : Env} {args : List Value} {p : Ptr}
    {r : EStateM.Result Exit World Reply}
    (hf : f = .close ∨ f = .onCollectSocket)
    (hderefs : w.derefs plat env args (.call f) = some p) (hne : p ≠ .null)
    (h : Outcome plat env args w (.call f) r) :
    exists v : World, v.accounts = w.accounts ∧ v.records = w.records ∧
      v.handles = w.handles ∧
      r = .ok (.values []) (v.closing ⟨f, p⟩ (w.infoAt env p).hSocket) := by
  rcases @outcome_closes plat env args w (.call f) r hf h with ⟨_, hr⟩ |
    ⟨q, v, hq, _, haccounts, hrecords, hhandles, hr⟩
  · exfalso
    rcases hf with rfl | rfl
    · cases acted_of_derefs rfl hderefs hne h with
      | closed => exact hr _ _ rfl
    · have hp := Option.some.inj hderefs
      cases h with
      | initFailed hne => exact hne rfl
      | rejected hsocket | converting hsocket | invalid hsocket
      | acted hsocket => cases hsocket
      | collectNull hnull => exact hne (hp.symm.trans hnull)
      | collected => exact hr _ _ rfl
  · rw [hderefs, Option.some.injEq] at hq
    rw [← hq] at hr
    exact ⟨v, haccounts, hrecords, hhandles, hr⟩

theorem entry_of_closer (hf : c.f = .close ∨ c.f = .onCollectSocket) :
    c.entry = .call c.f := by
  rcases hf with hf | hf
  · rw [hf]
    exact entry_of_close hf
  · rw [hf]
    exact entry_of_collect hf

/-- A finalizer that the collector calls on a userdata is given no record. -/
theorem call_of_invocation (hf : c.f = .close ∨ c.f = .onCollectSocket)
    (hcall : w.invocation a = some c)
    (hserial : c.start.serialAt (c.args.headD .nil).toUserdata = some serial) :
    a = .call c.f c.args c.env ∧ c.start = w := by
  cases a with
  | call f args env =>
      cases hcall
      exact ⟨rfl, rfl⟩
  | gctm env =>
      exfalso
      simp only [World.invocation] at hcall
      split at hcall
      · cases hcall
        cases hserial
      · cases hcall
  | resume env =>
      have hentry := entry_of_closer hf
      simp only [World.invocation] at hcall
      split at hcall
      · cases hcall
      · cases hcall
        cases hentry
  | script | apiArgs | api | apiRaise | pausedRaise | collect | exit
  | closeState => cases hcall

theorem record_of_returns (hf : f = .close ∨ f = .onCollectSocket)
    (hcall : w.invocation a = some c) (hstep : step plat w a = some w')
    (hreturns : c.Returns plat f (some serial)) :
    a = .call f c.args c.env ∧
      exists addr rec, w.derefs plat c.env c.args (.call f) =
          some (.block addr) ∧
        w.records addr = some rec ∧ rec.serial = serial := by
  rcases hreturns with ⟨hfun, hserial, vs, v, hrun⟩
  have hentry : c.entry = .call f := entry_of_closer (hfun ▸ hf) |>.trans
    (congrArg Entry.call hfun.symm)
  rcases call_of_invocation (hfun ▸ hf) hcall hserial.symm with ⟨ha, hstart⟩
  have hadm := (step_of_invocation hcall hstep).1
  rw [← hfun] at ha
  rw [hentry] at hrun
  rw [hstart] at hserial hrun hadm
  refine ⟨ha, ?_⟩
  rcases @outcome_closes plat c.env c.args w (.call f) _ hf
      (enter_outcome hadm (.call f)) with ⟨_, hr⟩ | ⟨p, _, hderefs, _⟩
  · exact absurd hrun (hr _ _)
  · rw [derefs_toUserdata hderefs] at hserial
    rcases Option.map_eq_some_iff.mp hserial.symm with ⟨rec, hrec, hrec_serial⟩
    rcases block_of_recordAt hrec with ⟨addr, rfl, haddr⟩
    exact ⟨addr, rec, hderefs, haddr, hrec_serial⟩

theorem scriptCalls_of_returned (hf : f = .close ∨ f = .onCollectSocket)
    (hrun : runFrom (step plat) initialWorld actions = some w)
    (hmem : Event.returned f (some serial) ∈ w.log) :
    ScriptCalls plat actions f serial := by
  rcases @exists_step_of_run _ _ (step plat)
      (fun x => Event.returned f (some serial) ∈ x.log) _ _ _
      (by intro h; cases h) hrun hmem with
    ⟨before, a, after, mid, mid', hactions, hbefore, hstep, hnot, hin, _⟩
  rcases returned_of_step hstep hin with hold | ⟨c, hcall, hreturns⟩
  · exact absurd hold hnot
  · rcases record_of_returns hf hcall hstep hreturns with
      ⟨rfl, addr, rec, hderefs, hrec, hserial⟩
    refine ⟨before, c.args, c.env, after, mid, hactions, hbefore, ?_, ?_⟩
    · rw [hderefs]
      rfl
    · rw [derefs_toUserdata hderefs, ← hserial]
      exact Option.map_eq_some_iff.mpr ⟨rec, hrec, rfl⟩

theorem step_of_scriptCalls
    (hrun : runFrom (step plat) initialWorld actions = some w)
    (hcalls : ScriptCalls plat actions f serial) :
    exists args env mid mid', ReachableWorld plat mid ∧
      step plat mid (.call f args env) = some mid' ∧
      Reachable (step plat) mid' w ∧
      exists addr rec, mid.derefs plat env args (.call f) =
          some (.block addr) ∧
        mid.records addr = some rec ∧ rec.serial = serial := by
  rcases hcalls with
    ⟨before, args, env, after, mid, rfl, hbefore, hderefs, hserial⟩
  rcases runFrom_append_some hrun with ⟨mid₁, hmid₁, hafter⟩
  rw [hbefore, Option.some.injEq] at hmid₁
  subst hmid₁
  rcases runFrom_cons_some hafter with ⟨mid', hstep, hrest⟩
  refine ⟨args, env, mid, mid', ⟨before, hbefore⟩, hstep, ⟨after, hrest⟩, ?_⟩
  rcases Option.isSome_iff_exists.mp hderefs with ⟨p, hp⟩
  rw [derefs_toUserdata hp] at hserial
  rcases Option.map_eq_some_iff.mp hserial with ⟨rec, hrec, hrec_serial⟩
  rcases block_of_recordAt hrec with ⟨addr, rfl, haddr⟩
  exact ⟨addr, rec, hp, haddr, hrec_serial⟩

theorem mem_log_of_reachable {e : Event} (h : Reachable (step plat) w w')
    (he : e ∈ w.log) : e ∈ w'.log :=
  reachable_invariant (fun _ _ _ hmem hstep => mem_log_of_step hmem hstep) he h

/-- What the call of `close` or of the handler on a live record leaves. -/
structure Closes (f : CFunction) (rec : SocketRecord) (w' : World) : Prop where
  returned : Event.returned f (some rec.serial) ∈ w'.log
  released : rec.serial ∈ w'.accounts.owners.retired
  closed : forall h s, w'.handles h = some s -> s.inst ≠ rec.inst

theorem call_closes {env : Env} {args : List Value} {addr : Nat}
    {rec : SocketRecord} (hf : f = .close ∨ f = .onCollectSocket)
    (hhomed : w.Homed) (hstep : step plat w (.call f args env) = some w')
    (hderefs : w.derefs plat env args (.call f) = some (.block addr))
    (hrec : w.records addr = some rec) : Closes f rec w' := by
  have hcall : w.invocation (.call f args env) =
      some ⟨.call f, args, env, w⟩ := rfl
  rcases step_of_invocation hcall hstep with ⟨hadm, hw'⟩
  rcases outcome_closes_of_derefs hf hderefs (by simp)
      (enter_outcome hadm (.call f)) with ⟨v, _, hrecords, hhandles, hr⟩
  rw [@infoAt_of_record _ _ (.block addr) _ hrec] at hr
  have hserial : w.serialAt (args.headD .nil).toUserdata = some rec.serial := by
    rw [derefs_toUserdata hderefs]
    exact Option.map_eq_some_iff.mpr ⟨rec, hrec, rfl⟩
  have hstate : w' = World.finishCall f (some rec.serial)
      (.ok (.values []) (v.closing ⟨f, .block addr⟩ rec.info.hSocket)) := by
    rw [hw', ← hserial, ← hr]
    rfl
  rw [hstate]
  constructor
  · exact List.mem_append_right _ List.mem_cons_self
  · rw [accounts_finishCall]
    rw [← hrecords] at hrec
    exact List.mem_filterMap.mpr ⟨_, release_mem_closing rfl hrec, rfl⟩
  · intro x s hs hinst
    have hclosing : (v.closing ⟨f, .block addr⟩ rec.info.hSocket).handles x =
        some s := hs
    rcases handles_of_closing hclosing with ⟨hne, hold⟩
    rw [hhandles] at hold
    apply hne
    have hholds : w.accounts.holds addr = some (rec.info.hSocket, rec.inst) :=
      Option.map_eq_some_iff.mpr ⟨rec, hrec, rfl⟩
    exact hhomed.home hholds (Option.map_eq_some_iff.mpr ⟨s, hold, hinst⟩)

/-!
# The handler runs at most once
-/

/-- A socket that was closed, in whatever way, has been closed once. -/
structure ClosedOnce (w : World) : Prop where
  retired : forall f serial, f = .close ∨ f = .onCollectSocket ->
    Event.returned f (some serial) ∈ w.log ->
    serial ∈ w.accounts.owners.retired
  once : forall f serial, f = .close ∨ f = .onCollectSocket ->
    w.log.count (.returned f (some serial)) ≤ 1

theorem step_closedOnce (h : ClosedOnce w) (htables : w.TablesSound)
    (hhomed : w.Homed) (hstep : step plat w a = some w') : ClosedOnce w' := by
  have hchange := (step_tables hstep).1
  have hnew : forall f serial, f = .close ∨ f = .onCollectSocket ->
      w'.log.count (.returned f (some serial)) =
        w.log.count (.returned f (some serial)) ∨
      (w'.log.count (.returned f (some serial)) = 1 ∧
        serial ∈ w'.accounts.owners.retired) := by
    intro f serial hf
    rcases @step_count plat w w' a f (some serial) hstep with hsame |
      ⟨hcount, c, hcall, hreturns⟩
    · exact Or.inl hsame
    · right
      rcases record_of_returns hf hcall hstep hreturns with
        ⟨rfl, addr, rec, hderefs, hrec, rfl⟩
      refine ⟨?_, (call_closes hf hhomed hstep hderefs hrec).released⟩
      have hlive := htables.records.notMem_retired (live_of_record hrec)
      rw [hcount, List.count_eq_zero.mpr fun hmem =>
        hlive (h.retired f _ hf hmem)]
  constructor
  · intro f serial hf hmem
    rw [← List.count_pos_iff] at hmem
    rcases hnew f serial hf with hsame | ⟨_, hretired⟩
    · rw [hsame, List.count_pos_iff] at hmem
      exact hchange.mem_retired (h.retired f serial hf hmem)
    · exact hretired
  · intro f serial hf
    rcases hnew f serial hf with hsame | ⟨hone, _⟩
    · rw [hsame]
      exact h.once f serial hf
    · exact Nat.le_of_eq hone

theorem initialWorld_closedOnce : ClosedOnce initialWorld where
  retired := fun f serial hf hmem => by cases hmem
  once := fun f serial hf => Nat.zero_le 1

theorem reachable_closedOnce (h : ReachableWorld plat w) : ClosedOnce w := by
  have hall : ClosedOnce w ∧ w.TablesSound ∧ w.Homed := by
    refine @reachable_invariant _ _ (step plat)
      (fun x => ClosedOnce x ∧ x.TablesSound ∧ x.Homed) ?_ _ _
      ⟨initialWorld_closedOnce, initialWorld_tablesSound, initialWorld_homed⟩ h
    rintro x a y ⟨honce, htables, hhomed⟩ hstep
    exact ⟨step_closedOnce honce htables hhomed hstep,
      step_tablesSound htables hstep, step_homed hhomed htables hstep⟩
  exact hall.1

/-!
# An opening that was closed
-/

theorem stays_closed {inst : Nat} (htables : w.TablesSound)
    (hlt : inst < w.nextHandle)
    (hclosed : forall h s, w.handles h = some s -> s.inst ≠ inst)
    (hreach : Reachable (step plat) w w') :
    forall h s, w'.handles h = some s -> s.inst ≠ inst := by
  have hkept : w'.TablesSound ∧ inst < w'.nextHandle ∧
      forall h, w'.accounts.resources.live h ≠ some inst := by
    refine @reachable_invariant _ _ (step plat)
      (fun x => x.TablesSound ∧ inst < x.nextHandle ∧
        forall h, x.accounts.resources.live h ≠ some inst) ?_ _ _
      ⟨htables, hlt, ?_⟩ hreach
    · rintro x a y ⟨hx, hltx, hnone⟩ hstep
      have hchange := (step_tables hstep).2
      exact ⟨step_tablesSound hx hstep,
        Nat.lt_of_lt_of_le hltx hchange.next_le, hchange.not_live hltx hnone⟩
    · intro h hlive
      rcases Option.map_eq_some_iff.mp hlive with ⟨s, hs, hinst⟩
      exact hclosed h s hs hinst
  intro h s hs hinst
  exact hkept.2.2 h (Option.map_eq_some_iff.mpr ⟨s, hs, hinst⟩)

theorem ends_of_step {h : Int} {inst : Nat} (hstep : step plat w a = some w')
    (hbefore : w.instAt h = some inst)
    (hafter : forall x, w'.instAt x ≠ some inst) : w.Ends plat a inst := by
  cases step_accounts hstep with
  | kept hkept =>
      have hlive := congrArg (fun A => A.resources.live h) hkept
      exact absurd (hlive.trans hbefore) (hafter h)
  | shut ha _ hshut => exact .shut ha hshut hbefore
  | @called c hcall hadm hw' =>
      have hstart : c.start.instAt = w.instAt := by
        rcases invocation_start hcall with ⟨L, paused, hstart⟩
        rw [hstart]
        rfl
      have hlater : forall x, (finalState (enter plat c.env c.args c.entry
          c.start)).instAt x ≠ some inst := by
        intro x hx
        apply hafter x
        rw [hw', ← hx]
        exact congrArg (fun A => A.resources.live x)
          (@accounts_performCall plat c)
      rw [← hstart] at hbefore
      have houtcome := @enter_outcome plat c.env c.args c.start hadm c.entry
      by_cases hf : c.f = .close ∨ c.f = .onCollectSocket
      · rcases outcome_closes hf houtcome with ⟨hkept, _⟩ |
          ⟨p, v, hderefs, hne, _, _, hhandles, hr⟩
        · have hlive := congrArg (fun A => A.resources.live h) hkept
          exact absurd (hlive.trans hbefore) (hlater h)
        · refine .closed hcall hf hderefs hne ?_
          rw [← hstart, ← hbefore]
          by_contra hother
          apply hlater h
          rw [hr, ← hbefore]
          unfold World.instAt finalState
          have hh : h ≠ (c.start.infoAt c.env p).hSocket := by
            rintro rfl
            exact hother rfl
          simp only [closing_handles, if_neg hh, hhandles]
      · push Not at hf
        have heffect := outcome_effect_of_ne hf.1 hf.2 houtcome
        generalize enter plat c.env c.args c.entry c.start = r at *
        have hopened : forall x, c.env.handle = some x -> h ≠ x := by
          rintro x hx rfl
          have hfree := handle_free hadm hx
          exact absurd (hbefore.symm.trans hfree) (by simp)
        cases heffect with
        | kept hkept =>
            have hlive := congrArg (fun A => A.resources.live h) hkept
            exact absurd (hlive.trans hbefore) (hlater h)
        | lost _ hhandle _ hchange | made _ hhandle _ hchange =>
            have hlive := congrArg (fun A => A.resources.live h) hchange
            refine absurd (hlive.trans ?_) (hlater h)
            exact (Function.update_of_ne (hopened _ hhandle) _ _).trans hbefore
        | dropped hcloser => exact absurd hcloser (not_or.mpr hf)

theorem not_open_of_ends {inst : Nat} (hends : w.Ends plat a inst)
    (htables : w.TablesSound) (hstep : step plat w a = some w') (x : Int) :
    w'.instAt x ≠ some inst := by
  cases hends with
  | shut ha hshut =>
      subst ha
      unfold World.instAt
      rw [(exit_inv hstep).2.2.2, exit_handles, if_pos hshut]
      simp
  | @closed c p hcall hf hderefs hne hopen =>
      rcases step_of_invocation hcall hstep with ⟨hadm, rfl⟩
      have hentry := entry_of_closer hf
      have houtcome := @enter_outcome plat c.env c.args c.start hadm c.entry
      rw [hentry] at hderefs houtcome
      rcases outcome_closes_of_derefs hf hderefs hne houtcome with
        ⟨v, _, _, hhandles, hr⟩
      rw [← hentry] at hr
      rcases invocation_start hcall with ⟨L, paused, hstart⟩
      intro hx
      have hclosing : (v.closing ⟨c.f, p⟩
          (c.start.infoAt c.env p).hSocket).instAt x = some inst := by
        rw [← hx]
        unfold World.performCall
        rw [hr]
        rfl
      rcases Option.map_eq_some_iff.mp hclosing with ⟨s, hs, hinst⟩
      rcases handles_of_closing hs with ⟨hother, hold⟩
      rw [hhandles, hstart] at hold
      apply hother
      exact htables.handles.live_injective
        (Option.map_eq_some_iff.mpr ⟨s, hold, hinst⟩) hopen

theorem not_open_of_endedIn {inst : Nat}
    (hrun : runFrom (step plat) initialWorld actions = some w)
    (hended : EndedIn plat actions inst) (x : Int) : w.instAt x ≠ some inst := by
  rcases hended with ⟨before, a, after, mid, rfl, hbefore, hends⟩
  rcases runFrom_append_some hrun with ⟨mid₁, hmid₁, hafter⟩
  rw [hbefore, Option.some.injEq] at hmid₁
  subst hmid₁
  rcases runFrom_cons_some hafter with ⟨mid', hstep, hrest⟩
  have htables := @reachable_tablesSound plat mid ⟨before, hbefore⟩
  have hlt : inst < mid.nextHandle := by
    cases hends with
    | closed _ _ _ _ hopen | shut _ _ hopen => exact htables.handles.live_lt hopen
  have hclosed := not_open_of_ends hends htables hstep
  intro hopen
  rcases Option.map_eq_some_iff.mp hopen with ⟨s, hs, hinst⟩
  refine stays_closed (step_tablesSound htables hstep)
    (Nat.lt_of_lt_of_le hlt (step_tables hstep).2.next_le) ?_ ⟨after, hrest⟩ x s
    hs hinst
  intro y t ht hinst'
  exact hclosed y (Option.map_eq_some_iff.mpr ⟨t, ht, hinst'⟩)

theorem open_or_endedIn {inst : Nat}
    (hrun : runFrom (step plat) initialWorld actions = some w)
    (hlt : inst < w.nextHandle) :
    (exists x, w.instAt x = some inst) ∨ EndedIn plat actions inst := by
  by_contra hnone
  push Not at hnone
  rcases @exists_step_of_run _ _ (step plat)
      (fun v => inst < v.nextHandle ∧ forall x, v.instAt x ≠ some inst) _ _ _
      (fun h => Nat.not_lt_zero _ h.1) hrun ⟨hlt, hnone.1⟩ with
    ⟨before, a, after, mid, mid', hactions, hbefore, hstep, hnot, hin, _⟩
  rw [not_and] at hnot
  have hopened : inst < mid.nextHandle -> EndedIn plat actions inst := by
    intro hmid
    have hopen := hnot hmid
    push Not at hopen
    rcases hopen with ⟨x, hx⟩
    exact ⟨before, a, after, mid, hactions, hbefore, ends_of_step hstep hx hin.2⟩
  rcases Nat.lt_or_ge inst mid.nextHandle with hmid | hmid
  · exact hnone.2 (hopened hmid)
  · rcases (step_tables hstep).2.live_of_new hmid hin.1 with ⟨x, hx⟩
    exact hin.2 x hx

theorem tracked_earlier (hreach : Reachable (step plat) w w') {i : Issue}
    (hi : i ∈ w'.tracked) (hlt : i.serial < w.nextRecord) : i ∈ w.tracked := by
  have hkept : w.nextRecord ≤ w'.nextRecord ∧
      forall j, j ∈ w'.tracked -> j ∈ w.tracked ∨ w.nextRecord ≤ j.serial := by
    refine @reachable_invariant _ _ (step plat)
      (fun x => w.nextRecord ≤ x.nextRecord ∧
        forall j, j ∈ x.tracked -> j ∈ w.tracked ∨ w.nextRecord ≤ j.serial)
      ?_ _ _ ⟨Nat.le_refl _, fun j hj => Or.inl hj⟩ hreach
    rintro x a y ⟨hle, htracked⟩ hstep
    refine ⟨Nat.le_trans hle (step_tables hstep).1.next_le, ?_⟩
    intro j hj
    cases step_change hstep with
    | shrinks _ hshrinks => exact htracked j (hshrinks j hj)
    | made _ _ hmade =>
        rcases hmade j hj with rfl | hold
        · exact Or.inr hle
        · exact htracked j hold
  rcases hkept.2 i hi with hold | hnew
  · exact hold
  · exact absurd hlt (Nat.not_lt.mpr hnew)

theorem inst_of_record {i : Issue} {addr : Nat} {rec : SocketRecord}
    (hissues : w.IssuesSound) (hi : i ∈ w.tracked)
    (hrec : w.records addr = some rec) (hserial : rec.serial = i.serial) :
    rec.inst = i.inst := by
  have hlive := live_of_record hrec
  rw [hserial] at hlive
  rcases hissues.honoured i hi addr hlive with ⟨_, h, hholds⟩
  rcases Option.map_eq_some_iff.mp hholds with ⟨rec', hrec', hpair⟩
  rw [hrec, Option.some.injEq] at hrec'
  rw [hrec']
  exact (Prod.mk.inj hpair).2

theorem scriptCalls_closes {i : Issue} (hf : f = .close ∨ f = .onCollectSocket)
    (hrun : runFrom (step plat) initialWorld actions = some w)
    (hissued : Event.issued i ∈ w.log)
    (hcalls : ScriptCalls plat actions f i.serial) :
    Event.returned f (some i.serial) ∈ w.log ∧
      forall h s, w.handles h = some s -> s.inst ≠ i.inst := by
  rcases step_of_scriptCalls hrun hcalls with
    ⟨args, env, mid, mid', hmid, hstep, ⟨after, hlater⟩, addr, rec, hderefs, hrec,
      hserial⟩
  have htables := reachable_tablesSound hmid
  have hhomed := reachable_homed hmid
  have hcloses := call_closes hf hhomed hstep hderefs hrec
  have htracked : i ∈ mid.tracked := by
    apply @tracked_earlier plat mid w ⟨.call f args env :: after, ?_⟩
    · exact List.mem_append_left _ (mem_issuedIn.mpr hissued)
    · rw [← hserial]
      exact htables.records.live_lt (live_of_record hrec)
    · rw [runFrom_cons, hstep]
      exact hlater
  have hinst := inst_of_record (reachable_issuesSound hmid) htracked hrec hserial
  have hholds : mid.accounts.holds addr = some (rec.info.hSocket, rec.inst) :=
    Option.map_eq_some_iff.mpr ⟨rec, hrec, rfl⟩
  constructor
  · rw [← hserial]
    exact mem_log_of_reachable ⟨after, hlater⟩ hcloses.returned
  · rw [← hinst]
    exact stays_closed (step_tablesSound htables hstep)
      (Nat.lt_of_lt_of_le (hhomed.holds_lt hholds)
        (step_tables hstep).2.next_le)
      hcloses.closed ⟨after, hlater⟩

end Calls

/-!
# When nothing leaks
-/

section Leaks

variable {plat : Platform} {actions : List Action} {w : World}

theorem closesDropped_of_noLeak
    (hrun : runFrom (step plat) initialWorld actions = some w) (h : NoLeak w) :
    ClosesDropped plat actions w where
  dropped := by
    intro i hissued hreach
    by_cases hclose : w.timesReturned .close i = 0
    · right
      apply scriptCalls_of_returned (Or.inr rfl) hrun
      have hone := h.finalized i hissued hreach hclose
      exact List.count_pos_iff.mp (Nat.lt_of_lt_of_eq Nat.one_pos hone.symm)
    · left
      apply scriptCalls_of_returned (Or.inl rfl) hrun
      exact List.count_pos_iff.mp (Nat.pos_of_ne_zero hclose)
  ended := by
    intro inst hlt hnone
    rcases open_or_endedIn hrun hlt with ⟨x, hx⟩ | hended
    · rcases Option.map_eq_some_iff.mp hx with ⟨s, hs, rfl⟩
      rcases h.reachable x s hs with ⟨i, hissued, hinst, _⟩
      exact absurd hinst (hnone i hissued)
    · exact hended

theorem noLeak_of_closesDropped
    (hrun : runFrom (step plat) initialWorld actions = some w)
    (h : ClosesDropped plat actions w) : NoLeak w where
  finalized := by
    intro i hissued hreach hclose
    have honce := (reachable_closedOnce ⟨actions, hrun⟩).once .onCollectSocket
      i.serial (Or.inr rfl)
    rcases h.dropped i hissued hreach with hcalls | hcalls
    · have hmem := (scriptCalls_closes (Or.inl rfl) hrun hissued hcalls).1
      exact absurd hmem (List.count_eq_zero.mp hclose)
    · have hmem := (scriptCalls_closes (Or.inr rfl) hrun hissued hcalls).1
      exact Nat.le_antisymm honce (List.count_pos_iff.mpr hmem)
  reachable := by
    intro x s hs
    have hopen : w.instAt x = some s.inst :=
      Option.map_eq_some_iff.mpr ⟨s, hs, rfl⟩
    have hlt := (reachable_tablesSound ⟨actions, hrun⟩).handles.live_lt hopen
    have hsome : exists i, Event.issued i ∈ w.log ∧ i.inst = s.inst := by
      by_contra hnone
      push Not at hnone
      exact not_open_of_endedIn hrun (h.ended s.inst hlt hnone) x hopen
    rcases hsome with ⟨i, hissued, hinst⟩
    refine ⟨i, hissued, hinst, ?_⟩
    by_contra hreach
    rcases h.dropped i hissued hreach with hcalls | hcalls
    · exact (scriptCalls_closes (Or.inl rfl) hrun hissued hcalls).2 x s hs
        hinst.symm
    · exact (scriptCalls_closes (Or.inr rfl) hrun hissued hcalls).2 x s hs
        hinst.symm

/--
In every state, at the end of a collection or of `lua_close` as in any other,
nothing has leaked exactly if the script itself has closed what it has dropped.
-/
theorem noLeak_iff_closesDropped (plat : Platform) (actions : List Action)
    (w : World) (hrun : runFrom (step plat) initialWorld actions = some w) :
    NoLeak w <-> ClosesDropped plat actions w :=
  ⟨closesDropped_of_noLeak hrun, noLeak_of_closesDropped hrun⟩

end Leaks

/-- `socket.create()`, whose value the script drops. -/
def createDrop : List Action :=
  createFirst { handle := some 3, malloc := some 16 } ++ [.script (.forget 0)]

theorem not_noLeak {w : World} {i : Issue} {h : Int}
    (hissued : issuedIn w.log = [i]) (hopen : (w.handles h).isSome = true)
    (hdropped : ¬w.CanReach i.value) : ¬NoLeak w := by
  intro hnoLeak
  rcases Option.isSome_iff_exists.mp hopen with ⟨s, hs⟩
  rcases hnoLeak.reachable h s hs with ⟨j, hj, _, hreach⟩
  rw [← mem_issuedIn, hissued, List.mem_singleton] at hj
  rw [hj] at hreach
  exact hdropped hreach

/-- A full collection and the end of the interpreter leave the handle open. -/
theorem createDrop_leaks :
    (¬forall actions w,
      runFrom (step .unix) initialWorld (actions ++ [.collect]) = some w ->
      w.lua.tmudata = [] -> NoLeak w) ∧
    ¬forall actions w,
      runFrom (step .unix) initialWorld (actions ++ [.exit, .closeState]) =
        some w -> NoLeak w := by
  have hcollect : (runFrom (step .unix) initialWorld
      (createDrop ++ [.collect])).map (fun w => (issuedIn w.log,
        (w.handles 3).isSome, decide (w.CanReach (Issue.value ⟨16, 0, 0⟩)),
        w.lua.tmudata)) = some ([⟨16, 0, 0⟩], true, false, []) := by
    decide +kernel
  have hclose : (runFrom (step .unix) initialWorld
      (createDrop ++ [.exit, .closeState])).map (fun w => (issuedIn w.log,
        (w.handles 3).isSome, decide (w.CanReach (Issue.value ⟨16, 0, 0⟩)))) =
      some ([⟨16, 0, 0⟩], true, false) := by
    decide +kernel
  constructor
  · intro h
    rcases Option.map_eq_some_iff.mp hcollect with ⟨w, hrun, hw⟩
    simp only [Prod.mk.injEq, decide_eq_false_iff_not] at hw
    exact not_noLeak hw.1 hw.2.1 hw.2.2.1 (h _ w hrun hw.2.2.2)
  · intro h
    rcases Option.map_eq_some_iff.mp hclose with ⟨w, hrun, hw⟩
    simp only [Prod.mk.injEq, decide_eq_false_iff_not] at hw
    exact not_noLeak hw.1 hw.2.1 hw.2.2 (h _ w hrun)

/-- `local s = socket.create() s:close() s = nil collectgarbage()`, up to the call. -/
def createFetchClose : List Action :=
  createFirst { handle := some 3, malloc := some 16 } ++ fetch 3 "close"

def closeDropCollect : List Action :=
  createFetchClose ++ .call .close [.lightuserdata (.block 16)] {} ::
    [.script (.forget 2), .collect]

theorem scriptCalls_closeDropCollect :
    ScriptCalls .unix closeDropCollect .close 0 := by
  have hfacts : (runFrom (step .unix) initialWorld createFetchClose).map
      (fun mid => ((mid.derefs .unix {} [.lightuserdata (.block 16)]
        (.call .close)).isSome, mid.serialAt (.block 16))) =
          some (true, some 0) := by
    decide +kernel
  rcases Option.map_eq_some_iff.mp hfacts with ⟨mid, hmid, hpair⟩
  rw [Prod.mk.injEq] at hpair
  exact ⟨createFetchClose, _, {}, _, mid, rfl, hmid, hpair.1, hpair.2⟩

/-- A first `socket.create()` for whose metatable there is no memory. -/
def createFails : List Action :=
  fetch 2 "socket" ++ fetch 3 "create" ++
    [.call .create [] { handle := some 3, malloc := some 16 }] ++
    List.replicate 4 (.api .nil) ++ [.apiRaise .memory]

theorem endedIn_createFails :
    EndedIn .windows (createFails ++ [.exit, .closeState]) 0 := by
  have hfacts : (runFrom (step .windows) initialWorld createFails).map
      (fun mid => (mid.socketsInitialized, mid.instAt 3)) =
        some (true, some 0) := by
    decide +kernel
  rcases Option.map_eq_some_iff.mp hfacts with ⟨mid, hmid, hpair⟩
  rw [Prod.mk.injEq] at hpair
  exact ⟨createFails, .exit, [.closeState], mid, rfl, hmid,
    .shut rfl ⟨rfl, hpair.1⟩ hpair.2⟩

/--
A socket that is closed before it is dropped does not leak, nor does on Windows
the handle of a call that has failed, when the interpreter is closed.
-/
theorem noLeak_closeDropCollect :
    (exists w, runFrom (step .unix) initialWorld closeDropCollect = some w ∧
      NoLeak w ∧ ¬w.CanReach (Issue.value ⟨16, 0, 0⟩)) ∧
    exists w, runFrom (step .windows) initialWorld
        (createFails ++ [.exit, .closeState]) = some w ∧
      NoLeak w ∧ w.nextHandle = 1 := by
  constructor
  · have hfacts : (runFrom (step .unix) initialWorld closeDropCollect).map
        (fun w => (issuedIn w.log, w.nextHandle,
          decide (w.CanReach (Issue.value ⟨16, 0, 0⟩)))) =
        some ([⟨16, 0, 0⟩], 1, false) := by
      decide +kernel
    rcases Option.map_eq_some_iff.mp hfacts with ⟨w, hrun, hw⟩
    simp only [Prod.mk.injEq, decide_eq_false_iff_not] at hw
    rcases hw with ⟨hissued, hnext, hdropped⟩
    refine ⟨w, hrun, ?_, hdropped⟩
    apply (noLeak_iff_closesDropped .unix closeDropCollect w hrun).mpr
    constructor
    · intro i hi _
      rw [← mem_issuedIn, hissued, List.mem_singleton] at hi
      rw [hi]
      exact Or.inl scriptCalls_closeDropCollect
    · intro inst hlt hnone
      rw [hnext, Nat.lt_one_iff] at hlt
      refine absurd hlt.symm (hnone ⟨16, 0, 0⟩ ?_)
      rw [← mem_issuedIn, hissued]
      exact List.mem_cons_self
  · have hfacts : (runFrom (step .windows) initialWorld
        (createFails ++ [.exit, .closeState])).map
        (fun w => (issuedIn w.log, w.nextHandle)) = some ([], 1) := by
      decide +kernel
    rcases Option.map_eq_some_iff.mp hfacts with ⟨w, hrun, hw⟩
    rw [Prod.mk.injEq] at hw
    refine ⟨w, hrun, ?_, hw.2⟩
    apply (noLeak_iff_closesDropped .windows _ w hrun).mpr
    constructor
    · intro i hi
      rw [← mem_issuedIn, hw.1] at hi
      cases hi
    · intro inst hlt _
      rw [hw.2, Nat.lt_one_iff] at hlt
      rw [hlt]
      exact endedIn_createFails

end LuaServer
