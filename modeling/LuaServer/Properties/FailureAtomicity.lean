import LuaServer.Interpreter.Issues

/-!
# Failing calls of create and accept

`create` and `accept` open a handle first and build the Lua value afterwards.  A
call can fail before the handle is there, when `malloc` gives no memory for the
record, and in the calls of the Lua API that build the value.
-/

namespace LuaServer

open Library

/--
A call of `create` or `accept` made in `w` fails and leaves `w'`: at once, or,
when it has got its handle and its record, in a state `v` in which a call of the
Lua API raises, after Lua code may have run.  The frame is known by the number
that the record of the call was given.
-/
inductive FailedCall (plat : Platform) (w : World) (c : Invocation) :
    Option World -> World -> Prop where
  | atOnce {a : Action} {w' : World} :
      w.invocation a = some c -> step plat w a = some w' ->
      w'.result ≠ .pending -> (forall vs, w'.result ≠ .returned vs) ->
      FailedCall plat w c none w'
  | later {a : Action} {between : List Action} {u v w' : World} {fr : Frame}
      {rest : List Frame} {e : LuaError} :
      w.invocation a = some c -> step plat w a = some u ->
      u.result = .pending -> runFrom (step plat) u between = some v ->
      v.frames = fr :: rest -> fr.issue.serial = w.nextRecord ->
      step plat v (.apiRaise e) = some w' ->
      FailedCall plat w c (some v) w'

/-- The record or the opening of the handle is still there. -/
def World.Retains (w : World) (serial inst : Nat) : Prop :=
  (exists a rec, w.records a = some rec ∧ rec.serial = serial) ∨
    exists h s, w.handles h = some s ∧ s.inst = inst

/--
The call leaves by a Lua error and nothing of what it obtained stays behind; if
it fails at once, records and handles are as they were.
-/
structure FailsCleanly (w : World) (before : Option World) (w' : World) :
    Prop where
  raises : exists e, w'.result = .raised e
  same : before = none -> w'.records = w.records ∧ w'.handles = w.handles
  undone : before ≠ none -> ¬w'.Retains w.nextRecord w.nextHandle

def Invocation.delivers (plat : Platform) (c : Invocation) : Bool :=
  match c.entry with
  | .call .create => headerSucceeds plat c.env c.start && c.env.handle.isSome
  | .call .accept =>
      match c.start.derefs plat c.env c.args (.call .accept) with
      | some p =>
          (c.start.acceptAnswer c.env (c.start.infoAt c.env p).hSocket).isSome
      | none => false
  | _ => false

/--
There is nothing to undo: no handle was delivered, or calls made before the error
have freed the new record and closed the new handle, which takes another value
with the address of the record or the number of the handle.
-/
def NothingToUndo (plat : Platform) (w : World) (c : Invocation) :
    Option World -> Prop
  | none => c.delivers plat = false
  | some v =>
      (exists p, Event.release p (some w.nextRecord) ∈ v.log) ∧
        exists call, Event.os call ∈ v.log ∧ call.op = .close ∧
          call.inst = some w.nextHandle

section Calls

variable {plat : Platform} {w : World} {c : Invocation}
variable {r : EStateM.Result Exit World Reply}

/-- How a call of `create` or `accept` can end, and when. -/
inductive MakerEnd (plat : Platform) (c : Invocation) :
    EStateM.Result Exit World Reply -> Prop where
  | refused {e : LuaError} {v : World} :
      c.delivers plat = false -> v.records = c.start.records ->
      v.handles = c.start.handles -> MakerEnd plat c (.error (.raise e) v)
  | crashed {v : World} :
      c.delivers plat = true -> MakerEnd plat c (.error .crash v)
  | building {fr : Frame} {v : World} :
      MakerEnd plat c (.ok (.building fr) v)

theorem acceptAnswer_of_handles {u v : World} {env : Env}
    (h : v.handles = u.handles) (hSocket : Int) :
    v.acceptAnswer env hSocket = u.acceptAnswer env hSocket := by
  unfold World.acceptAnswer
  rw [h]

theorem entry_of_maker (hf : c.f = .create ∨ c.f = .accept) :
    c.entry = .call .create ∨ c.entry = .call .accept := by
  refine hf.imp (fun h => entry_of_f h ?_) (fun h => entry_of_f h ?_)
  · intro point
    cases point <;> simp [PausePoint.f]
  · intro point
    cases point <;> simp [PausePoint.f]

theorem maker_end (hf : c.entry = .call .create ∨ c.entry = .call .accept)
    (h : Outcome plat c.env c.args c.start c.entry r) : MakerEnd plat c r := by
  rcases c with ⟨entry, args, env, w⟩
  simp only at hf h
  cases h with
  | initFailed _ hinit =>
      refine MakerEnd.refused ?_ rfl rfl
      rcases hf with hf | hf <;> cases hf
      · simp [Invocation.delivers, hinit]
      · simp [Invocation.delivers, World.derefs, World.checks, hinit]
  | rejected hsocket _ hpass =>
      refine MakerEnd.refused ?_ afterHeader_records afterHeader_handles
      rcases hf with hf | hf <;> cases hf
      · cases hsocket
      · simp [Invocation.delivers, World.derefs, World.checks, hpass]
  | @converting f _ _ point _ _ _ _ hpoint =>
      rw [← hpoint] at hf
      cases point with
      | bind | send | recv => rcases hf with hf | hf <;> cases hf
  | invalid hsocket _ herror =>
      rcases hf with rfl | rfl
      · cases hsocket
      · cases herror
  | acted hsocket hderefs hne hact =>
      rename_i p
      rcases hf with rfl | rfl
      · cases hsocket
      · have hrecords : (w.reading (.call .accept) p).records = w.records :=
          checked_records _ p
        have hhandles : (w.reading (.call .accept) p).handles = w.handles :=
          checked_handles _ p
        cases hact with
        | acceptFailed hnone =>
            rw [acceptAnswer_of_handles hhandles] at hnone
            refine MakerEnd.refused ?_ ?_ ?_
            · simp [Invocation.delivers, hderefs, hnone]
            · exact hrecords
            · exact hhandles
        | acceptNoMemory hsome =>
            rw [acceptAnswer_of_handles hhandles] at hsome
            apply MakerEnd.crashed
            simp [Invocation.delivers, hderefs, hsome]
        | accepted => exact MakerEnd.building
  | resumedNull | freed => rcases hf with hf | hf <;> cases hf
  | createFailed hinit hhandle =>
      refine MakerEnd.refused ?_ ?_ ?_
      · simp [Invocation.delivers, hhandle]
      · exact afterHeader_records
      · exact afterHeader_handles
  | createNoMemory hinit hhandle =>
      apply MakerEnd.crashed
      simp [Invocation.delivers, hinit, hhandle]
  | created => exact MakerEnd.building
  | collectNull | collected => rcases hf with h | h <;> cases h

theorem atOnce_cleanly_iff {a : Action} {w' : World}
    (hf : c.f = .create ∨ c.f = .accept) (hcall : w.invocation a = some c)
    (hstep : step plat w a = some w') (hpending : w'.result ≠ .pending) :
    FailsCleanly w none w' <-> c.delivers plat = false := by
  rcases invocation_start hcall with ⟨L, paused, hstart⟩
  rcases step_of_invocation hcall hstep with ⟨hadm, rfl⟩
  have hend := maker_end (entry_of_maker hf)
    (@enter_outcome plat c.env c.args c.start hadm c.entry)
  unfold World.performCall at hpending ⊢
  cases hrun : enter plat c.env c.args c.entry c.start with
  | ok reply v =>
      rw [hrun] at hend hpending
      cases hend
      exact absurd rfl hpending
  | error exit v =>
      rw [hrun] at hend
      cases hend with
      | refused hdelivers hrecords hhandles =>
          rename_i e
          rw [hstart] at hrecords hhandles
          constructor
          · intro _
            exact hdelivers
          · intro _
            exact
              { raises := ⟨e, rfl⟩
                same := fun _ => ⟨hrecords, hhandles⟩
                undone := fun hne => absurd rfl hne }
      | crashed hdelivers =>
          constructor
          · intro h
            rcases h.raises with ⟨_, hraised⟩
            cases hraised
          · intro hno
            rw [hdelivers] at hno
            cases hno

theorem apiRaise_state {v w' : World} {e : LuaError}
    (hstep : step plat v (.apiRaise e) = some w') :
    w'.records = v.records ∧ w'.handles = v.handles ∧
      w'.result = .raised e := by
  rcases apiRaise_inv hstep with ⟨fr, rest, _, rfl⟩
  exact ⟨rfl, rfl, rfl⟩

theorem mem_owners_retired {v : World} {serial : Nat} :
    serial ∈ v.accounts.owners.retired <->
      exists p, Event.release p (some serial) ∈ v.log := by
  constructor
  · intro hmem
    rcases List.mem_filterMap.mp hmem with ⟨e, he, hreleased⟩
    cases e with
    | release p s =>
        simp only [Event.released?] at hreleased
        rw [hreleased] at he
        exact ⟨p, he⟩
    | startup | shutdown | pass | read | os | store | issued | returned =>
        cases hreleased
  · rintro ⟨p, hmem⟩
    exact List.mem_filterMap.mpr ⟨_, hmem, rfl⟩

theorem mem_resources_retired {v : World} {inst : Nat} :
    inst ∈ v.accounts.resources.retired <->
      exists call, Event.os call ∈ v.log ∧ call.op = .close ∧
        call.inst = some inst := by
  constructor
  · intro hmem
    rcases List.mem_filterMap.mp hmem with ⟨e, he, hclosed⟩
    cases e with
    | os call =>
        simp only [Event.closed?] at hclosed
        split at hclosed
        · rename_i hop
          exact ⟨call, he, hop, hclosed⟩
        · cases hclosed
    | startup | shutdown | pass | read | release | store | issued | returned =>
        cases hclosed
  · rintro ⟨call, hmem, hop, hinst⟩
    refine List.mem_filterMap.mpr ⟨_, hmem, ?_⟩
    simp [Event.closed?, hop, hinst]

/-- A record and a handle that were obtained stay until they are given back. -/
theorem not_retains_iff {v : World} {serial inst first : Nat}
    (h : v.TablesSound) (hcomplete : v.accounts.resources.Complete first)
    (hle : first ≤ inst) (hserial : serial < v.nextRecord)
    (hinst : inst < v.nextHandle) :
    ¬v.Retains serial inst <->
      (exists p, Event.release p (some serial) ∈ v.log) ∧
        exists call, Event.os call ∈ v.log ∧ call.op = .close ∧
          call.inst = some inst := by
  rw [← mem_owners_retired, ← mem_resources_retired,
    h.records.mem_retired_iff h.records_complete (Nat.zero_le _) hserial,
    h.handles.mem_retired_iff hcomplete hle hinst]
  unfold World.Retains World.accounts World.instAt
  simp only [not_or, not_exists, not_and, ne_eq, Option.map_eq_some_iff]

theorem counters_of_pending {a : Action} {u : World}
    (hcall : w.invocation a = some c) (hstep : step plat w a = some u)
    (hpending : u.result = .pending) (hmaker : c.f = .create ∨ c.f = .accept) :
    w.nextRecord < u.nextRecord ∧ w.nextHandle < u.nextHandle := by
  rcases invocation_start hcall with ⟨L, paused, hstart⟩
  rcases step_of_invocation hcall hstep with ⟨hadm, rfl⟩
  have heffect := @outcome_effect_of_ne plat c.env c.args c.start c.entry _
    (by rcases hmaker with h | h <;> simp [h])
    (by rcases hmaker with h | h <;> simp [h])
    (enter_outcome hadm c.entry)
  unfold World.performCall at hpending ⊢
  generalize enter plat c.env c.args c.entry c.start = r at *
  cases heffect with
  | kept _ hbuilding =>
      cases r with
      | ok reply v =>
          cases reply with
          | values vs => cases hpending
          | building fr => exact absurd rfl (hbuilding fr v)
          | paused args point => cases hpending
      | error exit v => cases exit <;> cases hpending
  | lost => cases hpending
  | @made h a v _ _ _ hmade =>
      have hrecord : v.accounts.owners.next = w.nextRecord + 1 := by
        rw [hmade, hstart]
        rfl
      have hhandle : v.accounts.resources.next = w.nextHandle + 1 := by
        rw [hmade, hstart]
        rfl
      exact ⟨Nat.lt_of_lt_of_eq (Nat.lt_succ_self _) hrecord.symm,
        Nat.lt_of_lt_of_eq (Nat.lt_succ_self _) hhandle.symm⟩
  | dropped => cases hpending

theorem pending_performCall (hadm : c.env.admissible plat c.start = true)
    {i : Issue}
    (hi : i ∈ (c.start.performCall plat c.entry c.args c.env).pendingIssues) :
    i ∈ c.start.pendingIssues ∨ i.serial = c.start.nextRecord := by
  have houtcome := @enter_outcome plat c.env c.args c.start hadm c.entry
  have hframes := outcome_frames houtcome
  have hkept := @pendingIssues_performCall plat c hadm
  by_cases hf : c.f = .close ∨ c.f = .onCollectSocket
  · left
    rw [← hkept]
    · exact hi
    · intro fr v hrun
      rcases outcome_closes hf houtcome with ⟨_, hr⟩ | ⟨_, _, _, _, _, _, _, hr⟩
      · exact hr _ _ hrun
      · rw [hrun] at hr
        cases hr
  · push Not at hf
    have heffect := outcome_effect_of_ne hf.1 hf.2 houtcome
    unfold World.performCall at *
    generalize enter plat c.env c.args c.entry c.start = r at *
    cases heffect with
    | kept _ hr =>
        left
        rw [← hkept hr]
        exact hi
    | lost =>
        left
        rw [← hkept (by simp)]
        exact hi
    | made =>
        rcases List.mem_cons.mp hi with rfl | hi
        · exact Or.inr rfl
        · left
          unfold World.pendingIssues
          rw [← hframes]
          exact hi
    | dropped hcloser => exact absurd hcloser (not_or.mpr hf)

/--
As long as a call that started with these counters is in progress, the openings
delivered since then are open or were closed by `close` or the finalizer.
-/
def HandlesKept (serial first : Nat) (w : World) : Prop :=
  w.accounts.resources.Complete first ∨
    serial < w.nextRecord ∧
      forall i, i ∈ w.pendingIssues -> i.serial ≠ serial

theorem step_handlesKept {v w' : World} {serial first : Nat} {a : Action}
    (h : HandlesKept serial first v) (hserial : serial < v.nextRecord)
    (hstep : step plat v a = some w') : HandlesKept serial first w' := by
  rcases h with hcomplete | ⟨_, hgone⟩
  · cases step_accounts hstep with
    | kept hkept =>
        left
        rw [hkept]
        exact hcomplete
    | called hcall hadm hw' =>
        left
        rw [hw', accounts_performCall]
        rw [← accounts_start hcall] at hcomplete
        exact (outcome_tables hadm
          (enter_outcome hadm _)).2.complete hcomplete
    | shut _ hframes _ hw' hclear =>
        right
        constructor
        · have hnext : w'.nextRecord = v.nextRecord :=
            congrArg (fun A => A.owners.next) hclear
          exact hnext ▸ hserial
        · intro i hi
          unfold World.pendingIssues at hi
          rw [hw', exit_frames, hframes] at hi
          cases hi
  · right
    refine ⟨Nat.lt_of_lt_of_le hserial (step_tables hstep).1.next_le, ?_⟩
    intro i hi
    cases step_shape hstep with
    | quiet _ hpending =>
        apply hgone
        rw [← hpending]
        exact hi
    | ended | abandoned => exact hgone i hi
    | raised _ hframes | returned _ hframes =>
        apply hgone
        unfold World.pendingIssues
        rw [hframes]
        exact List.mem_cons_of_mem _ hi
    | exited =>
        unfold World.pendingIssues at hi
        rw [exit_frames] at hi
        exact hgone i hi
    | @called c hcall hadm =>
        rcases invocation_start hcall with ⟨L, paused, hstart⟩
        rcases pending_performCall hadm hi with hold | hnew
        · rw [hstart] at hold
          exact hgone i hold
        · rw [hnew, hstart]
          exact Nat.ne_of_gt hserial

theorem later_cleanly_iff {v w' : World} {e : LuaError} {first : Nat}
    (h : v.TablesSound) (hcomplete : v.accounts.resources.Complete first)
    (hle : first ≤ w.nextHandle) (hserial : w.nextRecord < v.nextRecord)
    (hinst : w.nextHandle < v.nextHandle)
    (hstep : step plat v (.apiRaise e) = some w') :
    FailsCleanly w (some v) w' <-> NothingToUndo plat w c (some v) := by
  rcases apiRaise_state hstep with ⟨hrecords, hhandles, hresult⟩
  have hkeeps : w'.Retains w.nextRecord w.nextHandle <->
      v.Retains w.nextRecord w.nextHandle := by
    unfold World.Retains
    rw [hrecords, hhandles]
  have hgone := not_retains_iff h hcomplete hle hserial hinst
  constructor
  · intro hclean
    exact hgone.mp fun hkept => hclean.undone (by simp) (hkeeps.mpr hkept)
  · intro hundone
    exact
      { raises := ⟨e, hresult⟩
        same := fun hnone => by cases hnone
        undone := fun _ hkept => hgone.mpr hundone (hkeeps.mp hkept) }

end Calls

/--
A failing call is undone exactly if the system delivered no handle to it, or, for
an error in the Lua API, if other calls have given its record and its handle back
before.
-/
theorem failsCleanly_iff_nothingToUndo (plat : Platform) (w : World)
    (c : Invocation) (before : Option World) (w' : World)
    (hreach : ReachableWorld plat w) (hf : c.f = .create ∨ c.f = .accept)
    (h : FailedCall plat w c before w') :
    FailsCleanly w before w' <-> NothingToUndo plat w c before := by
  cases h with
  | atOnce hcall hstep hpending => exact atOnce_cleanly_iff hf hcall hstep hpending
  | @later a between u v _ _ _ _ hcall hstep hpending hrun _ _ hraise =>
      rcases counters_of_pending hcall hstep hpending hf with ⟨hserial, hinst⟩
      have hu := step_tablesSound (reachable_tablesSound hreach) hstep
      have hv : v.TablesSound ∧ w.nextRecord < v.nextRecord ∧
          w.nextHandle < v.nextHandle ∧
          HandlesKept w.nextRecord w.nextHandle v := by
        refine @reachable_invariant _ _ (step plat) (fun x => x.TablesSound ∧
          w.nextRecord < x.nextRecord ∧ w.nextHandle < x.nextHandle ∧
          HandlesKept w.nextRecord w.nextHandle x) ?_ u v
          ⟨hu, hserial, hinst, ?_⟩ ⟨between, hrun⟩
        · rintro x b y ⟨htables, hrec, hhandle, hkept⟩ hxy
          rcases step_tables hxy with ⟨hrecords, hhandles⟩
          exact ⟨step_tablesSound htables hxy,
            Nat.lt_of_lt_of_le hrec hrecords.next_le,
            Nat.lt_of_lt_of_le hhandle hhandles.next_le,
            step_handlesKept hkept hrec hxy⟩
        · left
          rcases invocation_start hcall with ⟨L, paused, hstart⟩
          rcases step_of_invocation hcall hstep with ⟨hadm, rfl⟩
          rw [accounts_performCall]
          have hcomplete := w.accounts.resources.complete_next
          rw [← accounts_start hcall] at hcomplete
          have hlater := (outcome_tables hadm
            (@enter_outcome plat c.env c.args c.start hadm c.entry)).2.complete
            hcomplete
          rw [hstart] at hlater ⊢
          exact hlater
      have hcomplete : v.accounts.resources.Complete w.nextHandle := by
        rcases hv.2.2.2 with hcomplete | ⟨_, hgone⟩
        · exact hcomplete
        · rename_i hframes hfr _
          refine absurd hfr (hgone _ ?_)
          unfold World.pendingIssues
          rw [hframes]
          exact List.mem_cons_self
      exact later_cleanly_iff hv.1 hcomplete (Nat.le_refl _) hv.2.1 hv.2.2.1 hraise

/--
`socket.create()` when there is no memory for the new metatable: the handle stays
open and the record allocated.
-/
theorem createNoTable_not_clean :
    ¬forall w c before w', ReachableWorld .unix w ->
      c.f = .create ∨ c.f = .accept -> FailedCall .unix w c before w' ->
      FailsCleanly w before w' := by
  intro hclean
  have hruns : ((runFrom (step .unix) initialWorld
      (fetch 2 "socket" ++ fetch 3 "create")).bind fun w =>
      (step .unix w (.call .create [] { handle := some 3, malloc := some 16 })).bind
        fun u => (runFrom (step .unix) u (List.replicate 4 (.api .nil))).bind
          fun v => (step .unix v (.apiRaise .memory)).map fun w' =>
            (u.result, v.frames.map fun fr => fr.issue.serial, w.nextRecord,
              (w'.records 16).map SocketRecord.serial)) =
      some (.pending, [0], 0, some 0) := by
    decide +kernel
  simp only [Option.bind_eq_some_iff, Option.map_eq_some_iff, Prod.mk.injEq]
    at hruns
  rcases hruns with ⟨w, hw, u, hu, v, hv, w', hraise, hpending, hframes, hnext,
    rec, hrec, hserial⟩
  have hfailed : FailedCall .unix w
      ⟨.call .create, [], { handle := some 3, malloc := some 16 }, w⟩ (some v)
      w' := by
    cases hfr : v.frames with
    | nil =>
        rw [hfr] at hframes
        cases hframes
    | cons fr rest =>
        rw [hfr, List.map_cons, List.cons.injEq] at hframes
        exact .later rfl hu hpending hv hfr (hframes.1.trans hnext.symm) hraise
  have hundone := (hclean _ _ _ _ ⟨_, hw⟩ (Or.inl rfl) hfailed).undone
  apply hundone
  · simp
  · exact Or.inl ⟨16, rec, hrec, hserial.trans hnext.symm⟩

/-- `socket.create()` when the system has no handle to give. -/
theorem createNoHandle_clean :
    exists w w',
      FailedCall .unix w ⟨.call .create, [], {}, w⟩ none w' ∧
        FailsCleanly w none w' := by
  have hruns : ((runFrom (step .unix) initialWorld
      (fetch 2 "socket" ++ fetch 3 "create")).bind fun w =>
      (step .unix w (.call .create [] {})).map fun w' => w'.result) =
      some (.raised createError) := by
    decide +kernel
  simp only [Option.bind_eq_some_iff, Option.map_eq_some_iff] at hruns
  rcases hruns with ⟨w, hw, w', hstep, hresult⟩
  have hfailed : FailedCall .unix w ⟨.call .create, [], {}, w⟩ none w' := by
    apply FailedCall.atOnce rfl hstep
    · rw [hresult]
      simp
    · rw [hresult]
      simp
  refine ⟨w, w', hfailed, (failsCleanly_iff_nothingToUndo .unix w _ none w'
    ⟨_, hw⟩ (Or.inl rfl) hfailed).mpr ?_⟩
  simp [NothingToUndo, Invocation.delivers]

end LuaServer
