import LuaServer.Interpreter.Issues

/-!
# Closed sockets

What a script can do to a socket that it has closed.  The value of a closed
socket still passes the check of its type, and the library does not look whether
the record behind it is still there.
-/

namespace LuaServer

open Library

/-- A read or a release finds a live record. -/
def Event.IsLive : Event -> Prop
  | .read _ serial => serial ≠ none
  | .release _ serial => serial ≠ none
  | _ => True

/--
A close finds its handle open, unless the shutdown on Windows has deallocated it.
-/
def ClosesOpen (plat : Platform) (past : List Event) : Event -> Prop
  | .os call => call.op = .close -> call.inst ≠ none ∨
      (plat = .windows ∧ Event.shutdown ∈ past)
  | _ => True

/-- A value that `create` or `accept` returned and whose record is gone. -/
def World.ClosedSocket (w : World) (v : Value) : Prop :=
  exists i, Event.issued i ∈ w.log ∧ v = .lightuserdata (.block i.addr) ∧
    w.records i.addr = none

/-- The socket that a call is given, or has checked before it was suspended. -/
def Invocation.socket (c : Invocation) : Value :=
  match c.entry with
  | .call _ => c.args.headD .nil
  | .resume point =>
      match point.iSocket? with
      | some p => .lightuserdata p
      | none => .nil

/--
A call on a closed socket raises an error and changes no record or handle.  Before
that it can be suspended while an argument is converted.
-/
def ClosedCallRaises (plat : Platform) (w : World) (a : Action) : Prop :=
  forall c w', w.invocation a = some c -> c.f ≠ .create ->
    w.ClosedSocket c.socket -> step plat w a = some w' ->
    ((exists e, w'.result = .raised e) ∨
      (exists f, c.entry = .call f) ∧ w'.result = .paused) ∧
    w'.records = w.records ∧ w'.handles = w.handles

structure OwnershipKept (plat : Platform) (actions : List Action)
    (w : World) : Prop where
  live : forall e, e ∈ w.log -> e.IsLive
  open_handles : Past (ClosesOpen plat) w.log
  released_once : (w.log.filterMap Event.released?).Nodup
  closed_once : (w.log.filterMap Event.closed?).Nodup
  closed_raises :
    AllSteps (step plat) (ClosedCallRaises plat) initialWorld actions

section Live

variable {plat : Platform} {w w' : World} {a : Action} {c : Invocation}

theorem isSome_serialAt {p : Ptr} (h : (w.recordAt p).isSome = true) :
    w.serialAt p ≠ none := by
  unfold World.serialAt
  rcases Option.isSome_iff_exists.mp h with ⟨rec, hrec⟩
  rw [hrec]
  intro hnone
  cases hnone

theorem isSome_instAt {env : Env} {p : Ptr} (hsound : w.accounts.Sound)
    (h : (w.recordAt p).isSome = true) :
    w.instAt (w.infoAt env p).hSocket ≠ none := by
  rcases Option.isSome_iff_exists.mp h with ⟨rec, hrec⟩
  rcases block_of_recordAt hrec with ⟨addr, rfl, haddr⟩
  rw [infoAt_of_record hrec]
  simp only [instAt_of_sound hsound haddr]
  intro hnone
  cases hnone

theorem callEvent_live {env : Env} {args : List Value} {entry : Entry}
    {e : Event}
    (hlive : forall p, w.derefs plat env args entry = some p ->
      (w.recordAt p).isSome = true)
    (h : CallEvent plat env args w entry e) : e.IsLive := by
  cases h with
  | pass | os | make | store => trivial
  | read hderefs => exact isSome_serialAt (hlive _ hderefs)
  | release hderefs => exact isSome_serialAt (hlive _ hderefs)

theorem callEvent_closesOpen {env : Env} {args : List Value} {entry : Entry}
    {e : Event} {past : List Event} (hsound : w.accounts.Sound)
    (hlive : forall p, w.derefs plat env args entry = some p ->
      (w.recordAt p).isSome = true)
    (h : CallEvent plat env args w entry e) : ClosesOpen plat past e := by
  cases h with
  | pass | read | release | store => trivial
  | os hderefs =>
      intro _
      exact Or.inl (isSome_instAt hsound (hlive _ hderefs))
  | make =>
      intro hop
      cases hop

theorem stepEvent_live {e : Event} (hlive : ReadsLive plat w a)
    (h : StepEvent plat w a e) : e.IsLive := by
  cases h with
  | call hcall he => exact callEvent_live (hlive _ hcall) he
  | startup | returned | issued | shutdown => trivial

theorem stepEvent_closesOpen {e : Event} {past : List Event}
    (hsound : w.accounts.Sound) (hlive : ReadsLive plat w a)
    (h : StepEvent plat w a e) : ClosesOpen plat past e := by
  cases h with
  | call hcall he =>
      rw [← accounts_start hcall] at hsound
      exact callEvent_closesOpen hsound (hlive _ hcall) he
  | startup | returned | issued | shutdown => trivial

/-- After the shutdown on Windows a close promises nothing of its handle. -/
theorem closesOpen_of_cutOff {past more : List Event} {e : Event}
    (hplat : plat = .windows) (hmem : Event.shutdown ∈ past) :
    ClosesOpen plat (past ++ more) e := by
  cases e with
  | os call =>
      intro _
      exact Or.inr ⟨hplat, List.mem_append_left _ hmem⟩
  | startup | shutdown | pass | read | release | store | issued | returned =>
      trivial

/-- The accounts are sound until the shutdown, and no event broke the rules. -/
structure Owned (plat : Platform) (w : World) : Prop where
  sound : ¬w.CutOff plat -> w.accounts.Sound
  live : forall e, e ∈ w.log -> e.IsLive
  open_handles : Past (ClosesOpen plat) w.log

theorem step_owned (h : Owned plat w) (hlive : ReadsLive plat w a)
    (hstep : step plat w a = some w') : Owned plat w' where
  sound := by
    intro hopen
    apply step_sound (h.sound _) hlive hstep hopen
    intro hcut
    exact hopen (cutOff_of_step hcut hstep)
  live := ((step_logs hstep).imp fun _ he =>
    stepEvent_live hlive he).forall_mem h.live
  open_handles := by
    apply past_of_logs h.open_handles (step_logs hstep)
    intro before e _ he
    by_cases hcut : w.CutOff plat
    · exact closesOpen_of_cutOff hcut.1 hcut.2
    · exact stepEvent_closesOpen (h.sound hcut) hlive he

theorem initialWorld_owned : Owned plat initialWorld where
  sound := fun _ => initialWorld_accounts_sound
  live := fun e he => by cases he
  open_handles := past_nil

theorem run_owned {actions : List Action}
    (hlive : AllSteps (step plat) (ReadsLive plat) initialWorld actions)
    (hrun : runFrom (step plat) initialWorld actions = some w) :
    Owned plat w :=
  runFrom_invariant (fun _ _ _ howned hcond hstep =>
    step_owned howned hcond hstep) initialWorld_owned hlive hrun

theorem derefs_socket {p : Ptr}
    (h : c.start.derefs plat c.env c.args c.entry = some p) :
    c.socket.toUserdata = p := by
  unfold Invocation.socket
  cases hentry : c.entry with
  | call f =>
      rw [hentry] at h
      exact derefs_toUserdata h
  | resume point =>
      rw [hentry] at h
      have hpoint := (checks_of_derefs (point_takesSocket point) h).1
      simp only [show point.iSocket? = some p from hpoint]
      rfl

theorem closedCallRaises_of_readsLive (hlive : ReadsLive plat w a) :
    ClosedCallRaises plat w a := by
  intro c w' hcall hf hclosed hstep
  rcases hclosed with ⟨i, _, hvalue, hgone⟩
  rcases invocation_start hcall with ⟨L, paused, hstart⟩
  have hpushed : forall buff s, c.entry ≠ .resume (.recv buff s) := by
    intro buff s hentry
    simp only [Invocation.socket, hentry, PausePoint.iSocket?] at hvalue
    cases hvalue
  have hcreate : c.entry ≠ .call .create := fun hentry =>
    hf (by rw [Invocation.f, hentry]; rfl)
  have hderefs : c.start.derefs plat c.env c.args c.entry = none := by
    cases hcase : c.start.derefs plat c.env c.args c.entry with
    | none => rfl
    | some p =>
        have hp : p = .block i.addr := by
          rw [← derefs_socket hcase, hvalue]
          rfl
        have hsome := hlive c hcall p hcase
        rw [hp, hstart] at hsome
        simp only [World.recordAt, hgone] at hsome
        cases hsome
  rcases step_of_invocation hcall hstep with ⟨hadm, rfl⟩
  have houtcome := @enter_outcome plat c.env c.args c.start hadm c.entry
  rcases outcome_refused hcreate hpushed hderefs houtcome with ⟨hr, hrefused⟩
  have hrecords : (finalState (enter plat c.env c.args c.entry
      c.start)).records = w.records := by
    rw [hrefused.records, hstart]
  have hhandles : (finalState (enter plat c.env c.args c.entry
      c.start)).handles = w.handles := by
    rw [hrefused.handles, hstart]
  unfold World.performCall
  rcases hr with ⟨e, v, hr⟩ | ⟨hheader, args', point, v, hr⟩
  · rw [hr] at hrecords hhandles ⊢
    exact ⟨Or.inl ⟨e, rfl⟩, hrecords, hhandles⟩
  · rw [hr] at hrecords hhandles ⊢
    refine ⟨Or.inr ⟨?_, rfl⟩, hrecords, hhandles⟩
    cases hentry : c.entry with
    | call f => exact ⟨f, rfl⟩
    | resume point =>
        rw [hentry] at hheader
        cases hheader

def World.HasDeadRead (w : World) : Prop :=
  exists p, Event.read p none ∈ w.log

theorem hasDeadRead_of_step (h : step plat w a = some w')
    (hlive : ¬ReadsLive plat w a) : w'.HasDeadRead := by
  unfold ReadsLive Invocation.ReadsLive at hlive
  push Not at hlive
  rcases hlive with ⟨c, hcall, p, hderefs, hdead⟩
  rcases step_of_invocation hcall h with ⟨hadm, rfl⟩
  have hread := outcome_reads hderefs
    (@enter_outcome plat c.env c.args c.start hadm c.entry)
  have hserial : c.start.serialAt p = none := by
    unfold World.serialAt
    cases hrec : c.start.recordAt p with
    | none => rfl
    | some rec =>
        rw [hrec] at hdead
        exact absurd rfl hdead
  rw [hserial] at hread
  exact ⟨p, mem_log_finishCall hread⟩

theorem readsLive_of_owned {actions : List Action}
    (hrun : runFrom (step plat) initialWorld actions = some w)
    (hlive : forall e, e ∈ w.log -> e.IsLive) :
    AllSteps (step plat) (ReadsLive plat) initialWorld actions := by
  refine @allSteps_of_final _ _ (step plat) (fun _ => True) World.HasDeadRead
    _ ?_ ?_ ?_ _ _ _ trivial hrun ?_
  · intro s a s' _ _ _
    trivial
  · intro s a s' _ hstep hcond
    exact hasDeadRead_of_step hstep hcond
  · rintro s a s' ⟨p, hp⟩ hstep
    exact ⟨p, mem_log_of_step hp hstep⟩
  · rintro ⟨p, hp⟩
    exact hlive _ hp rfl

end Live

/--
Ownership is kept by exactly the runs in which no call gets through its checks
with a socket whose record is gone.
-/
theorem ownershipKept_iff_readsLive (plat : Platform) (actions : List Action)
    (w : World) (hrun : runFrom (step plat) initialWorld actions = some w) :
    OwnershipKept plat actions w <->
      AllSteps (step plat) (ReadsLive plat) initialWorld actions := by
  constructor
  · intro h
    exact readsLive_of_owned hrun h.live
  · intro h
    have howned := run_owned h hrun
    have htables := reachable_tablesSound ⟨actions, hrun⟩
    exact
      { live := howned.live
        open_handles := howned.open_handles
        released_once := htables.records.retired_nodup
        closed_once := htables.handles.retired_nodup
        closed_raises := h.imp fun _ _ hlive =>
          closedCallRaises_of_readsLive hlive }

/--
`local s = socket.create() s:close() s:close()`, where the freed block still
holds the old handle when it is read again.
-/
def closeTwice : List Action :=
  createFirst { handle := some 3, malloc := some 16 } ++
    callOn .close "close" 16 [] {} ++
    callOn .close "close" 16 [] { stale := ⟨0, 0, 0, 3⟩ }

/-- The second `close` reads and frees the record a second time. -/
theorem closeTwice_not_kept :
    ¬forall actions w, runFrom (step .unix) initialWorld actions = some w ->
      OwnershipKept .unix actions w := by
  intro hkept
  have hread : (runFrom (step .unix) initialWorld closeTwice).map
      (fun w => decide (Event.read (.block 16) none ∈ w.log)) = some true := by
    decide +kernel
  rcases Option.map_eq_some_iff.mp hread with ⟨w, hrun, hmem⟩
  exact (hkept closeTwice w hrun).live _ (of_decide_eq_true hmem) rfl

/-- `local s = socket.create() s:listen() s:close()` keeps the rules. -/
theorem ownershipKept_createListenClose :
    exists w,
      runFrom (step .unix) initialWorld
        (createFirst { handle := some 3, malloc := some 16 } ++
          callOn .listen "listen" 16 [] {} ++
          callOn .close "close" 16 [] {}) = some w ∧
      OwnershipKept .unix
        (createFirst { handle := some 3, malloc := some 16 } ++
          callOn .listen "listen" 16 [] {} ++
          callOn .close "close" 16 [] {}) w := by
  have hsome : (runFrom (step .unix) initialWorld
      (createFirst { handle := some 3, malloc := some 16 } ++
        callOn .listen "listen" 16 [] {} ++
        callOn .close "close" 16 [] {})).isSome = true := by
    decide +kernel
  rcases Option.isSome_iff_exists.mp hsome with ⟨w, hrun⟩
  exact ⟨w, hrun,
    (ownershipKept_iff_readsLive .unix _ w hrun).mpr (by decide +kernel)⟩

end LuaServer
