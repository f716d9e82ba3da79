import LuaServer.Socklib.Effects

/-!
# Events of a call

Which events a call can add to the log, with the data they carry, in terms of
the state the call starts in.
-/

namespace LuaServer

open Library

/-- The log is continued by events that meet the condition. -/
def Logs (P : Event -> Prop) (w v : World) : Prop :=
  exists es, v.log = w.log ++ es ∧ forall e, e ∈ es -> P e

namespace Logs

variable {P Q : Event -> Prop} {u v w : World}

theorem of_log_eq (h : v.log = w.log) : Logs P w v :=
  ⟨[], by rw [h, List.append_nil], fun _ he => by cases he⟩

theorem refl (w : World) : Logs P w w := of_log_eq rfl

theorem trans (huv : Logs P u v) (hvw : Logs P v w) : Logs P u w := by
  rcases huv with ⟨es, hes, hP⟩
  rcases hvw with ⟨es', hes', hP'⟩
  refine ⟨es ++ es', by rw [hes', hes, List.append_assoc], ?_⟩
  intro e he
  rcases List.mem_append.mp he with he | he
  · exact hP e he
  · exact hP' e he

theorem emit {e : Event} (h : P e) : Logs P w (w.emit e) := by
  refine ⟨[e], rfl, ?_⟩
  intro e' he'
  rw [List.mem_singleton.mp he']
  exact h

theorem imp (himp : forall e, P e -> Q e) (h : Logs P w v) : Logs Q w v := by
  rcases h with ⟨es, hes, hP⟩
  exact ⟨es, hes, fun e he => himp e (hP e he)⟩

theorem forall_mem (h : Logs P w v) (hw : forall e, e ∈ w.log -> P e) :
    forall e, e ∈ v.log -> P e := by
  rcases h with ⟨es, hes, hP⟩
  intro e he
  rw [hes] at he
  rcases List.mem_append.mp he with he | he
  · exact hw e he
  · exact hP e he

end Logs

/-- The log is continued, and one of the new events meets the condition. -/
def LogsSome (P : Event -> Prop) (w v : World) : Prop :=
  exists es, v.log = w.log ++ es ∧ exists e, e ∈ es ∧ P e

namespace LogsSome

variable {P : Event -> Prop} {u v w : World}

theorem emit {e : Event} (h : P e) : LogsSome P w (w.emit e) :=
  ⟨[e], rfl, e, List.mem_cons_self, h⟩

theorem trans_logs {Q : Event -> Prop} (huv : LogsSome P u v)
    (hvw : Logs Q v w) : LogsSome P u w := by
  rcases huv with ⟨es, hes, e, he, hP⟩
  rcases hvw with ⟨more, hmore, _⟩
  refine ⟨es ++ more, by rw [hmore, hes, List.append_assoc], e, ?_, hP⟩
  exact List.mem_append_left _ he

theorem then_log_eq (huv : LogsSome P u v) (h : w.log = v.log) :
    LogsSome P u w :=
  huv.trans_logs (Logs.of_log_eq h : Logs (fun _ => True) v w)

theorem then_emit {e : Event} (huv : LogsSome P u v) :
    LogsSome P u (v.emit e) :=
  huv.trans_logs (Logs.emit trivial : Logs (fun _ => True) v (v.emit e))

theorem logs_trans {Q : Event -> Prop} (huv : Logs Q u v)
    (hvw : LogsSome P v w) : LogsSome P u w := by
  rcases huv with ⟨before, hbefore, _⟩
  rcases hvw with ⟨es, hes, e, he, hP⟩
  refine ⟨before ++ es, by rw [hes, hbefore, List.append_assoc], e, ?_, hP⟩
  exact List.mem_append_right _ he

end LogsSome

theorem Logs.of_logsSome {P : Event -> Prop} {e : Event} {v w : World}
    (h : Logs P w v) (hsome : LogsSome (fun x => x = e) w v) : P e := by
  rcases h with ⟨es, hes, hP⟩
  rcases hsome with ⟨es', hes', x, hx, rfl⟩
  rw [hes, List.append_cancel_left_eq] at hes'
  exact hP x (hes' ▸ hx)

def Event.osCall? : Event -> Option OsCall
  | .os call => some call
  | _ => none

/-- The operations of the operating system between two states. -/
def osCalls (w v : World) : List OsCall :=
  (v.log.drop w.log.length).filterMap Event.osCall?

inductive CallEvent (plat : Platform) (env : Env) (args : List Value)
    (w : World) (entry : Entry) : Event -> Prop where
  | pass {f : CFunction} {p : Ptr} :
      entry = .call f -> f.takesSocket = true -> w.passes args = some p ->
      CallEvent plat env args w entry (.pass f p)
  | read {p : Ptr} :
      w.derefs plat env args entry = some p ->
      CallEvent plat env args w entry (.read p (w.serialAt p))
  | release {p : Ptr} :
      w.derefs plat env args entry = some p ->
      CallEvent plat env args w entry (.release p (w.serialAt p))
  | os {p : Ptr} {op : OsOp} {opened : Option Nat} {ok : Bool} :
      w.derefs plat env args entry = some p ->
      opened = none ∨ opened = some w.nextHandle ->
      CallEvent plat env args w entry
        (.os
          { caller := entry.f, via := p, op := op,
            handle := some (w.infoAt env p).hSocket,
            inst := w.instAt (w.infoAt env p).hSocket,
            opened := opened, ok := ok })
  | make {opened : Option Nat} {ok : Bool} :
      entry = .call .create -> opened = none ∨ opened = some w.nextHandle ->
      CallEvent plat env args w entry
        (.os
          { caller := .create, via := .null, op := createOp, handle := none,
            inst := none, opened := opened, ok := ok })
  | store {first count size : Nat} :
      CallEvent plat env args w entry (.store first count size)

section Stages

variable {P : Event -> Prop} {v w : World} {c : Caller} {env : Env}

theorem logs_afterHeader (hstartup : P (.startup true)) :
    Logs P w w.afterHeader := by
  unfold World.afterHeader
  split
  · exact Logs.refl w
  · exact (Logs.emit hstartup).trans (Logs.of_log_eq rfl)

theorem logs_checked {entry : Entry} {p : Ptr} (hstartup : P (.startup true))
    (hpass : forall f, P (.pass f p)) : Logs P w (w.checked entry p) := by
  cases entry with
  | call f => exact (logs_afterHeader hstartup).trans (Logs.emit (hpass f))
  | resume point => exact Logs.refl w

theorem logs_reading {entry : Entry} {p : Ptr} (hstartup : P (.startup true))
    (hpass : forall f, P (.pass f p)) (hread : forall serial, P (.read p serial)) :
    Logs P w (w.reading entry p) :=
  (logs_checked hstartup hpass).trans (Logs.emit (hread _))

theorem logs_withBlock : Logs P w (w.withBlock env) := by
  unfold World.withBlock
  split
  · exact Logs.refl w
  · exact Logs.of_log_eq rfl

theorem logs_withoutBlock {addr : Option Nat} :
    Logs P w (w.withoutBlock addr) := by
  cases addr with
  | none => exact Logs.refl w
  | some a => exact Logs.of_log_eq rfl

theorem osCalls_of_log {es : List Event} (h : v.log = w.log ++ es) :
    osCalls w v = es.filterMap Event.osCall? := by
  unfold osCalls
  rw [h, List.drop_left]

theorem afterStatus_log {op : OsOp} {h status : Int}
    {update : OsSocket -> OsSocket} :
    (w.afterStatus c op h status update).log =
      w.log ++ [osEvent c op (some h) none
        (decide (w.statusOf h status = noError)) w] := by
  unfold World.afterStatus World.statusOf
  cases hh : w.handles h with
  | none => rfl
  | some s =>
      by_cases hst : status = noError
      · simp only [hst, if_true, decide_true]
        rfl
      · simp only [hst, if_false, decide_false]
        rfl

theorem withBlock_log : (w.withBlock env).log = w.log := by
  unfold World.withBlock
  split
  · rfl
  · rfl

theorem logs_afterStatus {op : OsOp} {h status : Int}
    {update : OsSocket -> OsSocket}
    (hP : forall ok, P (osEvent c op (some h) none ok w)) :
    Logs P w (w.afterStatus c op h status update) := by
  unfold World.afterStatus
  split
  · exact Logs.emit (hP false)
  · split
    · exact (Logs.emit (hP true)).trans (Logs.of_log_eq rfl)
    · exact Logs.emit (hP false)

theorem logs_delivered {op : OsOp} {arg : Option Int} {h : Int}
    (hP : P (osEvent c op arg (some w.nextHandle) true w)) :
    Logs P w (w.delivered c op arg h) :=
  (Logs.emit hP).trans (Logs.of_log_eq rfl)

theorem logs_received {h size : Int} {data : LuaString}
    (hos : P (osEvent c (.recv size data) (some h) none true w))
    (hstore : forall first count size, P (.store first count size)) :
    Logs P w (w.received c env h size data) :=
  ((Logs.emit hos).trans (Logs.emit (hstore _ _ _))).trans
    (Logs.emit (hstore _ _ _))

theorem logs_closing {h : Int}
    (hos : P (osEvent c .close (some h) none (w.handles h).isSome w))
    (hrelease : P (.release c.via (w.serialAt c.via))) :
    Logs P w (w.closing c h) := by
  have hfree : Logs P w
      (((w.osLogged c .close (some h) none (w.handles h).isSome).setHandle h
        none).emit (.release c.via (w.serialAt c.via))) :=
    ((Logs.emit hos).trans (Logs.of_log_eq rfl)).trans (Logs.emit hrelease)
  refine hfree.trans (Logs.of_log_eq ?_)
  unfold World.closing World.afterFree
  cases c.via with
  | null | sentinel | udata => rfl
  | block a => rfl

end Stages

section Calls

variable {plat : Platform} {env : Env} {args : List Value} {w : World}
variable {entry : Entry} {r : EStateM.Result Exit World Reply}

theorem afterHeader_nextHandle : w.afterHeader.nextHandle = w.nextHandle := by
  unfold World.afterHeader
  split
  · rfl
  · rfl

theorem callEvent_os {v : World} {p : Ptr} {op : OsOp} {opened : Option Nat}
    {ok : Bool} (hderefs : w.derefs plat env args entry = some p)
    (hinst : v.instAt = w.instAt)
    (hopened : opened = none ∨ opened = some w.nextHandle) :
    CallEvent plat env args w entry
      (osEvent ⟨entry.f, p⟩ op (some (w.infoAt env p).hSocket) opened ok v) := by
  unfold osEvent
  simp only [Option.bind_some, hinst]
  exact CallEvent.os hderefs hopened

theorem serialAt_of_records {v : World} (h : v.records = w.records) (p : Ptr) :
    v.serialAt p = w.serialAt p := by
  unfold World.serialAt World.recordAt
  rw [h]

theorem instAt_of_handles {v : World} (h : v.handles = w.handles) :
    v.instAt = w.instAt := by
  unfold World.instAt
  rw [h]

theorem withBlock_handles : (w.withBlock env).handles = w.handles := by
  unfold World.withBlock
  split
  · rfl
  · rfl

theorem act_logs {f : CFunction} {p : Ptr} {v : World} (hf : entry.f = f)
    (hderefs : w.derefs plat env args entry = some p)
    (hrecords : v.records = w.records) (hhandles : v.handles = w.handles)
    (hnext : v.nextHandle = w.nextHandle)
    (h : Act plat env args p v (w.infoAt env p) f r) :
    Logs (CallEvent plat env args w entry) v (finalState r) := by
  have hos : forall {u : World} (op : OsOp) (ok : Bool),
      u.handles = w.handles ->
      CallEvent plat env args w entry
        (osEvent ⟨f, p⟩ op (some (w.infoAt env p).hSocket) none ok u) :=
    fun op ok hu =>
      hf ▸ callEvent_os hderefs (instAt_of_handles hu) (Or.inl rfl)
  have hread : forall {u : World}, u.records = w.records ->
      CallEvent plat env args w entry (.read p (u.serialAt p)) := by
    intro u hu
    rw [serialAt_of_records hu]
    exact CallEvent.read hderefs
  have hdelivered : forall {h : Int},
      Logs (CallEvent plat env args w entry) v
        ((v.delivered ⟨f, p⟩ .accept (some (w.infoAt env p).hSocket)
          h).afterRead p) := by
    intro h
    refine (logs_delivered ?_).trans (Logs.emit (hread hrecords))
    rw [hnext]
    exact hf ▸ callEvent_os hderefs (instAt_of_handles hhandles) (Or.inr rfl)
  cases h with
  | bindNoMemory => exact Logs.refl v
  | bindFailed | bound =>
      refine logs_withBlock.trans (logs_afterStatus ?_)
      exact fun ok => hos _ ok (withBlock_handles.trans hhandles)
  | listened => exact logs_afterStatus fun ok => hos _ ok hhandles
  | acceptFailed =>
      exact (Logs.emit (hos _ _ hhandles)).trans (Logs.emit (hread hrecords))
  | acceptNoMemory => exact hdelivered
  | accepted _ _ hu =>
      rw [hu]
      exact hdelivered.trans (Logs.of_log_eq rfl)
  | recvFailed =>
      exact logs_withBlock.trans
        (Logs.emit (hos _ _ (withBlock_handles.trans hhandles)))
  | recvNoMemory =>
      exact logs_received (hos _ _ hhandles) fun _ _ _ => CallEvent.store
  | received =>
      exact logs_withBlock.trans
        (logs_received (hos _ _ (withBlock_handles.trans hhandles))
          fun _ _ _ => CallEvent.store)
  | sent => exact Logs.emit (hos _ _ hhandles)
  | closed =>
      apply logs_closing (hos _ _ hhandles)
      rw [serialAt_of_records hrecords]
      exact CallEvent.release hderefs

theorem checked_logs {p : Ptr} (hf : entry.f.takesSocket = true)
    (hchecks : w.checks plat env args entry = some p) :
    Logs (CallEvent plat env args w entry) (w.entered entry)
      (w.checked entry p) := by
  cases entry with
  | call f =>
      rw [@entered_of_takesSocket w f hf]
      exact Logs.emit (CallEvent.pass rfl hf (checks_call.mp hchecks).2.2)
  | resume point => exact Logs.refl w

theorem derefs_call_checks {f : CFunction} {p : Ptr} (hf : f ≠ .onCollectSocket)
    (h : w.derefs plat env args (.call f) = some p) :
    w.checks plat env args (.call f) = some p := by
  unfold World.derefs at h
  split at h
  · rename_i heq
    exact absurd (Entry.call.inj heq) hf
  · split at h
    · exact h
    · cases h

theorem derefs_toUserdata {f : CFunction} {p : Ptr}
    (h : w.derefs plat env args (.call f) = some p) :
    (args.headD .nil).toUserdata = p := by
  cases f with
  | onCollectSocket => exact Option.some.inj h
  | create =>
      cases (checks_call.mp (derefs_call_checks (by simp) h)).1
  | bind | listen | accept | recv | send | close =>
      have hpasses := (checks_call.mp (derefs_call_checks (by simp) h)).2.2
      exact (LuaState.checkudata_eq_some_iff.mp hpasses).1

theorem create_logs {h : Int} :
    Logs (CallEvent plat env args w (.call .create)) w.afterHeader
      (w.afterHeader.delivered ⟨.create, .null⟩ createOp none h) := by
  apply logs_delivered
  rw [afterHeader_nextHandle]
  exact CallEvent.make rfl (Or.inr rfl)

/--
A call whose header fails logs that and nothing else; any other call logs events
of the given kinds after its header.
-/
theorem outcome_logs (h : Outcome plat env args w entry r) :
    (entry.hasHeader = true ∧ headerSucceeds plat env w = false ∧
      r = .error (.raise initError) (w.emit (.startup false))) ∨
    Logs (CallEvent plat env args w entry) (w.entered entry)
      (finalState r) := by
  cases h with
  | initFailed hf hinit => exact Or.inl ⟨hasHeader_of_ne hf, hinit, rfl⟩
  | rejected hf =>
      apply Or.inr
      rw [entered_of_takesSocket hf]
      exact Logs.refl _
  | converting hf _ hpass =>
      apply Or.inr
      rw [entered_of_takesSocket hf]
      exact Logs.emit (CallEvent.pass rfl hf hpass)
  | invalid hf hchecks => exact Or.inr (checked_logs hf hchecks)
  | @acted _ p _ hf hderefs _ hact =>
      right
      have hchecked := @checked_logs plat env args w entry p hf
        (checks_of_derefs hf hderefs).1
      have hread : Logs (CallEvent plat env args w entry) (w.checked entry p)
          (w.reading entry p) := by
        apply Logs.emit
        rw [serialAt_of_records (checked_records entry p)]
        exact CallEvent.read hderefs
      exact (hchecked.trans hread).trans
        (act_logs rfl hderefs (checked_records entry p)
          (checked_handles entry p)
          (checked_keeps World.nextHandle (fun _ _ => rfl)
            afterHeader_nextHandle) hact)
  | resumedNull hderefs => exact Or.inr (Logs.emit (CallEvent.read hderefs))
  | freed => exact Or.inr logs_withoutBlock
  | createFailed =>
      exact Or.inr (Logs.emit (CallEvent.make rfl (Or.inl rfl)))
  | createNoMemory =>
      exact Or.inr create_logs
  | created hinit hhandle hmalloc hu =>
      rename_i h a u
      rw [hu]
      exact Or.inr ((@create_logs plat env args w h).trans
        (Logs.of_log_eq rfl))
  | collectNull hp =>
      apply Or.inr
      apply Logs.emit
      apply CallEvent.read
      simp only [World.derefs, hp]
  | collected hp hne =>
      rename_i p
      have hderefs : w.derefs plat env args (.call .onCollectSocket) =
          some p := by
        simp only [World.derefs, hp]
      refine Or.inr ((Logs.emit (CallEvent.read hderefs)).trans
        (logs_closing ?_ ?_))
      · exact @callEvent_os plat env args w (.call .onCollectSocket) _ _ _ _ _
          hderefs rfl (Or.inl rfl)
      · exact CallEvent.release hderefs

theorem entered_logs (P : Event -> Prop) (hP : P (.startup true)) :
    Logs P w (w.entered entry) := by
  unfold World.entered
  split
  · exact logs_afterHeader hP
  · exact Logs.refl w

theorem outcome_reads {p : Ptr}
    (hderefs : w.derefs plat env args entry = some p)
    (h : Outcome plat env args w entry r) :
    Event.read p (w.serialAt p) ∈ (finalState r).log := by
  have hafter : Event.read p (w.serialAt p) ∈ (w.afterRead p).log :=
    List.mem_append_right _ List.mem_cons_self
  cases h with
  | initFailed hcollect hinit =>
      have hchecks := checks_call.mp (derefs_call_checks hcollect hderefs)
      rw [hchecks.2.1] at hinit
      cases hinit
  | @rejected f hsocket _ hpass =>
      have hchecks := @checks_of_derefs plat env args w (.call f) p hsocket hderefs
      rw [(checks_call.mp hchecks.1).2.2] at hpass
      cases hpass
  | @converting f _ _ _ hsocket _ _ hconvert hpoint hp =>
      have hnone :=
        (@checks_of_derefs plat env args w (.call f) p hsocket hderefs).2
      cases hnone.symm.trans (argumentError_of_converts hconvert hpoint hp)
  | invalid hsocket _ herror =>
      rw [(checks_of_derefs hsocket hderefs).2] at herror
      cases herror
  | acted _ hderefs' _ hact =>
      rw [hderefs] at hderefs'
      cases hderefs'
      have hlogs := @act_logs plat env args w entry r _ p (w.reading entry p)
        rfl hderefs (checked_records entry p) (checked_handles entry p)
        (checked_keeps World.nextHandle (fun _ _ => rfl)
          afterHeader_nextHandle) hact
      rcases hlogs with ⟨es, hes, _⟩
      rw [hes, List.mem_append]
      apply Or.inl
      unfold World.reading World.afterRead World.emit
      rw [serialAt_of_records (checked_records entry p)]
      exact List.mem_append_right _ List.mem_cons_self
  | resumedNull hnull =>
      rw [hderefs] at hnull
      cases hnull
      exact hafter
  | freed => cases (checks_of_derefs rfl hderefs).1
  | createFailed | createNoMemory | created =>
      cases (checks_call.mp (derefs_call_checks (by simp) hderefs)).1
  | collectNull hp =>
      simp only [World.derefs, hp, Option.some.injEq] at hderefs
      cases hderefs
      exact hafter
  | collected hp hne =>
      simp only [World.derefs, hp, Option.some.injEq] at hderefs
      cases hderefs
      have hlogs : Logs (fun _ => True) (w.afterRead p)
          ((w.afterRead p).closing ⟨.onCollectSocket, p⟩
            (w.infoAt env p).hSocket) := logs_closing trivial trivial
      rcases hlogs with ⟨es, hes, _⟩
      simp only [finalState]
      rw [hes, List.mem_append]
      exact Or.inl hafter

/-- What a call that does not get to a record leaves unchanged. -/
structure Refused (w w' : World) : Prop where
  records : w'.records = w.records
  handles : w'.handles = w.handles

/--
A function on a socket that does not get to a record raises an error, if it is not
suspended in its first part.
-/
theorem outcome_refused (hcreate : entry ≠ .call .create)
    (hpushed : forall buff s, entry ≠ .resume (.recv buff s))
    (hderefs : w.derefs plat env args entry = none)
    (h : Outcome plat env args w entry r) :
    ((exists e w', r = .error (.raise e) w') ∨
      entry.hasHeader = true ∧
        exists args' point w', r = .ok (.paused args' point) w') ∧
    Refused w (finalState r) := by
  cases h with
  | initFailed =>
      exact ⟨Or.inl ⟨_, _, rfl⟩, rfl, rfl⟩
  | rejected =>
      exact ⟨Or.inl ⟨_, _, rfl⟩, afterHeader_records, afterHeader_handles⟩
  | @converting f p _ _ hsocket =>
      exact ⟨Or.inr ⟨hasHeader_of_takesSocket hsocket, _, _, _, rfl⟩,
        checked_records (.call f) p, checked_handles (.call f) p⟩
  | @invalid _ p =>
      exact ⟨Or.inl ⟨_, _, rfl⟩, checked_records entry p,
        checked_handles entry p⟩
  | acted _ hsome | resumedNull hsome =>
      rw [hderefs] at hsome
      cases hsome
  | freed => exact absurd rfl (hpushed _ _)
  | createFailed | createNoMemory | created => exact absurd rfl hcreate
  | collectNull | collected => cases hderefs

end Calls

end LuaServer
