import LuaServer.Interpreter.Ownership
import LuaServer.Library.Traces

/-!
# Issued sockets

The values that `create` and `accept` have returned, with those of the calls in
progress.  Whatever a script does, each of them stands for an opening that the
system delivered, and a live record that was made for it holds that opening.
-/

namespace LuaServer

open Library

/-- The values returned so far and those of the calls in progress. -/
def World.tracked (w : World) : List Issue :=
  issuedIn w.log ++ w.pendingIssues

section Logs

variable {w v : World} {P : Event -> Prop}

theorem issuedIn_append (first second : List Event) :
    issuedIn (first ++ second) = issuedIn first ++ issuedIn second :=
  List.filterMap_append

theorem issuedIn_of_forall {es : List Event}
    (h : forall e, e ∈ es -> e.issued? = none) : issuedIn es = [] :=
  List.filterMap_eq_nil_iff.mpr h

theorem issuedIn_of_logs (h : Logs (fun e => e.issued? = none) w v) :
    issuedIn v.log = issuedIn w.log := by
  rcases h with ⟨es, hes, hnone⟩
  rw [hes, issuedIn_append, issuedIn_of_forall hnone, List.append_nil]

theorem past_of_logs {R : List Event -> Event -> Prop} (h : Past R w.log)
    (hlogs : Logs P w v)
    (hnew : forall before e, (forall e', e' ∈ before -> P e') -> P e ->
      R (w.log ++ before) e) : Past R v.log := by
  rcases hlogs with ⟨es, hes, hP⟩
  rw [hes]
  apply h.append
  intro before e after heq
  apply hnew
  · intro e' he'
    apply hP
    rw [heq]
    exact List.mem_append_left _ he'
  · apply hP
    rw [heq]
    exact List.mem_append_right _ List.mem_cons_self

theorem mem_issuedIn {i : Issue} {log : List Event} :
    i ∈ issuedIn log <-> Event.issued i ∈ log := by
  constructor
  · intro hmem
    rcases List.mem_filterMap.mp hmem with ⟨e, he, hissued⟩
    cases e with
    | issued j =>
        cases hissued
        exact he
    | startup | shutdown | pass | read | release | os | store | returned =>
        cases hissued
  · intro hmem
    exact List.mem_filterMap.mpr ⟨_, hmem, rfl⟩

/-- How the tracked values of a state follow from its log and its frames. -/
theorem tracked_of (hissued : issuedIn v.log = issuedIn w.log)
    {pending : List Issue} (hpending : v.pendingIssues = pending) :
    v.tracked = issuedIn w.log ++ pending := by
  unfold World.tracked
  rw [hissued, hpending]

end Logs

section Tracked

variable {plat : Platform} {w w' : World} {c : Invocation}

theorem endedCallEvent_issued {e : Event} (h : EndedCallEvent plat c e) :
    e.issued? = none := by
  rcases h with h | ⟨ok, rfl⟩ | ⟨f, serial, rfl⟩
  · cases h with
    | pass | read | release | os | make | store => rfl
  · rfl
  · rfl

theorem tracked_returnFrame {fr : Frame} {rest : List Frame}
    (hframes : w.frames = fr :: rest) :
    (w.returnFrame fr rest).tracked = w.tracked := by
  have hissued : issuedIn (w.returnFrame fr rest).log =
      issuedIn w.log ++ [fr.issue] := issuedIn_append _ _
  have hpending : w.pendingIssues =
      fr.issue :: (w.returnFrame fr rest).pendingIssues := by
    unfold World.pendingIssues
    rw [hframes]
    rfl
  unfold World.tracked
  rw [hissued, hpending, List.append_assoc]
  rfl

theorem tracked_exit : (w.exit plat).tracked = w.tracked := by
  have hnone : Logs (fun e => e.issued? = none) w (w.exit plat) := by
    apply exit_logs.imp
    rintro e ⟨rfl, _⟩
    rfl
  exact tracked_of (issuedIn_of_logs hnone)
    (congrArg (List.map Frame.issue) exit_frames)

theorem issuedIn_performCall (hadm : c.env.admissible plat c.start = true) :
    issuedIn (c.start.performCall plat c.entry c.args c.env).log =
      issuedIn c.start.log :=
  issuedIn_of_logs ((performCall_endedLogs hadm).imp fun _ he =>
    endedCallEvent_issued he)

theorem pendingIssues_performCall (hadm : c.env.admissible plat c.start = true)
    (hr : forall fr v,
      enter plat c.env c.args c.entry c.start ≠ .ok (.building fr) v) :
    (c.start.performCall plat c.entry c.args c.env).pendingIssues =
      c.start.pendingIssues := by
  unfold World.performCall World.pendingIssues
  rw [frames_finishCall hr, outcome_frames (enter_outcome hadm c.entry)]

theorem tracked_performCall (hadm : c.env.admissible plat c.start = true)
    (hr : forall fr v,
      enter plat c.env c.args c.entry c.start ≠ .ok (.building fr) v) :
    (c.start.performCall plat c.entry c.args c.env).tracked = c.start.tracked :=
  tracked_of (issuedIn_performCall hadm) (pendingIssues_performCall hadm hr)

theorem tracked_building (hadm : c.env.admissible plat c.start = true)
    {fr : Frame} {v : World}
    (hr : enter plat c.env c.args c.entry c.start = .ok (.building fr) v) :
    (c.start.performCall plat c.entry c.args c.env).tracked =
      issuedIn c.start.log ++ fr.issue :: c.start.pendingIssues := by
  have hframes : (c.start.performCall plat c.entry c.args c.env).frames =
      fr :: c.start.frames := by
    have hsame := outcome_frames
      (@enter_outcome plat c.env c.args c.start hadm c.entry)
    rw [hr] at hsame
    unfold World.performCall
    rw [hr]
    exact congrArg (List.cons fr) hsame
  exact tracked_of (issuedIn_performCall hadm)
    (congrArg (List.map Frame.issue) hframes)

/-!
# What an issue stands for
-/

def Delivered (log : List Event) (inst : Nat) : Prop :=
  exists call, Event.os call ∈ log ∧
    (call.op = createOp ∨ call.op = .accept) ∧ call.opened = some inst ∧
    call.ok = true

/-- A live record of the allocation is at the address and holds the opening. -/
def World.Honours (w : World) (i : Issue) : Prop :=
  forall a, w.accounts.owners.live a = some i.serial ->
    a = i.addr ∧ exists h, w.accounts.holds a = some (h, i.inst)

structure World.IssuesSound (w : World) : Prop where
  serial_lt : forall i, i ∈ w.tracked -> i.serial < w.nextRecord
  inst_lt : forall i, i ∈ w.tracked -> i.inst < w.nextHandle
  delivered : forall i, i ∈ w.tracked -> Delivered w.log i.inst
  honoured : forall i, i ∈ w.tracked -> w.Honours i

theorem Delivered.mono {P : Event -> Prop} {inst : Nat}
    (h : Delivered w.log inst) (hlogs : Logs P w w') :
    Delivered w'.log inst := by
  rcases h with ⟨call, hmem, hop, hopened, hok⟩
  rcases hlogs with ⟨es, hes, _⟩
  refine ⟨call, ?_, hop, hopened, hok⟩
  rw [hes]
  exact List.mem_append_left _ hmem

/-- What a step that makes no record may do to the accounts. -/
structure Shrinks (w w' : World) : Prop where
  nextRecord : w'.nextRecord = w.nextRecord
  nextHandle : w.nextHandle ≤ w'.nextHandle
  live : forall a s, w'.accounts.owners.live a = some s ->
    w.accounts.owners.live a = some s ∧
      w'.accounts.holds a = w.accounts.holds a
  opened : forall h t, w'.accounts.resources.live h = some t ->
    w.accounts.resources.live h = some t ∨ w.nextHandle ≤ t

theorem Shrinks.of_accounts (h : w'.accounts = w.accounts) : Shrinks w w' where
  nextRecord := congrArg (fun A => A.owners.next) h
  nextHandle := Nat.le_of_eq (congrArg (fun A => A.resources.next) h).symm
  live := by
    intro a s hlive
    rw [h] at hlive ⊢
    exact ⟨hlive, rfl⟩
  opened := by
    intro x t hlive
    rw [h] at hlive
    exact Or.inl hlive

theorem Shrinks.of_shut (h : w'.accounts = w.accounts.shut) : Shrinks w w' where
  nextRecord := congrArg (fun A => A.owners.next) h
  nextHandle := Nat.le_of_eq (congrArg (fun A => A.resources.next) h).symm
  live := by
    intro a s hlive
    rw [h] at hlive ⊢
    exact ⟨hlive, rfl⟩
  opened := by
    intro x t hlive
    rw [h] at hlive
    cases hlive

theorem Shrinks.of_lose {h : Int} (hlose : w'.accounts = w.accounts.lose h) :
    Shrinks w w' where
  nextRecord := congrArg (fun A => A.owners.next) hlose
  nextHandle := by
    have hnext : w'.nextHandle = w.nextHandle + 1 :=
      congrArg (fun A => A.resources.next) hlose
    rw [hnext]
    exact Nat.le_succ _
  live := by
    intro a s hlive
    rw [hlose] at hlive ⊢
    exact ⟨hlive, rfl⟩
  opened := by
    intro x t hlive
    rw [hlose] at hlive
    rcases TokenTable.live_issue_cases hlive with ⟨_, ht⟩ | ⟨_, hold⟩
    · exact Or.inr (Nat.le_of_eq ht.symm)
    · exact Or.inl hold

theorem Shrinks.trans {v : World} (hwv : Shrinks w v) (hvw' : Shrinks v w') :
    Shrinks w w' where
  nextRecord := hvw'.nextRecord.trans hwv.nextRecord
  nextHandle := Nat.le_trans hwv.nextHandle hvw'.nextHandle
  live := by
    intro a s hlive
    rcases hvw'.live a s hlive with ⟨hmid, hholds⟩
    rcases hwv.live a s hmid with ⟨hold, hholds'⟩
    exact ⟨hold, hholds.trans hholds'⟩
  opened := by
    intro x t hlive
    rcases hvw'.opened x t hlive with hmid | hnew
    · exact hwv.opened x t hmid
    · exact Or.inr (Nat.le_trans hwv.nextHandle hnew)

theorem Shrinks.issuesSound {P : Event -> Prop} (hshrinks : Shrinks w w')
    (h : w.IssuesSound) (hlogs : Logs P w w')
    (htracked : forall i, i ∈ w'.tracked -> i ∈ w.tracked) :
    w'.IssuesSound where
  serial_lt := by
    intro i hi
    rw [hshrinks.nextRecord]
    exact h.serial_lt i (htracked i hi)
  inst_lt := fun i hi =>
    Nat.lt_of_lt_of_le (h.inst_lt i (htracked i hi)) hshrinks.nextHandle
  delivered := fun i hi => (h.delivered i (htracked i hi)).mono hlogs
  honoured := by
    intro i hi a hlive
    rcases hshrinks.live a _ hlive with ⟨hold, hholds⟩
    rw [hholds]
    exact h.honoured i (htracked i hi) a hold

theorem shrinks_closing {caller : Caller} {h : Int} :
    Shrinks w (w.closing caller h) where
  nextRecord := by
    unfold World.closing World.afterFree
    cases caller.via <;> rfl
  nextHandle := by
    unfold World.closing World.afterFree
    cases caller.via <;> exact Nat.le_refl _
  live := by
    intro a s hlive
    change ((w.closing caller h).records a).map _ = some s at hlive
    show (w.records a).map _ = some s ∧
      ((w.closing caller h).records a).map _ = (w.records a).map _
    rcases @closing_records w caller h a with hsame | hnone
    · rw [hsame] at hlive ⊢
      exact ⟨hlive, rfl⟩
    · rw [hnone] at hlive
      cases hlive
  opened := by
    intro x t hlive
    rcases Option.map_eq_some_iff.mp hlive with ⟨s, hs, hinst⟩
    exact Or.inl (Option.map_eq_some_iff.mpr
      ⟨s, (handles_of_closing hs).2, hinst⟩)

theorem delivered_handle {caller : Caller} {op : OsOp} {arg : Option Int}
    {h : Int} (hop : op = createOp ∨ op = .accept) :
    Delivered (w.delivered caller op arg h).log w.nextHandle :=
  ⟨{ caller := caller.f, via := caller.via, op := op, handle := arg,
     inst := arg.bind w.instAt, opened := some w.nextHandle, ok := true },
    List.mem_append_right _ List.mem_cons_self, hop, rfl, rfl⟩

theorem delivered_of_building {env : Env} {args : List Value} {entry : Entry}
    {fr : Frame} (h : Outcome plat env args w entry (.ok (.building fr) w')) :
    Delivered w'.log w.nextHandle := by
  rw [← @afterHeader_nextHandle w]
  cases h with
  | @acted _ p _ _ _ _ hact =>
      have hnext : (w.reading entry p).nextHandle = w.afterHeader.nextHandle :=
        (checked_keeps World.nextHandle (fun _ _ => rfl)
          afterHeader_nextHandle).trans afterHeader_nextHandle.symm
      generalize entry.f = f at hact
      cases hact with
      | @accepted h _ _ _ _ hu =>
          have hdelivered := @delivered_handle (w.reading entry p)
            ⟨.accept, p⟩ .accept (some (w.infoAt env p).hSocket) h (Or.inr rfl)
          rw [← hnext, hu]
          exact hdelivered.mono
            (Logs.emit trivial : Logs (fun _ => True) _ (World.afterRead _ p))
  | @created h _ _ _ _ _ hu =>
      have hdelivered := @delivered_handle w.afterHeader ⟨.create, .null⟩
        createOp none h (Or.inl rfl)
      rw [hu]
      exact hdelivered

/--
What a step may do to the records, the handles and the tracked values: make
nothing new, or make one record for a handle delivered to it.
-/
inductive IssueChange (w w' : World) : Prop where
  | shrinks :
      Shrinks w w' -> (forall i, i ∈ w'.tracked -> i ∈ w.tracked) ->
      IssueChange w w'
  | made {addr : Nat} {handle : Int} :
      w'.accounts = w.accounts.create addr handle ->
      Delivered w'.log w.nextHandle ->
      (forall i, i ∈ w'.tracked ->
        i = ⟨addr, w.nextRecord, w.nextHandle⟩ ∨ i ∈ w.tracked) ->
      IssueChange w w'

theorem performCall_change (hadm : c.env.admissible plat c.start = true) :
    IssueChange c.start (c.start.performCall plat c.entry c.args c.env) := by
  have houtcome := @enter_outcome plat c.env c.args c.start hadm c.entry
  have haccounts := @accounts_performCall plat c
  have htracked := @tracked_performCall plat c hadm
  by_cases hf : c.f = .close ∨ c.f = .onCollectSocket
  · rcases outcome_closes hf houtcome with ⟨hkept, hr⟩ |
      ⟨p, v, _, _, hv, _, _, hr⟩
    · apply IssueChange.shrinks (Shrinks.of_accounts (haccounts.trans hkept))
      rw [htracked fun fr => hr _]
      exact fun i hi => hi
    · rw [hr] at haccounts htracked
      have hclosing : Shrinks v (v.closing ⟨c.f, p⟩
          (c.start.infoAt c.env p).hSocket) := shrinks_closing
      apply IssueChange.shrinks (((Shrinks.of_accounts hv).trans hclosing).trans
        (Shrinks.of_accounts haccounts))
      rw [htracked (by simp)]
      exact fun i hi => hi
  · push Not at hf
    have hbuilding := @tracked_building plat c hadm
    have heffect := outcome_effect_of_ne hf.1 hf.2 houtcome
    generalize hrun : enter plat c.env c.args c.entry c.start = r at heffect houtcome haccounts htracked hbuilding
    cases heffect with
    | kept hkept hr =>
        apply IssueChange.shrinks (Shrinks.of_accounts (haccounts.trans hkept))
        rw [htracked hr]
        exact fun i hi => hi
    | lost _ _ _ hlost =>
        apply IssueChange.shrinks (Shrinks.of_lose (haccounts.trans hlost))
        rw [htracked (by simp)]
        exact fun i hi => hi
    | made _ _ _ hmade =>
        apply IssueChange.made (haccounts.trans hmade)
        · unfold World.performCall
          rw [hrun]
          have hdelivered := delivered_of_building houtcome
          exact hdelivered
        · intro i hi
          rw [hbuilding rfl] at hi
          exact List.mem_cons.mp (List.perm_middle.mem_iff.mp hi)
    | dropped hcloser => exact absurd hcloser (not_or.mpr hf)

/-- Only a call of the library makes a record. -/
theorem step_change {a : Action} (hstep : step plat w a = some w') :
    IssueChange w w' := by
  cases step_shape hstep with
  | quiet _ hpending =>
      refine IssueChange.shrinks (Shrinks.of_accounts ?_) ?_
      · rfl
      · intro i hi
        unfold World.tracked
        rw [← hpending]
        exact hi
  | ended | abandoned =>
      refine IssueChange.shrinks (Shrinks.of_accounts ?_) ?_
      · rfl
      · exact fun i hi => hi
  | raised _ hframes =>
      refine IssueChange.shrinks (Shrinks.of_accounts ?_) ?_
      · rfl
      intro i hi
      unfold World.tracked World.pendingIssues at hi ⊢
      rw [hframes, List.map_cons]
      rcases List.mem_append.mp hi with hi | hi
      · exact List.mem_append_left _ hi
      · exact List.mem_append_right _ (List.mem_cons_of_mem _ hi)
  | returned _ hframes =>
      apply IssueChange.shrinks (Shrinks.of_accounts (accounts_returnFrame _ _))
      rw [tracked_returnFrame hframes]
      exact fun i hi => hi
  | exited =>
      refine IssueChange.shrinks ?_ ?_
      · have haccounts := @accounts_exit plat w
        split at haccounts
        · exact Shrinks.of_shut haccounts
        · exact Shrinks.of_accounts haccounts
      · rw [tracked_exit]
        exact fun i hi => hi
  | called hcall hadm =>
      have hchange := performCall_change hadm
      rcases invocation_start hcall with ⟨L, paused, hstart⟩
      rw [hstart] at hchange
      cases hchange with
      | shrinks h htracked =>
          rw [hstart]
          exact IssueChange.shrinks
            ⟨h.nextRecord, h.nextHandle, h.live, h.opened⟩ htracked
      | made haccounts hdelivered htracked =>
          rw [hstart]
          exact IssueChange.made haccounts hdelivered htracked

theorem issuesSound_made {P : Event -> Prop} {addr : Nat} {handle : Int}
    (h : w.IssuesSound) (htables : w.TablesSound)
    (haccounts : w'.accounts = w.accounts.create addr handle)
    (hlogs : Logs P w w') (hdelivered : Delivered w'.log w.nextHandle)
    (htracked : forall i, i ∈ w'.tracked ->
      i = ⟨addr, w.nextRecord, w.nextHandle⟩ ∨ i ∈ w.tracked) :
    w'.IssuesSound := by
  have hnextRecord : w'.nextRecord = w.nextRecord + 1 :=
    congrArg (fun A => A.owners.next) haccounts
  have hnextHandle : w'.nextHandle = w.nextHandle + 1 :=
    congrArg (fun A => A.resources.next) haccounts
  exact
    { serial_lt := by
        intro i hi
        rw [hnextRecord]
        rcases htracked i hi with rfl | hold
        · exact Nat.lt_succ_self _
        · exact Nat.lt_succ_of_lt (h.serial_lt i hold)
      inst_lt := by
        intro i hi
        rw [hnextHandle]
        rcases htracked i hi with rfl | hold
        · exact Nat.lt_succ_self _
        · exact Nat.lt_succ_of_lt (h.inst_lt i hold)
      delivered := by
        intro i hi
        rcases htracked i hi with rfl | hold
        · exact hdelivered
        · exact (h.delivered i hold).mono hlogs
      honoured := by
        intro i hi a hlive
        rw [haccounts] at hlive ⊢
        rcases TokenTable.live_issue_cases hlive with ⟨ha, hserial⟩ |
          ⟨ha, hlive⟩
        · rcases htracked i hi with rfl | hold
          · rw [ha]
            exact ⟨rfl, handle, Function.update_self _ _ _⟩
          · have hlt := h.serial_lt i hold
            rw [hserial] at hlt
            exact absurd hlt (Nat.lt_irrefl _)
        · rcases htracked i hi with rfl | hold
          · exact absurd (htables.records.live_lt hlive) (Nat.lt_irrefl _)
          · rcases h.honoured i hold a hlive with ⟨haddr, x, hholds⟩
            exact ⟨haddr, x, (Function.update_of_ne ha _ _).trans hholds⟩ }

theorem step_issuesSound {a : Action} (h : w.IssuesSound)
    (htables : w.TablesSound) (hstep : step plat w a = some w') :
    w'.IssuesSound := by
  have hlogs := step_logs hstep
  cases step_change hstep with
  | shrinks hshrinks htracked => exact hshrinks.issuesSound h hlogs htracked
  | made haccounts hdelivered htracked =>
      exact issuesSound_made h htables haccounts hlogs hdelivered htracked

theorem initialWorld_issuesSound : initialWorld.IssuesSound where
  serial_lt := fun i hi => by cases hi
  inst_lt := fun i hi => by cases hi
  delivered := fun i hi => by cases hi
  honoured := fun i hi => by cases hi

theorem reachable_issuesSound (h : ReachableWorld plat w) : w.IssuesSound := by
  have hboth : w.IssuesSound ∧ w.TablesSound := by
    refine @reachable_invariant _ _ (step plat)
      (fun x => x.IssuesSound ∧ x.TablesSound) ?_ _ _
      ⟨initialWorld_issuesSound, initialWorld_tablesSound⟩ h
    rintro x a y ⟨hissues, htables⟩ hstep
    exact ⟨step_issuesSound hissues htables hstep,
      step_tablesSound htables hstep⟩
  exact hboth.1

/-!
# Where an opening lives
-/

/-- As long as the opening of a record is open, it is under the handle of the record. -/
structure World.Homed (w : World) : Prop where
  holds_lt : forall {a h t},
    w.accounts.holds a = some (h, t) -> t < w.nextHandle
  home : forall {a h h' t}, w.accounts.holds a = some (h, t) ->
    w.accounts.resources.live h' = some t -> h' = h

theorem live_of_holds {a : Nat} {x : Int × Nat}
    (h : w.accounts.holds a = some x) :
    exists s, w.accounts.owners.live a = some s := by
  rcases Option.map_eq_some_iff.mp h with ⟨rec, hrec, _⟩
  exact ⟨rec.serial, Option.map_eq_some_iff.mpr ⟨rec, hrec, rfl⟩⟩

theorem Shrinks.homed (hshrinks : Shrinks w w') (h : w.Homed) : w'.Homed := by
  have hholds : forall {a x}, w'.accounts.holds a = some x ->
      w.accounts.holds a = some x := by
    intro a x hx
    rcases live_of_holds hx with ⟨s, hlive⟩
    rw [← (hshrinks.live a s hlive).2]
    exact hx
  constructor
  · intro a x t hx
    exact Nat.lt_of_lt_of_le (h.holds_lt (hholds hx)) hshrinks.nextHandle
  · intro a x x' t hx hlive
    rcases hshrinks.opened x' t hlive with hold | hnew
    · exact h.home (hholds hx) hold
    · exact absurd (h.holds_lt (hholds hx)) (Nat.not_lt.mpr hnew)

theorem homed_made {addr : Nat} {handle : Int} (h : w.Homed)
    (htables : w.TablesSound)
    (haccounts : w'.accounts = w.accounts.create addr handle) : w'.Homed := by
  have hnext : w'.nextHandle = w.nextHandle + 1 :=
    congrArg (fun A => A.resources.next) haccounts
  constructor
  · intro a x t hx
    rw [haccounts] at hx
    rw [hnext]
    rcases Accounts.holds_create_cases hx with ⟨_, _, rfl⟩ | ⟨_, hold⟩
    · exact Nat.lt_succ_self _
    · exact Nat.lt_succ_of_lt (h.holds_lt hold)
  · intro a x x' t hx hlive
    rw [haccounts] at hx hlive
    rcases Accounts.holds_create_cases hx with ⟨_, rfl, rfl⟩ | ⟨_, hold⟩
    · rcases TokenTable.live_issue_cases hlive with ⟨rfl, _⟩ | ⟨_, hlive⟩
      · rfl
      · exact absurd (htables.handles.live_lt hlive) (Nat.lt_irrefl _)
    · rcases TokenTable.live_issue_cases hlive with ⟨_, rfl⟩ | ⟨_, hlive⟩
      · exact absurd (h.holds_lt hold) (Nat.lt_irrefl _)
      · exact h.home hold hlive

theorem step_homed {a : Action} (h : w.Homed) (htables : w.TablesSound)
    (hstep : step plat w a = some w') : w'.Homed := by
  cases step_change hstep with
  | shrinks hshrinks => exact hshrinks.homed h
  | made haccounts => exact homed_made h htables haccounts

theorem initialWorld_homed : initialWorld.Homed where
  holds_lt := fun h => by cases h
  home := fun h => by cases h

theorem reachable_homed (h : ReachableWorld plat w) : w.Homed := by
  have hboth : w.Homed ∧ w.TablesSound := by
    refine @reachable_invariant _ _ (step plat)
      (fun x => x.Homed ∧ x.TablesSound) ?_ _ _
      ⟨initialWorld_homed, initialWorld_tablesSound⟩ h
    rintro x a y ⟨hhomed, htables⟩ hstep
    exact ⟨step_homed hhomed htables hstep, step_tablesSound htables hstep⟩
  exact hboth.1

end Tracked

end LuaServer
