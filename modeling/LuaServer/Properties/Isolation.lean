import LuaServer.Interpreter.Issues

/-!
# Isolation of connections

The value of a socket is the address of its record.  As long as no address is
used again for a record, the values of two calls differ and each of them leads
to its own handle.
-/

namespace LuaServer

open Library

/--
An operation made through the value of one call does not act on the handle that
another call obtained, if both calls have returned.
-/
def SeparateCall (past : List Event) : Event -> Prop
  | .os call =>
      forall i j, i ∈ issuedIn past -> j ∈ issuedIn past -> i ≠ j ->
        call.caller.takesSocket = true -> call.via = .block i.addr ->
        call.inst ≠ some j.inst
  | _ => True

structure Isolated (w : World) : Prop where
  distinct : (issuedIn w.log).Pairwise fun i j =>
    i.value.rawEqual j.value = false
  separate : Past SeparateCall w.log

def Event.releases (addr : Nat) : Event -> Bool
  | .release p _ => decide (p = .block addr)
  | _ => false

/-- `malloc` gives no address for a record that an earlier record had. -/
def FreshRecords (w : World) (a : Action) : Prop :=
  forall c, w.invocation a = some c -> c.f = .create ∨ c.f = .accept ->
    forall addr, c.env.malloc = some addr ->
      forall serial, Event.release (.block addr) serial ∉ w.log

instance (w : World) (a : Action) : Decidable (FreshRecords w a) :=
  match hcall : w.invocation a with
  | none => isTrue fun c h => by
      rw [hcall] at h
      cases h
  | some c =>
      match hmalloc : c.env.malloc with
      | none => isTrue fun c' h _ addr haddr => by
          rw [hcall] at h
          cases h
          rw [hmalloc] at haddr
          cases haddr
      | some addr =>
          decidable_of_iff
            (c.f = .create ∨ c.f = .accept ->
              forall e, e ∈ w.log -> e.releases addr = false) (by
            constructor
            · intro h c' hc hmaker addr' haddr serial hmem
              rw [hcall] at hc
              cases hc
              rw [hmalloc] at haddr
              cases haddr
              have hno := h hmaker _ hmem
              simp [Event.releases] at hno
            · intro h hmaker e he
              cases e with
              | release p serial =>
                  rw [Event.releases, decide_eq_false_iff_not]
                  rintro rfl
                  exact h c hcall hmaker addr hmalloc serial he
              | startup | shutdown | pass | read | os | store | issued
              | returned => rfl)

/-- After the shutdown on Windows the system delivers no handle. -/
def DeliversBefore (plat : Platform) (w : World) (a : Action) : Prop :=
  w.CutOff plat -> forall c, w.invocation a = some c -> c.env.handle = none

instance (plat : Platform) (w : World) (a : Action) :
    Decidable (DeliversBefore plat w a) :=
  match hcall : w.invocation a with
  | none => isTrue fun _ c h => by
      rw [hcall] at h
      cases h
  | some c =>
      decidable_of_iff (w.CutOff plat -> c.env.handle = none) (by
        unfold DeliversBefore
        simp [hcall])

/-- The record was made for the handle, or it is gone for good. -/
def World.Keeps (w : World) (i : Issue) : Prop :=
  (exists h, w.accounts.holds i.addr = some (h, i.inst)) ∨
    (w.accounts.holds i.addr = none ∧
      exists serial, Event.release (.block i.addr) serial ∈ w.log)

structure Apart (w : World) : Prop where
  addrs : (w.tracked.map Issue.addr).Nodup
  insts : (w.tracked.map Issue.inst).Nodup
  inst_lt : forall i, i ∈ w.tracked -> i.inst < w.nextHandle
  keeps : forall i, i ∈ w.tracked -> w.Keeps i
  separate : Past SeparateCall w.log

/-- What is open under the handle of a live record is the opening made for it. -/
def World.OwnHandles (w : World) : Prop :=
  forall a rec t, w.records a = some rec ->
    w.instAt rec.info.hSocket = some t -> t = rec.inst

section Logs

variable {w v : World} {P : Event -> Prop}

theorem World.Keeps.mono {i : Issue} (h : w.Keeps i)
    (haccounts : v.accounts.holds i.addr = w.accounts.holds i.addr)
    (hlogs : Logs P w v) : v.Keeps i := by
  rcases h with ⟨handle, hholds⟩ | ⟨hnone, serial, hmem⟩
  · exact Or.inl ⟨handle, haccounts.trans hholds⟩
  · refine Or.inr ⟨haccounts.trans hnone, serial, ?_⟩
    rcases hlogs with ⟨es, hes, _⟩
    rw [hes]
    exact List.mem_append_left _ hmem

end Logs

section Calls

variable {plat : Platform} {env : Env} {args : List Value} {w v : World}
variable {entry : Entry}

theorem callEvent_separate {before : List Event} {e : Event} (h : Apart w)
    (hown : w.OwnHandles)
    (hlive : forall p, w.derefs plat env args entry = some p ->
      (w.recordAt p).isSome = true)
    (hbefore : issuedIn (w.log ++ before) = issuedIn w.log)
    (he : CallEvent plat env args w entry e) :
    SeparateCall (w.log ++ before) e := by
  cases he with
  | pass | read | release | store => trivial
  | make =>
      intro i j _ _ _ htakes
      cases htakes
  | os hderefs =>
      rename_i p op opened ok _
      intro i j hi hj hne _ hvia
      rw [hbefore] at hi hj
      have hvia : p = .block i.addr := hvia
      have hsome := hlive p hderefs
      rcases Option.isSome_iff_exists.mp hsome with ⟨rec, hrec⟩
      rw [hvia] at hrec
      have haddr : w.records i.addr = some rec := hrec
      have hinfo : w.infoAt env p = rec.info := by
        rw [hvia]
        exact infoAt_of_record hrec
      have hi' : i ∈ w.tracked := List.mem_append_left _ hi
      have hj' : j ∈ w.tracked := List.mem_append_left _ hj
      have hinst : rec.inst = i.inst := by
        have hholds : w.accounts.holds i.addr =
            some (rec.info.hSocket, rec.inst) := by
          show (w.records i.addr).map _ = _
          rw [haddr]
          rfl
        rcases h.keeps i hi' with ⟨handle, hkeeps⟩ | ⟨hnone, _⟩
        · rw [hholds] at hkeeps
          exact (Prod.mk.inj (Option.some.inj hkeeps)).2
        · rw [hholds] at hnone
          cases hnone
      show w.instAt (w.infoAt env p).hSocket ≠ some j.inst
      rw [hinfo]
      intro heq
      apply hne
      apply List.inj_on_of_nodup_map h.insts hi' hj'
      rw [← hinst]
      exact (hown _ _ _ haddr heq).symm

end Calls

section Steps

variable {plat : Platform} {w w' : World} {a : Action} {c : Invocation}

theorem Apart.continue (h : Apart w)
    (htracked : w'.tracked.Sublist w.tracked)
    (hnext : w.nextHandle ≤ w'.nextHandle)
    (hkeeps : forall i, i ∈ w.tracked -> w'.Keeps i)
    (hseparate : Past SeparateCall w'.log) : Apart w' where
  addrs := List.Nodup.sublist (htracked.map Issue.addr) h.addrs
  insts := List.Nodup.sublist (htracked.map Issue.inst) h.insts
  inst_lt := fun i hi =>
    Nat.lt_of_lt_of_le (h.inst_lt i (htracked.subset hi)) hnext
  keeps := fun i hi => hkeeps i (htracked.subset hi)
  separate := hseparate

theorem Apart.congr (h : Apart w) (haccounts : w'.accounts = w.accounts)
    (hlog : w'.log = w.log)
    (hpending : w'.pendingIssues.Sublist w.pendingIssues) : Apart w' := by
  apply h.continue
  · unfold World.tracked
    rw [hlog]
    exact List.Sublist.append_left hpending _
  · have hnext : w'.nextHandle = w.nextHandle :=
      congrArg (fun A => A.resources.next) haccounts
    exact Nat.le_of_eq hnext.symm
  · intro i hi
    have hlogs : Logs (fun _ => True) w w' := Logs.of_log_eq hlog
    exact (h.keeps i hi).mono (by rw [haccounts]) hlogs
  · rw [hlog]
    exact h.separate

theorem apart_returnFrame {fr : Frame} {rest : List Frame} (h : Apart w)
    (hframes : w.frames = fr :: rest) : Apart (w.returnFrame fr rest) := by
  have hlogs := @returnFrame_logs w fr rest
  have htracked := tracked_returnFrame hframes
  apply h.continue
  · rw [htracked]
  · exact Nat.le_refl _
  · intro i hi
    exact (h.keeps i hi).mono (by rw [accounts_returnFrame]) hlogs
  · apply past_of_logs h.separate hlogs
    intro before e _ he
    rw [he]
    trivial

theorem nextHandle_of_accounts {A : Accounts Nat Int}
    (h : w'.accounts = A) : w'.nextHandle = A.resources.next := by
  rw [← h]
  rfl

theorem apart_kept {P : Event -> Prop} (h : Apart w)
    (haccounts : w'.accounts = w.accounts)
    (hissued : issuedIn w'.log = issuedIn w.log)
    (hpending : w'.pendingIssues = w.pendingIssues) (hlogs : Logs P w w')
    (hseparate : Past SeparateCall w'.log) : Apart w' := by
  apply h.continue _ _ _ hseparate
  · rw [tracked_of hissued hpending]
    exact List.Sublist.refl _
  · exact Nat.le_of_eq (nextHandle_of_accounts haccounts).symm
  · intro i hi
    exact (h.keeps i hi).mono (by rw [haccounts]) hlogs

theorem apart_lost {P : Event -> Prop} {handle : Int} (h : Apart w)
    (haccounts : w'.accounts = w.accounts.lose handle)
    (hissued : issuedIn w'.log = issuedIn w.log)
    (hpending : w'.pendingIssues = w.pendingIssues) (hlogs : Logs P w w')
    (hseparate : Past SeparateCall w'.log) : Apart w' := by
  apply h.continue _ _ _ hseparate
  · rw [tracked_of hissued hpending]
    exact List.Sublist.refl _
  · rw [nextHandle_of_accounts haccounts]
    exact Nat.le_succ _
  · intro i hi
    exact (h.keeps i hi).mono (by rw [haccounts]; rfl) hlogs

/-- A new record is made for a new opening at an address without a past. -/
theorem apart_made {P : Event -> Prop} {handle : Int} {addr serial : Nat}
    (h : Apart w)
    (hunused : w.records addr = none)
    (hfresh : forall s, Event.release (.block addr) s ∉ w.log)
    (haccounts : w'.accounts = w.accounts.create addr handle)
    (hissued : issuedIn w'.log = issuedIn w.log)
    (hpending : w'.pendingIssues =
      ⟨addr, serial, w.nextHandle⟩ :: w.pendingIssues) (hlogs : Logs P w w')
    (hseparate : Past SeparateCall w'.log) : Apart w' := by
  have hnew : forall i, i ∈ w.tracked -> i.addr ≠ addr := by
    rintro i hi rfl
    rcases h.keeps i hi with ⟨x, hholds⟩ | ⟨_, s, hrelease⟩
    · have hnone : w.accounts.holds i.addr = none := by
        show (w.records i.addr).map _ = none
        rw [hunused]
        rfl
      rw [hnone] at hholds
      cases hholds
    · exact hfresh s hrelease
  have htracked := tracked_of hissued hpending
  have hmem : forall i, i ∈ w'.tracked ->
      i = ⟨addr, serial, w.nextHandle⟩ ∨ i ∈ w.tracked := by
    intro i hi
    rw [htracked] at hi
    have hperm := List.perm_middle.mem_iff.mp hi
    exact List.mem_cons.mp hperm
  have hperm : w'.tracked.Perm (⟨addr, serial, w.nextHandle⟩ :: w.tracked) := by
    rw [htracked]
    exact List.perm_middle
  exact
    { addrs := by
        rw [(hperm.map Issue.addr).nodup_iff, List.map_cons, List.nodup_cons]
        refine ⟨?_, h.addrs⟩
        intro hin
        rcases List.mem_map.mp hin with ⟨i, hi, heq⟩
        exact hnew i hi heq
      insts := by
        rw [(hperm.map Issue.inst).nodup_iff, List.map_cons, List.nodup_cons]
        refine ⟨?_, h.insts⟩
        intro hin
        rcases List.mem_map.mp hin with ⟨i, hi, heq⟩
        exact Nat.ne_of_lt (h.inst_lt i hi) heq
      inst_lt := by
        intro i hi
        rw [nextHandle_of_accounts haccounts]
        rcases hmem i hi with rfl | hold
        · exact Nat.lt_succ_self _
        · exact Nat.lt_succ_of_lt (h.inst_lt i hold)
      keeps := by
        intro i hi
        rcases hmem i hi with rfl | hold
        · refine Or.inl ⟨handle, ?_⟩
          rw [haccounts]
          exact Function.update_self _ _ _
        · refine (h.keeps i hold).mono ?_ hlogs
          rw [haccounts]
          exact Function.update_of_ne (hnew i hold) _ _
      separate := hseparate }

theorem apart_dropped {P : Event -> Prop} {addr : Nat} {serial : Option Nat}
    (h : Apart w)
    (hrelease : Event.release (.block addr) serial ∈ w'.log)
    (hgone : w'.accounts.holds addr = none)
    (hother : forall x, x ≠ addr ->
      w'.accounts.holds x = w.accounts.holds x)
    (hnext : w'.nextHandle = w.nextHandle)
    (hissued : issuedIn w'.log = issuedIn w.log)
    (hpending : w'.pendingIssues = w.pendingIssues) (hlogs : Logs P w w')
    (hseparate : Past SeparateCall w'.log) : Apart w' := by
  apply h.continue _ _ _ hseparate
  · rw [tracked_of hissued hpending]
    exact List.Sublist.refl _
  · exact Nat.le_of_eq hnext.symm
  · intro i hi
    by_cases haddr : i.addr = addr
    · refine Or.inr ⟨?_, serial, ?_⟩
      · rw [haddr]
        exact hgone
      · rw [haddr]
        exact hrelease
    · exact (h.keeps i hi).mono (hother _ haddr) hlogs

theorem holds_closing {v : World} {f : CFunction} {addr : Nat} {handle : Int} :
    (v.closing ⟨f, .block addr⟩ handle).accounts.holds addr = none ∧
      forall x, x ≠ addr ->
        (v.closing ⟨f, .block addr⟩ handle).accounts.holds x =
          v.accounts.holds x := by
  constructor
  · show ((v.closing ⟨f, .block addr⟩ handle).records addr).map _ = none
    rw [show (v.closing ⟨f, .block addr⟩ handle).records addr = none from
      if_pos rfl]
    rfl
  · intro x hx
    show ((v.closing ⟨f, .block addr⟩ handle).records x).map _ = _
    rw [show (v.closing ⟨f, .block addr⟩ handle).records x = v.records x from
      if_neg hx]
    rfl

theorem apart_performCall (h : Apart c.start) (hown : c.start.OwnHandles)
    (hlive : c.ReadsLive plat)
    (hadm : c.env.admissible plat c.start = true)
    (hfresh : c.f = .create ∨ c.f = .accept ->
      forall addr, c.env.malloc = some addr ->
        forall serial, Event.release (.block addr) serial ∉ c.start.log) :
    Apart (c.start.performCall plat c.entry c.args c.env) := by
  have houtcome := @enter_outcome plat c.env c.args c.start hadm c.entry
  have hlogs := @performCall_endedLogs plat c hadm
  have hissued := issuedIn_of_logs
    (hlogs.imp fun e he => endedCallEvent_issued he)
  have hseparate : Past SeparateCall
      (c.start.performCall plat c.entry c.args c.env).log := by
    apply past_of_logs h.separate hlogs
    intro before e hbefore he
    have hsame : issuedIn (c.start.log ++ before) = issuedIn c.start.log := by
      rw [issuedIn_append, issuedIn_of_forall fun e' he' =>
        endedCallEvent_issued (hbefore e' he'), List.append_nil]
    rcases he with he | ⟨ok, rfl⟩ | ⟨f, serial, rfl⟩
    · exact callEvent_separate h hown hlive hsame he
    · trivial
    · trivial
  have haccounts := @accounts_performCall plat c
  have hpending := @pendingIssues_performCall plat c hadm
  by_cases hf : c.f = .close ∨ c.f = .onCollectSocket
  · rcases outcome_closes hf houtcome with ⟨hkept, hr⟩ |
      ⟨p, v, hderefs, _, hv, hrecords, _, hr⟩
    · exact apart_kept h (haccounts.trans hkept) hissued
        (hpending fun fr => hr (.building fr)) hlogs hseparate
    · rcases Option.isSome_iff_exists.mp (hlive p hderefs) with ⟨rec, hrec⟩
      rcases block_of_recordAt hrec with ⟨addr, rfl, haddr⟩
      rw [← hrecords] at haddr
      have hrelease := @release_mem_closing v ⟨c.f, .block addr⟩ addr rec
        (c.start.infoAt c.env (.block addr)).hSocket rfl haddr
      have hlater : Event.release (.block addr) (some rec.serial) ∈
          (c.start.performCall plat c.entry c.args c.env).log := by
        unfold World.performCall
        rw [hr]
        exact mem_log_finishCall hrelease
      rw [hr] at hpending haccounts
      refine apart_dropped h hlater ?_ ?_ ?_ hissued (hpending (by simp))
        hlogs hseparate
      · rw [haccounts]
        exact holds_closing.1
      · intro x hx
        rw [haccounts, ← hv]
        exact holds_closing.2 x hx
      · rw [nextHandle_of_accounts haccounts]
        exact nextHandle_of_accounts hv
  · push Not at hf
    have hframes := congrArg (List.map Frame.issue) (outcome_frames houtcome)
    have heffect := outcome_effect_of_ne hf.1 hf.2 houtcome
    unfold World.performCall at *
    generalize enter plat c.env c.args c.entry c.start = r at *
    generalize c.start.serialAt (c.args.headD .nil).toUserdata = serial at *
    cases heffect with
    | kept hkept hr =>
        exact apart_kept h (haccounts.trans hkept) hissued (hpending hr) hlogs
          hseparate
    | lost hmaker hhandle hmalloc hlost =>
        exact apart_lost h (haccounts.trans hlost) hissued
          (hpending (by simp)) hlogs hseparate
    | made hmaker hhandle hmalloc hmade =>
        rename_i handle addr v
        have hframe := congrArg
          (List.cons ⟨addr, c.start.nextRecord, c.start.nextHandle⟩) hframes
        exact apart_made h (Env.malloc_fresh hadm hmalloc).1
          (hfresh hmaker _ hmalloc) (haccounts.trans hmade) hissued hframe
          hlogs hseparate
    | dropped hcloser => exact absurd hcloser (not_or.mpr hf)

theorem apart_exit (h : Apart w) : Apart (w.exit plat) := by
  have hnone : Logs (fun e => e.issued? = none) w (w.exit plat) := by
    apply exit_logs.imp
    rintro e ⟨rfl, _⟩
    rfl
  rcases @exit_state plat w with ⟨L, handles, log, hexit⟩
  have hholds : (w.exit plat).accounts.holds = w.accounts.holds := by
    rw [hexit]
    rfl
  apply h.continue
  · rw [tracked_exit]
  · rw [hexit]
  · intro i hi
    exact (h.keeps i hi).mono (by rw [hholds]) (@exit_logs plat w)
  · apply past_of_logs h.separate exit_logs
    rintro before e _ ⟨rfl, _⟩
    trivial

theorem apart_start (hcall : w.invocation a = some c) (h : Apart w) :
    Apart c.start := by
  rcases invocation_start hcall with ⟨L, paused, hstart⟩
  rw [hstart]
  exact h.congr rfl rfl (List.Sublist.refl _)

theorem step_apart (h : Apart w) (hown : w.OwnHandles)
    (hlive : ReadsLive plat w a) (hfresh : FreshRecords w a)
    (hstep : step plat w a = some w') : Apart w' := by
  cases step_shape hstep with
  | quiet _ hpending =>
      refine h.congr ?_ ?_ ?_
      · rfl
      · rfl
      · show (List.map Frame.issue _).Sublist _
        rw [hpending]
  | ended | abandoned => exact h.congr rfl rfl (List.Sublist.refl _)
  | raised _ hframes =>
      refine h.congr ?_ ?_ ?_
      · rfl
      · rfl
      · unfold World.pendingIssues
        rw [hframes]
        exact List.sublist_cons_self _ _
  | returned _ hframes => exact apart_returnFrame h hframes
  | exited => exact apart_exit h
  | called hcall hadm =>
      rcases invocation_start hcall with ⟨L, paused, hstart⟩
      apply apart_performCall (apart_start hcall h) _ (hlive _ hcall) hadm
      · intro hmaker addr hmalloc serial
        rw [hstart]
        exact hfresh _ hcall hmaker addr hmalloc serial
      · rw [hstart]
        exact hown

/-!
# Handles and their records
-/

/-- The accounts are sound until the shutdown on Windows, which leaves no handle. -/
structure World.Housed (plat : Platform) (w : World) : Prop where
  sound : ¬w.CutOff plat -> w.accounts.Sound
  shut : w.CutOff plat -> forall h, w.handles h = none

theorem World.Housed.ownHandles (h : w.Housed plat) : w.OwnHandles := by
  intro addr rec t hrec hopen
  by_cases hcut : w.CutOff plat
  · unfold World.instAt at hopen
    rw [h.shut hcut] at hopen
    cases hopen
  · rw [instAt_of_sound (h.sound hcut) hrec] at hopen
    exact (Option.some.inj hopen).symm

theorem handles_performCall_none (hadm : c.env.admissible plat c.start = true)
    (hhandle : c.env.handle = none)
    (hnone : forall x, c.start.handles x = none) (x : Int) :
    (c.start.performCall plat c.entry c.args c.env).handles x = none := by
  have hlive : forall y, c.start.accounts.resources.live y = none := by
    intro y
    show (c.start.handles y).map _ = none
    rw [hnone]
    rfl
  have hlater : (c.start.performCall plat c.entry c.args
      c.env).accounts.resources.live x = none := by
    rw [accounts_performCall]
    have houtcome := @enter_outcome plat c.env c.args c.start hadm c.entry
    by_cases hf : c.f = .close ∨ c.f = .onCollectSocket
    · rcases outcome_closes hf houtcome with ⟨hkept, _⟩ |
        ⟨p, v, _, _, _, _, hhandles, hr⟩
      · rw [hkept]
        exact hlive x
      · rw [hr]
        show ((v.closing _ _).handles x).map _ = none
        rw [closing_handles, hhandles, hnone, ite_self]
        rfl
    · push Not at hf
      have heffect := outcome_effect_of_ne hf.1 hf.2 houtcome
      generalize enter plat c.env c.args c.entry c.start = r at heffect ⊢
      cases heffect with
      | kept hkept =>
          rw [hkept]
          exact hlive x
      | lost _ h | made _ h =>
          rw [hhandle] at h
          cases h
      | dropped hcloser => exact absurd hcloser (not_or.mpr hf)
  exact Option.map_eq_none_iff.mp hlater

/-- The shutdown is the step that cuts the sockets off. -/
theorem handles_of_cutOff (hstep : step plat w a = some w')
    (hbefore : ¬w.CutOff plat) (hcut : w'.CutOff plat) (x : Int) :
    w'.handles x = none := by
  have hnew : ¬Event.shutdown ∈ w.log := fun hmem => hbefore ⟨hcut.1, hmem⟩
  rcases step_logs hstep with ⟨es, hes, hall⟩
  have hmem := hcut.2
  rw [hes] at hmem
  cases hall _ ((List.mem_append.mp hmem).resolve_left hnew) with
  | call _ he => cases he
  | shutdown ha hinit =>
      subst ha
      rw [(exit_inv hstep).2.2.2, exit_handles, if_pos ⟨hcut.1, hinit⟩]

theorem step_housed (h : w.Housed plat) (hlive : ReadsLive plat w a)
    (hdeliver : DeliversBefore plat w a) (hstep : step plat w a = some w') :
    w'.Housed plat where
  sound := by
    intro hopen
    apply step_sound (h.sound _) hlive hstep hopen
    intro hcut
    exact hopen (cutOff_of_step hcut hstep)
  shut := by
    intro hcut'
    by_cases hcut : w.CutOff plat
    · have hnone := h.shut hcut
      intro x
      cases step_accounts hstep with
      | kept hkept =>
          have hlive : w'.instAt x = w.instAt x :=
            congrFun (congrArg (fun A => A.resources.live) hkept) x
          unfold World.instAt at hlive
          rw [hnone] at hlive
          exact Option.map_eq_none_iff.mp hlive
      | shut _ _ hshut hw' =>
          rw [hw', exit_handles, if_pos hshut]
      | called hcall hadm hw' =>
          rw [hw']
          apply handles_performCall_none hadm (hdeliver hcut _ hcall)
          rcases invocation_start hcall with ⟨L, paused, hstart⟩
          rw [hstart]
          exact hnone
    · exact handles_of_cutOff hstep hcut hcut'

theorem initialWorld_housed : initialWorld.Housed plat where
  sound := fun _ => initialWorld_accounts_sound
  shut := fun _ _ => rfl

theorem initialWorld_apart : Apart initialWorld where
  addrs := List.nodup_nil
  insts := List.nodup_nil
  inst_lt := fun i hi => by cases hi
  keeps := fun i hi => by cases hi
  separate := past_nil

theorem Apart.isolated (h : Apart w) : Isolated w where
  distinct := by
    have hnodup : ((issuedIn w.log).map Issue.addr).Nodup :=
      List.Nodup.sublist
        ((List.sublist_append_left _ _).map Issue.addr) h.addrs
    rw [List.Nodup, List.pairwise_map] at hnodup
    apply hnodup.imp
    intro i j hne
    simp [Issue.value, hne]
  separate := h.separate

end Steps

/--
Connections stay isolated in every run in which no call reads a closed record,
no record gets the address of an earlier one, and the system delivers nothing
after the shutdown.
-/
theorem isolated_of_freshRecords (plat : Platform) (actions : List Action)
    (w : World) (hrun : runFrom (step plat) initialWorld actions = some w)
    (hcond : AllSteps (step plat)
      (fun v a => ReadsLive plat v a ∧ FreshRecords v a ∧
        DeliversBefore plat v a) initialWorld actions) :
    Isolated w := by
  have hall : Apart w ∧ w.Housed plat := by
    refine @runFrom_invariant _ _ (step plat)
      (fun x => Apart x ∧ x.Housed plat) _ ?_ _ _ _
      ⟨initialWorld_apart, initialWorld_housed⟩ hcond hrun
    rintro x a y ⟨hapart, hhoused⟩ ⟨hlive, hfresh, hdeliver⟩ hstep
    exact ⟨step_apart hapart hhoused.ownHandles hlive hfresh hstep,
      step_housed hhoused hlive hdeliver hstep⟩
  exact hall.1.isolated

/--
A server that closes a client and accepts another one whose record gets the
address of the first, and then sends through the value of the first.
-/
def staleSend : List Action :=
  createFirst { handle := some 3, malloc := some 16 } ++
    callOn .accept "accept" 16 [] { handle := some 4, malloc := some 32 } ++
    finishLater ++ callOn .close "close" 32 [] {} ++
    callOn .accept "accept" 16 [] { handle := some 4, malloc := some 32 } ++
    finishLater ++ [.script (.literal (str "x"))] ++
    callOn .send "send" 32 [str "x"] { sent := some 1 }

theorem staleSend_not_isolated :
    ¬forall actions w, runFrom (step .unix) initialWorld actions = some w ->
      Isolated w := by
  intro hisolated
  have hissued : (runFrom (step .unix) initialWorld staleSend).map
      (fun w => issuedIn w.log) =
        some [⟨16, 0, 0⟩, ⟨32, 1, 1⟩, ⟨32, 2, 2⟩] := by
    decide +kernel
  rcases Option.map_eq_some_iff.mp hissued with ⟨w, hrun, hlog⟩
  have hdistinct := (hisolated staleSend w hrun).distinct
  rw [hlog] at hdistinct
  simp [Issue.value] at hdistinct

theorem isolated_serveTwo :
    exists w,
      runFrom (step .unix) initialWorld
        (createFirst { handle := some 3, malloc := some 16 } ++
          callOn .accept "accept" 16 [] { handle := some 4, malloc := some 32 } ++
          finishLater ++ callOn .close "close" 32 [] {} ++
          callOn .accept "accept" 16 [] { handle := some 4, malloc := some 48 } ++
          finishLater) = some w ∧ Isolated w := by
  have hsome : (runFrom (step .unix) initialWorld
      (createFirst { handle := some 3, malloc := some 16 } ++
        callOn .accept "accept" 16 [] { handle := some 4, malloc := some 32 } ++
        finishLater ++ callOn .close "close" 32 [] {} ++
        callOn .accept "accept" 16 [] { handle := some 4, malloc := some 48 } ++
        finishLater)).isSome = true := by
    decide +kernel
  rcases Option.isSome_iff_exists.mp hsome with ⟨w, hrun⟩
  exact ⟨w, hrun,
    isolated_of_freshRecords .unix _ w hrun (by decide +kernel)⟩

end LuaServer
