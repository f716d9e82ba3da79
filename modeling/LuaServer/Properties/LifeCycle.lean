import LuaServer.Interpreter.Issues
import LuaServer.Interpreter.Suspended

/-!
# The life cycle of a socket

A socket is created, bound, made to listen and used.  Each operation reports the
failure of the system's operation in its own way: by an error, by the invalid
handle, or by the number -1 in place of a count.
-/

namespace LuaServer

open Library

/-- A normal return of the values by a call whose operations succeed. -/
def SuccessfulReturn (f : CFunction) (vs : List Value) : Prop :=
  exists plat w a c w', ReachableWorld plat w ∧ w.invocation a = some c ∧
    c.f = f ∧ c.env.admissible plat c.start = true ∧
    enter plat c.env c.args c.entry c.start = .ok (.values vs) w' ∧
    forall call, call ∈ osCalls c.start w' -> call.ok = true

/-- If an operation of the call fails, its caller can tell. -/
def Invocation.FailureVisible (plat : Platform) (c : Invocation) : Prop :=
  (exists call,
    call ∈ osCalls c.start
      (finalState (enter plat c.env c.args c.entry c.start)) ∧
    call.ok = false) ->
  (exists e v,
    enter plat c.env c.args c.entry c.start = .error (.raise e) v) ∨
  exists vs v,
    enter plat c.env c.args c.entry c.start = .ok (.values vs) v ∧
    ¬SuccessfulReturn c.f vs

/-- The calls looked at are those of `create`, `bind`, `listen`, `accept`, `recv` and `send`. -/
def FailuresVisible (plat : Platform) (w : World) (a : Action) : Prop :=
  forall c, w.invocation a = some c -> c.f ≠ .close ->
    c.f ≠ .onCollectSocket -> c.FailureVisible plat

def Invocation.ListenSucceeds (plat : Platform) (c : Invocation) : Prop :=
  c.f = .listen -> forall p,
    c.start.derefs plat c.env c.args (.call .listen) = some p ->
    c.start.statusOf (c.start.infoAt c.env p).hSocket c.env.status = noError

def ListenSucceeds (plat : Platform) (w : World) (a : Action) : Prop :=
  forall c, w.invocation a = some c -> c.ListenSucceeds plat

/--
A socket that is not closed and on which `bind` and `listen` have returned is
bound and listening; a returned socket stands for an opening that the system has
delivered, and as long as its record lives the handle is open under it.  What is
open stays so until the shutdown at the end of `main` on Windows.
-/
structure LifeCycle (plat : Platform) (w : World) : Prop where
  listening : ¬w.CutOff plat -> forall a rec, w.records a = some rec ->
    Event.returned .bind (some rec.serial) ∈ w.log ->
    Event.returned .listen (some rec.serial) ∈ w.log ->
    exists s, w.handles rec.info.hSocket = some s ∧ s.inst = rec.inst ∧
      s.bound = true ∧ s.listening = true
  delivered : forall i, Event.issued i ∈ w.log -> Delivered w.log i.inst
  designates : ¬w.CutOff plat -> forall i rec, Event.issued i ∈ w.log ->
    w.records i.addr = some rec -> rec.serial = i.serial ->
    exists s, w.handles rec.info.hSocket = some s ∧ s.inst = i.inst

/-!
# Failures of one call
-/

def Event.fails : Event -> Bool
  | .os call => !call.ok
  | _ => false

section Failures

variable {plat : Platform} {env : Env} {args : List Value} {w v : World}
variable {f : CFunction} {entry : Entry}
variable {r : EStateM.Result Exit World Reply}

/-- No operation between the two states has failed. -/
def Smooth (w v : World) : Prop := Logs (fun e => e.fails = false) w v

theorem Smooth.all_ok (h : Smooth w v) {call : OsCall}
    (hmem : call ∈ osCalls w v) : call.ok = true := by
  rcases h with ⟨es, hes, hok⟩
  rw [osCalls_of_log hes] at hmem
  rcases List.mem_filterMap.mp hmem with ⟨e, he, hcall⟩
  cases e with
  | os call' =>
      cases hcall
      simpa [Event.fails] using hok _ he
  | startup | shutdown | pass | read | release | store | issued | returned =>
      cases hcall

theorem failing_of_logsSome (h : LogsSome (fun e => e.fails = true) w v) :
    exists call, call ∈ osCalls w v ∧ call.ok = false := by
  rcases h with ⟨es, hes, e, he, hfails⟩
  cases e with
  | os call =>
      refine ⟨call, ?_, by simpa [Event.fails] using hfails⟩
      rw [osCalls_of_log hes]
      exact List.mem_filterMap.mpr ⟨_, he, rfl⟩
  | startup | shutdown | pass | read | release | store | issued | returned =>
      cases hfails

theorem smooth_reading (entry : Entry) (p : Ptr) :
    Smooth w (w.reading entry p) :=
  logs_reading rfl (fun _ => rfl) fun _ => rfl

theorem smooth_afterStatus {caller : Caller} {op : OsOp} {h status : Int}
    {update : OsSocket -> OsSocket} (hok : w.statusOf h status = noError) :
    Smooth w (w.afterStatus caller op h status update) := by
  refine ⟨_, afterStatus_log, ?_⟩
  intro e he
  rw [List.mem_singleton.mp he]
  simp [osEvent, Event.fails, hok]

theorem smooth_delivered {caller : Caller} {op : OsOp} {arg : Option Int}
    {h : Int} : Smooth w (w.delivered caller op arg h) :=
  logs_delivered rfl

def failedSend : Value := .number (.ofInt (toInt32 socketError))

theorem act_failures {p : Ptr} {info : SocketInfo}
    (hlisten : f = .listen -> w.statusOf info.hSocket env.status = noError)
    (hclose : f ≠ .close) (h : Act plat env args p w info f r) :
    Smooth w (finalState r) ∨ (exists e u, r = .error (.raise e) u) ∨
      f = .send ∧ exists u, r = .ok (.values [failedSend]) u := by
  cases h with
  | bindNoMemory => exact Or.inl (Logs.refl w)
  | bindFailed | acceptFailed | recvFailed =>
      exact Or.inr (Or.inl ⟨_, _, rfl⟩)
  | bound _ _ hok =>
      apply Or.inl
      rw [← @statusOf_withBlock env] at hok
      exact Logs.trans logs_withBlock (smooth_afterStatus hok)
  | listened => exact Or.inl (smooth_afterStatus (hlisten rfl))
  | acceptNoMemory => exact Or.inl (smooth_delivered.trans (Logs.emit rfl))
  | accepted _ _ hu =>
      rw [hu]
      exact Or.inl ((smooth_delivered.trans (Logs.emit rfl)).trans
        (Logs.of_log_eq rfl))
  | recvNoMemory => exact Or.inl (logs_received rfl fun _ _ _ => rfl)
  | received =>
      exact Or.inl (Logs.trans logs_withBlock
        (logs_received rfl fun _ _ _ => rfl))
  | @sent data accepts =>
      cases accepts with
      | none => exact Or.inr (Or.inr ⟨rfl, _, rfl⟩)
      | some k => exact Or.inl (Logs.emit rfl)
  | closed => exact absurd rfl hclose

theorem entry_of_listen (hf : entry.f = .listen) : entry = .call .listen := by
  cases entry with
  | call g => exact congrArg Entry.call hf
  | resume point =>
      cases point with
      | bind | send | recv => cases hf

theorem outcome_failures
    (hlisten : entry.f = .listen -> forall p,
      w.derefs plat env args (.call .listen) = some p ->
      w.statusOf (w.infoAt env p).hSocket env.status = noError)
    (hclose : entry.f ≠ .close) (hcollect : entry.f ≠ .onCollectSocket)
    (h : Outcome plat env args w entry r) :
    Smooth w (finalState r) ∨ (exists e u, r = .error (.raise e) u) ∨
      entry.f = .send ∧ exists u, r = .ok (.values [failedSend]) u := by
  cases h with
  | initFailed | rejected | invalid | createFailed =>
      exact Or.inr (Or.inl ⟨_, _, rfl⟩)
  | converting =>
      have hheader : Smooth w w.afterHeader := logs_afterHeader rfl
      exact Or.inl (Logs.trans hheader (Logs.emit rfl))
  | @acted _ p _ hsocket hderefs _ hact =>
      have hstatus : entry.f = .listen ->
          (w.reading entry p).statusOf (w.infoAt env p).hSocket env.status =
            noError := by
        intro hf
        rw [statusOf_reading]
        exact hlisten hf p (entry_of_listen hf ▸ hderefs)
      rcases act_failures hstatus hclose hact with hsmooth | hrest
      · exact Or.inl (Logs.trans (smooth_reading entry p) hsmooth)
      · exact Or.inr hrest
  | resumedNull => exact Or.inl (Logs.emit rfl)
  | freed => exact Or.inl logs_withoutBlock
  | createNoMemory =>
      have hheader : Smooth w w.afterHeader := logs_afterHeader rfl
      exact Or.inl (Logs.trans hheader smooth_delivered)
  | @created _ _ u _ _ _ hu =>
      have hsmooth : Smooth w u := by
        rw [hu]
        have hheader : Smooth w w.afterHeader := logs_afterHeader rfl
        exact Logs.trans hheader smooth_delivered
      exact Or.inl (Logs.trans hsmooth (Logs.of_log_eq rfl))
  | collectNull | collected => exact absurd rfl hcollect

theorem toInt32_socketError : toInt32 socketError = -1 := by decide

theorem ofInt_injective : Function.Injective LuaNumber.ofInt := by
  intro m n h
  unfold LuaNumber.ofInt at h
  simpa using h

/-- A `send` that succeeds never returns -1. -/
theorem not_successfulReturn_failedSend :
    ¬SuccessfulReturn .send [failedSend] := by
  rintro ⟨plat, u, a, ⟨entry, args, env, w⟩, w', _, _, hf, hadm, hrun, hok⟩
  change entry.f = .send at hf
  have houtcome := @enter_outcome plat env args w hadm entry
  rw [show enter plat env args entry w = _ from hrun] at houtcome
  generalize hr : EStateM.Result.ok (Reply.values [failedSend]) w' = r
    at houtcome
  cases houtcome with
  | initFailed | rejected | converting | invalid | resumedNull => cases hr
  | freed | createFailed | createNoMemory | created | collectNull
  | collected => cases hf
  | @acted _ p _ _ _ _ hact =>
      rw [hf] at hact
      cases hact with
      | @sent data accepts _ haccepts =>
          rw [EStateM.Result.ok.injEq] at hr
          rcases hr with ⟨hvalue, hstate⟩
          simp only [Reply.values.injEq, List.cons.injEq, and_true, failedSend,
            Value.number.injEq] at hvalue
          have hnumber := ofInt_injective hvalue
          rw [toInt32_socketError] at hnumber
          cases accepts with
          | none =>
              have hlogs : LogsSome (fun e => e.fails = true) w w' := by
                rw [hstate]
                exact LogsSome.logs_trans (smooth_reading entry p)
                  (LogsSome.emit rfl)
              rcases failing_of_logsSome hlogs with ⟨call, hmem, hfails⟩
              rw [hok call hmem] at hfails
              cases hfails
          | some k =>
              have hcount := toInt32_accepted haccepts.symm
              simp only [sendResult] at hnumber
              omega

theorem successfulReturn_listen : SuccessfulReturn .listen [] := by
  have hrun : (runFrom (step .unix) initialWorld
      (createFirst { handle := some 3, malloc := some 16 })).map (fun w =>
        match callFunction .unix {} [.lightuserdata (.block 16)] .listen w with
        | .ok reply w' =>
            (({} : Env).admissible .unix w, decide (reply = .values []),
              (osCalls w w').all OsCall.ok)
        | .error _ _ => (false, false, false)) = some (true, true, true) := by
    decide +kernel
  rcases Option.map_eq_some_iff.mp hrun with ⟨w, hreach, hcall⟩
  cases hresult : callFunction .unix {} [.lightuserdata (.block 16)] .listen w with
  | error exit w' =>
      rw [hresult] at hcall
      cases hcall
  | ok reply w' =>
      rw [hresult] at hcall
      simp only [Prod.mk.injEq, decide_eq_true_eq, List.all_eq_true] at hcall
      rcases hcall with ⟨hadm, rfl, hok⟩
      exact ⟨.unix, w, .call .listen [.lightuserdata (.block 16)] {},
        ⟨.call .listen, _, {}, w⟩, w', ⟨_, hreach⟩, rfl, rfl, hadm, hresult, hok⟩

theorem failing_afterStatus {caller : Caller} {op : OsOp} {h status : Int}
    {update : OsSocket -> OsSocket} (hfails : w.statusOf h status ≠ noError) :
    LogsSome (fun e => e.fails = true) w
      (w.afterStatus caller op h status update) := by
  refine ⟨_, afterStatus_log, _, List.mem_singleton_self _, ?_⟩
  simp [osEvent, Event.fails, hfails]

/-- A `listen` that fails in the system returns as one that succeeds. -/
theorem listen_silent {p : Ptr}
    (hderefs : w.derefs plat env args (.call .listen) = some p)
    (hfails : w.statusOf (w.infoAt env p).hSocket env.status ≠ noError)
    (h : Outcome plat env args w (.call .listen) r) :
    exists v, r = .ok (.values []) v ∧
      LogsSome (fun e => e.fails = true) w v := by
  have hne := ne_null_of_passes
    (checks_call.mp (derefs_call_checks (by simp) hderefs)).2.2
  rw [← statusOf_reading (.call .listen) p] at hfails
  cases acted_of_derefs rfl hderefs hne h with
  | listened =>
      exact ⟨_, rfl, LogsSome.logs_trans (smooth_reading (.call .listen) p)
        (failing_afterStatus hfails)⟩

theorem failureVisible_iff {c : Invocation} (hclose : c.f ≠ .close)
    (hcollect : c.f ≠ .onCollectSocket)
    (hadm : c.env.admissible plat c.start = true) :
    c.FailureVisible plat <-> c.ListenSucceeds plat := by
  have houtcome := @enter_outcome plat c.env c.args c.start hadm c.entry
  unfold Invocation.FailureVisible
  generalize enter plat c.env c.args c.entry c.start = r at houtcome
  constructor
  · intro hvisible hf p hderefs
    by_contra hfails
    rw [entry_of_listen hf] at houtcome
    rcases listen_silent hderefs hfails houtcome with ⟨v, rfl, hlogs⟩
    rcases hvisible (failing_of_logsSome hlogs) with ⟨e, u, hraise⟩ |
      ⟨vs, u, hvalues, hno⟩
    · cases hraise
    · cases hvalues
      exact hno (hf ▸ successfulReturn_listen)
  · rintro hlisten ⟨call, hmem, hfails⟩
    have hstatus : c.f = .listen -> forall p,
        c.start.derefs plat c.env c.args (.call .listen) = some p ->
        c.start.statusOf (c.start.infoAt c.env p).hSocket c.env.status =
          noError := hlisten
    rcases outcome_failures hstatus hclose hcollect houtcome with hsmooth |
      hraise | ⟨hf, u, hvalues⟩
    · rw [hsmooth.all_ok hmem] at hfails
      cases hfails
    · exact Or.inl hraise
    · right
      refine ⟨_, u, hvalues, ?_⟩
      rw [show c.f = .send from hf]
      exact not_successfulReturn_failedSend

theorem failuresVisible_iff {w' : World} {a : Action}
    (hstep : step plat w a = some w') :
    FailuresVisible plat w a <-> ListenSucceeds plat w a := by
  constructor
  · intro h c hcall hf
    have hadm := (step_of_invocation hcall hstep).1
    have hvisible := h c hcall (by simp [hf]) (by simp [hf])
    exact (failureVisible_iff (by simp [hf]) (by simp [hf]) hadm).mp hvisible hf
  · intro h c hcall hclose hcollect
    have hadm := (step_of_invocation hcall hstep).1
    exact (failureVisible_iff hclose hcollect hadm).mpr (h c hcall)

end Failures

/-!
# Marks of the system's sockets
-/

/-- What a normal return of the function says about the system's socket. -/
def CFunction.mark : CFunction -> OsSocket -> Bool
  | .bind, s => s.bound
  | .listen, s => s.listening
  | _, _ => true

/-- No record is changed and no mark is lost. -/
structure Carries (w v : World) : Prop where
  records : forall a rec, v.records a = some rec ->
    w.records a = some rec ∨ rec.serial = w.nextRecord
  marks : forall h s s', w.handles h = some s -> v.handles h = some s' ->
    forall g : CFunction, g.mark s = true -> g.mark s' = true

section Marks

variable {plat : Platform} {env : Env} {args : List Value} {w v : World}
variable {f : CFunction} {entry : Entry}
variable {r : EStateM.Result Exit World Reply}

theorem Carries.of_eq (hrecords : v.records = w.records)
    (hhandles : v.handles = w.handles) : Carries w v where
  records := by
    intro a rec hrec
    rw [hrecords] at hrec
    exact Or.inl hrec
  marks := by
    intro h s s' hs hs' g hmark
    rw [hhandles, hs] at hs'
    cases hs'
    exact hmark

theorem carries_afterStatus {caller : Caller} {op : OsOp} {h status : Int}
    {update : OsSocket -> OsSocket}
    (hupdate : forall s (g : CFunction), g.mark s = true ->
      g.mark (update s) = true) :
    Carries w (w.afterStatus caller op h status update) := by
  unfold World.afterStatus
  split
  · exact Carries.of_eq rfl rfl
  · rename_i s hs
    split
    · refine ⟨fun a rec hrec => Or.inl hrec, ?_⟩
      intro i x x' hx hx' g hmark
      change (if i = h then some (update s) else w.handles i) = some x' at hx'
      by_cases hi : i = h
      · rw [if_pos hi, Option.some.injEq] at hx'
        rw [hi, hs, Option.some.injEq] at hx
        rw [← hx', hx]
        exact hupdate x g hmark
      · rw [if_neg hi, hx] at hx'
        cases hx'
        exact hmark
    · exact Carries.of_eq rfl rfl

/-- Only what the relation looks at matters in the first state. -/
theorem Carries.start {u : World} (h : Carries v u)
    (hrecords : v.records = w.records) (hhandles : v.handles = w.handles)
    (hnext : v.nextRecord = w.nextRecord) : Carries w u where
  records := by
    intro a rec hrec
    rw [← hrecords, ← hnext]
    exact h.records a rec hrec
  marks := by
    intro i s s' hs
    rw [← hhandles] at hs
    exact h.marks i s s' hs

theorem carries_delivered {caller : Caller} {op : OsOp} {arg : Option Int}
    {h : Int} (hfree : w.handles h = none) :
    Carries w (w.delivered caller op arg h) where
  records := fun a rec hrec => Or.inl hrec
  marks := by
    intro i s s' hs hs' g hmark
    change (if i = h then _ else w.handles i) = some s' at hs'
    by_cases hi : i = h
    · rw [hi, hfree] at hs
      cases hs
    · rw [if_neg hi, hs] at hs'
      cases hs'
      exact hmark

theorem Carries.withRecord {u : World} {a : Nat} {info : SocketInfo}
    (h : Carries w u) (hnext : u.nextRecord = w.nextRecord) :
    Carries w (u.withRecord a info) where
  records := by
    intro b rec hrec
    change (if b = a then _ else u.records b) = some rec at hrec
    by_cases hb : b = a
    · rw [if_pos hb, Option.some.injEq] at hrec
      rw [← hrec]
      exact Or.inr hnext
    · rw [if_neg hb] at hrec
      exact h.records b rec hrec
  marks := h.marks

theorem carries_closing {caller : Caller} {h : Int} :
    Carries w (w.closing caller h) where
  records := by
    intro a rec hrec
    apply Or.inl
    rcases @closing_records w caller h a with hsame | hnone
    · rw [← hsame]
      exact hrec
    · rw [hnone] at hrec
      cases hrec
  marks := by
    intro i s s' hs hs' g hmark
    have hkept := (handles_of_closing hs').2
    rw [hs] at hkept
    cases hkept
    exact hmark

theorem mark_setBound (s : OsSocket) (g : CFunction) (h : g.mark s = true) :
    g.mark (setBound s) = true := by
  cases g with
  | bind => rfl
  | listen => exact h
  | create | accept | recv | send | close | onCollectSocket => rfl

theorem mark_setListening (s : OsSocket) (g : CFunction)
    (h : g.mark s = true) : g.mark (setListening s) = true := by
  cases g with
  | bind => exact h
  | listen => rfl
  | create | accept | recv | send | close | onCollectSocket => rfl

theorem withBlock_records : (w.withBlock env).records = w.records := by
  unfold World.withBlock
  split
  · rfl
  · rfl

theorem withBlock_nextRecord :
    (w.withBlock env).nextRecord = w.nextRecord := by
  unfold World.withBlock
  split
  · rfl
  · rfl

theorem act_carries {p : Ptr} {info : SocketInfo}
    (hadm : env.admissible plat w = true)
    (h : Act plat env args p w info f r) : Carries w (finalState r) := by
  cases h with
  | bindNoMemory | acceptFailed | recvNoMemory | sent =>
      exact Carries.of_eq rfl rfl
  | bindFailed | bound =>
      exact (carries_afterStatus mark_setBound).start withBlock_records
        withBlock_handles withBlock_nextRecord
  | listened => exact carries_afterStatus mark_setListening
  | acceptNoMemory hanswer =>
      have hfree := (Env.handle_fresh hadm (acceptAnswer_handle hanswer)).2.2
      have hcarries := @carries_delivered w ⟨.accept, p⟩ .accept
        (some info.hSocket) _ hfree
      exact ⟨hcarries.records, hcarries.marks⟩
  | accepted hanswer _ hu =>
      have hfree := (Env.handle_fresh hadm (acceptAnswer_handle hanswer)).2.2
      have hcarries := @carries_delivered w ⟨.accept, p⟩ .accept
        (some info.hSocket) _ hfree
      rw [hu]
      exact Carries.withRecord ⟨hcarries.records, hcarries.marks⟩ rfl
  | recvFailed | received =>
      exact Carries.of_eq withBlock_records withBlock_handles
  | closed => exact carries_closing

theorem afterHeader_nextRecord : w.afterHeader.nextRecord = w.nextRecord := by
  unfold World.afterHeader
  split
  · rfl
  · rfl

theorem outcome_carries (hadm : env.admissible plat w = true)
    (h : Outcome plat env args w entry r) : Carries w (finalState r) := by
  have hheader : env.admissible plat w.afterHeader = true := by
    rw [admissible_of_resources afterHeader_records afterHeader_handles
      afterHeader_blocks]
    exact hadm
  cases h with
  | initFailed | collectNull => exact Carries.of_eq rfl rfl
  | rejected | createFailed =>
      exact Carries.of_eq afterHeader_records afterHeader_handles
  | @converting f p =>
      exact Carries.of_eq (checked_records (.call f) p)
        (checked_handles (.call f) p)
  | invalid => exact Carries.of_eq (checked_records _ _) (checked_handles _ _)
  | @acted _ p _ _ _ _ hact =>
      rw [← admissible_reading entry p] at hadm
      exact (act_carries hadm hact).start (checked_records entry p)
        (checked_handles entry p)
        (checked_keeps World.nextRecord (fun _ _ => rfl) afterHeader_nextRecord)
  | resumedNull => exact Carries.of_eq rfl rfl
  | @freed buff =>
      cases buff with
      | none | some => exact Carries.of_eq rfl rfl
  | createNoMemory _ hhandle =>
      have hcarries := @carries_delivered w.afterHeader ⟨.create, .null⟩
        createOp none _ (Env.handle_fresh hheader hhandle).2.2
      exact hcarries.start afterHeader_records afterHeader_handles
        afterHeader_nextRecord
  | created _ hhandle _ hu =>
      have hcarries := @carries_delivered w.afterHeader ⟨.create, .null⟩
        createOp none _ (Env.handle_fresh hheader hhandle).2.2
      rw [hu]
      exact (hcarries.start afterHeader_records afterHeader_handles
        afterHeader_nextRecord).withRecord afterHeader_nextRecord
  | @collected p =>
      have hclosing := @carries_closing (w.afterRead p)
        ⟨.onCollectSocket, p⟩ (w.infoAt env p).hSocket
      exact hclosing.start rfl rfl rfl

theorem afterStatus_updated {caller : Caller} {op : OsOp} {h status : Int}
    {update : OsSocket -> OsSocket} {s : OsSocket}
    (hok : w.statusOf h status = noError)
    (hs : (w.afterStatus caller op h status update).handles h = some s) :
    exists x, s = update x := by
  unfold World.statusOf at hok
  unfold World.afterStatus at hs
  split at hok
  · cases hok
  · rename_i x hx
    simp only [hx, hok, if_true] at hs
    change (if h = h then some (update x) else w.handles h) = some s at hs
    rw [if_pos rfl, Option.some.injEq] at hs
    exact ⟨x, hs.symm⟩

theorem outcome_marked {vs : List Value} (hf : entry.f.takesSocket = true)
    (hlisten : entry.f = .listen -> forall p,
      w.derefs plat env args (.call .listen) = some p ->
      w.statusOf (w.infoAt env p).hSocket env.status = noError)
    (h : Outcome plat env args w entry (.ok (.values vs) v)) :
    (forall s, entry.f.mark s = true) ∨
    exists p, w.derefs plat env args entry = some p ∧
      forall s, v.handles (w.infoAt env p).hSocket = some s ->
        entry.f.mark s = true := by
  cases h with
  | @acted _ p _ hsocket hderefs _ hact =>
      refine Or.inr ⟨p, hderefs, ?_⟩
      intro s hs
      generalize hg : entry.f = g at hact
      cases hact with
      | bound _ _ hok =>
          rw [← @statusOf_withBlock env] at hok
          rcases afterStatus_updated hok hs with ⟨x, rfl⟩
          rfl
      | listened =>
          have hok := hlisten hg p (entry_of_listen hg ▸ hderefs)
          rw [← statusOf_reading entry p] at hok
          rcases afterStatus_updated hok hs with ⟨x, rfl⟩
          rfl
      | sent | closed => rfl
  | freed => exact Or.inl fun _ => rfl
  | collected => cases hf

end Marks

/-!
# Runs
-/

section Runs

variable {plat : Platform} {w w' : World} {a : Action} {c : Invocation}

/-- Every returned operation on a live record has left its mark. -/
structure Marked (w : World) : Prop where
  marks : forall (f : CFunction) a rec s, w.records a = some rec ->
    w.handles rec.info.hSocket = some s ->
    Event.returned f (some rec.serial) ∈ w.log -> f.mark s = true
  serial_lt : forall f serial,
    Event.returned f (some serial) ∈ w.log -> serial < w.nextRecord

theorem Marked.congr {P : Event -> Prop} (h : Marked w)
    (hrecords : w'.records = w.records) (hhandles : w'.handles = w.handles)
    (hnext : w'.nextRecord = w.nextRecord) (hlogs : Logs P w w')
    (hP : forall f serial, ¬P (.returned f serial)) : Marked w' := by
  have hlog : forall f serial, Event.returned f serial ∈ w'.log ->
      Event.returned f serial ∈ w.log := by
    intro f serial hmem
    rcases hlogs with ⟨es, hes, hes'⟩
    rw [hes] at hmem
    rcases List.mem_append.mp hmem with hold | hnew
    · exact hold
    · exact absurd (hes' _ hnew) (hP f serial)
  exact
    { marks := by
        intro f a rec s hrec hs hmem
        rw [hrecords] at hrec
        rw [hhandles] at hs
        exact h.marks f a rec s hrec hs (hlog _ _ hmem)
      serial_lt := by
        intro f serial hmem
        rw [hnext]
        exact h.serial_lt f serial (hlog _ _ hmem) }

theorem records_performCall :
    (c.start.performCall plat c.entry c.args c.env).records =
      (finalState (enter plat c.env c.args c.entry c.start)).records := by
  unfold World.performCall
  rcases enter plat c.env c.args c.entry c.start with ⟨⟨⟩, _⟩ | ⟨⟨⟩, _⟩ <;> rfl

theorem handles_performCall :
    (c.start.performCall plat c.entry c.args c.env).handles =
      (finalState (enter plat c.env c.args c.entry c.start)).handles := by
  unfold World.performCall
  rcases enter plat c.env c.args c.entry c.start with ⟨⟨⟩, _⟩ | ⟨⟨⟩, _⟩ <;> rfl

theorem handle_of_record {addr : Nat} {rec : SocketRecord}
    (hsound : w.accounts.Sound) (hrec : w.records addr = some rec) :
    exists s, w.handles rec.info.hSocket = some s ∧ s.inst = rec.inst :=
  Option.map_eq_some_iff.mp (instAt_of_sound hsound hrec)

theorem record_unique {addr addr' : Nat} {rec rec' : SocketRecord}
    (hsound : w.accounts.Sound) (hrec : w.records addr = some rec)
    (hrec' : w.records addr' = some rec') (hserial : rec.serial = rec'.serial) :
    rec = rec' := by
  have hlive := live_of_record hrec
  rw [hserial] at hlive
  have haddr := hsound.owners.live_injective hlive (live_of_record hrec')
  rw [haddr, hrec', Option.some.injEq] at hrec
  exact hrec.symm

theorem mark_of_not_takesSocket {f : CFunction} (hf : f.takesSocket ≠ true)
    (s : OsSocket) : f.mark s = true := by
  cases f with
  | create | onCollectSocket => rfl
  | bind | listen | accept | recv | send | close => exact absurd rfl hf

theorem mark_of_values {vs : List Value} {v : World} {addr : Nat}
    {rec : SocketRecord} {s : OsSocket} (hsound : c.start.accounts.Sound)
    (hlive : c.ReadsLive plat) (hlisten : c.ListenSucceeds plat)
    (hchecked : c.f ≠ .onCollectSocket -> c.Checked plat)
    (houtcome : Outcome plat c.env c.args c.start c.entry (.ok (.values vs) v))
    (hserial : some rec.serial =
      c.start.serialAt (c.args.headD .nil).toUserdata)
    (hrec : c.start.records addr = some rec)
    (hs : v.handles rec.info.hSocket = some s) : c.f.mark s = true := by
  by_cases hf : c.f.takesSocket = true
  · rcases outcome_marked hf hlisten houtcome with hany |
      ⟨p, hderefs, hmark⟩
    · exact hany s
    have hsocket := ((hchecked fun hcollect => by
      rw [hcollect] at hf
      cases hf).socket p hderefs).2
    rcases Option.isSome_iff_exists.mp (hlive p hderefs) with ⟨rec', hrecord⟩
    rcases block_of_recordAt hrecord with ⟨addr', rfl, haddr'⟩
    have heq : rec = rec' := by
      apply record_unique hsound hrec haddr'
      rw [hsocket] at hserial
      unfold World.serialAt at hserial
      rw [hrecord] at hserial
      exact Option.some.inj hserial
    apply hmark s
    rw [infoAt_of_record hrecord, ← heq]
    exact hs
  · exact mark_of_not_takesSocket hf s

theorem marked_performCall (h : Marked c.start) (hsound : c.start.accounts.Sound)
    (hlive : c.ReadsLive plat) (hlisten : c.ListenSucceeds plat)
    (hchecked : c.f ≠ .onCollectSocket -> c.Checked plat)
    (hadm : c.env.admissible plat c.start = true)
    (hnext : c.start.nextRecord ≤
      (c.start.performCall plat c.entry c.args c.env).nextRecord) :
    Marked (c.start.performCall plat c.entry c.args c.env) := by
  have houtcome := @enter_outcome plat c.env c.args c.start hadm c.entry
  have hcarries := outcome_carries hadm houtcome
  have hserial_lt : forall f serial, Event.returned f (some serial) ∈
      (c.start.performCall plat c.entry c.args c.env).log ->
      serial < c.start.nextRecord := by
    intro f serial hmem
    rcases returned_performCall hadm hmem with hold | ⟨_, hserial, _⟩
    · exact h.serial_lt f serial hold
    · unfold World.serialAt at hserial
      rcases Option.map_eq_some_iff.mp hserial.symm with ⟨rec, hrec, rfl⟩
      rcases block_of_recordAt hrec with ⟨addr, _, haddr⟩
      exact hsound.owners.live_lt (live_of_record haddr)
  refine ⟨?_, fun f serial hmem =>
    Nat.lt_of_lt_of_le (hserial_lt f serial hmem) hnext⟩
  intro f addr rec s hrec hs hmem
  rw [records_performCall] at hrec
  rw [handles_performCall] at hs
  have hrec_old : c.start.records addr = some rec := by
    rcases hcarries.records addr rec hrec with hold | hnew
    · exact hold
    · have hlt := hserial_lt f _ hmem
      rw [hnew] at hlt
      exact absurd hlt (Nat.lt_irrefl _)
  rcases returned_performCall hadm hmem with hold | ⟨rfl, hserial, vs, v, hrun⟩
  · rcases handle_of_record hsound hrec_old with ⟨s', hs', _⟩
    exact hcarries.marks _ s' s hs' hs f (h.marks f addr rec s' hrec_old hs' hold)
  · rw [hrun] at houtcome hs
    exact mark_of_values hsound hlive hlisten hchecked houtcome hserial hrec_old
      hs

theorem step_marked (hpauses : w.PausesChecked) (h : Marked w)
    (hsound : w.accounts.Sound)
    (hlive : ReadsLive plat w a) (hlisten : ListenSucceeds plat w a)
    (hstep : step plat w a = some w') (hopen : ¬w'.CutOff plat) :
    Marked w' := by
  have hnext := (step_tables hstep).1.next_le
  cases step_shape hstep with
  | quiet | ended | raised | abandoned =>
      have hlogs : Logs (fun _ => False) w w := Logs.of_log_eq rfl
      exact h.congr rfl rfl rfl hlogs fun _ _ hP => hP
  | returned =>
      refine h.congr ?_ ?_ ?_ (returnFrame_logs _ _) ?_
      · rfl
      · rfl
      · rfl
      · intro f serial hP
        cases hP
  | exited =>
      rcases @exit_state plat w with ⟨L, handles, log, hexit⟩
      refine h.congr ?_ ?_ ?_ exit_logs ?_
      · rw [hexit]
      · rw [exit_handles, if_neg fun hshut => hopen (cutOff_exit hshut)]
      · rw [hexit]
      · intro f serial hP
        cases hP.1
  | called hcall hadm =>
      rcases invocation_start hcall with ⟨L, paused, hstart⟩
      apply marked_performCall _ _ (hlive _ hcall) (hlisten _ hcall)
        (checked_of_invocation hpauses hcall) hadm
      · rw [hstart] at hnext ⊢
        exact hnext
      · rw [hstart]
        exact ⟨h.marks, h.serial_lt⟩
      · rw [accounts_start hcall]
        exact hsound

theorem initialWorld_marked : Marked initialWorld where
  marks := fun f a rec s hrec => by cases hrec
  serial_lt := fun f serial hmem => by cases hmem

theorem run_marked {actions : List Action}
    (hcond : AllSteps (step plat)
      (fun w a => ReadsLive plat w a ∧ ListenSucceeds plat w a)
      initialWorld actions)
    (hrun : runFrom (step plat) initialWorld actions = some w) :
    ¬w.CutOff plat -> w.accounts.Sound ∧ Marked w := by
  refine And.right (@runFrom_invariant _ _ (step plat)
    (fun x => x.PausesChecked ∧
      (¬x.CutOff plat -> x.accounts.Sound ∧ Marked x)) _ ?_ _ _ _
    ⟨initialWorld_pausesChecked,
      fun _ => ⟨initialWorld_accounts_sound, initialWorld_marked⟩⟩ hcond hrun)
  rintro x a y ⟨hpauses, hx⟩ ⟨hlive, hlisten⟩ hstep
  refine ⟨step_pausesChecked hpauses hstep, ?_⟩
  intro hopen
  rcases hx fun hcut => hopen (cutOff_of_step hcut hstep) with
    ⟨hsound, hmarked⟩
  exact ⟨step_sound hsound hlive hstep hopen,
    step_marked hpauses hmarked hsound hlive hlisten hstep hopen⟩

theorem lifeCycle_of_marked (hreach : ReachableWorld plat w)
    (h : ¬w.CutOff plat -> w.accounts.Sound ∧ Marked w) :
    LifeCycle plat w where
  listening := by
    intro hopen addr rec hrec hbind hlisten
    rcases h hopen with ⟨hsound, hmarked⟩
    rcases handle_of_record hsound hrec with ⟨s, hs, hinst⟩
    exact ⟨s, hs, hinst, hmarked.marks _ addr rec s hrec hs hbind,
      hmarked.marks _ addr rec s hrec hs hlisten⟩
  delivered := by
    intro i hi
    apply (reachable_issuesSound hreach).delivered
    exact List.mem_append_left _ (mem_issuedIn.mpr hi)
  designates := by
    intro hopen i rec hi hrec hserial
    have htracked : i ∈ w.tracked :=
      List.mem_append_left _ (mem_issuedIn.mpr hi)
    have hlive := live_of_record hrec
    rw [hserial] at hlive
    rcases (reachable_issuesSound hreach).honoured i htracked _ hlive with
      ⟨_, x, hholds⟩
    rcases Option.map_eq_some_iff.mp hholds with ⟨rec', hrec', hx⟩
    rw [hrec, Option.some.injEq] at hrec'
    rw [← hrec', Prod.mk.injEq] at hx
    rcases handle_of_record (h hopen).1 hrec with ⟨s, hs, hinst⟩
    exact ⟨s, hs, hinst.trans hx.2⟩

end Runs

/--
Every failure is visible in exactly the runs in which no `listen` fails in the
system; the life cycles agree if, besides, no call uses a closed record.
-/
theorem failuresVisible_iff_listenSucceeds (plat : Platform)
    (actions : List Action) (w : World)
    (hrun : runFrom (step plat) initialWorld actions = some w) :
    (AllSteps (step plat) (FailuresVisible plat) initialWorld actions <->
      AllSteps (step plat) (ListenSucceeds plat) initialWorld actions) ∧
    (AllSteps (step plat)
        (fun w a => ReadsLive plat w a ∧ ListenSucceeds plat w a)
        initialWorld actions ->
      LifeCycle plat w) := by
  constructor
  · exact @allSteps_congr _ _ (step plat) (fun _ => True) _ _
      (fun _ _ _ _ hstep => failuresVisible_iff hstep)
      (fun _ _ _ _ _ _ => trivial) _ _ _ trivial hrun
  · intro hcond
    exact lifeCycle_of_marked ⟨actions, hrun⟩ (run_marked hcond hrun)

instance (plat : Platform) (w : World) (a : Action) :
    Decidable (ListenSucceeds plat w a) :=
  match hcall : w.invocation a with
  | none => isTrue fun c h => by
      rw [hcall] at h
      cases h
  | some c =>
      match hderefs : c.start.derefs plat c.env c.args (.call .listen) with
      | none => isTrue fun c' h _ p hp => by
          rw [hcall] at h
          cases h
          rw [hderefs] at hp
          cases hp
      | some p =>
          decidable_of_iff (c.f = .listen ->
            c.start.statusOf (c.start.infoAt c.env p).hSocket c.env.status =
              noError) (by
            unfold ListenSucceeds Invocation.ListenSucceeds
            simp [hcall, hderefs])

/--
`local s = socket.create() s:bind("127.0.0.1", 80) s:listen()`, where the system
answers the `listen` with the given status.
-/
def createBindListen (status : Int) : List Action :=
  createFirst { handle := some 3, malloc := some 16 } ++
    [.script (.literal (str "127.0.0.1")), .script (.literal (.number (.ofInt 80)))] ++
    callOn .bind "bind" 16 [str "127.0.0.1", .number (.ofInt 80)]
      { malloc := some 64 } ++
    callOn .listen "listen" 16 [] { status := status }

/-- A `listen` that fails returns like one that succeeds. -/
theorem listenFails_not_lifeCycle :
    ¬forall actions w,
      runFrom (step .unix) initialWorld actions = some w ->
      AllSteps (step .unix) (FailuresVisible .unix) initialWorld actions ∧
        LifeCycle .unix w := by
  intro h
  have hfacts : (runFrom (step .unix) initialWorld (createBindListen (-1))).map
      (fun w => ((w.records 16).map fun rec =>
        (decide (Event.returned .bind (some rec.serial) ∈ w.log),
          decide (Event.returned .listen (some rec.serial) ∈ w.log),
          (w.handles rec.info.hSocket).map OsSocket.listening))) =
      some (some (true, true, some false)) := by
    decide +kernel
  rcases Option.map_eq_some_iff.mp hfacts with ⟨w, hrun, hw⟩
  rcases Option.map_eq_some_iff.mp hw with ⟨rec, hrec, hevents⟩
  simp only [Prod.mk.injEq, decide_eq_true_eq] at hevents
  rcases hevents with ⟨hbind, hlisten, hhandle⟩
  rcases (h _ w hrun).2.listening (fun hcut => by cases hcut.1) 16 rec hrec hbind
      hlisten with
    ⟨s, hs, _, _, hlistening⟩
  rw [hs, Option.map_some, hlistening, Option.some.injEq] at hhandle
  cases hhandle

/-- With a `listen` that succeeds the socket is bound and listening. -/
theorem lifeCycle_createBindListen :
    exists w,
      runFrom (step .unix) initialWorld (createBindListen 0) = some w ∧
      AllSteps (step .unix) (FailuresVisible .unix) initialWorld
        (createBindListen 0) ∧
      LifeCycle .unix w := by
  have hsome : (runFrom (step .unix) initialWorld
      (createBindListen 0)).isSome = true := by
    decide +kernel
  rcases Option.isSome_iff_exists.mp hsome with ⟨w, hrun⟩
  have hmain := failuresVisible_iff_listenSucceeds .unix _ w hrun
  exact ⟨w, hrun, hmain.1.mpr (by decide +kernel), hmain.2 (by decide +kernel)⟩

end LuaServer
