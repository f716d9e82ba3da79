import LuaServer.Interpreter.Connection

/-!
# Stream integrity

The strings that `recv` returns at one end of a connection are what `send` has
reported to have sent at the other end: nothing is lost, repeated or reordered,
whatever parts the system transfers at a time.
-/

namespace LuaServer

open Library

/-- Only `send` sends and only `recv` receives. -/
def CFunction.transfers (f : CFunction) : OsOp -> Bool
  | .send _ _ _ => decide (f = .send)
  | .recv _ _ => decide (f = .recv)
  | _ => true

/-- The event is no operation, or one that the function makes. -/
def Event.MadeBy (f : CFunction) (e : Event) : Prop :=
  forall call, e.osCall? = some call -> f.transfers call.op = true

section Operations

variable {plat : Platform} {env : Env} {args : List Value} {w v : World}
variable {f : CFunction} {r : EStateM.Result Exit World Reply}

theorem madeBy_of_none {e : Event} (h : e.osCall? = none) : e.MadeBy f := by
  intro call hcall
  rw [h] at hcall
  cases hcall

theorem madeBy_osEvent {caller : Caller} {op : OsOp} {handle : Option Int}
    {opened : Option Nat} {ok : Bool} (h : f.transfers op = true) :
    (osEvent caller op handle opened ok w).MadeBy f := by
  intro call hcall
  cases hcall
  exact h

theorem act_madeBy {p : Ptr} {info : SocketInfo}
    (h : Act plat env args p v info f r) :
    Logs (Event.MadeBy f) v (finalState r) := by
  cases h with
  | bindNoMemory => exact Logs.refl v
  | bindFailed | bound =>
      exact logs_withBlock.trans (logs_afterStatus fun _ => madeBy_osEvent rfl)
  | listened => exact logs_afterStatus fun _ => madeBy_osEvent rfl
  | acceptFailed =>
      exact (Logs.emit (madeBy_osEvent rfl)).trans
        (Logs.emit (madeBy_of_none rfl))
  | acceptNoMemory =>
      exact (logs_delivered (madeBy_osEvent rfl)).trans
        (Logs.emit (madeBy_of_none rfl))
  | accepted _ _ hu =>
      rw [hu]
      exact ((logs_delivered (madeBy_osEvent rfl)).trans
        (Logs.emit (madeBy_of_none rfl))).trans (Logs.of_log_eq rfl)
  | recvFailed => exact logs_withBlock.trans (Logs.emit (madeBy_osEvent rfl))
  | recvNoMemory =>
      exact logs_received (madeBy_osEvent rfl) fun _ _ _ => madeBy_of_none rfl
  | received =>
      exact logs_withBlock.trans (logs_received (madeBy_osEvent rfl)
        fun _ _ _ => madeBy_of_none rfl)
  | sent => exact Logs.emit (madeBy_osEvent rfl)
  | closed => exact logs_closing (madeBy_osEvent rfl) (madeBy_of_none rfl)

theorem quiet_checked (entry : Entry) (p : Ptr) :
    Logs (fun e => e.osCall? = none) w (w.checked entry p) :=
  logs_checked rfl fun _ => rfl

theorem quiet_reading (entry : Entry) (p : Ptr) :
    Logs (fun e => e.osCall? = none) w (w.reading entry p) :=
  logs_reading rfl (fun _ => rfl) fun _ => rfl

theorem outcome_madeBy {entry : Entry} (h : Outcome plat env args w entry r) :
    Logs (Event.MadeBy entry.f) w (finalState r) := by
  have hheader : forall f, Logs (Event.MadeBy f) w w.afterHeader := fun _ =>
    logs_afterHeader (madeBy_of_none rfl)
  have hquiet : forall {v : World}, Logs (fun e => e.osCall? = none) w v ->
      Logs (Event.MadeBy entry.f) w v := fun hlogs =>
    hlogs.imp fun _ => madeBy_of_none
  cases h with
  | initFailed => exact Logs.emit (madeBy_of_none rfl)
  | rejected => exact hheader _
  | @converting f p => exact hquiet (quiet_checked (.call f) p)
  | @invalid _ p => exact hquiet (quiet_checked entry p)
  | @acted _ p _ _ _ _ hact =>
      exact (hquiet (quiet_reading _ p)).trans (act_madeBy hact)
  | resumedNull => exact Logs.emit (madeBy_of_none rfl)
  | freed => exact logs_withoutBlock
  | createFailed => exact (hheader _).trans (Logs.emit (madeBy_osEvent rfl))
  | createNoMemory =>
      exact (hheader _).trans (logs_delivered (madeBy_osEvent rfl))
  | @created _ _ u _ _ _ hu =>
      have hu' : Logs (Event.MadeBy .create) w u := by
        rw [hu]
        exact (hheader _).trans (logs_delivered (madeBy_osEvent rfl))
      exact hu'.trans (Logs.of_log_eq rfl)
  | collectNull => exact Logs.emit (madeBy_of_none rfl)
  | @collected p =>
      have hread : Logs (Event.MadeBy .onCollectSocket) w (w.afterRead p) :=
        Logs.emit (madeBy_of_none rfl)
      exact hread.trans (logs_closing (madeBy_osEvent rfl) (madeBy_of_none rfl))

/-- A call that does not get to a record makes no operation. -/
inductive Unread (w : World) (entry : Entry) :
    EStateM.Result Exit World Reply -> Prop where
  | error {exit : Exit} {v : World} : Unread w entry (.error exit v)
  | suspended {args' : List Value} {point : PausePoint} {v : World} :
      entry.f ≠ .recv -> Unread w entry (.ok (.paused args' point) v)
  | freed {buff : Option Nat} {s : LuaString} {v : World} :
      entry = .resume (.recv buff s) -> Unread w entry (.ok (.values [.string s]) v)

theorem outcome_transfer {entry : Entry}
    (hf : entry.f = .send ∨ entry.f = .recv)
    (h : Outcome plat env args w entry r) :
    (exists p, Act plat env args p (w.reading entry p) (w.infoAt env p)
      entry.f r) ∨ osCalls w (finalState r) = [] ∧ Unread w entry r := by
  cases h with
  | initFailed =>
      exact Or.inr ⟨osCalls_eq_nil (Logs.emit rfl), .error⟩
  | rejected => exact Or.inr ⟨osCalls_eq_nil (logs_afterHeader rfl), .error⟩
  | @converting f p _ point _ _ _ _ hpoint hsocket =>
      refine Or.inr ⟨osCalls_eq_nil (quiet_checked (.call f) p), .suspended ?_⟩
      rintro rfl
      cases point with
      | bind | send => cases hpoint
      | recv => cases hsocket
  | @invalid _ p =>
      exact Or.inr ⟨osCalls_eq_nil (quiet_checked entry p), .error⟩
  | acted _ _ _ hact => exact Or.inl ⟨_, hact⟩
  | resumedNull => exact Or.inr ⟨osCalls_eq_nil (Logs.emit rfl), .error⟩
  | freed => exact Or.inr ⟨osCalls_eq_nil logs_withoutBlock, .freed rfl⟩
  | createFailed | createNoMemory | created | collectNull | collected =>
      simp [Entry.f] at hf

theorem transfers_of_mem (h : Logs (Event.MadeBy f) w v) {call : OsCall}
    (hmem : call ∈ osCalls w v) : f.transfers call.op = true := by
  rcases h with ⟨es, hes, hmade⟩
  rw [osCalls_of_log hes] at hmem
  rcases List.mem_filterMap.mp hmem with ⟨e, he, hcall⟩
  exact hmade e he call hcall

theorem taken_eq_nil (inst : Nat) (hf : f ≠ .send)
    (h : Logs (Event.MadeBy f) w v) :
    (osCalls w v).filterMap (OsCall.taken? inst) = [] := by
  rw [List.filterMap_eq_nil_iff]
  intro call hmem
  have htransfers := transfers_of_mem h hmem
  unfold OsCall.taken?
  cases hop : call.op with
  | send =>
      rw [hop] at htransfers
      exact absurd (of_decide_eq_true htransfers) hf
  | socket | bind | listen | accept | recv | close => rfl

theorem handed_eq_nil (inst : Nat) (hf : f ≠ .recv)
    (h : Logs (Event.MadeBy f) w v) :
    (osCalls w v).filterMap (OsCall.handed? inst) = [] := by
  rw [List.filterMap_eq_nil_iff]
  intro call hmem
  have htransfers := transfers_of_mem h hmem
  unfold OsCall.handed?
  cases hop : call.op with
  | recv =>
      rw [hop] at htransfers
      exact absurd (of_decide_eq_true htransfers) hf
  | socket | bind | listen | accept | send | close => rfl

end Operations

/-!
# One call of send
-/

section Send

variable {plat : Platform} {c : Invocation} {inst : Nat}

theorem send?_of_ne (hf : c.f ≠ .send) : c.send? plat inst = none := by
  unfold Invocation.send?
  split
  · contradiction
  · rfl

theorem send?_of_other
    (hother : forall result v,
      enter plat c.env c.args c.entry c.start ≠ .ok (.values [result]) v) :
    c.send? plat inst = none := by
  unfold Invocation.send?
  split
  · rename_i hrun
    exact absurd hrun (hother _ _)
  · rfl

theorem send?_of_ok {text : LuaString} {result : Value} {v : World}
    (hf : c.f = .send) (htext : luaLChecklstring c.args 2 = .ok text)
    (hrun : enter plat c.env c.args c.entry c.start =
      .ok (.values [result]) v) :
    c.send? plat inst =
      if usesEnd inst c.start v then some ⟨text, result⟩ else none := by
  unfold Invocation.send?
  rw [hrun, htext, hf]

theorem sentPrefix_ofInt (text : LuaString) (n : Int) :
    SendCall.sentPrefix ⟨text, .number (.ofInt n)⟩ = text.take n.toNat := by
  show text.take (LuaNumber.truncate (n : Rat)).toNat = _
  rw [LuaNumber.truncate_intCast]

/-- The number that `send` returns tells which prefix the system has taken. -/
theorem sent_call {w : World} {env : Env} {h : Int} {data : LuaString}
    {accepts : Option Nat}
    (haccepts : accepts = w.sendAccepts env h (toInt32 data.length)) :
    SendCall.Counts ⟨data, .number (.ofInt (toInt32 (sendResult accepts)))⟩ ∧
      SendCall.sentPrefix
          ⟨data, .number (.ofInt (toInt32 (sendResult accepts)))⟩ =
        if accepts.isSome then data.take (accepts.getD 0) else [] := by
  rw [sentPrefix_ofInt]
  cases accepts with
  | none =>
      constructor
      · exact Or.inl rfl
      · rfl
  | some k =>
      have hresult : toInt32 (sendResult (some k)) = k :=
        toInt32_accepted haccepts.symm
      rw [hresult]
      constructor
      · exact Or.inr ⟨k, accepted_le_length haccepts.symm, rfl⟩
      · rfl

theorem osCalls_osLogged {u w : World} {caller : Caller} {op : OsOp} {h : Int}
    {ok : Bool} (hquiet : Logs (fun e => e.osCall? = none) w u) :
    osCalls w (u.osLogged caller op (some h) none ok) =
      [{ caller := caller.f, via := caller.via, op := op, handle := some h,
         inst := u.instAt h, ok := ok }] := by
  have hlog : (u.osLogged caller op (some h) none ok).log =
      u.log ++ [osEvent caller op (some h) none ok u] := rfl
  rw [osCalls_of_quiet hquiet hlog]
  rfl

theorem send_taken (hadm : c.env.admissible plat c.start = true) {v : World}
    (hv : v = finalState (enter plat c.env c.args c.entry c.start)) :
    (c.send? plat inst = none ∧
        (osCalls c.start v).filterMap (OsCall.taken? inst) = []) ∨
      exists s, c.send? plat inst = some s ∧ s.Counts ∧
        ((osCalls c.start v).filterMap (OsCall.taken? inst)).flatten =
          s.sentPrefix := by
  have houtcome := @enter_outcome plat c.env c.args c.start hadm c.entry
  by_cases hf : c.f = .send
  · have hother := @send?_of_other plat c inst
    have hok := @send?_of_ok plat c inst
    generalize enter plat c.env c.args c.entry c.start = r at houtcome hother hok hv
    rcases outcome_transfer (Or.inl hf) houtcome with ⟨p, hact⟩ | ⟨hnone, hunread⟩
    · rw [show c.entry.f = .send from hf] at hact
      cases hact with
      | @sent data accepts htext haccepts =>
          rcases sent_call haccepts with ⟨hcounts, hsentPrefix⟩
          rw [hok hf htext rfl, hv]
          unfold usesEnd
          simp only [finalState, osCalls_osLogged (quiet_reading c.entry p)]
          by_cases hinst : (c.start.reading c.entry p).instAt
              (c.start.infoAt c.env p).hSocket = some inst
          · right
            refine ⟨_, by simp [hinst], hcounts, ?_⟩
            rw [hsentPrefix]
            cases accepts with
            | none => simp [OsCall.taken?]
            | some k => simp [OsCall.taken?, hinst]
          · left
            simp [OsCall.taken?, hinst]
    · left
      constructor
      · apply hother
        rintro result u rfl
        cases hunread with
        | freed hentry => simp [Invocation.f, hentry, Entry.f, PausePoint.f] at hf
      · rw [hv, hnone]
        rfl
  · left
    refine ⟨send?_of_ne hf, taken_eq_nil inst hf ?_⟩
    rw [hv]
    exact outcome_madeBy houtcome

end Send

/-!
# One call of recv
-/

section Recv

variable {plat : Platform} {c : Invocation} {inst : Nat} {atEnd : Bool}

theorem recv?_of_ne (hf : c.f ≠ .recv) : c.recv? plat inst atEnd = none := by
  unfold Invocation.recv?
  split
  · contradiction
  · rfl

theorem recv?_of_other
    (hother : forall args buff text v,
      enter plat c.env c.args c.entry c.start ≠
        .ok (.paused args (.recv buff text)) v) :
    c.recv? plat inst atEnd = none := by
  unfold Invocation.recv?
  split
  · rename_i hrun
    exact absurd hrun (hother _ _ _ _)
  · rfl

theorem recv?_of_ok {size : Int} {args : List Value} {buff : Option Nat}
    {text : LuaString} {v : World} (hf : c.f = .recv)
    (hsize : luaLOptint c.env c.args 2 2048 = .ok size)
    (hrun : enter plat c.env c.args c.entry c.start =
      .ok (.paused args (.recv buff text)) v) :
    c.recv? plat inst atEnd =
      if usesEnd inst c.start v then some ⟨c.args[1]?, size, text, atEnd⟩
      else none := by
  unfold Invocation.recv?
  rw [hrun, hsize, hf]

theorem returned?_of_ok {text : LuaString} {v : World} (hf : c.f = .recv)
    (hrun : enter plat c.env c.args c.entry c.start =
      .ok (.values [.string text]) v) : c.returned? plat = some text := by
  unfold Invocation.returned?
  rw [hrun, hf]

theorem optint_ofInt {env : Env} {args : List Value} {size n : Int}
    (hlow : -2147483648 ≤ n) (hhigh : n ≤ 2147483647)
    (harg : args[1]? = some (.number (.ofInt n)))
    (h : luaLOptint env args 2 2048 = .ok size) : size = n := by
  have hconv := LuaNumber.toInteger_ofInt env.number2integer hlow hhigh
  simp only [luaLOptint, luaLChecknumber, Nat.reduceSub, harg, Except.map,
    hconv, toInt32_of_bounds hlow hhigh] at h
  cases h
  rfl

theorem sized_of_optint {env : Env} {args : List Value} {size : Int}
    {text : LuaString} (h : luaLOptint env args 2 2048 = .ok size) :
    RecvCall.Sized ⟨args[1]?, size, text, atEnd⟩ := by
  constructor
  · rintro (hreq | hreq)
    · change args[1]? = none at hreq
      simp only [luaLOptint, Nat.reduceSub, hreq] at h
      cases h
      rfl
    · change args[1]? = some .nil at hreq
      simp only [luaLOptint, Nat.reduceSub, hreq] at h
      cases h
      rfl
  · intro n hlow hhigh hreq
    exact optint_ofInt hlow hhigh hreq h

theorem recv?_facts {r : RecvCall} (h : c.recv? plat inst atEnd = some r) :
    r.Sized ∧ r.atEnd = atEnd ∧ exists args buff v,
      enter plat c.env c.args c.entry c.start =
        .ok (.paused args (.recv buff r.text)) v := by
  unfold Invocation.recv? at h
  split at h
  · rename_i hsize hrun
    split at h
    · cases h
      exact ⟨sized_of_optint hsize, rfl, _, _, _, hrun⟩
    · cases h
  · cases h

theorem osCalls_received {w u : World} {p : Ptr} {env : Env} {h size : Int}
    {data : LuaString} (hquiet : Logs (fun e => e.osCall? = none) w u) :
    osCalls w (u.received ⟨.recv, p⟩ env h size data) =
      [{ caller := .recv, via := p, op := .recv size data, handle := some h,
         inst := u.instAt h, ok := true }] := by
  have hlog : (u.received ⟨.recv, p⟩ env h size data).log =
      u.log ++ [osEvent ⟨.recv, p⟩ (.recv size data) (some h) none true u,
        .store 0 data.length (bufferSize env size),
        .store data.length 1 (bufferSize env size)] := by
    unfold World.received World.osLogged World.emit
    simp
  rw [osCalls_of_quiet hquiet hlog]
  rfl

theorem handed_singleton {call : OsCall} {size : Int} {data : LuaString}
    {d : Int × LuaString} (hop : call.op = .recv size data)
    (hd : d ∈ [call].filterMap (OsCall.handed? inst)) : d.2 = data := by
  rcases List.mem_filterMap.mp hd with ⟨call', hmem, hhanded⟩
  rw [List.mem_singleton.mp hmem] at hhanded
  unfold OsCall.handed? at hhanded
  rw [hop] at hhanded
  simp only at hhanded
  split at hhanded
  · cases hhanded
    rfl
  · cases hhanded

/-- Without a buffer the system can hand over nothing. -/
theorem recvData_of_no_malloc {w : World} {env : Env} {h size : Int}
    {data : LuaString} (hmalloc : env.malloc = none)
    (hdata : w.recvData env h size = some data) : data = [] := by
  unfold World.recvData at hdata
  split at hdata
  · split at hdata
    · cases hdata
    · rename_i hnot
      cases hdata
      by_contra hne
      exact hnot (Or.inr ⟨hmalloc, hne⟩)
  · cases hdata

theorem recv_handed (hadm : c.env.admissible plat c.start = true) {v : World}
    (hv : v = finalState (enter plat c.env c.args c.entry c.start)) :
    (c.recv? plat inst atEnd = none ∧
        forall d, d ∈ (osCalls c.start v).filterMap (OsCall.handed? inst) ->
          d.2 = []) ∨
      exists r, c.recv? plat inst atEnd = some r ∧
        (osCalls c.start v).filterMap (OsCall.handed? inst) =
          [(r.size, r.text)] := by
  have houtcome := @enter_outcome plat c.env c.args c.start hadm c.entry
  by_cases hf : c.f = .recv
  · have hother := @recv?_of_other plat c inst atEnd
    have hok := @recv?_of_ok plat c inst atEnd
    generalize enter plat c.env c.args c.entry c.start = r at houtcome hother hok hv
    rcases outcome_transfer (Or.inr hf) houtcome with ⟨p, hact⟩ | ⟨hnone, hunread⟩
    · have hblock : Logs (fun e => e.osCall? = none) c.start
          ((c.start.reading c.entry p).withBlock c.env) :=
        (quiet_reading c.entry p).trans logs_withBlock
      rw [show c.entry.f = .recv from hf] at hact
      cases hact with
      | recvFailed =>
          left
          refine ⟨hother (by simp), ?_⟩
          rw [hv]
          simp only [finalState, osCalls_osLogged hblock]
          simp [OsCall.handed?]
      | recvNoMemory _ hdata hmalloc =>
          left
          refine ⟨hother (by simp), ?_⟩
          intro d hd
          rw [hv] at hd
          simp only [finalState, osCalls_received (quiet_reading c.entry p)] at hd
          exact (handed_singleton rfl hd).trans
            (recvData_of_no_malloc hmalloc hdata)
      | received hsize =>
          rw [hok hf hsize rfl, hv]
          unfold usesEnd
          simp only [finalState, osCalls_received hblock]
          by_cases hinst : ((c.start.reading c.entry p).withBlock c.env).instAt
              (c.start.infoAt c.env p).hSocket = some inst
          · right
            simp [OsCall.handed?, hinst]
          · left
            simp [OsCall.handed?, hinst]
    · left
      constructor
      · apply hother
        rintro args buff text u rfl
        cases hunread with
        | suspended hne => exact hne hf
      · rw [hv, hnone]
        exact fun d hd => by cases hd
  · left
    refine ⟨recv?_of_ne hf, ?_⟩
    rw [hv, handed_eq_nil inst hf (outcome_madeBy houtcome)]
    exact fun d hd => by cases hd

end Recv

/-!
# Runs of the two programs
-/

section Runs

variable {ends : Ends} {L L' : Link} {a : LinkAction}

theorem handOver_eq_some {atEnd : Bool} {queue rest : LuaString}
    {d : Int × LuaString} (h : handOver atEnd queue d = some rest) :
    queue = d.2 ++ rest ∧ (1 ≤ d.1 -> d.2 = [] -> atEnd = true) := by
  unfold handOver at h
  split at h
  · rename_i hcond
    rw [Bool.and_eq_true, List.isPrefixOf_iff_prefix] at hcond
    rcases hcond with ⟨⟨rest', hrest⟩, hallowed⟩
    cases h
    constructor
    · rw [← hrest, List.drop_left]
    · intro hsize hempty
      simpa [hempty, not_lt.mpr hsize] using hallowed
  · cases h

theorem foldlM_handOver_empty {atEnd : Bool} {queue rest : LuaString}
    {ds : List (Int × LuaString)} (hempty : forall d, d ∈ ds -> d.2 = [])
    (h : ds.foldlM (handOver atEnd) queue = some rest) : rest = queue := by
  induction ds generalizing queue with
  | nil =>
      cases h
      rfl
  | cons d ds ih =>
      rw [List.foldlM_cons] at h
      rcases Option.bind_eq_some_iff.mp h with ⟨mid, hmid, hrest⟩
      have hqueue := (handOver_eq_some hmid).1
      rw [hempty d List.mem_cons_self, List.nil_append] at hqueue
      rw [hqueue]
      exact ih (fun d' hd' => hempty d' (List.mem_cons_of_mem _ hd')) hrest

/-- The call of `recv` that a suspended call is, if it is one, has its string. -/
def HoldsString (r : Option RecvCall) (p : Paused) : Prop :=
  forall call, r = some call -> exists buff, p.point = .recv buff call.text

/-- What the histories of a link tell in every state. -/
structure Link.Sound (L : Link) : Prop where
  conserved : L.channel.Conserved RecvCall.text
  accounted : L.channel.Accounted
  holds : List.Forall₂ HoldsString L.held L.receiver.paused
  counts : forall s, s ∈ L.sends -> s.Counts
  sized : forall r, r ∈ L.recvs -> r.Sized
  ended : forall r, r ∈ L.recvs -> 1 ≤ r.size -> r.text = [] -> r.atEnd = true

theorem step_taken {plat : Platform} {inst : Nat} {w w' : World} {b : Action}
    (hstep : step plat w b = some w') :
    ((w.invocation b).bind (Invocation.send? plat inst) = none ∧
        (osCalls w w').filterMap (OsCall.taken? inst) = []) ∨
      exists s, (w.invocation b).bind (Invocation.send? plat inst) = some s ∧
        s.Counts ∧
        ((osCalls w w').filterMap (OsCall.taken? inst)).flatten =
          s.sentPrefix := by
  cases hcall : w.invocation b with
  | none =>
      left
      rw [osCalls_of_no_invocation hcall hstep]
      exact ⟨rfl, rfl⟩
  | some c =>
      rw [osCalls_of_invocation hcall hstep]
      exact send_taken (step_of_invocation hcall hstep).1 rfl

theorem step_handed {b : Action} {w : World}
    (hstep : step ends.recvPlat L.receiver b = some w) :
    (L.recv? ends b = none ∧
        forall d, d ∈ (osCalls L.receiver w).filterMap
          (OsCall.handed? ends.recvInst) -> d.2 = []) ∨
      exists r, L.recv? ends b = some r ∧ r.Sized ∧ r.atEnd = L.atEnd ends ∧
        (osCalls L.receiver w).filterMap (OsCall.handed? ends.recvInst) =
          [(r.size, r.text)] := by
  unfold Link.recv?
  cases hcall : L.receiver.invocation b with
  | none =>
      left
      rw [osCalls_of_no_invocation hcall hstep]
      exact ⟨rfl, fun d hd => by cases hd⟩
  | some c =>
      rw [osCalls_of_invocation hcall hstep]
      rcases @recv_handed ends.recvPlat c ends.recvInst (L.atEnd ends)
          (step_of_invocation hcall hstep).1 _ rfl with hnone | ⟨r, hr, hhanded⟩
      · exact Or.inl hnone
      · rcases recv?_facts hr with ⟨hsized, hatEnd, _⟩
        exact Or.inr ⟨r, hr, hsized, hatEnd, hhanded⟩

theorem handed_of_recv? {b : Action} {w : World} {r : RecvCall}
    (hstep : step ends.recvPlat L.receiver b = some w)
    (hsome : L.recv? ends b = some r) :
    r.Sized ∧ r.atEnd = L.atEnd ends ∧
      (osCalls L.receiver w).filterMap (OsCall.handed? ends.recvInst) =
        [(r.size, r.text)] := by
  rcases step_handed hstep with ⟨hnone, _⟩ | ⟨r', hsome', hfacts⟩
  · rw [hnone] at hsome
    cases hsome
  · rw [hsome'] at hsome
    cases hsome
    exact hfacts

theorem sender_channel {b : Action}
    (hstep : L.step ends (.sender b) = some L') :
    Channel.Step RecvCall.text L.channel L'.channel := by
  rcases Option.map_eq_some_iff.mp hstep with ⟨w, hw, rfl⟩
  rcases @step_taken _ ends.sendInst _ _ _ hw with
    ⟨hnone, htaken⟩ | ⟨s, hsome, _, htaken⟩
  · rw [hnone, htaken]
    simp only [List.flatten_nil, List.append_nil, Option.toList_none]
    exact .idle
  · have hput : Channel.Step RecvCall.text L.channel _ := .put s.sentPrefix
    rw [hsome, htaken]
    simp only [Option.toList_some, Link.channel, List.map_append,
      List.map_singleton]
    exact hput

theorem sender_sound {b : Action} (h : L.Sound)
    (hstep : L.step ends (.sender b) = some L') : L'.Sound := by
  have hchannel := sender_channel hstep
  rcases Option.map_eq_some_iff.mp hstep with ⟨w, hw, rfl⟩
  refine ⟨hchannel.conserved h.conserved, hchannel.accounted h.accounted,
    h.holds, ?_, h.sized, h.ended⟩
  intro s' hs'
  rcases List.mem_append.mp hs' with hold | hnew
  · exact h.counts s' hold
  · rcases @step_taken _ ends.sendInst _ _ _ hw with ⟨hnone, _⟩ | ⟨s, hsome, hcounts, _⟩
    · rw [hnone] at hnew
      cases hnew
    · rw [hsome] at hnew
      rw [List.mem_singleton.mp hnew]
      exact hcounts

/-!
# The strings that calls of recv hold
-/

theorem unfinished_of_none (h : L.topmost = none) :
    L.held.tail.filterMap id = L.unfinished := by
  unfold Link.topmost at h
  unfold Link.unfinished
  cases hheld : L.held with
  | nil => rfl
  | cons r held =>
      rw [hheld] at h
      cases r with
      | none => rfl
      | some r => cases h

theorem unfinished_of_some {r : RecvCall} (h : L.topmost = some r) :
    L.unfinished = r :: L.held.tail.filterMap id := by
  unfold Link.topmost at h
  unfold Link.unfinished
  cases hheld : L.held with
  | nil =>
      rw [hheld] at h
      cases h
  | cons r' held =>
      rw [hheld] at h
      cases r' with
      | none => cases h
      | some r' =>
          cases h
          rfl

theorem returned?_of_topmost {plat : Platform} {env : Env} {r : RecvCall}
    {p : Paused} {rest : List Paused}
    (hholds : List.Forall₂ HoldsString L.held L.receiver.paused)
    (hpaused : L.receiver.paused = p :: rest) (htop : L.topmost = some r) :
    (L.receiver.invocation (.resume env)).bind (Invocation.returned? plat) =
      some r.text := by
  unfold Link.topmost at htop
  rw [hpaused] at hholds
  cases hheld : L.held with
  | nil =>
      rw [hheld] at htop
      cases htop
  | cons r' held =>
      rw [hheld] at hholds htop
      cases hholds with
      | cons hfirst _ =>
          rcases hfirst r htop with ⟨buff, hpoint⟩
          have hrun := @recvRest_run { L.receiver with paused := rest } buff
            r.text
          unfold World.invocation
          rw [hpaused, Option.bind_some, hpoint]
          exact returned?_of_ok rfl hrun

theorem settle_channel {b : Action} {w : World}
    (hholds : List.Forall₂ HoldsString L.held L.receiver.paused)
    (hstep : step ends.recvPlat L.receiver b = some w) :
    Channel.Step RecvCall.text L.channel
      (L.settle ends.recvPlat b).channel := by
  cases b with
  | resume env =>
      rcases resume_inv hstep with ⟨_, _, p, rest, hpaused, _⟩
      unfold Link.settle Link.channel
      cases htop : L.topmost with
      | none =>
          simp only [Link.unfinished, unfinished_of_none htop,
            Option.bind_none, Option.toList_none, List.append_nil]
          exact .idle
      | some r =>
          have hheld : L.channel.held = _ := unfinished_of_some htop
          have hreturned :=
            @returned?_of_topmost L ends.recvPlat env _ _ _ hholds hpaused htop
          simp only [Option.bind_some, hreturned, Option.map_some,
            Option.toList_some]
          exact .deliver hheld
  | pausedRaise e =>
      unfold Link.settle Link.channel
      cases htop : L.topmost with
      | none =>
          simp only [Link.unfinished, unfinished_of_none htop,
            Option.toList_none, List.append_nil]
          exact .idle
      | some r =>
          have hheld : L.channel.held = _ := unfinished_of_some htop
          exact .lose hheld
  | script | call | apiArgs | api | apiRaise | collect | gctm | exit
  | closeState => exact .idle

@[simp] theorem settle_queue (plat : Platform) (b : Action) :
    (L.settle plat b).queue = L.queue := by
  cases b with
  | script | call | apiArgs | api | apiRaise | resume | pausedRaise | collect
  | gctm | exit | closeState => rfl

@[simp] theorem settle_sends (plat : Platform) (b : Action) :
    (L.settle plat b).sends = L.sends := by
  cases b with
  | script | call | apiArgs | api | apiRaise | resume | pausedRaise | collect
  | gctm | exit | closeState => rfl

@[simp] theorem settle_recvs (plat : Platform) (b : Action) :
    (L.settle plat b).recvs = L.recvs := by
  cases b with
  | script | call | apiArgs | api | apiRaise | resume | pausedRaise | collect
  | gctm | exit | closeState => rfl

theorem settle_unfinished {plat : Platform} {b : Action} :
    (L.settle plat b).unfinished.length ≤ L.unfinished.length := by
  have htail : (L.held.tail.filterMap id).length ≤ L.unfinished.length := by
    cases htop : L.topmost with
    | none => rw [unfinished_of_none htop]
    | some r =>
        rw [unfinished_of_some htop, List.length_cons]
        exact Nat.le_succ _
  cases b with
  | resume | pausedRaise => exact htail
  | script | call | apiArgs | api | apiRaise | collect | gctm | exit
  | closeState => exact Nat.le_refl _

theorem receive_unfinished {w : World} {queue : LuaString}
    {recv : Option RecvCall} :
    (L.receive w queue recv).unfinished.length ≤
      L.unfinished.length + recv.toList.length := by
  unfold Link.receive Link.unfinished
  cases recv with
  | none =>
      split
      · exact Nat.le_refl _
      · exact Nat.le_refl _
  | some r =>
      split
      · exact Nat.le_refl _
      · exact Nat.le_succ _

theorem settle_holds {plat : Platform} {b : Action}
    (hholds : List.Forall₂ HoldsString L.held L.receiver.paused) :
    List.Forall₂ HoldsString (L.settle plat b).held
      (b.leaves L.receiver.paused) := by
  have htail : List.Forall₂ HoldsString L.held.tail L.receiver.paused.tail := by
    generalize L.held = held, L.receiver.paused = paused at hholds
    cases hholds with
    | nil => exact .nil
    | cons _ hrest => exact hrest
  cases b with
  | resume | pausedRaise => exact htail
  | script | call | apiArgs | api | apiRaise | collect | gctm | exit
  | closeState => exact hholds

theorem recv?_inv {b : Action} {r : RecvCall} (h : L.recv? ends b = some r) :
    exists c, L.receiver.invocation b = some c ∧ exists args buff v,
      enter ends.recvPlat c.env c.args c.entry c.start =
        .ok (.paused args (.recv buff r.text)) v := by
  rcases Option.bind_eq_some_iff.mp h with ⟨c, hcall, hr⟩
  exact ⟨c, hcall, (recv?_facts hr).2.2⟩

theorem receive_holds {b : Action} {w : World} {queue : LuaString}
    (hholds : List.Forall₂ HoldsString L.held L.receiver.paused)
    (hstep : step ends.recvPlat L.receiver b = some w) :
    List.Forall₂ HoldsString
        ((L.settle ends.recvPlat b).receive w queue (L.recv? ends b)).held
        w.paused ∧
      (forall r, L.recv? ends b = some r ->
        (L.settle ends.recvPlat b).held.length < w.paused.length) := by
  have hsettled := @settle_holds L ends.recvPlat b hholds
  unfold Link.receive
  cases step_leaves hstep with
  | settled hother hpaused =>
      rw [hpaused]
      constructor
      · rw [if_neg (Nat.not_lt_of_le (Nat.le_of_eq hsettled.length_eq.symm))]
        exact hsettled
      · intro r hr
        rcases recv?_inv hr with ⟨c, hcall, args, buff, v, hrun⟩
        exact absurd hrun (hother c args _ v hcall)
  | suspended hcall hrun hpaused =>
      have hlt : (L.settle ends.recvPlat b).held.length < w.paused.length := by
        rw [hpaused, List.length_cons, hsettled.length_eq]
        exact Nat.lt_succ_self _
      refine ⟨?_, fun _ _ => hlt⟩
      rw [if_pos hlt, hpaused]
      refine .cons ?_ hsettled
      intro r hr
      rcases recv?_inv hr with ⟨c', hcall', args, buff, v, hrun'⟩
      rw [hcall] at hcall'
      cases hcall'
      rw [hrun] at hrun'
      exact ⟨buff, by injection hrun' with hreply; injection hreply⟩

theorem receive_channel {b : Action} {w : World} {queue : LuaString}
    (hholds : List.Forall₂ HoldsString L.held L.receiver.paused)
    (hstep : step ends.recvPlat L.receiver b = some w)
    (hfold : ((osCalls L.receiver w).filterMap
      (OsCall.handed? ends.recvInst)).foldlM (handOver (L.atEnd ends)) L.queue =
        some queue) :
    Channel.Step RecvCall.text (L.settle ends.recvPlat b).channel
      ((L.settle ends.recvPlat b).receive w queue (L.recv? ends b)).channel := by
  have hqueue := @settle_queue L ends.recvPlat b
  rcases step_handed hstep with ⟨hnone, hempty⟩ | ⟨r, hsome, _, _, hhanded⟩
  · have hsame : ((L.settle ends.recvPlat b).receive w queue
        (L.recv? ends b)).channel = (L.settle ends.recvPlat b).channel := by
      rw [foldlM_handOver_empty hempty hfold, ← hqueue, hnone]
      unfold Link.receive Link.channel Link.unfinished
      split
      · simp
      · simp
    rw [hsame]
    exact .idle
  · rw [hhanded, List.foldlM_cons] at hfold
    rcases Option.bind_eq_some_iff.mp hfold with ⟨mid, hmid, hrest⟩
    cases hrest
    have hfront : (L.settle ends.recvPlat b).channel.queue =
        RecvCall.text r ++ queue :=
      hqueue.trans (handOver_eq_some hmid).1
    have hlt := (@receive_holds ends L b w queue hholds hstep).2 r hsome
    have htake : ((L.settle ends.recvPlat b).receive w queue
        (L.recv? ends b)).channel =
          (L.settle ends.recvPlat b).channel.take r queue := by
      unfold Link.receive Link.channel Link.unfinished
      rw [if_pos hlt, hsome]
      rfl
    rw [htake]
    exact .take hfront

theorem receiver_sound {b : Action} (h : L.Sound)
    (hstep : L.step ends (.receiver b) = some L') : L'.Sound := by
  rcases Option.bind_eq_some_iff.mp hstep with ⟨w, hw, hqueue⟩
  rcases Option.map_eq_some_iff.mp hqueue with ⟨queue, hfold, rfl⟩
  have hsettle := settle_channel h.holds hw
  have hreceive := receive_channel h.holds hw hfold
  have hnew : forall r, r ∈ ((L.settle ends.recvPlat b).receive w queue
      (L.recv? ends b)).recvs -> r ∈ L.recvs ∨ L.recv? ends b = some r := by
    intro r hr
    unfold Link.receive at hr
    rw [settle_recvs] at hr
    rcases List.mem_append.mp hr with hold | hnew
    · exact Or.inl hold
    · exact Or.inr (Option.mem_toList.mp hnew)
  constructor
  · exact hreceive.conserved (hsettle.conserved h.conserved)
  · exact hreceive.accounted (hsettle.accounted h.accounted)
  · exact (receive_holds h.holds hw).1
  · intro s hs
    exact h.counts s (settle_sends ends.recvPlat b ▸ hs)
  · intro r hr
    rcases hnew r hr with hold | hsome
    · exact h.sized r hold
    · exact (handed_of_recv? hw hsome).1
  · intro r hr
    rcases hnew r hr with hold | hsome
    · exact h.ended r hold
    · rcases handed_of_recv? hw hsome with ⟨_, hatEnd, hhanded⟩
      rw [hhanded, List.foldlM_cons] at hfold
      rcases Option.bind_eq_some_iff.mp hfold with ⟨mid, hmid, _⟩
      rw [hatEnd]
      exact (handOver_eq_some hmid).2

theorem initialLink_sound : initialLink.Sound where
  conserved := Channel.empty_conserved
  accounted := Channel.empty_accounted
  holds := .nil
  counts := fun s hs => by cases hs
  sized := fun r hr => by cases hr
  ended := fun r hr => by cases hr

theorem linkStep_sound {b : LinkAction} (h : L.Sound)
    (hstep : L.step ends b = some L') : L'.Sound := by
  cases b with
  | sender b => exact sender_sound h hstep
  | receiver b => exact receiver_sound h hstep

theorem link_sound {actions : List LinkAction}
    (hrun : runFrom (Link.step ends) initialLink actions = some L) :
    L.Sound :=
  reachable_invariant (fun _ _ _ => linkStep_sound) initialLink_sound
    ⟨actions, hrun⟩

/-- One call at a time holds bytes, and the order is that of the system. -/
structure Link.Ordered (L : Link) : Prop where
  sound : L.Sound
  inOrder : L.channel.InOrder
  one : L.unfinished.length ≤ 1

theorem step_ordered {b : LinkAction} (h : L.Ordered)
    (hone : L.OneAtATime ends b) (hstep : L.step ends b = some L') :
    L'.Ordered := by
  have hsound := linkStep_sound h.sound hstep
  cases b with
  | sender b =>
      have hchannel := sender_channel hstep
      rcases Option.map_eq_some_iff.mp hstep with ⟨w, _, rfl⟩
      exact ⟨hsound, hchannel.inOrder h.inOrder (Nat.le_refl _) h.one, h.one⟩
  | receiver b =>
      rcases Option.bind_eq_some_iff.mp hstep with ⟨w, hw, hqueue⟩
      rcases Option.map_eq_some_iff.mp hqueue with ⟨queue, hfold, rfl⟩
      rcases hone with ⟨hlost, hfree⟩
      have hheld := @settle_unfinished L ends.recvPlat b
      have hsettle := (settle_channel h.sound.holds hw).inOrder h.inOrder
        (Nat.le_of_eq (congrArg List.length hlost)) (hheld.trans h.one)
      have hone : ((L.settle ends.recvPlat b).receive w queue
          (L.recv? ends b)).unfinished.length ≤ 1 := by
        refine receive_unfinished.trans ?_
        rcases hfree with hnone | hnone
        · rw [hnone] at hheld
          have htake : (L.recv? ends b).toList.length ≤ 1 := by
            cases L.recv? ends b with
            | none => exact Nat.zero_le _
            | some r => exact Nat.le_refl _
          exact Nat.add_le_add hheld htake
        · rw [hnone]
          exact hheld.trans h.one
      exact ⟨hsound, (receive_channel h.sound.holds hw hfold).inOrder hsettle
        (Nat.le_refl _) hone, hone⟩

theorem initialLink_ordered : initialLink.Ordered where
  sound := initialLink_sound
  inOrder := Channel.empty_inOrder
  one := Nat.zero_le _

end Runs

/--
In every state of two programs with a connection between them, what `recv` has been
handed, followed by the bytes still queued, are the prefixes that the numbers
returned by `send` tell.  Every string of it is returned once, unless the call is
still in `lua_pushlstring` or an error has ended it there; and when no call is ended
so and no other one is handed bytes meanwhile, the strings are returned in the order
of the stream.  For a size of at least one, `recv` returns the empty string only at
the end of the stream.
-/
theorem streamIntegrity (ends : Ends) (actions : List LinkAction) (L : Link)
    (hrun : runFrom (Link.step ends) initialLink actions = some L) :
    (L.recvs.map RecvCall.text).flatten ++ L.queue =
        (L.sends.map SendCall.sentPrefix).flatten ∧
      L.recvs.Perm (L.returned ++ L.lost ++ L.unfinished) ∧
      (AllSteps (Link.step ends) (Link.OneAtATime ends) initialLink actions ->
        ((L.returned ++ L.unfinished).map RecvCall.text).flatten ++ L.queue =
          (L.sends.map SendCall.sentPrefix).flatten) ∧
      (forall s, s ∈ L.sends -> s.Counts) ∧
      (forall r, r ∈ L.recvs -> r.Sized) ∧
      forall r, r ∈ L.recvs -> 1 ≤ r.size -> r.text = [] -> r.atEnd = true := by
  have hsound := link_sound hrun
  refine ⟨hsound.conserved, hsound.accounted, ?_, hsound.counts, hsound.sized,
    hsound.ended⟩
  intro hsteps
  have hordered := runFrom_invariant (fun _ _ _ => step_ordered)
    initialLink_ordered hsteps hrun
  have hrecvs : L.recvs = L.returned ++ L.unfinished := hordered.inOrder
  rw [← hrecvs]
  exact hsound.conserved

/-- A program that accepts a client; the client's socket is opening 1. -/
def acceptOne : List Action :=
  createFirst { handle := some 3, malloc := some 16 } ++
    callOn .accept "accept" 16 [] { handle := some 4, malloc := some 32 } ++
    finishLater

/-- Both programs accept; one sends `"hi"` and the other calls `recv` with the argument. -/
def sendReceive (args : List Value) (env : Env) : List LinkAction :=
  List.map LinkAction.sender
      (acceptOne ++ [.script (.literal (str "hi"))] ++
        callOn .send "send" 32 [str "hi"] { sent := some 2 }) ++
    List.map LinkAction.receiver
      (acceptOne ++ args.map (fun v => .script (.literal v)) ++
        callOn .recv "recv" 32 args env)

def acceptedEnds : Ends := ⟨.unix, .unix, 1, 1⟩

/-- The first byte is received, and the rest while its string is being made. -/
def receiveInside : List LinkAction :=
  sendReceive [.number (.ofInt 1)]
      { malloc := some 64, recv := some (ascii "h") } ++
    List.map LinkAction.receiver
      (callOn .recv "recv" 32 [] { malloc := some 80, recv := some (ascii "i") } ++
        [.resume {}, .resume {}])

/--
A string that an error keeps from being made is lost, a string that is received while
another is made is returned first, and a size that becomes zero as an `int` gives the
empty string while bytes are queued.
-/
theorem streamIntegrity_fails :
    (¬forall actions L,
      runFrom (Link.step acceptedEnds) initialLink actions = some L ->
      L.held = [] ->
      exists returned : List RecvCall, returned.Perm L.returned ∧
        (returned.map RecvCall.text).flatten ++ L.queue =
          (L.sends.map SendCall.sentPrefix).flatten) ∧
    (¬forall actions L,
      runFrom (Link.step acceptedEnds) initialLink actions = some L ->
      L.held = [] -> L.lost = [] ->
      (L.returned.map RecvCall.text).flatten ++ L.queue =
        (L.sends.map SendCall.sentPrefix).flatten) ∧
    ¬forall actions L,
      runFrom (Link.step acceptedEnds) initialLink actions = some L ->
      forall r n, r ∈ L.returned -> r.request = some (.number (.ofInt n)) ->
        1 ≤ n -> r.text = [] -> r.atEnd = true := by
  refine ⟨?_, ?_, ?_⟩
  · intro h
    have hlost : (runFrom (Link.step acceptedEnds) initialLink
        (sendReceive [] { malloc := some 64, recv := some (ascii "hi") } ++
          [.receiver (.pausedRaise .memory)])).map (fun L =>
          (L.held, L.returned, L.queue, L.sends.map SendCall.sentPrefix)) =
        some ([], [], [], [ascii "hi"]) := by
      decide +kernel
    rcases Option.map_eq_some_iff.mp hlost with ⟨L, hrun, hL⟩
    simp only [Prod.mk.injEq] at hL
    rcases hL with ⟨hheld, hreturned, hqueue, hsends⟩
    rcases h _ L hrun hheld with ⟨returned, hperm, hclaim⟩
    rw [hreturned] at hperm
    rw [hperm.eq_nil, hqueue, hsends] at hclaim
    exact absurd hclaim (by decide)
  · intro h
    have horder : (runFrom (Link.step acceptedEnds) initialLink
        receiveInside).map (fun L =>
          (L.held.length, L.lost.length,
            (L.returned.map RecvCall.text).flatten ++ L.queue,
            (L.sends.map SendCall.sentPrefix).flatten)) =
        some (0, 0, ascii "ih", ascii "hi") := by
      decide +kernel
    rcases Option.map_eq_some_iff.mp horder with ⟨L, hrun, hL⟩
    simp only [Prod.mk.injEq] at hL
    rcases hL with ⟨hheld, hlost, hreturned, hsends⟩
    have hclaim := h _ L hrun (List.eq_nil_of_length_eq_zero hheld)
      (List.eq_nil_of_length_eq_zero hlost)
    rw [hreturned, hsends] at hclaim
    exact absurd hclaim (by decide)
  · intro h
    have hempty : (runFrom (Link.step acceptedEnds) initialLink
        (sendReceive [.number (.ofInt 4294967296)]
          { malloc := some 64
            recv := some []
            number2integer := fun _ => 4294967296 } ++
          [.receiver (.resume {})])).map Link.returned =
        some [⟨some (.number (.ofInt 4294967296)), 0, [], false⟩] := by
      decide +kernel
    rcases Option.map_eq_some_iff.mp hempty with ⟨L, hrun, hL⟩
    have hclaim := h _ L hrun ⟨some (.number (.ofInt 4294967296)), 0, [],
      false⟩ 4294967296
    rw [hL] at hclaim
    have hend := hclaim List.mem_cons_self rfl (by decide) rfl
    cases hend

/-- One receives in two parts what the other sends, the second one not returned yet. -/
def receiveTwice : List LinkAction :=
  sendReceive [.number (.ofInt 1)]
      { malloc := some 64, recv := some (ascii "h") } ++
    List.map LinkAction.receiver
      ([.collect, .resume {}] ++
        callOn .recv "recv" 32 [] { malloc := some 80, recv := some (ascii "i") })

theorem streamIntegrity_twoParts :
    exists L,
      runFrom (Link.step acceptedEnds) initialLink receiveTwice = some L ∧
      ((L.returned ++ L.unfinished).map RecvCall.text).flatten ++ L.queue =
        (L.sends.map SendCall.sentPrefix).flatten ∧
      L.returned.map RecvCall.text = [ascii "h"] ∧
      L.unfinished.map RecvCall.text = [ascii "i"] := by
  have hrecvs : (runFrom (Link.step acceptedEnds) initialLink
      receiveTwice).map (fun L =>
        (L.returned.map RecvCall.text, L.unfinished.map RecvCall.text)) =
        some ([ascii "h"], [ascii "i"]) := by
    decide +kernel
  rcases Option.map_eq_some_iff.mp hrecvs with ⟨L, hrun, hL⟩
  simp only [Prod.mk.injEq] at hL
  have hsteps : AllSteps (Link.step acceptedEnds) (Link.OneAtATime acceptedEnds)
      initialLink receiveTwice := by
    decide +kernel
  have hstream := streamIntegrity acceptedEnds receiveTwice L hrun
  exact ⟨L, hrun, hstream.2.2.1 hsteps, hL.1, hL.2⟩

end LuaServer
