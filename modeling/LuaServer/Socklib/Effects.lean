import LuaServer.Library.Accounts
import LuaServer.Socklib.Outcomes

/-!
# Effects on records and handles

The world keeps accounts of its records and handles.  A call that reads a live
record, or none, changes them in one of a few ways: not at all, by opening a
handle and making a record for it, or by closing the handle of a record together
with the record.
-/

namespace LuaServer

open Library

def Event.released? : Event -> Option Nat
  | .release _ serial => serial
  | _ => none

def Event.closed? : Event -> Option Nat
  | .os call => if call.op = .close then call.inst else none
  | _ => none

namespace World

/-- The records own the handles of the operating system. -/
def accounts (w : World) : Accounts Nat Int where
  owners :=
    { live := fun a => (w.records a).map SocketRecord.serial
      next := w.nextRecord
      retired := w.log.filterMap Event.released? }
  resources :=
    { live := w.instAt
      next := w.nextHandle
      retired := w.log.filterMap Event.closed? }
  holds := fun a => (w.records a).map fun r => (r.info.hSocket, r.inst)

end World

section Accounts

variable {w : World} {c : Caller} {env : Env}

theorem accounts_of {v : World} (hrecords : v.records = w.records)
    (hnextRecord : v.nextRecord = w.nextRecord) (hinst : v.instAt = w.instAt)
    (hnextHandle : v.nextHandle = w.nextHandle)
    (hreleased : v.log.filterMap Event.released? =
      w.log.filterMap Event.released?)
    (hclosed : v.log.filterMap Event.closed? =
      w.log.filterMap Event.closed?) : v.accounts = w.accounts := by
  unfold World.accounts
  rw [hrecords, hnextRecord, hinst, hnextHandle, hreleased, hclosed]

theorem accounts_emit {e : Event} (hreleased : e.released? = none)
    (hclosed : e.closed? = none) : (w.emit e).accounts = w.accounts := by
  apply @accounts_of w (w.emit e) rfl rfl rfl rfl
  · simp [World.emit, hreleased]
  · simp [World.emit, hclosed]

theorem accounts_afterHeader : w.afterHeader.accounts = w.accounts := by
  unfold World.afterHeader
  split
  · rfl
  · exact @accounts_emit w (.startup true) rfl rfl

theorem accounts_osLogged {op : OsOp} {handle : Option Int}
    {opened : Option Nat} {ok : Bool} (hop : op ≠ .close) :
    (w.osLogged c op handle opened ok).accounts = w.accounts := by
  apply accounts_emit rfl
  simp [Event.closed?, osEvent, hop]

theorem accounts_afterRead (p : Ptr) : (w.afterRead p).accounts = w.accounts :=
  accounts_emit rfl rfl

theorem accounts_checked (entry : Entry) (p : Ptr) :
    (w.checked entry p).accounts = w.accounts := by
  cases entry with
  | call f =>
      show (w.afterHeader.emit (.pass f p)).accounts = _
      rw [accounts_emit rfl rfl, accounts_afterHeader]
  | resume point => rfl

theorem accounts_reading (entry : Entry) (p : Ptr) :
    (w.reading entry p).accounts = w.accounts := by
  unfold World.reading
  rw [accounts_afterRead, accounts_checked]

theorem accounts_withBlock : (w.withBlock env).accounts = w.accounts := by
  unfold World.withBlock
  split
  · rfl
  · rfl

theorem accounts_withoutBlock (addr : Option Nat) :
    (w.withoutBlock addr).accounts = w.accounts := by
  cases addr with
  | none => rfl
  | some a => rfl

theorem accounts_afterStatus {op : OsOp} {h status : Int}
    {update : OsSocket -> OsSocket} (hop : op ≠ .close)
    (hupdate : forall s, (update s).inst = s.inst) :
    (w.afterStatus c op h status update).accounts = w.accounts := by
  unfold World.afterStatus
  split
  · exact accounts_osLogged hop
  · rename_i s hs
    split
    · rw [← @accounts_osLogged w c op (some h) none true hop]
      refine @accounts_of (w.osLogged c op (some h) none true) _ rfl rfl ?_
        rfl rfl rfl
      funext i
      unfold World.instAt World.setHandle
      by_cases hi : i = h
      · simp [hi, hupdate, World.osLogged, World.emit, hs]
      · simp [hi]
    · exact accounts_osLogged hop

theorem accounts_received {h size : Int} {data : LuaString} :
    (w.received c env h size data).accounts = w.accounts := by
  unfold World.received
  rw [accounts_emit rfl rfl, accounts_emit rfl rfl,
    accounts_osLogged (by intro h; cases h)]

theorem instAt_openHandle (h : Int) :
    (w.openHandle h).instAt =
      Function.update w.instAt h (some w.nextHandle) := by
  funext i
  unfold World.instAt World.openHandle World.setHandle
  by_cases hi : i = h
  · simp [hi]
  · simp [hi]

theorem accounts_delivered {op : OsOp} {arg : Option Int} {h : Int}
    (hop : op ≠ .close) :
    (w.delivered c op arg h).accounts = w.accounts.lose h := by
  have hlog := @accounts_osLogged w c op arg (some w.nextHandle) true hop
  rw [← hlog]
  unfold World.delivered World.accounts Accounts.lose TokenTable.issue
  simp only [instAt_openHandle]
  rfl

theorem instAt_of_lose {v : World} {h : Int}
    (hv : v.accounts = w.accounts.lose h) : v.instAt h = some w.nextHandle := by
  have hlive : v.accounts.resources.live h =
      (w.accounts.lose h).resources.live h := by
    rw [hv]
  exact hlive.trans (Function.update_self _ _ _)

theorem accounts_withRecord {v : World} {a : Nat} {info : SocketInfo}
    (hv : v.accounts = w.accounts.lose info.hSocket) :
    (v.withRecord a info).accounts = w.accounts.create a info.hSocket := by
  have hinst := instAt_of_lose hv
  have howners : v.accounts.owners = w.accounts.owners := by rw [hv]; rfl
  have hholds : v.accounts.holds = w.accounts.holds := by rw [hv]; rfl
  apply Accounts.ext
  · rw [Accounts.create, ← howners]
    apply TokenTable.ext
    · funext i
      by_cases hi : i = a
      · simp [World.accounts, World.withRecord, World.allocRecord,
          World.setRecord, World.newIssue, TokenTable.issue, hi]
      · simp [World.accounts, World.withRecord, World.allocRecord,
          World.setRecord, World.newIssue, TokenTable.issue, hi]
    · rfl
    · rfl
  · show v.accounts.resources = _
    rw [hv]
    rfl
  · rw [Accounts.create, ← hholds]
    funext i
    by_cases hi : i = a
    · simp [World.accounts, World.withRecord, World.allocRecord,
        World.setRecord, World.newIssue, hi, hinst]
    · simp [World.accounts, World.withRecord, World.allocRecord,
        World.setRecord, World.newIssue, hi]

theorem accounts_closing {a : Nat} {r : SocketRecord}
    (hvia : c.via = .block a) (hrecord : w.records a = some r)
    (hinst : w.instAt r.info.hSocket = some r.inst) :
    (w.closing c r.info.hSocket).accounts =
      w.accounts.close a r.serial r.info.hSocket r.inst := by
  have hclosing : w.closing c r.info.hSocket =
      ((((w.osLogged c .close (some r.info.hSocket) none
        (w.handles r.info.hSocket).isSome).setHandle r.info.hSocket none).emit
        (.release (.block a) (some r.serial))).setRecord a none) := by
    unfold World.closing World.afterFree
    rw [hvia]
    have hserial : World.serialAt ((w.osLogged c .close (some r.info.hSocket)
        none (w.handles r.info.hSocket).isSome).setHandle r.info.hSocket none)
        (.block a) = some r.serial := by
      show (w.records a).map _ = _
      rw [hrecord]
      rfl
    rw [hserial]
    rfl
  rw [hclosing]
  apply Accounts.ext
  · apply TokenTable.ext
    · funext i
      by_cases hi : i = a
      · simp [World.accounts, World.setRecord, Accounts.close,
          TokenTable.retire, hi]
      · simp [World.accounts, World.setRecord, World.emit, World.setHandle,
          World.osLogged, Accounts.close, TokenTable.retire, hi]
    · rfl
    · simp [World.accounts, World.setRecord, World.emit, World.setHandle,
        World.osLogged, osEvent, Accounts.close, TokenTable.retire]
      rfl
  · apply TokenTable.ext
    · funext i
      by_cases hi : i = r.info.hSocket
      · simp [World.accounts, World.instAt, World.setRecord, World.emit,
          World.setHandle, Accounts.close, TokenTable.retire, hi]
      · simp [World.accounts, World.instAt, World.setRecord, World.emit,
          World.setHandle, World.osLogged, Accounts.close, TokenTable.retire,
          hi]
    · rfl
    · simp [World.accounts, World.setRecord, World.emit, World.setHandle,
        World.osLogged, osEvent, Event.closed?, Accounts.close,
        TokenTable.retire, hinst]
  · funext i
    by_cases hi : i = a
    · simp [World.accounts, World.setRecord, Accounts.close, hi]
    · simp [World.accounts, World.setRecord, World.emit, World.setHandle,
        World.osLogged, Accounts.close, hi]

end Accounts

/-!
# The effect of a call
-/

/-- How a call that starts in `w` changes the accounts. -/
inductive Effect (env : Env) (w : World) (f : CFunction) :
    EStateM.Result Exit World Reply -> Prop where
  | kept {r : EStateM.Result Exit World Reply} :
      (finalState r).accounts = w.accounts ->
      (forall fr w', r ≠ .ok (.building fr) w') -> Effect env w f r
  | lost {h : Int} {w' : World} :
      f = .create ∨ f = .accept -> env.handle = some h -> env.malloc = none ->
      w'.accounts = w.accounts.lose h -> Effect env w f (.error .crash w')
  | made {h : Int} {a : Nat} {w' : World} :
      f = .create ∨ f = .accept -> env.handle = some h ->
      env.malloc = some a -> w'.accounts = w.accounts.create a h ->
      Effect env w f
        (.ok (.building (initialFrame f ⟨a, w.nextRecord, w.nextHandle⟩)) w')
  | dropped {a : Nat} {r : SocketRecord} {w' : World} :
      f = .close ∨ f = .onCollectSocket -> w.records a = some r ->
      Event.release (.block a) (some r.serial) ∈ w'.log ->
      w'.accounts = w.accounts.close a r.serial r.info.hSocket r.inst ->
      Effect env w f (.ok (.values []) w')

section Calls

variable {plat : Platform} {env : Env} {args : List Value} {w : World}
variable {f : CFunction} {entry : Entry} {r : EStateM.Result Exit World Reply}

theorem block_of_recordAt {p : Ptr} {rec : SocketRecord}
    (h : w.recordAt p = some rec) :
    exists a, p = .block a ∧ w.records a = some rec := by
  cases p with
  | block a => exact ⟨a, rfl, h⟩
  | null | sentinel | udata => cases h

theorem acceptAnswer_handle {v : World} {h h' : Int}
    (hanswer : v.acceptAnswer env h = some h') : env.handle = some h' := by
  unfold World.acceptAnswer at hanswer
  split at hanswer
  · exact hanswer
  · cases hanswer

theorem instAt_of_sound (hsound : w.accounts.Sound) {a : Nat}
    {rec : SocketRecord} (hrec : w.records a = some rec) :
    w.instAt rec.info.hSocket = some rec.inst := by
  apply hsound.holds_live
  show (w.records a).map _ = _
  rw [hrec]
  rfl

theorem accounts_closing_of {v : World} {c : Caller} {a : Nat}
    {rec : SocketRecord} (hv : v.accounts = w.accounts)
    (hrecords : v.records = w.records) (hsound : w.accounts.Sound)
    (hvia : c.via = .block a) (hrec : w.records a = some rec) :
    (v.closing c rec.info.hSocket).accounts =
      w.accounts.close a rec.serial rec.info.hSocket rec.inst := by
  rw [← hv] at hsound ⊢
  rw [← hrecords] at hrec
  exact accounts_closing hvia hrec (instAt_of_sound hsound hrec)

theorem release_mem_closing {v : World} {c : Caller} {a : Nat}
    {rec : SocketRecord} {h : Int} (hvia : c.via = .block a)
    (hrec : v.records a = some rec) :
    Event.release (.block a) (some rec.serial) ∈ (v.closing c h).log := by
  unfold World.closing World.afterFree
  rw [hvia]
  have hserial : World.serialAt ((v.osLogged c .close (some h) none
      (v.handles h).isSome).setHandle h none) (.block a) = some rec.serial := by
    show (v.records a).map _ = _
    rw [hrec]
    rfl
  rw [hserial]
  exact List.mem_append_right _ List.mem_cons_self

theorem newIssue_of_lose {v : World} {a : Nat} {h : Int}
    (hv : v.accounts = w.accounts.lose h) :
    v.newIssue a h = ⟨a, w.nextRecord, w.nextHandle⟩ := by
  have hnext : v.nextRecord = w.nextRecord := by
    have := congrArg (fun A => A.owners.next) hv
    exact this
  unfold World.newIssue
  rw [hnext, instAt_of_lose hv]
  rfl

theorem acted_of_derefs {p : Ptr} (hf : entry.f.takesSocket = true)
    (hderefs : w.derefs plat env args entry = some p) (hne : p ≠ .null)
    (h : Outcome plat env args w entry r) :
    Act plat env args p (w.reading entry p) (w.infoAt env p) entry.f r := by
  rcases checks_of_derefs hf hderefs with ⟨hchecks, hnone⟩
  cases h with
  | initFailed _ hinit =>
      rw [(checks_call.mp hchecks).2.1] at hinit
      cases hinit
  | rejected _ _ hpass =>
      rw [(checks_call.mp hchecks).2.2] at hpass
      cases hpass
  | converting _ _ _ hconvert hpoint hsocket =>
      have herror := argumentError_of_converts hconvert hpoint hsocket
      cases hnone.symm.trans herror
  | invalid _ _ herror =>
      rw [hnone] at herror
      cases herror
  | acted _ hderefs' _ hact =>
      rw [hderefs] at hderefs'
      cases hderefs'
      exact hact
  | resumedNull hnull =>
      rw [hderefs] at hnull
      cases hnull
      exact absurd rfl hne
  | freed => cases hchecks
  | createFailed | createNoMemory | created | collectNull | collected =>
      cases hf

theorem act_effect {p : Ptr} {info : SocketInfo} {v : World}
    (hv : v.accounts = w.accounts) (hf : f ≠ .close)
    (h : Act plat env args p v info f r) : Effect env w f r := by
  cases h with
  | bindNoMemory => exact Effect.kept hv (by simp)
  | bindFailed | bound =>
      apply Effect.kept _ (by simp)
      simp only [finalState]
      rw [accounts_afterStatus, accounts_withBlock, hv]
      · simp [bindOp]
      · intro s
        rfl
  | listened =>
      apply Effect.kept _ (by simp)
      simp only [finalState]
      rw [accounts_afterStatus, hv]
      · simp
      · intro s
        rfl
  | acceptFailed =>
      apply Effect.kept _ (by simp)
      simp only [finalState]
      rw [accounts_afterRead, accounts_osLogged (by simp), hv]
  | acceptNoMemory hanswer hmalloc =>
      apply Effect.lost (Or.inr rfl) (acceptAnswer_handle hanswer) hmalloc
      rw [accounts_afterRead, accounts_delivered (by simp), hv]
  | accepted hanswer hmalloc hu =>
      rename_i h a u
      have hlose : u.accounts = w.accounts.lose h := by
        rw [hu, accounts_afterRead, accounts_delivered (by simp), hv]
      rw [newIssue_of_lose hlose]
      exact Effect.made (Or.inr rfl) (acceptAnswer_handle hanswer) hmalloc
        (accounts_withRecord hlose)
  | recvFailed =>
      apply Effect.kept _ (by simp)
      simp only [finalState]
      rw [accounts_osLogged (by simp), accounts_withBlock, hv]
  | recvNoMemory =>
      apply Effect.kept _ (by simp)
      simp only [finalState]
      rw [accounts_received, hv]
  | received =>
      apply Effect.kept _ (by simp)
      simp only [finalState]
      rw [accounts_received, accounts_withBlock, hv]
  | sent =>
      apply Effect.kept _ (by simp)
      simp only [finalState]
      rw [accounts_osLogged (by simp), hv]
  | closed => exact absurd rfl hf

theorem outcome_effect_of_ne (hclose : entry.f ≠ .close)
    (hcollect : entry.f ≠ .onCollectSocket)
    (h : Outcome plat env args w entry r) : Effect env w entry.f r := by
  cases h with
  | initFailed => exact Effect.kept (accounts_emit rfl rfl) (by simp)
  | rejected => exact Effect.kept accounts_afterHeader (by simp)
  | converting | invalid =>
      apply Effect.kept _ (by simp)
      simp only [finalState]
      rw [accounts_checked]
  | acted _ _ _ hact => exact act_effect (accounts_reading entry _) hclose hact
  | resumedNull => exact Effect.kept (accounts_afterRead _) (by simp)
  | freed => exact Effect.kept (accounts_withoutBlock _) (by simp)
  | createFailed =>
      apply Effect.kept _ (by simp)
      simp only [finalState]
      rw [accounts_osLogged (by simp [createOp]), accounts_afterHeader]
  | createNoMemory _ hhandle hmalloc =>
      apply Effect.lost (Or.inl rfl) hhandle hmalloc
      rw [accounts_delivered (by simp [createOp]), accounts_afterHeader]
  | created hinit hhandle hmalloc hu =>
      rename_i h a u
      have hlose : u.accounts = w.accounts.lose h := by
        rw [hu, accounts_delivered (by simp [createOp]), accounts_afterHeader]
      rw [newIssue_of_lose hlose]
      exact Effect.made (Or.inl rfl) hhandle hmalloc (accounts_withRecord hlose)
  | collectNull | collected => exact absurd rfl hcollect

/--
How a call that closes a socket ends: with an error, without getting to a record
or by the null pointer, or with the handle it found closed and the pointer freed.
-/
theorem outcome_closes (hf : entry.f = .close ∨ entry.f = .onCollectSocket)
    (h : Outcome plat env args w entry r) :
    (finalState r).accounts = w.accounts ∧
        (forall reply w', r ≠ .ok reply w') ∨
      exists (p : Ptr) (v : World), w.derefs plat env args entry = some p ∧
        p ≠ .null ∧ v.accounts = w.accounts ∧ v.records = w.records ∧
        v.handles = w.handles ∧
        r = .ok (.values [])
          (v.closing ⟨entry.f, p⟩ (w.infoAt env p).hSocket) := by
  cases h with
  | initFailed => exact Or.inl ⟨accounts_emit rfl rfl, by simp⟩
  | rejected => exact Or.inl ⟨accounts_afterHeader, by simp⟩
  | @converting f _ _ point _ _ _ _ hpoint =>
      change f = .close ∨ f = .onCollectSocket at hf
      rw [← hpoint] at hf
      cases point with
      | bind | send | recv => rcases hf with h | h <;> cases h
  | invalid =>
      refine Or.inl ⟨?_, by simp⟩
      simp only [finalState]
      rw [accounts_checked]
  | @acted _ p _ hsocket hderefs hne hact =>
      rcases hf with hclose | hcollect
      · rw [hclose] at hact ⊢
        cases hact
        exact Or.inr ⟨p, w.reading entry p, hderefs, hne,
          accounts_reading _ p, checked_records _ p, checked_handles _ p, rfl⟩
      · rw [hcollect] at hsocket
        cases hsocket
  | @resumedNull point =>
      cases point with
      | bind | send | recv => rcases hf with h | h <;> cases h
  | freed => rcases hf with h | h <;> cases h
  | createFailed | createNoMemory | created => rcases hf with h | h <;> cases h
  | collectNull => exact Or.inl ⟨accounts_afterRead _, by simp⟩
  | collected hp hne =>
      rename_i p
      refine Or.inr ⟨p, w.afterRead p, ?_, hne, accounts_afterRead p, rfl, rfl,
        rfl⟩
      simp only [World.derefs, hp]

/--
A call that reads no record or a live one has one of the effects, if the
accounts are sound.
-/
theorem outcome_effect (hsound : w.accounts.Sound)
    (hlive : forall p, w.derefs plat env args entry = some p ->
      (w.recordAt p).isSome = true)
    (h : Outcome plat env args w entry r) : Effect env w entry.f r := by
  by_cases hf : entry.f = .close ∨ entry.f = .onCollectSocket
  · rcases outcome_closes hf h with ⟨hkept, hr⟩ |
      ⟨p, v, hderefs, _, hv, hrecords, _, rfl⟩
    · exact Effect.kept hkept fun fr => hr _
    · rcases Option.isSome_iff_exists.mp (hlive p hderefs) with ⟨rec, hrec⟩
      have hinfo : w.infoAt env p = rec.info := infoAt_of_record hrec
      rcases block_of_recordAt hrec with ⟨a, rfl, ha⟩
      rw [hinfo]
      apply Effect.dropped hf ha
      · exact release_mem_closing rfl (hrecords.symm ▸ ha)
      · exact accounts_closing_of hv hrecords hsound rfl ha
  · push Not at hf
    exact outcome_effect_of_ne hf.1 hf.2 h

/-!
# The tables of records and handles

Whatever a call is given, it opens and closes handles and makes and frees
records one at a time, so the two tables stay sound even where an owner loses
its resource.
-/

theorem afterFree_owners {v : World} {p : Ptr} :
    v.accounts.owners.Change (v.afterFree p).accounts.owners := by
  cases hrec : v.recordAt p with
  | none =>
      have hserial : v.serialAt p = none := by
        unfold World.serialAt
        rw [hrec]
        rfl
      have hretired : (v.log ++ [Event.release p (v.serialAt p)]).filterMap
          Event.released? = v.log.filterMap Event.released? := by
        simp [hserial, Event.released?]
      have hsame : (v.afterFree p).accounts.owners = v.accounts.owners := by
        cases p with
        | null | sentinel | udata => exact TokenTable.ext rfl rfl hretired
        | block a =>
            refine TokenTable.ext ?_ rfl hretired
            funext i
            show (if i = a then none else v.records i).map _ =
              (v.records i).map _
            by_cases hi : i = a
            · have hnone : v.records a = none := hrec
              simp [hi, hnone]
            · rw [if_neg hi]
      rw [hsame]
      exact .kept
  | some rec =>
      rcases block_of_recordAt hrec with ⟨a, rfl, ha⟩
      have hretire : (v.afterFree (.block a)).accounts.owners =
          v.accounts.owners.retire a rec.serial := by
        apply TokenTable.ext
        · funext i
          show (if i = a then none else v.records i).map _ = _
          by_cases hi : i = a
          · simp [hi, World.accounts, TokenTable.retire]
          · simp [hi, World.accounts, TokenTable.retire]
        · rfl
        · have hserial : v.serialAt (.block a) = some rec.serial := by
            unfold World.serialAt
            rw [hrec]
            rfl
          show (v.log ++ [Event.release (.block a) (v.serialAt (.block
            a))]).filterMap Event.released? = _
          rw [hserial]
          simp [Event.released?, World.accounts, TokenTable.retire]
      rw [hretire]
      apply TokenTable.Change.retired
      show (v.records a).map _ = _
      rw [ha]
      rfl

theorem afterFree_resources {v : World} {p : Ptr} :
    (v.afterFree p).accounts.resources = v.accounts.resources := by
  have hretired : (v.log ++ [Event.release p (v.serialAt p)]).filterMap
      Event.closed? = v.log.filterMap Event.closed? := by
    simp [Event.closed?]
  cases p with
  | null | sentinel | udata => exact TokenTable.ext rfl rfl hretired
  | block a => exact TokenTable.ext rfl rfl hretired

/-- The state after `close` of the operating system. -/
def World.closedHandle (w : World) (c : Caller) (h : Int) : World :=
  (w.osLogged c .close (some h) none (w.handles h).isSome).setHandle h none

theorem closedHandle_owners {v : World} {c : Caller} {h : Int} :
    (v.closedHandle c h).accounts.owners = v.accounts.owners := by
  refine TokenTable.ext rfl rfl ?_
  simp [World.closedHandle, World.accounts, World.setHandle, World.osLogged,
    World.emit, osEvent, Event.released?]

theorem closedHandle_resources {v : World} {c : Caller} {h : Int} :
    v.accounts.resources.Change (v.closedHandle c h).accounts.resources := by
  have hlive : forall i, (v.closedHandle c h).instAt i =
      if i = h then none else v.instAt i := by
    intro i
    show (if i = h then none else v.handles i).map _ = _
    by_cases hi : i = h
    · simp [hi]
    · simp [hi, World.instAt]
  have hretired : (v.closedHandle c h).log.filterMap Event.closed? =
      v.log.filterMap Event.closed? ++ (v.instAt h).toList := by
    show (v.log ++ [osEvent c .close (some h) none _ v]).filterMap _ = _
    rw [List.filterMap_append]
    simp only [osEvent, Option.bind_some]
    cases hinst : v.instAt h with
    | none => simp [Event.closed?]
    | some t => simp [Event.closed?]
  cases hinst : v.instAt h with
  | none =>
      have hsame : (v.closedHandle c h).accounts.resources =
          v.accounts.resources := by
        refine TokenTable.ext ?_ rfl ?_
        · funext i
          show (v.closedHandle c h).instAt i = v.instAt i
          rw [hlive]
          by_cases hi : i = h
          · rw [if_pos hi, hi, hinst]
          · rw [if_neg hi]
        · show (v.closedHandle c h).log.filterMap _ = _
          rw [hretired, hinst]
          exact List.append_nil _
      rw [hsame]
      exact .kept
  | some t =>
      have hretire : (v.closedHandle c h).accounts.resources =
          v.accounts.resources.retire h t := by
        refine TokenTable.ext ?_ rfl ?_
        · funext i
          show (v.closedHandle c h).instAt i = _
          rw [hlive]
          by_cases hi : i = h
          · simp [hi, TokenTable.retire]
          · simp [hi, TokenTable.retire, World.accounts]
        · show (v.closedHandle c h).log.filterMap _ = _
          rw [hretired, hinst]
          rfl
      rw [hretire]
      exact .retired hinst

theorem closing_tables {v : World} {c : Caller} {h : Int} :
    v.accounts.owners.Change (v.closing c h).accounts.owners ∧
      v.accounts.resources.Change (v.closing c h).accounts.resources := by
  have hclosing : v.closing c h = (v.closedHandle c h).afterFree c.via := rfl
  rw [hclosing, afterFree_resources]
  refine ⟨?_, closedHandle_resources⟩
  rw [← @closedHandle_owners v c h]
  exact afterFree_owners

theorem outcome_tables (hadm : env.admissible plat w = true)
    (h : Outcome plat env args w entry r) :
    w.accounts.owners.Change (finalState r).accounts.owners ∧
      w.accounts.resources.Change (finalState r).accounts.resources := by
  by_cases hf : entry.f = .close ∨ entry.f = .onCollectSocket
  · rcases outcome_closes hf h with ⟨hkept, _⟩ | ⟨p, v, _, _, hv, _, _, rfl⟩
    · rw [hkept]
      exact ⟨.kept, .kept⟩
    · rw [← hv]
      exact closing_tables
  · push Not at hf
    cases outcome_effect_of_ne hf.1 hf.2 h with
    | kept hkept =>
        rw [hkept]
        exact ⟨.kept, .kept⟩
    | lost _ hhandle _ hlose =>
        simp only [finalState, hlose]
        refine ⟨.kept, .issued ?_⟩
        show (w.handles _).map _ = none
        rw [(Env.handle_fresh hadm hhandle).2.2]
        rfl
    | made _ hhandle hmalloc hmade =>
        simp only [finalState, hmade]
        refine ⟨.issued ?_, .issued ?_⟩
        · show (w.records _).map _ = none
          rw [(Env.malloc_fresh hadm hmalloc).1]
          rfl
        · show (w.handles _).map _ = none
          rw [(Env.handle_fresh hadm hhandle).2.2]
          rfl
    | dropped hclose => exact absurd hclose (not_or.mpr hf)

end Calls

end LuaServer
