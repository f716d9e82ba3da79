import LuaServer.Properties.AcceptedSockets

/-!
# Disciplined scripts

A script that passes only open sockets to the library, and never runs the
finalizer itself, keeps exact accounts: records and handles correspond one to
one, and the live records are the values it has not closed.  It does so as long
as `close` accepts what it is given, and nothing is open at the shutdown on
Windows.
-/

namespace LuaServer

open Library

namespace World

def closes (w : World) (a : Action) : Option Nat :=
  match w.invocation a with
  | some c =>
      match c.f, c.args.headD .nil with
      | .close, .lightuserdata (.block addr) => some addr
      | _, _ => none
  | none => none

def returns (w : World) : Action -> Option Nat
  | .api _ =>
      match w.frames with
      | fr :: _ => if fr.code = [] then some fr.issue.addr else none
      | [] => none
  | _ => none

def pendingAddrs (w : World) : List Nat := w.pendingIssues.map Issue.addr

/-- The map from a live record to its `hSocket`. -/
def hSocketOf (w : World) (a : Nat) : Int :=
  match w.records a with
  | none => 0
  | some r => r.info.hSocket

end World

/-- The program with the sockets its script was given and has not closed. -/
structure Ledger where
  world : World
  outstanding : List Nat

namespace Ledger

/-- Calls add what they return, and take away what they pass to `close`. -/
def step (plat : Platform) (l : Ledger) (a : Action) : Option Ledger :=
  (LuaServer.step plat l.world a).map fun w =>
    { world := w
      outstanding := (l.world.returns a).toList ++
        l.outstanding.filter fun addr => l.world.closes a ≠ some addr }

def initial : Ledger := ⟨initialWorld, []⟩

end Ledger

/--
The script calls the finalizer neither itself nor through the collector, passes
as socket only what is returned and not closed, and no call of `create` or
`accept` dies or leaves by an error in `init_socket_instance` with a handle in
its hands.
-/
structure Disciplined (plat : Platform) (l : Ledger) (a : Action) : Prop where
  no_finalizer : forall c, l.world.invocation a = some c ->
    c.f ≠ .onCollectSocket
  socket_open : forall c, l.world.invocation a = some c ->
    c.entry.isCall = true -> c.f ≠ .create ->
    exists addr, addr ∈ l.outstanding ∧
      c.args.headD .nil = .lightuserdata (.block addr)
  no_crash : forall c w', l.world.invocation a = some c ->
    c.f = .create ∨ c.f = .accept -> step plat l.world a = some w' ->
    w'.result ≠ .crashed
  no_raise : forall e, a ≠ .apiRaise e

def Action.isApiRaise : Action -> Bool
  | .apiRaise _ => true
  | _ => false

instance (plat : Platform) (l : Ledger) (a : Action) :
    Decidable (Disciplined plat l a) :=
  match hcall : l.world.invocation a with
  | none =>
      decidable_of_iff (a.isApiRaise = false) (by
        constructor
        · intro h
          refine ⟨?_, ?_, ?_, ?_⟩
          · intro c hc
            rw [hcall] at hc
            cases hc
          · intro c hc
            rw [hcall] at hc
            cases hc
          · intro c w' hc
            rw [hcall] at hc
            cases hc
          · rintro e rfl
            cases h
        · intro h
          cases a with
          | apiRaise e => exact absurd rfl (h.no_raise e)
          | script | call | apiArgs | api | resume | pausedRaise | collect
          | gctm | exit | closeState => rfl)
  | some c =>
      decidable_of_iff
        (c.f ≠ .onCollectSocket ∧
          (c.entry.isCall = false ∨ c.f = .create ∨
            exists addr, addr ∈ l.outstanding ∧
              c.args.headD .nil = .lightuserdata (.block addr)) ∧
          (c.f = .create ∨ c.f = .accept ->
            (step plat l.world a).map World.result ≠ some .crashed)) (by
        constructor
        · rintro ⟨hfinal, hopen, hcrash⟩
          refine ⟨?_, ?_, ?_, ?_⟩
          · intro c' hc
            rw [hcall] at hc
            cases hc
            exact hfinal
          · intro c' hc hnew hf
            rw [hcall] at hc
            cases hc
            exact (hopen.resolve_left (by simp [hnew])).resolve_left hf
          · intro c' w' hc hmaker hstep hres
            rw [hcall] at hc
            cases hc
            apply hcrash hmaker
            rw [hstep, Option.map_some, hres]
          · rintro e rfl
            cases hcall
        · intro h
          refine ⟨h.no_finalizer c hcall, ?_, ?_⟩
          · cases hnew : c.entry.isCall with
            | false => exact Or.inl rfl
            | true =>
                by_cases hf : c.f = .create
                · exact Or.inr (Or.inl hf)
                · exact Or.inr (Or.inr (h.socket_open c hcall hnew hf))
          · intro hmaker hres
            rcases Option.map_eq_some_iff.mp hres with ⟨w', hstep, hw'⟩
            exact h.no_crash c w' hcall hmaker hstep hw')


/--
A call of `close` finds the subsystem up and light userdata with the registered
metatable, and at the shutdown on Windows no socket is open.
-/
structure Settles (plat : Platform) (l : Ledger) (a : Action) : Prop where
  accepts : forall c, l.world.invocation a = some c -> c.f = .close ->
    headerSucceeds plat c.env c.start = true ∧ c.start.lua.SharesMetatable
  shutdown : a = .exit -> l.world.ShutsDown plat -> l.outstanding = []

instance (L : LuaState) : Decidable L.SharesMetatable :=
  match hmt : L.mt .lightuserdata with
  | none => isFalse fun h => by
      rcases h with ⟨m, hm, _⟩
      rw [hmt] at hm
      cases hm
  | some m =>
      decidable_of_iff (L.registryField socketDataName = .table m) (by
        unfold LuaState.SharesMetatable
        simp [hmt])

def Action.isExit : Action -> Bool
  | .exit => true
  | _ => false

instance (plat : Platform) (l : Ledger) (a : Action) :
    Decidable (Settles plat l a) :=
  match hcall : l.world.invocation a with
  | none =>
      decidable_of_iff
        (a.isExit = true -> l.world.ShutsDown plat -> l.outstanding = []) (by
        constructor
        · intro h
          refine ⟨?_, ?_⟩
          · intro c hc
            rw [hcall] at hc
            cases hc
          · rintro rfl
            exact h rfl
        · intro h hexit
          cases a with
          | exit => exact h.shutdown rfl
          | script | call | apiArgs | api | apiRaise | resume | pausedRaise
          | collect | gctm | closeState => cases hexit)
  | some c =>
      decidable_of_iff (c.f = .close ->
          headerSucceeds plat c.env c.start = true ∧
            c.start.lua.SharesMetatable) (by
        constructor
        · intro h
          refine ⟨?_, ?_⟩
          · intro c' hc
            rw [hcall] at hc
            cases hc
            exact h
          · rintro rfl
            cases hcall
        · intro h
          exact h.accepts c hcall)

/-- Live records are outstanding values or belong to calls in progress. -/
structure Accounted (l : Ledger) : Prop where
  sound : l.world.accounts.Sound
  balanced : l.world.accounts.Balanced
  live_iff : forall a, l.world.records a ≠ none <->
    a ∈ l.world.pendingAddrs ++ l.outstanding
  nodup : (l.world.pendingAddrs ++ l.outstanding).Nodup

section Calls

variable {plat : Platform} {env : Env} {args : List Value} {w : World}
variable {r : EStateM.Result Exit World Reply}

theorem passes_eq_some_iff {a : Nat}
    (hvalue : args.headD .nil = .lightuserdata (.block a)) :
    w.passes args = some (.block a) <-> w.lua.SharesMetatable := by
  unfold World.passes
  rw [hvalue, LuaState.checkudata_eq_some_iff]
  constructor
  · rintro ⟨_, _, hmeta⟩
    exact hmeta
  · intro hmeta
    exact ⟨rfl, by simp, hmeta⟩

theorem close_outcome {a : Nat} {rec : SocketRecord}
    (hsound : w.accounts.Sound) (hrec : w.records a = some rec)
    (hvalue : args.headD .nil = .lightuserdata (.block a))
    (h : Outcome plat env args w (.call .close) r) :
    (headerSucceeds plat env w = true ∧ w.lua.SharesMetatable ∧
      exists w', r = .ok (.values []) w' ∧
        w'.accounts =
          w.accounts.close a rec.serial rec.info.hSocket rec.inst) ∨
    (¬(headerSucceeds plat env w = true ∧ w.lua.SharesMetatable) ∧
      exists e w', r = .error (.raise e) w' ∧ w'.accounts = w.accounts) := by
  cases h with
  | initFailed _ hinit =>
      refine Or.inr ⟨?_, _, _, rfl, accounts_emit rfl rfl⟩
      rw [hinit]
      simp
  | rejected _ _ hpass =>
      refine Or.inr ⟨?_, _, _, rfl, accounts_afterHeader⟩
      rintro ⟨_, hshares⟩
      rw [(passes_eq_some_iff hvalue).mpr hshares] at hpass
      cases hpass
  | @converting _ _ _ point _ _ _ _ hpoint =>
      cases point with
      | bind | send | recv => cases hpoint
  | invalid _ _ hargs => cases hargs
  | @acted _ p _ hf hderefs _ hact =>
      rcases checks_call.mp (checks_of_derefs hf hderefs).1 with
        ⟨_, hinit, hpass⟩
      have hp : p = .block a := by
        rw [← (LuaState.checkudata_eq_some_iff.mp hpass).1, hvalue]
        rfl
      have hinfo : w.infoAt env p = rec.info := by
        rw [hp]
        exact infoAt_of_record hrec
      rw [hp] at hpass
      rw [hinfo, hp] at hact
      cases hact
      refine Or.inl ⟨hinit, (passes_eq_some_iff hvalue).mp hpass, _, rfl, ?_⟩
      exact accounts_closing_of (accounts_reading _ _) (checked_records _ _)
        hsound rfl hrec

end Calls

section Steps

variable {plat : Platform} {w w' : World} {a : Action} {c : Invocation}
variable {l l' : Ledger}

theorem records_ne_none_iff (addr : Nat) :
    w.records addr ≠ none <-> w.accounts.owners.live addr ≠ none := by
  show _ <-> (w.records addr).map _ ≠ none
  cases w.records addr with
  | none => simp
  | some r => simp

theorem Accounted.congr (hacc : Accounted l)
    (haccounts : l'.world.accounts = l.world.accounts)
    (hpending : l'.world.pendingAddrs = l.world.pendingAddrs)
    (hout : l'.outstanding = l.outstanding) : Accounted l' where
  sound := by rw [haccounts]; exact hacc.sound
  balanced := by rw [haccounts]; exact hacc.balanced
  live_iff := by
    intro addr
    rw [records_ne_none_iff, haccounts, ← records_ne_none_iff, hpending, hout]
    exact hacc.live_iff addr
  nodup := by
    rw [hpending, hout]
    exact hacc.nodup

theorem outstanding_of_step (hstep : l.step plat a = some l')
    (hreturns : l.world.returns a = none) (hcloses : l.world.closes a = none) :
    l'.outstanding = l.outstanding := by
  rcases Option.map_eq_some_iff.mp hstep with ⟨v, _, rfl⟩
  simp [hreturns, hcloses]

theorem world_of_step (hstep : l.step plat a = some l') :
    step plat l.world a = some l'.world := by
  rcases Option.map_eq_some_iff.mp hstep with ⟨v, hv, rfl⟩
  exact hv

theorem returns_of_invocation (hcall : w.invocation a = some c) :
    w.returns a = none := by
  cases a with
  | call | gctm | resume => rfl
  | script | apiArgs | api | apiRaise | pausedRaise | collect | exit
  | closeState => cases hcall

theorem closes_of_none (hnone : w.invocation a = none) : w.closes a = none := by
  unfold World.closes
  rw [hnone]

theorem closes_of_ne (hcall : w.invocation a = some c) (hf : c.f ≠ .close) :
    w.closes a = none := by
  unfold World.closes
  rw [hcall]
  simp only
  split
  · rename_i hclose _
    exact absurd hclose hf
  · rfl

theorem closes_of_close {addr : Nat} (hcall : w.invocation a = some c)
    (hf : c.f = .close) (hvalue : c.args.headD .nil = .lightuserdata (.block addr)) :
    w.closes a = some addr := by
  unfold World.closes
  rw [hcall]
  simp only [hf, hvalue]

theorem accounted_returnFrame {fr : Frame} {rest : List Frame}
    (hacc : Accounted l) (hframes : l.world.frames = fr :: rest)
    (hworld : l'.world = l.world.returnFrame fr rest)
    (hout : l'.outstanding = fr.issue.addr :: l.outstanding) :
    Accounted l' := by
  have hpending : l.world.pendingAddrs =
      fr.issue.addr :: l'.world.pendingAddrs := by
    unfold World.pendingAddrs World.pendingIssues
    rw [hframes, hworld]
    rfl
  have hperm : (l'.world.pendingAddrs ++ l'.outstanding).Perm
      (l.world.pendingAddrs ++ l.outstanding) := by
    rw [hout, hpending]
    exact List.perm_middle
  have haccounts : l'.world.accounts = l.world.accounts := by
    rw [hworld]
    exact accounts_returnFrame _ _
  exact
    { sound := by rw [haccounts]; exact hacc.sound
      balanced := by rw [haccounts]; exact hacc.balanced
      live_iff := by
        intro addr
        rw [hperm.mem_iff, hworld]
        exact hacc.live_iff addr
      nodup := hperm.nodup_iff.mpr hacc.nodup }

theorem pendingAddrs_of_frames {v : World} (h : v.frames = w.frames) :
    v.pendingAddrs = w.pendingAddrs := by
  unfold World.pendingAddrs World.pendingIssues
  rw [h]

theorem accounted_made {addr : Nat} {h : Int} (hacc : Accounted l)
    (hfree : l.world.accounts.resources.live h = none)
    (hunused : l.world.records addr = none)
    (haccounts : l'.world.accounts = l.world.accounts.create addr h)
    (hpending : l'.world.pendingAddrs = addr :: l.world.pendingAddrs)
    (hout : l'.outstanding = l.outstanding) : Accounted l' := by
  have hholds : l.world.accounts.holds addr = none := by
    show (l.world.records addr).map _ = none
    rw [hunused]
    rfl
  have hnotMem : addr ∉ l.world.pendingAddrs ++ l.outstanding := by
    intro hmem
    exact (hacc.live_iff addr).mpr hmem hunused
  exact
    { sound := by rw [haccounts]; exact hacc.sound.create hfree
      balanced := by rw [haccounts]; exact hacc.balanced.create hholds
      live_iff := by
        intro b
        rw [records_ne_none_iff, haccounts, hpending, hout]
        show Function.update l.world.accounts.owners.live addr _ b ≠ none <-> _
        by_cases hb : b = addr
        · simp [hb]
        · rw [Function.update_of_ne hb, ← records_ne_none_iff,
            hacc.live_iff b]
          simp [hb]
      nodup := by
        rw [hpending, hout]
        exact List.nodup_cons.mpr ⟨hnotMem, hacc.nodup⟩ }

theorem accounted_dropped {addr : Nat} {rec : SocketRecord}
    (hacc : Accounted l) (hrec : l.world.records addr = some rec)
    (hmem : addr ∈ l.outstanding)
    (haccounts : l'.world.accounts =
      l.world.accounts.close addr rec.serial rec.info.hSocket rec.inst)
    (hpending : l'.world.pendingAddrs = l.world.pendingAddrs)
    (hout : l'.outstanding = l.outstanding.filter fun b => b ≠ addr) :
    Accounted l' := by
  have howner : l.world.accounts.owners.live addr = some rec.serial :=
    live_of_record hrec
  have hholds : l.world.accounts.holds addr =
      some (rec.info.hSocket, rec.inst) :=
    Option.map_eq_some_iff.mpr ⟨rec, hrec, rfl⟩
  have hnotPending : addr ∉ l.world.pendingAddrs := fun hpend =>
    (List.nodup_append.mp hacc.nodup).2.2 addr hpend addr hmem rfl
  exact
    { sound := by rw [haccounts]; exact hacc.sound.close howner hholds
      balanced := by rw [haccounts]; exact hacc.balanced.close hholds
      live_iff := by
        intro b
        rw [records_ne_none_iff, haccounts, hpending, hout]
        show Function.update l.world.accounts.owners.live addr none b ≠ none
          <-> _
        by_cases hb : b = addr
        · simp [hb, hnotPending]
        · rw [Function.update_of_ne hb, ← records_ne_none_iff,
            hacc.live_iff b]
          simp [hb]
      nodup := by
        rw [hpending, hout]
        exact List.Nodup.sublist
          (List.Sublist.append_left List.filter_sublist _) hacc.nodup }

theorem outstanding_of_close {addr : Nat} (hstep : l.step plat a = some l')
    (hcall : l.world.invocation a = some c)
    (hcloses : l.world.closes a = some addr) :
    l'.outstanding = l.outstanding.filter fun b => b ≠ addr := by
  rcases Option.map_eq_some_iff.mp hstep with ⟨v, _, rfl⟩
  simp [returns_of_invocation hcall, hcloses, eq_comm]

theorem accounted_other (hacc : Accounted l)
    (hdisc : Disciplined plat l a) (hcall : l.world.invocation a = some c)
    (hf : c.f ≠ .close) (hstep : l.step plat a = some l') : Accounted l' := by
  have hworld := world_of_step hstep
  rcases step_of_invocation hcall hworld with ⟨hadm, hw'⟩
  have hout := outstanding_of_step hstep (returns_of_invocation hcall)
    (closes_of_ne hcall hf)
  have houtcome := @enter_outcome plat c.env c.args c.start hadm c.entry
  have hframes := outcome_frames houtcome
  have hcrash : c.f = .create ∨ c.f = .accept ->
      (c.start.performCall plat c.entry c.args c.env).result ≠ .crashed := by
    intro hmaker
    rw [← hw']
    exact hdisc.no_crash c _ hcall hmaker hworld
  have heffect := outcome_effect_of_ne hf (hdisc.no_finalizer c hcall) houtcome
  have haccounts := @accounts_performCall plat c
  have hpending := @pendingIssues_performCall plat c hadm
  rcases invocation_start hcall with ⟨L, paused, hstart⟩
  unfold World.performCall at *
  generalize enter plat c.env c.args c.entry c.start = r at *
  generalize c.start.serialAt (c.args.headD .nil).toUserdata = serial at *
  rw [← hw'] at haccounts hpending hcrash
  cases heffect with
  | kept hkept hr =>
      apply hacc.congr (haccounts.trans (hkept.trans (accounts_start hcall))) _
        hout
      have hsame := hpending hr
      rw [hstart] at hsame
      exact congrArg (List.map Issue.addr) hsame
  | lost hmaker => exact absurd (congrArg World.result hw') (hcrash hmaker)
  | made hmaker hhandle hmalloc hmade =>
      rename_i handle addr v
      rw [accounts_start hcall] at hmade
      have hfree := handle_free hadm hhandle
      rw [accounts_start hcall] at hfree
      have hunused := (Env.malloc_fresh hadm hmalloc).1
      rw [hstart] at hunused hframes
      apply accounted_made hacc hfree hunused (haccounts.trans hmade) _ hout
      rw [hw']
      exact congrArg (List.cons addr) (pendingAddrs_of_frames hframes)
  | dropped hcloser =>
      exact absurd hcloser (not_or.mpr ⟨hf, hdisc.no_finalizer c hcall⟩)

/-- The call of `close` on an outstanding socket, with the two ways it can end. -/
theorem close_step (hacc : Accounted l) (hdisc : Disciplined plat l a)
    (hcall : l.world.invocation a = some c) (hf : c.f = .close)
    (hstep : l.step plat a = some l') :
    exists addr rec, addr ∈ l.outstanding ∧ l.world.records addr = some rec ∧
      l'.outstanding = (l.outstanding.filter fun b => b ≠ addr) ∧
      l'.world.pendingAddrs = l.world.pendingAddrs ∧
      ((headerSucceeds plat c.env c.start = true ∧ c.start.lua.SharesMetatable ∧
        l'.world.accounts = l.world.accounts.close addr rec.serial
          rec.info.hSocket rec.inst) ∨
      (¬(headerSucceeds plat c.env c.start = true ∧
          c.start.lua.SharesMetatable) ∧
        l'.world.accounts = l.world.accounts)) := by
  have hentry : c.entry = .call .close := entry_of_close hf
  rcases hdisc.socket_open c hcall (by rw [hentry]; rfl) (by rw [hf]; decide) with
    ⟨addr, hmem, hvalue⟩
  have hne := (hacc.live_iff addr).mpr (List.mem_append_right _ hmem)
  rcases Option.ne_none_iff_exists'.mp hne with ⟨rec, hrec⟩
  have hout := outstanding_of_close hstep hcall
    (closes_of_close hcall hf hvalue)
  rcases step_of_invocation hcall (world_of_step hstep) with ⟨hadm, hw'⟩
  have houtcome := @enter_outcome plat c.env c.args c.start hadm c.entry
  have haccounts := @accounts_performCall plat c
  have hpending := @pendingIssues_performCall plat c hadm
  rw [← hw'] at haccounts hpending
  have hsound : c.start.accounts.Sound := by
    rw [accounts_start hcall]
    exact hacc.sound
  have hstart : c.start.records = l.world.records ∧
      c.start.pendingIssues = l.world.pendingIssues := by
    rcases invocation_start hcall with ⟨L, paused, hstart⟩
    rw [hstart]
    exact ⟨rfl, rfl⟩
  have hrec' : c.start.records addr = some rec := by
    rw [hstart.1]
    exact hrec
  rw [hentry] at houtcome haccounts hpending
  refine ⟨addr, rec, hmem, hrec, hout, ?_, ?_⟩
  · refine congrArg (List.map Issue.addr) (Eq.trans (hpending ?_) hstart.2)
    intro fr v hbuilding
    rcases close_outcome hsound hrec' hvalue houtcome with
      ⟨_, _, w', hr, _⟩ | ⟨_, _, w', hr, _⟩
    · rw [hbuilding] at hr
      cases hr
    · rw [hbuilding] at hr
      cases hr
  · rcases close_outcome hsound hrec' hvalue houtcome with
      ⟨hheader, hshares, w', hr, hclosed⟩ | ⟨hnot, e, w', hr, hkept⟩
    · refine Or.inl ⟨hheader, hshares, ?_⟩
      rw [haccounts, hr, ← accounts_start hcall]
      exact hclosed
    · refine Or.inr ⟨hnot, ?_⟩
      rw [haccounts, hr, ← accounts_start hcall]
      exact hkept

theorem accounted_shut (hacc : Accounted l) (hframes : l.world.frames = [])
    (hout : l.outstanding = []) (hout' : l'.outstanding = l.outstanding)
    (hframes' : l'.world.frames = l.world.frames)
    (hshut : l'.world.accounts = l.world.accounts.shut) : Accounted l' := by
  have hempty : l.world.pendingAddrs ++ l.outstanding = [] := by
    rw [hout]
    unfold World.pendingAddrs World.pendingIssues
    rw [hframes]
    rfl
  have hrecords : forall addr, l.world.accounts.owners.live addr = none := by
    intro addr
    by_contra hne
    have hmem := (hacc.live_iff addr).mp ((records_ne_none_iff addr).mpr hne)
    rw [hempty] at hmem
    cases hmem
  have hholds : forall addr, l.world.accounts.holds addr = none := fun addr =>
    (hacc.sound.holds_iff addr).mpr (hrecords addr)
  exact
    { sound := by rw [hshut]; exact hacc.sound.shut hholds
      balanced := by rw [hshut]; exact fun _ hlive => absurd rfl hlive
      live_iff := by
        intro addr
        rw [records_ne_none_iff, hshut, pendingAddrs_of_frames hframes', hout',
          hempty]
        simp [Accounts.shut, hrecords addr]
      nodup := by
        rw [pendingAddrs_of_frames hframes', hout', hempty]
        exact List.nodup_nil }

theorem accounted_exit (hacc : Accounted l) (hsettles : Settles plat l .exit)
    (hstep : l.step plat .exit = some l') : Accounted l' := by
  rcases exit_inv (world_of_step hstep) with ⟨hframes, _, _, hw'⟩
  have hout : l'.outstanding = l.outstanding :=
    outstanding_of_step hstep rfl rfl
  have hframes' : l'.world.frames = l.world.frames := by
    rw [hw']
    exact exit_frames
  by_cases hshut : l.world.ShutsDown plat
  · apply accounted_shut hacc hframes (hsettles.shutdown rfl hshut) hout hframes'
    rw [hw', accounts_exit, if_pos hshut]
  · apply hacc.congr _ (pendingAddrs_of_frames hframes') hout
    rw [hw']
    exact accounts_exit_of_not hshut

theorem returns_eq_some {addr : Nat} (h : w.returns a = some addr) :
    exists v fr rest, a = .api v ∧ w.frames = fr :: rest ∧ fr.code = [] ∧
      fr.issue.addr = addr := by
  unfold World.returns at h
  split at h
  · rename_i v
    split at h
    · rename_i fr rest hframes
      split at h
      · rename_i hcode
        exact ⟨v, fr, rest, rfl, hframes, hcode, Option.some.inj h⟩
      · cases h
    · cases h
  · cases h

theorem accounted_returned {addr : Nat} (hacc : Accounted l)
    (hreturns : l.world.returns a = some addr)
    (hstep : l.step plat a = some l') : Accounted l' := by
  rcases returns_eq_some hreturns with ⟨v, fr, rest, rfl, hframes, hcode, haddr⟩
  rcases api_inv (world_of_step hstep) with
    ⟨fr', rest', hframes', ⟨_, hw'⟩ | ⟨L, fr'', hapi, _⟩⟩
  · rw [hframes] at hframes'
    cases hframes'
    apply accounted_returnFrame hacc hframes hw'
    rcases Option.map_eq_some_iff.mp hstep with ⟨u, _, rfl⟩
    have hcloses : l.world.closes (.api v) = none := rfl
    simp [hreturns, hcloses, haddr]
  · rw [hframes] at hframes'
    cases hframes'
    unfold apiStep at hapi
    rw [hcode] at hapi
    cases hapi

theorem step_accounted (hacc : Accounted l) (hdisc : Disciplined plat l a)
    (hsettles : Settles plat l a) (hstep : l.step plat a = some l') :
    Accounted l' := by
  cases hreturns : l.world.returns a with
  | some addr => exact accounted_returned hacc hreturns hstep
  | none =>
      have hworld := world_of_step hstep
      generalize hv : l'.world = v at hworld
      cases step_shape hworld with
      | quiet hnone hpending =>
          have hout := outstanding_of_step hstep hreturns (closes_of_none hnone)
          refine hacc.congr ?_ ?_ hout
          · rw [hv]
            rfl
          · rw [hv]
            exact congrArg (List.map Issue.addr) hpending
      | ended ha =>
          subst ha
          refine hacc.congr ?_ ?_ (outstanding_of_step hstep rfl rfl)
          · rw [hv]
            rfl
          · rw [hv]
            rfl
      | raised ha => exact absurd ha (hdisc.no_raise _)
      | abandoned ha =>
          subst ha
          refine hacc.congr ?_ ?_ (outstanding_of_step hstep rfl rfl)
          · rw [hv]
            rfl
          · rw [hv]
            rfl
      | @returned u fr rest ha hframes hcode =>
          subst ha
          unfold World.returns at hreturns
          rw [hframes] at hreturns
          simp only [hcode, if_true] at hreturns
          cases hreturns
      | exited ha =>
          subst ha
          exact accounted_exit hacc hsettles hstep
      | @called c hcall hadm =>
          by_cases hf : c.f = .close
          · rcases close_step hacc hdisc hcall hf hstep with
              ⟨addr, rec, hmem, hrec, hout, hpending, ⟨_, _, hclosed⟩ |
                ⟨hnot, _⟩⟩
            · exact accounted_dropped hacc hrec hmem hclosed hpending hout
            · exact absurd (hsettles.accepts c hcall hf) hnot
          · exact accounted_other hacc hdisc hcall hf hstep

theorem initialLedger_accounted : Accounted .initial where
  sound := initialWorld_accounts_sound
  balanced := fun _ h => absurd rfl h
  live_iff := by
    intro addr
    constructor
    · intro h
      exact absurd rfl h
    · intro h
      cases h
  nodup := List.nodup_nil

end Steps

/-!
# Exact accounts
-/

structure ExactAccounts (plat : Platform) (l : Ledger) : Prop where
  one_to_one :
    Set.BijOn l.world.hSocketOf {a | l.world.records a ≠ none}
      {h | l.world.handles h ≠ none}
  live_values : forall a, l.world.records a ≠ none <->
    a ∈ l.world.pendingAddrs ++ l.outstanding
  all_closed : l.world.frames = [] -> l.outstanding = [] ->
    (forall a, l.world.records a = none) ∧
      forall h, l.world.handles h = none
  unchanged : forall a c w', l.world.invocation a = some c ->
    c.f = .recv ∨ c.f = .send ∨ c.f = .bind ∨ c.f = .listen ->
    step plat l.world a = some w' ->
    (forall addr, (w'.records addr).map (fun r => r.info.hSocket) =
        (l.world.records addr).map fun r => r.info.hSocket) ∧
      forall h, w'.handles h ≠ none <-> l.world.handles h ≠ none

section Exact

variable {plat : Platform} {w w' : World} {l l' : Ledger} {a : Action}

theorem handles_ne_none_iff (h : Int) :
    w.handles h ≠ none <-> w.accounts.resources.live h ≠ none := by
  show _ <-> (w.handles h).map _ ≠ none
  cases w.handles h with
  | none => simp
  | some s => simp

theorem Accounted.bijOn (hacc : Accounted l) :
    Set.BijOn l.world.hSocketOf {a | l.world.records a ≠ none}
      {h | l.world.handles h ≠ none} := by
  have hbij := @Accounts.Sound.bijOn _ _ _ hacc.sound hacc.balanced
    l.world.hSocketOf (by
      intro a h t hholds
      rcases Option.map_eq_some_iff.mp hholds with ⟨r, hr, heq⟩
      unfold World.hSocketOf
      rw [hr]
      exact congrArg Prod.fst heq)
  have hrecords : {a | l.world.records a ≠ none} =
      {a | l.world.accounts.owners.live a ≠ none} :=
    Set.ext fun a => records_ne_none_iff a
  have hhandles : {h | l.world.handles h ≠ none} =
      {h | l.world.accounts.resources.live h ≠ none} :=
    Set.ext fun h => handles_ne_none_iff h
  rw [hrecords, hhandles]
  exact hbij

theorem hSocket_of_accounts (h : w'.accounts = w.accounts) (addr : Nat) :
    (w'.records addr).map (fun r => r.info.hSocket) =
      (w.records addr).map fun r => r.info.hSocket := by
  have hholds : (w'.accounts.holds addr).map Prod.fst =
      (w.accounts.holds addr).map Prod.fst := by rw [h]
  unfold World.accounts at hholds
  rw [Option.map_map, Option.map_map] at hholds
  exact hholds

theorem accounts_unchanged {c : Invocation}
    (hcall : w.invocation a = some c)
    (hf : c.f = .recv ∨ c.f = .send ∨ c.f = .bind ∨ c.f = .listen)
    (hstep : step plat w a = some w') : w'.accounts = w.accounts := by
  cases step_accounts hstep with
  | kept hkept => exact hkept
  | shut ha =>
      rw [ha] at hcall
      cases hcall
  | @called c' hcall' hadm hw' =>
      rw [hcall] at hcall'
      cases hcall'
      have heffect := @outcome_effect_of_ne plat c.env c.args c.start c.entry _
        (by rcases hf with h | h | h | h <;> simp [show c.entry.f = _ from h])
        (by rcases hf with h | h | h | h <;> simp [show c.entry.f = _ from h])
        (enter_outcome hadm c.entry)
      rw [hw', accounts_performCall, ← accounts_start hcall]
      generalize enter plat c.env c.args c.entry c.start = r at heffect
      cases heffect with
      | kept hkept => exact hkept
      | lost hmaker | made hmaker =>
          rcases hmaker with h | h <;> simp [h] at hf
      | dropped hcloser =>
          rcases hcloser with h | h <;> simp [h] at hf

theorem Accounted.exactAccounts (hacc : Accounted l) : ExactAccounts plat l where
  one_to_one := hacc.bijOn
  live_values := hacc.live_iff
  all_closed := by
    intro hframes hout
    have hrecords : forall a, l.world.records a = none := by
      intro a
      by_contra ha
      have hmem := (hacc.live_iff a).mp ha
      unfold World.pendingAddrs World.pendingIssues at hmem
      rw [hframes, hout] at hmem
      cases hmem
    refine ⟨hrecords, ?_⟩
    intro h
    by_contra hh
    rcases hacc.bijOn.2.2 hh with ⟨a, ha, _⟩
    exact ha (hrecords a)
  unchanged := by
    intro a c w' hcall hf hstep
    have hkept := accounts_unchanged hcall hf hstep
    refine ⟨hSocket_of_accounts hkept, ?_⟩
    intro h
    rw [handles_ne_none_iff, hkept, ← handles_ne_none_iff]

theorem not_exact_of_refused {c : Invocation} (hacc : Accounted l)
    (hdisc : Disciplined plat l a) (hcall : l.world.invocation a = some c)
    (hf : c.f = .close) (hstep : l.step plat a = some l')
    (hnot : ¬(headerSucceeds plat c.env c.start = true ∧
      c.start.lua.SharesMetatable)) : ¬ExactAccounts plat l' := by
  intro hexact
  rcases close_step hacc hdisc hcall hf hstep with
    ⟨addr, rec, hmem, hrec, hout, hpending, ⟨hheader, hshares, _⟩ |
      ⟨_, hkept⟩⟩
  · exact hnot ⟨hheader, hshares⟩
  · have hlive : l'.world.records addr ≠ none := by
      rw [records_ne_none_iff, hkept, ← records_ne_none_iff, hrec]
      simp
    have hin := (hexact.live_values addr).mp hlive
    rw [hpending, hout] at hin
    rcases List.mem_append.mp hin with hin | hin
    · exact (List.nodup_append.mp hacc.nodup).2.2 addr hin addr hmem rfl
    · simp at hin

theorem not_exact_of_shut (hacc : Accounted l)
    (hstep : l.step plat .exit = some l') (hshut : l.world.ShutsDown plat)
    (hleft : l.outstanding ≠ []) : ¬ExactAccounts plat l' := by
  intro hexact
  rcases List.exists_mem_of_ne_nil _ hleft with ⟨addr, hmem⟩
  have hw' := (exit_inv (world_of_step hstep)).2.2.2
  have hlive : l'.world.records addr ≠ none := by
    rcases @exit_state plat l.world with ⟨L, handles, log, hexit⟩
    rw [hw', hexit]
    exact (hacc.live_iff addr).mpr (List.mem_append_right _ hmem)
  apply hexact.one_to_one.mapsTo hlive
  rw [hw', exit_handles, if_pos hshut]

theorem not_exact_of_unsettled (hacc : Accounted l)
    (hdisc : Disciplined plat l a) (hstep : l.step plat a = some l')
    (hnot : ¬Settles plat l a) : ¬ExactAccounts plat l' := by
  by_cases haccepts : forall c, l.world.invocation a = some c ->
      c.f = .close ->
      headerSucceeds plat c.env c.start = true ∧ c.start.lua.SharesMetatable
  · have hshutdown : ¬(a = .exit -> l.world.ShutsDown plat ->
        l.outstanding = []) := fun h => hnot ⟨haccepts, h⟩
    push Not at hshutdown
    rcases hshutdown with ⟨rfl, hshut, hleft⟩
    exact not_exact_of_shut hacc hstep hshut hleft
  · push Not at haccepts
    rcases haccepts with ⟨c, hcall, hf, hrefused⟩
    exact not_exact_of_refused hacc hdisc hcall hf hstep
      fun h => hrefused h.1 h.2

end Exact

/--
In every state of a disciplined run the live records own the open handles one to
one, and they are the values that are returned and not passed to `close`, with
those of the calls in progress: exactly if each call of `close` is made while the
check accepts sockets, and no socket is left open at the shutdown on Windows.
-/
theorem exactAccounts_iff_settles (plat : Platform) (actions : List Action)
    (l : Ledger) (hrun : runFrom (Ledger.step plat) .initial actions = some l)
    (hdisc : AllSteps (Ledger.step plat) (Disciplined plat) .initial actions) :
    AllStates (Ledger.step plat) (ExactAccounts plat) .initial actions <->
      AllSteps (Ledger.step plat) (Settles plat) .initial actions :=
  allStates_iff_allSteps_of_side
    (fun _ _ _ hacc hd hs hstep => step_accounted hacc hd hs hstep)
    (fun _ hacc => hacc.exactAccounts)
    (fun _ _ _ hacc hd hstep hnot => not_exact_of_unsettled hacc hd hstep hnot)
    initialLedger_accounted hdisc hrun

/-- The socket that a finalizer has created in the first `socket.create()` is closed. -/
def closeWithin : List Action :=
  createWithin ++ callOn .close "close" 32 [] {}

/-- The close is refused, and the socket that was passed to it stays open. -/
theorem closeWithin_not_exact :
    ¬forall actions l,
      runFrom (Ledger.step .unix) .initial actions = some l ->
      AllSteps (Ledger.step .unix) (Disciplined .unix) .initial actions ->
      AllStates (Ledger.step .unix) (ExactAccounts .unix) .initial actions := by
  intro hall
  have hrun : (runFrom (Ledger.step .unix) .initial closeWithin).map (fun l =>
      ((l.world.records 32).isSome, l.world.pendingAddrs, l.outstanding)) =
        some (true, [16], []) := by
    decide +kernel
  rcases Option.map_eq_some_iff.mp hrun with ⟨l, hl, hfacts⟩
  simp only [Prod.mk.injEq] at hfacts
  rcases hfacts with ⟨hlive, hpending, hout⟩
  have hexact := hall closeWithin l hl (by decide +kernel) closeWithin [] l
    (List.append_nil _).symm hl
  have hmem := (hexact.live_values 32).mp
    (Option.isSome_iff_ne_none.mp hlive)
  rw [hpending, hout] at hmem
  simp at hmem

/-- A server that accepts one client, answers it and closes both sockets. -/
def serveOne : List Action :=
  createFirst { handle := some 3, malloc := some 16 } ++
    callOn .listen "listen" 16 [] {} ++
    callOn .accept "accept" 16 [] { handle := some 4, malloc := some 32 } ++
    finishLater ++
    callOn .recv "recv" 32 [] { malloc := some 48, recv := some (ascii "hi") } ++
    [.resume {}, .script (.literal (str "ok"))] ++
    callOn .send "send" 32 [str "ok"] { sent := some 2 } ++
    callOn .close "close" 32 [] {} ++ callOn .close "close" 16 [] {}

theorem serveOne_exactAccounts :
    exists l, runFrom (Ledger.step .unix) .initial serveOne = some l ∧
      AllStates (Ledger.step .unix) (ExactAccounts .unix) .initial
        serveOne := by
  have hsome : (runFrom (Ledger.step .unix) .initial serveOne).isSome = true := by
    decide +kernel
  rcases Option.isSome_iff_exists.mp hsome with ⟨l, hrun⟩
  exact ⟨l, hrun,
    (exactAccounts_iff_settles .unix serveOne l hrun (by decide +kernel)).mpr
      (by decide +kernel)⟩

end LuaServer
