import LuaServer.Interpreter.Suspended
import LuaServer.Socklib.Effects
import Mathlib.Data.List.Perm.Subperm

/-!
# Temporary blocks

The receive buffer of `socklib_recv` and the address that `socket_BindSocketR`
allocates are owned by C code alone.  A call is neutral if it leaves as many of
them behind as it found, however it ends: at once, or suspended in the Lua API, from
where it goes on or is left by an error.
-/

namespace LuaServer

open Library

/--
How a call ends.  A suspended one has left the state `u`, and `v` is the state in
which the Lua code that was run meanwhile leaves it.
-/
inductive Ending where
  | atOnce
  | resumed (u v : World) (env : Env)
  | left (u v : World)

/-- The call, made in `w`, ends in this way and leaves `w'`. -/
inductive EndedCall (plat : Platform) (w : World) (c : Invocation) :
    Ending -> World -> Prop where
  | atOnce {a : Action} {w' : World} :
      w.invocation a = some c -> step plat w a = some w' ->
      w'.result ≠ .paused -> EndedCall plat w c .atOnce w'
  | resumed {a : Action} {env : Env} {u v w' : World} :
      w.invocation a = some c -> step plat w a = some u ->
      u.result = .paused -> Reachable (step plat) u v ->
      v.paused = u.paused -> step plat v (.resume env) = some w' ->
      EndedCall plat w c (.resumed u v env) w'
  | left {a : Action} {e : LuaError} {u v w' : World} :
      w.invocation a = some c -> step plat w a = some u ->
      u.result = .paused -> Reachable (step plat) u v ->
      v.paused = u.paused -> step plat v (.pausedRaise e) = some w' ->
      EndedCall plat w c (.left u v) w'

/--
The outstanding blocks are the same after the call as before it.  Of a suspended call
the two parts count, not what Lua code does between them.
-/
def BlocksNeutral (w : World) : Ending -> World -> Prop
  | .atOnce, w' => w'.blocks = w.blocks
  | .resumed u v _, w' => (w.blocks ++ v.blocks).Perm (u.blocks ++ w'.blocks)
  | .left u v, w' => (w.blocks ++ v.blocks).Perm (u.blocks ++ w'.blocks)

def Invocation.AllocatesNothing (plat : Platform) (c : Invocation) : Prop :=
  c.start.derefs plat c.env c.args c.entry = none ∨ c.env.malloc = none

/-- The part of `bind` that gets to the address allocates nothing. -/
def BindAllocatesNothing (plat : Platform) (c : Invocation) : Ending -> Prop
  | .atOnce => c.AllocatesNothing plat
  | .resumed _ v env => forall c', v.invocation (.resume env) = some c' ->
      c'.AllocatesNothing plat
  | .left _ _ => True

/-- A call of `recv` that allocates its buffer gets to the end of the function. -/
def ComesToFree (plat : Platform) (c : Invocation) (ending : Ending) : Prop :=
  forall p size, c.start.derefs plat c.env c.args c.entry = some p ->
    luaLOptint c.env c.args 2 2048 = .ok size -> c.env.malloc.isSome = true ->
    (c.start.recvData c.env (c.start.infoAt c.env p).hSocket size).isSome =
      true ∧ exists u v env, ending = .resumed u v env

def PausePoint.buffer? : PausePoint -> Option Nat
  | .recv buff _ => buff
  | _ => none

def World.buffers (w : World) : List Nat :=
  w.paused.filterMap fun p => p.point.buffer?

def World.BuffersHeld (w : World) : Prop := w.buffers.Subperm w.blocks

section Blocks

variable {plat : Platform} {env : Env} {args : List Value} {w : World}
variable {entry : Entry} {p : Ptr} {info : SocketInfo} {v : World}
variable {r : EStateM.Result Exit World Reply}

theorem checked_blocks (entry : Entry) (p : Ptr) :
    (w.checked entry p).blocks = w.blocks :=
  checked_keeps World.blocks (fun _ _ => rfl) afterHeader_blocks

theorem reading_blocks (entry : Entry) (p : Ptr) :
    (w.reading entry p).blocks = w.blocks := checked_blocks entry p

theorem afterStatus_blocks {c : Caller} {op : OsOp} {h status : Int}
    {update : OsSocket -> OsSocket} :
    (v.afterStatus c op h status update).blocks = v.blocks := by
  unfold World.afterStatus
  split
  · rfl
  · split
    · rfl
    · rfl

theorem closing_blocks {c : Caller} {h : Int} :
    (v.closing c h).blocks = v.blocks := by
  unfold World.closing World.afterFree
  cases c.via with
  | null | sentinel | udata | block => rfl

theorem withBlock_blocks :
    (v.withBlock env).blocks = env.malloc.toList ++ v.blocks := by
  unfold World.withBlock
  cases env.malloc with
  | none | some => rfl

theorem act_blocks {f : CFunction} (hf : f = .bind ∨ f = .recv)
    (h : Act plat env args p v info f r) :
    (finalState r).blocks = env.malloc.toList ++ v.blocks := by
  cases h with
  | bindNoMemory hmalloc | recvNoMemory _ _ hmalloc => rw [hmalloc]; rfl
  | bindFailed | bound => exact afterStatus_blocks.trans withBlock_blocks
  | recvFailed | received => exact withBlock_blocks
  | listened | acceptFailed | acceptNoMemory | accepted | sent | closed =>
      rcases hf with h | h <;> cases h

def World.taken (plat : Platform) (env : Env) (args : List Value) (w : World)
    (entry : Entry) : List Nat :=
  if (w.derefs plat env args entry).isSome then env.malloc.toList else []

theorem taken_blocks (hf : entry.f = .bind ∨ entry = .call .recv)
    (hnull : w.derefs plat env args entry ≠ some .null)
    (h : Outcome plat env args w entry r) :
    (finalState r).blocks = w.taken plat env args entry ++ w.blocks := by
  have hentry : entry.f = .bind ∨ entry.f = .recv :=
    hf.imp_right fun hrecv => by rw [hrecv]; rfl
  have hsocket : entry.f.takesSocket = true := by
    rcases hentry with h | h <;> rw [h] <;> rfl
  unfold World.taken
  cases hderefs : w.derefs plat env args entry with
  | some p =>
      have hact := acted_of_derefs hsocket hderefs
        (fun hp => hnull (hp ▸ hderefs)) h
      exact (act_blocks hentry hact).trans (by rw [reading_blocks]; rfl)
  | none =>
      show _ = w.blocks
      cases h with
      | initFailed => rfl
      | rejected => exact afterHeader_blocks
      | @converting f q => exact checked_blocks (.call f) q
      | invalid => exact checked_blocks _ _
      | acted _ hsome | resumedNull hsome =>
          rw [hderefs] at hsome
          cases hsome
      | freed => rcases hf with h | h <;> cases h
      | createFailed | createNoMemory | created | collectNull | collected =>
          cases hsocket

/-- A call that is suspended while it makes a string of its bytes has a buffer. -/
inductive Suspends (plat : Platform) (env : Env) (args : List Value)
    (w : World) (f : CFunction) : PausePoint -> World -> Prop where
  | converting {p : Ptr} {v : World} {point : PausePoint} :
      point.f = f -> point.iSocket? = some p -> v.blocks = w.blocks ->
      Suspends plat env args w f point v
  | received {a : Nat} {p : Ptr} {size : Int} {data : LuaString} {v : World} :
      f = .recv -> w.derefs plat env args (.call .recv) = some p ->
      luaLOptint env args 2 2048 = .ok size -> env.malloc = some a ->
      w.recvData env (w.infoAt env p).hSocket size = some data ->
      v.blocks = a :: w.blocks ->
      Suspends plat env args w f (.recv (some a) data) v

theorem withBlock_of_some {a : Nat} (hmalloc : env.malloc = some a) :
    (v.withBlock env).blocks = a :: v.blocks := by
  rw [withBlock_blocks, hmalloc]
  rfl

theorem suspends_of_outcome {f : CFunction} {args' : List Value}
    {point : PausePoint}
    (h : Outcome plat env args w (.call f) (.ok (.paused args' point) v)) :
    Suspends plat env args w f point v := by
  cases h with
  | converting _ _ _ _ hpoint hsocket =>
      exact .converting hpoint hsocket (checked_blocks _ _)
  | acted hsocket hderefs _ hact =>
      change Act plat env args _ _ _ f _ at hact
      cases hact with
      | received hsize hdata hmalloc =>
          rcases Option.isSome_iff_exists.mp hmalloc with ⟨a, ha⟩
          rw [recvData_reading] at hdata
          rw [ha]
          refine .received rfl hderefs hsize ha hdata ?_
          exact (withBlock_of_some ha).trans (congrArg _ (reading_blocks _ _))

end Blocks

/-!
# The buffers of suspended calls
-/

section Steps

variable {plat : Platform} {w w' : World} {a : Action} {c : Invocation}

def replyBuffer : EStateM.Result Exit World Reply -> List Nat
  | .ok (.paused _ point) _ => point.buffer?.toList
  | _ => []

def Entry.buffer : Entry -> List Nat
  | .call _ => []
  | .resume point => point.buffer?.toList

theorem act_buffer {env : Env} {args : List Value} {p : Ptr} {v : World}
    {info : SocketInfo} {f : CFunction} {r : EStateM.Result Exit World Reply}
    {held : List Nat} (hheld : held.Subperm v.blocks)
    (h : Act plat env args p v info f r) :
    (replyBuffer r ++ held).Subperm (finalState r).blocks := by
  have hblock : held.Subperm (v.withBlock env).blocks := by
    unfold World.withBlock
    split
    · exact hheld
    · exact hheld.trans (List.sublist_cons_self _ _).subperm
  cases h with
  | bindNoMemory | acceptFailed | acceptNoMemory | recvNoMemory | sent =>
      exact hheld
  | bindFailed | bound =>
      show held.Subperm (World.afterStatus _ _ _ _ _ _).blocks
      rw [afterStatus_blocks]
      exact hblock
  | listened =>
      show held.Subperm (World.afterStatus _ _ _ _ _ _).blocks
      rw [afterStatus_blocks]
      exact hheld
  | accepted _ _ hu =>
      rw [hu]
      exact hheld
  | recvFailed => exact hblock
  | received _ _ hmalloc =>
      rcases Option.isSome_iff_exists.mp hmalloc with ⟨a, ha⟩
      have hblocks : (v.withBlock env).blocks = a :: v.blocks :=
        withBlock_of_some ha
      show (env.malloc.toList ++ held).Subperm (v.withBlock env).blocks
      rw [hblocks, ha]
      exact (List.subperm_cons a).mpr hheld
  | closed =>
      show held.Subperm (World.closing _ _ _).blocks
      rw [closing_blocks]
      exact hheld

/-- A call gives up the buffer it was suspended with, and no other. -/
theorem outcome_buffer {env : Env} {args : List Value} {entry : Entry}
    {r : EStateM.Result Exit World Reply} {held : List Nat}
    (hheld : (entry.buffer ++ held).Subperm w.blocks)
    (h : Outcome plat env args w entry r) :
    (replyBuffer r ++ held).Subperm (finalState r).blocks := by
  have hold : held.Subperm w.blocks :=
    (List.sublist_append_right _ _).subperm.trans hheld
  have hheader : held.Subperm w.afterHeader.blocks :=
    afterHeader_blocks.symm ▸ hold
  have hchecked : forall e p, held.Subperm (w.checked e p).blocks :=
    fun e p => (checked_blocks e p).symm ▸ hold
  cases h with
  | initFailed => exact hold
  | rejected => exact hheader
  | @converting f p _ point _ _ _ _ _ hsocket =>
      cases point with
      | bind | send => exact hchecked (.call f) p
      | recv => cases hsocket
  | invalid => exact hchecked _ _
  | @acted _ p _ _ _ _ hact =>
      have hread : held.Subperm (w.reading entry p).blocks := hchecked entry p
      exact act_buffer hread hact
  | resumedNull => exact hold
  | @freed buff s =>
      cases buff with
      | none => exact hold
      | some a =>
          have herase := List.Subperm.erase a hheld
          change ((a :: held).erase a).Subperm _ at herase
          rw [List.erase_cons_head] at herase
          exact herase
  | createFailed | createNoMemory => exact hheader
  | created _ _ _ hu =>
      rw [hu]
      exact hheader
  | collectNull => exact hold
  | collected =>
      show held.Subperm (World.closing _ _ _).blocks
      rw [closing_blocks]
      exact hold

theorem start_buffers (hcall : w.invocation a = some c) :
    c.entry.buffer ++ c.start.buffers = w.buffers := by
  unfold World.buffers
  rcases entry_of_invocation hcall with
    ⟨f, hentry, hpaused⟩ | ⟨p, rest, hpaused, hentry, _, hstart⟩
  · rw [hentry, hpaused]
    rfl
  · rw [hentry, hpaused, hstart]
    show p.point.buffer?.toList ++ rest.filterMap _ = _
    cases hbuffer : p.point.buffer? with
    | none => simp [hbuffer]
    | some a => simp [hbuffer]

theorem start_blocks (hcall : w.invocation a = some c) :
    c.start.blocks = w.blocks := by
  rcases invocation_start hcall with ⟨L, paused, hstart⟩
  rw [hstart]

theorem finishCall_blocks {f : CFunction} {serial : Option Nat}
    {r : EStateM.Result Exit World Reply} :
    (World.finishCall f serial r).blocks = (finalState r).blocks := by
  rcases r with ⟨_ | _ | _, v⟩ | ⟨_ | _, v⟩ <;> rfl

theorem finishCall_buffers {f : CFunction} {serial : Option Nat}
    {r : EStateM.Result Exit World Reply} :
    (World.finishCall f serial r).buffers =
      replyBuffer r ++ (finalState r).buffers := by
  rcases r with ⟨_ | _ | ⟨args, point⟩, v⟩ | ⟨_ | _, v⟩
  · rfl
  · rfl
  · show ((⟨args, point, _⟩ :: v.paused : List Paused).filterMap _) = _
    unfold replyBuffer World.buffers finalState
    cases hbuffer : point.buffer? with
    | none => simp [hbuffer]
    | some a => simp [hbuffer]
  · rfl
  · rfl

theorem step_buffersHeld (h : w.BuffersHeld) (hstep : step plat w a = some w') :
    w'.BuffersHeld := by
  unfold World.BuffersHeld at *
  cases step_shape hstep with
  | quiet | ended | raised | returned => exact h
  | @abandoned _ p rest _ hpaused =>
      refine List.Subperm.trans (List.Sublist.subperm ?_) h
      unfold World.buffers
      rw [hpaused]
      exact (List.sublist_cons_self p rest).filterMap _
  | exited =>
      rcases @exit_state plat w with ⟨L, handles, log, hexit⟩
      rw [hexit]
      exact h
  | @called c hcall hadm =>
      have houtcome := @enter_outcome plat c.env c.args c.start hadm c.entry
      have hkept : (finalState (enter plat c.env c.args c.entry
          c.start)).buffers = c.start.buffers := by
        unfold World.buffers
        rw [outcome_paused houtcome]
      rw [← start_buffers hcall, ← start_blocks hcall] at h
      unfold World.performCall
      rw [finishCall_buffers, finishCall_blocks, hkept]
      exact outcome_buffer h houtcome

theorem initialWorld_buffersHeld : initialWorld.BuffersHeld :=
  List.Subperm.refl []

theorem reachable_buffersHeld (h : ReachableWorld plat w) : w.BuffersHeld :=
  reachable_invariant (fun _ _ _ hs hstep => step_buffersHeld hs hstep)
    initialWorld_buffersHeld h

end Steps

/-!
# Endings
-/

section Endings

variable {plat : Platform} {w u v w' : World} {a : Action} {c : Invocation}

theorem ne_null_of_checked (h : c.Checked plat) :
    c.start.derefs plat c.env c.args c.entry ≠ some .null :=
  fun hderefs => (h.socket _ hderefs).1 rfl

theorem allocatesNothing_iff :
    c.AllocatesNothing plat <->
      c.start.taken plat c.env c.args c.entry = [] := by
  unfold Invocation.AllocatesNothing World.taken
  cases c.start.derefs plat c.env c.args c.entry with
  | none => simp
  | some p => cases c.env.malloc <;> simp

theorem invocation_blocks (hchecked : c.Checked plat)
    (hf : c.f = .bind ∨ c.entry = .call .recv)
    (hcall : w.invocation a = some c) (hstep : step plat w a = some w') :
    w'.blocks = c.start.taken plat c.env c.args c.entry ++ w.blocks := by
  rcases step_of_invocation hcall hstep with ⟨hadm, rfl⟩
  unfold World.performCall
  rw [finishCall_blocks, ← start_blocks hcall]
  exact taken_blocks hf (ne_null_of_checked hchecked) (enter_outcome hadm _)

theorem perm_append_iff {taken : List Nat} :
    w.blocks.Perm (taken ++ w.blocks) <-> taken = [] := by
  constructor
  · intro h
    have hlength := h.length_eq
    rw [List.length_append] at hlength
    exact List.length_eq_zero_iff.mp (by omega)
  · rintro rfl
    exact List.Perm.refl _

theorem suspended_inv {f : CFunction} (hf : c.entry = .call f)
    (hcall : w.invocation a = some c) (hstep : step plat w a = some u)
    (hresult : u.result = .paused) :
    exists p v, u.paused = p :: w.paused ∧ u.blocks = v.blocks ∧
      Suspends plat c.env c.args c.start f p.point v := by
  rcases step_of_invocation hcall hstep with ⟨hadm, rfl⟩
  have houtcome := @enter_outcome plat c.env c.args c.start hadm c.entry
  have hpaused := outcome_paused houtcome
  have hstart : c.start.paused = w.paused := by
    rcases entry_of_invocation hcall with ⟨_, _, h⟩ | ⟨_, _, _, hentry, _, _⟩
    · exact h
    · rw [hf] at hentry
      cases hentry
  unfold World.performCall at hresult ⊢
  rw [hstart] at hpaused
  generalize enter plat c.env c.args c.entry c.start = r at *
  cases r with
  | error exit v => cases exit <;> cases hresult
  | ok reply v =>
      cases reply with
      | values | building => cases hresult
      | paused args' point =>
          rw [hf] at houtcome
          exact ⟨⟨args', point, v.frames.length⟩, v,
            congrArg (List.cons _) hpaused, rfl, suspends_of_outcome houtcome⟩

theorem resume_invocation {env : Env} {p : Paused} {rest : List Paused}
    (hpaused : v.paused = p :: rest) :
    v.invocation (.resume env) =
      some ⟨.resume p.point, p.args, env, { v with paused := rest }⟩ := by
  unfold World.invocation
  rw [hpaused]

theorem blocks_of_left {e : LuaError}
    (hstep : step plat v (.pausedRaise e) = some w') :
    w'.blocks = v.blocks := by
  rcases pausedRaise_inv hstep with ⟨_, _, _, _, rfl⟩
  rfl

theorem recvSize_of_derefs (hf : c.f = .recv) {p : Ptr}
    (hderefs : c.start.derefs plat c.env c.args c.entry = some p) :
    exists size, luaLOptint c.env c.args 2 2048 = .ok size := by
  have hsocket : c.f.takesSocket = true := by rw [hf]; rfl
  have hnone := (checks_of_derefs hsocket hderefs).2
  change argumentError c.env c.args c.f = none at hnone
  rw [hf] at hnone
  change failure (luaLOptint c.env c.args 2 2048) = none at hnone
  cases hsize : luaLOptint c.env c.args 2 2048 with
  | ok size => exact ⟨size, rfl⟩
  | error e =>
      rw [hsize] at hnone
      cases hnone

theorem bind_neutral_iff {ending : Ending} (hreach : ReachableWorld plat w)
    (hf : c.entry = .call .bind) (h : EndedCall plat w c ending w') :
    BlocksNeutral w ending w' <-> BindAllocatesNothing plat c ending := by
  have hcf : c.f = .bind := by rw [Invocation.f, hf]; rfl
  have hchecked : forall {a : Action}, w.invocation a = some c ->
      c.Checked plat := fun hcall => checked_of_invocation
    (reachable_pausesChecked hreach) hcall (by simp [hcf])
  have hsuspended : forall {a : Action} {u : World}, w.invocation a = some c ->
      step plat w a = some u -> u.result = .paused ->
      exists p, u.paused = p :: w.paused ∧ p.point.f = .bind ∧
        u.blocks = w.blocks := by
    intro a u hcall hstep hresult
    rcases suspended_inv hf hcall hstep hresult with
      ⟨⟨args, point, depth⟩, v, hp, hblocks, hpoint⟩
    cases hpoint with
    | converting hpoint _ hv =>
        exact ⟨_, hp, hpoint, hblocks.trans (hv.trans (start_blocks hcall))⟩
    | received hrecv => cases hrecv
  cases h with
  | atOnce hcall hstep _ =>
      have hblocks := invocation_blocks (hchecked hcall) (Or.inl hcf) hcall hstep
      show w'.blocks = w.blocks <-> c.AllocatesNothing plat
      rw [hblocks, allocatesNothing_iff]
      exact List.append_left_eq_self
  | @resumed a env u v _ hcall hstep hresult huv hpaused hresume =>
      rcases hsuspended hcall hstep hresult with ⟨p, hp, hpoint, hblocks⟩
      have hcall' := @resume_invocation v env p _ (hpaused.trans hp)
      have hv := reachable_pausesChecked
        ((Reachable.next hreach hstep).trans huv)
      have hafter := invocation_blocks
        (checked_of_invocation hv hcall' (by rw [Invocation.f]; simp [Entry.f, hpoint]))
        (Or.inl hpoint) hcall' hresume
      show (w.blocks ++ v.blocks).Perm (u.blocks ++ w'.blocks) <-> _
      rw [hblocks, hafter, List.perm_append_left_iff, perm_append_iff,
        ← allocatesNothing_iff]
      simp [BindAllocatesNothing, hcall']
  | left hcall hstep hresult _ _ hraise =>
      rcases hsuspended hcall hstep hresult with ⟨p, hp, hpoint, hblocks⟩
      refine iff_of_true ?_ trivial
      show (_ ++ _ : List Nat).Perm (_ ++ _)
      rw [hblocks, blocks_of_left hraise]

theorem recv_suspended (hf : c.entry = .call .recv)
    (hcall : w.invocation a = some c) (hstep : step plat w a = some u)
    (hresult : u.result = .paused) :
    exists p block data q size, u.paused = p :: w.paused ∧
      p.point = .recv (some block) data ∧ u.blocks = block :: w.blocks ∧
      c.env.malloc = some block ∧
      c.start.derefs plat c.env c.args c.entry = some q ∧
      luaLOptint c.env c.args 2 2048 = .ok size ∧
      c.start.recvData c.env (c.start.infoAt c.env q).hSocket size =
        some data := by
  rcases suspended_inv hf hcall hstep hresult with
    ⟨⟨args, point, depth⟩, v, hp, hblocks, hpoint⟩
  cases hpoint with
  | converting hpoint hsocket =>
      cases point with
      | bind | send => cases hpoint
      | recv => cases hsocket
  | @received block q size data _ hrecv hderefs hsize hmalloc hdata hv =>
      refine ⟨_, block, data, q, size, hp, rfl, ?_, hmalloc, ?_, hsize, hdata⟩
      · rw [hblocks, hv, start_blocks hcall]
      · rw [hf]
        exact hderefs

theorem blocks_of_freed {env : Env} {p : Paused} {rest : List Paused}
    {block : Nat} {data : LuaString} (hpaused : v.paused = p :: rest)
    (hpoint : p.point = .recv (some block) data)
    (hstep : step plat v (.resume env) = some w') :
    w'.blocks = v.blocks.erase block := by
  rcases resume_inv hstep with ⟨_, _, q, rest', hpaused', hadm, rfl⟩
  rw [hpaused] at hpaused'
  cases hpaused'
  rw [hpoint]
  rfl

theorem recv_neutral_iff {ending : Ending} (hreach : ReachableWorld plat w)
    (hf : c.entry = .call .recv) (h : EndedCall plat w c ending w') :
    BlocksNeutral w ending w' <-> ComesToFree plat c ending := by
  have hcf : c.f = .recv := by rw [Invocation.f, hf]; rfl
  cases h with
  | atOnce hcall hstep _ =>
      have hchecked : c.Checked plat := checked_of_invocation
        (reachable_pausesChecked hreach) hcall (by simp [hcf])
      have hblocks := invocation_blocks hchecked (Or.inr hf) hcall hstep
      show w'.blocks = w.blocks <-> _
      rw [hblocks, List.append_left_eq_self, ← allocatesNothing_iff]
      constructor
      · rintro hnothing p size hderefs _ hmalloc
        rcases hnothing with hnone | hnone
        · rw [hderefs] at hnone
          cases hnone
        · rw [hnone] at hmalloc
          cases hmalloc
      · intro hfree
        by_contra hno
        unfold Invocation.AllocatesNothing at hno
        rw [not_or] at hno
        rcases Option.ne_none_iff_exists'.mp hno.1 with ⟨p, hderefs⟩
        rcases recvSize_of_derefs hcf hderefs with ⟨size, hsize⟩
        rcases (hfree p size hderefs hsize (Option.isSome_iff_ne_none.mpr
          hno.2)).2 with ⟨_, _, _, hending⟩
        cases hending
  | @resumed a env u v _ hcall hstep hresult huv hpaused hresume =>
      rcases recv_suspended hf hcall hstep hresult with
        ⟨p, block, data, q, size, hp, hpoint, hblocks, _, hderefs, hsize, hdata⟩
      have hv := hpaused.trans hp
      have hheld := reachable_buffersHeld ((Reachable.next hreach hstep).trans huv)
      have hmem : block ∈ v.blocks := by
        apply hheld.subset
        unfold World.buffers
        rw [hv]
        exact List.mem_filterMap.mpr ⟨p, List.mem_cons_self, by
          rw [hpoint]
          rfl⟩
      apply iff_of_true
      · show (w.blocks ++ v.blocks).Perm (u.blocks ++ w'.blocks)
        rw [hblocks, blocks_of_freed hv hpoint hresume]
        exact (List.Perm.append_left _ (List.perm_cons_erase hmem)).trans
          List.perm_middle
      · intro p' size' hderefs' hsize' _
        rw [hderefs] at hderefs'
        cases hderefs'
        rw [hsize] at hsize'
        cases hsize'
        exact ⟨by rw [hdata]; rfl, _, _, _, rfl⟩
  | left hcall hstep hresult _ _ hraise =>
      rcases recv_suspended hf hcall hstep hresult with
        ⟨p, block, data, q, size, _, _, hblocks, hmalloc, hderefs, hsize, _⟩
      apply iff_of_false
      · intro hperm
        have hlength := hperm.length_eq
        rw [hblocks, blocks_of_left hraise, List.length_append,
          List.length_append, List.length_cons] at hlength
        omega
      · intro hfree
        rcases (hfree q size hderefs hsize (by rw [hmalloc]; rfl)).2 with
          ⟨_, _, _, hending⟩
        cases hending

end Endings

/--
`bind` is neutral exactly if it allocates nothing, and `recv` exactly if it gets
to its `free` whenever it has allocated the buffer.
-/
theorem blocksNeutral_iff (plat : Platform) (w : World) (c : Invocation)
    (ending : Ending) (w' : World) (hreach : ReachableWorld plat w)
    (h : EndedCall plat w c ending w') :
    (c.entry = .call .bind ->
      (BlocksNeutral w ending w' <-> BindAllocatesNothing plat c ending)) ∧
    (c.entry = .call .recv ->
      (BlocksNeutral w ending w' <-> ComesToFree plat c ending)) :=
  ⟨fun hf => bind_neutral_iff hreach hf h,
    fun hf => recv_neutral_iff hreach hf h⟩

/-- A script has its first socket, a function of the library and its arguments. -/
def callReady (name : String) (args : List Value) : List Action :=
  createFirst { handle := some 3, malloc := some 16 } ++ fetch 3 name ++
    args.map fun v => .script (.literal v)

/-- `s:bind("127.0.0.1", 80)` on the first socket. -/
def bindLocal : List Value := [str "127.0.0.1", .number (.ofInt 80)]

/-- The address of a bind that succeeds is never given back. -/
theorem bindLocal_not_neutral :
    ¬forall w c ending w', ReachableWorld .unix w ->
      c.entry = .call .bind ∨ c.entry = .call .recv ->
      EndedCall .unix w c ending w' -> BlocksNeutral w ending w' := by
  intro hneutral
  have hruns : ((runFrom (step .unix) initialWorld
      (callReady "bind" bindLocal)).bind fun w =>
        (step .unix w (.call .bind (.lightuserdata (.block 16) :: bindLocal)
          { malloc := some 32 })).map fun w' =>
            (decide (w'.result = .paused), w.blocks, w'.blocks)) =
      some (false, [], [32]) := by
    decide +kernel
  simp only [Option.bind_eq_some_iff, Option.map_eq_some_iff, Prod.mk.injEq,
    decide_eq_false_iff_not] at hruns
  rcases hruns with ⟨w, hw, w', hstep, hresult, hbefore, hafter⟩
  have hsame : w'.blocks = w.blocks := hneutral w _ .atOnce w' ⟨_, hw⟩ (Or.inl rfl)
    (.atOnce rfl hstep hresult)
  rw [hbefore, hafter] at hsame
  cases hsame

/-- `s:recv(8)`, when four bytes have come. -/
def recvPing (w : World) : Invocation where
  entry := .call .recv
  args := [.lightuserdata (.block 16), .number (.ofInt 8)]
  env := { malloc := some 32, recv := some (ascii "ping") }
  start := w

/-- The call goes on in the state in which it was suspended. -/
theorem recvPing_neutral :
    exists w u w', EndedCall .unix w (recvPing w) (.resumed u u {}) w' ∧
      BlocksNeutral w (.resumed u u {}) w' := by
  have hruns : ((runFrom (step .unix) initialWorld
      (callReady "recv" [.number (.ofInt 8)])).bind fun w =>
        (step .unix w (.call .recv (recvPing w).args (recvPing w).env)).bind
          fun u => (step .unix u (.resume {})).map fun _ =>
            (u.result, w.derefs .unix (recvPing w).env (recvPing w).args
              (recvPing w).entry, w.recvData (recvPing w).env
                (w.infoAt (recvPing w).env (.block 16)).hSocket 8)) =
      some (.paused, some (.block 16), some (ascii "ping")) := by
    decide +kernel
  simp only [Option.bind_eq_some_iff, Option.map_eq_some_iff, Prod.mk.injEq]
    at hruns
  rcases hruns with ⟨w, hw, u, hu, w', hresume, hresult, hderefs, hdata⟩
  have hended : EndedCall .unix w (recvPing w) (.resumed u u {}) w' :=
    .resumed rfl hu hresult ⟨[], rfl⟩ rfl hresume
  refine ⟨w, u, w', hended,
    ((blocksNeutral_iff .unix w _ _ w' ⟨_, hw⟩ hended).2 rfl).mpr ?_⟩
  intro p size hp hsize _
  have hsize' : luaLOptint { malloc := some 32, recv := some (ascii "ping") }
      [.lightuserdata (.block 16), .number (.ofInt 8)] 2 2048 = .ok 8 := by
    decide +kernel
  cases hsize'.symm.trans hsize
  cases hderefs.symm.trans hp
  exact ⟨by rw [show (recvPing w).start = w from rfl, hdata]; rfl, u, u, {}, rfl⟩

end LuaServer
