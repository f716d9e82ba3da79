import LuaServer.Interpreter.Issues
import LuaServer.Interpreter.SocketMetatable
import LuaServer.Properties.FailureAtomicity

/-!
# Lookups on sockets

All sockets have one metatable, and every `create` and `accept` stores in it under
`__index` what the global `socket` is at that time.  A method of an existing socket
is found as before if that is the value that is there already.
-/

namespace LuaServer

open Library LuaState

/--
A call of `create` or `accept` made in `w` returns and leaves `w'`, with the actions
from its start to its end.  The frame is known by the number that the record of the
call was given.
-/
inductive CompletedCall (plat : Platform) (w : World) (c : Invocation) :
    List Action -> World -> Prop where
  | returned {a : Action} {between : List Action} {result : Value}
      {u v w' : World} {fr : Frame} {rest : List Frame} :
      w.invocation a = some c -> step plat w a = some u ->
      u.result = .pending -> runFrom (step plat) u between = some v ->
      v.frames = fr :: rest -> fr.issue.serial = w.nextRecord ->
      fr.code = [] -> step plat v (.api result) = some w' ->
      CompletedCall plat w c (a :: (between ++ [.api result])) w'

/-- The table and the value that a call in progress stores in it under a name. -/
def World.fieldStore (w : World) (name : String) : Action -> Option (Nat × Value)
  | .api _ =>
      match w.frames with
      | [] => none
      | fr :: _ => fr.fieldStore (ascii name)
  | _ => none

/--
If light userdata have a metatable already, a call in progress stores in this one,
and it stores what is there.
-/
def KeepsIndex (w : World) (a : Action) : Prop :=
  forall m v, w.fieldStore "__index" a = some (m, v) ->
    w.lua.mt .lightuserdata ≠ none ->
    w.lua.mt .lightuserdata = some m ∧
      (w.lua.tables m).get (.string (ascii "__index")) = v

instance (w : World) (a : Action) : Decidable (KeepsIndex w a) :=
  match h : w.fieldStore "__index" a with
  | none => isTrue fun m v hstore => by
      rw [h] at hstore
      cases hstore
  | some (m, v) =>
      decidable_of_iff (w.lua.mt .lightuserdata ≠ none ->
        w.lua.mt .lightuserdata = some m ∧
          (w.lua.tables m).get (.string (ascii "__index")) = v) (by
        simp [KeepsIndex, h])

/--
A call in progress stores a new closure under `__gc` in no table that a lookup of
this key searches.
-/
def KeepsHandler (s key : Value) (w : World) (a : Action) : Prop :=
  key = str "__gc" ->
    forall m v, w.fieldStore "__gc" a = some (m, v) ->
      m ∉ w.lua.searched key maxTagLoop s

/--
Neither Lua code nor the collector changes the tables that a lookup on the value
reads.
-/
def LeavesLookup (plat : Platform) (v : Value) (w : World) (a : Action) : Prop :=
  a.changesHeap = true ->
    forall w', step plat w a = some w' -> w.lua.SamePath w'.lua v

/--
During the call neither the script touches the metatable nor does anything but the
call change what a lookup on the value reads, and the call keeps `__index`, and
`__gc` if that is what is looked up.
-/
def SparesLookup (plat : Platform) (s key : Value) (w : World) (a : Action) :
    Prop :=
  w.LeavesMetatables a ∧ LeavesLookup plat s w a ∧ KeepsIndex w a ∧
    KeepsHandler s key w a

section Calls

variable {plat : Platform} {w v v' : World} {a : Action} {c : Invocation}
variable {m : Nat} {s key : Value}

theorem pending_of_step {i : Issue} (hstep : step plat v a = some v')
    (hi : i ∈ v'.pendingIssues) :
    i ∈ v.pendingIssues ∨ i.serial = v.nextRecord := by
  cases step_shape hstep with
  | quiet _ hpending =>
      change i ∈ List.map Frame.issue _ at hi
      rw [hpending] at hi
      exact Or.inl hi
  | ended | abandoned => exact Or.inl hi
  | raised _ hframes | returned _ hframes =>
      left
      unfold World.pendingIssues
      rw [hframes]
      exact List.mem_cons_of_mem _ hi
  | exited =>
      unfold World.pendingIssues at hi
      rw [exit_frames] at hi
      exact Or.inl hi
  | called hcall hadm =>
      rcases invocation_start hcall with ⟨L, paused, hstart⟩
      have hpending := pending_performCall hadm hi
      rw [hstart] at hpending
      exact hpending

/-- A call that has reached the Lua API is the topmost one. -/
theorem frames_of_pending (hcall : w.invocation a = some c)
    (hstep : step plat w a = some v) (hpending : v.result = .pending) :
    exists i, v.frames = initialFrame c.f i :: w.frames := by
  rcases invocation_start hcall with ⟨L, paused, hstart⟩
  rcases step_of_invocation hcall hstep with ⟨hadm, rfl⟩
  have houtcome := @enter_outcome plat c.env c.args c.start hadm c.entry
  have hframes := outcome_frames houtcome
  unfold World.performCall at hpending ⊢
  generalize enter plat c.env c.args c.entry c.start = r at houtcome hframes hpending ⊢
  cases r with
  | error exit u => cases exit <;> cases hpending
  | ok reply u =>
      cases reply with
      | values vs => cases hpending
      | paused args point => cases hpending
      | building fr =>
          rcases outcome_building houtcome with ⟨i, rfl⟩
          refine ⟨i, ?_⟩
          show _ :: u.frames = _
          rw [show u.frames = c.start.frames from hframes, hstart]

/--
The calls in progress above those of `w`, all of them made since there was a socket,
when a lookup on a value gives what it gives in `w`.
-/
structure AtWork (w v : World) (m : Nat) (s key : Value) (top : List Frame) :
    Prop where
  frames : v.frames = top ++ w.frames
  mt : v.lua.mt .lightuserdata = some m
  registered : v.lua.registryField socketDataName ≠ .nil
  creating : forall fr, fr ∈ top -> fr.isCreating = false
  indexed : forall fr, fr ∈ top -> fr.isIndexed = true -> fr.ownTable = some m
  same : v.lua.gettable s key = w.lua.gettable s key

/-- The lookup does not notice a step of a call that keeps `__index` and `__gc`. -/
theorem AtWork.call_keeps {result : Value} {fr fr' : Frame}
    {rest top : List Frame} (h : AtWork w v m s key top)
    (hreach : ReachableWorld plat v) (hintact : v.Intact)
    (hkeeps : KeepsIndex v (.api result))
    (hhandler : KeepsHandler s key v (.api result))
    (hframes : v.frames = fr :: rest)
    (hfr : fr ∈ top) (hapi : apiStep v.lua fr result = some (v'.lua, fr')) :
    v.lua.SameLookups v'.lua s key ∧ fr'.isCreating = false ∧
      (fr'.isIndexed = true -> fr'.ownTable = some m) := by
  have hconfined := reachable_confined hreach
  have hmem : fr ∈ v.frames := by simp [hframes]
  have hnot := h.creating fr hfr
  have hstores : forall name,
      v.fieldStore name (.api result) = fr.fieldStore (ascii name) := by
    intro name
    unfold World.fieldStore
    rw [hframes]
  cases api_tables hconfined.values hconfined.registers
    ((reachable_metasSound hreach).places fr hmem) (hintact.own fr hmem) hapi with
  | moved hL _ hindexed hcreating =>
      refine ⟨hL ▸ ⟨rfl, rfl, rfl⟩, ?_, ?_⟩
      · rw [← Bool.not_eq_true]
        intro htrue
        rcases hcreating htrue with hbefore | hnil
        · rw [hnot] at hbefore
          cases hbefore
        · exact h.registered hnil
      · intro hi
        rcases hindexed hi with ⟨hbefore, hown⟩
        rw [hown]
        exact h.indexed fr hfr hbefore
  | made hcreating | registered hcreating =>
      rw [hnot] at hcreating
      cases hcreating
  | indexed hstore _ hL hown hcreating =>
      rcases hkeeps _ _ ((hstores _).trans hstore) (by rw [h.mt]; simp) with
        ⟨hmt, hget⟩
      rw [h.mt, Option.some.injEq] at hmt
      rw [hL, hmt]
      exact ⟨(alike_rawset hget).sameLookups rfl s key, hcreating, fun _ => hown⟩
  | @handled t x hstore hindexed hown hL hown' hcreating =>
      have hmt := h.indexed fr hfr hindexed
      rw [hown, Option.some.injEq] at hmt
      refine ⟨hL ▸ ⟨rfl, ?_, ?_⟩, hcreating, fun _ => hown'.trans (congrArg some hmt)⟩
      · exact get_rawset_of_ne x (Or.inr (by decide))
      · exact gettableLoop_rawset x (by decide) fun hkey =>
          hhandler hkey t x ((hstores _).trans hstore)
  | shared hindexed hown hL _ hnotIndexed hcreating =>
      have hmt := h.indexed fr hfr hindexed
      rw [hown, Option.some.injEq] at hmt
      rw [hL, hmt]
      refine ⟨(alike_setmetatable h.mt).sameLookups rfl s key, hcreating, ?_⟩
      intro hi
      rw [hnotIndexed] at hi
      cases hi

theorem AtWork.other {top : List Frame} (h : AtWork w v m s key top)
    (htop : top ≠ []) (hkeeps : v.lua.KeepsMetas v'.lua)
    (hframes : FramesChange v v'.frames)
    (hsame : v'.lua.gettable s key = v.lua.gettable s key) :
    v'.frames = w.frames ∨ exists top', top' ≠ [] ∧ AtWork w v' m s key top' := by
  have hnext : forall top', v'.frames = top' ++ w.frames ->
      (forall fr, fr ∈ top' -> fr ∈ top ∨ exists f i, fr = initialFrame f i) ->
      AtWork w v' m s key top' := by
    intro top' hframes' htop'
    refine ⟨hframes', ?_, ?_, ?_, ?_, hsame.trans h.same⟩
    · rw [hkeeps.mt, h.mt]
    · rw [hkeeps.registryField]
      exact h.registered
    · intro fr hfr
      rcases htop' fr hfr with hold | ⟨f, i, rfl⟩
      · exact h.creating fr hold
      · rfl
    · intro fr hfr hindexed
      rcases htop' fr hfr with hold | ⟨f, i, rfl⟩
      · exact h.indexed fr hold hindexed
      · cases hindexed
  generalize hfs : v'.frames = frames at hframes
  cases hframes with
  | kept =>
      right
      exact ⟨top, htop, hnext top (hfs.trans h.frames) fun fr hfr => Or.inl hfr⟩
  | @started f i =>
      right
      refine ⟨initialFrame f i :: top, by simp, hnext _ ?_ ?_⟩
      · rw [hfs, h.frames]
        rfl
      · intro fr hfr
        rcases List.mem_cons.mp hfr with rfl | hold
        · exact Or.inr ⟨f, i, rfl⟩
        · exact Or.inl hold
  | ended hcons =>
      cases top with
      | nil => exact absurd rfl htop
      | cons fr rest =>
          rw [h.frames, List.cons_append, List.cons.injEq] at hcons
          rw [← hcons.2] at hfs
          cases rest with
          | nil => exact Or.inl hcons.2.symm
          | cons x more =>
              right
              refine ⟨x :: more, by simp, hnext _ hfs ?_⟩
              exact fun y hy => Or.inl (List.mem_cons_of_mem _ hy)

theorem AtWork.call {result : Value} {fr fr' : Frame} {rest top : List Frame}
    (h : AtWork w v m s key top) (htop : top ≠ []) (hreach : ReachableWorld plat v)
    (hintact : v.Intact) (hkeeps : KeepsIndex v (.api result))
    (hhandler : KeepsHandler s key v (.api result)) (hframes : v.frames = fr :: rest) (hframes' : v'.frames = fr' :: rest)
    (hapi : apiStep v.lua fr result = some (v'.lua, fr')) :
    exists top', top' ≠ [] ∧ AtWork w v' m s key top' := by
  cases top with
  | nil => exact absurd rfl htop
  | cons x more =>
      have hcons := h.frames
      rw [hframes, List.cons_append, List.cons.injEq] at hcons
      rcases hcons with ⟨rfl, hrest⟩
      rcases h.call_keeps hreach hintact hkeeps hhandler hframes
        List.mem_cons_self hapi with ⟨hlookups, hcreating, hindexed⟩
      refine ⟨fr' :: more, by simp, ?_, ?_, ?_, ?_, ?_, ?_⟩
      · rw [hframes', hrest]
        rfl
      · rw [hlookups.mt, h.mt]
      · rw [hlookups.registryField]
        exact h.registered
      · intro y hy
        rcases List.mem_cons.mp hy with rfl | hold
        · exact hcreating
        · exact h.creating y (List.mem_cons_of_mem _ hold)
      · intro y hy hyindexed
        rcases List.mem_cons.mp hy with rfl | hold
        · exact hindexed hyindexed
        · exact h.indexed y (List.mem_cons_of_mem _ hold) hyindexed
      · exact hlookups.gettable.trans h.same

theorem AtWork.next {top : List Frame} (h : AtWork w v m s key top) (htop : top ≠ [])
    (hreach : ReachableWorld plat v) (hintact : v.Intact)
    (hleaves : LeavesLookup plat s v a) (hkeeps : KeepsIndex v a)
    (hhandler : KeepsHandler s key v a) (hstep : step plat v a = some v') :
    v'.frames = w.frames ∨ v'.frames = [] ∨
      exists top', top' ≠ [] ∧ AtWork w v' m s key top' := by
  cases step_lookups (reachable_confined hreach) hstep with
  | other hmetas hframes hnoticed =>
      have hchain : v.lua.KeepsChain v'.lua s := by
        rcases hnoticed with hchanges | halike
        · exact (hleaves hchanges v' hstep).keepsChain
        · exact halike.keepsChain s
      rcases h.other htop hmetas hframes hchain.gettable with hbase | habove
      · exact Or.inl hbase
      · exact Or.inr (Or.inr habove)
  | call ha hframes hframes' hapi =>
      subst ha
      exact Or.inr (Or.inr
        (h.call htop hreach hintact hkeeps hhandler hframes hframes' hapi))
  | closed hframes => exact Or.inr (Or.inl hframes)

/-- A call is at work as long as its frame is there. -/
structure During (plat : Platform) (w v : World) (m : Nat) (s key : Value) :
    Prop where
  reachable : ReachableWorld plat v
  intact : v.phase ≠ .closed -> v.Intact
  later : w.nextRecord < v.nextRecord
  atWork : (forall i, i ∈ v.pendingIssues -> i.serial ≠ w.nextRecord) ∨
    exists top, top ≠ [] ∧ AtWork w v m s key top

theorem During.next (h : During plat w v m s key) (hissues : w.IssuesSound)
    (hspares : SparesLookup plat s key v a) (hstep : step plat v a = some v') :
    During plat w v' m s key where
  reachable := h.reachable.next hstep
  intact := step_intact h.reachable h.intact hspares.1 hstep
  later := Nat.lt_of_lt_of_le h.later (step_tables hstep).1.next_le
  atWork := by
    have hopen := phase_of_step hstep
    rcases h.atWork with hgone | ⟨top, htop, hwork⟩
    · left
      intro i hi
      rcases pending_of_step hstep hi with hold | hnew
      · exact hgone i hold
      · rw [hnew]
        exact Nat.ne_of_gt h.later
    · rcases hwork.next htop h.reachable (h.intact hopen) hspares.2.1 hspares.2.2.1
        hspares.2.2.2 hstep with hbase | hempty | habove
      · left
        intro i hi
        unfold World.pendingIssues at hi
        rw [hbase] at hi
        exact Nat.ne_of_lt (hissues.serial_lt i (List.mem_append_right _ hi))
      · left
        intro i hi
        unfold World.pendingIssues at hi
        rw [hempty] at hi
        cases hi
      · exact Or.inr habove

theorem during_start (hreach : ReachableWorld plat w) (hintact : w.Intact)
    (hmt : w.lua.mt .lightuserdata = some m)
    (hregistered : w.lua.registryField socketDataName ≠ .nil)
    (hcall : w.invocation a = some c) (hmaker : c.f = .create ∨ c.f = .accept)
    (hspares : SparesLookup plat s key w a) (hstep : step plat w a = some v)
    (hpending : v.result = .pending) : During plat w v m s key where
  reachable := hreach.next hstep
  intact := step_intact hreach (fun _ => hintact) hspares.1 hstep
  later := (counters_of_pending hcall hstep hpending hmaker).1
  atWork := by
    right
    rcases frames_of_pending hcall hstep hpending with ⟨i, hframes⟩
    cases step_lookups (reachable_confined hreach) hstep with
    | call ha =>
        rw [ha] at hcall
        cases hcall
    | closed hempty =>
        rw [hframes] at hempty
        cases hempty
    | other hkeeps _ hnoticed =>
        have hchain : w.lua.KeepsChain v.lua s := by
          rcases hnoticed with hchanges | halike
          · exact (hspares.2.1 hchanges v hstep).keepsChain
          · exact halike.keepsChain s
        refine ⟨[initialFrame c.f i], by simp, hframes, ?_, ?_, ?_, ?_, ?_⟩
        · rw [hkeeps.mt, hmt]
        · rw [hkeeps.registryField]
          exact hregistered
        · intro fr hfr
          rw [List.mem_singleton.mp hfr]
          rfl
        · intro fr hfr hindexed
          rw [List.mem_singleton.mp hfr] at hindexed
          cases hindexed
        · exact hchain.gettable

theorem During.returned {result : Value} {fr : Frame} {rest : List Frame}
    (h : During plat w v m s key) (hframes : v.frames = fr :: rest)
    (hserial : fr.issue.serial = w.nextRecord) (hcode : fr.code = [])
    (hstep : step plat v (.api result) = some v') :
    v'.lua.gettable s key = w.lua.gettable s key := by
  rcases api_inv hstep with ⟨x, more, hcons, ⟨_, rfl⟩ | ⟨L, y, hapi, _⟩⟩
  · have hpending : fr.issue ∈ v.pendingIssues := by
      unfold World.pendingIssues
      rw [hframes]
      exact List.mem_cons_self
    rcases h.atWork with hgone | ⟨top, _, hwork⟩
    · exact absurd hserial (hgone _ hpending)
    · have halike := alike_withStack v.lua ([x.stack.headD .nil] ++ v.lua.stack)
      exact (halike.keepsChain s).gettable.trans hwork.same
  · rw [hframes, List.cons.injEq] at hcons
    rw [← hcons.1] at hapi
    unfold apiStep at hapi
    rw [hcode] at hapi
    cases hapi

end Calls

/--
A call of `create` or `accept` that returns leaves a lookup on an existing socket as
it is, if it finds its metatable on light userdata and the value it stores under
`__index` there, and the lookup is not one of the `__gc` of that metatable.
-/
theorem lookups_kept_of_keepsIndex (plat : Platform) (before call : List Action)
    (w w' : World) (c : Invocation) (i : Issue) (key : Value)
    (hrun : runFrom (step plat) initialWorld before = some w)
    (hissued : Event.issued i ∈ w.log)
    (hmaker : c.f = .create ∨ c.f = .accept)
    (hcall : CompletedCall plat w c call w')
    (hbefore : AllSteps (step plat) World.LeavesMetatables initialWorld before)
    (hduring : AllSteps (step plat) (SparesLookup plat i.value key) w call) :
    w'.lua.gettable i.value key = w.lua.gettable i.value key := by
  have hreach : ReachableWorld plat w := ⟨before, hrun⟩
  cases hcall with
  | returned hinvoked hstep hpending hbetween hframes hserial hcode hreturn =>
      have hopen := phase_of_step hstep
      have hshares := reachable_sharesOne hreach hopen
      have hmt := hshares.shared (Or.inl ⟨i, hissued⟩)
      rcases Option.ne_none_iff_exists'.mp hmt with ⟨m, hm⟩
      rw [allSteps_cons_of_step hstep, allSteps_append hbetween] at hduring
      have hstart := during_start hreach (run_intact hrun hbefore hopen) hm
        (hshares.registered hmt) hinvoked hmaker hduring.1 hstep hpending
      refine @During.returned plat w _ w' m i.value key _ _ _ ?_ hframes hserial
        hcode hreturn
      refine @runFrom_invariant _ _ (step plat)
        (fun x => During plat w x m i.value key) _ ?_ _ _ _ hstart hduring.2.1
        hbetween
      intro x b y hx hb hxy
      exact hx.next (reachable_issuesSound hreach) hb hxy

/-- In the ordinary case these are the metatable and the table of the library. -/
example : (runFrom (step .unix) initialWorld
    (createFirst { handle := some 3, malloc := some 16 })).map (fun w =>
      w.lua.lookupTables (.lightuserdata (.block 16))) = some [8, 3] := by
  decide +kernel

/-- The table that `luaopen_socket` fills, in the initial state. -/
def libraryTable : Nat := 3

/-- The script modifies neither the table of the library nor the metatable. -/
def LeavesSockets (w : World) (a : Action) : Prop :=
  w.LeavesTables (libraryTable :: w.socketMetatables) a

instance (w : World) (a : Action) : Decidable (LeavesSockets w a) :=
  inferInstanceAs (Decidable (w.LeavesTables _ a))

/-- `create()` after some actions, from what its run computes. -/
theorem completed_createLater {before : List Action} {env : Env}
    {P : World -> World -> Bool}
    (h : ((runFrom (step .unix) initialWorld before).bind fun w =>
      (step .unix w (.call .create [] env)).bind fun u =>
        (runFrom (step .unix) u (List.replicate 8 (.api .nil))).bind fun v =>
          (step .unix v (.api .nil)).map fun w' =>
            (u.result, v.frames.map Frame.code, w.nextRecord,
              v.frames.map fun fr => fr.issue.serial, P w w')) =
      some (.pending, [[]], 1, [1], true)) :
    exists w w', runFrom (step .unix) initialWorld before = some w ∧
      CompletedCall .unix w ⟨.call .create, [], env, w⟩ (createLater env) w' ∧
      P w w' = true := by
  simp only [Option.bind_eq_some_iff, Option.map_eq_some_iff, Prod.mk.injEq] at h
  rcases h with ⟨w, hw, u, hu, v, hv, w', hw', hpending, hcode, hnext, hserial, hP⟩
  refine ⟨w, w', hw, ?_, hP⟩
  cases hframes : v.frames with
  | nil =>
      rw [hframes] at hcode
      cases hcode
  | cons fr rest =>
      rw [hframes, List.map_cons, List.cons.injEq] at hcode hserial
      exact .returned rfl hu hpending hv hframes (hserial.1.trans hnext.symm)
        hcode.1 hw'

def firstMethod (name : String) (w : World) : Option Value :=
  match w.lua.gettable (.lightuserdata (.block 16)) (str name) with
  | .value v => some v
  | _ => none

/-- `local create = socket.create socket = create()` -/
def reuseName : List Action :=
  createFirst { handle := some 3, malloc := some 16 } ++
    [.script (.literal (str "socket")),
      .script (.rawSet 2 (str "socket") (.lightuserdata (.block 16)))]

/-- After another `create()` the first socket has lost its methods. -/
theorem reuseName_changes_lookups :
    ¬forall before call w w' c i key,
      runFrom (step .unix) initialWorld before = some w ->
      Event.issued i ∈ w.log -> c.f = .create ∨ c.f = .accept ->
      CompletedCall .unix w c call w' ->
      AllSteps (step .unix) LeavesSockets initialWorld (before ++ call) ->
      w'.lua.gettable i.value key = w.lua.gettable i.value key := by
  intro hkept
  rcases @completed_createLater reuseName
    { handle := some 4, malloc := some 32 }
    (fun w w' => decide (Event.issued ⟨16, 0, 0⟩ ∈ w.log) &&
      (decide (firstMethod "listen" w = some (.cfunction .listen none)) &&
        decide (firstMethod "listen" w' = none)))
    (by decide +kernel) with ⟨w, w', hrun, hcall, hfacts⟩
  simp only [Bool.and_eq_true, decide_eq_true_eq] at hfacts
  rcases hfacts with ⟨hissued, hbefore, hafter⟩
  have hsame := hkept _ _ w w' _ _ (str "listen") hrun hissued (Or.inl rfl) hcall
    (by decide +kernel)
  unfold firstMethod at hbefore hafter
  rw [show Issue.value ⟨16, 0, 0⟩ = .lightuserdata (.block 16) from rfl] at hsame
  rw [hsame, hbefore] at hafter
  cases hafter

/-- `local s = socket.create() local t = socket.create()` -/
theorem createTwo_keeps_lookups :
    exists w w',
      runFrom (step .unix) initialWorld
        (createFirst { handle := some 3, malloc := some 16 }) = some w ∧
      CompletedCall .unix w
        ⟨.call .create, [], { handle := some 4, malloc := some 32 }, w⟩
        (createLater { handle := some 4, malloc := some 32 }) w' ∧
      w'.lua.gettable (Issue.value ⟨16, 0, 0⟩) (str "listen") =
        w.lua.gettable (Issue.value ⟨16, 0, 0⟩) (str "listen") := by
  rcases @completed_createLater
    (createFirst { handle := some 3, malloc := some 16 })
    { handle := some 4, malloc := some 32 }
    (fun w _ => decide (Event.issued ⟨16, 0, 0⟩ ∈ w.log)) (by decide +kernel)
    with ⟨w, w', hrun, hcall, hissued⟩
  have hsteps : AllSteps (step .unix)
      (fun v a => v.LeavesMetatables a ∧ KeepsIndex v a) initialWorld
      (createFirst { handle := some 3, malloc := some 16 } ++
        createLater { handle := some 4, malloc := some 32 }) := by
    decide +kernel
  rw [allSteps_append hrun] at hsteps
  have hquiet : AllSteps (step .unix) (fun _ a => a.changesHeap = false) w
      (createLater { handle := some 4, malloc := some 32 }) :=
    allSteps_of_forall (by decide)
  refine ⟨w, w', hrun, hcall, lookups_kept_of_keepsIndex .unix _ _ w w' _ _ _ hrun
    (of_decide_eq_true hissued) (Or.inl rfl) hcall
    (hsteps.1.imp fun _ _ h => h.1) ((hsteps.2.and hquiet).imp ?_)⟩
  rintro v a ⟨⟨hleaves, hkeeps⟩, hnone⟩
  refine ⟨hleaves, ?_, hkeeps, fun hkey => absurd hkey (by decide)⟩
  intro hchanges
  rw [hnone] at hchanges
  cases hchanges

end LuaServer
