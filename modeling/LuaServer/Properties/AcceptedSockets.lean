import LuaServer.Interpreter.Issues
import LuaServer.Interpreter.Metatable

/-!
# Accepted sockets

The converse of the guard: the check lets every socket through that is not closed.
It does so as long as the metatable of light userdata is the registered one, and
this holds from the first socket on unless a second metatable is registered.
-/

namespace LuaServer

open Library

/--
Sockets that are not closed pass the check and lead to the record that was made
for them.  A call of `create` or `accept` that is about to return has put exactly
the new value on its stack.
-/
structure World.SocketsAccepted (w : World) : Prop where
  shared : (exists i, Event.issued i ∈ w.log) -> w.lua.SharesMetatable
  accepted : forall i, Event.issued i ∈ w.log ->
    i.serial ∉ w.log.filterMap Event.released? ->
    w.lua.checkudata i.value socketDataName = some (.block i.addr) ∧
      exists rec, w.records i.addr = some rec ∧ rec.serial = i.serial ∧
        rec.inst = i.inst
  oneMore : forall fr, fr ∈ w.frames -> fr.code = [] ->
    fr.stack = [fr.issue.value]

def World.registersAnew (w : World) (a : Action) : Bool :=
  match a, w.frames with
  | .api _, fr :: _ =>
      match fr.code with
      | .setregistry _ :: _ => true
      | _ => false
  | _, _ => false

/-- No metatable is registered when there is a socket already. -/
def RegistersFirst (w : World) (a : Action) : Prop :=
  w.registersAnew a = true -> issuedIn w.log = []

instance (w : World) (a : Action) : Decidable (RegistersFirst w a) :=
  inferInstanceAs (Decidable (_ -> _))

/-- Once there is a socket, or one is about to be returned, the metatables agree. -/
def World.Agrees (w : World) : Prop :=
  (exists i, Event.issued i ∈ w.log) ∨
      (exists fr, fr ∈ w.frames ∧ fr.code = []) ->
    w.lua.SharesMetatable

section Records

variable {plat : Platform} {w : World} {i : Issue}

theorem record_of_issued (h : ReachableWorld plat w)
    (hissued : Event.issued i ∈ w.log)
    (hkept : i.serial ∉ w.log.filterMap Event.released?) :
    exists rec, w.records i.addr = some rec ∧ rec.serial = i.serial ∧
      rec.inst = i.inst := by
  have htracked : i ∈ w.tracked :=
    List.mem_append_left _ (mem_issuedIn.mpr hissued)
  have hissues := reachable_issuesSound h
  rcases (reachable_tablesSound h).records_complete i.serial (Nat.zero_le _)
    (hissues.serial_lt i htracked) with hretired | ⟨a, hlive⟩
  · exact absurd hretired hkept
  · rcases hissues.honoured i htracked a hlive with ⟨rfl, handle, hholds⟩
    rcases Option.map_eq_some_iff.mp hlive with ⟨rec, hrec, hserial⟩
    rcases Option.map_eq_some_iff.mp hholds with ⟨rec', hrec', hinst⟩
    rw [hrec] at hrec'
    cases hrec'
    exact ⟨rec, hrec, hserial, congrArg Prod.snd hinst⟩

theorem checkudata_of_shares (h : w.lua.SharesMetatable) (i : Issue) :
    w.lua.checkudata i.value socketDataName = some (.block i.addr) := by
  rcases h with ⟨m, hmt, hfield⟩
  exact LuaState.checkudata_eq_some_iff.mpr ⟨rfl, by simp, m, hmt, hfield⟩

theorem socketsAccepted_of_agrees (h : ReachableWorld plat w)
    (hagrees : w.Agrees) : w.SocketsAccepted where
  shared := fun hissued => hagrees (Or.inl hissued)
  accepted := by
    intro i hissued hkept
    exact ⟨checkudata_of_shares (hagrees (Or.inl ⟨i, hissued⟩)) i,
      record_of_issued h hissued hkept⟩
  oneMore := fun fr hfr hcode =>
    ((reachable_confined h).frames fr hfr).stack_of_done hcode

end Records

section Steps

variable {plat : Platform} {w w' : World} {a : Action}

theorem sharesMetatable_of_keeps {L L' : LuaState} (h : L.SharesMetatable)
    (hkeeps : L.KeepsMetas L') : L'.SharesMetatable := by
  rcases h with ⟨m, hmt, hfield⟩
  exact ⟨m, by rw [hkeeps.mt, hmt], hkeeps.registryField.trans hfield⟩

theorem agrees_other (h : w.Agrees) (hstep : step plat w a = some w')
    (hkeeps : w.lua.KeepsMetas w'.lua) (hframes : FramesChange w w'.frames) :
    w'.Agrees := fun hsocket =>
  sharesMetatable_of_keeps (h (hasSocket_other hstep hframes hsocket)) hkeeps

theorem agrees_call {result : Value} {fr fr' : Frame} {rest : List Frame}
    (hreach : ReachableWorld plat w) (h : w.Agrees)
    (hfirst : RegistersFirst w (.api result)) (hframes : w.frames = fr :: rest)
    (hframes' : w'.frames = fr' :: rest)
    (hapi : apiStep w.lua fr result = some (w'.lua, fr'))
    (hlog : w'.log = w.log) : w'.Agrees := by
  have hconfined := reachable_confined hreach
  have hmetas := reachable_metasSound hreach
  have htop := hmetas.places fr (by simp [hframes])
  have hmeta := (api_places hconfined.values hconfined.registers hmetas.mt_lt
    htop hapi).1
  intro hsocket
  have hissued := hasSocket_call hmetas hframes hframes' hlog hsocket
  cases hmeta with
  | kept hmt hfield hcode =>
      rcases h (Or.inl (hissued hcode)) with ⟨m, hm, hm'⟩
      exact ⟨m, by rw [hmt, hm], hfield.trans hm'⟩
  | registered hcode _ _ _ hcode' =>
      rcases hissued hcode' with ⟨i, hi⟩
      rcases hcode with ⟨more, hcode⟩
      have hempty := hfirst (by
        simp [World.registersAnew, hframes, hcode])
      have hmem := mem_issuedIn.mpr hi
      rw [hempty] at hmem
      cases hmem
  | shared _ hmt hfield => exact ⟨_, hmt, hfield⟩

theorem step_agrees (hreach : ReachableWorld plat w)
    (h : w.phase ≠ .closed -> w.Agrees) (hfirst : RegistersFirst w a)
    (hstep : step plat w a = some w') (hopen : w'.phase ≠ .closed) :
    w'.Agrees := by
  have hagrees := h (phase_of_step hstep)
  cases step_metas (reachable_confined hreach) hstep with
  | other hkeeps _ hframes => exact agrees_other hagrees hstep hkeeps hframes
  | call ha hframes hframes' hapi hlog =>
      subst ha
      exact agrees_call hreach hagrees hfirst hframes hframes' hapi hlog
  | closed hphase => exact absurd hphase hopen

theorem registersAnew_eq_true (h : w.registersAnew a = true) :
    exists result fr rest name more, a = .api result ∧ w.frames = fr :: rest ∧
      fr.code = .setregistry name :: more := by
  unfold World.registersAnew at h
  split at h
  · rename_i result fr rest hframes
    split at h
    · rename_i name more hcode
      exact ⟨result, fr, rest, name, more, rfl, hframes, hcode⟩
    · cases h
  · cases h

theorem not_accepted_of_registersAnew (hreach : ReachableWorld plat w)
    (hstep : step plat w a = some w') (hfirst : ¬RegistersFirst w a) :
    w'.phase ≠ .closed ∧ ¬w'.SocketsAccepted := by
  unfold RegistersFirst at hfirst
  push Not at hfirst
  rcases registersAnew_eq_true hfirst.1 with
    ⟨result, fr, rest, name, more, rfl, hframes, hcode⟩
  rcases List.exists_mem_of_ne_nil _ hfirst.2 with ⟨i, hi⟩
  have hissued := mem_issuedIn.mp hi
  have htop := (reachable_metasSound hreach).places fr (by simp [hframes])
  rcases api_inv hstep with
    ⟨fr', rest', hframes', ⟨hdone, _⟩ | ⟨L, next, hapi, rfl⟩⟩
  · rw [hframes] at hframes'
    cases hframes'
    rw [hcode] at hdone
    cases hdone
  · rw [hframes] at hframes'
    cases hframes'
    rcases api_registers htop hcode hapi with ⟨m, hother, hmt, hfield⟩
    have hopen := phase_of_step hstep
    refine ⟨hopen, ?_⟩
    intro haccepted
    rcases haccepted.shared ⟨i, hissued⟩ with ⟨m', hmeta, hfield'⟩
    rw [hmt] at hmeta
    rw [hfield, Value.table.injEq] at hfield'
    exact hother (hfield' ▸ hmeta)

end Steps

/--
In every state of a run the sockets that are not closed are accepted, exactly if
no call of the run registers a metatable when a socket has been returned before.
-/
theorem allAccepted_iff_registersFirst (plat : Platform) (actions : List Action)
    (w : World) (hrun : runFrom (step plat) initialWorld actions = some w) :
    AllStates (step plat) (fun v => v.phase ≠ .closed -> v.SocketsAccepted)
        initialWorld actions <->
      AllSteps (step plat) RegistersFirst initialWorld actions := by
  refine @allStates_iff_allSteps _ _ _ (fun v => ReachableWorld plat v ∧
    (v.phase ≠ .closed -> v.Agrees)) _ _ ?_ ?_ ?_ _ _ _ ⟨⟨[], rfl⟩, ?_⟩ hrun
  · rintro v a v' ⟨hv, hagrees⟩ hfirst hstep
    exact ⟨hv.next hstep, step_agrees hv hagrees hfirst hstep⟩
  · rintro v ⟨hv, hagrees⟩ hopen
    exact socketsAccepted_of_agrees hv (hagrees hopen)
  · rintro v a v' ⟨hv, _⟩ hstep hfirst hall
    rcases not_accepted_of_registersAnew hv hstep hfirst with ⟨hopen, hnot⟩
    exact hnot (hall hopen)
  · rintro _ (⟨i, hissued⟩ | ⟨fr, hfr, _⟩)
    · cases hissued
    · cases hfr

/-- `getmetatable(newproxy(true)).__gc = function() .. end`, and the proxy is dropped. -/
def leaveFinalizer : List Action :=
  [.script (.literal (.boolean true)), .script (.newProxy (.boolean true)),
    .script (.getMetatable (.userdata 3)), .script (.newClosure []),
    .script (.literal (str "__gc")),
    .script (.rawSet 8 (str "__gc") (.closure 0)), .script (.forget 3)]

/--
The first `socket.create()`, whose `lua_newtable` runs a finalizer that calls
`socket.create()` itself.
-/
def createWithin : List Action :=
  leaveFinalizer ++ fetch 2 "socket" ++ fetch 3 "create" ++
    [.call .create [] { handle := some 3, malloc := some 16 }] ++
    List.replicate 4 (.api .nil) ++ [.collect, .gctm {}] ++
    [.call .create [] { handle := some 4, malloc := some 32 }] ++ finishFirst ++
    List.replicate 3 (.api .nil)

/-- The socket that the finalizer has created is refused. -/
theorem createWithin_not_accepted :
    ¬forall actions w, runFrom (step .unix) initialWorld actions = some w ->
      AllStates (step .unix) (fun v => v.phase ≠ .closed -> v.SocketsAccepted)
        initialWorld actions := by
  intro hall
  have hrun : (runFrom (step .unix) initialWorld createWithin).map (fun w =>
      decide (w.phase ≠ .closed) &&
      (decide (Event.issued ⟨32, 1, 1⟩ ∈ w.log) &&
      (decide (1 ∉ w.log.filterMap Event.released?) &&
      decide (w.lua.checkudata (.lightuserdata (.block 32)) socketDataName =
        none)))) = some true := by
    decide +kernel
  rcases Option.map_eq_some_iff.mp hrun with ⟨w, hw, hfacts⟩
  simp only [Bool.and_eq_true, decide_eq_true_eq] at hfacts
  rcases hfacts with ⟨hopen, hissued, hkept, hrefused⟩
  have haccepted := hall createWithin w hw createWithin [] w
    (List.append_nil _).symm hw hopen
  have hpasses := (haccepted.accepted _ hissued hkept).1
  rw [show Issue.value ⟨32, 1, 1⟩ = .lightuserdata (.block 32) from rfl,
    hrefused] at hpasses
  cases hpasses

/-- `local s = socket.create() local t = socket.create()` -/
theorem createTwo_accepted :
    exists w,
      runFrom (step .unix) initialWorld
        (createFirst { handle := some 3, malloc := some 16 } ++
          createLater { handle := some 4, malloc := some 32 }) = some w ∧
      AllStates (step .unix) (fun v => v.phase ≠ .closed -> v.SocketsAccepted)
        initialWorld
        (createFirst { handle := some 3, malloc := some 16 } ++
          createLater { handle := some 4, malloc := some 32 }) := by
  have hsome : (runFrom (step .unix) initialWorld
      (createFirst { handle := some 3, malloc := some 16 } ++
        createLater { handle := some 4, malloc := some 32 })).isSome = true := by
    decide +kernel
  rcases Option.isSome_iff_exists.mp hsome with ⟨w, hrun⟩
  exact ⟨w, hrun,
    (allAccepted_iff_registersFirst .unix _ w hrun).mpr (by decide +kernel)⟩

end LuaServer
