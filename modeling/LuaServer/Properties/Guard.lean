import LuaServer.Interpreter.Confined

/-!
# The guard

`check_socket_data` compares metatables, and light userdata have one metatable for
all of them.  Which values get past it thus depends on which light userdata a
script can come by: the sockets that were returned to it, the null pointer of the
library's table, and the sentinel of `require`.
-/

namespace LuaServer

open Library

/-- The value is one that `create` or `accept` has returned. -/
def World.Issued (w : World) (v : Value) : Prop :=
  exists i, Event.issued i ∈ w.log ∧ v = i.value

/-- Events of a call that has refused its argument. -/
def Event.IsStartup (e : Event) : Prop := exists ok, e = .startup ok

/--
Every function on a socket raises for the value, whatever its other arguments and
the answers of the environment, and reads, releases and passes on nothing.  The
error is the argument error unless the subsystem could not be started before.
-/
def Refuses (plat : Platform) (w : World) (v : Value) : Prop :=
  forall (f : CFunction) (rest : List Value) (env : Env),
    f.takesSocket = true -> env.admissible plat w = true ->
    exists e w', callFunction plat env (v :: rest) f w = .error (.raise e) w' ∧
      (headerSucceeds plat env w = true ->
        e = luaLTyperror 1 "socket" (some v)) ∧
      w'.records = w.records ∧ w'.handles = w.handles ∧
      Logs Event.IsStartup w w'

/-- A value is one of a socket, or every function on a socket refuses it. -/
def Guarded (plat : Platform) (w : World) (v : Value) : Prop :=
  ¬w.Issued v -> Refuses plat w v

/-- The marker of `require`, once light userdata have the metatable of sockets. -/
def LuaState.MarkerPasses (L : LuaState) (v : Value) : Prop :=
  v = .lightuserdata .sentinel ∧ L.SharesMetatable

/-!
# What gets past the check
-/

section Check

variable {plat : Platform} {w : World} {v : Value}

theorem refuses_of_checkudata
    (h : w.lua.checkudata v socketDataName = none) : Refuses plat w v := by
  intro f rest env hf hadm
  have houtcome := @callFunction_outcome plat env (v :: rest) w hadm f
  generalize callFunction plat env (v :: rest) f w = r at houtcome ⊢
  cases houtcome with
  | initFailed _ hinit =>
      refine ⟨initError, _, rfl, ?_, rfl, rfl, Logs.emit ⟨false, rfl⟩⟩
      intro hheader
      rw [hinit] at hheader
      cases hheader
  | rejected =>
      refine ⟨_, _, rfl, fun _ => rfl, afterHeader_records, afterHeader_handles,
        ?_⟩
      exact logs_afterHeader ⟨true, rfl⟩
  | converting _ _ hpass =>
      rw [show w.passes (v :: rest) = none from h] at hpass
      cases hpass
  | invalid _ hchecks =>
      have hpass := (checks_call.mp hchecks).2.2
      rw [show w.passes (v :: rest) = none from h] at hpass
      cases hpass
  | acted hsocket hderefs =>
      have hpass := (checks_call.mp (checks_of_derefs hsocket hderefs).1).2.2
      rw [show w.passes (v :: rest) = none from h] at hpass
      cases hpass
  | createFailed | createNoMemory | created | collectNull | collected =>
      cases hf

theorem World.Confined.checkudata (h : w.Confined)
    (hreachable : w.lua.ReachableValue [] v) (hissued : ¬w.Issued v)
    (hmarker : ¬w.lua.MarkerPasses v) :
    w.lua.checkudata v socketDataName = none := by
  cases hcheck : w.lua.checkudata v socketDataName with
  | none => rfl
  | some p =>
      exfalso
      rcases LuaState.checkudata_eq_some_iff.mp hcheck with
        ⟨hp, hnull, m, hmeta, hfield⟩
      cases v with
      | userdata u =>
          rw [h.registers.checkudata_userdata] at hcheck
          cases hcheck
      | nil | boolean | number | string | table | cfunction | closure
      | thread => exact hnull hp.symm
      | lightuserdata q =>
          rcases h.values.reachable hreachable with htable | hvisible
          · cases htable
          · rcases hvisible with rfl | rfl | ⟨i, hi, rfl⟩
            · exact hnull hp.symm
            · exact hmarker ⟨rfl, m, hmeta, hfield⟩
            · exact hissued ⟨i, hi, rfl⟩

/-- The sentinel is no socket, and with the shared metatable it gets through. -/
theorem LuaState.MarkerPasses.not_guarded (h : w.lua.MarkerPasses v) :
    ¬Guarded plat w v := by
  rcases h with ⟨rfl, m, hmeta, hfield⟩
  intro hguarded
  have hissued : ¬w.Issued (.lightuserdata .sentinel) := by
    rintro ⟨i, _, hi⟩
    cases hi
  have hheader : headerSucceeds plat {} w = true := by
    unfold headerSucceeds
    rw [Bool.or_eq_true]
    right
    cases plat with
    | windows | mac | unix => rfl
  have hpass : w.passes [.lightuserdata .sentinel] = some .sentinel :=
    LuaState.checkudata_eq_some_iff.mpr ⟨rfl, by decide, m, hmeta, hfield⟩
  have hadm : Env.admissible plat {} w = true := rfl
  rcases hguarded hissued .listen [] {} rfl hadm with ⟨e, w', hcall, _⟩
  have houtcome := @callFunction_outcome plat {} [.lightuserdata .sentinel] w
    hadm .listen
  rw [hcall] at houtcome
  cases houtcome with
  | initFailed _ hinit =>
      rw [hheader] at hinit
      cases hinit
  | rejected _ _ hnone =>
      rw [hpass] at hnone
      cases hnone
  | invalid _ _ herror => cases herror
  | acted _ _ _ hact => cases hact

end Check

/--
A value that a script can get at is a socket or refused, but for the marker of
`require` while light userdata have the metatable of sockets.
-/
theorem guarded_iff_not_markerPasses (plat : Platform) (w : World) (v : Value)
    (hw : ReachableWorld plat w) (hv : w.lua.ReachableValue [] v) :
    Guarded plat w v <-> ¬w.lua.MarkerPasses v := by
  constructor
  · intro hguarded hmarker
    exact hmarker.not_guarded hguarded
  · intro hmarker hissued
    exact refuses_of_checkudata
      ((reachable_confined hw).checkudata hv hissued hmarker)

/--
`require "m"` where the module takes `package.loaded.m`, after the actions of the
script so far.
-/
def takeMarker : List Action :=
  [.script (.requireMark (ascii "m"))] ++ fetch 2 "package" ++
    fetch 5 "loaded" ++ fetch 1 "m"

/-- After the first `socket.create()` the marker of `require` is not refused. -/
theorem marker_not_guarded :
    ¬forall w v, ReachableWorld .unix w -> w.lua.ReachableValue [] v ->
      Guarded .unix w v := by
  intro hguarded
  have hrun : (runFrom (step .unix) initialWorld
      (createFirst { handle := some 3, malloc := some 16 } ++ takeMarker)).map
      (fun w => decide (w.lua.ReachableValue [] (.lightuserdata .sentinel)) &&
        decide (w.lua.checkudata (.lightuserdata .sentinel) socketDataName =
          some .sentinel)) = some true := by
    decide +kernel
  rcases Option.map_eq_some_iff.mp hrun with ⟨w, hw, hfacts⟩
  rw [Bool.and_eq_true, decide_eq_true_eq, decide_eq_true_eq] at hfacts
  rcases LuaState.checkudata_eq_some_iff.mp hfacts.2 with ⟨_, _, m, hmeta, hfield⟩
  have hmarker : w.lua.MarkerPasses (.lightuserdata .sentinel) :=
    ⟨rfl, m, hmeta, hfield⟩
  exact hmarker.not_guarded (hguarded w _ ⟨_, hw⟩ hfacts.1)

/-- Before the first `socket.create()` the marker is refused. -/
theorem guarded_marker_before_create :
    exists w, runFrom (step .unix) initialWorld takeMarker = some w ∧
      Guarded .unix w (.lightuserdata .sentinel) := by
  have hrun : (runFrom (step .unix) initialWorld takeMarker).map
      (fun w => decide (w.lua.ReachableValue [] (.lightuserdata .sentinel)) &&
        decide (w.lua.mt .lightuserdata = none)) = some true := by
    decide +kernel
  rcases Option.map_eq_some_iff.mp hrun with ⟨w, hw, hfacts⟩
  rw [Bool.and_eq_true, decide_eq_true_eq, decide_eq_true_eq] at hfacts
  refine ⟨w, hw, (guarded_iff_not_markerPasses .unix w _ ⟨_, hw⟩
    hfacts.1).mpr ?_⟩
  rintro ⟨_, m, hmeta, _⟩
  rw [hfacts.2] at hmeta
  cases hmeta

end LuaServer
