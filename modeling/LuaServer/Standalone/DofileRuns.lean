import LuaServer.Standalone.Dofile

/-!
# Runs of dofile

The state and the result after each part of `dofile`, in closed form, and what an
error of the chunk comes to with `traceback` as its error function.
-/

namespace LuaServer
namespace Standalone

open Library

section Runs

variable {vm : Vm} {name : LuaString} {run : RunState} {below : List Value}
variable {stderr : List (Option LuaString)} {s : PmainState}

/-!
# Allocation and finalizers
-/

theorem allocating_run {a : Allocation} (h : vm.memory a = true) :
    allocating vm a s = .ok () s := by
  unfold allocating
  rw [if_pos h]
  rfl

theorem allocating_fails {a : Allocation} (h : ¬vm.memory a = true) :
    allocating vm a s = .error ⟨.errMem, .nil⟩ s := by
  unfold allocating
  rw [if_neg h]
  rfl

section Finalize

variable {n : Nat} {L L' : LuaState} {u : Nat} {tm : Value}

theorem finalize_none (hdue : run.lua.takeDue = none) :
    finalize vm (n + 1) run = .ok () run := by
  rw [finalize, run_get_bind]
  simp only [hdue]
  rfl

theorem finalize_nil (hdue : run.lua.takeDue = some (L, u, .nil)) :
    finalize vm (n + 1) run = finalize vm n ⟨L, run.turn⟩ := by
  rw [finalize, run_get_bind]
  simp only [hdue]
  rfl

theorem finalize_some (hdue : run.lua.takeDue = some (L, u, tm))
    (htm : tm ≠ .nil) :
    finalize vm (n + 1) run =
      match vm.run run.turn L tm [.userdata u] with
      | (L', .returns _) => finalize vm n ⟨L', run.turn + 1⟩
      | (L', .raises r) => .error r ⟨L', run.turn + 1⟩ := by
  rw [finalize, run_get_bind]
  simp only [hdue, if_pos htm]
  show (luaCall vm tm [.userdata u] >>= fun _ => finalize vm n)
    ⟨L, run.turn⟩ = _
  rw [run_bind]
  unfold luaCall
  rcases vm.run run.turn L tm [.userdata u] with ⟨L', result⟩
  cases result with
  | returns results => rfl
  | raises r => rfl

/-- This many finalizers raise nothing, and what they leave has the property. -/
def Finalizes (vm : Vm) : Nat -> RunState -> (RunState -> Prop) -> Prop
  | 0, s, P => P s
  | n + 1, s, P =>
      match s.lua.takeDue with
      | none => P s
      | some (L, u, tm) =>
          if tm = .nil then Finalizes vm n ⟨L, s.turn⟩ P
          else
            match vm.run s.turn L tm [.userdata u] with
            | (L', .returns _) => Finalizes vm n ⟨L', s.turn + 1⟩ P
            | (_, .raises _) => False

theorem finalizes_iff {P : RunState -> Prop} {n : Nat} {run : RunState} :
    Finalizes vm n run P <->
      exists run', finalize vm n run = .ok () run' ∧ P run' := by
  induction n generalizing run with
  | zero =>
      constructor
      · exact fun h => ⟨run, rfl, h⟩
      · rintro ⟨run', hrun, h⟩
        cases hrun
        exact h
  | succ n ih =>
      unfold Finalizes
      cases hdue : run.lua.takeDue with
      | none =>
          rw [finalize_none hdue]
          constructor
          · exact fun h => ⟨run, rfl, h⟩
          · rintro ⟨run', hrun, h⟩
            cases hrun
            exact h
      | some due =>
          rcases due with ⟨L, u, tm⟩
          by_cases htm : tm = .nil
          · subst htm
            rw [finalize_nil hdue]
            simp only [if_true]
            exact ih
          · rw [finalize_some hdue htm]
            simp only [if_neg htm]
            rcases vm.run run.turn L tm [.userdata u] with ⟨L', result⟩
            cases result with
            | returns results => exact ih
            | raises r => simp

end Finalize

def collected (vm : Vm) (stack : List Value) (finalizers : Nat)
    (run : RunState) : EStateM.Result Raise RunState Unit :=
  finalize vm finalizers { run with lua := run.lua.fullgc stack }

section Collected

variable {stack : List Value} {n : Nat} {run' : RunState} {r : Raise}

theorem unprotected_ok (h : collected vm stack n run = .ok () run') :
    unprotected (collect vm stack n) ⟨run, stack, stderr⟩ =
      .ok () ⟨run', stack, stderr⟩ := by
  unfold unprotected
  rw [show collect vm stack n run = _ from h]

theorem unprotected_error (h : collected vm stack n run = .error r run') :
    unprotected (collect vm stack n) ⟨run, stack, stderr⟩ =
      .error (Raise.thrown r) ⟨run', stack, stderr⟩ := by
  unfold unprotected
  rw [show collect vm stack n run = _ from h]

theorem luaGcCollect_ok (h : collected vm stack vm.finalizers run = .ok () run') :
    luaGcCollect vm ⟨run, stack, stderr⟩ = .ok () ⟨run', stack, stderr⟩ :=
  unprotected_ok h

theorem luaGcCollect_error
    (h : collected vm stack vm.finalizers run = .error r run') :
    luaGcCollect vm ⟨run, stack, stderr⟩ =
      .error (Raise.thrown r) ⟨run', stack, stderr⟩ :=
  unprotected_error h

end Collected

/-!
# The report
-/

theorem luaTostring_string {t : LuaString}
    (htop : s.stack.getLastD .nil = .string t) :
    luaTostring vm s = .ok (some t) s := by
  unfold luaTostring
  rw [run_get_bind]
  simp only [htop]
  rfl

theorem luaTostring_other {e : Value} (htop : s.stack.getLastD .nil = e)
    (he : isString e = false) : luaTostring vm s = .ok none s := by
  unfold luaTostring
  rw [run_get_bind]
  simp only [htop]
  cases e with
  | string t => cases he
  | number n => cases he
  | _ => rfl

theorem getLastD_push (v : Value) : (below ++ [v]).getLastD .nil = v := by
  simp [List.getLastD_eq_getLast?]

theorem luaPop_push (v : Value) :
    luaPop 1 ⟨run, below ++ [v], stderr⟩ = .ok () ⟨run, below, stderr⟩ := by
  show EStateM.Result.ok _ _ = _
  simp

theorem report_nil :
    report vm 1 ⟨run, below ++ [.nil], stderr⟩ =
      .ok 1 ⟨run, below ++ [.nil], stderr⟩ := by
  unfold report
  rw [run_get_bind]
  simp only [getLastD_push]
  rfl

theorem report_some {e : Value} {text : Option LuaString} (e' : Value)
    {run' : RunState} (hne : e ≠ .nil)
    (hfirst : luaTostring vm ⟨run, below ++ [e], stderr⟩ =
      .ok text ⟨run', below ++ [e'], stderr⟩)
    (hagain : luaTostring vm ⟨run', below ++ [e'], stderr⟩ =
      .ok text ⟨run', below ++ [e'], stderr⟩) :
    report vm 1 ⟨run, below ++ [e], stderr⟩ =
      .ok 1 ⟨run', below, stderr ++ [text.map cString]⟩ := by
  unfold report printLuaError
  rw [run_get_bind]
  simp only [getLastD_push]
  rw [if_pos ⟨by decide, hne⟩]
  simp only [run_bind, hfirst, hagain, run_modify, luaPop_push, run_pure]

theorem report_string {t : LuaString} :
    report vm 1 ⟨run, below ++ [.string t], stderr⟩ =
      .ok 1 ⟨run, below, stderr ++ [some (cString t)]⟩ :=
  report_some (.string t) (by simp) (luaTostring_string (getLastD_push _))
    (luaTostring_string (getLastD_push _))

theorem report_other {e : Value} (hne : e ≠ .nil) (he : isString e = false) :
    report vm 1 ⟨run, below ++ [e], stderr⟩ =
      .ok 1 ⟨run, below, stderr ++ [none]⟩ :=
  report_some e hne (luaTostring_other (getLastD_push e) he)
    (luaTostring_other (getLastD_push e) he)

def converted (vm : Vm) (stack : List Value) (run : RunState) :
    EStateM.Result Raise RunState Unit :=
  match vm.step with
  | none => .ok () run
  | some finalizers => collected vm stack finalizers run

section Converted

variable {stack : List Value} {run' : RunState} {r : Raise}

theorem luaCCheckGC_ok (h : converted vm stack run = .ok () run') :
    luaCCheckGC vm ⟨run, stack, stderr⟩ = .ok () ⟨run', stack, stderr⟩ := by
  unfold converted at h
  unfold luaCCheckGC
  cases hstep : vm.step with
  | none =>
      rw [hstep] at h
      cases h
      rfl
  | some finalizers =>
      rw [hstep] at h
      exact unprotected_ok h

theorem luaCCheckGC_error (h : converted vm stack run = .error r run') :
    luaCCheckGC vm ⟨run, stack, stderr⟩ =
      .error (Raise.thrown r) ⟨run', stack, stderr⟩ := by
  unfold converted at h
  unfold luaCCheckGC
  cases hstep : vm.step with
  | none =>
      rw [hstep] at h
      cases h
  | some finalizers =>
      rw [hstep] at h
      exact unprotected_error h

end Converted

section Number

variable {n : LuaNumber}

theorem luaTostring_number (hmemory : vm.memory .number = true) :
    luaTostring vm ⟨run, below ++ [.number n], stderr⟩ =
      match converted vm (below ++ [.string (vm.number2str n)]) run with
      | .ok _ run' =>
          .ok (some (vm.number2str n))
            ⟨run', below ++ [.string (vm.number2str n)], stderr⟩
      | .error r run' =>
          .error (Raise.thrown r)
            ⟨run', below ++ [.string (vm.number2str n)], stderr⟩ := by
  unfold luaTostring push
  rw [run_get_bind]
  simp only [getLastD_push]
  rw [run_bind_ok (allocating_run hmemory), run_bind_ok (luaPop_push _),
    run_bind, run_modify]
  show (luaCCheckGC vm >>= _) (PmainState.mk run _ stderr) = _
  cases hgc : converted vm (below ++ [.string (vm.number2str n)]) run with
  | ok u run' =>
      rw [run_bind_ok (luaCCheckGC_ok hgc)]
      rfl
  | error r run' => rw [run_bind_error (luaCCheckGC_error hgc)]

theorem report_number (hmemory : vm.memory .number = true) {run' : RunState}
    (hgc : converted vm (below ++ [.string (vm.number2str n)]) run =
      .ok () run') :
    report vm 1 ⟨run, below ++ [.number n], stderr⟩ =
      .ok 1 ⟨run', below, stderr ++ [some (cString (vm.number2str n))]⟩ := by
  refine report_some (.string (vm.number2str n)) (by simp) ?_
    (luaTostring_string (getLastD_push _))
  rw [luaTostring_number hmemory, hgc]

theorem report_escapes {thrown : Thrown} {s' : PmainState}
    (h : luaTostring vm ⟨run, below ++ [.number n], stderr⟩ =
      .error thrown s') :
    report vm 1 ⟨run, below ++ [.number n], stderr⟩ = .error thrown s' := by
  unfold report
  rw [run_get_bind]
  simp only [getLastD_push]
  rw [if_pos ⟨by decide, by simp⟩, run_bind, h]

theorem luaTostring_number_memory (hmemory : ¬vm.memory .number = true) :
    luaTostring vm ⟨run, below ++ [.number n], stderr⟩ =
      .error ⟨.errMem, .nil⟩ ⟨run, below ++ [.number n], stderr⟩ := by
  unfold luaTostring
  rw [run_get_bind]
  simp only [getLastD_push]
  rw [run_bind_error (allocating_fails hmemory)]

end Number

/-!
# Loading
-/

theorem push_run (v : Value) :
    push v s = .ok () { s with stack := s.stack ++ [v] } := rfl

theorem luaRemove_run (idx : Nat) :
    luaRemove idx s = .ok () { s with stack := s.stack.eraseIdx (idx - 1) } :=
  rfl

theorem luaSettop_run (idx : Nat) :
    luaSettop idx s = .ok () { s with stack := s.stack.take idx } := rfl

theorem pushClosure_run (upvalues : List Value) :
    pushClosure upvalues s =
      .ok () { s with
        run := ⟨(s.run.lua.newCell upvalues).1, s.run.turn⟩
        stack := s.stack ++ [.closure (s.run.lua.newCell upvalues).2] } := rfl

/-- The message about a file, from the chunk name that `luaL_loadfile` pushed. -/
def fileMessage (what : String) (name serr : LuaString) : LuaString :=
  ascii ("cannot " ++ what ++ " ") ++ cString (cString name) ++ ascii ": " ++
    cString serr

def loadMessage (vm : Vm) (name : LuaString) : Option LuaString :=
  match vm.file with
  | .openFails serr => some (fileMessage "open" name serr)
  | .reopenFails serr => some (fileMessage "reopen" name serr)
  | .loads _ (some serr) => some (fileMessage "read" name serr)
  | .loads (.syntaxError msg) none => some (cString msg)
  | .loads .memory none => some (ascii "not enough memory")
  | .loads .compiled none => none

def callsErrfile (vm : Vm) : Bool :=
  match vm.file with
  | .openFails _ => true
  | .reopenFails _ => true
  | .loads _ readError => readError.isSome

theorem getD_push (v : Value) : (below ++ [v]).getD below.length .nil = v := by
  simp

theorem eraseIdx_under (v w : Value) :
    (below ++ [v] ++ [w]).eraseIdx below.length = below ++ [w] := by
  simp [List.eraseIdx_append]

theorem drop_at (text : LuaString) : (ascii "@" ++ text).drop 1 = text := rfl

theorem errfile_run (what : String) (serr : LuaString)
    (hmemory : vm.memory .message = true) :
    errfile vm what serr (below.length + 1)
        ⟨run, below ++ [.string (ascii "@" ++ cString name)], stderr⟩ =
      .ok .errFile
        ⟨run, below ++ [.string (fileMessage what name serr)], stderr⟩ := by
  unfold errfile
  rw [run_get_bind]
  simp only [Nat.add_sub_cancel, getD_push, drop_at]
  rw [run_bind_ok (allocating_run hmemory), run_bind_ok (push_run _),
    run_bind_ok (luaRemove_run _), Nat.add_sub_cancel, eraseIdx_under]
  rfl

theorem errfile_escapes (what : String) (serr : LuaString) (fnameindex : Nat)
    (hmemory : ¬vm.memory .message = true) :
    errfile vm what serr fnameindex s = .error ⟨.errMem, .nil⟩ s := by
  unfold errfile
  rw [run_get_bind, run_bind_error (allocating_fails hmemory)]

section Load

variable {stack : List Value}

theorem luaLoad_compiled :
    luaLoad .compiled ⟨run, stack, stderr⟩ =
      .ok .ok ⟨⟨(run.lua.newCell []).1, run.turn⟩,
        stack ++ [.closure (run.lua.newCell []).2], stderr⟩ := rfl

theorem luaLoad_syntaxError (msg : LuaString) :
    luaLoad (.syntaxError msg) ⟨run, stack, stderr⟩ =
      .ok .errSyntax ⟨run, stack ++ [.string (cString msg)], stderr⟩ := rfl

theorem luaLoad_memory :
    luaLoad .memory ⟨run, stack, stderr⟩ =
      .ok .errMem
        ⟨run, stack ++ [.string (ascii "not enough memory")], stderr⟩ := rfl

theorem luaLoad_pushes (parsed : Parsed) (run : RunState) (stack : List Value)
    (stderr : List (Option LuaString)) :
    exists status run' v,
      luaLoad parsed ⟨run, stack, stderr⟩ =
        .ok status ⟨run', stack ++ [v], stderr⟩ := by
  cases parsed with
  | compiled => exact ⟨_, _, _, luaLoad_compiled⟩
  | syntaxError msg => exact ⟨_, _, _, luaLoad_syntaxError msg⟩
  | memory => exact ⟨_, _, _, luaLoad_memory⟩

end Load

theorem take_under (v w : Value) :
    (below ++ [v] ++ [w]).take (below.length + 1) = below ++ [v] := by
  simp [List.take_append]

theorem closeStream_none (status : LuaStatus) (v w : Value) :
    closeStream vm status none (below.length + 1)
        ⟨run, below ++ [v] ++ [w], stderr⟩ =
      .ok status ⟨run, below ++ [w], stderr⟩ := by
  show (luaRemove (below.length + 1) >>= fun _ => pure status)
    (PmainState.mk run _ stderr) = _
  rw [run_bind_ok (luaRemove_run _), Nat.add_sub_cancel, eraseIdx_under]
  rfl

theorem closeStream_some (status : LuaStatus) (serr : LuaString) (v w : Value) :
    closeStream vm status (some serr) (below.length + 1)
        ⟨run, below ++ [v] ++ [w], stderr⟩ =
      errfile vm "read" serr (below.length + 1) ⟨run, below ++ [v], stderr⟩ := by
  show (luaSettop (below.length + 1) >>= fun _ => errfile vm "read" serr _)
    (PmainState.mk run _ stderr) = _
  rw [run_bind_ok (luaSettop_run _), take_under]

theorem luaLLoadfile_fails {msg : LuaString} (hmsg : loadMessage vm name = some msg)
    (hname : vm.memory .filename = true)
    (herrfile : callsErrfile vm = true -> vm.memory .message = true) :
    exists status run', status ≠ .ok ∧
      luaLLoadfile vm name ⟨run, below, stderr⟩ =
        .ok status ⟨run', below ++ [.string msg], stderr⟩ := by
  unfold loadMessage at hmsg
  unfold callsErrfile at herrfile
  unfold luaLLoadfile
  rw [run_get_bind, run_bind_ok (allocating_run hname),
    run_bind_ok (push_run _)]
  cases hfile : vm.file with
  | openFails serr =>
      rw [hfile] at hmsg herrfile
      cases hmsg
      exact ⟨.errFile, run, by simp, errfile_run _ serr (herrfile rfl)⟩
  | reopenFails serr =>
      rw [hfile] at hmsg herrfile
      cases hmsg
      exact ⟨.errFile, run, by simp, errfile_run _ serr (herrfile rfl)⟩
  | loads parsed readError =>
      rw [hfile] at hmsg herrfile
      cases readError with
      | some serr =>
          cases hmsg
          rcases luaLoad_pushes parsed run
            (below ++ [.string (ascii "@" ++ cString name)]) stderr with
            ⟨status, run', v, hload⟩
          refine ⟨.errFile, run', by simp, ?_⟩
          show (luaLoad parsed >>= _) (PmainState.mk run _ stderr) = _
          rw [run_bind_ok hload]
          exact (closeStream_some _ serr _ v).trans
            (errfile_run _ serr (herrfile rfl))
      | none =>
          cases parsed with
          | compiled => cases hmsg
          | syntaxError msg =>
              cases hmsg
              refine ⟨.errSyntax, run, by simp, ?_⟩
              show (luaLoad _ >>= _) (PmainState.mk run _ stderr) = _
              rw [run_bind_ok (luaLoad_syntaxError _)]
              exact closeStream_none _ _ _
          | memory =>
              cases hmsg
              refine ⟨.errMem, run, by simp, ?_⟩
              show (luaLoad _ >>= _) (PmainState.mk run _ stderr) = _
              rw [run_bind_ok luaLoad_memory]
              exact closeStream_none _ _ _

def chunk (run : RunState) : Value := .closure (run.lua.newCell []).2

def withClosure (run : RunState) : RunState :=
  ⟨(run.lua.newCell []).1, run.turn⟩

theorem luaLLoadfile_loads (hmsg : loadMessage vm name = none)
    (hname : vm.memory .filename = true) :
    luaLLoadfile vm name ⟨run, below, stderr⟩ =
      .ok .ok ⟨withClosure run, below ++ [chunk run], stderr⟩ := by
  unfold loadMessage at hmsg
  unfold luaLLoadfile
  rw [run_get_bind, run_bind_ok (allocating_run hname),
    run_bind_ok (push_run _)]
  cases hfile : vm.file with
  | openFails serr =>
      rw [hfile] at hmsg
      cases hmsg
  | reopenFails serr =>
      rw [hfile] at hmsg
      cases hmsg
  | loads parsed readError =>
      rw [hfile] at hmsg
      cases readError with
      | some serr => cases hmsg
      | none =>
          cases parsed with
          | compiled =>
              show (luaLoad .compiled >>= _) (PmainState.mk run _ stderr) = _
              rw [run_bind_ok luaLoad_compiled]
              exact closeStream_none _ _ _
          | syntaxError msg => cases hmsg
          | memory => cases hmsg

theorem luaLLoadfile_escapes (hname : ¬vm.memory .filename = true) :
    luaLLoadfile vm name s = .error ⟨.errMem, .nil⟩ s := by
  unfold luaLLoadfile
  rw [run_get_bind, run_bind_error (allocating_fails hname)]

theorem luaLLoadfile_errfile_escapes (hname : vm.memory .filename = true)
    (herrfile : callsErrfile vm = true) (hmessage : ¬vm.memory .message = true) :
    exists thrown s',
      luaLLoadfile vm name ⟨run, below, stderr⟩ = .error thrown s' := by
  unfold callsErrfile at herrfile
  unfold luaLLoadfile
  rw [run_get_bind, run_bind_ok (allocating_run hname),
    run_bind_ok (push_run _)]
  cases hfile : vm.file with
  | openFails serr => exact ⟨_, _, errfile_escapes _ _ _ hmessage⟩
  | reopenFails serr => exact ⟨_, _, errfile_escapes _ _ _ hmessage⟩
  | loads parsed readError =>
      rw [hfile] at herrfile
      cases readError with
      | none => cases herrfile
      | some serr =>
          rcases luaLoad_pushes parsed run
            (below ++ [.string (ascii "@" ++ cString name)]) stderr with
            ⟨status, run', v, hload⟩
          refine ⟨⟨.errMem, .nil⟩,
            ⟨run', below ++ [.string (ascii "@" ++ cString name)], stderr⟩, ?_⟩
          show (luaLoad parsed >>= _) (PmainState.mk run _ stderr) = _
          rw [run_bind_ok hload]
          exact (closeStream_some _ serr _ v).trans
            (errfile_escapes _ _ _ hmessage)

/-!
# Calling the chunk
-/

section Pcall

variable {f : Value} {run' : RunState}

theorem luaPcall_run (nresults : Option Nat) :
    luaPcall vm 0 nresults ⟨run, below ++ [f], stderr⟩ =
      finishPcall vm below nresults (runProtected vm f [] run)
        ⟨run, below ++ [f], stderr⟩ := by
  unfold luaPcall
  rw [run_get_bind]
  simp

theorem luaPcall_ok {results : List Value}
    (h : runProtected vm f [] run = (.ok results, run')) :
    luaPcall vm 0 (some 0) ⟨run, below ++ [f], stderr⟩ =
      .ok .ok ⟨run', below, stderr⟩ := by
  rw [luaPcall_run, h]
  show EStateM.Result.ok _ _ = _
  simp [adjust]

theorem luaPcall_thrown {thrown : Thrown}
    (h : runProtected vm f [] run = (.error thrown, run')) :
    luaPcall vm 0 (some 0) ⟨run, below ++ [f], stderr⟩ =
      setErrorObject vm thrown ⟨run', below, stderr⟩ := by
  rw [luaPcall_run, h]
  rfl

theorem setErrorObject_run {thrown : Thrown}
    (hmemory : thrown.status = .errErr -> vm.memory .errorMessage = true) :
    setErrorObject vm thrown s =
      .ok thrown.status
        { s with stack := s.stack ++ [luaDSeterrorobj thrown] } := by
  unfold setErrorObject
  by_cases herrerr : thrown.status = .errErr
  · rw [if_pos herrerr, run_bind_ok (allocating_run (hmemory herrerr))]
    rfl
  · rw [if_neg herrerr]
    rfl

theorem setErrorObject_escapes {thrown : Thrown}
    (herrerr : thrown.status = .errErr)
    (hmemory : ¬vm.memory .errorMessage = true) :
    setErrorObject vm thrown s = .error ⟨.errMem, .nil⟩ s := by
  unfold setErrorObject
  rw [if_pos herrerr, run_bind_error (allocating_fails hmemory)]

end Pcall

def finishCall (vm : Vm) (base : Nat) (status : LuaStatus) : Pmain LuaStatus := do
  luaRemove base
  if status ≠ .ok then luaGcCollect vm
  return status

theorem insertIdx_under (v w : Value) :
    (below ++ [v]).insertIdx below.length w = below ++ [w, v] := by
  induction below with
  | nil => rfl
  | cons u rest ih =>
      rw [List.cons_append, List.length_cons, List.insertIdx_succ_cons, ih]
      rfl

theorem luaInsert_under (v w : Value) :
    luaInsert (below.length + 1) ⟨run, below ++ [v] ++ [w], stderr⟩ =
      .ok () ⟨run, below ++ [w] ++ [v], stderr⟩ := by
  show EStateM.Result.ok _ _ = _
  simp [List.getLastD_eq_getLast?, insertIdx_under]

theorem doluacall_run (f : Value) (htraceback : vm.memory .traceback = true) :
    doluacall vm 0 true ⟨run, below ++ [f], stderr⟩ =
      (luaPcall vm 0 (some 0) >>= finishCall vm (below.length + 1))
        ⟨withClosure run, below ++ [chunk run] ++ [f], stderr⟩ := by
  unfold doluacall
  rw [run_get_bind, run_bind_ok (allocating_run htraceback),
    run_bind_ok (pushClosure_run _)]
  simp only [List.length_append, List.length_singleton, Nat.sub_zero]
  rw [run_bind_ok (luaInsert_under _ _)]
  rfl

section Doluacall

variable {f : Value} {run' : RunState} {thrown : Thrown}

theorem doluacall_ok {results : List Value}
    (htraceback : vm.memory .traceback = true)
    (h : runProtected vm f [] (withClosure run) = (.ok results, run')) :
    doluacall vm 0 true ⟨run, below ++ [f], stderr⟩ =
      .ok .ok ⟨run', below, stderr⟩ := by
  rw [doluacall_run f htraceback, run_bind_ok (luaPcall_ok h)]
  show EStateM.Result.ok _ _ = _
  simp [List.eraseIdx_append]

/-- After an error, the error object is on the stack during the collection. -/
theorem doluacall_thrown (htraceback : vm.memory .traceback = true)
    (h : runProtected vm f [] (withClosure run) = (.error thrown, run'))
    (hmemory : thrown.status = .errErr -> vm.memory .errorMessage = true)
    (hstatus : thrown.status ≠ .ok) :
    doluacall vm 0 true ⟨run, below ++ [f], stderr⟩ =
      (luaGcCollect vm >>= fun _ => pure thrown.status)
        ⟨run', below ++ [luaDSeterrorobj thrown], stderr⟩ := by
  rw [doluacall_run f htraceback]
  unfold finishCall
  have hpcall : luaPcall vm 0 (some 0)
      ⟨withClosure run, below ++ [chunk run] ++ [f], stderr⟩ =
        setErrorObject vm thrown ⟨run', below ++ [chunk run], stderr⟩ :=
    luaPcall_thrown h
  rw [setErrorObject_run hmemory] at hpcall
  rw [run_bind_ok hpcall, run_bind_ok (luaRemove_run _), Nat.add_sub_cancel,
    eraseIdx_under, if_pos hstatus]

theorem doluacall_escapes (h : ¬vm.memory .traceback = true) :
    doluacall vm 0 true s = .error ⟨.errMem, .nil⟩ s := by
  unfold doluacall
  rw [run_get_bind, run_bind_error (allocating_fails h)]

theorem doluacall_errerr_escapes (htraceback : vm.memory .traceback = true)
    (h : runProtected vm f [] (withClosure run) = (.error thrown, run'))
    (herrerr : thrown.status = .errErr)
    (hmemory : ¬vm.memory .errorMessage = true) :
    exists thrown' s',
      doluacall vm 0 true ⟨run, below ++ [f], stderr⟩ = .error thrown' s' := by
  rw [doluacall_run f htraceback]
  have hpcall : luaPcall vm 0 (some 0)
      ⟨withClosure run, below ++ [chunk run] ++ [f], stderr⟩ =
        setErrorObject vm thrown ⟨run', below ++ [chunk run], stderr⟩ :=
    luaPcall_thrown h
  rw [setErrorObject_escapes herrerr hmemory] at hpcall
  exact ⟨_, _, run_bind_error hpcall⟩

end Doluacall

/-!
# What errors come to
-/

/--
An error raised in a function that runs `nCcalls` C calls deep comes to what is
thrown: what the error function returns for it, or what an error in the error
function comes to.
-/
inductive Handled (vm : Vm) : Nat -> Raise -> RunState -> Thrown -> RunState -> Prop where
  | memory (nCcalls : Nat) (s : RunState) :
      Handled vm nCcalls .memory s ⟨.errMem, .nil⟩ s
  | errErr (nCcalls : Nat) (s : RunState) :
      Handled vm nCcalls .errErr s ⟨.errErr, .nil⟩ s
  | returned {nCcalls depth : Nat} {v w : Value} {s s' : RunState}
      (h : callTraceback vm (nCcalls + depth + 1) v s = .ok w s') :
      Handled vm nCcalls (.error v depth) s ⟨.errRun, w⟩ s'
  | failed {nCcalls depth : Nat} {v : Value} {r : Raise} {s s' s'' : RunState}
      {t : Thrown}
      (h : callTraceback vm (nCcalls + depth + 1) v s = .error r s')
      (hr : Handled vm (nCcalls + depth + 1) r s' t s'') :
      Handled vm nCcalls (.error v depth) s t s''

theorem callTraceback_beyond {nCcalls : Nat} (h : errorFuel ≤ nCcalls)
    (v : Value) : callTraceback vm nCcalls v run = .error .errErr run := by
  have hne : nCcalls ≠ luaiMaxccalls := by
    unfold errorFuel luaiMaxccalls at h
    unfold luaiMaxccalls
    omega
  unfold callTraceback
  rw [if_neg hne]
  exact congrFun (if_pos h) run

/-- The fuel is enough for every chain of errors. -/
theorem handled_throwing {fuel nCcalls : Nat} (hfuel : errorFuel ≤ nCcalls + fuel)
    (r : Raise) (s : RunState) :
    Handled vm nCcalls r s (throwing vm fuel nCcalls r s).1
      (throwing vm fuel nCcalls r s).2 := by
  induction fuel generalizing nCcalls r s with
  | zero =>
      cases r with
      | memory => exact .memory nCcalls s
      | errErr => exact .errErr nCcalls s
      | error v depth =>
          exact .failed (callTraceback_beyond (by omega) v) (.errErr _ s)
  | succ fuel ih =>
      cases r with
      | memory => exact .memory nCcalls s
      | errErr => exact .errErr nCcalls s
      | error v depth =>
          unfold throwing
          cases hcall : callTraceback vm (nCcalls + depth + 1) v s with
          | ok w s' => exact .returned hcall
          | error r' s' => exact .failed hcall (ih (by omega) r' s')

theorem handled_unique {nCcalls : Nat} {r : Raise} {s s' s'' : RunState}
    {t t' : Thrown} (h : Handled vm nCcalls r s t s')
    (h' : Handled vm nCcalls r s t' s'') : t = t' ∧ s' = s'' := by
  induction h with
  | memory nCcalls s =>
      cases h'
      exact ⟨rfl, rfl⟩
  | errErr nCcalls s =>
      cases h'
      exact ⟨rfl, rfl⟩
  | returned hcall =>
      cases h' with
      | returned hcall' =>
          rw [hcall] at hcall'
          cases hcall'
          exact ⟨rfl, rfl⟩
      | failed hcall' _ =>
          rw [hcall] at hcall'
          cases hcall'
  | failed hcall _ ih =>
      cases h' with
      | returned hcall' =>
          rw [hcall] at hcall'
          cases hcall'
      | failed hcall' hr =>
          rw [hcall] at hcall'
          cases hcall'
          exact ih hr

theorem handled_status {nCcalls : Nat} {r : Raise} {s s' : RunState} {t : Thrown}
    (h : Handled vm nCcalls r s t s') : t.status ≠ .ok := by
  induction h with
  | memory => simp
  | errErr => simp
  | returned => simp
  | failed _ _ ih => exact ih

/-- A protected call of the chunk throws what its error comes to. -/
theorem runProtected_error {f : Value} {r : Raise} {s s' : RunState}
    {t : Thrown} (hcall : luaCall vm f [] run = .error r s)
    (h : Handled vm chunkDepth r s t s') :
    runProtected vm f [] run = (.error t, s') := by
  unfold runProtected
  rw [hcall]
  have hfuel : errorFuel ≤ chunkDepth + errorFuel := Nat.le_add_left _ _
  rcases handled_unique h (handled_throwing hfuel r s) with ⟨rfl, rfl⟩
  rfl

theorem runProtected_ok {f : Value} {results : List Value} {s : RunState}
    (hcall : luaCall vm f [] run = .ok results s) :
    runProtected vm f [] run = (.ok results, s) := by
  unfold runProtected
  rw [hcall]

end Runs

end Standalone
end LuaServer
