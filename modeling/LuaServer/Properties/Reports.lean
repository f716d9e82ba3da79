import LuaServer.Interpreter.Step
import LuaServer.Standalone.DofileRuns

/-!
# Reports

What `dofile` tells about a script that fails: one line on `stderr` with the text
of the error object.  The line gets a null pointer for an object that is no string
and no number, there is none for `nil`, and a finalizer that raises during the
collection after the failure leaves `dofile` before the report.
-/

namespace LuaServer
namespace Standalone

open Library

/-!
# Scripts that fail and scripts that succeed
-/

/-- The run of the chunk, after its closure and that of `traceback` were made. -/
def chunkRun (vm : Vm) (s : PmainState) :
    EStateM.Result Raise RunState (List Value) :=
  luaCall vm (chunk s.run) [] (withClosure (withClosure s.run))

/-- The script fails with this error object, at loading or in its run. -/
inductive Fails (vm : Vm) (name : LuaString) (s : PmainState) : Value -> Prop where
  | load {msg : LuaString} (h : loadMessage vm name = some msg) :
      Fails vm name s (.string msg)
  | run {r : Raise} {s1 s2 : RunState} {t : Thrown}
      (hload : loadMessage vm name = none) (hrun : chunkRun vm s = .error r s1)
      (h : Handled vm chunkDepth r s1 t s2) :
      Fails vm name s (luaDSeterrorobj t)

def Succeeds (vm : Vm) (name : LuaString) (s : PmainState) : Prop :=
  loadMessage vm name = none ∧
    exists results s1, chunkRun vm s = .ok results s1

/-- The text that belongs to an error object. -/
def diagnostic (vm : Vm) : Value -> LuaString
  | .string text => text
  | .number n => vm.number2str n
  | _ => ascii "(error object is not a string)"

/-- One diagnostic, a status that is not zero, and the stack as high as before. -/
def Reported (vm : Vm) (s : PmainState) (e : Value)
    (result : EStateM.Result Thrown PmainState Int) : Prop :=
  exists status s', result = .ok status s' ∧ status ≠ 0 ∧
    s'.stderr = s.stderr ++ [some (diagnostic vm e)] ∧
      s'.stack.length = s.stack.length

/-- No diagnostic, the status zero, and the stack as high as before. -/
def Silent (s : PmainState)
    (result : EStateM.Result Thrown PmainState Int) : Prop :=
  exists s', result = .ok 0 s' ∧ s'.stderr = s.stderr ∧
    s'.stack.length = s.stack.length

structure ReportsOutcome (vm : Vm) (name : LuaString) (s : PmainState) : Prop where
  failing : forall e, Fails vm name s e -> Reported vm s e (dofile vm name s)
  succeeding : Succeeds vm name s -> Silent s (dofile vm name s)

/-!
# Failures that can be reported
-/

/-- A string or a number, with no zero byte in its text. -/
def Printable (vm : Vm) : Value -> Prop
  | .string text => (0 : UInt8) ∉ text
  | .number n => (0 : UInt8) ∉ vm.number2str n
  | _ => False

/-- No finalizer of a collection raises, and what they leave has the property. -/
def Collects (vm : Vm) (stack : List Value) (finalizers : Nat) (run : RunState)
    (P : RunState -> Prop) : Prop :=
  Finalizes vm finalizers { run with lua := run.lua.fullgc stack } P

/-- The conversion of a number for the report gets its memory and raises nothing. -/
def Converts (vm : Vm) (below : List Value) : Value -> RunState -> Prop
  | .number n, run =>
      vm.memory .number = true ∧
        forall finalizers, vm.step = some finalizers ->
          Collects vm (below ++ [.string (vm.number2str n)]) finalizers run
            fun _ => True
  | _, _ => True

/-- What the run throws can be printed, and no finalizer raises before it is. -/
structure CanReport (vm : Vm) (below : List Value) (t : Thrown) (run : RunState) :
    Prop where
  memory : t.status = .errErr -> vm.memory .errorMessage = true
  printable : Printable vm (luaDSeterrorobj t)
  collects : Collects vm (below ++ [luaDSeterrorobj t]) vm.finalizers run
    (Converts vm below (luaDSeterrorobj t))

structure OutcomeReportable (vm : Vm) (name : LuaString) (s : PmainState) :
    Prop where
  filename : vm.memory .filename = true
  message : callsErrfile vm = true -> vm.memory .message = true
  traceback : loadMessage vm name = none -> vm.memory .traceback = true
  error : forall r s1 t s2, loadMessage vm name = none ->
    chunkRun vm s = .error r s1 -> Handled vm chunkDepth r s1 t s2 ->
      CanReport vm s.stack t s2

section Reports

variable {vm : Vm} {name : LuaString} {run₀ run : RunState} {below : List Value}
variable {stderr : List (Option LuaString)} {s : PmainState} {e : Value}

theorem cString_eq_self_iff {text : LuaString} :
    cString text = text <-> (0 : UInt8) ∉ text := by
  constructor
  · intro h
    rw [← h]
    exact zero_notMem_cString text
  · exact cString_eq_self

theorem not_reported_error {thrown : Thrown} {s' : PmainState} :
    ¬Reported vm s e (.error thrown s') := by
  rintro ⟨_, _, h, _⟩
  cases h

theorem reported_printed {text : LuaString} :
    Reported vm ⟨run₀, below, stderr⟩ e
        (.ok 1 ⟨run, below, stderr ++ [some (cString text)]⟩) <->
      cString text = diagnostic vm e := by
  constructor
  · rintro ⟨_, _, h, _, hstderr, _⟩
    cases h
    simpa using hstderr
  · intro h
    exact ⟨1, _, rfl, by decide, by rw [h], rfl⟩

/-- A null pointer goes to the diagnostic of an object without a text. -/
theorem not_reported_other (hne : e ≠ .nil) (he : isString e = false) :
    ¬Reported vm ⟨run₀, below, stderr⟩ e
      (report vm 1 ⟨run, below ++ [e], stderr⟩) := by
  rw [report_other hne he]
  rintro ⟨_, _, h, _, hstderr, _⟩
  cases h
  simp at hstderr

theorem not_reported_nil :
    ¬Reported vm ⟨run₀, below, stderr⟩ .nil
      (report vm 1 ⟨run, below ++ [.nil], stderr⟩) := by
  rw [report_nil]
  rintro ⟨_, _, h, _, hstderr, _⟩
  cases h
  simp at hstderr

theorem collects_iff {stack : List Value} {finalizers : Nat}
    {P : RunState -> Prop} :
    Collects vm stack finalizers run P <->
      exists run', collected vm stack finalizers run = .ok () run' ∧ P run' :=
  finalizes_iff

theorem converts_number_iff {n : LuaNumber} :
    Converts vm below (.number n) run <->
      vm.memory .number = true ∧
        exists run', converted vm (below ++ [.string (vm.number2str n)]) run =
          .ok () run' := by
  unfold Converts converted
  refine and_congr_right fun _ => ?_
  cases vm.step with
  | none => simp
  | some finalizers => simp [collects_iff]

theorem report_number_iff {n : LuaNumber} :
    Reported vm ⟨run₀, below, stderr⟩ (.number n)
        (report vm 1 ⟨run, below ++ [.number n], stderr⟩) <->
      (0 : UInt8) ∉ vm.number2str n ∧ Converts vm below (.number n) run := by
  rw [converts_number_iff]
  by_cases hmemory : vm.memory .number = true
  · cases hgc : converted vm (below ++ [.string (vm.number2str n)]) run with
    | ok u run' =>
        rw [report_number hmemory hgc, reported_printed]
        show cString (vm.number2str n) = vm.number2str n <-> _
        rw [cString_eq_self_iff]
        exact ⟨fun h => ⟨h, hmemory, run', rfl⟩, fun h => h.1⟩
    | error r run' =>
        have hescapes := @luaTostring_number vm run below stderr n hmemory
        rw [hgc] at hescapes
        rw [report_escapes hescapes]
        constructor
        · exact fun h => absurd h not_reported_error
        · rintro ⟨_, _, _, h⟩
          cases h
  · rw [report_escapes (luaTostring_number_memory hmemory)]
    constructor
    · exact fun h => absurd h not_reported_error
    · exact fun h => absurd h.2.1 hmemory

theorem report_iff :
    Reported vm ⟨run₀, below, stderr⟩ e
        (report vm 1 ⟨run, below ++ [e], stderr⟩) <->
      Printable vm e ∧ Converts vm below e run := by
  cases e with
  | nil => exact iff_of_false not_reported_nil fun h => h.1
  | string text =>
      rw [report_string, reported_printed]
      show cString text = text <-> _
      rw [cString_eq_self_iff]
      exact ⟨fun h => ⟨h, trivial⟩, fun h => h.1⟩
  | number n => exact report_number_iff
  | _ => exact iff_of_false (not_reported_other (by simp) rfl) fun h => h.1

/-!
# The three ways through dofile
-/

theorem zero_notMem_fileMessage {what : String} (name serr : LuaString)
    (hwhat : (0 : UInt8) ∉ ascii ("cannot " ++ what ++ " ")) :
    (0 : UInt8) ∉ fileMessage what name serr := by
  have hcolon : (0 : UInt8) ∉ ascii ": " := by decide
  unfold fileMessage
  simp [hwhat, hcolon, zero_notMem_cString]

theorem zero_notMem_loadMessage {msg : LuaString}
    (h : loadMessage vm name = some msg) : (0 : UInt8) ∉ msg := by
  unfold loadMessage at h
  split at h
  · cases h
    exact zero_notMem_fileMessage name _ (by decide)
  · cases h
    exact zero_notMem_fileMessage name _ (by decide)
  · cases h
    exact zero_notMem_fileMessage name _ (by decide)
  · cases h
    exact zero_notMem_cString _
  · cases h
    decide
  · cases h

theorem dofile_load_escapes {thrown : Thrown} {s' : PmainState}
    (h : luaLLoadfile vm name s = .error thrown s') :
    dofile vm name s = .error thrown s' := by
  unfold dofile
  rw [run_bind_error h]

theorem dofile_load_fails {status : LuaStatus} {s' : PmainState}
    (h : luaLLoadfile vm name s = .ok status s') (hstatus : status ≠ .ok) :
    dofile vm name s = report vm 1 s' := by
  unfold dofile
  rw [run_bind_ok h]
  simp only [if_pos hstatus]
  rfl

theorem dofile_calls {s' : PmainState} (h : luaLLoadfile vm name s = .ok .ok s') :
    dofile vm name s =
      (doluacall vm 0 true >>= fun status =>
        report vm (if status ≠ .ok then 1 else 0)) s' := by
  unfold dofile
  rw [run_bind_ok h]
  show (((fun status => decide (status ≠ .ok)) <$> doluacall vm 0 true) >>=
    fun failed => report vm (if failed = true then 1 else 0)) s' = _
  rw [run_bind, run_bind, map_eq_pure_bind, run_bind]
  cases hcall : doluacall vm 0 true s' with
  | ok status s'' => simp
  | error thrown s'' => rfl

theorem load_reported_iff {msg : LuaString} (hmsg : loadMessage vm name = some msg) :
    Reported vm s (.string msg) (dofile vm name s) <->
      vm.memory .filename = true ∧
        (callsErrfile vm = true -> vm.memory .message = true) := by
  by_cases hname : vm.memory .filename = true
  · by_cases hmessage : callsErrfile vm = true -> vm.memory .message = true
    · rcases @luaLLoadfile_fails vm name s.run s.stack s.stderr msg hmsg hname
        hmessage with ⟨status, run', hstatus, hload⟩
      rw [dofile_load_fails hload hstatus]
      refine iff_of_true (report_iff.mpr ⟨?_, trivial⟩) ⟨hname, hmessage⟩
      exact zero_notMem_loadMessage hmsg
    · have herrfile : callsErrfile vm = true := by
        by_contra h
        exact hmessage fun herrfile => absurd herrfile h
      rcases @luaLLoadfile_errfile_escapes vm name s.run s.stack s.stderr hname
        herrfile (fun h => hmessage fun _ => h) with ⟨thrown, s', hload⟩
      rw [dofile_load_escapes hload]
      exact iff_of_false not_reported_error fun h => hmessage h.2
  · rw [dofile_load_escapes (luaLLoadfile_escapes hname)]
    exact iff_of_false not_reported_error fun h => hname h.1

theorem dofile_loaded (hmsg : loadMessage vm name = none)
    (hname : vm.memory .filename = true) :
    dofile vm name s =
      (doluacall vm 0 true >>= fun status =>
        report vm (if status ≠ .ok then 1 else 0))
        ⟨withClosure s.run, s.stack ++ [chunk s.run], s.stderr⟩ :=
  dofile_calls (luaLLoadfile_loads hmsg hname)

theorem dofile_ok (hmsg : loadMessage vm name = none)
    (hname : vm.memory .filename = true)
    (htraceback : vm.memory .traceback = true) {results : List Value}
    {s1 : RunState} (hrun : chunkRun vm s = .ok results s1) :
    dofile vm name s = .ok 0 ⟨s1, s.stack, s.stderr⟩ := by
  rw [dofile_loaded hmsg hname,
    run_bind_ok (doluacall_ok htraceback (runProtected_ok hrun))]
  rfl

theorem dofile_escapes (hmsg : loadMessage vm name = none)
    (hmemory : ¬(vm.memory .filename = true ∧ vm.memory .traceback = true)) :
    exists thrown s', dofile vm name s = .error thrown s' := by
  by_cases hname : vm.memory .filename = true
  · rw [dofile_loaded hmsg hname]
    exact ⟨_, _, run_bind_error (doluacall_escapes fun h => hmemory ⟨hname, h⟩)⟩
  · exact ⟨_, _, dofile_load_escapes (luaLLoadfile_escapes hname)⟩

theorem thrown_reported_iff (hmsg : loadMessage vm name = none)
    (hname : vm.memory .filename = true)
    (htraceback : vm.memory .traceback = true) {r : Raise} {s1 s2 : RunState}
    {t : Thrown} (hrun : chunkRun vm s = .error r s1)
    (h : Handled vm chunkDepth r s1 t s2) :
    Reported vm s (luaDSeterrorobj t) (dofile vm name s) <->
      CanReport vm s.stack t s2 := by
  have hprotected := runProtected_error hrun h
  have hstatus := handled_status h
  rw [dofile_loaded hmsg hname]
  by_cases hmemory : t.status = .errErr -> vm.memory .errorMessage = true
  · have hcall := @doluacall_thrown vm (withClosure s.run) s.stack s.stderr
      (chunk s.run) s2 t htraceback hprotected hmemory hstatus
    cases hgc : collected vm (s.stack ++ [luaDSeterrorobj t]) vm.finalizers s2 with
    | ok u run' =>
        rw [run_bind_ok (luaGcCollect_ok hgc)] at hcall
        rw [run_bind_ok hcall, if_pos hstatus]
        refine report_iff.trans ⟨fun hreport => ?_, fun hcan => ?_⟩
        · exact ⟨hmemory, hreport.1, collects_iff.mpr ⟨run', hgc, hreport.2⟩⟩
        · rcases collects_iff.mp hcan.collects with ⟨run'', hgc', hconverts⟩
          rw [hgc] at hgc'
          cases hgc'
          exact ⟨hcan.printable, hconverts⟩
    | error r' run' =>
        rw [run_bind_error (luaGcCollect_error hgc)] at hcall
        rw [run_bind_error hcall]
        refine iff_of_false not_reported_error fun hcan => ?_
        rcases collects_iff.mp hcan.collects with ⟨run'', hgc', _⟩
        rw [hgc] at hgc'
        cases hgc'
  · have herrerr : t.status = .errErr := by
      by_contra hne
      exact hmemory fun heq => absurd heq hne
    rcases @doluacall_errerr_escapes vm (withClosure s.run) s.stack s.stderr
      (chunk s.run) s2 t htraceback hprotected herrerr
      (fun h => hmemory fun _ => h) with ⟨thrown, s', hescapes⟩
    rw [run_bind_error hescapes]
    exact iff_of_false not_reported_error fun hcan => hmemory hcan.memory

theorem callsErrfile_false (hmsg : loadMessage vm name = none) :
    callsErrfile vm = false := by
  unfold loadMessage at hmsg
  unfold callsErrfile
  cases hfile : vm.file with
  | openFails serr =>
      rw [hfile] at hmsg
      cases hmsg
  | reopenFails serr =>
      rw [hfile] at hmsg
      cases hmsg
  | loads parsed readError =>
      rw [hfile] at hmsg
      cases readError with
      | none => rfl
      | some serr => cases hmsg

theorem exists_handled (r : Raise) (s1 : RunState) :
    exists t s2, Handled vm chunkDepth r s1 t s2 :=
  ⟨_, _, handled_throwing (Nat.le_add_left errorFuel chunkDepth) r s1⟩

/-- A script that fails or succeeds with an outcome told does so with enough memory. -/
theorem memory_of_reports (hmsg : loadMessage vm name = none)
    (h : ReportsOutcome vm name s) :
    vm.memory .filename = true ∧ vm.memory .traceback = true := by
  by_contra hmemory
  rcases @dofile_escapes vm name s hmsg hmemory with ⟨thrown, s', hescapes⟩
  cases hrun : chunkRun vm s with
  | ok results s1 =>
      rcases h.succeeding ⟨hmsg, results, s1, hrun⟩ with ⟨_, hok, _⟩
      rw [hescapes] at hok
      cases hok
  | error r s1 =>
      rcases @exists_handled vm r s1 with ⟨t, s2, hhandled⟩
      have hreported := h.failing _ (.run hmsg hrun hhandled)
      rw [hescapes] at hreported
      exact not_reported_error hreported

theorem load_outcome_iff {msg : LuaString} (hmsg : loadMessage vm name = some msg) :
    ReportsOutcome vm name s <-> OutcomeReportable vm name s := by
  have hnone : loadMessage vm name ≠ none := by
    rw [hmsg]
    simp
  constructor
  · intro h
    rcases (load_reported_iff hmsg).mp (h.failing _ (.load hmsg)) with
      ⟨hname, hmessage⟩
    exact
      { filename := hname
        message := hmessage
        traceback := fun hload => absurd hload hnone
        error := fun _ _ _ _ hload => absurd hload hnone }
  · intro h
    refine
      { failing := ?_
        succeeding := fun hsucceeds => absurd hsucceeds.1 hnone }
    intro e he
    cases he with
    | load hmsg' => exact (load_reported_iff hmsg').mpr ⟨h.filename, h.message⟩
    | run hload _ _ => exact absurd hload hnone

theorem run_outcome_iff (hmsg : loadMessage vm name = none) :
    ReportsOutcome vm name s <-> OutcomeReportable vm name s := by
  constructor
  · intro h
    rcases memory_of_reports hmsg h with ⟨hname, htraceback⟩
    refine
      { filename := hname
        message := ?_
        traceback := fun _ => htraceback
        error := ?_ }
    · rw [callsErrfile_false hmsg]
      exact nofun
    · intro r s1 t s2 _ hrun hhandled
      exact (thrown_reported_iff hmsg hname htraceback hrun hhandled).mp
        (h.failing _ (.run hmsg hrun hhandled))
  · intro h
    have htraceback := h.traceback hmsg
    refine { failing := ?_, succeeding := ?_ }
    · intro e he
      cases he with
      | load hmsg' =>
          rw [hmsg] at hmsg'
          cases hmsg'
      | run _ hrun hhandled =>
          exact (thrown_reported_iff hmsg h.filename htraceback hrun hhandled).mpr
            (h.error _ _ _ _ hmsg hrun hhandled)
    · rintro ⟨_, results, s1, hrun⟩
      exact ⟨_, dofile_ok hmsg h.filename htraceback hrun, rfl, rfl⟩

end Reports

/--
`dofile` tells how a script ended exactly if its own allocations succeed and,
where the run fails, the error object is a printable string or number and no
finalizer raises in the collection before the report.
-/
theorem reportsOutcome_iff (vm : Vm) (name : LuaString) (s : PmainState) :
    ReportsOutcome vm name s <-> OutcomeReportable vm name s := by
  cases hmsg : loadMessage vm name with
  | some msg => exact load_outcome_iff hmsg
  | none => exact run_outcome_iff hmsg

/-!
# Failures that are not reported
-/

def pmainStart : PmainState where
  run := ⟨initialLua, 0⟩
  stack := [.lightuserdata (.block 0)]
  stderr := []

/-- A script that ends with `error(v)` leaves this interpreter. -/
def errorScript (v : Value) (L : LuaState) : Vm where
  run := fun _ _ _ _ => (L, .raises (.error v 1))
  finalizers := 1

/-- The interpreter after a script has dropped a proxy with a `__gc` metamethod. -/
def withProxy : LuaState :=
  let L := initialLua.newTable
  ((L.1.rawset L.2 (str "__gc") (.closure 0)).newUdata (some L.2)).1

/-- `error(v)`, where `traceback` passes the value on as it is. -/
theorem errorScript_canReport {v : Value} {L : LuaState} {s' : RunState}
    (htraceback : callTraceback (errorScript v L) (chunkDepth + 1 + 1) v ⟨L, 1⟩ =
      .ok v s')
    (h : ReportsOutcome (errorScript v L) (ascii "script.lua") pmainStart) :
    CanReport (errorScript v L) pmainStart.stack ⟨.errRun, v⟩ s' :=
  (thrown_reported_iff rfl rfl rfl rfl (.returned htraceback)).mp
    (h.failing v (.run rfl rfl (.returned htraceback)))

theorem withProxy_due :
    ((withProxy.fullgc [.lightuserdata (.block 0), str "failed"]).takeDue.map
      fun due => due.2.2) = some (.closure 0) := by
  decide +kernel

theorem errorScript_finalizes {v tm : Value} {L : LuaState} {run : RunState}
    {n : Nat} {P : RunState -> Prop}
    (hdue : run.lua.takeDue.map (fun due => due.2.2) = some tm)
    (htm : tm ≠ .nil) : ¬Finalizes (errorScript v L) (n + 1) run P := by
  intro h
  unfold Finalizes at h
  cases hcase : run.lua.takeDue with
  | none =>
      rw [hcase] at hdue
      cases hdue
  | some due =>
      rcases due with ⟨L', u, tm'⟩
      rw [hcase] at hdue h
      cases hdue
      simp only [if_neg htm] at h
      exact h

/--
`error(nil)`, an error object that is a table, and a string whose report a raising
finalizer prevents.
-/
theorem dofile_unreported :
    ¬ReportsOutcome (errorScript .nil initialLua) (ascii "script.lua") pmainStart ∧
      ¬ReportsOutcome (errorScript (.table 2) initialLua) (ascii "script.lua")
        pmainStart ∧
      ¬ReportsOutcome (errorScript (str "failed") withProxy) (ascii "script.lua")
        pmainStart := by
  refine ⟨fun h => ?_, fun h => ?_, fun h => ?_⟩
  · exact (errorScript_canReport rfl h).printable
  · exact (errorScript_canReport rfl h).printable
  · have hcollects := (errorScript_canReport rfl h).collects
    exact errorScript_finalizes withProxy_due (by simp) hcollects

end Standalone
end LuaServer
