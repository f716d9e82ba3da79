import LuaServer.Library.Runs
import LuaServer.Standalone.Hooks
import Mathlib.Logic.Function.Basic

/-!
# Lua threads and signals

A script run by `doluacall` as a chain of Lua threads, each one resumed by the
next: the activations on their C and Lua stacks, the points where hooks are
consulted, errors and the protected calls that stop them, and `SIGINT`.
-/

namespace LuaServer

/-!
# States
-/

inductive ErrFunc where
  | none
  | value
  | function
deriving DecidableEq

/--
An entry of a thread's stack.  `viaC` tells that `luaD_call` entered the function.
The calls of a hook, a finalizer and an error function keep what happens after it.
-/
inductive Activation where
  | lua (viaC : Bool) (tailcalls : Nat)
  | c (viaC : Bool)
  | pcall (oldAllowhooks : Bool) (errfunc : ErrFunc)
  | hook (rest : List HookEvent) (returning : Bool)
  | gctm (oldah : Bool)
  | errfunc
deriving DecidableEq

namespace Activation

def isLua : Activation -> Bool
  | lua _ _ => true
  | _ => false

def inCcall : Activation -> Bool
  | lua viaC _ => viaC
  | c viaC => viaC
  | _ => true

/-- What the innermost protected call left in `L->errfunc`. -/
def errfuncOf : List Activation -> ErrFunc
  | [] => .none
  | pcall _ handler :: _ => handler
  | _ :: rest => errfuncOf rest

/-- `luaD_throw`: the hook permission and the activations of the innermost `luaD_pcall`. -/
def unwind : List Activation -> Option (Bool × List Activation)
  | [] => Option.none
  | pcall oldAllowhooks _ :: rest => some (oldAllowhooks, rest)
  | _ :: rest => unwind rest

end Activation

inductive CoStatus where
  | initial
  | started
  | yielded
  | dead
deriving DecidableEq

structure LuaThread where
  hooks : HookState := {}
  activations : List Activation := []
  status : CoStatus := .dead
deriving DecidableEq

inductive SignalHandler where
  | onInt
  | default
deriving DecidableEq

inductive RunPhase where
  | running
  | ended
  | killed
deriving DecidableEq

/--
The threads of the interpreter.  `current` is executing, `resumers` wait for it,
the innermost first.  `interrupted` records the threads that `lstop` raised its
error in.
-/
structure Machine where
  threads : Nat -> LuaThread
  nextThread : Nat
  globalLState : Nat
  current : Nat
  resumers : List Nat
  sigint : SignalHandler
  phase : RunPhase
  interrupted : List Nat

namespace Machine

def thread (m : Machine) : LuaThread := m.threads m.current

def hook (m : Machine) (t : Nat) : Option Hook := (m.threads t).hooks.hook

def setThread (m : Machine) (t : Nat) (th : LuaThread) : Machine :=
  { m with threads := Function.update m.threads t th }

def setHooks (m : Machine) (t : Nat) (L : HookState) : Machine :=
  m.setThread t { m.threads t with hooks := L }

def setAllowhook (m : Machine) (allow : Bool) : Machine :=
  m.setHooks m.current { m.thread.hooks with allowhook := allow }

def setActivations (m : Machine) (activations : List Activation) : Machine :=
  m.setThread m.current { m.thread with activations := activations }

def push (m : Machine) (a : Activation) : Machine :=
  m.setActivations (a :: m.thread.activations)

def setStatus (m : Machine) (t : Nat) (status : CoStatus) : Machine :=
  m.setThread t { m.threads t with status := status }

/-!
# Calls, returns and errors
-/

/-- The thread gives way to the one that resumed it; the main thread ends the run. -/
def giveWay (m : Machine) : Machine :=
  match m.resumers with
  | [] => { m with phase := .ended, sigint := .default }
  | t :: rest => { m with current := t, resumers := rest }

def terminate (m : Machine) : Machine :=
  ((m.setActivations []).setStatus m.current .dead).giveWay

def continueWith (m : Machine) (activations : List Activation) : Machine :=
  match activations with
  | [] => m.terminate
  | _ => m.setActivations activations

def leave (m : Machine) : Machine := m.continueWith m.thread.activations.tail

def luaDThrow (m : Machine) : Machine :=
  match Activation.unwind m.thread.activations with
  | none => m.terminate
  | some (oldAllowhooks, rest) =>
      (m.setAllowhook oldAllowhooks).continueWith rest

/-- `luaG_errormsg`: the error function is called before the stack is unwound. -/
def luaGErrormsg (m : Machine) : Machine :=
  match Activation.errfuncOf m.thread.activations with
  | .function => m.push .errfunc
  | _ => m.luaDThrow

/-- `lstop` in a hook of the thread, up to its error. -/
def unhook (m : Machine) : Machine :=
  { m.setHooks m.current { m.thread.hooks.lstop with allowhook := false } with
    interrupted := m.current :: m.interrupted }

def lstop (m : Machine) : Machine := m.unhook.luaGErrormsg

/-- `luaD_callhook` for these events, after which the function may return. -/
def callhook (m : Machine) (events : List HookEvent) (returning : Bool) :
    Machine :=
  match luaDCallhook m.thread.hooks events with
  | .passed => if returning then m.leave else m
  | .stopped => m.lstop
  | .entered rest => (m.setAllowhook false).push (.hook rest returning)

/-!
# Signals
-/

def onInt (m : Machine) : Machine :=
  { m.setHooks m.globalLState (m.threads m.globalLState).hooks.onInt with
    sigint := .default }

def deliver (m : Machine) : Machine :=
  match m.sigint with
  | .onInt => m.onInt
  | .default => { m with phase := .killed }

/-- The thread that is executing runs a Lua function. -/
def ExecutesLua (m : Machine) : Prop :=
  m.thread.activations.head?.any Activation.isLua = true

instance (m : Machine) : Decidable m.ExecutesLua :=
  inferInstanceAs (Decidable (_ = true))

end Machine

/-!
# Steps
-/

inductive ThreadAction where
  | instruction (newline : Bool)
  | call (isC : Bool) (metamethod : Bool)
  | tailcall
  | ret
  | finish
  | pcall (errfunc : ErrFunc)
  | gctm
  | newthread
  | sethook (t : Nat) (smask : Option LuaString) (count : Int)
  | resume (co : Nat)
  | yield
  | error
  | throw
  | sigint
deriving DecidableEq

namespace Machine

/-- A function is called from the activation on top of the stack. -/
def luaDPrecall (m : Machine) (isC metamethod : Bool) (top : Activation) :
    Machine :=
  let viaC := metamethod || !top.isLua
  (m.push (if isC then .c viaC else .lua viaC 0)).callhook
    m.thread.hooks.precall false

def finish (m : Machine) (top : Activation) (below : List Activation) :
    Option Machine :=
  match top with
  | .pcall _ _ => some m.leave
  | .hook rest returning =>
      some (((m.setAllowhook true).setActivations below).callhook rest returning)
  | .gctm oldah => some ((m.setAllowhook oldah).setActivations below)
  | .errfunc => some m.luaDThrow
  | _ => none

def newthread (m : Machine) : Machine :=
  { m.setThread m.nextThread
      { hooks := m.thread.hooks.newthread, status := .initial } with
    nextThread := m.nextThread + 1 }

/-- `lua_resume` of a suspended thread: its body is called, or its yield returns. -/
def resume (m : Machine) (co : Nat) : Option Machine :=
  let resumed := { m.setStatus co .started with
    current := co, resumers := m.current :: m.resumers }
  match (m.threads co).status with
  | .initial =>
      some ((resumed.push (.lua false 0)).callhook
        (m.threads co).hooks.precall false)
  | .yielded =>
      some (resumed.callhook ((m.threads co).hooks.poscall 0) true)
  | _ => none

/-- `lua_yield`: an error across a metamethod or C-call boundary. -/
def yield (m : Machine) : Machine :=
  if m.thread.activations.any Activation.inCcall then m.luaGErrormsg
  else (m.setStatus m.current .yielded).giveWay

/-- What a C function of the libraries does. -/
def stepC (m : Machine) : ThreadAction -> Option Machine
  | .pcall errfunc => some (m.push (.pcall m.thread.hooks.allowhook errfunc))
  | .newthread => some m.newthread
  | .sethook t smask count =>
      if t < m.nextThread then
        some (m.setHooks t (dbSethook (m.threads t).hooks smask count))
      else none
  | .resume co => m.resume co
  | .yield => some m.yield
  | .ret => some (m.callhook (m.thread.hooks.poscall 0) true)
  | _ => none

def stepLua (m : Machine) (viaC : Bool) (tailcalls : Nat)
    (below : List Activation) : ThreadAction -> Option Machine
  | .instruction newline =>
      let (L, events) := m.thread.hooks.fetch newline
      some ((m.setHooks m.current L).callhook events false)
  | .tailcall =>
      some ((m.setActivations (.lua viaC (tailcalls + 1) :: below)).callhook
        m.thread.hooks.precall false)
  | .ret => some (m.callhook (m.thread.hooks.poscall tailcalls) true)
  | _ => none

/-- What the function on top of the stack does. -/
def stepFunction (m : Machine) (top : Activation) (below : List Activation)
    (action : ThreadAction) : Option Machine :=
  match top with
  | .lua viaC tailcalls => m.stepLua viaC tailcalls below action
  | .c _ => m.stepC action
  | _ => none

/-- What the thread can do whatever it executes. -/
def stepAny (m : Machine) (top : Activation) (below : List Activation) :
    ThreadAction -> Option Machine
  | .call isC metamethod => some (m.luaDPrecall isC metamethod top)
  | .gctm =>
      some ((m.setAllowhook false).push (.gctm m.thread.hooks.allowhook))
  | .finish => m.finish top below
  | .error => some m.luaGErrormsg
  | .throw => some m.luaDThrow
  | .sigint => some m.deliver
  | action => m.stepFunction top below action

def step (m : Machine) (action : ThreadAction) : Option Machine :=
  match m.phase, m.thread.activations with
  | .running, top :: below => m.stepAny top below action
  | _, _ => none

/-- `doluacall` has called the chunk in the main thread. -/
def doluacall : Machine where
  threads := Function.update (fun _ => {}) 0
    { activations := [.lua true 0, .pcall true .function], status := .started }
  nextThread := 1
  globalLState := 0
  current := 0
  resumers := []
  sigint := .onInt
  phase := .running
  interrupted := []

section Machine

variable {m : Machine} {t t' : Nat} {th : LuaThread}

@[simp] theorem threads_setThread_self :
    (m.setThread t th).threads t = th := by
  simp [setThread]

theorem threads_setThread_ne (hne : t' ≠ t) :
    (m.setThread t th).threads t' = m.threads t' := by
  simp [setThread, hne]

theorem thread_setThread : (m.setThread m.current th).thread = th :=
  threads_setThread_self

theorem thread_setHooks (L : HookState) :
    (m.setHooks m.current L).thread.hooks = L :=
  congrArg LuaThread.hooks threads_setThread_self

theorem deliver_onInt (hsigint : m.sigint = .onInt) : m.deliver = m.onInt := by
  unfold deliver
  rw [hsigint]

theorem deliver_default (hsigint : m.sigint = .default) :
    m.deliver = { m with phase := .killed } := by
  unfold deliver
  rw [hsigint]

theorem step_running {m' : Machine} {action : ThreadAction}
    (h : m.step action = some m') :
    m.phase = .running ∧ exists top below,
      m.thread.activations = top :: below ∧
        m.stepAny top below action = some m' := by
  unfold step at h
  split at h
  next hphase hstack => exact ⟨hphase, _, _, hstack, h⟩
  next => cases h

end Machine

end Machine

end LuaServer
