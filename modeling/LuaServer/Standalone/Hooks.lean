import LuaServer.Platform.Scalars

/-!
# Debug hooks

The hook of a Lua thread: how it is set, how a new thread gets one, and when the
interpreter loop and the calls consult it.
-/

namespace LuaServer

/-- The C functions that become hooks: `lstop` of `lua.c`, `hookf` of `ldblib.c`. -/
inductive Hook where
  | lstop
  | hookf
deriving DecidableEq

/-- `LUA_MASKCALL` and the other bits of `hookmask`. -/
structure HookMask where
  call : Bool := false
  ret : Bool := false
  line : Bool := false
  count : Bool := false
deriving DecidableEq

inductive HookEvent where
  | call
  | ret
  | line
  | count
  | tailret
deriving DecidableEq

/-- The part of a `lua_State` that concerns hooks. -/
structure HookState where
  hook : Option Hook := none
  hookmask : HookMask := {}
  basehookcount : Int := 0
  hookcount : Int := 0
  allowhook : Bool := true
deriving DecidableEq

namespace HookState

def resethookcount (L : HookState) : HookState :=
  { L with hookcount := L.basehookcount }

def sethook (L : HookState) (func : Option Hook) (mask : HookMask)
    (count : Int) : HookState :=
  if func = none ∨ mask = {} then
    { (resethookcount { L with hook := none, basehookcount := count }) with
      hookmask := {} }
  else
    { (resethookcount { L with hook := func, basehookcount := count }) with
      hookmask := mask }

def newthread (L : HookState) : HookState :=
  resethookcount
    { hook := L.hook
      hookmask := L.hookmask
      basehookcount := L.basehookcount }

def lstop (L : HookState) : HookState := L.sethook none {} 0

def onInt (L : HookState) : HookState :=
  L.sethook (some .lstop) { call := true, ret := true, count := true } 1

def traceline (L : HookState) (newline : Bool) : List HookEvent :=
  if L.hookmask.line && newline then [.line] else []

/-- `traceexec`: the events of an instruction.  `newline` tells that it starts a line. -/
def traceexec (L : HookState) (newline : Bool) : HookState × List HookEvent :=
  if L.hookmask.count && decide (L.hookcount = 0) then
    (L.resethookcount, .count :: L.traceline newline)
  else (L, L.traceline newline)

/-- `--L->hookcount`. -/
def countdown (L : HookState) : HookState :=
  { L with hookcount := L.hookcount - 1 }

/-- The test that `luaV_execute` makes before an instruction. -/
def fetch (L : HookState) (newline : Bool) : HookState × List HookEvent :=
  if L.hookmask.line || L.hookmask.count then
    if decide (L.countdown.hookcount = 0) || L.hookmask.line then
      L.countdown.traceexec newline
    else (L.countdown, [])
  else (L, [])

/-- The event of a call, in `luaD_precall`. -/
def precall (L : HookState) : List HookEvent :=
  if L.hookmask.call then [.call] else []

/-- The events of a return, in `luaD_poscall` and `callrethooks`. -/
def poscall (L : HookState) (tailcalls : Nat) : List HookEvent :=
  if L.hookmask.ret then .ret :: List.replicate tailcalls .tailret else []

/-- `callrethooks` looks at the mask again before every lost tail call. -/
def due (L : HookState) : HookEvent -> Bool
  | .tailret => L.hookmask.ret
  | _ => true

end HookState

/-- What the events of one point in the execution lead to. -/
inductive HookOutcome where
  | passed
  | stopped
  | entered (rest : List HookEvent)
deriving DecidableEq

/-- `luaD_callhook` for each of the events, up to the first one that runs a hook. -/
def luaDCallhook (L : HookState) : List HookEvent -> HookOutcome
  | [] => .passed
  | event :: rest =>
      if L.due event && L.allowhook then
        match L.hook with
        | none => luaDCallhook L rest
        | some .lstop => .stopped
        | some .hookf => .entered rest
      else luaDCallhook L rest

/-- `makemask` of `ldblib.c`. -/
def makemask (smask : LuaString) (count : Int) : HookMask where
  call := (cString smask).contains 99
  ret := (cString smask).contains 114
  line := (cString smask).contains 108
  count := decide (0 < count)

/-- `db_sethook`: no function turns the hook off, a function stands behind `hookf`. -/
def dbSethook (L : HookState) (smask : Option LuaString) (count : Int) :
    HookState :=
  match smask with
  | none => L.sethook none {} 0
  | some smask => L.sethook (some .hookf) (makemask smask count) count

section Hooks

variable {L : HookState}

@[simp] theorem lstop_hook : L.lstop.hook = none := rfl

@[simp] theorem onInt_hook : L.onInt.hook = some .lstop := rfl

@[simp] theorem onInt_allowhook : L.onInt.allowhook = L.allowhook := rfl

@[simp] theorem newthread_hook : L.newthread.hook = L.hook := rfl

@[simp] theorem resethookcount_hook : L.resethookcount.hook = L.hook := rfl

@[simp] theorem countdown_hook : L.countdown.hook = L.hook := rfl

theorem traceexec_hook (newline : Bool) :
    (L.traceexec newline).1.hook = L.hook := by
  unfold HookState.traceexec
  split <;> rfl

theorem fetch_hook (newline : Bool) : (L.fetch newline).1.hook = L.hook := by
  unfold HookState.fetch
  split
  · split
    · exact traceexec_hook newline
    · rfl
  · rfl

theorem fetch_allowhook (newline : Bool) :
    (L.fetch newline).1.allowhook = L.allowhook := by
  unfold HookState.fetch HookState.traceexec
  split
  · split
    · split <;> rfl
    · rfl
  · rfl

/-- The debug library never makes `lstop` a hook. -/
theorem dbSethook_hook_ne (smask : Option LuaString) (count : Int) :
    (dbSethook L smask count).hook ≠ some .lstop := by
  unfold dbSethook HookState.sethook
  split
  · simp
  · split <;> simp [HookState.resethookcount]

/-- Only `lstop` stops, and only where hooks are allowed. -/
theorem hook_of_stopped {events : List HookEvent}
    (h : luaDCallhook L events = .stopped) :
    L.hook = some .lstop ∧ L.allowhook = true := by
  induction events with
  | nil => cases h
  | cons event rest ih =>
      rw [luaDCallhook] at h
      split at h
      next hdue =>
        rw [Bool.and_eq_true] at hdue
        split at h
        next => exact ih h
        next hhook => exact ⟨hhook, hdue.2⟩
        next => cases h
      next => exact ih h

theorem callhook_disallowed (hallow : L.allowhook = false)
    (events : List HookEvent) : luaDCallhook L events = .passed := by
  induction events with
  | nil => rfl
  | cons event rest ih =>
      rw [luaDCallhook, hallow, Bool.and_false]
      exact ih

theorem callhook_lstop (hhook : L.hook = some .lstop)
    (hallow : L.allowhook = true) {event : HookEvent} {rest : List HookEvent}
    (hdue : L.due event = true) :
    luaDCallhook L (event :: rest) = .stopped := by
  rw [luaDCallhook, hdue, hallow, hhook]
  rfl

end Hooks

end LuaServer
