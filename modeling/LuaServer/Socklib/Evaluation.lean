import LuaServer.Library.Effects
import LuaServer.Socklib.Functions

/-!
# Evaluation of the helpers

The state and the result after each helper of the library functions, in closed
form.
-/

namespace LuaServer

open Library

/-!
# The layer
-/

section Layer

variable (c : Caller) (op : OsOp)

def World.osLogged (w : World) (c : Caller) (op : OsOp) (handle : Option Int)
    (opened : Option Nat) (ok : Bool) : World :=
  w.emit (osEvent c op handle opened ok w)

theorem emit_run (e : Event) (w : World) : emit e w = .ok () (w.emit e) := rfl

theorem osLog_run (handle : Option Int) (opened : Option Nat) (ok : Bool)
    (w : World) :
    osLog c op handle opened ok w = .ok () (w.osLogged c op handle opened ok) :=
  rfl

theorem osDeliver_none (plat : Platform) (arg : Option Int) (w : World) :
    osDeliver plat c op arg none w =
      .ok (invalidSocket plat) (w.osLogged c op arg none false) := rfl

theorem osDeliver_some (plat : Platform) (arg : Option Int) (h : Int)
    (w : World) :
    osDeliver plat c op arg (some h) w =
      .ok h ((w.osLogged c op arg (some w.nextHandle) true).openHandle h) := rfl

/-- The state after `bind` or `listen` of the operating system. -/
def World.afterStatus (w : World) (c : Caller) (op : OsOp) (h status : Int)
    (update : OsSocket -> OsSocket) : World :=
  match w.handles h with
  | none => w.osLogged c op (some h) none false
  | some s =>
      if status = noError then
        (w.osLogged c op (some h) none true).setHandle h (some (update s))
      else w.osLogged c op (some h) none false

def World.statusOf (w : World) (h status : Int) : Int :=
  match w.handles h with
  | none => socketError
  | some _ => status

theorem osStatus_run (h status : Int) (update : OsSocket -> OsSocket)
    (w : World) :
    osStatus c op h status update w =
      .ok (w.statusOf h status) (w.afterStatus c op h status update) := by
  unfold osStatus World.afterStatus World.statusOf
  simp only [run_bind, run_get]
  cases hh : w.handles h with
  | none => rfl
  | some s =>
      by_cases hst : status = noError
      · simp only [run_bind, osLog_run, hst, decide_true, if_true, run_modify,
          run_pure]
      · simp only [run_bind, osLog_run, hst, decide_false, if_false, run_pure]

end Layer

/-!
# The helpers of lsocklib.cpp
-/

section Helpers

variable {plat : Platform} {env : Env} {w : World}

def initError : LuaError :=
  .message "an error occured while initializing sockets"

def World.afterHeader (w : World) : World :=
  if w.socketsInitialized then w
  else { w.emit (.startup true) with socketsInitialized := true }

def headerSucceeds (plat : Platform) (env : Env) (w : World) : Bool :=
  w.socketsInitialized || startupSucceeds plat env

theorem socklibFuncHeader_ok (h : headerSucceeds plat env w = true) :
    socklibFuncHeader plat env w = .ok () w.afterHeader := by
  unfold headerSucceeds at h
  unfold socklibFuncHeader World.afterHeader
  cases hinit : w.socketsInitialized with
  | true =>
      simp only [run_bind, run_get, hinit, Bool.not_true, Bool.false_eq_true,
        if_false, if_true, run_pure]
  | false =>
      rw [hinit, Bool.false_or] at h
      simp only [run_bind, run_get, hinit, Bool.not_false, Bool.false_eq_true,
        if_true, if_false, socketInitializeSockets, report, emit_run, h,
        run_pure, run_modify]

theorem socklibFuncHeader_error (h : headerSucceeds plat env w = false) :
    socklibFuncHeader plat env w =
      .error (.raise initError) (w.emit (.startup false)) := by
  unfold headerSucceeds at h
  rw [Bool.or_eq_false_iff] at h
  unfold socklibFuncHeader
  rw [run_get_bind]
  simp only [h.1, h.2, Bool.not_false, if_true, socketInitializeSockets,
    report, run_bind, emit_run, run_pure, Bool.false_eq_true, if_false,
    run_throw, initError]

theorem checkSocketData_some {f : CFunction} {args : List Value} {p : Ptr}
    (h : w.lua.checkudata (args.headD .nil) socketDataName = some p) :
    checkSocketData f args w = .ok p (w.emit (.pass f p)) := by
  unfold checkSocketData
  rw [run_get_bind]
  simp only [h]
  rfl

theorem checkSocketData_none {f : CFunction} {args : List Value}
    (h : w.lua.checkudata (args.headD .nil) socketDataName = none) :
    checkSocketData f args w =
      .error (.raise (luaLTyperror 1 "socket" args.head?)) w := by
  unfold checkSocketData
  rw [run_get_bind]
  simp only [h]
  rfl

/-- What a read through the pointer finds. -/
def World.infoAt (w : World) (env : Env) (p : Ptr) : SocketInfo :=
  match w.recordAt p with
  | some r => r.info
  | none => env.stale

def World.afterRead (w : World) (p : Ptr) : World :=
  w.emit (.read p (w.serialAt p))

theorem readSocketInfo_run {p : Ptr} (hp : p ≠ .null) :
    readSocketInfo env p w = .ok (w.infoAt env p) (w.afterRead p) := by
  unfold readSocketInfo World.infoAt
  rw [run_get_bind]
  show (emit _ >>= _) w = _
  rw [run_bind, emit_run]
  cases p with
  | null => exact absurd rfl hp
  | sentinel => rfl
  | udata u => rfl
  | block a =>
      cases hrec : w.recordAt (.block a) with
      | none => rfl
      | some r => rfl

theorem readSocketInfo_null :
    readSocketInfo env .null w = .error .crash (w.afterRead .null) := rfl

def World.afterFree (w : World) (p : Ptr) : World :=
  (w.emit (.release p (w.serialAt p))).releaseAt p

def createOp : OsOp := .socket afInet sockStream 0

theorem socketCreateSocket_some {c : Caller} {h : Int}
    (hh : env.handle = some h) (hnonneg : 0 ≤ h) :
    socketCreateSocket plat c env 0 0 0 w =
      .ok h ((w.osLogged c createOp none (some w.nextHandle) true).openHandle
        h) := by
  unfold socketCreateSocket
  simp only [if_true, run_bind, hh, osDeliver_some]
  rw [if_neg (Int.not_lt.mpr hnonneg)]
  rfl

theorem socketCreateSocket_none {c : Caller} (hh : env.handle = none) :
    socketCreateSocket plat c env 0 0 0 w =
      .ok (invalidSocket plat) (w.osLogged c createOp none none false) := by
  unfold socketCreateSocket
  simp only [if_true, run_bind, hh, osDeliver_none]
  split <;> rfl

def World.acceptAnswer (w : World) (env : Env) (h : Int) : Option Int :=
  if (w.handles h).isSome then env.handle else none

theorem socketAccept_some {c : Caller} {hSocket h : Int}
    (hh : w.acceptAnswer env hSocket = some h) (hnonneg : 0 ≤ h) :
    socketAccept plat c env hSocket w =
      .ok h ((w.osLogged c .accept (some hSocket) (some w.nextHandle)
        true).openHandle h) := by
  unfold World.acceptAnswer at hh
  unfold socketAccept
  simp only [run_bind, run_get, hh, osDeliver_some]
  rw [if_neg (Int.not_lt.mpr hnonneg)]
  rfl

theorem socketAccept_none {c : Caller} {hSocket : Int}
    (hh : w.acceptAnswer env hSocket = none) :
    socketAccept plat c env hSocket w =
      .ok (invalidSocket plat)
        (w.osLogged c .accept (some hSocket) none false) := by
  unfold World.acceptAnswer at hh
  unfold socketAccept
  simp only [run_bind, run_get, hh, osDeliver_none]
  split <;> rfl

def createError : LuaError :=
  .message "an error occured while creating socket"

def initialFrame (f : CFunction) (i : Issue) : Frame :=
  { caller := f, issue := i, code := initSocketInstanceCode (.block i.addr),
    stack := [] }

theorem initSocketInstance_invalid {f : CFunction} {family type protocol : Int} :
    initSocketInstance plat env f (invalidSocket plat) family type protocol w =
      .error (.raise createError) w := by
  unfold initSocketInstance
  rw [if_pos rfl]
  rfl

theorem initSocketInstance_null {f : CFunction} {h family type protocol : Int}
    (hvalid : h ≠ invalidSocket plat) (hmalloc : env.malloc = none) :
    initSocketInstance plat env f h family type protocol w =
      .error .crash w := by
  unfold initSocketInstance
  rw [if_neg hvalid, hmalloc]
  rfl

def World.withRecord (w : World) (a : Nat) (info : SocketInfo) : World :=
  w.allocRecord (w.newIssue a info.hSocket) info

theorem initSocketInstance_some {f : CFunction} {h family type protocol : Int}
    {a : Nat} (hvalid : h ≠ invalidSocket plat) (hmalloc : env.malloc = some a) :
    initSocketInstance plat env f h family type protocol w =
      .ok (.building (initialFrame f (w.newIssue a h)))
        (w.withRecord a ⟨family, type, protocol, h⟩) := by
  unfold initSocketInstance
  rw [if_neg hvalid, hmalloc]
  rfl

end Helpers

/-!
# Transfers

What `recv` and `send` move, and the string that a received buffer holds.
-/

section Transfers

variable {plat : Platform} {env : Env} {w : World} {c : Caller}

/-- The bytes that `recv` delivers into the buffer, if it succeeds. -/
def World.recvData (w : World) (env : Env) (h size : Int) : Option LuaString :=
  match w.handles h, env.recv with
  | some _, some bytes =>
      if size < 0 ∨ (env.malloc = none ∧ bytes.take size.toNat ≠ []) then none
      else some (bytes.take size.toNat)
  | _, _ => none

def World.sendAccepts (w : World) (env : Env) (h size : Int) : Option Nat :=
  match w.handles h, env.sent with
  | some _, some k => if size < 0 then none else some (min k size.toNat)
  | _, _ => none

theorem toInt32_accepted {h n : Int} {k : Nat}
    (hk : w.sendAccepts env h (toInt32 n) = some k) : toInt32 k = k := by
  unfold World.sendAccepts at hk
  split at hk
  · split at hk
    · cases hk
    · cases hk
      apply toInt32_of_lt
      have hlt := toInt32_lt n
      omega
  · cases hk

/-- No more bytes are accepted than there are, whatever the length became. -/
theorem accepted_le_length {h : Int} {n k : Nat}
    (hk : w.sendAccepts env h (toInt32 n) = some k) : k ≤ n := by
  unfold World.sendAccepts at hk
  split at hk
  · split at hk
    · cases hk
    · rename_i hnonneg
      cases hk
      have hle := toInt32_le_of_nonneg (not_lt.mp hnonneg)
      omega
  · cases hk

theorem osRecv_none {h size : Int} {buf : Buffer}
    (hbuf : buf.addr = env.malloc) (hdata : w.recvData env h size = none) :
    osRecv c h buf size env.recv w =
      .ok (socketError, buf)
        (w.osLogged c (.recv size []) (some h) none false) := by
  unfold World.recvData at hdata
  unfold osRecv
  rw [run_get_bind]
  cases hhandle : w.handles h with
  | none =>
      rfl
  | some s =>
      cases hrecv : env.recv with
      | none =>
          rfl
      | some bytes =>
          rw [hhandle, hrecv, ← hbuf] at hdata
          simp only at hdata
          simp only
          split at hdata
          · rename_i hnull
            rw [if_pos hnull]
            rfl
          · cases hdata

theorem osRecv_some {h size : Int} {buf : Buffer} {data : LuaString}
    (hbuf : buf.addr = env.malloc) (hdata : w.recvData env h size = some data) :
    osRecv c h buf size env.recv w =
      .ok ((data.length : Int), buf.fill data)
        ((w.osLogged c (.recv size data) (some h) none true).emit
          (.store 0 data.length buf.size)) := by
  unfold World.recvData at hdata
  unfold osRecv
  rw [run_get_bind]
  cases hhandle : w.handles h with
  | none =>
      rw [hhandle] at hdata
      cases hdata
  | some s =>
      cases hrecv : env.recv with
      | none =>
          rw [hhandle, hrecv] at hdata
          cases hdata
      | some bytes =>
          rw [hhandle, hrecv, ← hbuf] at hdata
          simp only at hdata
          simp only
          split at hdata
          · cases hdata
          · rename_i hnull
            cases hdata
            rw [if_neg hnull]
            rfl

def sendResult : Option Nat -> Int
  | none => socketError
  | some k => k

theorem osSend_run {h size : Int} {data : LuaString} :
    osSend c h data size env.sent w =
      .ok (sendResult (w.sendAccepts env h size))
        (w.osLogged c (.send data size ((w.sendAccepts env h size).getD 0))
          (some h) none (w.sendAccepts env h size).isSome) := by
  unfold World.sendAccepts osSend
  rw [run_get_bind]
  cases hhandle : w.handles h with
  | none =>
      rfl
  | some s =>
      cases hsent : env.sent with
      | none =>
          rfl
      | some k =>
          simp only
          split
          · rfl
          · rfl

theorem fill_read_getElem {buf : Buffer} {data : LuaString} {i : Nat}
    (hi : i < data.length) : (buf.fill data).bytes i = data[i] := by
  simp [Buffer.fill, List.getD, hi]

/-- The terminator stands behind the received bytes and does not touch them. -/
theorem received_read (buf : Buffer) (data : LuaString) :
    ((buf.fill data).put data.length 0).read data.length = data := by
  apply List.ext_getElem
  · simp [Buffer.read]
  · intro i hi hlt
    have hne : i ≠ data.length := Nat.ne_of_lt hlt
    simp only [Buffer.read, List.getElem_map, List.getElem_range, Buffer.put,
      hne, if_false]
    exact fill_read_getElem hlt

end Transfers

end LuaServer
