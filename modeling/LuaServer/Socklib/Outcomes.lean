import LuaServer.Socklib.Evaluation

/-!
# Outcomes of the library functions

What each C function can do, stated once: every way it can end, with the state it
leaves.  The proofs about whole runs go by cases on these outcomes and never
unfold a function again.
-/

namespace LuaServer

open Library

def CFunction.takesSocket : CFunction -> Bool
  | .create => false
  | .onCollectSocket => false
  | _ => true

/-!
# The stages of a call
-/

namespace World

/-- The pointer that `check_socket_data` lets through. -/
def passes (w : World) (args : List Value) : Option Ptr :=
  w.lua.checkudata (args.headD .nil) socketDataName

def checked (w : World) (entry : Entry) (p : Ptr) : World :=
  match entry with
  | .call f => w.afterHeader.emit (.pass f p)
  | .resume _ => w

def reading (w : World) (entry : Entry) (p : Ptr) : World :=
  (w.checked entry p).afterRead p

/-- The state when `socket` or `accept` has delivered a handle. -/
def delivered (w : World) (c : Caller) (op : OsOp) (arg : Option Int)
    (h : Int) : World :=
  (w.osLogged c op arg (some w.nextHandle) true).openHandle h

/-- The state when the handle is closed and the record is freed. -/
def closing (w : World) (c : Caller) (h : Int) : World :=
  ((w.osLogged c .close (some h) none (w.handles h).isSome).setHandle h
    none).afterFree c.via

def withBlock (w : World) (env : Env) : World :=
  match env.malloc with
  | none => w
  | some a => { w with blocks := a :: w.blocks }

def withoutBlock (w : World) : Option Nat -> World
  | none => w
  | some a => { w with blocks := w.blocks.erase a }

end World

section Arguments

variable (env : Env) (args : List Value)

/-- The checks of `socklib_bind` on its second and third argument. -/
def bindArguments : Except LuaError (InAddr × LuaNumber) :=
  match luaLChecklstring args 2 with
  | .error e => .error e
  | .ok ipStr =>
      match socketTranslateIP (cString ipStr) with
      | none => .error (.argument 2 "invalid ip format")
      | some outIp =>
          match luaLChecknumber env args 3 with
          | .error e => .error e
          | .ok port =>
              if port.gtInt maxPort then
                .error (.argument 3
                  ("port may be in range 1..." ++ toString maxPort))
              else .ok (outIp, port)

def failure {α : Type} : Except LuaError α -> Option LuaError
  | .ok _ => none
  | .error e => some e

/-- The error of the checks that follow the one on the socket and the conversion. -/
def argumentError : CFunction -> Option LuaError
  | .bind => failure (bindArguments env args)
  | .recv => failure (luaLOptint env args 2 2048)
  | .send => failure (luaLChecklstring args 2)
  | _ => none

end Arguments

/-- The socket that a suspended call has checked and not read yet. -/
def PausePoint.iSocket? : PausePoint -> Option Ptr
  | .bind iSocket => some iSocket
  | .send iSocket => some iSocket
  | .recv _ _ => none

section Reading

variable (plat : Platform) (env : Env) (args : List Value) (w : World)

/-- The socket that has passed the check when the other arguments are checked. -/
def World.checks : Entry -> Option Ptr
  | .call f =>
      if f.takesSocket && headerSucceeds plat env w then w.passes args else none
  | .resume point => point.iSocket?

/-- The pointer through which a function reads a record, if it gets there. -/
def World.derefs : Entry -> Option Ptr
  | .call .onCollectSocket => some (args.headD .nil).toUserdata
  | entry =>
      if (argumentError env args entry.f).isNone then
        w.checks plat env args entry
      else none

end Reading

def bindOp (info : SocketInfo) (ip : InAddr) (port : UInt16) : OsOp :=
  .bind
    { sinFamily := if info.family = 0 then afInet else info.family,
      sinAddr := ip, sinPort := htons port }

def bindError (env : Env) : LuaError :=
  .message ("an error occured while binding socket. error info: " ++
    toString (socketGetErrorInfo env))

def recvError (env : Env) : LuaError :=
  .message ("an error occured while receiving info. error info: " ++
    toString (socketGetErrorInfo env))

def setBound (s : OsSocket) : OsSocket := { s with bound := true }

def setListening (s : OsSocket) : OsSocket := { s with listening := true }

def bufferSize (env : Env) (size : Int) : Nat :=
  match env.malloc with
  | none => 0
  | some _ => toSizeT size

/-- The state when `recv` has put the bytes and the terminator in the buffer. -/
def World.received (w : World) (c : Caller) (env : Env) (h size : Int)
    (data : LuaString) : World :=
  ((w.osLogged c (.recv size data) (some h) none true).emit
    (.store 0 data.length (bufferSize env size))).emit
    (.store data.length 1 (bufferSize env size))

/-!
# Outcomes

`Act` is what remains of a function on a socket when the record has been read;
`v` is the state at that point and `h` the handle found in the record.
-/

inductive Act (plat : Platform) (env : Env) (args : List Value) (p : Ptr)
    (v : World) (info : SocketInfo) :
    CFunction -> EStateM.Result Exit World Reply -> Prop where
  | bindNoMemory :
      env.malloc = none -> Act plat env args p v info .bind (.error .crash v)
  | bindFailed {ip : InAddr} {port : LuaNumber} :
      bindArguments env args = .ok (ip, port) -> env.malloc.isSome ->
      v.statusOf info.hSocket env.status ≠ noError ->
      Act plat env args p v info .bind
        (.error (.raise (bindError env))
          ((v.withBlock env).afterStatus ⟨.bind, p⟩
            (bindOp info ip (port.toUint16 env.castUint16)) info.hSocket
            env.status setBound))
  | bound {ip : InAddr} {port : LuaNumber} :
      bindArguments env args = .ok (ip, port) -> env.malloc.isSome ->
      v.statusOf info.hSocket env.status = noError ->
      Act plat env args p v info .bind
        (.ok (.values [])
          ((v.withBlock env).afterStatus ⟨.bind, p⟩
            (bindOp info ip (port.toUint16 env.castUint16)) info.hSocket
            env.status setBound))
  | listened :
      Act plat env args p v info .listen
        (.ok (.values [])
          (v.afterStatus ⟨.listen, p⟩ (.listen (soMaxConn plat)) info.hSocket
            env.status setListening))
  | acceptFailed :
      v.acceptAnswer env info.hSocket = none ->
      Act plat env args p v info .accept
        (.error (.raise createError)
          ((v.osLogged ⟨.accept, p⟩ .accept (some info.hSocket) none
            false).afterRead p))
  | acceptNoMemory {h : Int} :
      v.acceptAnswer env info.hSocket = some h -> env.malloc = none ->
      Act plat env args p v info .accept
        (.error .crash
          ((v.delivered ⟨.accept, p⟩ .accept (some info.hSocket) h).afterRead
            p))
  | accepted {h : Int} {a : Nat} {u : World} :
      v.acceptAnswer env info.hSocket = some h -> env.malloc = some a ->
      u = (v.delivered ⟨.accept, p⟩ .accept (some info.hSocket) h).afterRead p ->
      Act plat env args p v info .accept
        (.ok (.building (initialFrame .accept (u.newIssue a h)))
          (u.withRecord a ⟨info.family, info.type, info.protocol, h⟩))
  | recvFailed {size : Int} :
      luaLOptint env args 2 2048 = .ok size ->
      v.recvData env info.hSocket size = none ->
      Act plat env args p v info .recv
        (.error (.raise (recvError env))
          ((v.withBlock env).osLogged ⟨.recv, p⟩ (.recv size [])
            (some info.hSocket) none false))
  | recvNoMemory {size : Int} {data : LuaString} :
      luaLOptint env args 2 2048 = .ok size ->
      v.recvData env info.hSocket size = some data -> env.malloc = none ->
      Act plat env args p v info .recv
        (.error .crash (v.received ⟨.recv, p⟩ env info.hSocket size data))
  | received {size : Int} {data : LuaString} :
      luaLOptint env args 2 2048 = .ok size ->
      v.recvData env info.hSocket size = some data -> env.malloc.isSome ->
      Act plat env args p v info .recv
        (.ok (.paused args (.recv env.malloc data))
          ((v.withBlock env).received ⟨.recv, p⟩ env info.hSocket size data))
  | sent {data : LuaString} {accepts : Option Nat} :
      luaLChecklstring args 2 = .ok data ->
      accepts = v.sendAccepts env info.hSocket (toInt32 data.length) ->
      Act plat env args p v info .send
        (.ok (.values [.number (.ofInt (toInt32 (sendResult accepts)))])
          (v.osLogged ⟨.send, p⟩
            (.send data (toInt32 data.length) (accepts.getD 0))
            (some info.hSocket) none accepts.isSome))
  | closed :
      Act plat env args p v info .close
        (.ok (.values []) (v.closing ⟨.close, p⟩ info.hSocket))

inductive Outcome (plat : Platform) (env : Env) (args : List Value)
    (w : World) : Entry -> EStateM.Result Exit World Reply -> Prop where
  | initFailed {f : CFunction} :
      f ≠ .onCollectSocket -> headerSucceeds plat env w = false ->
      Outcome plat env args w (.call f)
        (.error (.raise initError) (w.emit (.startup false)))
  | rejected {f : CFunction} :
      f.takesSocket = true -> headerSucceeds plat env w = true ->
      w.passes args = none ->
      Outcome plat env args w (.call f)
        (.error (.raise (luaLTyperror 1 "socket" args.head?)) w.afterHeader)
  | converting {f : CFunction} {p : Ptr} {args' : List Value}
      {point : PausePoint} :
      f.takesSocket = true -> headerSucceeds plat env w = true ->
      w.passes args = some p -> luaVTostring env args 2 = some args' ->
      point.f = f -> point.iSocket? = some p ->
      Outcome plat env args w (.call f)
        (.ok (.paused args' point) (w.checked (.call f) p))
  | invalid {entry : Entry} {p : Ptr} {e : LuaError} :
      entry.f.takesSocket = true -> w.checks plat env args entry = some p ->
      argumentError env args entry.f = some e ->
      Outcome plat env args w entry (.error (.raise e) (w.checked entry p))
  | acted {entry : Entry} {p : Ptr} {r : EStateM.Result Exit World Reply} :
      entry.f.takesSocket = true -> w.derefs plat env args entry = some p ->
      p ≠ .null ->
      Act plat env args p (w.reading entry p) (w.infoAt env p) entry.f r ->
      Outcome plat env args w entry r
  | resumedNull {point : PausePoint} :
      w.derefs plat env args (.resume point) = some .null ->
      Outcome plat env args w (.resume point)
        (.error .crash (w.afterRead .null))
  | freed {buff : Option Nat} {s : LuaString} :
      Outcome plat env args w (.resume (.recv buff s))
        (.ok (.values [.string s]) (w.withoutBlock buff))
  | createFailed :
      headerSucceeds plat env w = true -> env.handle = none ->
      Outcome plat env args w (.call .create)
        (.error (.raise createError)
          (w.afterHeader.osLogged ⟨.create, .null⟩ createOp none none false))
  | createNoMemory {h : Int} :
      headerSucceeds plat env w = true -> env.handle = some h ->
      env.malloc = none ->
      Outcome plat env args w (.call .create)
        (.error .crash
          (w.afterHeader.delivered ⟨.create, .null⟩ createOp none h))
  | created {h : Int} {a : Nat} {u : World} :
      headerSucceeds plat env w = true -> env.handle = some h ->
      env.malloc = some a ->
      u = w.afterHeader.delivered ⟨.create, .null⟩ createOp none h ->
      Outcome plat env args w (.call .create)
        (.ok (.building (initialFrame .create (u.newIssue a h)))
          (u.withRecord a ⟨0, 0, 0, h⟩))
  | collectNull :
      (args.headD .nil).toUserdata = .null ->
      Outcome plat env args w (.call .onCollectSocket)
        (.error .crash (w.afterRead .null))
  | collected {p : Ptr} :
      (args.headD .nil).toUserdata = p -> p ≠ .null ->
      Outcome plat env args w (.call .onCollectSocket)
        (.ok (.values [])
          ((w.afterRead p).closing ⟨.onCollectSocket, p⟩
            (w.infoAt env p).hSocket))

/-!
# Every call has an outcome
-/

section Calls

variable {plat : Platform} {env : Env} {args : List Value} {w : World}

theorem afterHeader_lua : w.afterHeader.lua = w.lua := by
  unfold World.afterHeader
  split
  · rfl
  · rfl

theorem afterHeader_records : w.afterHeader.records = w.records := by
  unfold World.afterHeader
  split
  · rfl
  · rfl

theorem afterHeader_handles : w.afterHeader.handles = w.handles := by
  unfold World.afterHeader
  split
  · rfl
  · rfl

theorem closing_handles {c : Caller} {h x : Int} :
    (w.closing c h).handles x = if x = h then none else w.handles x := by
  unfold World.closing World.afterFree
  cases c.via with
  | null | sentinel | udata | block => rfl

theorem closing_records {c : Caller} {h : Int} {a : Nat} :
    (w.closing c h).records a = w.records a ∨
      (w.closing c h).records a = none := by
  unfold World.closing World.afterFree
  cases c.via with
  | null | sentinel | udata => exact Or.inl rfl
  | block b =>
      by_cases hb : a = b
      · exact Or.inr (if_pos hb)
      · exact Or.inl (if_neg hb)

theorem handles_of_closing {c : Caller} {h x : Int} {s : OsSocket}
    (hs : (w.closing c h).handles x = some s) :
    x ≠ h ∧ w.handles x = some s := by
  rw [closing_handles] at hs
  by_cases hx : x = h
  · rw [if_pos hx] at hs
    cases hs
  · rw [if_neg hx] at hs
    exact ⟨hx, hs⟩

theorem infoAt_of_records {v : World} (h : v.records = w.records) (p : Ptr) :
    v.infoAt env p = w.infoAt env p := by
  unfold World.infoAt World.recordAt
  rw [h]

theorem infoAt_of_record {p : Ptr} {rec : SocketRecord}
    (hrec : w.recordAt p = some rec) : w.infoAt env p = rec.info := by
  unfold World.infoAt
  rw [hrec]

/-- A component of the state that neither the header nor the check changes. -/
theorem checked_keeps {α : Type} (pick : World -> α) {entry : Entry} {p : Ptr}
    (hemit : forall v e, pick (World.emit v e) = pick v)
    (hheader : pick w.afterHeader = pick w) :
    pick (w.checked entry p) = pick w := by
  cases entry with
  | call f => exact (hemit _ _).trans hheader
  | resume point => rfl

theorem checked_records (entry : Entry) (p : Ptr) :
    (w.checked entry p).records = w.records :=
  checked_keeps World.records (fun _ _ => rfl) afterHeader_records

theorem checked_handles (entry : Entry) (p : Ptr) :
    (w.checked entry p).handles = w.handles :=
  checked_keeps World.handles (fun _ _ => rfl) afterHeader_handles

theorem infoAt_checked (entry : Entry) (p q : Ptr) :
    (w.checked entry p).infoAt env q = w.infoAt env q :=
  infoAt_of_records (checked_records entry p) q

theorem checks_call {f : CFunction} {p : Ptr} :
    w.checks plat env args (.call f) = some p <->
      f.takesSocket = true ∧ headerSucceeds plat env w = true ∧
        w.passes args = some p := by
  simp [World.checks, and_assoc]

theorem derefs_of_checks {entry : Entry} {p : Ptr}
    (hchecks : w.checks plat env args entry = some p)
    (hargs : argumentError env args entry.f = none) :
    w.derefs plat env args entry = some p := by
  cases entry with
  | resume point => simp only [World.derefs, hargs, Option.isNone_none, if_true, hchecks]
  | call f =>
      cases f with
      | onCollectSocket => cases (checks_call.mp hchecks).1
      | create | bind | listen | accept | recv | send | close =>
          simp only [World.derefs, hargs, Option.isNone_none, if_true, hchecks]

theorem checks_of_derefs {entry : Entry} {p : Ptr}
    (hf : entry.f.takesSocket = true)
    (h : w.derefs plat env args entry = some p) :
    w.checks plat env args entry = some p ∧
      argumentError env args entry.f = none := by
  unfold World.derefs at h
  split at h
  · cases hf
  · split at h
    · rename_i hargs
      exact ⟨h, Option.isNone_iff_eq_none.mp hargs⟩
    · cases h

theorem ne_null_of_passes {p : Ptr} (h : w.passes args = some p) :
    p ≠ .null :=
  (LuaState.checkudata_eq_some_iff.mp h).2.1

/-- The header and the check of the socket, in front of the rest of a function. -/
theorem socketFunction_outcome {f : CFunction} {body : Ptr -> CFunc Reply}
    (hf : f.takesSocket = true)
    (hbody : forall p, headerSucceeds plat env w = true ->
      w.passes args = some p ->
      Outcome plat env args w (.call f) (body p (w.checked (.call f) p))) :
    Outcome plat env args w (.call f)
      ((do
        socklibFuncHeader plat env
        let iSocket ← checkSocketData f args
        body iSocket) w) := by
  cases hinit : headerSucceeds plat env w with
  | false =>
      rw [run_bind_error (socklibFuncHeader_error hinit)]
      apply Outcome.initFailed _ hinit
      rintro rfl
      cases hf
  | true =>
      rw [run_bind_ok (socklibFuncHeader_ok hinit)]
      cases hpass : w.passes args with
      | none =>
          rw [run_bind_error (checkSocketData_none (by
            rw [afterHeader_lua]
            exact hpass))]
          exact Outcome.rejected hf hinit hpass
      | some p =>
          rw [run_bind_ok (checkSocketData_some (by
            rw [afterHeader_lua]
            exact hpass))]
          exact hbody p hinit hpass

theorem reading_outcome {f : CFunction} {p : Ptr} {rest : SocketInfo -> CFunc Reply}
    (hf : f.takesSocket = true) (hinit : headerSucceeds plat env w = true)
    (hpass : w.passes args = some p) (hargs : argumentError env args f = none)
    (hrest : Act plat env args p (w.reading (.call f) p) (w.infoAt env p) f
      (rest (w.infoAt env p) (w.reading (.call f) p))) :
    Outcome plat env args w (.call f)
      ((readSocketInfo env p >>= rest) (w.checked (.call f) p)) := by
  have hne := ne_null_of_passes hpass
  have hderefs : w.derefs plat env args (.call f) = some p :=
    derefs_of_checks (checks_call.mpr ⟨hf, hinit, hpass⟩) hargs
  rw [run_bind_ok (readSocketInfo_run hne), infoAt_checked]
  exact Outcome.acted hf hderefs hne hrest

/-!
# bind
-/

theorem statusOf_of_handles {v : World} (hhandles : v.handles = w.handles)
    (h status : Int) : v.statusOf h status = w.statusOf h status := by
  unfold World.statusOf
  rw [hhandles]

theorem statusOf_reading (entry : Entry) (p : Ptr) (h status : Int) :
    (w.reading entry p).statusOf h status = w.statusOf h status :=
  statusOf_of_handles (checked_handles entry p) h status

theorem statusOf_withBlock (h status : Int) :
    (w.withBlock env).statusOf h status = w.statusOf h status := by
  unfold World.withBlock
  split
  · rfl
  · rfl

theorem socketBindSocketR_none {c : Caller} {h family : Int} {ip : InAddr}
    {port : UInt16} (hmalloc : env.malloc = none) :
    socketBindSocketR c env h ip port family w = .error .crash w := by
  unfold socketBindSocketR
  rw [hmalloc]
  rfl

theorem socketBindSocketR_some {c : Caller} {info : SocketInfo} {ip : InAddr}
    {port : UInt16} (hmalloc : env.malloc.isSome = true) :
    socketBindSocketR c env info.hSocket ip (htons port) info.family w =
      .ok (decide (w.statusOf info.hSocket env.status = noError))
        ((w.withBlock env).afterStatus c (bindOp info ip port) info.hSocket
          env.status setBound) := by
  rcases Option.isSome_iff_exists.mp hmalloc with ⟨a, ha⟩
  rw [← @statusOf_withBlock env]
  unfold socketBindSocketR World.withBlock
  rw [ha]
  simp only [run_bind, run_modify, osStatus_run, run_pure]
  rfl

theorem bind_act {p : Ptr} {v : World} {info : SocketInfo} {ip : InAddr}
    {port : LuaNumber} (hargs : bindArguments env args = .ok (ip, port)) :
    Act plat env args p v info .bind
      ((do
        let success ← socketBindSocketR ⟨.bind, p⟩ env info.hSocket ip
          (htons (port.toUint16 env.castUint16)) info.family
        if success then
          return Reply.values []
        else
          luaLError ("an error occured while binding socket. error info: " ++
            toString (socketGetErrorInfo env))) v) := by
  cases hmalloc : env.malloc with
  | none =>
      rw [run_bind_error (socketBindSocketR_none hmalloc)]
      exact Act.bindNoMemory hmalloc
  | some a =>
      have hsome : env.malloc.isSome = true := by rw [hmalloc]; rfl
      rw [run_bind_ok (socketBindSocketR_some hsome)]
      by_cases hst : v.statusOf info.hSocket env.status = noError
      · rw [if_pos (decide_eq_true hst)]
        exact Act.bound hargs hsome hst
      · rw [if_neg (by simp [hst])]
        exact Act.bindFailed hargs hsome hst

theorem argumentError_of_converts {f : CFunction} {p : Ptr}
    {args' : List Value} {point : PausePoint}
    (hconvert : luaVTostring env args 2 = some args') (hpoint : point.f = f)
    (hsocket : point.iSocket? = some p) :
    argumentError env args f =
      some (luaLTyperror 2 "string" args[1]?) := by
  have hcheck : luaLChecklstring args 2 =
      .error (luaLTyperror 2 "string" args[1]?) := by
    unfold luaVTostring at hconvert
    split at hconvert
    · rename_i n hn
      unfold luaLChecklstring
      rw [hn]
    · cases hconvert
  rw [← hpoint]
  cases point with
  | bind => simp [PausePoint.f, argumentError, bindArguments, failure, hcheck]
  | send => simp [PausePoint.f, argumentError, failure, hcheck]
  | recv => cases hsocket

theorem readSocketInfo_outcome {entry : Entry} {p : Ptr}
    {rest : SocketInfo -> CFunc Reply} (hf : entry.f.takesSocket = true)
    (hchecks : w.checks plat env args entry = some p)
    (hargs : argumentError env args entry.f = none)
    (hrest : Act plat env args p (w.reading entry p) (w.infoAt env p) entry.f
      (rest (w.infoAt env p) (w.reading entry p))) :
    Outcome plat env args w entry
      ((readSocketInfo env p >>= rest) (w.checked entry p)) := by
  have hderefs := derefs_of_checks hchecks hargs
  by_cases hp : p = .null
  · subst hp
    rw [run_bind_error readSocketInfo_null]
    cases entry with
    | call f => exact absurd rfl (ne_null_of_passes (checks_call.mp hchecks).2.2)
    | resume point => exact Outcome.resumedNull hderefs
  · rw [run_bind_ok (readSocketInfo_run hp), infoAt_checked]
    exact Outcome.acted hf hderefs hp hrest

theorem bindRest_outcome {entry : Entry} {p : Ptr} (hf : entry.f = .bind)
    (hchecks : w.checks plat env args entry = some p) :
    Outcome plat env args w entry
      (bindRest env args p (w.checked entry p)) := by
  have hsocket : entry.f.takesSocket = true := by rw [hf]; rfl
  have herror : argumentError env args entry.f =
      failure (bindArguments env args) := by rw [hf]; rfl
  unfold bindRest
  cases hip : luaLChecklstring args 2 with
  | error e =>
      apply Outcome.invalid hsocket hchecks
      simp [herror, bindArguments, failure, hip]
  | ok ipStr =>
      simp only [raising, pure_bind]
      cases haddr : socketTranslateIP (cString ipStr) with
      | none =>
          apply Outcome.invalid hsocket hchecks
          simp [herror, bindArguments, failure, hip, haddr]
      | some outIp =>
          cases hport : luaLChecknumber env args 3 with
          | error e =>
              apply Outcome.invalid hsocket hchecks
              simp [herror, bindArguments, failure, hip, haddr, hport]
          | ok port =>
              simp only [pure_bind]
              cases hmax : port.gtInt maxPort with
              | true =>
                  apply Outcome.invalid hsocket hchecks
                  simp [herror, bindArguments, failure, hip, haddr, hport, hmax]
              | false =>
                  have hargs : bindArguments env args = .ok (outIp, port) := by
                    simp [bindArguments, hip, haddr, hport, hmax]
                  apply readSocketInfo_outcome hsocket hchecks
                  · simp [herror, failure, hargs]
                  · rw [hf]
                    exact bind_act hargs

theorem converting_outcome {f : CFunction} {p : Ptr} {point : PausePoint}
    {rest : CFunc Reply} (hf : f.takesSocket = true)
    (hinit : headerSucceeds plat env w = true) (hpass : w.passes args = some p)
    (hpoint : point.f = f) (hsocket : point.iSocket? = some p)
    (hrest : Outcome plat env args w (.call f)
      (rest (w.checked (.call f) p))) :
    Outcome plat env args w (.call f)
      (luaTolstring env args 2 point rest (w.checked (.call f) p)) := by
  unfold luaTolstring
  cases hconvert : luaVTostring env args 2 with
  | some args' =>
      exact Outcome.converting hf hinit hpass hconvert hpoint hsocket
  | none => exact hrest

theorem socklibBind_outcome :
    Outcome plat env args w (.call .bind) (socklibBind plat env args w) := by
  apply socketFunction_outcome rfl
  intro p hinit hpass
  apply @converting_outcome plat env args w .bind p (.bind p) _ rfl hinit hpass rfl rfl
  exact bindRest_outcome rfl (checks_call.mpr ⟨rfl, hinit, hpass⟩)

/-!
# listen and accept
-/

theorem socklibListen_outcome :
    Outcome plat env args w (.call .listen) (socklibListen plat env args w) := by
  apply socketFunction_outcome rfl
  intro p hinit hpass
  apply reading_outcome rfl hinit hpass rfl
  simp only [socketListen, run_bind, osStatus_run, run_pure, if_true]
  exact Act.listened

theorem accept_act {p : Ptr} {v : World} {info : SocketInfo}
    (hadm : env.admissible plat v = true) (hne : p ≠ .null)
    (hinfo : info = v.infoAt env p) :
    Act plat env args p v info .accept
      ((do
        let connSocket ← socketAccept plat ⟨.accept, p⟩ env info.hSocket
        let info ← readSocketInfo env p
        initSocketInstance plat env .accept connSocket
          info.family info.type info.protocol) v) := by
  cases hanswer : v.acceptAnswer env info.hSocket with
  | none =>
      rw [run_bind_ok (socketAccept_none hanswer),
        run_bind_ok (readSocketInfo_run hne), initSocketInstance_invalid]
      exact Act.acceptFailed hanswer
  | some h =>
      have hhandle : env.handle = some h := by
        unfold World.acceptAnswer at hanswer
        split at hanswer
        · exact hanswer
        · cases hanswer
      rcases Env.handle_fresh hadm hhandle with ⟨hnonneg, hvalid, _⟩
      have hsame :
          (v.delivered ⟨.accept, p⟩ .accept (some info.hSocket) h).infoAt env
            p = info := by
        rw [hinfo]
        exact infoAt_of_records rfl p
      rw [run_bind_ok (socketAccept_some hanswer hnonneg),
        run_bind_ok (readSocketInfo_run hne)]
      change Act plat env args p v info .accept
        (initSocketInstance plat env .accept h
          ((v.delivered ⟨.accept, p⟩ .accept (some info.hSocket) h).infoAt env
            p).family
          ((v.delivered ⟨.accept, p⟩ .accept (some info.hSocket) h).infoAt env
            p).type
          ((v.delivered ⟨.accept, p⟩ .accept (some info.hSocket) h).infoAt env
            p).protocol
          ((v.delivered ⟨.accept, p⟩ .accept (some info.hSocket) h).afterRead
            p))
      rw [hsame]
      cases hmalloc : env.malloc with
      | none =>
          rw [initSocketInstance_null hvalid hmalloc]
          exact Act.acceptNoMemory hanswer hmalloc
      | some a =>
          rw [initSocketInstance_some hvalid hmalloc]
          exact Act.accepted hanswer hmalloc rfl

theorem admissible_of_resources {v : World} (hrecords : v.records = w.records)
    (hhandles : v.handles = w.handles) (hblocks : v.blocks = w.blocks) :
    env.admissible plat v = env.admissible plat w := by
  unfold Env.admissible
  rw [hrecords, hhandles, hblocks]

theorem afterHeader_blocks : w.afterHeader.blocks = w.blocks := by
  unfold World.afterHeader
  split
  · rfl
  · rfl

theorem admissible_reading (entry : Entry) (p : Ptr) :
    env.admissible plat (w.reading entry p) = env.admissible plat w :=
  admissible_of_resources (checked_records entry p) (checked_handles entry p)
    (checked_keeps World.blocks (fun _ _ => rfl) afterHeader_blocks)

theorem infoAt_reading (entry : Entry) (p q : Ptr) :
    (w.reading entry p).infoAt env q = w.infoAt env q :=
  infoAt_checked entry p q

theorem socklibAccept_outcome (hadm : env.admissible plat w = true) :
    Outcome plat env args w (.call .accept) (socklibAccept plat env args w) := by
  apply socketFunction_outcome rfl
  intro p hinit hpass
  apply reading_outcome rfl hinit hpass rfl
  apply accept_act _ (ne_null_of_passes hpass)
  · rw [infoAt_reading]
  · rw [admissible_reading]
    exact hadm

/-!
# recv and send
-/

def newBuffer (env : Env) (size : Int) : Buffer :=
  { addr := env.malloc, size := bufferSize env size, bytes := env.garbage }

theorem createBuffer_run {size : Int} :
    createBuffer env size w = .ok (newBuffer env size) (w.withBlock env) := by
  unfold createBuffer newBuffer bufferSize World.withBlock
  cases env.malloc with
  | none => rfl
  | some a => rfl

theorem recvData_withBlock (h size : Int) :
    (w.withBlock env).recvData env h size = w.recvData env h size := by
  unfold World.withBlock
  cases env.malloc with
  | none => rfl
  | some a => rfl

theorem recvData_reading {entry : Entry} {p : Ptr} {h size : Int} :
    (w.reading entry p).recvData env h size = w.recvData env h size := by
  have hhandles : (w.reading entry p).handles = w.handles :=
    checked_handles entry p
  unfold World.recvData
  rw [hhandles]

theorem terminate_null {buf : Buffer} {pos : Nat} (h : buf.addr = none) :
    terminate buf pos w = .error .crash (w.emit (.store pos 1 buf.size)) := by
  unfold terminate
  rw [h]
  rfl

theorem terminate_run {buf : Buffer} {pos : Nat} (h : buf.addr.isSome = true) :
    terminate buf pos w =
      .ok (buf.put pos 0) (w.emit (.store pos 1 buf.size)) := by
  rcases Option.isSome_iff_exists.mp h with ⟨a, ha⟩
  unfold terminate
  rw [ha]
  rfl

theorem freeBuffer_run {addr : Option Nat} :
    freeBuffer addr w = .ok () (w.withoutBlock addr) := by
  cases addr with
  | none => rfl
  | some a => rfl

theorem received_act {p : Ptr} {v : World} {info : SocketInfo} {size : Int}
    {data : LuaString} (hargs : luaLOptint env args 2 2048 = .ok size)
    (hdata : v.recvData env info.hSocket size = some data) :
    Act plat env args p v info .recv
      ((do
        let buff ← terminate ((newBuffer env size).fill data) data.length
        luaPushlstring args buff data.length)
        (((v.withBlock env).osLogged ⟨.recv, p⟩ (.recv size data)
          (some info.hSocket) none true).emit
          (.store 0 data.length (bufferSize env size)))) := by
  cases hmalloc : env.malloc with
  | none =>
      rw [run_bind_error (terminate_null hmalloc)]
      have hblock : v.withBlock env = v := by
        unfold World.withBlock
        rw [hmalloc]
      rw [hblock]
      exact Act.recvNoMemory hargs hdata hmalloc
  | some a =>
      have hsome : env.malloc.isSome = true := by rw [hmalloc]; rfl
      rw [run_bind_ok (terminate_run hsome), luaPushlstring, received_read]
      exact Act.received hargs hdata hsome

theorem recv_act {p : Ptr} {v : World} {info : SocketInfo} {size : Int}
    (hargs : luaLOptint env args 2 2048 = .ok size) :
    Act plat env args p v info .recv
      ((do
        let (brecv, buff) ← socketRecv ⟨.recv, p⟩ env info.hSocket
          (newBuffer env size) size
        if brecv = -1 then
          luaLError ("an error occured while receiving info. error info: " ++
            toString (socketGetErrorInfo env))
        else
          let buff ← terminate buff brecv.toNat
          luaPushlstring args buff brecv.toNat) (v.withBlock env)) := by
  unfold socketRecv
  have hbuf : (newBuffer env size).addr = env.malloc := rfl
  cases hdata : v.recvData env info.hSocket size with
  | none =>
      rw [← @recvData_withBlock env] at hdata
      rw [run_bind_ok (osRecv_none hbuf hdata)]
      rw [recvData_withBlock] at hdata
      exact Act.recvFailed hargs hdata
  | some data =>
      have hact := @received_act plat env args p v info size data hargs hdata
      rw [← @recvData_withBlock env] at hdata
      rw [run_bind_ok (osRecv_some hbuf hdata)]
      have hlen : ¬((data.length : Int) = -1) := by omega
      simp only [hlen, if_false, Int.toNat_natCast]
      exact hact

theorem socklibRecv_outcome :
    Outcome plat env args w (.call .recv) (socklibRecv plat env args w) := by
  apply socketFunction_outcome rfl
  intro p hinit hpass
  have hne := ne_null_of_passes hpass
  cases hsize : luaLOptint env args 2 2048 with
  | error e =>
      apply Outcome.invalid rfl (checks_call.mpr ⟨rfl, hinit, hpass⟩)
      simp [Entry.f, argumentError, failure, hsize]
  | ok size =>
      simp only [raising, pure_bind]
      rw [run_bind_ok createBuffer_run, run_bind_ok (readSocketInfo_run hne)]
      have hinfo : ((w.checked (.call .recv) p).withBlock env).infoAt env p =
          w.infoAt env p := by
        rw [← @infoAt_checked env w (.call .recv)]
        unfold World.withBlock
        cases env.malloc with
        | none => rfl
        | some a => rfl
      have hread : ((w.checked (.call .recv) p).withBlock env).afterRead p =
          (w.reading (.call .recv) p).withBlock env := by
        unfold World.withBlock
        cases env.malloc with
        | none => rfl
        | some a => rfl
      rw [hinfo, hread]
      have hargs : argumentError env args .recv = none := by
        simp [argumentError, failure, hsize]
      exact Outcome.acted rfl
        (derefs_of_checks (checks_call.mpr ⟨rfl, hinit, hpass⟩) hargs) hne
        (recv_act hsize)

theorem sendRest_outcome {entry : Entry} {p : Ptr} (hf : entry.f = .send)
    (hchecks : w.checks plat env args entry = some p) :
    Outcome plat env args w entry
      (sendRest env args p (w.checked entry p)) := by
  have hsocket : entry.f.takesSocket = true := by rw [hf]; rfl
  have herror : argumentError env args entry.f =
      failure (luaLChecklstring args 2) := by rw [hf]; rfl
  unfold sendRest
  cases hdata : luaLChecklstring args 2 with
  | error e =>
      apply Outcome.invalid hsocket hchecks
      simp [herror, failure, hdata]
  | ok data =>
      simp only [raising, pure_bind]
      apply readSocketInfo_outcome hsocket hchecks
      · simp [herror, failure, hdata]
      · rw [hf]
        simp only [socketSend, run_bind, osSend_run]
        exact Act.sent hdata rfl

theorem socklibSend_outcome :
    Outcome plat env args w (.call .send) (socklibSend plat env args w) := by
  apply socketFunction_outcome rfl
  intro p hinit hpass
  apply @converting_outcome plat env args w .send p (.send p) _ rfl hinit hpass rfl rfl
  exact sendRest_outcome rfl (checks_call.mpr ⟨rfl, hinit, hpass⟩)

/-!
# create, close and the finalizer
-/

theorem socklibCreate_outcome (hadm : env.admissible plat w = true) :
    Outcome plat env args w (.call .create) (socklibCreate plat env w) := by
  unfold socklibCreate
  cases hinit : headerSucceeds plat env w with
  | false =>
      rw [run_bind_error (socklibFuncHeader_error hinit)]
      apply Outcome.initFailed _ hinit
      intro h
      cases h
  | true =>
      rw [run_bind_ok (socklibFuncHeader_ok hinit)]
      cases hhandle : env.handle with
      | none =>
          rw [run_bind_ok (socketCreateSocket_none hhandle),
            initSocketInstance_invalid]
          exact Outcome.createFailed hinit hhandle
      | some h =>
          rcases Env.handle_fresh hadm hhandle with ⟨hnonneg, hvalid, _⟩
          rw [run_bind_ok (socketCreateSocket_some hhandle hnonneg)]
          cases hmalloc : env.malloc with
          | none =>
              rw [initSocketInstance_null hvalid hmalloc]
              exact Outcome.createNoMemory hinit hhandle hmalloc
          | some a =>
              rw [initSocketInstance_some hvalid hmalloc]
              exact Outcome.created hinit hhandle hmalloc rfl

theorem socklibClose_outcome :
    Outcome plat env args w (.call .close) (socklibClose plat env args w) := by
  apply socketFunction_outcome rfl
  intro p hinit hpass
  apply reading_outcome rfl hinit hpass rfl
  exact Act.closed

theorem socklibOnCollectSocket_outcome :
    Outcome plat env args w (.call .onCollectSocket)
      (socklibOnCollectSocket env args w) := by
  unfold socklibOnCollectSocket
  by_cases hp : (args.headD .nil).toUserdata = .null
  · simp only [hp]
    rw [run_bind_error readSocketInfo_null]
    exact Outcome.collectNull hp
  · rw [run_bind_ok (readSocketInfo_run hp)]
    exact Outcome.collected rfl hp

theorem callFunction_outcome (hadm : env.admissible plat w = true)
    (f : CFunction) :
    Outcome plat env args w (.call f) (callFunction plat env args f w) := by
  cases f with
  | create => exact socklibCreate_outcome hadm
  | bind => exact socklibBind_outcome
  | listen => exact socklibListen_outcome
  | accept => exact socklibAccept_outcome hadm
  | recv => exact socklibRecv_outcome
  | send => exact socklibSend_outcome
  | close => exact socklibClose_outcome
  | onCollectSocket => exact socklibOnCollectSocket_outcome

theorem recvRest_run (buff : Option Nat) (s : LuaString) :
    recvRest buff s w = .ok (.values [.string s]) (w.withoutBlock buff) :=
  run_bind_ok freeBuffer_run

theorem resumeFunction_outcome (point : PausePoint) :
    Outcome plat env args w (.resume point)
      (resumeFunction env args point w) := by
  cases point with
  | bind iSocket =>
      exact @bindRest_outcome plat env args w (.resume (.bind iSocket)) iSocket
        rfl rfl
  | send iSocket =>
      exact @sendRest_outcome plat env args w (.resume (.send iSocket)) iSocket
        rfl rfl
  | recv buff s =>
      change Outcome plat env args w _ (recvRest buff s w)
      rw [recvRest_run]
      exact Outcome.freed

theorem enter_outcome (hadm : env.admissible plat w = true) (entry : Entry) :
    Outcome plat env args w entry (enter plat env args entry w) := by
  cases entry with
  | call f => exact callFunction_outcome hadm f
  | resume point => exact resumeFunction_outcome point

end Calls

/-!
# What no call touches
-/

/-- The function is called through its header. -/
def Entry.hasHeader : Entry -> Bool
  | .call .onCollectSocket => false
  | .call _ => true
  | .resume _ => false

/-- The state in which a function starts its work. -/
def World.entered (w : World) (entry : Entry) : World :=
  if entry.hasHeader then w.afterHeader else w

/-- The Lua state, the course of the program and the flag are as before. -/
structure Undisturbed (w v : World) : Prop where
  lua : v.lua = w.lua
  frames : v.frames = w.frames
  paused : v.paused = w.paused
  phase : v.phase = w.phase
  socketsInitialized : v.socketsInitialized = w.socketsInitialized

namespace Undisturbed

variable {plat : Platform} {env : Env} {args : List Value} {u w v : World}
variable {c : Caller}

theorem refl (w : World) : Undisturbed w w := ⟨rfl, rfl, rfl, rfl, rfl⟩

theorem trans (huw : Undisturbed u w) (hwv : Undisturbed w v) :
    Undisturbed u v :=
  ⟨hwv.lua.trans huw.lua, hwv.frames.trans huw.frames,
    hwv.paused.trans huw.paused, hwv.phase.trans huw.phase,
    hwv.socketsInitialized.trans huw.socketsInitialized⟩

theorem withBlock : Undisturbed w (w.withBlock env) := by
  unfold World.withBlock
  split
  · exact refl w
  · exact ⟨rfl, rfl, rfl, rfl, rfl⟩

theorem withoutBlock {addr : Option Nat} :
    Undisturbed w (w.withoutBlock addr) := by
  cases addr with
  | none => exact refl w
  | some a => exact ⟨rfl, rfl, rfl, rfl, rfl⟩

theorem afterStatus {op : OsOp} {h status : Int}
    {update : OsSocket -> OsSocket} :
    Undisturbed w (w.afterStatus c op h status update) := by
  unfold World.afterStatus
  split
  · exact ⟨rfl, rfl, rfl, rfl, rfl⟩
  · split
    · exact ⟨rfl, rfl, rfl, rfl, rfl⟩
    · exact ⟨rfl, rfl, rfl, rfl, rfl⟩

theorem closing {h : Int} : Undisturbed w (w.closing c h) := by
  unfold World.closing World.afterFree
  cases c.via with
  | null | sentinel | udata => exact ⟨rfl, rfl, rfl, rfl, rfl⟩
  | block a => exact ⟨rfl, rfl, rfl, rfl, rfl⟩

theorem act {p : Ptr} {info : SocketInfo} {f : CFunction}
    {r : EStateM.Result Exit World Reply}
    (h : Act plat env args p w info f r) : Undisturbed w (finalState r) := by
  cases h with
  | bindNoMemory => exact refl w
  | bindFailed | bound => exact withBlock.trans afterStatus
  | listened => exact afterStatus
  | acceptFailed | acceptNoMemory => exact ⟨rfl, rfl, rfl, rfl, rfl⟩
  | accepted _ _ hu =>
      rw [hu]
      exact ⟨rfl, rfl, rfl, rfl, rfl⟩
  | recvFailed | received => exact withBlock.trans ⟨rfl, rfl, rfl, rfl, rfl⟩
  | recvNoMemory => exact ⟨rfl, rfl, rfl, rfl, rfl⟩
  | sent => exact ⟨rfl, rfl, rfl, rfl, rfl⟩
  | closed => exact closing

theorem afterRead {p : Ptr} : Undisturbed w (w.afterRead p) :=
  ⟨rfl, rfl, rfl, rfl, rfl⟩

end Undisturbed

section Entered

variable {plat : Platform} {env : Env} {args : List Value} {w : World}
variable {entry : Entry} {r : EStateM.Result Exit World Reply}

theorem hasHeader_of_takesSocket {f : CFunction} (hf : f.takesSocket = true) :
    Entry.hasHeader (.call f) = true := by
  cases f with
  | create | onCollectSocket => cases hf
  | bind | listen | accept | recv | send | close => rfl

theorem hasHeader_of_ne {f : CFunction} (hf : f ≠ .onCollectSocket) :
    Entry.hasHeader (.call f) = true := by
  cases f with
  | onCollectSocket => exact absurd rfl hf
  | create | bind | listen | accept | recv | send | close => rfl

theorem point_takesSocket (point : PausePoint) :
    (Entry.resume point).f.takesSocket = true := by
  cases point with
  | bind | send | recv => rfl

theorem takesSocket_of_ne (hcreate : entry ≠ .call .create)
    (hcollect : entry.f ≠ .onCollectSocket) : entry.f.takesSocket = true := by
  cases entry with
  | call f =>
      cases f with
      | create => exact absurd rfl hcreate
      | onCollectSocket => exact absurd rfl hcollect
      | bind | listen | accept | recv | send | close => rfl
  | resume point => exact point_takesSocket point

theorem entered_of_takesSocket {f : CFunction} (hf : f.takesSocket = true) :
    w.entered (.call f) = w.afterHeader :=
  if_pos (hasHeader_of_takesSocket hf)

theorem undisturbed_checked {p : Ptr} (hf : entry.f.takesSocket = true) :
    Undisturbed (w.entered entry) (w.checked entry p) := by
  cases entry with
  | call f =>
      rw [@entered_of_takesSocket w f hf]
      exact ⟨rfl, rfl, rfl, rfl, rfl⟩
  | resume point => exact Undisturbed.refl w

/-- After the header a call touches neither the Lua state nor the flag. -/
theorem outcome_undisturbed (h : Outcome plat env args w entry r) :
    (entry.hasHeader = true ∧ headerSucceeds plat env w = false ∧
      r = .error (.raise initError) (w.emit (.startup false))) ∨
    Undisturbed (w.entered entry) (finalState r) := by
  cases h with
  | initFailed hf hinit => exact Or.inl ⟨hasHeader_of_ne hf, hinit, rfl⟩
  | rejected hf =>
      rw [entered_of_takesSocket hf]
      exact Or.inr (Undisturbed.refl _)
  | converting hf =>
      rw [entered_of_takesSocket hf]
      exact Or.inr ⟨rfl, rfl, rfl, rfl, rfl⟩
  | invalid hf => exact Or.inr (undisturbed_checked hf)
  | acted hf _ _ hact =>
      exact Or.inr ((undisturbed_checked hf).trans
        (Undisturbed.afterRead.trans (Undisturbed.act hact)))
  | resumedNull => exact Or.inr Undisturbed.afterRead
  | freed => exact Or.inr Undisturbed.withoutBlock
  | createFailed | createNoMemory => exact Or.inr ⟨rfl, rfl, rfl, rfl, rfl⟩
  | created _ _ _ hu =>
      rw [hu]
      exact Or.inr ⟨rfl, rfl, rfl, rfl, rfl⟩
  | collectNull => exact Or.inr ⟨rfl, rfl, rfl, rfl, rfl⟩
  | collected => exact Or.inr (Undisturbed.afterRead.trans Undisturbed.closing)

theorem afterHeader_frames : w.afterHeader.frames = w.frames := by
  unfold World.afterHeader
  split
  · rfl
  · rfl

theorem afterHeader_phase : w.afterHeader.phase = w.phase := by
  unfold World.afterHeader
  split
  · rfl
  · rfl

theorem afterHeader_paused : w.afterHeader.paused = w.paused := by
  unfold World.afterHeader
  split
  · rfl
  · rfl

theorem outcome_keeps {α : Type} (pick : World -> α)
    (hsame : forall {u v : World}, Undisturbed u v -> pick v = pick u)
    (hemit : pick (w.emit (.startup false)) = pick w)
    (hheader : pick w.afterHeader = pick w)
    (h : Outcome plat env args w entry r) : pick (finalState r) = pick w := by
  rcases outcome_undisturbed h with ⟨_, _, hr⟩ | hundisturbed
  · rw [hr]
    exact hemit
  · rw [hsame hundisturbed]
    unfold World.entered
    split
    · exact hheader
    · rfl

theorem outcome_lua (h : Outcome plat env args w entry r) :
    (finalState r).lua = w.lua :=
  outcome_keeps World.lua (fun hsame => hsame.lua) rfl afterHeader_lua h

theorem outcome_frames (h : Outcome plat env args w entry r) :
    (finalState r).frames = w.frames :=
  outcome_keeps World.frames (fun hsame => hsame.frames) rfl afterHeader_frames h

theorem outcome_paused (h : Outcome plat env args w entry r) :
    (finalState r).paused = w.paused :=
  outcome_keeps World.paused (fun hsame => hsame.paused) rfl afterHeader_paused h

theorem outcome_phase (h : Outcome plat env args w entry r) :
    (finalState r).phase = w.phase :=
  outcome_keeps World.phase (fun hsame => hsame.phase) rfl afterHeader_phase h

end Entered

end LuaServer
