import LuaServer.Interpreter.Step
import LuaServer.Socklib.Events

/-!
# The argument contract of bind

`socket.bind` is to call the operating system for the addresses and ports that
exist, and to raise an argument error for everything else.  The port passes a
comparison with `MAX_PORT` and the conversions to `uint16_t` and to network
order; the address passes as a C string.
-/

namespace LuaServer

open Library

/-- The text is the address and the number the port. -/
structure ValidBind (ip : LuaString) (port : LuaNumber) (addr : InAddr)
    (n : Nat) : Prop where
  address : DottedQuad ip addr
  port : port = .ofInt n
  low : 1 ≤ n
  high : n ≤ 65535

/-- A socket that the check lets through and whose record is live. -/
structure LiveSocket (w : World) (s : Value) (a : Nat)
    (rec : SocketRecord) : Prop where
  started : w.socketsInitialized = true
  passes : w.lua.checkudata s socketDataName = some (.block a)
  record : w.records a = some rec

/--
What a call of `bind` that ends in `r` has done, for the address and the port it
was given.  `socket_BindSocket` is called in the same state for comparison.
-/
structure BindContract (env : Env) (w : World) (a : Nat) (rec : SocketRecord)
    (ip : LuaString) (port : LuaNumber)
    (r : EStateM.Result Exit World Reply) : Prop where
  binds : forall addr n, ValidBind ip port addr n ->
    exists call sockAddr,
      osCalls w (finalState r) = [call] ∧ call.op = .bind sockAddr ∧
      call.handle = some rec.info.hSocket ∧ sockAddr.sinAddr = addr ∧
      memoryBytes sockAddr.sinPort = [n / 256, n % 256] ∧
      osCalls w (finalState r) =
        osCalls w (finalState (socketBindSocket ⟨.bind, .block a⟩ env
          rec.info.hSocket ip (UInt16.ofNat n) rec.info.family w))
  rejects : (¬exists addr n, ValidBind ip port addr n) ->
    (exists narg text v, r = .error (.raise (.argument narg text)) v) ∧
      osCalls w (finalState r) = []

/-- The arguments that `socklib_bind` gets right. -/
def GoodBindArguments (env : Env) (ip : LuaString) (port : LuaNumber) : Prop :=
  inetPton (cString ip) = none ∨ port.gtInt maxPort = true ∨
    (exists addr n, ValidBind ip port addr n) ∧ env.malloc.isSome = true

/-!
# Operations in the log
-/

section Calls

variable {w : World}

theorem osCalls_checked {f : CFunction} {p : Ptr}
    (h : w.socketsInitialized = true) :
    osCalls w (w.checked (.call f) p) = [] := by
  have hlog : (w.checked (.call f) p).log = w.log ++ [.pass f p] := by
    unfold World.checked World.afterHeader
    rw [if_pos h]
    rfl
  rw [osCalls_of_log hlog]
  rfl

theorem reading_log {f : CFunction} {p : Ptr}
    (h : w.socketsInitialized = true) :
    (w.reading (.call f) p).log =
      w.log ++ [.pass f p, .read p ((w.checked (.call f) p).serialAt p)] := by
  unfold World.reading World.afterRead World.checked World.afterHeader
  rw [if_pos h]
  simp [World.emit]

theorem osCalls_reading {f : CFunction} {p : Ptr}
    (h : w.socketsInitialized = true) :
    osCalls w (w.reading (.call f) p) = [] := by
  rw [osCalls_of_log (reading_log h)]
  rfl

end Calls

/-!
# The cases of a call
-/

section Cases

variable {plat : Platform} {env : Env} {w : World} {s : Value} {a : Nat}
variable {rec : SocketRecord} {ip : LuaString} {port : LuaNumber}
variable {rest : List Value} {r : EStateM.Result Exit World Reply}

theorem cString_of_dottedQuad {addr : InAddr} (h : DottedQuad ip addr) :
    cString ip = ip :=
  cString_eq_self (zero_notMem_of_inetPton (inetPton_of_dottedQuad h))

theorem gtInt_ofInt (n m : Int) :
    (LuaNumber.ofInt n).gtInt m = decide (m < n) :=
  decide_eq_decide.mpr Rat.intCast_lt_intCast

theorem bindArguments_of_bad_ip (h : inetPton (cString ip) = none) :
    bindArguments env (s :: .string ip :: .number port :: rest) =
      .error (.argument 2 "invalid ip format") := by
  simp [bindArguments, luaLChecklstring, socketTranslateIP, h]

theorem bindArguments_of_large_port {addr : InAddr}
    (hip : inetPton (cString ip) = some addr)
    (hport : port.gtInt maxPort = true) :
    bindArguments env (s :: .string ip :: .number port :: rest) =
      .error (.argument 3
        ("port may be in range 1..." ++ toString maxPort)) := by
  simp [bindArguments, luaLChecklstring, luaLChecknumber, socketTranslateIP,
    hip, hport]

theorem bindArguments_of_accepted {addr : InAddr}
    (hip : inetPton (cString ip) = some addr)
    (hport : port.gtInt maxPort = false) :
    bindArguments env (s :: .string ip :: .number port :: rest) =
      .ok (addr, port) := by
  simp [bindArguments, luaLChecklstring, luaLChecknumber, socketTranslateIP,
    hip, hport]

theorem bind_act_of_live {args : List Value} (h : LiveSocket w s a rec)
    (hargs : argumentError env (s :: args) .bind = none)
    (houtcome : Outcome plat env (s :: args) w (.call .bind) r) :
    Act plat env (s :: args) (.block a)
      (w.reading (.call .bind) (.block a)) rec.info .bind r := by
  have hpasses : w.passes (s :: args) = some (.block a) := h.passes
  have hinfo : w.infoAt env (.block a) = rec.info := by
    simp only [World.infoAt, World.recordAt, h.record]
  have hchecks : w.checks plat env (s :: args) (.call .bind) =
      some (.block a) :=
    checks_call.mpr ⟨rfl, by simp [headerSucceeds, h.started], hpasses⟩
  have hact := acted_of_derefs rfl (derefs_of_checks hchecks hargs)
    (by simp) houtcome
  rw [hinfo] at hact
  exact hact

theorem bind_refused {args : List Value} {e : LuaError}
    (h : LiveSocket w s a rec)
    (hstring : luaVTostring env (s :: args) 2 = none)
    (hargs : bindArguments env (s :: args) = .error e)
    (houtcome : Outcome plat env (s :: args) w (.call .bind) r) :
    r = .error (.raise e) (w.checked (.call .bind) (.block a)) := by
  have hpasses : w.passes (s :: args) = some (.block a) := h.passes
  have herror : argumentError env (s :: args) .bind = some e := by
    simp [argumentError, hargs, failure]
  cases houtcome with
  | initFailed _ hinit => simp [headerSucceeds, h.started] at hinit
  | rejected _ _ hpass =>
      rw [hpasses] at hpass
      cases hpass
  | converting _ _ _ hconvert =>
      rw [hstring] at hconvert
      cases hconvert
  | invalid _ hchecks herror' =>
      have hpass := (checks_call.mp hchecks).2.2
      rw [hpasses] at hpass
      cases hpass
      cases herror.symm.trans herror'
      rfl
  | acted hsocket hderefs =>
      cases herror.symm.trans (checks_of_derefs hsocket hderefs).2

theorem bind_noMemory {args : List Value} {addr : InAddr}
    (h : LiveSocket w s a rec)
    (hargs : bindArguments env (s :: args) = .ok (addr, port))
    (hmalloc : env.malloc = none)
    (houtcome : Outcome plat env (s :: args) w (.call .bind) r) :
    r = .error .crash (w.reading (.call .bind) (.block a)) := by
  have hnone : argumentError env (s :: args) .bind = none := by
    simp [argumentError, hargs, failure]
  cases bind_act_of_live h hnone houtcome with
  | bindNoMemory => rfl
  | bindFailed _ hsome | bound _ hsome =>
      rw [hmalloc] at hsome
      cases hsome

def bindCall (env : Env) (w : World) (a : Nat) (info : SocketInfo)
    (addr : InAddr) (port : UInt16) : OsCall where
  caller := .bind
  via := .block a
  op := bindOp info addr port
  handle := some info.hSocket
  inst := w.instAt info.hSocket
  ok := decide (w.statusOf info.hSocket env.status = noError)

theorem osCalls_bind {u : World} {es : List Event} {info : SocketInfo}
    {addr : InAddr} {n : UInt16} (hlog : u.log = w.log ++ es)
    (hes : es.filterMap Event.osCall? = []) (hhandles : u.handles = w.handles) :
    osCalls w ((u.withBlock env).afterStatus ⟨.bind, .block a⟩
      (bindOp info addr n) info.hSocket env.status setBound) =
        [bindCall env w a info addr n] := by
  have hstatus : (u.withBlock env).statusOf info.hSocket env.status =
      w.statusOf info.hSocket env.status := by
    rw [statusOf_withBlock, statusOf_of_handles hhandles]
  have hinst : (u.withBlock env).instAt = w.instAt := by
    unfold World.withBlock World.instAt
    split <;> simp [hhandles]
  have hwhole := @afterStatus_log (u.withBlock env) ⟨.bind, .block a⟩
    (bindOp info addr n) info.hSocket env.status setBound
  rw [withBlock_log, hlog, List.append_assoc] at hwhole
  rw [osCalls_of_log hwhole, List.filterMap_append, hes, hstatus]
  unfold osEvent
  rw [hinst]
  rfl

theorem bind_performed {args : List Value} {addr : InAddr}
    (h : LiveSocket w s a rec)
    (hargs : bindArguments env (s :: args) = .ok (addr, port))
    (hmalloc : env.malloc.isSome = true)
    (houtcome : Outcome plat env (s :: args) w (.call .bind) r) :
    osCalls w (finalState r) =
      [bindCall env w a rec.info addr (port.toUint16 env.castUint16)] := by
  have hnone : argumentError env (s :: args) .bind = none := by
    simp [argumentError, hargs, failure]
  have hhandles : (w.reading (.call .bind) (.block a)).handles = w.handles :=
    checked_handles _ _
  cases bind_act_of_live h hnone houtcome with
  | bindNoMemory hmalloc' =>
      rw [hmalloc'] at hmalloc
      cases hmalloc
  | bindFailed hargs' | bound hargs' =>
      rw [hargs] at hargs'
      cases hargs'
      exact osCalls_bind (reading_log h.started) rfl hhandles

theorem osCalls_socketBindSocket {addr : InAddr} {n : UInt16}
    (hip : inetPton ip = some addr) (hmalloc : env.malloc.isSome = true) :
    osCalls w (finalState (socketBindSocket ⟨.bind, .block a⟩ env
      rec.info.hSocket ip n rec.info.family w)) =
        [bindCall env w a rec.info addr n] := by
  unfold socketBindSocket socketTranslateIP
  simp only [hip, socketBindSocketR_some hmalloc]
  exact osCalls_bind (List.append_nil _).symm rfl rfl

end Cases

/-!
# The contract
-/

section Contract

variable {plat : Platform} {env : Env} {w : World} {s : Value} {a : Nat}
variable {rec : SocketRecord} {ip : LuaString} {port : LuaNumber}
variable {rest : List Value} {r : EStateM.Result Exit World Reply}

theorem ValidBind.gtInt {addr : InAddr} {n : Nat}
    (h : ValidBind ip port addr n) : port.gtInt maxPort = false := by
  have hhigh := h.high
  rw [h.port, gtInt_ofInt, decide_eq_false_iff_not]
  unfold maxPort
  omega

theorem ValidBind.network_order {addr : InAddr} {n : Nat} {undef : UInt16}
    (h : ValidBind ip port addr n) :
    port.toUint16 undef = UInt16.ofNat n ∧
      memoryBytes (htons (port.toUint16 undef)) = [n / 256, n % 256] := by
  have hhigh := h.high
  have hport : port.toUint16 undef = UInt16.ofNat n := by
    rw [h.port, LuaNumber.toUint16_ofInt undef (Int.natCast_nonneg n) (by omega)]
    rfl
  refine ⟨hport, ?_⟩
  rw [hport, memoryBytes_htons, UInt16.toNat_ofNat_of_lt']
  show n < 65536
  omega

theorem bind_valid {addr : InAddr} {n : Nat} (h : LiveSocket w s a rec)
    (hvalid : ValidBind ip port addr n) (hmalloc : env.malloc.isSome = true)
    (houtcome : Outcome plat env (s :: .string ip :: .number port :: rest) w
      (.call .bind) r) :
    exists call sockAddr,
      osCalls w (finalState r) = [call] ∧ call.op = .bind sockAddr ∧
      call.handle = some rec.info.hSocket ∧ sockAddr.sinAddr = addr ∧
      memoryBytes sockAddr.sinPort = [n / 256, n % 256] ∧
      osCalls w (finalState r) =
        osCalls w (finalState (socketBindSocket ⟨.bind, .block a⟩ env
          rec.info.hSocket ip (UInt16.ofNat n) rec.info.family w)) := by
  have hip := inetPton_of_dottedQuad hvalid.address
  have haccepted : inetPton (cString ip) = some addr := by
    rw [cString_of_dottedQuad hvalid.address]
    exact hip
  have hargs := @bindArguments_of_accepted env s ip port rest addr haccepted
    hvalid.gtInt
  have hcalls := bind_performed h hargs hmalloc houtcome
  rcases @ValidBind.network_order ip port addr n env.castUint16 hvalid with
    ⟨hport, hbytes⟩
  refine ⟨_, _, hcalls, rfl, rfl, rfl, hbytes, ?_⟩
  rw [hcalls, hport, osCalls_socketBindSocket hip hmalloc]

theorem bindContract_of_refused {e : LuaError} {narg : Nat} {text : String}
    (h : LiveSocket w s a rec) (he : e = .argument narg text)
    (hinvalid : ¬exists addr n, ValidBind ip port addr n)
    (hargs : bindArguments env (s :: .string ip :: .number port :: rest) =
      .error e)
    (houtcome : Outcome plat env (s :: .string ip :: .number port :: rest) w
      (.call .bind) r) : BindContract env w a rec ip port r where
  binds := fun addr n hvalid => absurd ⟨addr, n, hvalid⟩ hinvalid
  rejects := by
    intro _
    rw [bind_refused h rfl hargs houtcome, he]
    exact ⟨⟨narg, text, _, rfl⟩, osCalls_checked h.started⟩

theorem bindContract_of_good (h : LiveSocket w s a rec)
    (hgood : GoodBindArguments env ip port)
    (houtcome : Outcome plat env (s :: .string ip :: .number port :: rest) w
      (.call .bind) r) : BindContract env w a rec ip port r := by
  cases hip : inetPton (cString ip) with
  | none =>
      apply bindContract_of_refused h rfl _ (bindArguments_of_bad_ip hip)
        houtcome
      rintro ⟨addr, n, hvalid⟩
      rw [cString_of_dottedQuad hvalid.address,
        inetPton_of_dottedQuad hvalid.address] at hip
      cases hip
  | some addr =>
      cases hport : port.gtInt maxPort with
      | true =>
          apply bindContract_of_refused h rfl _
            (bindArguments_of_large_port hip hport) houtcome
          rintro ⟨_, n, hvalid⟩
          rw [hvalid.gtInt] at hport
          cases hport
      | false =>
          rcases hgood with hbad | hlarge | ⟨hvalid, hmalloc⟩
          · rw [hip] at hbad
            cases hbad
          · rw [hport] at hlarge
            cases hlarge
          · exact
              { binds := fun _ _ hv => bind_valid h hv hmalloc houtcome
                rejects := fun hinvalid => absurd hvalid hinvalid }

theorem good_of_bindContract (h : LiveSocket w s a rec)
    (houtcome : Outcome plat env (s :: .string ip :: .number port :: rest) w
      (.call .bind) r) (hcontract : BindContract env w a rec ip port r) :
    GoodBindArguments env ip port := by
  cases hip : inetPton (cString ip) with
  | none => exact Or.inl hip
  | some addr =>
      cases hport : port.gtInt maxPort with
      | true => exact Or.inr (Or.inl hport)
      | false =>
          have hargs := @bindArguments_of_accepted env s ip port rest addr hip
            hport
          cases hmalloc : env.malloc with
          | none =>
              -- the write through the null pointer ends the process
              have hr := bind_noMemory h hargs hmalloc houtcome
              by_cases hvalid : exists addr n, ValidBind ip port addr n
              · rcases hvalid with ⟨addr, n, hvalid⟩
                rcases hcontract.binds addr n hvalid with ⟨call, _, hcalls, _⟩
                rw [hr] at hcalls
                simp only [finalState, osCalls_reading h.started] at hcalls
                cases hcalls
              · rcases (hcontract.rejects hvalid).1 with ⟨_, _, _, hraise⟩
                rw [hr] at hraise
                cases hraise
          | some block =>
              have hsome : env.malloc.isSome = true := by rw [hmalloc]; rfl
              refine Or.inr (Or.inr ⟨?_, hsome⟩)
              by_contra hinvalid
              have hnone := (hcontract.rejects hinvalid).2
              rw [bind_performed h hargs hsome houtcome] at hnone
              cases hnone

end Contract

/--
`bind` keeps its contract exactly if the C string of the address is no dotted
quad, or the port is above `MAX_PORT`, or both are valid and there is memory for
the `sockaddr`.
-/
theorem bindContract_iff_good (plat : Platform) (env : Env) (w : World)
    (s : Value) (a : Nat) (rec : SocketRecord) (ip : LuaString)
    (port : LuaNumber) (rest : List Value) (h : LiveSocket w s a rec) :
    BindContract env w a rec ip port
        (callFunction plat env (s :: .string ip :: .number port :: rest) .bind
          w) <->
      GoodBindArguments env ip port := by
  have houtcome := @socklibBind_outcome plat env
    (s :: .string ip :: .number port :: rest) w
  constructor
  · exact good_of_bindContract h houtcome
  · intro hgood
    exact bindContract_of_good h hgood houtcome

/-- `socket.bind(s, "127.0.0.1", 0)` on the first socket of a script. -/
def bindPortZero (w : World) : EStateM.Result Exit World Reply :=
  callFunction .unix { malloc := some 48 }
    [.lightuserdata (.block 16), str "127.0.0.1", .number (.ofInt 0)] .bind w

/-- The port 0 is no port of the contract, and the system is asked to bind it. -/
theorem bindPortZero_not_contract :
    ¬forall w a rec s ip port, ReachableWorld .unix w ->
      LiveSocket w s a rec ->
      BindContract { malloc := some 48 } w a rec ip port
        (callFunction .unix { malloc := some 48 }
          [s, .string ip, .number port] .bind w) := by
  intro hcontract
  have hlive : (runFrom (step .unix) initialWorld
      (createFirst { handle := some 3, malloc := some 16 })).map
      (fun w => (w.socketsInitialized,
        w.lua.checkudata (.lightuserdata (.block 16)) socketDataName,
        w.records 16, (osCalls w (finalState (bindPortZero w))).length)) =
      some (true, some (.block 16), some ⟨⟨0, 0, 0, 3⟩, 0, 0⟩, 1) := by
    decide +kernel
  rcases Option.map_eq_some_iff.mp hlive with ⟨w, hrun, hstate⟩
  simp only [Prod.mk.injEq] at hstate
  rcases hstate with ⟨hstarted, hpasses, hrecord, hcalls⟩
  have hkept := hcontract w 16 _ _ (ascii "127.0.0.1") (.ofInt 0) ⟨_, hrun⟩
    ⟨hstarted, hpasses, hrecord⟩
  have hinvalid : ¬exists addr n,
      ValidBind (ascii "127.0.0.1") (.ofInt 0) addr n := by
    rintro ⟨addr, n, hvalid⟩
    have hport := hvalid.port
    have hlow := hvalid.low
    simp only [LuaNumber.ofInt, LuaNumber.fin.injEq] at hport
    have hn : (0 : Int) = n := by exact_mod_cast hport
    omega
  have hnone := (hkept.rejects hinvalid).2
  unfold bindPortZero str at hcalls
  rw [hnone] at hcalls
  cases hcalls

theorem bindContract_portEighty :
    exists w, LiveSocket w (.lightuserdata (.block 16)) 16
        ⟨⟨0, 0, 0, 3⟩, 0, 0⟩ ∧
      BindContract { malloc := some 48 } w 16 ⟨⟨0, 0, 0, 3⟩, 0, 0⟩
        (ascii "127.0.0.1") (.ofInt 80)
        (callFunction .unix { malloc := some 48 }
          [.lightuserdata (.block 16), .string (ascii "127.0.0.1"),
            .number (.ofInt 80)] .bind w) := by
  have hlive : (runFrom (step .unix) initialWorld
      (createFirst { handle := some 3, malloc := some 16 })).map
      (fun w => (w.socketsInitialized,
        w.lua.checkudata (.lightuserdata (.block 16)) socketDataName,
        w.records 16)) =
      some (true, some (.block 16), some ⟨⟨0, 0, 0, 3⟩, 0, 0⟩) := by
    decide +kernel
  rcases Option.map_eq_some_iff.mp hlive with ⟨w, hrun, hstate⟩
  simp only [Prod.mk.injEq] at hstate
  rcases hstate with ⟨hstarted, hpasses, hrecord⟩
  have hsocket : LiveSocket w (.lightuserdata (.block 16)) 16
      ⟨⟨0, 0, 0, 3⟩, 0, 0⟩ := ⟨hstarted, hpasses, hrecord⟩
  have haddress : inetPton (ascii "127.0.0.1") = some ⟨127, 0, 0, 1⟩ := by
    decide +kernel
  refine ⟨w, hsocket, (bindContract_iff_good .unix _ w _ 16 _ _ _ [] hsocket).mpr
    (Or.inr (Or.inr ⟨⟨⟨127, 0, 0, 1⟩, 80, ?_⟩, rfl⟩))⟩
  exact ⟨dottedQuad_of_inetPton haddress, rfl, by decide, by decide⟩

end LuaServer
