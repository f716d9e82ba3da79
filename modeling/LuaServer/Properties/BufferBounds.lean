import LuaServer.Interpreter.Step
import LuaServer.Socklib.Effects
import LuaServer.Socklib.Events

/-!
# The buffer of recv

`socklib_recv` allocates as many bytes as it asks the system for and then stores a
terminator behind the bytes received, so the buffer has room for it only if the
system delivers fewer bytes than it was asked for.
-/

namespace LuaServer

open Library

/-- Every position that the event writes lies in the allocated bytes. -/
def Event.InBuffer : Event -> Prop
  | .store first count size =>
      forall pos, first ≤ pos -> pos < first + count -> pos < size
  | _ => True

/-- The call has come to `lua_pushlstring`, which reads the buffer. -/
def ReadsBuffer (r : EStateM.Result Exit World Reply) : Prop :=
  exists reply w, r = .ok reply w

/--
A call of `recv` writes inside its buffer.  A buffer that was not allocated has no
bytes, so nothing is written to it, and it is not read either.
-/
structure BufferKept (plat : Platform) (env : Env) (args : List Value)
    (w : World) : Prop where
  writes : Logs Event.InBuffer w
    (finalState (callFunction plat env args .recv w))
  reads : env.malloc = none ->
    ¬ReadsBuffer (callFunction plat env args .recv w)

/-- If bytes are received, there is a buffer, and it is not full. -/
def LeavesRoom (plat : Platform) (env : Env) (args : List Value)
    (w : World) : Prop :=
  forall p size data, w.derefs plat env args (.call .recv) = some p ->
    luaLOptint env args 2 2048 = .ok size ->
    w.recvData env (w.infoAt env p).hSocket size = some data ->
    env.malloc.isSome = true ∧ (data.length : Int) < size

section Sizes

variable {plat : Platform} {env : Env} {args : List Value} {w : World}

theorem luaLOptint_lt {size : Int}
    (h : luaLOptint env args 2 2048 = .ok size) : size < 2147483648 := by
  unfold luaLOptint at h
  split at h
  · cases h
    decide
  · cases h
    decide
  · cases hnumber : luaLChecknumber env args 2 with
    | error e =>
        rw [hnumber] at h
        cases h
    | ok n =>
        rw [hnumber] at h
        cases h
        exact toInt32_lt _

theorem recvData_nonneg {h size : Int} {data : LuaString}
    (hdata : w.recvData env h size = some data) : 0 ≤ size := by
  unfold World.recvData at hdata
  split at hdata
  · split at hdata
    · cases hdata
    · rename_i hcond
      rw [not_or] at hcond
      exact Int.not_lt.mp hcond.1
  · cases hdata

theorem reading_inBuffer (entry : Entry) (p : Ptr) :
    Logs Event.InBuffer w (w.reading entry p) :=
  logs_reading trivial (fun _ => trivial) fun _ => trivial

end Sizes

section Bounds

variable {plat : Platform} {env : Env} {args : List Value} {w : World}
variable {c : Caller} {h size : Int} {data : LuaString}

theorem received_terminates :
    LogsSome (fun e => e = .store data.length 1 (bufferSize env size)) w
      (w.received c env h size data) :=
  LogsSome.logs_trans (@Logs.emit (fun _ => True) _ _ trivial)
    (LogsSome.logs_trans (@Logs.emit (fun _ => True) _ _ trivial)
      (LogsSome.emit rfl))

theorem received_inBuffer (hroom : data.length < bufferSize env size) :
    Logs Event.InBuffer w (w.received c env h size data) := by
  refine ((Logs.emit trivial).trans (Logs.emit ?_)).trans (Logs.emit ?_)
  · intro pos _ hpos
    omega
  · intro pos _ hpos
    omega

theorem bufferSize_of_isSome (hmalloc : env.malloc.isSome = true)
    (hnonneg : 0 ≤ size) (hlt : size < 2147483648) :
    bufferSize env size = size.toNat := by
  rcases Option.isSome_iff_exists.mp hmalloc with ⟨a, ha⟩
  unfold bufferSize
  rw [ha]
  exact toSizeT_of_nonneg hnonneg hlt

/-- A terminator inside the buffer stands behind less than was asked for. -/
theorem leavesRoom_of_terminator (hsize : luaLOptint env args 2 2048 = .ok size)
    (hdata : w.recvData env h size = some data)
    (hin : Event.InBuffer (.store data.length 1 (bufferSize env size))) :
    env.malloc.isSome = true ∧ (data.length : Int) < size := by
  have hpos : data.length < bufferSize env size :=
    hin data.length (Nat.le_refl _) (Nat.lt_succ_self _)
  cases hmalloc : env.malloc with
  | none =>
      unfold bufferSize at hpos
      rw [hmalloc] at hpos
      cases hpos
  | some a =>
      have hsome : env.malloc.isSome = true := by rw [hmalloc]; rfl
      rw [bufferSize_of_isSome hsome (recvData_nonneg hdata)
        (luaLOptint_lt hsize)] at hpos
      exact ⟨rfl, by omega⟩

theorem room_of_lt (hsize : luaLOptint env args 2 2048 = .ok size)
    (hmalloc : env.malloc.isSome = true) (hlt : (data.length : Int) < size) :
    data.length < bufferSize env size := by
  rw [bufferSize_of_isSome hmalloc (by omega) (luaLOptint_lt hsize)]
  omega

theorem recv_terminates {p : Ptr} {r : EStateM.Result Exit World Reply}
    (houtcome : Outcome plat env args w (.call .recv) r)
    (hderefs : w.derefs plat env args (.call .recv) = some p)
    (hsize : luaLOptint env args 2 2048 = .ok size)
    (hdata : w.recvData env (w.infoAt env p).hSocket size = some data) :
    LogsSome (fun e => e = .store data.length 1 (bufferSize env size)) w
      (finalState r) := by
  have hread := @reading_inBuffer w (.call .recv) p
  have hsame : forall size' data', luaLOptint env args 2 2048 = .ok size' ->
      (w.reading (.call .recv) p).recvData env (w.infoAt env p).hSocket size' =
        some data' -> size' = size ∧ data' = data := by
    intro size' data' hsize' hdata'
    rw [hsize] at hsize'
    cases hsize'
    rw [recvData_reading, hdata] at hdata'
    cases hdata'
    exact ⟨rfl, rfl⟩
  have hne : p ≠ .null := ne_null_of_passes
    (checks_call.mp (derefs_call_checks (by simp) hderefs)).2.2
  cases acted_of_derefs rfl hderefs hne houtcome with
  | recvFailed hsize' hnone =>
      rw [hsize] at hsize'
      cases hsize'
      rw [recvData_reading, hdata] at hnone
      cases hnone
  | recvNoMemory hsize' hdata' =>
      rcases hsame _ _ hsize' hdata' with ⟨rfl, rfl⟩
      exact LogsSome.logs_trans hread received_terminates
  | received hsize' hdata' =>
      rcases hsame _ _ hsize' hdata' with ⟨rfl, rfl⟩
      exact LogsSome.logs_trans (hread.trans logs_withBlock)
        received_terminates

theorem recv_inBuffer {r : EStateM.Result Exit World Reply}
    (houtcome : Outcome plat env args w (.call .recv) r)
    (hroom : LeavesRoom plat env args w) :
    Logs Event.InBuffer w (finalState r) := by
  cases houtcome with
  | initFailed => exact Logs.emit trivial
  | rejected => exact logs_afterHeader trivial
  | converting | invalid =>
      exact (logs_afterHeader trivial).trans (Logs.emit trivial)
  | @acted _ p _ _ hderefs _ hact =>
      have hreading := @reading_inBuffer w (.call .recv) p
      have hfits : forall size data, luaLOptint env args 2 2048 = .ok size ->
          (w.reading (.call .recv) p).recvData env (w.infoAt env p).hSocket size =
            some data -> env.malloc.isSome = true ∧
              data.length < bufferSize env size := by
        intro size data hsize hdata
        rw [recvData_reading] at hdata
        rcases hroom p size data hderefs hsize hdata with ⟨hmalloc, hlt⟩
        exact ⟨hmalloc, room_of_lt hsize hmalloc hlt⟩
      cases hact with
      | recvFailed =>
          exact hreading.trans (logs_withBlock.trans (Logs.emit trivial))
      | recvNoMemory hsize hdata hmalloc =>
          have hsome := (hfits _ _ hsize hdata).1
          rw [hmalloc] at hsome
          cases hsome
      | received hsize hdata =>
          exact hreading.trans (logs_withBlock.trans
            (received_inBuffer (hfits _ _ hsize hdata).2))

theorem recv_not_reads {r : EStateM.Result Exit World Reply}
    (houtcome : Outcome plat env args w (.call .recv) r)
    (hmalloc : env.malloc = none) : ¬ReadsBuffer r := by
  rintro ⟨_, _, hreads⟩
  cases houtcome with
  | initFailed | rejected | invalid => cases hreads
  | @converting _ _ _ point _ _ _ _ hpoint hsocket =>
      cases point with
      | bind | send => cases hpoint
      | recv => cases hsocket
  | acted _ _ _ hact =>
      cases hact with
      | recvFailed | recvNoMemory => cases hreads
      | received _ _ hsome =>
          rw [hmalloc] at hsome
          cases hsome

end Bounds

/--
A call of `recv` keeps to its buffer exactly if, whenever bytes are received, the
buffer was allocated and the bytes do not fill it.
-/
theorem bufferKept_iff_leavesRoom (plat : Platform) (env : Env)
    (args : List Value) (w : World) :
    BufferKept plat env args w <-> LeavesRoom plat env args w := by
  have houtcome : Outcome plat env args w (.call .recv)
      (callFunction plat env args .recv w) := socklibRecv_outcome
  constructor
  · intro hkept p size data hderefs hsize hdata
    exact leavesRoom_of_terminator hsize hdata (hkept.writes.of_logsSome
      (recv_terminates houtcome hderefs hsize hdata))
  · intro hroom
    exact ⟨recv_inBuffer houtcome hroom, recv_not_reads houtcome⟩

/-- `s:recv(4)` on a fresh socket, for which the peer has sent four bytes. -/
def fillBuffer : Env :=
  { malloc := some 32, recv := some (ascii "ping") }

def recvFour : List Value := [.lightuserdata (.block 16), .number (.ofInt 4)]

/-- The terminator of a full buffer is stored behind its end. -/
theorem fillBuffer_not_kept :
    ¬forall env args w, ReachableWorld .unix w ->
      BufferKept .unix env args w := by
  intro hkept
  have hrun : (runFrom (step .unix) initialWorld
      (createFirst { handle := some 3, malloc := some 16 })).map (fun w =>
        decide (w.derefs .unix fillBuffer recvFour (.call .recv) =
          some (.block 16)) &&
        decide (w.recvData fillBuffer
          (w.infoAt fillBuffer (.block 16)).hSocket 4 =
            some (ascii "ping"))) = some true := by
    decide +kernel
  rcases Option.map_eq_some_iff.mp hrun with ⟨w, hw, hfacts⟩
  rw [Bool.and_eq_true, decide_eq_true_eq, decide_eq_true_eq] at hfacts
  have hsize : luaLOptint fillBuffer recvFour 2 2048 = .ok 4 := by
    decide +kernel
  have hin := (hkept fillBuffer recvFour w ⟨_, hw⟩).writes.of_logsSome
    (recv_terminates socklibRecv_outcome hfacts.1 hsize hfacts.2)
  exact absurd (hin 4 (by decide) (by decide)) (by decide)

end LuaServer
