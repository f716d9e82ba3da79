import LuaServer.Interpreter.Ownership
import LuaServer.Interpreter.Suspended
import LuaServer.Library.Channel

/-!
# A connection between two programs

Two scripts run side by side, and one of their connections is looked at: what the
system takes from `send` at one end it hands to `recv` at the other.  The ends
are openings of handles.  The histories of the calls are kept as the scripts see
them: strings given and numbers returned at one end, strings returned at the
other.  Between the system and the script, a call of `recv` holds the bytes while
`lua_pushlstring` makes their string.
-/

namespace LuaServer

open Library

structure SendCall where
  text : LuaString
  result : Value
deriving DecidableEq

/--
A call of `recv` that the system has handed bytes: they are `text`.  `request` is
the size that the script asked for, `size` the one that the system got, and `atEnd`
tells whether the stream had ended before the call.
-/
structure RecvCall where
  request : Option Value
  size : Int
  text : LuaString
  atEnd : Bool
deriving DecidableEq

/-- The first bytes of the string, as many as the number says, none for -1. -/
def SendCall.sentPrefix (s : SendCall) : LuaString :=
  match s.result with
  | .number (.fin q) => s.text.take (LuaNumber.truncate q).toNat
  | _ => []

/-- The number is -1 or the length of a prefix of the string. -/
def SendCall.Counts (s : SendCall) : Prop :=
  s.result = .number (.ofInt (-1)) ∨
    exists k : Nat, k ≤ s.text.length ∧ s.result = .number (.ofInt k)

/-- The system gets the size that was asked for if it fits in an `int`. -/
def RecvCall.Sized (r : RecvCall) : Prop :=
  (r.request = none ∨ r.request = some .nil -> r.size = 2048) ∧
    forall n : Int, -2147483648 ≤ n -> n ≤ 2147483647 ->
      r.request = some (.number (.ofInt n)) -> r.size = n

/-!
# What the system does at the ends
-/

namespace OsCall

/-- The bytes that `send` of the system has taken at an end. -/
def taken? (inst : Nat) (call : OsCall) : Option LuaString :=
  match call.op with
  | .send data _ accepted =>
      if call.inst = some inst ∧ call.ok = true then some (data.take accepted)
      else none
  | _ => none

/-- The bytes that `recv` of the system has handed over, with the size it got. -/
def handed? (inst : Nat) (call : OsCall) : Option (Int × LuaString) :=
  match call.op with
  | .recv size data =>
      if call.inst = some inst ∧ call.ok = true then some (size, data) else none
  | _ => none

end OsCall

def usesEnd (inst : Nat) (w v : World) : Bool :=
  (osCalls w v).any fun call => decide (call.inst = some inst)

namespace Invocation

def send? (plat : Platform) (inst : Nat) (c : Invocation) : Option SendCall :=
  match c.f, luaLChecklstring c.args 2,
      enter plat c.env c.args c.entry c.start with
  | .send, .ok text, .ok (.values [result]) v =>
      if usesEnd inst c.start v then some ⟨text, result⟩ else none
  | _, _, _ => none

/-- The call has been handed bytes and is in `lua_pushlstring`. -/
def recv? (plat : Platform) (inst : Nat) (atEnd : Bool) (c : Invocation) :
    Option RecvCall :=
  match c.f, luaLOptint c.env c.args 2 2048,
      enter plat c.env c.args c.entry c.start with
  | .recv, .ok size, .ok (.paused _ (.recv _ text)) v =>
      if usesEnd inst c.start v then some ⟨c.args[1]?, size, text, atEnd⟩
      else none
  | _, _, _ => none

def returned? (plat : Platform) (c : Invocation) : Option LuaString :=
  match c.f, enter plat c.env c.args c.entry c.start with
  | .recv, .ok (.values [.string text]) _ => some text
  | _, _ => none

end Invocation

/-- The opening was closed or shut down, or its process has ended. -/
def World.hasEnded (plat : Platform) (w : World) (inst : Nat) : Bool :=
  decide (inst ∈ w.log.filterMap Event.closed?) ||
    (decide (plat = .windows) && decide (Event.shutdown ∈ w.log)) || !w.isAlive

/--
The system hands over what is at the front of the queue.  For a size of at least
one, it hands over nothing only at the end of the stream.
-/
def handOver (atEnd : Bool) (queue : LuaString) (d : Int × LuaString) :
    Option LuaString :=
  if d.2.isPrefixOf queue &&
      (decide (d.2 ≠ []) || decide (d.1 < 1) || atEnd) then
    some (queue.drop d.2.length)
  else none

/-!
# The two programs
-/

/-- The platforms of the two programs and the openings that are connected. -/
structure Ends where
  sendPlat : Platform
  recvPlat : Platform
  sendInst : Nat
  recvInst : Nat

/--
`recvs` are the calls of `recv` in the order in which the system handed them bytes.
For each suspended call of the receiver, the topmost first, `held` has the call of
`recv` that it is, if it is one at the end.  `returned` are the calls with the
strings that they returned, and `lost` those that an error has ended.
-/
structure Link where
  sender : World
  receiver : World
  queue : LuaString
  sends : List SendCall
  recvs : List RecvCall
  held : List (Option RecvCall)
  returned : List RecvCall
  lost : List RecvCall

inductive LinkAction where
  | sender (a : Action)
  | receiver (a : Action)

/-- The suspended calls without the one that the action takes up. -/
def Action.leaves {α : Type} (calls : List α) : Action -> List α
  | .resume _ => calls.tail
  | .pausedRaise _ => calls.tail
  | _ => calls

namespace Link

def atEnd (ends : Ends) (L : Link) : Bool :=
  L.queue.isEmpty && L.sender.hasEnded ends.sendPlat ends.sendInst

/-- The calls that hold bytes. -/
def unfinished (L : Link) : List RecvCall := L.held.filterMap id

/-- What the topmost suspended call holds. -/
def topmost (L : Link) : Option RecvCall := L.held.head?.join

def recv? (ends : Ends) (L : Link) (a : Action) : Option RecvCall :=
  (L.receiver.invocation a).bind
    (Invocation.recv? ends.recvPlat ends.recvInst (L.atEnd ends))

/-- The topmost suspended call returns its string, or is left by an error. -/
def settle (plat : Platform) (L : Link) (a : Action) : Link :=
  match a with
  | .resume _ =>
      { L with
        held := L.held.tail
        returned := L.returned ++ (L.topmost.bind fun r =>
          ((L.receiver.invocation a).bind (Invocation.returned? plat)).map
            fun text => { r with text := text }).toList }
  | .pausedRaise _ =>
      { L with held := L.held.tail, lost := L.lost ++ L.topmost.toList }
  | _ => L

/-- A call of the receiver is handed bytes; any call may be suspended. -/
def receive (L : Link) (w : World) (queue : LuaString) (recv : Option RecvCall) :
    Link :=
  { L with
    receiver := w
    queue := queue
    recvs := L.recvs ++ recv.toList
    held :=
      if L.held.length < w.paused.length then recv :: L.held else L.held }

def step (ends : Ends) (L : Link) : LinkAction -> Option Link
  | .sender a =>
      (LuaServer.step ends.sendPlat L.sender a).map fun w =>
        { L with
          sender := w
          queue := L.queue ++ ((osCalls L.sender w).filterMap
            (OsCall.taken? ends.sendInst)).flatten
          sends := L.sends ++ ((L.sender.invocation a).bind
            (Invocation.send? ends.sendPlat ends.sendInst)).toList }
  | .receiver a =>
      (LuaServer.step ends.recvPlat L.receiver a).bind fun w =>
        (((osCalls L.receiver w).filterMap
          (OsCall.handed? ends.recvInst)).foldlM
            (handOver (L.atEnd ends)) L.queue).map fun queue =>
          (L.settle ends.recvPlat a).receive w queue (L.recv? ends a)

def channel (L : Link) : Channel UInt8 RecvCall where
  queue := L.queue
  puts := L.sends.map SendCall.sentPrefix
  takes := L.recvs
  held := L.unfinished
  delivered := L.returned
  lost := L.lost

/--
No call of `recv` at the end is left by an error in `lua_pushlstring`, and none is
handed bytes as long as another one is there.
-/
def OneAtATime (ends : Ends) (L : Link) : LinkAction -> Prop
  | .sender _ => True
  | .receiver a =>
      (L.settle ends.recvPlat a).lost = L.lost ∧
        (L.unfinished = [] ∨ L.recv? ends a = none)

instance decidableOneAtATime (ends : Ends) (L : Link) :
    (a : LinkAction) -> Decidable (L.OneAtATime ends a)
  | .sender _ => isTrue trivial
  | .receiver a =>
      inferInstanceAs (Decidable
        ((L.settle ends.recvPlat a).lost = L.lost ∧
          (L.unfinished = [] ∨ L.recv? ends a = none)))

end Link

def initialLink : Link where
  sender := initialWorld
  receiver := initialWorld
  queue := []
  sends := []
  recvs := []
  held := []
  returned := []
  lost := []

/-!
# The operations of a step
-/

section Steps

variable {plat : Platform} {u v w w' : World} {a : Action} {c : Invocation}

theorem osCalls_of_quiet {es : List Event}
    (hquiet : Logs (fun e => e.osCall? = none) w u) (h : v.log = u.log ++ es) :
    osCalls w v = es.filterMap Event.osCall? := by
  rcases hquiet with ⟨es', hes', hnone⟩
  have hlog : v.log = w.log ++ (es' ++ es) := by
    rw [h, hes', List.append_assoc]
  rw [osCalls_of_log hlog, List.filterMap_append,
    List.filterMap_eq_nil_iff.mpr hnone, List.nil_append]

theorem osCalls_eq_nil (hquiet : Logs (fun e => e.osCall? = none) w v) :
    osCalls w v = [] :=
  osCalls_of_quiet hquiet (List.append_nil _).symm

theorem osCalls_of_no_invocation (hnone : w.invocation a = none)
    (h : LuaServer.step plat w a = some w') : osCalls w w' = [] := by
  apply osCalls_eq_nil
  apply (step_logs h).imp
  intro e he
  cases he with
  | call hcall =>
      rw [hnone] at hcall
      cases hcall
  | startup | returned | issued | shutdown => rfl

theorem osCalls_trans_quiet {P : Event -> Prop} (huv : Logs P w u)
    (hquiet : Logs (fun e => e.osCall? = none) u v) :
    osCalls w v = osCalls w u := by
  rcases huv with ⟨es, hes, _⟩
  rcases hquiet with ⟨es', hes', hnone⟩
  have hlog : v.log = w.log ++ (es ++ es') := by
    rw [hes', hes, List.append_assoc]
  rw [osCalls_of_log hlog, osCalls_of_log hes, List.filterMap_append,
    List.filterMap_eq_nil_iff.mpr hnone, List.append_nil]

theorem osCalls_of_invocation (hcall : w.invocation a = some c)
    (h : LuaServer.step plat w a = some w') :
    osCalls w w' = osCalls c.start
      (finalState (enter plat c.env c.args c.entry c.start)) := by
  rcases step_of_invocation hcall h with ⟨hadm, rfl⟩
  have hstart : osCalls w = osCalls c.start := by
    unfold osCalls
    rw [start_log hcall]
  rw [hstart]
  exact osCalls_trans_quiet (enter_logs hadm) (finishCall_logs rfl)

/-!
# The suspended calls of a step
-/

theorem start_leaves (hcall : w.invocation a = some c) :
    c.start.paused = a.leaves w.paused := by
  cases a with
  | call f args env =>
      cases hcall
      rfl
  | gctm env =>
      simp only [World.invocation] at hcall
      split at hcall
      · cases hcall
        rfl
      · cases hcall
  | resume env =>
      simp only [World.invocation] at hcall
      split at hcall
      · cases hcall
      · rename_i p rest hpaused
        cases hcall
        rw [Action.leaves, hpaused]
        rfl
  | script | apiArgs | api | apiRaise | pausedRaise | collect | exit
  | closeState => cases hcall

/-- A call leaves the suspended ones as they are, or is suspended itself. -/
inductive LeavesPaused (plat : Platform) (w : World) (a : Action) (w' : World) :
    Prop where
  | settled :
      (forall c args point v, w.invocation a = some c ->
        enter plat c.env c.args c.entry c.start ≠ .ok (.paused args point) v) ->
      w'.paused = a.leaves w.paused -> LeavesPaused plat w a w'
  | suspended {c : Invocation} {p : Paused} {v : World} :
      w.invocation a = some c ->
      enter plat c.env c.args c.entry c.start = .ok (.paused p.args p.point) v ->
      w'.paused = p :: a.leaves w.paused -> LeavesPaused plat w a w'

theorem called_leaves (hcall : w.invocation a = some c)
    (hadm : c.env.admissible plat c.start = true) :
    LeavesPaused plat w a
      (c.start.performCall plat c.entry c.args c.env) := by
  have houtcome := @enter_outcome plat c.env c.args c.start hadm c.entry
  have hpaused := outcome_paused houtcome
  rw [start_leaves hcall] at hpaused
  have hsettled := @LeavesPaused.settled plat w a
  have hsuspended := @LeavesPaused.suspended plat w a
  unfold World.performCall
  cases hrun : enter plat c.env c.args c.entry c.start with
  | error exit v =>
      rw [hrun] at hpaused
      have hother : forall c' args point v',
          w.invocation a = some c' -> enter plat c'.env c'.args c'.entry
            c'.start ≠ .ok (.paused args point) v' := by
        intro c' args point v' hcall' heq
        rw [hcall] at hcall'
        cases hcall'
        rw [hrun] at heq
        cases heq
      cases exit with
      | raise | crash => exact hsettled hother hpaused
  | ok reply v =>
      rw [hrun] at hpaused
      cases reply with
      | paused args point =>
          exact @hsuspended _ c ⟨args, point, v.frames.length⟩ v hcall hrun
            (congrArg (List.cons _) hpaused)
      | values | building =>
          refine hsettled ?_ hpaused
          intro c' args point v' hcall' heq
          rw [hcall] at hcall'
          cases hcall'
          rw [hrun] at heq
          cases heq

theorem step_leaves (h : LuaServer.step plat w a = some w') :
    LeavesPaused plat w a w' := by
  cases hcall : w.invocation a with
  | some c =>
      rcases step_of_invocation hcall h with ⟨hadm, rfl⟩
      exact called_leaves hcall hadm
  | none =>
      apply LeavesPaused.settled
      · intro c args point v hsome
        rw [hcall] at hsome
        cases hsome
      · cases a with
        | resume env =>
            rcases resume_inv h with ⟨_, _, p, rest, hpaused, _⟩
            simp [World.invocation, hpaused] at hcall
        | pausedRaise e =>
            rcases pausedRaise_inv h with ⟨_, p, rest, hpaused, rfl⟩
            rw [Action.leaves, hpaused]
            rfl
        | script | call | apiArgs | api | apiRaise | collect | gctm | exit
        | closeState =>
            cases step_shape h with
            | quiet | ended | raised | returned => rfl
            | abandoned ha => cases ha
            | called hsome =>
                rw [hcall] at hsome
                cases hsome
            | exited =>
                rcases @exit_state plat w with ⟨L, handles, log, hexit⟩
                rw [hexit]
                rfl

end Steps

end LuaServer
