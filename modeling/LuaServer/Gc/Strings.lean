import LuaServer.Gc.Upvalues

/-!
# The string table

`lstring.c`: every string is kept once, in the list of the table that its hash
selects.
-/

namespace LuaServer
namespace Gc

/-- The loop that computes a hash; `step` leaves out characters of long strings. -/
def hashLoop (str : LuaString) (step : Nat) : Nat -> Nat -> UInt32 -> UInt32
  | 0, _, h => h
  | fuel + 1, l1, h =>
      if step ≤ l1 then
        hashLoop str step fuel (l1 - step)
          (h ^^^ ((h <<< 5) + (h >>> 2) + (str.getD (l1 - 1) 0).toUInt32))
      else h

def hash (str : LuaString) : UInt32 :=
  hashLoop str (str.length / 32 + 1) str.length str.length
    (UInt32.ofNat str.length)

def lmod (h : UInt32) (size : Nat) : Nat := h.toNat &&& (size - 1)

def minStrTabSize : Nat := 32

namespace GlobalState

/-- The list of the string table for the hash. -/
def bucket (g : GlobalState) (h : UInt32) : List Nat :=
  g.strt.getD (lmod h g.strt.length) []

/-- The strings in the table; their number is `strt.nuse`. -/
def strings (g : GlobalState) : List Nat := g.strt.flatten

/-- Chain a string at the head of the list that its hash selects. -/
def chain (g : GlobalState) (table : List (List Nat)) (n : Nat) :
    List (List Nat) :=
  table.modify (lmod (hash (g.text n)) table.length) fun list => n :: list

/-- `luaS_resize`; the table cannot be resized while it is swept. -/
def resize (g : GlobalState) (newsize : Nat) : GlobalState :=
  if g.gcstate = .sweepstring then g
  else
    { g with strt := g.strings.foldl g.chain (List.replicate newsize []) }

def newlstr (g : GlobalState) (str : LuaString) (n : Nat) : GlobalState :=
  let g1 := g.create (.string n) str
  let g2 := { g1 with strt := g1.chain g1.strt n }
  if g2.strt.length < g2.strings.length && g2.strt.length ≤ maxInt / 2 then
    g2.resize (g2.strt.length * 2)
  else g2

/-- `luaS_newlstr`; `n` is the address that a new string would get. -/
def internlstr (g : GlobalState) (str : LuaString) (n : Nat) :
    GlobalState × Nat :=
  match (g.bucket (hash str)).find? fun m => g.text m = str with
  | some m => (g.resurrect (.string m), m)
  | none => (g.newlstr str n, n)

def checkSizes (g : GlobalState) : GlobalState :=
  if g.strings.length < g.strt.length / 4 &&
      minStrTabSize * 2 < g.strt.length then
    g.resize (g.strt.length / 2)
  else g

end GlobalState
end Gc
end LuaServer
