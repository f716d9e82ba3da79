import LuaServer.Library.Chains
import LuaServer.Lua.State

/-!
# The layout of a table

A table of `ltable.c` has an array part and a node vector.  The node vector is a
chained scatter table: every key has a main position, and the keys that collide
there are chained through the nodes themselves.
-/

namespace LuaServer

open Library

/--
What the hash functions depend on: the address that a value points to, the
unsigned int that `IntPoint` makes of it, the sum of the words of a number, and
the hash that a string got when it was made.
-/
structure Hashing where
  address : Value -> Nat
  intPoint : Value -> Nat
  words : LuaNumber -> Nat
  string : LuaString -> Nat
  number2int : LuaNumber -> Int

/--
The key of a node.  The collector turns the key of an empty entry into a dead
key, which keeps the address and nothing else.
-/
inductive NodeKey where
  | nil
  | dead (address : Nat)
  | key (v : Value)
deriving DecidableEq

/-- `key2tval`. -/
def NodeKey.toValue : NodeKey -> Value
  | key v => v
  | _ => .nil

structure Node where
  key : NodeKey := .nil
  val : Value := .nil
  next : Option Nat := none

/--
`struct Table` of `lobject.h` without its flags and its metatable; `dummy` says
that `node` points to the common `dummynode`.
-/
structure LuaTable where
  sizearray : Nat
  array : Nat -> Value
  dummy : Bool
  lsizenode : Nat
  node : Nat -> Node
  lastfree : Nat

/-- Where the value of a key is stored. -/
inductive Slot where
  | array (i : Nat)
  | node (i : Nat)
deriving DecidableEq

inductive TableError where
  | indexNil
  | indexNaN
  | overflow
  | crash
  | depth
deriving DecidableEq

def Value.isCollectable : Value -> Bool
  | .string _ | .table _ | .cfunction _ _ | .closure _ | .userdata _
  | .thread _ => true
  | _ => false

namespace LuaTable

def sizenode (t : LuaTable) : Nat := 2 ^ t.lsizenode

def next (t : LuaTable) (i : Nat) : Option Nat := (t.node i).next

def setNode (t : LuaTable) (i : Nat) (n : Node) : LuaTable :=
  { t with node := fun j => if j = i then n else t.node j }

def setArray (t : LuaTable) (i : Nat) (v : Value) : LuaTable :=
  { t with array := fun j => if j = i then v else t.array j }

def read (t : LuaTable) : Slot -> Value
  | .array i => t.array i
  | .node i => (t.node i).val

def write (t : LuaTable) : Slot -> Value -> LuaTable
  | .array i, v => t.setArray i v
  | .node i, v => t.setNode i { t.node i with val := v }

/-!
# Main positions
-/

variable (H : Hashing)

def hashpow2 (t : LuaTable) (n : Nat) : Nat := n % t.sizenode

def hashmod (t : LuaTable) (n : Nat) : Nat := n % ((t.sizenode - 1) ||| 1)

def hashnum (t : LuaTable) (n : LuaNumber) : Nat :=
  if n.numEq (.ofInt 0) then 0 else t.hashmod (H.words n)

def mainposition (t : LuaTable) : Value -> Nat
  | .number n => t.hashnum H n
  | .string s => t.hashpow2 (H.string s)
  | .boolean b => t.hashpow2 b.toNat
  | v => t.hashmod (H.intPoint v)

def number2int (n : LuaNumber) : Int := toInt32 (n.toInteger H.number2int)

def arrayindex : Value -> Int
  | .number n =>
      let k := number2int H n
      if (LuaNumber.ofInt k).numEq n then k else -1
  | _ => -1

/-!
# Looking a key up
-/

/-- The first node on the chain of the position whose key meets the test. -/
def findNode (t : LuaTable) (test : NodeKey -> Bool) (position : Nat) :
    Option Nat :=
  chainFind t.next (fun i => test (t.node i).key) t.sizenode position

def isNumber (n : LuaNumber) : NodeKey -> Bool
  | .key (.number m) => m.numEq n
  | _ => false

def isString (s : LuaString) : NodeKey -> Bool
  | .key (.string r) => decide (r = s)
  | _ => false

def isKey (v : Value) : NodeKey -> Bool
  | .key k => k.rawEqual v
  | _ => false

def luaHGetnum (t : LuaTable) (key : Int) : Option Slot :=
  if 1 ≤ key ∧ key ≤ t.sizearray then some (.array (key - 1).toNat)
  else
    (t.findNode (isNumber (.ofInt key)) (t.hashnum H (.ofInt key))).map
      Slot.node

def luaHGetstr (t : LuaTable) (s : LuaString) : Option Slot :=
  (t.findNode (isString s) (t.hashpow2 (H.string s))).map Slot.node

def luaHGetany (t : LuaTable) (key : Value) : Option Slot :=
  (t.findNode (isKey key) (t.mainposition H key)).map Slot.node

/-- `luaH_get`: the slot of the key, or none for `luaO_nilobject`. -/
def luaHGet (t : LuaTable) : Value -> Option Slot
  | .nil => none
  | .string s => t.luaHGetstr H s
  | .number n =>
      let k := number2int H n
      if (LuaNumber.ofInt k).numEq n then t.luaHGetnum H k
      else t.luaHGetany H (.number n)
  | key => t.luaHGetany H key

def valueAt (t : LuaTable) : Option Slot -> Value
  | none => .nil
  | some slot => t.read slot

/-- What the table holds under a key. -/
def lookup (t : LuaTable) (key : Value) : Value := t.valueAt (t.luaHGet H key)

end LuaTable

end LuaServer
