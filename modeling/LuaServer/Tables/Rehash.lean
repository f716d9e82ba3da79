import LuaServer.Library.Effects
import LuaServer.Tables.ArraySize

/-!
# Rehash

A table whose node vector is full counts its keys, chooses new sizes for both
parts, and inserts all its entries again.  An insertion calls the rehash and the
rehash calls insertions, so `newkey` gets the number of rehashes that may run
within each other.
-/

namespace LuaServer

namespace LuaTable

variable (H : Hashing)

/-!
# Counting keys
-/

def addAt (nums : Nat -> Nat) (i n : Nat) : Nat -> Nat :=
  fun j => if j = i then nums j + n else nums j

/-- The new counts, and whether the key is a candidate for the array. -/
def countint (key : Value) (nums : Nat -> Nat) : (Nat -> Nat) × Nat :=
  let k := arrayindex H key
  if 0 < k ∧ k ≤ maxASize then (addAt nums (ceillog2 k.toNat) 1, 1)
  else (nums, 0)

/-- The entries of the array part from `i` to `lim` that are in use. -/
def countSlice (t : LuaTable) (i lim : Nat) : Nat :=
  (List.range' i (lim + 1 - i)).countP fun p => decide (t.array (p - 1) ≠ .nil)

def numusearrayLoop (t : LuaTable) :
    Nat -> Nat -> Nat -> Nat -> (Nat -> Nat) -> Nat -> (Nat -> Nat) × Nat
  | 0, _, _, _, nums, ause => (nums, ause)
  | fuel + 1, lg, ttlg, i, nums, ause =>
      if t.sizearray < ttlg ∧ t.sizearray < i then (nums, ause)
      else
        let lim := min ttlg t.sizearray
        let lc := t.countSlice i lim
        numusearrayLoop t fuel (lg + 1) (ttlg * 2) (max i (lim + 1))
          (addAt nums lg lc) (ause + lc)

def numusearray (t : LuaTable) (nums : Nat -> Nat) : (Nat -> Nat) × Nat :=
  numusearrayLoop t (maxBits + 1) 0 1 1 nums 0

/-- The loop of `numusehash`: the counts, the candidates and all entries. -/
def numusehashLoop (t : LuaTable) :
    Nat -> (Nat -> Nat) -> Nat -> Nat -> (Nat -> Nat) × Nat × Nat
  | 0, nums, ause, totaluse => (nums, ause, totaluse)
  | i + 1, nums, ause, totaluse =>
      if (t.node i).val ≠ .nil then
        let r := countint H (t.node i).key.toValue nums
        numusehashLoop t i r.1 (ause + r.2) (totaluse + 1)
      else numusehashLoop t i nums ause totaluse

def numusehash (t : LuaTable) (nums : Nat -> Nat) :
    (Nat -> Nat) × Nat × Nat :=
  numusehashLoop H t t.sizenode nums 0 0

/-!
# Setting a key
-/

/-- `luaH_set` over the insertion of new keys. -/
def luaHSetWith (newkey : LuaTable -> Value -> Except TableError (LuaTable × Slot))
    (t : LuaTable) (key : Value) : Except TableError (LuaTable × Slot) :=
  match t.luaHGet H key with
  | some slot => .ok (t, slot)
  | none =>
      match key with
      | .nil => .error .indexNil
      | .number .nan => .error .indexNaN
      | key => newkey t key

/-- `luaH_setnum` over the insertion of new keys. -/
def luaHSetnumWith
    (newkey : LuaTable -> Value -> Except TableError (LuaTable × Slot))
    (t : LuaTable) (key : Int) : Except TableError (LuaTable × Slot) :=
  match t.luaHGetnum H key with
  | some slot => .ok (t, slot)
  | none => newkey t (.number (.ofInt key))

/-!
# Resizing
-/

def setarrayvector (t : LuaTable) (size : Nat) : LuaTable :=
  { t with
    sizearray := size
    array := fun i => if i < t.sizearray then t.array i else .nil }

/--
How `resize` begins.  When `luaM_newvector` finds no memory for the nodes after
that, this is the table that the error leaves behind.
-/
def growarray (t : LuaTable) (nasize : Nat) : LuaTable :=
  if t.sizearray < nasize then t.setarrayvector nasize else t

/-- `setnodevector`: a new vector in which all positions are free. -/
def setnodevector (t : LuaTable) (size : Nat) : Except TableError LuaTable :=
  if size = 0 then
    .ok { t with dummy := true, lsizenode := 0, node := fun _ => {},
                 lastfree := 0 }
  else if maxBits < ceillog2 size then .error .overflow
  else
    .ok { t with dummy := false, lsizenode := ceillog2 size,
                 node := fun _ => {}, lastfree := 2 ^ ceillog2 size }

section Resize

variable (newkey : LuaTable -> Value -> Except TableError (LuaTable × Slot))

/-- Insert the elements of the vanishing slice of the array part again. -/
def reinsertArray (old : Nat -> Value) :
    List Nat -> LuaTable -> Except TableError LuaTable
  | [], t => .ok t
  | i :: rest, t =>
      if old i ≠ .nil then
        match luaHSetnumWith H newkey t ((i : Int) + 1) with
        | .error e => .error e
        | .ok (t, slot) => reinsertArray old rest (t.write slot (old i))
      else reinsertArray old rest t

/-- Insert the elements of the old node vector again, from its end. -/
def reinsertNodes (old : Nat -> Node) :
    Nat -> LuaTable -> Except TableError LuaTable
  | 0, t => .ok t
  | i + 1, t =>
      if (old i).val ≠ .nil then
        match luaHSetWith H newkey t (old i).key.toValue with
        | .error e => .error e
        | .ok (t, slot) => reinsertNodes old i (t.write slot (old i).val)
      else reinsertNodes old i t

def resize (t : LuaTable) (nasize nhsize : Nat) : Except TableError LuaTable :=
  match (t.growarray nasize).setnodevector nhsize with
  | .error e => .error e
  | .ok fresh =>
      let shrunk :=
        if nasize < t.sizearray then
          reinsertArray H newkey t.array
            (List.range' nasize (t.sizearray - nasize))
            { fresh with sizearray := nasize }
        else .ok fresh
      match shrunk with
      | .error e => .error e
      | .ok filled => reinsertNodes H newkey t.node t.sizenode filled

def rehash (t : LuaTable) (ek : Value) : Except TableError LuaTable :=
  let array := t.numusearray fun _ => 0
  let hash := t.numusehash H array.1
  let extra := countint H ek hash.1
  let sizes := computesizes extra.1 (array.2 + hash.2.1 + extra.2)
  resize H newkey t sizes.1 (array.2 + hash.2.2 + 1 - sizes.2)

end Resize

/-!
# Inserting a key
-/

/-- `newkey`, with the number of rehashes that may run within each other. -/
def newkey : Nat -> LuaTable -> Value -> Except TableError (LuaTable × Slot)
  | depth, t, key =>
      match t.place H key with
      | .placed t i => .ok (t, .node i)
      | .crash => .error .crash
      | .full t =>
          match depth with
          | 0 => .error .depth
          | depth + 1 =>
              match rehash H (newkey depth) t key with
              | .error e => .error e
              | .ok t => luaHSetWith H (newkey depth) t key

def luaHSet (t : LuaTable) (key : Value) :
    Except TableError (LuaTable × Slot) :=
  luaHSetWith H (newkey H 1) t key

def luaHSetnum (t : LuaTable) (key : Int) :
    Except TableError (LuaTable × Slot) :=
  luaHSetnumWith H (newkey H 1) t key

def luaHSetstr (t : LuaTable) (s : LuaString) :
    Except TableError (LuaTable × Slot) :=
  match t.luaHGetstr H s with
  | some slot => .ok (t, slot)
  | none => newkey H 1 t (.string s)

def luaHResizearray (t : LuaTable) (nasize : Nat) :
    Except TableError LuaTable :=
  resize H (newkey H 1) t nasize (if t.dummy then 0 else t.sizenode)

def luaHNew (narray nhash : Nat) : Except TableError LuaTable :=
  let empty : LuaTable :=
    { sizearray := 0, array := fun _ => .nil, dummy := true, lsizenode := 0,
      node := fun _ => {}, lastfree := 0 }
  (empty.setarrayvector narray).setnodevector nhash

end LuaTable

end LuaServer
