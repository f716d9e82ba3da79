import LuaServer.Tables.Layout

/-!
# Lookup

The three specialised searches agree with the general one, and on a sound node
vector the search finds the node of a key wherever it is stored.
-/

namespace LuaServer

open Library

/-- A key that a table accepts: neither nil nor NaN. -/
def Value.IsKey (v : Value) : Prop := v ≠ .nil ∧ v.rawEqual v = true

instance (v : Value) : Decidable v.IsKey :=
  inferInstanceAs (Decidable (v ≠ .nil ∧ v.rawEqual v = true))

namespace LuaNumber

theorem numEq_iff {m n : LuaNumber} : m.numEq n = true <-> m = n ∧ m ≠ nan := by
  cases m with
  | nan => simp [numEq]
  | inf negative => simp [numEq]
  | fin q => simp [numEq]

theorem numEq_self_ofInt (k : Int) : (ofInt k).numEq (ofInt k) = true :=
  numEq_iff.mpr ⟨rfl, by simp [ofInt]⟩

end LuaNumber

theorem Value.rawEqual_iff {k v : Value} :
    k.rawEqual v = true <-> k = v ∧ v.rawEqual v = true := by
  by_cases hnumber : exists m n, k = .number m ∧ v = .number n
  · rcases hnumber with ⟨m, n, rfl, rfl⟩
    simp only [Value.rawEqual, LuaNumber.numEq_iff, Value.number.injEq]
    constructor
    · rintro ⟨rfl, hm⟩
      exact ⟨rfl, trivial, hm⟩
    · rintro ⟨rfl, _, hm⟩
      exact ⟨rfl, hm⟩
  · have hplain : forall x y : Value,
        (¬exists m n, x = .number m ∧ y = .number n) ->
          x.rawEqual y = decide (x = y) := by
      intro x y hnot
      unfold Value.rawEqual
      split
      · exact absurd ⟨_, _, rfl, rfl⟩ hnot
      · rfl
    rw [hplain k v hnumber, decide_eq_true_eq]
    constructor
    · rintro rfl
      refine ⟨rfl, ?_⟩
      rw [hplain k k hnumber, decide_eq_true_eq]
    · exact fun h => h.1

namespace LuaTable

variable {H : Hashing} {t : LuaTable}

theorem sizenode_pos : 0 < t.sizenode := Nat.two_pow_pos _

theorem hashmod_lt (n : Nat) : t.hashmod n < t.sizenode := by
  have hodd : 0 < (t.sizenode - 1) ||| 1 :=
    Nat.lt_of_lt_of_le Nat.zero_lt_one Nat.right_le_or
  have hlt := Nat.mod_lt n hodd
  unfold hashmod
  cases hsize : t.lsizenode with
  | zero =>
      have hone : t.sizenode = 1 := by
        unfold sizenode
        rw [hsize]
        rfl
      rw [hone]
      exact Nat.mod_lt n Nat.zero_lt_one
  | succ k =>
      have hsizenode : t.sizenode = 2 ^ (k + 1) := by
        unfold sizenode
        rw [hsize]
      have hpow : 1 < 2 ^ (k + 1) :=
        Nat.one_lt_two_pow (Nat.succ_ne_zero k)
      have hor : (t.sizenode - 1) ||| 1 < 2 ^ (k + 1) := by
        apply Nat.or_lt_two_pow
        · omega
        · exact hpow
      omega

theorem mainposition_lt (key : Value) : t.mainposition H key < t.sizenode := by
  cases key with
  | number n =>
      show t.hashnum H n < t.sizenode
      unfold hashnum
      split
      · exact sizenode_pos
      · exact hashmod_lt _
  | string s => exact Nat.mod_lt _ sizenode_pos
  | boolean b => exact Nat.mod_lt _ sizenode_pos
  | nil | lightuserdata | table | cfunction | closure | userdata | thread =>
      exact hashmod_lt _

/-!
# One search for all keys
-/

/-- The key is an index into the array part. -/
def InArray (H : Hashing) (t : LuaTable) (key : Value) : Prop :=
  1 ≤ arrayindex H key ∧ arrayindex H key ≤ t.sizearray

instance (key : Value) : Decidable (t.InArray H key) :=
  inferInstanceAs (Decidable (1 ≤ arrayindex H key ∧
    arrayindex H key ≤ t.sizearray))

theorem isString_eq (s : LuaString) : isString s = isKey (.string s) := by
  funext key
  cases key with
  | nil | dead => rfl
  | key v =>
      cases v with
      | string r => simp [isString, isKey, Value.rawEqual]
      | nil | boolean | lightuserdata | number | table | cfunction | closure
      | userdata | thread => simp [isString, isKey, Value.rawEqual]

theorem isNumber_eq (n : LuaNumber) : isNumber n = isKey (.number n) := by
  funext key
  cases key with
  | nil | dead => rfl
  | key v =>
      cases v with
      | number m => rfl
      | nil | boolean | lightuserdata | string | table | cfunction | closure
      | userdata | thread => simp [isNumber, isKey, Value.rawEqual]

theorem arrayindex_number {n : LuaNumber}
    (h : (LuaNumber.ofInt (number2int H n)).numEq n = true) :
    arrayindex H (.number n) = number2int H n := if_pos h

theorem arrayindex_of_ne {n : LuaNumber}
    (h : ¬(LuaNumber.ofInt (number2int H n)).numEq n = true) :
    arrayindex H (.number n) = -1 := if_neg h

theorem luaHGet_array {key : Value} (h : t.InArray H key) :
    t.luaHGet H key = some (.array (arrayindex H key - 1).toNat) := by
  cases key with
  | number n =>
      by_cases hint : (LuaNumber.ofInt (number2int H n)).numEq n = true
      · unfold InArray at h
        rw [arrayindex_number hint] at h ⊢
        simp only [luaHGet, if_pos hint, luaHGetnum, if_pos h]
      · unfold InArray at h
        rw [arrayindex_of_ne hint] at h
        omega
  | nil | boolean | lightuserdata | string | table | cfunction | closure
  | userdata | thread =>
      exact absurd h.1 (by simp [arrayindex])

/-- Outside the array part every search is the general one. -/
theorem luaHGet_any {key : Value} (hnil : key ≠ .nil) (h : ¬t.InArray H key) :
    t.luaHGet H key = t.luaHGetany H key := by
  cases key with
  | nil => exact absurd rfl hnil
  | string s =>
      show t.luaHGetstr H s = _
      unfold luaHGetstr luaHGetany
      rw [isString_eq]
      rfl
  | number n =>
      by_cases hint : (LuaNumber.ofInt (number2int H n)).numEq n = true
      · have hn := (LuaNumber.numEq_iff.mp hint).1
        unfold InArray at h
        rw [arrayindex_number hint] at h
        simp only [luaHGet, if_pos hint, luaHGetnum, if_neg h]
        unfold luaHGetany
        rw [isNumber_eq, hn]
        rfl
      · simp only [luaHGet, if_neg hint]
  | boolean | lightuserdata | table | cfunction | closure | userdata
  | thread => rfl

/-!
# Sound node vectors
-/

/-- The position is free, or its element is not in its main position. -/
def Homeless (H : Hashing) (t : LuaTable) (i : Nat) : Prop :=
  (t.node i).key = .nil ∨
    exists k, (t.node i).key = .key k ∧ t.mainposition H k ≠ i

/--
What holds of the node vector between two operations.  `home` is Brent's
variation: if an element is not in its main position, no key has this position
as its main one.
-/
structure HashSound (H : Hashing) (t : LuaTable) : Prop where
  linear : Linear t.next
  bound : forall i j, t.next i = some j -> i < t.sizenode ∧ j < t.sizenode
  inside : forall i, (t.node i).key ≠ .nil -> i < t.sizenode
  empty : forall i, (t.node i).key = .nil ->
    (t.node i).val = .nil ∧ t.next i = none ∧ forall j, t.next j ≠ some i
  dead : forall i a, (t.node i).key = .dead a -> (t.node i).val = .nil
  found : forall i k, (t.node i).key = .key k ->
    Follows t.next (t.mainposition H k) i
  unique : forall i j k, (t.node i).key = .key k -> (t.node j).key = .key k ->
    i = j
  home : forall i, t.Homeless H i ->
    forall j k, (t.node j).key = .key k -> t.mainposition H k ≠ i
  proper : forall i k, (t.node i).key = .key k -> k.IsKey
  apart : forall i k, (t.node i).key = .key k -> ¬t.InArray H k

theorem HashSound.next_lt (h : HashSound H t) (i j : Nat)
    (hij : t.next i = some j) : j < t.sizenode := (h.bound i j hij).2

theorem HashSound.luaHGetany_node (h : HashSound H t) {i : Nat} {key : Value}
    (hkey : (t.node i).key = .key key) :
    t.luaHGetany H key = some (.node i) := by
  have hself := (h.proper i key hkey).2
  have hfound := h.linear.chainFind_isSome h.next_lt
    (fun i => isKey key (t.node i).key) (mainposition_lt key)
    (h.found i key hkey) (by rw [hkey]; exact hself)
  rcases Option.isSome_iff_exists.mp hfound with ⟨j, hj⟩
  have htest := (chainFind_sound hj).2
  have hsame : i = j := by
    cases hnode : (t.node j).key with
    | nil | dead =>
        rw [hnode] at htest
        cases htest
    | key k =>
        rw [hnode] at htest
        have hk : k = key := (Value.rawEqual_iff.mp htest).1
        rw [hk] at hnode
        exact h.unique i j key hkey hnode
  unfold luaHGetany findNode
  rw [hj, hsame]
  rfl

theorem luaHGetany_none {key : Value}
    (hnone : forall i, (t.node i).key ≠ .key key) :
    t.luaHGetany H key = none := by
  cases hfind : t.findNode (isKey key) (t.mainposition H key) with
  | none =>
      unfold luaHGetany
      rw [hfind]
      rfl
  | some j =>
      have htest := (chainFind_sound hfind).2
      cases hnode : (t.node j).key with
      | nil | dead =>
          rw [hnode] at htest
          cases htest
      | key k =>
          rw [hnode] at htest
          rw [(Value.rawEqual_iff.mp htest).1] at hnode
          exact absurd hnode (hnone j)

theorem HashSound.luaHGet_node (h : HashSound H t) {i : Nat} {key : Value}
    (hkey : (t.node i).key = .key key) : t.luaHGet H key = some (.node i) := by
  rw [luaHGet_any (h.proper i key hkey).1 (h.apart i key hkey)]
  exact h.luaHGetany_node hkey

theorem luaHGet_none {key : Value} (hnil : key ≠ .nil) (h : ¬t.InArray H key)
    (hnone : forall i, (t.node i).key ≠ .key key) :
    t.luaHGet H key = none := by
  rw [luaHGet_any hnil h]
  exact luaHGetany_none hnone

theorem HashSound.luaHGet_cases (h : HashSound H t) {key : Value}
    (hnil : key ≠ .nil) :
    (t.InArray H key ∧
      t.luaHGet H key = some (.array (arrayindex H key - 1).toNat)) ∨
    (¬t.InArray H key ∧ exists i, (t.node i).key = .key key ∧
      t.luaHGet H key = some (.node i)) ∨
    (¬t.InArray H key ∧ (forall i, (t.node i).key ≠ .key key) ∧
      t.luaHGet H key = none) := by
  by_cases hin : t.InArray H key
  · exact Or.inl ⟨hin, luaHGet_array hin⟩
  · right
    by_cases hnode : exists i, (t.node i).key = .key key
    · rcases hnode with ⟨i, hi⟩
      exact Or.inl ⟨hin, i, hi, h.luaHGet_node hi⟩
    · have hnone : forall i, (t.node i).key ≠ .key key :=
        fun i hi => hnode ⟨i, hi⟩
      exact Or.inr ⟨hin, hnone, luaHGet_none hnil hin hnone⟩

end LuaTable

end LuaServer
