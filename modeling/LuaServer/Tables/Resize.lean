import LuaServer.Tables.Contents
import LuaServer.Tables.Rehash

/-!
# Resizing

A resize inserts the elements of the vanishing slice and of the old node vector
again.  With room for all of them no insertion can start another rehash, and the
table holds what it held before.
-/

namespace LuaServer

namespace LuaTable

variable {H : Hashing} {t : LuaTable}

/-!
# Inserting one key
-/

/-- The slot of a key in a table that holds what it held before. -/
structure Assigns (H : Hashing) (t : LuaTable) (key : Value) (t' : LuaTable)
    (slot : Slot) : Prop where
  sound : t'.Sound H
  slot : t'.luaHGet H key = some slot
  lookup : forall k, t'.lookup H k = t.lookup H k
  clear : t.Clear H -> t'.Clear H

structure SameSizes (t t' : LuaTable) : Prop where
  sizearray : t'.sizearray = t.sizearray
  dummy : t'.dummy = t.dummy
  lsizenode : t'.lsizenode = t.lsizenode

theorem SameSizes.trans {t' t'' : LuaTable} (h : SameSizes t t')
    (h' : SameSizes t' t'') : SameSizes t t'' :=
  ⟨h'.sizearray.trans h.sizearray, h'.dummy.trans h.dummy,
    h'.lsizenode.trans h.lsizenode⟩

theorem SameSizes.sizenode {t' : LuaTable} (h : SameSizes t t') :
    t'.sizenode = t.sizenode := by
  unfold LuaTable.sizenode
  rw [h.lsizenode]

theorem sameSizes_write (slot : Slot) (v : Value) :
    SameSizes t (t.write slot v) :=
  have h := sameKeys_write (t := t) slot v
  ⟨h.sizearray, h.dummy, h.lsizenode⟩

/-- An insertion that starts no rehash as long as there is a free position. -/
def PlacesFirst (H : Hashing)
    (newkey : LuaTable -> Value -> Except TableError (LuaTable × Slot)) :
    Prop :=
  forall t key t' i, t.place H key = .placed t' i ->
    newkey t key = .ok (t', .node i)

theorem newkey_placesFirst (depth : Nat) : PlacesFirst H (newkey H depth) := by
  intro t key t' i hplace
  unfold newkey
  rw [hplace]

theorem luaHSetWith_some {newkey} {key : Value} {slot : Slot}
    (h : t.luaHGet H key = some slot) :
    luaHSetWith H newkey t key = .ok (t, slot) := by
  unfold luaHSetWith
  rw [h]

theorem luaHSetWith_none {newkey} {key : Value} (hkey : key.IsKey)
    (h : t.luaHGet H key = none) :
    luaHSetWith H newkey t key = newkey t key := by
  unfold luaHSetWith
  rw [h]
  cases key with
  | nil => exact absurd rfl hkey.1
  | number n =>
      cases n with
      | nan => exact absurd hkey.2 (by decide)
      | inf negative => rfl
      | fin q => rfl
  | boolean | lightuserdata | string | table | cfunction | closure
  | userdata | thread => rfl

/-- How many nodes a key needs beside an array part of this size. -/
def nodesNeeded (H : Hashing) (size : Nat) (key : Value) : Nat :=
  if 1 ≤ arrayindex H key ∧ arrayindex H key ≤ (size : Int) then 0 else 1

theorem Sound.luaHSetWith_room (h : t.Sound H) {newkey}
    (hnewkey : PlacesFirst H newkey) {key : Value} (hkey : key.IsKey)
    (hdummy : t.dummy = true -> t.InArray H key)
    (hroom : t.usedNodes + nodesNeeded H t.sizearray key ≤ t.sizenode) :
    exists t' slot, luaHSetWith H newkey t key = .ok (t', slot) ∧
      Assigns H t key t' slot ∧ SameSizes t t' ∧
      t'.usedNodes ≤ t.usedNodes + nodesNeeded H t.sizearray key := by
  cases hget : t.luaHGet H key with
  | some slot =>
      exact ⟨t, slot, luaHSetWith_some hget, ⟨h, hget, fun _ => rfl, id⟩,
        ⟨rfl, rfl, rfl⟩, Nat.le_add_right _ _⟩
  | none =>
      have habsent := Absent.of_luaHGet h.hash hkey hget
      have hone : nodesNeeded H t.sizearray key = 1 := if_neg habsent.notInArray
      rw [hone] at hroom ⊢
      have hreal : t.dummy = false := by
        cases hd : t.dummy with
        | false => rfl
        | true => exact absurd (hdummy hd) habsent.notInArray
      rcases h.place_of_usedNodes habsent hreal hroom with
        ⟨t', i, hplace, hp, hsound⟩
      refine ⟨t', .node i, ?_, ⟨hsound, ?_, hp.lookup h.hash, hp.clear⟩, ?_,
        hp.usedNodes_le⟩
      · rw [luaHSetWith_none hkey hget]
        exact hnewkey t key t' i hplace
      · exact hp.sound.luaHGet_node hp.key
      · exact ⟨hp.shape.sizearray, hp.shape.dummy, hp.shape.lsizenode⟩

/-!
# Inserting a list of entries
-/

def insertAll (H : Hashing)
    (newkey : LuaTable -> Value -> Except TableError (LuaTable × Slot)) :
    List (Value × Value) -> LuaTable -> Except TableError LuaTable
  | [], t => .ok t
  | (key, v) :: rest, t =>
      match luaHSetWith H newkey t key with
      | .error e => .error e
      | .ok (t, slot) => insertAll H newkey rest (t.write slot v)

/-- How many of the entries belong outside an array part of this size. -/
def outside (H : Hashing) (size : Nat) (pairs : List (Value × Value)) : Nat :=
  pairs.countP fun p =>
    decide ¬(1 ≤ arrayindex H p.1 ∧ arrayindex H p.1 ≤ (size : Int))

theorem outside_cons (size : Nat) (key v : Value)
    (rest : List (Value × Value)) :
    outside H size ((key, v) :: rest) =
      outside H size rest + nodesNeeded H size key := by
  unfold outside nodesNeeded
  rw [List.countP_cons]
  congr 1
  split
  · rename_i hout
    rw [if_neg (of_decide_eq_true hout)]
  · rename_i hin
    rw [decide_eq_true_eq, not_not] at hin
    rw [if_pos hin]

/-- The table after all entries of the list have been inserted. -/
structure Inserted (H : Hashing) (pairs : List (Value × Value))
    (t t' : LuaTable) : Prop where
  sound : t'.Sound H
  sizes : SameSizes t t'
  usedNodes : t'.usedNodes ≤ t.usedNodes + outside H t.sizearray pairs
  mem : forall p, p ∈ pairs -> t'.lookup H p.1 = p.2
  other : forall k, k ∉ pairs.map Prod.fst -> t'.lookup H k = t.lookup H k
  clear : t.Clear H -> t'.Clear H

theorem Sound.insertAll {newkey} (hnewkey : PlacesFirst H newkey)
    {pairs : List (Value × Value)} (h : t.Sound H)
    (hkeys : forall p, p ∈ pairs -> p.1.IsKey)
    (hnodup : (pairs.map Prod.fst).Nodup)
    (hroom : t.usedNodes + outside H t.sizearray pairs ≤ t.sizenode)
    (hdummy : t.dummy = true -> outside H t.sizearray pairs = 0) :
    exists t', LuaTable.insertAll H newkey pairs t = .ok t' ∧
      Inserted H pairs t t' := by
  induction pairs generalizing t with
  | nil =>
      refine ⟨t, rfl, h, ⟨rfl, rfl, rfl⟩, Nat.le_add_right _ _, ?_,
        fun _ _ => rfl, id⟩
      intro p hp
      cases hp
  | cons p rest ih =>
      rcases p with ⟨key, v⟩
      rw [List.map_cons, List.nodup_cons] at hnodup
      rw [outside_cons] at hroom hdummy
      have hreal : t.dummy = true -> t.InArray H key := by
        intro hd
        by_contra hnot
        have hzero := hdummy hd
        have hone : nodesNeeded H t.sizearray key = 1 := if_neg hnot
        omega
      have hkey : key.IsKey := hkeys (key, v) List.mem_cons_self
      rcases h.luaHSetWith_room hnewkey hkey hreal
        (by omega) with ⟨t1, slot, hset, hassign, hsizes, hused⟩
      rcases hassign.sound.write hassign.slot v with ⟨hsound, hlookup⟩
      have hsizes' := hsizes.trans (sameSizes_write slot v)
      have hused' : (t1.write slot v).usedNodes = t1.usedNodes :=
        (sameKeys_write slot v).usedNodes
      rcases ih (t := t1.write slot v) hsound
        (fun p hp => hkeys p (List.mem_cons_of_mem _ hp)) hnodup.2
        (by rw [hused', hsizes'.sizearray, hsizes'.sizenode]; omega)
        (by
          rw [hsizes'.dummy, hsizes'.sizearray]
          intro hd
          have := hdummy hd
          omega) with ⟨t', hall, hins⟩
      refine ⟨t', ?_, hins.sound, hsizes'.trans hins.sizes, ?_, ?_, ?_, ?_⟩
      · rw [LuaTable.insertAll, hset]
        exact hall
      · have hle := hins.usedNodes
        rw [hused', hsizes'.sizearray] at hle
        rw [outside_cons]
        omega
      · intro p hp
        rcases List.mem_cons.mp hp with rfl | hrest
        · rw [hins.other _ hnodup.1, hlookup, if_pos rfl]
        · exact hins.mem p hrest
      · intro k hk
        rw [List.map_cons, List.mem_cons, not_or] at hk
        rw [hins.other k hk.2, hlookup, if_neg hk.1, hassign.lookup]
      · intro hclear
        exact hins.clear ((sameKeys_write slot v).clear (hassign.clear hclear))

/-!
# The entries of a table
-/

/-- The elements of the array at these positions. -/
def arrayPairs (array : Nat -> Value) (positions : List Nat) :
    List (Value × Value) :=
  (positions.filter fun i => array i ≠ .nil).map fun i : Nat =>
    (.number (.ofInt ((i : Int) + 1)), array i)

/-- The entries of the last nodes, from the end. -/
def nodePairs (node : Nat -> Node) : Nat -> List (Value × Value)
  | 0 => []
  | i + 1 =>
      if (node i).val ≠ .nil then
        ((node i).key.toValue, (node i).val) :: nodePairs node i
      else nodePairs node i

theorem number2int_ofInt {k : Int} (hlow : -2147483648 ≤ k)
    (hhigh : k ≤ 2147483647) : number2int H (.ofInt k) = k := by
  unfold number2int
  rw [LuaNumber.toInteger_ofInt _ hlow hhigh, toInt32_of_bounds hlow hhigh]

theorem arrayindex_ofInt {k : Int} (hlow : -2147483648 ≤ k)
    (hhigh : k ≤ 2147483647) : arrayindex H (.number (.ofInt k)) = k := by
  have hint : number2int H (.ofInt k) = k := number2int_ofInt hlow hhigh
  rw [arrayindex_number (by rw [hint]; exact LuaNumber.numEq_self_ofInt k)]
  exact hint

theorem luaHGet_ofInt {k : Int} (hlow : -2147483648 ≤ k)
    (hhigh : k ≤ 2147483647) :
    t.luaHGet H (.number (.ofInt k)) = t.luaHGetnum H k := by
  simp only [luaHGet, number2int_ofInt hlow hhigh,
    if_pos (LuaNumber.numEq_self_ofInt k)]

theorem luaHSetnumWith_eq {newkey} {k : Int} (hlow : -2147483648 ≤ k)
    (hhigh : k ≤ 2147483647) :
    luaHSetnumWith H newkey t k =
      luaHSetWith H newkey t (.number (.ofInt k)) := by
  unfold luaHSetnumWith luaHSetWith
  rw [luaHGet_ofInt hlow hhigh]
  rfl

theorem isKey_ofInt (k : Int) : (Value.number (.ofInt k)).IsKey :=
  ⟨Value.noConfusion, LuaNumber.numEq_self_ofInt k⟩

theorem maxASize_lt : maxASize < 2147483647 := by decide

theorem reinsertArray_eq {newkey} {array : Nat -> Value} {positions : List Nat}
    (h : forall i, i ∈ positions -> i < maxASize) :
    reinsertArray H newkey array positions t =
      insertAll H newkey (arrayPairs array positions) t := by
  induction positions generalizing t with
  | nil => rfl
  | cons i rest ih =>
      have hrest : forall j, j ∈ rest -> j < maxASize :=
        fun j hj => h j (List.mem_cons_of_mem _ hj)
      have hi := h i List.mem_cons_self
      have hmax := maxASize_lt
      rw [reinsertArray]
      by_cases hval : array i ≠ .nil
      · have hpairs : arrayPairs array (i :: rest) =
            (.number (.ofInt ((i : Int) + 1)), array i) ::
              arrayPairs array rest := by
          unfold arrayPairs
          rw [List.filter_cons_of_pos (by simpa using hval), List.map_cons]
        rw [if_pos hval, hpairs, luaHSetnumWith_eq (k := (i : Int) + 1) (by omega) (by omega),
          insertAll]
        cases luaHSetWith H newkey t (.number (.ofInt ((i : Int) + 1))) with
        | error e => rfl
        | ok r => exact ih hrest
      · have hpairs : arrayPairs array (i :: rest) = arrayPairs array rest := by
          unfold arrayPairs
          rw [List.filter_cons_of_neg (by simpa using hval)]
        rw [if_neg hval, hpairs]
        exact ih hrest

theorem reinsertNodes_eq {newkey} {node : Nat -> Node} {n : Nat} :
    reinsertNodes H newkey node n t =
      insertAll H newkey (nodePairs node n) t := by
  induction n generalizing t with
  | zero => rfl
  | succ i ih =>
      rw [reinsertNodes, nodePairs]
      split
      · rw [insertAll]
        cases luaHSetWith H newkey t (node i).key.toValue with
        | error e => rfl
        | ok r => exact ih
      · exact ih

theorem insertAll_append {newkey} {first second : List (Value × Value)} :
    insertAll H newkey (first ++ second) t =
      match insertAll H newkey first t with
      | .error e => .error e
      | .ok t' => insertAll H newkey second t' := by
  induction first generalizing t with
  | nil => rfl
  | cons p rest ih =>
      rw [List.cons_append, insertAll, insertAll]
      cases luaHSetWith H newkey t p.1 with
      | error e => rfl
      | ok r => exact ih

theorem mem_arrayPairs {array : Nat -> Value} {positions : List Nat}
    {p : Value × Value} :
    p ∈ arrayPairs array positions <-> exists i, i ∈ positions ∧
      array i ≠ .nil ∧ p = (.number (.ofInt ((i : Int) + 1)), array i) := by
  unfold arrayPairs
  simp only [List.mem_map, List.mem_filter, decide_eq_true_eq]
  constructor
  · rintro ⟨i, ⟨hi, hval⟩, rfl⟩
    exact ⟨i, hi, hval, rfl⟩
  · rintro ⟨i, hi, hval, rfl⟩
    exact ⟨i, ⟨hi, hval⟩, rfl⟩

theorem mem_nodePairs {node : Nat -> Node} {n : Nat} {p : Value × Value} :
    p ∈ nodePairs node n <-> exists i, i < n ∧ (node i).val ≠ .nil ∧
      p = ((node i).key.toValue, (node i).val) := by
  induction n with
  | zero =>
      constructor
      · intro hp
        cases hp
      · rintro ⟨i, hi, _⟩
        exact absurd hi (Nat.not_lt_zero i)
  | succ n ih =>
      have hsplit : (exists i, i < n + 1 ∧ (node i).val ≠ .nil ∧
          p = ((node i).key.toValue, (node i).val)) <->
          ((node n).val ≠ .nil ∧ p = ((node n).key.toValue, (node n).val)) ∨
          p ∈ nodePairs node n := by
        rw [ih]
        constructor
        · rintro ⟨i, hi, hval, hp⟩
          rcases Nat.lt_or_eq_of_le (Nat.le_of_lt_succ hi) with hlt | rfl
          · exact Or.inr ⟨i, hlt, hval, hp⟩
          · exact Or.inl ⟨hval, hp⟩
        · rintro (⟨hval, hp⟩ | ⟨i, hi, hval, hp⟩)
          · exact ⟨n, Nat.lt_succ_self n, hval, hp⟩
          · exact ⟨i, Nat.lt_succ_of_lt hi, hval, hp⟩
      rw [hsplit, nodePairs]
      split
      · rename_i hval
        rw [List.mem_cons]
        simp only [hval, ne_eq, not_false_eq_true, true_and]
      · rename_i hval
        constructor
        · exact Or.inr
        · rintro (⟨hval', _⟩ | hmem)
          · exact absurd hval' hval
          · exact hmem

theorem ofInt_injective {a b : Int}
    (h : Value.number (.ofInt a) = .number (.ofInt b)) : a = b := by
  rw [Value.number.injEq] at h
  unfold LuaNumber.ofInt at h
  rw [LuaNumber.fin.injEq] at h
  exact Rat.intCast_inj.mp h

theorem arrayPairs_nodup {array : Nat -> Value} {positions : List Nat}
    (h : positions.Nodup) :
    ((arrayPairs array positions).map Prod.fst).Nodup := by
  unfold arrayPairs
  rw [List.map_map]
  refine (h.filter _).map ?_
  intro i j hij
  have := ofInt_injective hij
  omega

theorem HashSound.nodePairs_nodup (h : t.HashSound H) (n : Nat) :
    ((nodePairs t.node n).map Prod.fst).Nodup := by
  induction n with
  | zero => exact List.nodup_nil
  | succ n ih =>
      rw [nodePairs]
      split
      · rename_i hval
        rw [List.map_cons, List.nodup_cons]
        refine ⟨?_, ih⟩
        intro hmem
        rcases List.mem_map.mp hmem with ⟨p, hp, hkey⟩
        rcases mem_nodePairs.mp hp with ⟨i, hi, hval', rfl⟩
        rcases h.key_of_val hval with ⟨k, hk⟩
        rcases h.key_of_val hval' with ⟨k', hk'⟩
        simp only [hk, hk', NodeKey.toValue] at hkey
        rw [hkey] at hk'
        have hsame := h.unique i n k hk' hk
        omega
      · exact ih

/-!
# The vanishing slice and the old nodes
-/

/-- What a resize to this array size inserts again. -/
def movedPairs (t : LuaTable) (nasize : Nat) : List (Value × Value) :=
  arrayPairs t.array (List.range' nasize (t.sizearray - nasize)) ++
    nodePairs t.node t.sizenode

section Moved

variable (h : t.HashSound H) {nasize : Nat}

include h

theorem HashSound.mem_movedPairs (hsize : t.sizearray ≤ maxASize)
    {p : Value × Value} (hp : p ∈ t.movedPairs nasize) :
    p.1.IsKey ∧ p.2 ≠ .nil ∧ t.lookup H p.1 = p.2 ∧
      ((nasize < arrayindex H p.1 ∧ t.InArray H p.1) ∨
        ¬t.InArray H p.1) := by
  have hmax := maxASize_lt
  rcases List.mem_append.mp hp with harray | hnode
  · rcases mem_arrayPairs.mp harray with ⟨i, hi, hval, rfl⟩
    rw [List.mem_range'_1] at hi
    have hindex : arrayindex H (.number (.ofInt ((i : Int) + 1))) = i + 1 :=
      arrayindex_ofInt (by omega) (by omega)
    have hin : t.InArray H (.number (.ofInt ((i : Int) + 1))) := by
      unfold InArray
      rw [hindex]
      omega
    refine ⟨isKey_ofInt _, hval, ?_, Or.inl ⟨?_, hin⟩⟩
    · rw [lookup_inArray hin, hindex, Int.add_sub_cancel, Int.toNat_natCast]
    · rw [hindex]
      omega
  · rcases mem_nodePairs.mp hnode with ⟨i, hi, hval, rfl⟩
    rcases h.key_of_val hval with ⟨k, hk⟩
    simp only [hk, NodeKey.toValue]
    exact ⟨h.proper i k hk, hval, h.lookup_node hk, Or.inr (h.apart i k hk)⟩

theorem HashSound.movedPairs_nodup (hsize : t.sizearray ≤ maxASize) :
    ((t.movedPairs nasize).map Prod.fst).Nodup := by
  unfold movedPairs
  rw [List.map_append, List.nodup_append]
  refine ⟨arrayPairs_nodup List.nodup_range', h.nodePairs_nodup _, ?_⟩
  intro k hk k' hk' heq
  rcases List.mem_map.mp hk with ⟨p, hp, rfl⟩
  rcases List.mem_map.mp hk' with ⟨p', hp', rfl⟩
  rcases mem_arrayPairs.mp hp with ⟨i, hi, _, rfl⟩
  rcases mem_nodePairs.mp hp' with ⟨j, _, hval, rfl⟩
  rcases h.key_of_val hval with ⟨x, hx⟩
  simp only [hx, NodeKey.toValue] at heq
  have hmax := maxASize_lt
  rw [List.mem_range'_1] at hi
  refine h.apart j x hx ?_
  unfold InArray
  rw [← heq, arrayindex_ofInt (by omega) (by omega)]
  omega

/-- A key that is not inserted again keeps its place or has no value. -/
theorem HashSound.lookup_of_not_moved {k : Value}
    (hk : k ∉ (t.movedPairs nasize).map Prod.fst) :
    t.lookup H k = if t.InArray H k ∧ arrayindex H k ≤ nasize then
      t.array (arrayindex H k - 1).toNat else .nil := by
  unfold movedPairs at hk
  rw [List.map_append, List.mem_append, not_or] at hk
  by_cases hin : t.InArray H k
  · rw [lookup_inArray hin]
    split
    · rfl
    · rename_i hbig
      by_contra hval
      refine hk.1 (List.mem_map.mpr ⟨_, mem_arrayPairs.mpr
        ⟨(arrayindex H k - 1).toNat, ?_, hval, rfl⟩, ?_⟩)
      · rw [List.mem_range'_1]
        have hhigh := hin.2
        have hlow := hin.1
        have : ¬arrayindex H k ≤ nasize := fun hle => hbig ⟨hin, hle⟩
        omega
      · have hlow := hin.1
        have hback : (((arrayindex H k - 1).toNat : Nat) : Int) + 1 =
            arrayindex H k := by
          omega
        show Value.number (.ofInt _) = k
        rw [hback]
        exact (arrayindex_eq hlow).symm
  · rw [if_neg (fun hboth => hin hboth.1)]
    by_cases hnode : exists i, (t.node i).key = .key k
    · rcases hnode with ⟨i, hi⟩
      rw [h.lookup_node hi]
      by_contra hval
      refine hk.2 (List.mem_map.mpr ⟨_, mem_nodePairs.mpr
        ⟨i, ?_, hval, rfl⟩, ?_⟩)
      · exact h.inside i (by rw [hi]; exact NodeKey.noConfusion)
      · simp only [hi, NodeKey.toValue]
    · exact lookup_none hin fun i hi => hnode ⟨i, hi⟩

end Moved

/-!
# Resize
-/

/-- A table whose node vector is new. -/
structure Fresh (t : LuaTable) : Prop where
  node : forall i, t.node i = {}
  last : t.lastfree ≤ t.sizenode
  free : t.dummy = false -> t.lastfree = t.sizenode
  dummy : t.dummy = true -> t.lsizenode = 0 ∧ t.lastfree = 0

theorem Fresh.sound (h : t.Fresh) : t.Sound H := by
  have hkey : forall i, (t.node i).key = .nil := fun i => by rw [h.node]
  have hnext : forall i, t.next i = none := fun i => by
    unfold next
    rw [h.node]
  have hnone : forall {i k}, (t.node i).key ≠ .key k := by
    intro i k hk
    rw [hkey] at hk
    cases hk
  refine ⟨⟨?_, ?_, ?_, ?_, ?_, ?_, ?_, ?_, ?_, ?_⟩, ?_, h.last, ?_⟩
  · have heq : t.next = fun _ => none := funext hnext
    rw [heq]
    exact Library.linear_none
  · intro i j hij
    rw [hnext] at hij
    cases hij
  · intro i hi
    exact absurd (hkey i) hi
  · intro i _
    refine ⟨by rw [h.node], hnext i, ?_⟩
    intro j hj
    rw [hnext] at hj
    cases hj
  · intro i a hi
    rw [hkey] at hi
    cases hi
  · exact fun i k hk => absurd hk hnone
  · exact fun i j k hk _ => absurd hk hnone
  · exact fun i _ j k hk => absurd hk hnone
  · exact fun i k hk => absurd hk hnone
  · exact fun i k hk => absurd hk hnone
  · intro hdummy i hlast hi
    rw [h.free hdummy] at hlast
    omega
  · intro hdummy
    exact ⟨(h.dummy hdummy).1, (h.dummy hdummy).2, hkey 0⟩

theorem Fresh.clear (h : t.Fresh) : t.Clear H := by
  intro i k hk
  rw [h.node] at hk
  cases hk

theorem Fresh.usedNodes (h : t.Fresh) : t.usedNodes = 0 := by
  unfold LuaTable.usedNodes
  rw [Finset.card_eq_zero, Finset.filter_eq_empty_iff]
  intro i _
  rw [h.node]
  simp

theorem Fresh.lookup (h : t.Fresh) (k : Value) :
    t.lookup H k = if t.InArray H k then
      t.array (arrayindex H k - 1).toNat else .nil := by
  split
  · rename_i hin
    exact lookup_inArray hin
  · rename_i hin
    refine lookup_none hin ?_
    intro i hi
    rw [h.node] at hi
    cases hi

theorem setnodevector_cases (t : LuaTable) (size : Nat) :
    (t.setnodevector size = .error .overflow ∧ 2 ^ maxBits < size) ∨
    exists t', t.setnodevector size = .ok t' ∧ t'.Fresh ∧
      t'.sizearray = t.sizearray ∧ t'.array = t.array ∧
      (t'.dummy = true <-> size = 0) ∧ size ≤ t'.sizenode ∧
      t'.lsizenode ≤ maxBits := by
  unfold setnodevector
  by_cases hzero : size = 0
  · rw [if_pos hzero]
    refine Or.inr ⟨_, rfl, ⟨fun _ => rfl, Nat.zero_le _, ?_, ?_⟩, rfl, rfl, ?_,
      ?_, Nat.zero_le _⟩
    · intro hd
      cases hd
    · exact fun _ => ⟨rfl, rfl⟩
    · simp [hzero]
    · omega
  · rw [if_neg hzero]
    have hpos : 0 < size := Nat.pos_of_ne_zero hzero
    split
    · rename_i hbig
      refine Or.inl ⟨rfl, ?_⟩
      by_contra hle
      have := (ceillog2_le_iff hpos).mpr (Nat.le_of_not_lt hle)
      omega
    · rename_i hsmall
      refine Or.inr ⟨_, rfl, ⟨fun _ => rfl, Nat.le_refl _, fun _ => rfl, ?_⟩,
        rfl, rfl, ?_, le_two_pow_ceillog2 hpos, Nat.le_of_not_lt hsmall⟩
      · intro hd
        cases hd
      · simp [hzero]

/--
If there is no memory for new nodes, the integer keys of the nodes for which the
array part has a place now are lost; every other key keeps its value.
-/
theorem lookup_growarray (t : LuaTable) (nasize : Nat) (key : Value) :
    (t.growarray nasize).lookup H key =
      if (t.growarray nasize).InArray H key ∧ ¬t.InArray H key then .nil
      else t.lookup H key := by
  unfold growarray
  split
  · by_cases hgrown : (t.setarrayvector nasize).InArray H key
    · rw [lookup_inArray hgrown]
      have hlow := hgrown.1
      by_cases hin : t.InArray H key
      · have hhigh := hin.2
        rw [if_neg fun hboth => hboth.2 hin, lookup_inArray hin]
        exact if_pos (by omega)
      · have habove : ¬arrayindex H key ≤ t.sizearray :=
          fun hle => hin ⟨hlow, hle⟩
        rw [if_pos ⟨hgrown, hin⟩]
        exact if_neg (by omega)
    · rw [if_neg fun hboth => hgrown hboth.1]
      by_cases hnil : key = .nil
      · rw [hnil]
        rfl
      · have hin : ¬t.InArray H key := by
          intro hin
          refine hgrown ⟨hin.1, Int.le_trans hin.2 ?_⟩
          exact Int.ofNat_le.mpr (Nat.le_of_lt ‹_›)
        have hsame : luaHGetany H (t.setarrayvector nasize) key =
            luaHGetany H t key := rfl
        unfold lookup
        rw [luaHGet_any hnil hgrown, luaHGet_any hnil hin, hsame]
        unfold luaHGetany
        cases t.findNode (isKey key) (t.mainposition H key) with
        | none => rfl
        | some i => rfl
  · rw [if_neg fun hboth => hboth.2 hboth.1]

structure Resized (H : Hashing) (t : LuaTable) (nasize nhsize : Nat)
    (t' : LuaTable) : Prop where
  sound : t'.Sound H
  sizearray : t'.sizearray = nasize
  dummy : t'.dummy = true <-> nhsize = 0
  sizenode : nhsize ≤ t'.sizenode
  lsizenode : t'.lsizenode ≤ maxBits
  usedNodes : t'.usedNodes ≤ outside H nasize (t.movedPairs nasize)
  lookup : forall k, t'.lookup H k = t.lookup H k
  clear : t'.Clear H

/-- The table whose array part has the new size and whose nodes are new. -/
theorem Fresh.lookup_eq {t' : LuaTable} (hfresh : t'.Fresh)
    (h : t.HashSound H) {k : Value}
    (hbelow : forall i, i < t.sizearray -> i < t'.sizearray ->
      t'.array i = t.array i)
    (habove : forall i, t.sizearray ≤ i -> i < t'.sizearray ->
      t'.array i = .nil)
    (hk : k ∉ (t.movedPairs t'.sizearray).map Prod.fst) :
    t'.lookup H k = t.lookup H k := by
  rw [hfresh.lookup, h.lookup_of_not_moved hk]
  by_cases hin : t'.InArray H k
  · have hlow := hin.1
    have hhigh := hin.2
    rw [if_pos hin]
    by_cases hold : t.InArray H k
    · have hold' := hold.2
      rw [if_pos ⟨hold, hhigh⟩]
      exact hbelow _ (by omega) (by omega)
    · have hlarge : ¬arrayindex H k ≤ t.sizearray :=
        fun hle => hold ⟨hlow, hle⟩
      rw [if_neg (fun hboth => hold hboth.1)]
      exact habove _ (by omega) (by omega)
  · rw [if_neg hin, if_neg (fun hboth => hin ⟨hboth.1.1, hboth.2⟩)]

theorem HashSound.resize_eq (newkey) (h : t.HashSound H)
    (hsize : t.sizearray ≤ maxASize) {nasize nhsize : Nat} {fresh : LuaTable}
    (hvector : (t.growarray nasize).setnodevector nhsize = .ok fresh)
    (hfresh : fresh.Fresh)
    (hsizearray : fresh.sizearray = (t.growarray nasize).sizearray)
    (harray : fresh.array = (t.growarray nasize).array) :
    exists base : LuaTable, base.Fresh ∧ base.sizearray = nasize ∧
      base.dummy = fresh.dummy ∧ base.lsizenode = fresh.lsizenode ∧
      (forall k, k ∉ (t.movedPairs nasize).map Prod.fst ->
        base.lookup H k = t.lookup H k) ∧
      resize H newkey t nasize nhsize =
        LuaTable.insertAll H newkey (t.movedPairs nasize) base := by
  unfold growarray at hsizearray harray
  by_cases hshrink : nasize < t.sizearray
  · rw [if_neg (by omega)] at harray
    have hfresh' : ({ fresh with sizearray := nasize } : LuaTable).Fresh :=
      ⟨hfresh.node, hfresh.last, hfresh.free, hfresh.dummy⟩
    refine ⟨_, hfresh', rfl, rfl, rfl, ?_, ?_⟩
    · intro k hk
      refine hfresh'.lookup_eq h ?_ ?_ hk
      · intro i _ _
        exact congrFun harray i
      · intro i hi hi'
        have hlt : i < nasize := hi'
        omega
    · unfold resize
      simp only [hvector, if_pos hshrink]
      rw [reinsertArray_eq]
      · unfold movedPairs
        rw [insertAll_append]
        cases LuaTable.insertAll H newkey
          (arrayPairs t.array (List.range' nasize (t.sizearray - nasize)))
          { fresh with sizearray := nasize } with
        | error e => rfl
        | ok filled => exact reinsertNodes_eq
      · intro i hi
        rw [List.mem_range'_1] at hi
        omega
  · have hnasize : fresh.sizearray = nasize := by
      rw [hsizearray]
      split
      · rfl
      · omega
    have hmoved : t.movedPairs nasize = nodePairs t.node t.sizenode := by
      unfold movedPairs
      rw [Nat.sub_eq_zero_of_le (by omega)]
      rfl
    refine ⟨fresh, hfresh, hnasize, rfl, rfl, ?_, ?_⟩
    · intro k hk
      rw [← hnasize] at hk
      refine hfresh.lookup_eq h ?_ ?_ hk
      · intro i hi _
        rw [harray]
        split
        · exact if_pos hi
        · rfl
      · intro i hi hi'
        rw [hnasize] at hi'
        rw [harray, if_pos (by omega)]
        exact if_neg (by omega)
    · unfold resize
      simp only [hvector, if_neg hshrink]
      rw [hmoved]
      exact reinsertNodes_eq

theorem HashSound.resize_cases {newkey} (hnewkey : PlacesFirst H newkey)
    (h : t.HashSound H) (hsize : t.sizearray ≤ maxASize) {nasize nhsize : Nat}
    (hroom : outside H nasize (t.movedPairs nasize) ≤ nhsize) :
    (resize H newkey t nasize nhsize = .error .overflow ∧
      2 ^ maxBits < nhsize) ∨
    exists t', resize H newkey t nasize nhsize = .ok t' ∧
      Resized H t nasize nhsize t' := by
  rcases setnodevector_cases (t.growarray nasize) nhsize with
    ⟨hover, hbig⟩ | ⟨fresh, hvector, hfresh, hsizearray, harray, hdummy,
      hsizenode, hbits⟩
  · left
    refine ⟨?_, hbig⟩
    unfold resize
    simp only [hover]
  · right
    rcases h.resize_eq newkey hsize hvector hfresh hsizearray harray with
      ⟨base, hbfresh, hbsize, hbdummy, hblsize, hblookup, heq⟩
    rw [heq]
    have hbsizenode : base.sizenode = fresh.sizenode := by
      unfold LuaTable.sizenode
      rw [hblsize]
    have hused := hbfresh.usedNodes
    have hbroom : base.usedNodes + outside H base.sizearray
        (t.movedPairs nasize) ≤ base.sizenode := by
      rw [hused, hbsize, hbsizenode]
      omega
    have hbempty : base.dummy = true ->
        outside H base.sizearray (t.movedPairs nasize) = 0 := by
      intro hd
      rw [hbdummy] at hd
      have hzero := hdummy.mp hd
      rw [hbsize]
      omega
    rcases hbfresh.sound.insertAll hnewkey
      (fun p hp => (h.mem_movedPairs hsize hp).1) (h.movedPairs_nodup hsize)
      hbroom hbempty with ⟨t', hall, hins⟩
    refine ⟨t', hall, hins.sound, hins.sizes.sizearray.trans hbsize, ?_, ?_, ?_,
      ?_, ?_, hins.clear hbfresh.clear⟩
    · rw [hins.sizes.dummy, hbdummy]
      exact hdummy
    · rw [hins.sizes.sizenode, hbsizenode]
      exact hsizenode
    · rw [hins.sizes.lsizenode, hblsize]
      exact hbits
    · have hle := hins.usedNodes
      rw [hused, hbsize] at hle
      omega
    · intro k
      by_cases hk : k ∈ (t.movedPairs nasize).map Prod.fst
      · rcases List.mem_map.mp hk with ⟨p, hp, rfl⟩
        rw [hins.mem p hp]
        exact (h.mem_movedPairs hsize hp).2.2.1.symm
      · rw [hins.other k hk]
        exact hblookup k hk

end LuaTable

end LuaServer
