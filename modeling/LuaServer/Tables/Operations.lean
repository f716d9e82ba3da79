import LuaServer.Tables.Counting

/-!
# Operations

A new key in a table that is full leads to one rehash, after which there is room
for it.
-/

namespace LuaServer

namespace LuaTable

variable {H : Hashing} {t : LuaTable}

/-!
# The integer keys of a rehash
-/

/-- The integer keys that a rehash counts, with the key to be inserted. -/
def candidates (H : Hashing) (t : LuaTable) (ek : Value) : List Int :=
  t.arrayKeys ++ (pairKeys H (nodePairs t.node t.sizenode) ++
    [arrayindex H ek])

/-- How many integers from 1 to `n` have a value or are the new key. -/
def integerKeys (H : Hashing) (t : LuaTable) (ek : Value) (n : Nat) : Nat :=
  (List.range' 1 n).countP fun p =>
    decide (t.lookup H (.number (.ofInt (p : Nat))) ≠ .nil ∨
      ek = .number (.ofInt (p : Nat)))

section Candidates

variable (h : t.HashSound H)

include h

theorem HashSound.mem_pairKeys {k : Int} (hpos : 0 < k) :
    k ∈ pairKeys H (nodePairs t.node t.sizenode) <->
      exists i, (t.node i).key = .key (.number (.ofInt k)) ∧
        arrayindex H (.number (.ofInt k)) = k ∧ (t.node i).val ≠ .nil := by
  unfold pairKeys
  rw [List.mem_map]
  constructor
  · rintro ⟨p, hp, hk⟩
    rcases mem_nodePairs.mp hp with ⟨i, _, hval, rfl⟩
    rcases h.key_of_val hval with ⟨x, hx⟩
    simp only [hx, NodeKey.toValue] at hk
    have hindex : 1 ≤ arrayindex H x := by omega
    have heq := arrayindex_eq hindex
    rw [hk] at heq
    rw [heq] at hx hk
    exact ⟨i, hx, hk, hval⟩
  · rintro ⟨i, hkey, hindex, hval⟩
    refine ⟨_, mem_nodePairs.mpr ⟨i, ?_, hval, rfl⟩, ?_⟩
    · exact h.inside i (by rw [hkey]; exact NodeKey.noConfusion)
    · simp only [hkey, NodeKey.toValue]
      exact hindex

theorem HashSound.mem_candidates {ek : Value} {p : Nat} (hlow : 1 ≤ p)
    (hhigh : p ≤ maxASize) : (p : Int) ∈ t.candidates H ek <->
      t.lookup H (.number (.ofInt p)) ≠ .nil ∨
        ek = .number (.ofInt p) := by
  have hmax := maxASize_lt
  have hindex : arrayindex H (.number (.ofInt p)) = p :=
    arrayindex_ofInt (by omega) (by omega)
  have hextra : (p : Int) = arrayindex H ek <-> ek = .number (.ofInt p) := by
    constructor
    · intro heq
      rw [heq]
      exact arrayindex_eq (by omega)
    · rintro rfl
      exact hindex.symm
  have hstored : ((p : Int) ∈ t.arrayKeys ∨
      (p : Int) ∈ pairKeys H (nodePairs t.node t.sizenode)) <->
        t.lookup H (.number (.ofInt p)) ≠ .nil := by
    rw [mem_arrayKeys, h.mem_pairKeys (by omega)]
    by_cases hin : t.InArray H (.number (.ofInt p))
    · have hle := hin.2
      rw [hindex] at hle
      rw [lookup_inArray hin, hindex]
      constructor
      · rintro (⟨_, _, hval⟩ | ⟨i, hkey, _⟩)
        · exact hval
        · exact absurd hin (h.apart i _ hkey)
      · exact fun hval => Or.inl ⟨by omega, hle, hval⟩
    · have hlarge : ¬(p : Int) ≤ t.sizearray := by
        intro hle
        refine hin ⟨?_, ?_⟩
        · omega
        · omega
      constructor
      · rintro (⟨_, hle, _⟩ | ⟨i, hkey, _, hval⟩)
        · exact absurd hle hlarge
        · rw [h.lookup_node hkey]
          exact hval
      · intro hval
        right
        by_contra hnone
        refine hval (lookup_none hin ?_)
        intro i hi
        refine hnone ⟨i, hi, hindex, ?_⟩
        rw [← h.lookup_node hi]
        exact hval
  unfold candidates
  rw [List.mem_append, List.mem_append, List.mem_singleton, ← or_assoc, hstored,
    hextra]

theorem HashSound.candidates_nodup {ek : Value} (habsent : t.Absent H ek) :
    ((t.candidates H ek).filter fun k : Int => decide (0 < k)).Nodup := by
  have hnodes : forall n, ((pairKeys H (nodePairs t.node n)).filter
      fun k : Int => decide (0 < k)).Nodup := by
    intro n
    induction n with
    | zero => exact List.nodup_nil
    | succ n ih =>
        rw [nodePairs]
        split
        · rename_i hval
          rcases h.key_of_val hval with ⟨x, hx⟩
          show ((arrayindex H (t.node n).key.toValue ::
            pairKeys H (nodePairs t.node n)).filter _).Nodup
          rw [List.filter_cons]
          split
          · rename_i hpos
            rw [decide_eq_true_eq] at hpos
            rw [List.nodup_cons]
            refine ⟨?_, ih⟩
            intro hmem
            rcases List.mem_map.mp (List.mem_filter.mp hmem).1 with
              ⟨p, hp, hindex⟩
            rcases mem_nodePairs.mp hp with ⟨i, hi, hval', rfl⟩
            rcases h.key_of_val hval' with ⟨y, hy⟩
            simp only [hx, hy, NodeKey.toValue] at hindex hpos
            have hxy : y = x := by
              rw [@arrayindex_eq H x (by omega), @arrayindex_eq H y (by omega),
                hindex]
            rw [hxy] at hy
            have hsame := h.unique i n x hy hx
            omega
          · exact ih
        · exact ih
  unfold candidates
  rw [List.filter_append, List.filter_append, List.nodup_append,
    List.nodup_append]
  refine ⟨?_, ⟨hnodes _, ?_, ?_⟩, ?_⟩
  · refine List.Nodup.filter _ (List.Nodup.map ?_ (List.Nodup.filter _ List.nodup_range'))
    exact fun _ _ heq => Int.ofNat.inj heq
  · exact List.Nodup.filter _ (List.nodup_singleton _)
  · intro k hk k' hk' heq
    rw [List.mem_filter, decide_eq_true_eq] at hk
    rw [List.mem_filter, List.mem_singleton, ← heq] at hk'
    rcases (h.mem_pairKeys hk.2).mp hk.1 with ⟨i, hkey, _⟩
    refine habsent.noNode i ?_
    rw [hkey, hk'.1]
    congr 1
    exact (arrayindex_eq (by omega)).symm
  · intro k hk k' hk' heq
    rw [List.mem_filter, mem_arrayKeys] at hk
    rw [← heq, List.mem_append, List.mem_filter, List.mem_filter,
      List.mem_singleton, decide_eq_true_eq] at hk'
    rcases hk' with ⟨hk', hpos⟩ | ⟨hk', hpos⟩
    · rcases (h.mem_pairKeys hpos).mp hk' with ⟨i, hkey, hindex, _⟩
      refine h.apart i _ hkey ⟨?_, ?_⟩
      · omega
      · omega
    · refine habsent.notInArray ⟨?_, ?_⟩
      · omega
      · omega

theorem HashSound.keysUpTo_candidates {ek : Value} (habsent : t.Absent H ek)
    {n : Nat} (hn : n ≤ maxASize) :
    keysUpTo (t.candidates H ek) n = t.integerKeys H ek n := by
  have hperm : ((t.candidates H ek).filter
      fun k : Int => decide (0 < k ∧ k ≤ (n : Int))).Perm
        (((List.range' 1 n).filter fun p => decide
          (t.lookup H (.number (.ofInt (p : Nat))) ≠ .nil ∨
            ek = .number (.ofInt (p : Nat)))).map fun p : Nat => (p : Int)) := by
    apply (List.perm_ext_iff_of_nodup ?_ ?_).mpr
    · intro k
      rw [List.mem_filter, decide_eq_true_eq, List.mem_map]
      constructor
      · rintro ⟨hk, hlow, hhigh⟩
        have hback : ((k.toNat : Nat) : Int) = k := by omega
        refine ⟨k.toNat, ?_, hback⟩
        rw [List.mem_filter, List.mem_range'_1, decide_eq_true_eq]
        rw [← hback] at hk
        exact ⟨by omega, (h.mem_candidates (by omega) (by omega)).mp hk⟩
      · rintro ⟨p, hp, rfl⟩
        rw [List.mem_filter, List.mem_range'_1, decide_eq_true_eq] at hp
        refine ⟨?_, by omega, by omega⟩
        exact (h.mem_candidates (by omega) (by omega)).mpr hp.2
    · have hnodup := h.candidates_nodup habsent
      have heq : ((t.candidates H ek).filter
          fun k : Int => decide (0 < k ∧ k ≤ (n : Int))) =
            ((t.candidates H ek).filter fun k : Int => decide (0 < k)).filter
              fun k : Int => decide (k ≤ n) := by
        rw [List.filter_filter]
        apply List.filter_congr
        intro k _
        simp [Bool.and_comm]
      rw [heq]
      exact hnodup.filter _
    · exact List.Nodup.map (fun _ _ heq => Int.ofNat.inj heq)
        (List.Nodup.filter _ List.nodup_range')
  unfold keysUpTo integerKeys
  rw [List.countP_eq_length_filter, hperm.length_eq, List.length_map,
    ← List.countP_eq_length_filter]

end Candidates

/-!
# Rehash
-/

/-- The size that a rehash chooses, with room for all other entries. -/
structure Rehashed (H : Hashing) (t : LuaTable) (ek : Value)
    (t' : LuaTable) : Prop where
  sound : t'.Sound H
  lookup : forall k, t'.lookup H k = t.lookup H k
  lsizenode : t'.lsizenode ≤ maxBits
  sizearray : t'.sizearray ≤ maxASize
  best : BestSize (t.integerKeys H ek) t'.sizearray
  room : t'.usedNodes + nodesNeeded H t'.sizearray ek ≤ t'.sizenode
  dummy : t'.dummy = true -> t'.InArray H ek
  clear : t'.Clear H

theorem keysUpTo_candidates_eq (ek : Value) (n : Nat) :
    keysUpTo (t.candidates H ek) n = keysUpTo t.arrayKeys n +
      (keysUpTo (pairKeys H (nodePairs t.node t.sizenode)) n +
        keysUpTo [arrayindex H ek] n) := by
  unfold candidates
  rw [keysUpTo_append, keysUpTo_append]

/-- The node vector of a rehash has room for all that the array leaves over. -/
theorem outside_movedPairs (ek : Value) (n : Nat) :
    outside H n (t.movedPairs n) + nodesNeeded H n ek +
      keysUpTo (t.candidates H ek) n ≤
        t.arrayKeys.length + (nodePairs t.node t.sizenode).length + 1 := by
  have hone : nodesNeeded H n ek + keysUpTo [arrayindex H ek] n = 1 := by
    have hsum := outside_add_keysUpTo (H := H) n [(ek, Value.nil)]
    rw [outside_cons, keysUpTo_pairKeys] at hsum
    simp only [outside, pairKeys, keysUpTo, List.countP_nil, List.map_nil,
      List.length_singleton] at hsum ⊢
    omega
  have hnodes := outside_add_keysUpTo (H := H) n
    (nodePairs t.node t.sizenode)
  have hslice := length_arrayPairs (t := t) n
  have hle : outside H n
      (arrayPairs t.array (List.range' n (t.sizearray - n))) ≤ _ :=
    List.countP_le_length
  have hsplit : outside H n (t.movedPairs n) = outside H n
      (arrayPairs t.array (List.range' n (t.sizearray - n))) +
        outside H n (nodePairs t.node t.sizenode) := List.countP_append
  rw [keysUpTo_candidates_eq, hsplit]
  omega

theorem rehash_eq (newkey) (hsize : t.sizearray ≤ maxASize) (ek : Value) :
    exists nums : Nat -> Nat,
      (forall j, j ≤ maxBits ->
        nums j = keysInSlice (t.candidates H ek) j) ∧
      rehash H newkey t ek = resize H newkey t
        (computesizes nums (keysUpTo (t.candidates H ek) maxASize)).1
        (t.arrayKeys.length + (nodePairs t.node t.sizenode).length + 1 -
          (computesizes nums (keysUpTo (t.candidates H ek) maxASize)).2) := by
  simp only [rehash, numusehash]
  rcases numusearray_spec hsize (fun _ => 0) with ⟨hanums, hause⟩
  generalize t.numusearray (fun _ => 0) = array at *
  rcases numusehashLoop_spec (H := H) (t := t) t.sizenode 0 0 array.1 with
    ⟨hhnums, hhuse, htotal⟩
  generalize numusehashLoop H t t.sizenode array.1 0 0 = hash at *
  rcases countint_spec (H := H) ek hash.1 with ⟨henums, heuse⟩
  generalize countint H ek hash.1 = extra at *
  have hall : keysUpTo t.arrayKeys maxASize = t.arrayKeys.length := by
    rw [length_arrayKeys hsize, keysUpTo_arrayKeys]
  have hnarray : array.2 + hash.2.1 + extra.2 =
      keysUpTo (t.candidates H ek) maxASize := by
    rw [keysUpTo_candidates_eq, hall, hause, hhuse, heuse]
    omega
  refine ⟨extra.1, ?_, ?_⟩
  · intro j hj
    unfold candidates
    rw [keysInSlice_append, keysInSlice_append, henums, hhnums, hanums j hj]
    omega
  · rw [hnarray, hause, htotal, Nat.zero_add]

theorem HashSound.rehash_cases {newkey} (hnewkey : PlacesFirst H newkey)
    (h : t.HashSound H) (hsize : t.sizearray ≤ maxASize) {ek : Value}
    (habsent : t.Absent H ek) :
    (rehash H newkey t ek = .error .overflow ∧ 2 ^ maxBits ≤
      t.arrayKeys.length + (nodePairs t.node t.sizenode).length) ∨
    exists t', rehash H newkey t ek = .ok t' ∧ Rehashed H t ek t' := by
  rcases rehash_eq (H := H) newkey hsize ek with
    ⟨nums, hnums, heq⟩
  rw [heq]
  have hslice : forall j, j ≤ maxBits ->
      keysUpTo (t.candidates H ek) (2 ^ j) = nums j +
        (if j = 0 then 0 else keysUpTo (t.candidates H ek) (2 ^ (j - 1))) := by
    intro j hj
    rw [hnums j hj]
    exact keysUpTo_slice _ hj
  rcases computesizes_spec (keysUpTo_zero _)
    (keysUpTo_le (h.candidates_nodup habsent))
    (fun j hj => keysUpTo_mono _ (Nat.pow_le_pow_right (by decide) hj)) hslice
    with ⟨hbest, hna⟩
  have hfit := outside_movedPairs (H := H) (t := t) ek
    (computesizes nums (keysUpTo (t.candidates H ek) (2 ^ maxBits))).1
  rw [show maxASize = 2 ^ maxBits from rfl]
  generalize computesizes nums (keysUpTo (t.candidates H ek) (2 ^ maxBits)) =
    sizes at *
  have hroom : outside H sizes.1 (t.movedPairs sizes.1) ≤ t.arrayKeys.length +
      (nodePairs t.node t.sizenode).length + 1 - sizes.2 := by
    omega
  rcases h.resize_cases hnewkey hsize hroom with ⟨hover, hbig⟩ |
    ⟨t', hok, hresized⟩
  · exact Or.inl ⟨hover, by omega⟩
  · refine Or.inr ⟨t', hok, hresized.sound, hresized.lookup,
      hresized.lsizenode, ?_, ?_, ?_, ?_, hresized.clear⟩
    · rw [hresized.sizearray]
      exact hbest.le_maxASize
    · rw [hresized.sizearray]
      exact hbest.congr fun m hm => h.keysUpTo_candidates habsent hm
    · have hused := hresized.usedNodes
      have hnodes := hresized.sizenode
      rw [hresized.sizearray]
      omega
    · intro hd
      have hnone := hresized.dummy.mp hd
      by_contra hout
      have hneed : nodesNeeded H sizes.1 ek = 1 := by
        rw [← hresized.sizearray]
        exact if_neg hout
      omega

/-!
# Setting a key
-/

/-- What holds of a table after every operation. -/
structure Valid (H : Hashing) (t : LuaTable) : Prop where
  sound : t.Sound H
  sizearray : t.sizearray ≤ maxASize
  lsizenode : t.lsizenode ≤ maxBits

/-- The table holds as many values as a node vector can have nodes. -/
def Crowded (H : Hashing) (t : LuaTable) : Prop :=
  exists keys : List Value, keys.Nodup ∧ 2 ^ maxBits ≤ keys.length ∧
    forall k, k ∈ keys -> t.lookup H k ≠ .nil

theorem HashSound.crowded (h : t.HashSound H) (hsize : t.sizearray ≤ maxASize)
    (hmany : 2 ^ maxBits ≤
      t.arrayKeys.length + (nodePairs t.node t.sizenode).length) :
    t.Crowded H := by
  refine ⟨(t.movedPairs 0).map Prod.fst, h.movedPairs_nodup hsize, ?_, ?_⟩
  · have hslice := length_arrayPairs (t := t) 0
    rw [keysUpTo_zero] at hslice
    unfold movedPairs
    rw [List.length_map, List.length_append]
    omega
  · intro k hk
    rcases List.mem_map.mp hk with ⟨p, hp, rfl⟩
    rcases h.mem_movedPairs hsize hp with ⟨_, hval, hlookup, _⟩
    rw [hlookup]
    exact hval

/-- How the sizes of the two parts change when a key is set. -/
inductive Sizing (H : Hashing) (t : LuaTable) (key : Value)
    (t' : LuaTable) : Prop where
  | same (h : SameSizes t t')
  | rehashed
      (full : t.dummy = false ->
        forall i, i < t.sizenode -> (t.node i).key ≠ .nil)
      (best : BestSize (t.integerKeys H key) t'.sizearray)

theorem lookup_withLastfree (n : Nat) (key : Value) :
    ({ t with lastfree := n } : LuaTable).lookup H key = t.lookup H key := by
  have hget : ({ t with lastfree := n } : LuaTable).luaHGet H key =
      t.luaHGet H key := by
    cases key with
    | nil | boolean | lightuserdata | number | string | table | cfunction
    | closure | userdata | thread => rfl
  unfold lookup
  rw [hget]
  cases t.luaHGet H key with
  | none => rfl
  | some slot =>
      cases slot with
      | array i => rfl
      | node i => rfl

theorem integerKeys_withLastfree (n : Nat) (ek : Value) :
    ({ t with lastfree := n } : LuaTable).integerKeys H ek =
      t.integerKeys H ek := by
  unfold integerKeys
  simp only [lookup_withLastfree]

theorem Valid.newkey_cases (h : t.Valid H) {key : Value}
    (habsent : t.Absent H key) (depth : Nat) :
    (newkey H (depth + 1) t key = .error .overflow ∧ t.Crowded H) ∨
    exists t' slot, newkey H (depth + 1) t key = .ok (t', slot) ∧
      t'.Valid H ∧ Assigns H t key t' slot ∧ Sizing H t key t' := by
  rcases h.sound.place_cases habsent with ⟨t', i, hplace, hp, hsound⟩ |
    ⟨hplace, hfull⟩
  · right
    refine ⟨t', .node i, newkey_placesFirst _ t key t' i hplace,
      ⟨hsound, ?_, ?_⟩,
      ⟨hsound, hp.sound.luaHGet_node hp.key, hp.lookup h.sound.hash, hp.clear⟩,
      .same ⟨hp.shape.sizearray, hp.shape.dummy, hp.shape.lsizenode⟩⟩
    · rw [hp.shape.sizearray]
      exact h.sizearray
    · rw [hp.shape.lsizenode]
      exact h.lsizenode
  · have hu := h.sound.hash.withLastfree 0
    rcases hu.rehash_cases (newkey_placesFirst depth) h.sizearray
      (habsent.withLastfree 0) with ⟨hover, hmany⟩ | ⟨t1, hok, hre⟩
    · left
      refine ⟨?_, h.sound.hash.crowded h.sizearray hmany⟩
      unfold newkey
      simp only [hplace, hover]
    · right
      rcases hre.sound.luaHSetWith_room (newkey_placesFirst depth)
        habsent.isKey hre.dummy hre.room with
        ⟨t', slot, hset, hassign, hsizes, _⟩
      have hlookup : forall k, t'.lookup H k = t.lookup H k := by
        intro k
        rw [hassign.lookup, hre.lookup, lookup_withLastfree]
      refine ⟨t', slot, ?_, ⟨hassign.sound, ?_, ?_⟩,
        ⟨hassign.sound, hassign.slot, hlookup, fun _ => hassign.clear hre.clear⟩,
        .rehashed hfull ?_⟩
      · unfold newkey
        simp only [hplace, hok]
        exact hset
      · rw [hsizes.sizearray]
        exact hre.sizearray
      · rw [hsizes.lsizenode]
        exact hre.lsizenode
      · have hbest := hre.best
        rw [integerKeys_withLastfree] at hbest
        rw [hsizes.sizearray]
        exact hbest

/--
Setting a proper key never crashes and never rehashes twice: it fails only on a
table that holds too many values.
-/
theorem Valid.luaHSet_cases (h : t.Valid H) {key : Value}
    (hkey : key.IsKey) :
    (luaHSet H t key = .error .overflow ∧ t.Crowded H) ∨
    exists t' slot, luaHSet H t key = .ok (t', slot) ∧ t'.Valid H ∧
      Assigns H t key t' slot ∧ Sizing H t key t' := by
  unfold luaHSet
  cases hget : t.luaHGet H key with
  | some slot =>
      rw [luaHSetWith_some hget]
      exact Or.inr ⟨t, slot, rfl, h, ⟨h.sound, hget, fun _ => rfl, id⟩,
        .same ⟨rfl, rfl, rfl⟩⟩
  | none =>
      rw [luaHSetWith_none hkey hget]
      exact h.newkey_cases (Absent.of_luaHGet h.sound.hash hkey hget) 0

theorem luaHSet_nil : luaHSet H t .nil = .error .indexNil := rfl

theorem luaHGet_nan : t.luaHGet H (.number .nan) = none := by
  have hint : ¬(LuaNumber.ofInt (number2int H .nan)).numEq .nan = true :=
    fun h => (LuaNumber.numEq_iff.mp h).2 (LuaNumber.numEq_iff.mp h).1
  simp only [luaHGet, if_neg hint]
  unfold luaHGetany
  cases hfind : t.findNode (isKey (.number .nan))
    (t.mainposition H (.number .nan)) with
  | none => rfl
  | some j =>
      have htest := (Library.chainFind_sound hfind).2
      cases hnode : (t.node j).key with
      | nil | dead =>
          rw [hnode] at htest
          cases htest
      | key k =>
          rw [hnode] at htest
          exact absurd (Value.rawEqual_iff.mp htest).2 (by decide)

theorem luaHSet_nan : luaHSet H t (.number .nan) = .error .indexNaN := by
  unfold luaHSet luaHSetWith
  rw [luaHGet_nan]

theorem luaHSetnum_eq {k : Int} (hlow : -2147483648 ≤ k)
    (hhigh : k ≤ 2147483647) :
    luaHSetnum H t k = luaHSet H t (.number (.ofInt k)) :=
  luaHSetnumWith_eq hlow hhigh

theorem luaHSetstr_eq (s : LuaString) :
    luaHSetstr H t s = luaHSet H t (.string s) := rfl

end LuaTable

end LuaServer
