import LuaServer.Tables.Resize

/-!
# Counting keys

The counts that a rehash takes are those of the integer keys with a value, so
the array part gets its best size and the node vector has room for the rest.
-/

namespace LuaServer

namespace LuaTable

variable {H : Hashing} {t : LuaTable}

/-!
# Positions of the array in use
-/

def usedIn (t : LuaTable) (a b : Nat) : Nat :=
  (List.range' 1 t.sizearray).countP fun p =>
    decide (t.array (p - 1) ≠ .nil ∧ a < p ∧ p ≤ b)

theorem countP_range'_eq_zero {test : Nat -> Bool} {a n : Nat}
    (h : forall p, a ≤ p -> p < a + n -> test p = false) :
    (List.range' a n).countP test = 0 := by
  rw [List.countP_eq_zero]
  intro p hp
  rw [List.mem_range'_1] at hp
  rw [h p hp.1 hp.2]
  exact Bool.false_ne_true

theorem countP_range'_congr {test test' : Nat -> Bool} {a n : Nat}
    (h : forall p, a ≤ p -> p < a + n -> test p = test' p) :
    (List.range' a n).countP test = (List.range' a n).countP test' := by
  apply List.countP_congr
  intro p hp
  rw [List.mem_range'_1] at hp
  rw [h p hp.1 hp.2]

theorem usedIn_eq (a b : Nat) :
    t.usedIn a b =
      t.countSlice (min a t.sizearray + 1) (min b t.sizearray) := by
  unfold usedIn countSlice
  generalize t.sizearray = size
  by_cases hab : min a size ≤ min b size
  · have hsplit : List.range' 1 size = List.range' 1 (min a size) ++
        (List.range' (min a size + 1) (min b size + 1 - (min a size + 1)) ++
          List.range' (min b size + 1) (size - min b size)) := by
      have hmiddle : min b size + 1 =
          (min a size + 1) + 1 * (min b size + 1 - (min a size + 1)) := by
        omega
      have hright := @List.range'_append (min a size + 1)
        (min b size + 1 - (min a size + 1)) (size - min b size) 1
      rw [← hmiddle] at hright
      have hleft := @List.range'_append 1 (min a size)
        (min b size + 1 - (min a size + 1) + (size - min b size)) 1
      rw [Nat.one_mul, Nat.add_comm 1] at hleft
      rw [hright, hleft]
      congr 1
      omega
    rw [hsplit, List.countP_append, List.countP_append,
      countP_range'_eq_zero (a := 1), Nat.zero_add,
      countP_range'_eq_zero (a := min b size + 1), Nat.add_zero]
    · apply countP_range'_congr
      intro p hlow hhigh
      have hrange : (a < p ∧ p ≤ b) := by omega
      simp only [hrange, and_true]
    · intro p hlow hhigh
      rw [decide_eq_false_iff_not]
      omega
    · intro p hlow hhigh
      rw [decide_eq_false_iff_not]
      omega
  · rw [countP_range'_eq_zero, show min b size + 1 - (min a size + 1) = 0 by
      omega]
    · rfl
    · intro p hlow hhigh
      rw [decide_eq_false_iff_not]
      omega

theorem usedIn_add {a b c : Nat} (hab : a ≤ b) (hbc : b ≤ c) :
    t.usedIn a b + t.usedIn b c = t.usedIn a c := by
  unfold usedIn
  generalize List.range' 1 t.sizearray = positions
  induction positions with
  | nil => rfl
  | cons p rest ih =>
      simp only [List.countP_cons, decide_eq_true_eq] at ih ⊢
      rw [← ih]
      by_cases hval : t.array (p - 1) ≠ .nil
      · simp only [hval, ne_eq, not_false_eq_true, true_and]
        split
        · rw [if_neg (by omega), if_pos (by omega)]
          omega
        · split
          · rw [if_pos (by omega)]
            omega
          · rw [if_neg (by omega)]
            omega
      · simp only [hval, false_and, if_false]
        omega

theorem usedIn_above {a b : Nat} (h : t.sizearray ≤ a) : t.usedIn a b = 0 := by
  apply countP_range'_eq_zero
  intro p hlow hhigh
  rw [decide_eq_false_iff_not]
  omega

theorem numusearrayLoop_spec (fuel lg i ause : Nat) (nums : Nat -> Nat)
    (hfuel : fuel + lg = maxBits + 1)
    (hi : i = min (2 ^ lg / 2) t.sizearray + 1) :
    (forall j, (numusearrayLoop t fuel lg (2 ^ lg) i nums ause).1 j =
      nums j + if lg ≤ j ∧ j ≤ maxBits then t.usedIn (2 ^ j / 2) (2 ^ j)
        else 0) ∧
    (numusearrayLoop t fuel lg (2 ^ lg) i nums ause).2 =
      ause + t.usedIn (2 ^ lg / 2) (2 ^ maxBits) := by
  induction fuel generalizing lg i nums ause with
  | zero =>
      constructor
      · intro j
        rw [numusearrayLoop, if_neg (by omega)]
        rfl
      · have hpow : 2 ^ maxBits ≤ 2 ^ lg / 2 := by
          rw [show lg = maxBits + 1 by omega, Nat.pow_succ]
          omega
        have hzero : t.usedIn (2 ^ lg / 2) (2 ^ maxBits) = 0 := by
          unfold usedIn
          apply countP_range'_eq_zero
          intro p _ _
          rw [decide_eq_false_iff_not]
          omega
        rw [numusearrayLoop, hzero]
        rfl
  | succ fuel ih =>
      have hle : lg ≤ maxBits := by omega
      have hhalf : 2 ^ lg / 2 ≤ 2 ^ lg := Nat.div_le_self _ _
      have hpow : 2 ^ lg ≤ 2 ^ maxBits := Nat.pow_le_pow_right (by decide) hle
      rw [numusearrayLoop]
      split
      · rename_i hbreak
        have hall : t.sizearray ≤ 2 ^ lg / 2 := by omega
        constructor
        · intro j
          split
          · rename_i hj
            have hlgj : 2 ^ lg / 2 ≤ 2 ^ j / 2 :=
              Nat.div_le_div_right (Nat.pow_le_pow_right (by decide) hj.1)
            rw [usedIn_above (Nat.le_trans hall hlgj)]
            rfl
          · rfl
        · rw [usedIn_above hall]
          rfl
      · have hdouble : 2 ^ lg * 2 = 2 ^ (lg + 1) := (Nat.pow_succ 2 lg).symm
        have hback : 2 ^ (lg + 1) / 2 = 2 ^ lg := by omega
        have hcount : t.countSlice i (min (2 ^ lg) t.sizearray) =
            t.usedIn (2 ^ lg / 2) (2 ^ lg) := by
          rw [usedIn_eq, hi]
        simp only [hcount, hdouble]
        rcases ih (lg + 1) (max i (min (2 ^ lg) t.sizearray + 1))
          (ause + t.usedIn (2 ^ lg / 2) (2 ^ lg))
          (addAt nums lg (t.usedIn (2 ^ lg / 2) (2 ^ lg))) (by omega)
          (by rw [hback]; omega) with ⟨hnums, hause⟩
        constructor
        · intro j
          rw [hnums j]
          unfold addAt
          by_cases hj : j = lg
          · rw [if_pos hj, if_neg (by omega), if_pos (by omega), hj]
            rfl
          · rw [if_neg hj]
            congr 1
            by_cases hlater : lg ≤ j ∧ j ≤ maxBits
            · rw [if_pos hlater, if_pos (by omega)]
            · rw [if_neg hlater, if_neg (by omega)]
        · rw [hause, hback, Nat.add_assoc, usedIn_add hhalf hpow]

def arrayKeys (t : LuaTable) : List Int :=
  ((List.range' 1 t.sizearray).filter fun p => t.array (p - 1) ≠ .nil).map
    fun p : Nat => (p : Int)

theorem mem_arrayKeys {k : Int} : k ∈ t.arrayKeys <->
    1 ≤ k ∧ k ≤ t.sizearray ∧ t.array (k - 1).toNat ≠ .nil := by
  unfold arrayKeys
  simp only [List.mem_map, List.mem_filter, List.mem_range'_1,
    decide_eq_true_eq]
  constructor
  · rintro ⟨p, ⟨hp, hval⟩, rfl⟩
    refine ⟨by omega, by omega, ?_⟩
    rw [show ((p : Int) - 1).toNat = p - 1 by omega]
    exact hval
  · rintro ⟨hlow, hhigh, hval⟩
    refine ⟨k.toNat, ⟨by omega, ?_⟩, by omega⟩
    rw [show k.toNat - 1 = (k - 1).toNat by omega]
    exact hval

theorem keysUpTo_arrayKeys (n : Nat) :
    keysUpTo t.arrayKeys n = t.usedIn 0 n := by
  unfold keysUpTo arrayKeys usedIn
  rw [List.countP_map, List.countP_filter]
  apply countP_range'_congr
  intro p _ _
  simp only [Function.comp_apply, ← Bool.decide_and]
  apply decide_eq_decide.mpr
  constructor
  · rintro ⟨⟨hlow, hhigh⟩, hval⟩
    exact ⟨hval, by omega, by omega⟩
  · rintro ⟨hval, hlow, hhigh⟩
    exact ⟨⟨by omega, by omega⟩, hval⟩

theorem length_arrayKeys {n : Nat} (h : t.sizearray ≤ n) :
    t.arrayKeys.length = t.usedIn 0 n := by
  rw [← keysUpTo_arrayKeys]
  unfold keysUpTo
  symm
  rw [List.countP_eq_length]
  intro k hk
  rcases mem_arrayKeys.mp hk with ⟨hlow, hhigh, _⟩
  rw [decide_eq_true_eq]
  omega

theorem keysInSlice_arrayKeys {j : Nat} (hj : j ≤ maxBits) :
    keysInSlice t.arrayKeys j = t.usedIn (2 ^ j / 2) (2 ^ j) := by
  have hslice := keysUpTo_slice t.arrayKeys hj
  have hadd := usedIn_add (t := t) (Nat.zero_le (2 ^ j / 2))
    (Nat.div_le_self (2 ^ j) 2)
  rw [keysUpTo_arrayKeys] at hslice
  cases j with
  | zero =>
      have hzero : t.usedIn 0 (2 ^ 0 / 2) = 0 := by
        apply countP_range'_eq_zero
        intro p _ _
        rw [decide_eq_false_iff_not]
        omega
      rw [if_pos rfl] at hslice
      omega
  | succ i =>
      have hhalf : 2 ^ (i + 1) / 2 = 2 ^ i := by
        rw [Nat.pow_succ]
        omega
      rw [if_neg (Nat.succ_ne_zero i), Nat.add_sub_cancel, keysUpTo_arrayKeys]
        at hslice
      rw [hhalf] at hadd ⊢
      omega

theorem numusearray_spec (hsize : t.sizearray ≤ maxASize)
    (nums : Nat -> Nat) :
    (forall j, j ≤ maxBits ->
      (t.numusearray nums).1 j = nums j + keysInSlice t.arrayKeys j) ∧
    (t.numusearray nums).2 = t.arrayKeys.length := by
  rcases numusearrayLoop_spec (t := t) (maxBits + 1) 0 1 0 nums rfl (by simp)
    with ⟨hnums, hause⟩
  constructor
  · intro j hj
    rw [keysInSlice_arrayKeys hj]
    have hloop := hnums j
    rw [if_pos ⟨Nat.zero_le j, hj⟩] at hloop
    exact hloop
  · rw [length_arrayKeys hsize]
    rw [Nat.zero_add] at hause
    exact hause

/-!
# Integer keys of the nodes
-/

theorem countint_spec (key : Value) (nums : Nat -> Nat) :
    (forall j, (countint H key nums).1 j =
      nums j + keysInSlice [arrayindex H key] j) ∧
    (countint H key nums).2 = keysUpTo [arrayindex H key] maxASize := by
  unfold countint keysInSlice keysUpTo
  simp only [List.countP_cons, List.countP_nil, Nat.zero_add,
    decide_eq_true_eq]
  by_cases hk : 0 < arrayindex H key ∧ arrayindex H key ≤ (maxASize : Int)
  · rw [if_pos hk, if_pos hk]
    refine ⟨?_, rfl⟩
    intro j
    show addAt nums (ceillog2 (arrayindex H key).toNat) 1 j = _
    unfold addAt
    by_cases hj : j = ceillog2 (arrayindex H key).toNat
    · rw [if_pos hj, if_pos ⟨hk.1, hk.2, hj.symm⟩]
    · rw [if_neg hj, if_neg (fun h => hj h.2.2.symm)]
      rfl
  · rw [if_neg hk, if_neg hk]
    refine ⟨?_, rfl⟩
    intro j
    rw [if_neg (fun h => hk ⟨h.1, h.2.1⟩)]
    rfl

/-- The keys of the entries as far as they are array indices. -/
def pairKeys (H : Hashing) (pairs : List (Value × Value)) : List Int :=
  pairs.map fun p => arrayindex H p.1

theorem keysUpTo_pairKeys (key v : Value) (rest : List (Value × Value))
    (n : Nat) : keysUpTo (pairKeys H ((key, v) :: rest)) n =
      keysUpTo [arrayindex H key] n + keysUpTo (pairKeys H rest) n :=
  keysUpTo_append [arrayindex H key] (pairKeys H rest) n

theorem keysInSlice_pairKeys (key v : Value) (rest : List (Value × Value))
    (j : Nat) : keysInSlice (pairKeys H ((key, v) :: rest)) j =
      keysInSlice [arrayindex H key] j + keysInSlice (pairKeys H rest) j :=
  keysInSlice_append [arrayindex H key] (pairKeys H rest) j

theorem numusehashLoop_spec (n ause totaluse : Nat) (nums : Nat -> Nat) :
    (forall j, (numusehashLoop H t n nums ause totaluse).1 j =
      nums j + keysInSlice (pairKeys H (nodePairs t.node n)) j) ∧
    (numusehashLoop H t n nums ause totaluse).2.1 =
      ause + keysUpTo (pairKeys H (nodePairs t.node n)) maxASize ∧
    (numusehashLoop H t n nums ause totaluse).2.2 =
      totaluse + (nodePairs t.node n).length := by
  induction n generalizing nums ause totaluse with
  | zero => exact ⟨fun _ => rfl, rfl, rfl⟩
  | succ n ih =>
      rw [numusehashLoop, nodePairs]
      split
      · rcases countint_spec (H := H) (t.node n).key.toValue nums with
          ⟨hcount, hone⟩
        rcases ih (ause + (countint H (t.node n).key.toValue nums).2)
          (totaluse + 1) (countint H (t.node n).key.toValue nums).1 with
          ⟨hnums, hause, htotal⟩
        refine ⟨?_, ?_, ?_⟩
        · intro j
          rw [hnums, hcount]
          rw [keysInSlice_pairKeys, Nat.add_assoc]
        · rw [hause, hone]
          rw [keysUpTo_pairKeys, Nat.add_assoc]
        · rw [htotal, List.length_cons]
          omega
      · exact ih ause totaluse nums

theorem outside_add_keysUpTo (n : Nat) (pairs : List (Value × Value)) :
    outside H n pairs + keysUpTo (pairKeys H pairs) n = pairs.length := by
  induction pairs with
  | nil => rfl
  | cons p rest ih =>
      rcases p with ⟨key, v⟩
      have hone : nodesNeeded H n key + keysUpTo [arrayindex H key] n = 1 := by
        unfold nodesNeeded keysUpTo
        simp only [List.countP_cons, List.countP_nil, Nat.zero_add,
          decide_eq_true_eq]
        split
        · rw [if_pos (by omega)]
        · rw [if_neg (by omega)]
      rw [outside_cons, keysUpTo_pairKeys, List.length_cons]
      omega

/-- The vanishing slice holds the keys of the array above the new size. -/
theorem length_arrayPairs (nasize : Nat) :
    (arrayPairs t.array (List.range' nasize (t.sizearray - nasize))).length +
      keysUpTo t.arrayKeys nasize = t.arrayKeys.length := by
  rw [keysUpTo_arrayKeys]
  unfold arrayPairs
  rw [List.length_map, ← List.countP_eq_length_filter]
  have hshift : (List.range' nasize (t.sizearray - nasize)).countP
      (fun i => decide (t.array i ≠ .nil)) =
        t.usedIn nasize t.sizearray := by
    rw [usedIn_eq]
    unfold countSlice
    by_cases hle : nasize ≤ t.sizearray
    · have hmap := List.map_add_range' (a := 1) nasize (t.sizearray - nasize) 1
      rw [Nat.min_eq_left hle, Nat.min_self, Nat.add_sub_add_right,
        Nat.add_comm nasize 1, ← hmap, List.countP_map]
      congr 1
      funext i
      simp
    · rw [Nat.sub_eq_zero_of_le (by omega),
        show min t.sizearray t.sizearray + 1 -
          (min nasize t.sizearray + 1) = 0 by omega]
      rfl
  rw [hshift]
  by_cases hle : nasize ≤ t.sizearray
  · rw [length_arrayKeys (Nat.le_refl _), Nat.add_comm]
    exact usedIn_add (Nat.zero_le _) hle
  · rw [usedIn_above (b := t.sizearray) (by omega),
      length_arrayKeys (n := nasize) (by omega), Nat.zero_add]

end LuaTable

end LuaServer
