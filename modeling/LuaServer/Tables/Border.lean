import LuaServer.Tables.Traversal

/-!
# The length of a table

`luaH_getn` looks for a border: an index with a value whose successor has none.
It searches the array part, or doubles an index until it has no value.
-/

namespace LuaServer

/-- The binary search between a present index, or zero, and an absent one. -/
def binarySearch (present : Nat -> Bool) : Nat -> Nat -> Nat -> Option Nat
  | 0, _, _ => none
  | fuel + 1, i, j =>
      if 1 < j - i then
        let m := (i + j) / 2
        if present m then binarySearch present fuel m j
        else binarySearch present fuel i m
      else some i

def linearSearch (present : Nat -> Bool) : Nat -> Nat -> Option Nat
  | 0, _ => none
  | fuel + 1, i =>
      if present i then linearSearch present fuel (i + 1) else some (i - 1)

def unboundLoop (present : Nat -> Bool) : Nat -> Nat -> Nat -> Option Nat
  | 0, _, _ => none
  | fuel + 1, i, j =>
      if present j then
        if maxInt < j * 2 then linearSearch present (maxInt + 1) 1
        else unboundLoop present fuel j (j * 2)
      else binarySearch present 32 i j

def unboundSearch (present : Nat -> Bool) (j : Nat) : Option Nat :=
  unboundLoop present 32 j (j + 1)

/-- An index with a value, or zero, whose successor has none. -/
def IsBorder (present : Nat -> Bool) (n : Nat) : Prop :=
  (n = 0 ∨ present n = true) ∧ present (n + 1) = false

section Search

variable (present : Nat -> Bool)

theorem binarySearch_border {fuel i j : Nat} (hi : i = 0 ∨ present i = true)
    (hj : present j = false) (hlt : i < j) (hfuel : j - i ≤ 2 ^ fuel) :
    exists n, binarySearch present (fuel + 1) i j = some n ∧
      IsBorder present n ∧ i ≤ n ∧ n < j := by
  induction fuel generalizing i j with
  | zero =>
      refine ⟨i, ?_, ⟨hi, ?_⟩, Nat.le_refl i, hlt⟩
      · rw [binarySearch, if_neg (by omega)]
      · rw [show i + 1 = j by omega]
        exact hj
  | succ fuel ih =>
      rw [binarySearch]
      rw [Nat.pow_succ] at hfuel
      by_cases hwide : 1 < j - i
      · rw [if_pos hwide]
        simp only
        by_cases hm : present ((i + j) / 2) = true
        · rw [if_pos hm]
          rcases ih (Or.inr hm) hj (by omega) (by omega) with
            ⟨n, hn, hborder, hlow, hhigh⟩
          exact ⟨n, hn, hborder, by omega, hhigh⟩
        · rw [if_neg hm]
          rw [Bool.not_eq_true] at hm
          rcases ih hi hm (by omega) (by omega) with
            ⟨n, hn, hborder, hlow, hhigh⟩
          exact ⟨n, hn, hborder, hlow, by omega⟩
      · rw [if_neg hwide]
        refine ⟨i, rfl, ⟨hi, ?_⟩, Nat.le_refl i, hlt⟩
        rw [show i + 1 = j by omega]
        exact hj

variable {present}

theorem linearSearch_border {fuel i last : Nat}
    (hi : i = 1 ∨ present (i - 1) = true) (hpos : 1 ≤ i) (hle : i ≤ last)
    (hlast : present last = false) (hfuel : last - i < fuel) :
    exists n, linearSearch present fuel i = some n ∧
      IsBorder present n ∧ n < last := by
  induction fuel generalizing i with
  | zero => exact absurd hfuel (Nat.not_lt_zero _)
  | succ fuel ih =>
      rw [linearSearch]
      by_cases hp : present i = true
      · rw [if_pos hp]
        have hne : i ≠ last := by
          rintro rfl
          rw [hlast] at hp
          cases hp
        refine ih (Or.inr ?_) (by omega) (by omega) (by omega)
        rw [Nat.add_sub_cancel]
        exact hp
      · rw [if_neg hp]
        refine ⟨i - 1, rfl, ⟨?_, ?_⟩, by omega⟩
        · rcases hi with rfl | hi
          · exact Or.inl rfl
          · exact Or.inr hi
        · rw [Nat.sub_add_cancel hpos]
          exact Bool.eq_false_iff.mpr hp

theorem unboundLoop_border {fuel i j last : Nat}
    (hi : i = 0 ∨ present i = true) (hlt : i < j) (hj : j ≤ maxInt)
    (hlow : 1 ≤ last) (hlast : present last = false) (hfar : last ≤ maxInt)
    (hfuel : maxInt < j * 2 ^ fuel) :
    exists n, unboundLoop present (fuel + 1) i j = some n ∧
      IsBorder present n ∧ n < maxInt := by
  induction fuel generalizing i j with
  | zero =>
      rw [Nat.pow_zero, Nat.mul_one] at hfuel
      omega
  | succ fuel ih =>
      rw [unboundLoop]
      by_cases hp : present j = true
      · rw [if_pos hp]
        by_cases hover : maxInt < j * 2
        · rw [if_pos hover]
          have hfuel : last - 1 < maxInt + 1 := by omega
          rcases linearSearch_border (Or.inl rfl) (Nat.le_refl 1) hlow hlast
            hfuel with ⟨n, hn, hborder, hlt⟩
          exact ⟨n, hn, hborder, by omega⟩
        · rw [if_neg hover]
          refine ih (Or.inr hp) (by omega) (by omega) ?_
          rw [Nat.mul_assoc, ← Nat.pow_succ']
          exact hfuel
      · rw [if_neg hp]
        have hmax : maxInt ≤ 2 ^ 31 := by decide
        have hwide : j - i ≤ 2 ^ 31 := by omega
        rcases binarySearch_border present hi (Bool.eq_false_iff.mpr hp) hlt
          hwide with ⟨n, hn, hborder, _, hhigh⟩
        exact ⟨n, hn, hborder, by omega⟩

end Search

namespace LuaTable

variable {H : Hashing} {t : LuaTable}

/-- `luaH_getnum` finds a value. -/
def present (H : Hashing) (t : LuaTable) (i : Nat) : Bool :=
  decide (t.valueAt (t.luaHGetnum H i) ≠ .nil)

def luaHGetn (H : Hashing) (t : LuaTable) : Option Nat :=
  let j := t.sizearray
  if 0 < j ∧ t.array (j - 1) = .nil then
    binarySearch (fun m => decide (t.array (m - 1) ≠ .nil)) 32 0 j
  else if t.dummy then some j
  else unboundSearch (t.present H) j

theorem present_iff {i : Nat} (hi : i ≤ maxInt) : t.present H i = true <->
    t.lookup H (.number (.ofInt (i : Nat))) ≠ .nil := by
  have hmax : maxInt ≤ 2147483647 := by decide
  unfold present lookup
  rw [decide_eq_true_eq, luaHGet_ofInt (k := ((i : Nat) : Int)) (by omega)
    (by omega)]

theorem present_array {i : Nat} (hlow : 1 ≤ i)
    (hhigh : i ≤ t.sizearray) :
    t.present H i = decide (t.array (i - 1) ≠ .nil) := by
  unfold present luaHGetnum
  rw [if_pos (by omega)]
  show decide (t.array ((i : Int) - 1).toNat ≠ .nil) = _
  rw [show ((i : Int) - 1).toNat = i - 1 by omega]

theorem Valid.exists_absent (h : t.Valid H) :
    exists i, 1 ≤ i ∧ i ≤ t.positions + 1 ∧ t.present H i = false := by
  by_contra hnone
  have hsize := h.sizearray
  have hnodes : t.sizenode ≤ 2 ^ maxBits :=
    Nat.pow_le_pow_right (by decide) h.lsizenode
  have hmany : t.positions + 1 ≤ maxInt := by
    have hsum : maxASize + 2 ^ maxBits + 1 ≤ maxInt := by decide
    unfold positions
    omega
  have hposition : forall i : Fin (t.positions + 1), exists p,
      t.KeyAt p (.number (.ofInt ((i.val + 1 : Nat) : Int))) := by
    intro i
    refine (Continues.refl (H := H) t).keyAt_of_lookup ?_
    have hi : i.val + 1 ≤ t.positions + 1 := i.isLt
    rw [← present_iff (by omega)]
    by_contra habsent
    exact hnone ⟨i.val + 1, by omega, hi, Bool.not_eq_true _ ▸ habsent⟩
  choose position hposition using hposition
  have hinjective : Function.Injective
      fun i => (⟨position i, h.keyAt_lt (hposition i)⟩ : Fin t.positions) := by
    intro i j heq
    have hsame : position i = position j := congrArg Fin.val heq
    have hkey := (hposition i).eq
    rw [hsame, (hposition j).eq] at hkey
    have := ofInt_injective hkey
    exact Fin.ext (by omega)
  have hcard := Fintype.card_le_of_injective _ hinjective
  rw [Fintype.card_fin, Fintype.card_fin] at hcard
  omega

theorem Valid.absent_of_dummy (h : t.Valid H) (hdummy : t.dummy = true) :
    t.present H (t.sizearray + 1) = false := by
  have hsize := h.sizearray
  have hsmall : maxASize + 1 ≤ maxInt := by decide
  have hmax : maxInt ≤ 2147483647 := by decide
  rw [Bool.eq_false_iff, ne_eq, present_iff (by omega), not_not]
  refine lookup_none ?_ ?_
  · unfold InArray
    rw [arrayindex_ofInt (k := ((t.sizearray + 1 : Nat) : Int)) (by omega)
      (by omega)]
    omega
  · intro i hi
    rcases h.sound.dummy hdummy with ⟨hlsize, _, hkey⟩
    have hlt := h.sound.hash.inside i (by rw [hi]; exact NodeKey.noConfusion)
    have hone : t.sizenode = 1 := by
      unfold sizenode
      rw [hlsize]
      rfl
    rw [show i = 0 by omega, hkey] at hi
    cases hi

theorem Valid.luaHGetn_found (h : t.Valid H) :
    exists n, t.luaHGetn H = some n ∧ n < maxInt ∧
      IsBorder (t.present H) n := by
  have hsize := h.sizearray
  have hsmall : maxASize + 1 ≤ maxInt := by decide
  unfold luaHGetn
  simp only
  by_cases harray : 0 < t.sizearray ∧ t.array (t.sizearray - 1) = .nil
  · rw [if_pos harray]
    have hlast : decide (t.array (t.sizearray - 1) ≠ .nil) = false := by
      rw [decide_eq_false_iff_not, not_not]
      exact harray.2
    have hwide : t.sizearray - 0 ≤ 2 ^ 31 := by
      have hmax : maxASize ≤ 2 ^ 31 := by decide
      omega
    rcases binarySearch_border (fun m => decide (t.array (m - 1) ≠ .nil))
      (Or.inl rfl) hlast harray.1 hwide with ⟨n, hn, ⟨hin, hout⟩, _, hlt⟩
    refine ⟨n, hn, by omega, ?_, ?_⟩
    · by_cases hzero : n = 0
      · exact Or.inl hzero
      · rw [present_array (by omega) (by omega)]
        exact hin
    · rw [present_array (by omega) (by omega)]
      exact hout
  · rw [if_neg harray]
    have hstart : t.sizearray = 0 ∨ t.present H t.sizearray = true := by
      by_cases hzero : t.sizearray = 0
      · exact Or.inl hzero
      · right
        rw [present_array (by omega) (Nat.le_refl _), decide_eq_true_eq]
        exact fun hnil => harray ⟨by omega, hnil⟩
    split
    · rename_i hdummy
      exact ⟨t.sizearray, rfl, by omega, hstart, h.absent_of_dummy hdummy⟩
    · rcases h.exists_absent with ⟨last, hlow, hhigh, habsent⟩
      have hnodes : t.sizenode ≤ 2 ^ maxBits :=
        Nat.pow_le_pow_right (by decide) h.lsizenode
      have hsum : maxASize + 2 ^ maxBits + 1 ≤ maxInt := by decide
      unfold positions at hhigh
      unfold unboundSearch
      have hfuel : maxInt < (t.sizearray + 1) * 2 ^ 31 := by
        have hmax : maxInt < 2 ^ 31 := by decide
        omega
      rcases unboundLoop_border hstart (Nat.lt_succ_self _) (by omega) hlow
        habsent (by omega) hfuel with ⟨n, hn, hborder, hlt⟩
      exact ⟨n, hn, hlt, hborder⟩

/-- The length of a reachable table is a border of its integer keys. -/
theorem Reached.luaHGetn_border (h : Reached H t) :
    exists n, t.luaHGetn H = some n ∧
      (n = 0 ∨ t.lookup H (.number (.ofInt (n : Nat))) ≠ .nil) ∧
      t.lookup H (.number (.ofInt (n + 1 : Nat))) = .nil := by
  rcases h.valid.luaHGetn_found with ⟨n, hn, hlt, hin, hout⟩
  refine ⟨n, hn, ?_, ?_⟩
  · rw [← present_iff (by omega)]
    exact hin
  · rw [Bool.eq_false_iff, ne_eq, present_iff (by omega), not_not] at hout
    exact hout

/-- The last index of the array part has no value. -/
def holedTable : LuaTable := collidingTable.stored (.setnum 2 .nil)

theorem luaHGetn_border_holed :
    (holedTable.luaHGetn collidingTables = some 1 ∧
      holedTable.lookup collidingTables (.number (.ofInt 1)) ≠ .nil ∧
      holedTable.lookup collidingTables (.number (.ofInt 2)) = .nil) ∧
    collidingTable.luaHGetn collidingTables = some 3 ∧
      collidingTable.lookup collidingTables (.number (.ofInt 3)) ≠ .nil ∧
      collidingTable.lookup collidingTables (.number (.ofInt 4)) = .nil := by
  have hholed := reached_collidingTable.stored (.setnum 2 .nil)
    (reached_collidingTable.distinctAddresses (by decide +kernel))
    ⟨by decide, by decide⟩
  have hone : holedTable.luaHGetn collidingTables = some 1 := by decide +kernel
  have hthree : collidingTable.luaHGetn collidingTables = some 3 := by
    decide +kernel
  rcases hholed.luaHGetn_border with ⟨n, hn, hin, hout⟩
  rcases reached_collidingTable.luaHGetn_border with ⟨m, hm, hin', hout'⟩
  cases hone.symm.trans hn
  cases hthree.symm.trans hm
  exact ⟨⟨hone, hin.resolve_left (by decide), hout⟩, hthree,
    hin'.resolve_left (by decide), hout'⟩

end LuaTable

end LuaServer
