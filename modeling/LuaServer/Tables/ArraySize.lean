import Mathlib.Data.List.Count
import Mathlib.Data.Nat.Log
import LuaServer.Tables.Insertion

/-!
# The size of the array part

A rehash counts the integer keys in the slices between powers of two and takes
for the array the largest power of two such that more than half of its slots
are in use.
-/

namespace LuaServer

/-!
# Logarithms
-/

/-- The table `log_2`: how many bits a byte has. -/
def log2Byte (x : Nat) : Nat := if x = 0 then 0 else Nat.log2 x + 1

/-- The loop of `luaO_log2`; an unsigned int has four bytes. -/
def luaOLog2Loop : Nat -> Int -> Nat -> Int
  | 0, l, x => l + log2Byte x
  | n + 1, l, x =>
      if 256 ≤ x then luaOLog2Loop n (l + 8) (x / 256) else l + log2Byte x

def luaOLog2 (x : Nat) : Int := luaOLog2Loop 4 (-1) x

def ceillog2 (x : Nat) : Nat := (luaOLog2 (x - 1) + 1).toNat

theorem luaOLog2Loop_eq {n : Nat} {l : Int} {x : Nat} (hx : x ≠ 0) :
    luaOLog2Loop n l x = l + 1 + Nat.log2 x := by
  induction n generalizing l x with
  | zero =>
      simp only [luaOLog2Loop, log2Byte, if_neg hx]
      push_cast
      omega
  | succ n ih =>
      simp only [luaOLog2Loop]
      split
      · rename_i hbig
        have hlog : Nat.log2 x = Nat.log2 (x / 256) + 8 := by
          rw [Nat.log2_eq_log_two, Nat.log2_eq_log_two,
            show x / 256 = x / 2 ^ 8 from rfl, Nat.log_div_base_pow]
          have hle : 8 ≤ Nat.log 2 x :=
            Nat.le_log_of_pow_le (by decide) (by omega)
          omega
        rw [ih (by omega), hlog]
        push_cast
        omega
      · simp only [log2Byte, if_neg hx]
        push_cast
        omega

theorem ceillog2_le_iff {x k : Nat} (hx : 0 < x) :
    ceillog2 x ≤ k <-> x ≤ 2 ^ k := by
  by_cases hone : x - 1 = 0
  · have hx1 : x = 1 := by omega
    subst hx1
    have hpow := Nat.two_pow_pos k
    constructor
    · intro _
      omega
    · intro _
      exact Nat.zero_le k
  · have hlog : ceillog2 x = Nat.log 2 (x - 1) + 1 := by
      unfold ceillog2 luaOLog2
      rw [luaOLog2Loop_eq hone, Nat.log2_eq_log_two]
      omega
    rw [hlog, Nat.succ_le_iff, Nat.log_lt_iff_lt_pow (by decide) hone]
    omega

theorem le_two_pow_ceillog2 {x : Nat} (hx : 0 < x) : x ≤ 2 ^ ceillog2 x :=
  (ceillog2_le_iff hx).mp (Nat.le_refl _)

/-!
# Choosing the size
-/

def maxBits : Nat := 26

def maxASize : Nat := 2 ^ maxBits

/--
The loop of `computesizes`: `a` elements so far, of which `na` go to an array of
size `n`.
-/
def computesizesLoop (nums : Nat -> Nat) (narray : Nat) :
    Nat -> Nat -> Nat -> Nat -> Nat -> Nat -> Nat × Nat
  | 0, _, _, _, na, n => (n, na)
  | fuel + 1, i, twotoi, a, na, n =>
      if twotoi / 2 < narray then
        let a' := if 0 < nums i then a + nums i else a
        let enough := 0 < nums i ∧ twotoi / 2 < a'
        let n' := if enough then twotoi else n
        let na' := if enough then a' else na
        if a' = narray then (n', na')
        else computesizesLoop nums narray fuel (i + 1) (twotoi * 2) a' na' n'
      else (n, na)

/-- `computesizes`: the size of the array and how many elements go there. -/
def computesizes (nums : Nat -> Nat) (narray : Nat) : Nat × Nat :=
  computesizesLoop nums narray (maxBits + 1) 0 1 0 0 0

section Sizes

variable {upTo : Nat -> Nat}

/--
The size that the array part ought to have for keys of which `upTo n` are at
most `n`: a power of two with more than half of the slots in use, or zero, and
no larger power of two is that full.
-/
structure BestSize (upTo : Nat -> Nat) (n : Nat) : Prop where
  power : n = 0 ∨ exists i, i ≤ maxBits ∧ n = 2 ^ i
  half : 0 < n -> n / 2 < upTo n
  largest : forall i, i ≤ maxBits -> 2 ^ i / 2 < upTo (2 ^ i) -> 2 ^ i ≤ n

theorem BestSize.le_maxASize {upTo : Nat -> Nat} {n : Nat}
    (h : BestSize upTo n) : n ≤ maxASize := by
  rcases h.power with rfl | ⟨i, hi, rfl⟩
  · exact Nat.zero_le _
  · exact Nat.pow_le_pow_right (by decide) hi

theorem BestSize.congr {upTo upTo' : Nat -> Nat} {n : Nat}
    (h : BestSize upTo n)
    (heq : forall m, m ≤ maxASize -> upTo m = upTo' m) : BestSize upTo' n := by
  refine ⟨h.power, ?_, ?_⟩
  · intro hpos
    rw [← heq n h.le_maxASize]
    exact h.half hpos
  · intro i hi hhalf
    rw [← heq _ (Nat.pow_le_pow_right (by decide) hi)] at hhalf
    exact h.largest i hi hhalf

/-- What is known about the sizes below `2 ^ i`. -/
structure BestBelow (upTo : Nat -> Nat) (i n na : Nat) : Prop where
  power : n = 0 ∨ exists j, j ≤ maxBits ∧ j < i ∧ n = 2 ^ j
  count : na = upTo n
  half : 0 < n -> n / 2 < upTo n
  largest : forall j, j < i -> 2 ^ j / 2 < upTo (2 ^ j) -> 2 ^ j ≤ n

theorem computesizesLoop_spec (hle : forall n, upTo n ≤ n)
    {nums : Nat -> Nat} {narray fuel i a na n : Nat}
    (hfuel : fuel + i = maxBits + 1)
    (hnarray : forall j, j ≤ maxBits -> upTo (2 ^ j) ≤ narray)
    (hnums0 : i = 0 -> a = 0) (hnums : forall j, j + 1 = i -> a = upTo (2 ^ j))
    (hslice : forall j, j ≤ maxBits ->
      upTo (2 ^ j) = nums j + (if j = 0 then 0 else upTo (2 ^ (j - 1))))
    (h : BestBelow upTo i n na) {n' na' : Nat}
    (hloop : computesizesLoop nums narray fuel i (2 ^ i) a na n = (n', na')) :
    BestSize upTo n' ∧ na' = upTo n' := by
  induction fuel generalizing i a na n with
  | zero =>
      cases hloop
      have hi : i = maxBits + 1 := by omega
      refine ⟨⟨?_, h.half, ?_⟩, h.count⟩
      · rcases h.power with hn | ⟨j, hj, _, hn⟩
        · exact Or.inl hn
        · exact Or.inr ⟨j, hj, hn⟩
      · intro j hj hhalf
        exact h.largest j (by omega) hhalf
  | succ fuel ih =>
      have hi : i ≤ maxBits := by omega
      -- no later size can be more than half full
      have hdone : narray ≤ 2 ^ i / 2 -> BestSize upTo n ∧ na = upTo n := by
        intro hsmall
        refine ⟨⟨?_, h.half, ?_⟩, h.count⟩
        · rcases h.power with hn | ⟨j, hj, _, hn⟩
          · exact Or.inl hn
          · exact Or.inr ⟨j, hj, hn⟩
        · intro j hj hhalf
          rcases Nat.lt_or_ge j i with hlt | hge
          · exact h.largest j hlt hhalf
          · have hpow : 2 ^ i ≤ 2 ^ j := Nat.pow_le_pow_right (by decide) hge
            have := hnarray j hj
            omega
      simp only [computesizesLoop] at hloop
      split at hloop
      · have ha : (if 0 < nums i then a + nums i else a) = upTo (2 ^ i) := by
          have hprev : a = if i = 0 then 0 else upTo (2 ^ (i - 1)) := by
            split
            · rename_i hi0
              exact hnums0 hi0
            · exact hnums (i - 1) (by omega)
          rw [hslice i hi, ← hprev]
          split
          · omega
          · omega
        -- a slice without keys cannot make the array more than half full
        have henough : (0 < nums i ∧ 2 ^ i / 2 <
            (if 0 < nums i then a + nums i else a)) <->
            2 ^ i / 2 < upTo (2 ^ i) := by
          rw [ha]
          constructor
          · exact fun hboth => hboth.2
          · intro hhalf
            refine ⟨?_, hhalf⟩
            by_contra hnone
            have hsame := hslice i hi
            rw [Nat.eq_zero_of_not_pos hnone, Nat.zero_add] at hsame
            cases i with
            | zero => simp at hsame hhalf; omega
            | succ k =>
                rw [if_neg (Nat.succ_ne_zero k), Nat.add_sub_cancel] at hsame
                have := hle (2 ^ k)
                rw [Nat.pow_succ] at hhalf hsame
                omega
        have hbest : BestBelow upTo (i + 1)
            (if 2 ^ i / 2 < upTo (2 ^ i) then 2 ^ i else n)
            (if 2 ^ i / 2 < upTo (2 ^ i) then upTo (2 ^ i) else na) := by
          split
          · rename_i hhalf
            refine ⟨Or.inr ⟨i, hi, Nat.lt_succ_self i, rfl⟩, rfl,
              fun _ => hhalf, ?_⟩
            intro j hj _
            exact Nat.pow_le_pow_right (by decide) (Nat.le_of_lt_succ hj)
          · rename_i hhalf
            refine ⟨?_, h.count, h.half, ?_⟩
            · rcases h.power with hn | ⟨j, hj, hji, hn⟩
              · exact Or.inl hn
              · exact Or.inr ⟨j, hj, Nat.lt_succ_of_lt hji, hn⟩
            · intro j hj hjhalf
              rcases Nat.lt_or_eq_of_le (Nat.le_of_lt_succ hj) with hlt | rfl
              · exact h.largest j hlt hjhalf
              · exact absurd hjhalf hhalf
        simp only [henough] at hloop
        rw [ha] at hloop
        split at hloop
        · rename_i hall
          cases hloop
          refine ⟨⟨?_, hbest.half, ?_⟩, hbest.count⟩
          · rcases hbest.power with hn | ⟨j, hj, _, hn⟩
            · exact Or.inl hn
            · exact Or.inr ⟨j, hj, hn⟩
          · intro j hj hjhalf
            rcases Nat.lt_or_ge j (i + 1) with hlt | hge
            · exact hbest.largest j hlt hjhalf
            · have hpow : 2 ^ (i + 1) ≤ 2 ^ j :=
                Nat.pow_le_pow_right (by decide) hge
              have hbound := hnarray j hj
              have hfew := hle (2 ^ i)
              rw [Nat.pow_succ] at hpow
              omega
        · rw [← Nat.pow_succ] at hloop
          refine ih (by omega) (fun hne => by omega) ?_ hbest hloop
          intro j hj
          have hij : j = i := by omega
          rw [hij]
      · rename_i hsmall
        cases hloop
        exact hdone (Nat.le_of_not_lt hsmall)

theorem computesizes_spec (hzero : upTo 0 = 0) (hle : forall n, upTo n ≤ n)
    {nums : Nat -> Nat} {narray : Nat}
    (hnarray : forall j, j ≤ maxBits -> upTo (2 ^ j) ≤ narray)
    (hslice : forall j, j ≤ maxBits ->
      upTo (2 ^ j) = nums j + (if j = 0 then 0 else upTo (2 ^ (j - 1)))) :
    BestSize upTo (computesizes nums narray).1 ∧
      (computesizes nums narray).2 = upTo (computesizes nums narray).1 := by
  have hstart : BestBelow upTo 0 0 0 := by
    refine ⟨Or.inl rfl, hzero.symm, fun hpos => absurd hpos (Nat.lt_irrefl 0), ?_⟩
    intro j hj
    exact absurd hj (Nat.not_lt_zero j)
  refine computesizesLoop_spec hle (Nat.add_zero _) hnarray (fun _ => rfl) ?_
    hslice hstart rfl
  intro j hj
  exact absurd hj (Nat.succ_ne_zero j)

end Sizes

/-!
# Counting integer keys
-/

section Count

/-- How many of the keys are integers from 1 to `n`. -/
def keysUpTo (keys : List Int) (n : Nat) : Nat :=
  keys.countP fun k : Int => decide (0 < k ∧ k ≤ (n : Int))

/-- How many of the keys a count puts into the slice. -/
def keysInSlice (keys : List Int) (lg : Nat) : Nat :=
  keys.countP fun k : Int => decide (0 < k ∧ k ≤ maxASize ∧ ceillog2 k.toNat = lg)

theorem keysUpTo_append (first second : List Int) (n : Nat) :
    keysUpTo (first ++ second) n = keysUpTo first n + keysUpTo second n :=
  List.countP_append

theorem keysInSlice_append (first second : List Int) (lg : Nat) :
    keysInSlice (first ++ second) lg =
      keysInSlice first lg + keysInSlice second lg :=
  List.countP_append

theorem keysUpTo_zero (keys : List Int) : keysUpTo keys 0 = 0 := by
  unfold keysUpTo
  rw [List.countP_eq_zero]
  intro k _
  simp only [decide_eq_true_eq]
  omega

theorem keysUpTo_mono (keys : List Int) {m n : Nat} (h : m ≤ n) :
    keysUpTo keys m ≤ keysUpTo keys n := by
  apply List.countP_mono_left
  intro k _ hk
  simp only [decide_eq_true_eq] at hk ⊢
  omega

theorem keysUpTo_le {keys : List Int}
    (h : (keys.filter fun k : Int => decide (0 < k)).Nodup) (n : Nat) :
    keysUpTo keys n ≤ n := by
  have hnodup : ((keys.filter fun k : Int => decide (0 < k ∧ k ≤ (n : Int))).map
      Int.toNat).Nodup := by
    have hsub : (keys.filter fun k : Int => decide (0 < k ∧ k ≤ (n : Int))).Nodup := by
      have heq : (keys.filter fun k : Int => decide (0 < k ∧ k ≤ (n : Int))) =
          (keys.filter fun k : Int => decide (0 < k)).filter fun k : Int =>
            decide (k ≤ n) := by
        rw [List.filter_filter]
        apply List.filter_congr
        intro k _
        simp [Bool.and_comm]
      rw [heq]
      exact h.filter _
    apply hsub.map_on
    intro x hx y hy hxy
    simp only [List.mem_filter, decide_eq_true_eq] at hx hy
    omega
  have hsubset : ((keys.filter fun k : Int => decide (0 < k ∧ k ≤ (n : Int))).map
      Int.toNat) ⊆ List.range' 1 n := by
    intro x hx
    rcases List.mem_map.mp hx with ⟨k, hk, rfl⟩
    simp only [List.mem_filter, decide_eq_true_eq] at hk
    rw [List.mem_range'_1]
    omega
  have hlength := (List.subperm_of_subset hnodup hsubset).length_le
  rw [List.length_map, List.length_range', ← List.countP_eq_length_filter]
    at hlength
  exact hlength

/-- A slice holds the keys up to one power of two that the last one lacks. -/
theorem keysUpTo_slice (keys : List Int) {lg : Nat} (hlg : lg ≤ maxBits) :
    keysUpTo keys (2 ^ lg) = keysInSlice keys lg +
      (if lg = 0 then 0 else keysUpTo keys (2 ^ (lg - 1))) := by
  have hmax : 2 ^ lg ≤ maxASize := Nat.pow_le_pow_right (by decide) hlg
  have hkey : forall k : Int, (0 < k ∧ k ≤ maxASize ∧ ceillog2 k.toNat = lg) <->
      (0 < k ∧ k ≤ (2 ^ lg : Nat) ∧
        (lg = 0 ∨ ¬k ≤ (2 ^ (lg - 1) : Nat))) := by
    intro k
    by_cases hk : 0 < k
    · have hpos : 0 < k.toNat := by omega
      have hupper := @ceillog2_le_iff k.toNat lg hpos
      cases lg with
      | zero =>
          constructor
          · rintro ⟨_, _, heq⟩
            have hle := hupper.mp (Nat.le_of_eq heq)
            exact ⟨hk, by omega, Or.inl rfl⟩
          · rintro ⟨_, hle, _⟩
            have heq := hupper.mpr (by omega)
            exact ⟨hk, by omega, by omega⟩
      | succ j =>
          have hlower := @ceillog2_le_iff k.toNat j hpos
          rw [Nat.add_sub_cancel]
          constructor
          · rintro ⟨_, _, heq⟩
            have hle := hupper.mp (Nat.le_of_eq heq)
            have hnot : ¬k.toNat ≤ 2 ^ j := fun hj => by
              have := hlower.mpr hj
              omega
            exact ⟨hk, by omega, Or.inr (by omega)⟩
          · rintro ⟨_, hle, hor⟩
            have hlt : ¬ceillog2 k.toNat ≤ j := fun hj => by
              have := hlower.mp hj
              rcases hor with hzero | hnot
              · exact Nat.succ_ne_zero j hzero
              · omega
            have heq := hupper.mpr (by omega)
            exact ⟨hk, by omega, by omega⟩
    · constructor
      · exact fun h => absurd h.1 hk
      · exact fun h => absurd h.1 hk
  have hslice : keysInSlice keys lg = keys.countP fun k : Int =>
      decide (0 < k ∧ k ≤ (2 ^ lg : Nat) ∧
        (lg = 0 ∨ ¬k ≤ (2 ^ (lg - 1) : Nat))) := by
    unfold keysInSlice
    apply List.countP_congr
    intro k _
    simp only [decide_eq_true_eq]
    exact hkey k
  rw [hslice]
  unfold keysUpTo
  split
  · rename_i hzero
    rw [Nat.add_zero]
    apply List.countP_congr
    intro k _
    simp [hzero]
  · rename_i hpos
    have hle : 2 ^ (lg - 1) ≤ 2 ^ lg :=
      Nat.pow_le_pow_right (by decide) (Nat.sub_le _ _)
    induction keys with
    | nil => rfl
    | cons k rest ih =>
        have hrest := ih (by
          unfold keysInSlice
          apply List.countP_congr
          intro x _
          simp only [decide_eq_true_eq]
          exact hkey x)
        simp only [List.countP_cons, decide_eq_true_eq, hpos, false_or] at hrest ⊢
        rw [hrest]
        split
        · split
          · split
            · omega
            · omega
          · split
            · omega
            · omega
        · split
          · omega
          · split
            · omega
            · omega

end Count

end LuaServer
