import Mathlib.Data.Fintype.Card
import Mathlib.Logic.Relation

/-!
# Chains in an array of cells

Cells are named by numbers and each has at most one successor.  The chains are
linear: no two cells have the same successor and no chain runs in a circle.
Linking a fresh cell into a chain, or letting it take the place of another one,
keeps this and the order of the cells that stay.
-/

namespace LuaServer
namespace Library

section Chains

variable {next : Nat -> Option Nat}

/-- The second cell lies on the chain that starts at the first one. -/
def Follows (next : Nat -> Option Nat) : Nat -> Nat -> Prop :=
  Relation.ReflTransGen fun i j => next i = some j

/-- The chain leads from the first cell to the second one, via such cells. -/
def FollowsVia (next : Nat -> Option Nat) (via : Nat -> Prop) :
    Nat -> Nat -> Prop :=
  Relation.ReflTransGen fun i j => via i ∧ next i = some j

/-- No cell has two predecessors, and along a chain the rank goes down. -/
structure Linear (next : Nat -> Option Nat) : Prop where
  injective : forall i j k, next i = some k -> next j = some k -> i = j
  acyclic : exists rank : Nat -> Nat,
    forall i j, next i = some j -> rank j < rank i

theorem Follows.refl (i : Nat) : Follows next i i :=
  Relation.ReflTransGen.refl

theorem Follows.head {i j k : Nat} (hij : next i = some j)
    (hjk : Follows next j k) : Follows next i k :=
  Relation.ReflTransGen.head hij hjk

theorem Follows.tail {i j k : Nat} (hij : Follows next i j)
    (hjk : next j = some k) : Follows next i k :=
  Relation.ReflTransGen.tail hij hjk

/-- A chain to another cell comes to that cell from its predecessor. -/
theorem Follows.pred {i k : Nat} (h : Follows next i k) :
    k = i ∨ exists j, Follows next i j ∧ next j = some k :=
  Relation.ReflTransGen.cases_tail h

theorem follows_iff_via {i j : Nat} :
    Follows next i j <-> FollowsVia next (fun _ => True) i j := by
  unfold Follows FollowsVia
  simp only [true_and]

section Via

variable {via via' : Nat -> Prop}

theorem FollowsVia.refl (i : Nat) : FollowsVia next via i i :=
  Relation.ReflTransGen.refl

theorem FollowsVia.tail {i j k : Nat} (hij : FollowsVia next via i j)
    (hvia : via j) (hjk : next j = some k) : FollowsVia next via i k :=
  Relation.ReflTransGen.tail hij ⟨hvia, hjk⟩

theorem FollowsVia.mono {i j : Nat} (hvia : forall k, via k -> via' k)
    (h : FollowsVia next via i j) : FollowsVia next via' i j := by
  induction h with
  | refl => exact FollowsVia.refl i
  | tail _ hk ih => exact ih.tail (hvia _ hk.1) hk.2

theorem FollowsVia.follows {i j : Nat} (h : FollowsVia next via i j) :
    Follows next i j := follows_iff_via.mpr (h.mono fun _ _ => trivial)

end Via

theorem Linear.ne_of_next (h : Linear next) {i j : Nat}
    (hij : next i = some j) : i ≠ j := by
  rcases h.acyclic with ⟨rank, hrank⟩
  rintro rfl
  exact Nat.lt_irrefl _ (hrank i i hij)

theorem linear_none : Linear fun _ => none where
  injective := by
    intro i j k hi
    cases hi
  acyclic := by
    refine ⟨fun _ => 0, ?_⟩
    intro i j hij
    cases hij

/-!
# Walking along a chain
-/

/-- The first cell of the chain that meets the test, among the first `fuel`. -/
def chainFind (next : Nat -> Option Nat) (test : Nat -> Bool) :
    Nat -> Nat -> Option Nat
  | 0, _ => none
  | fuel + 1, i =>
      if test i then some i
      else
        match next i with
        | none => none
        | some j => chainFind next test fuel j

theorem chainFind_sound {test : Nat -> Bool} {fuel i j : Nat}
    (h : chainFind next test fuel i = some j) :
    Follows next i j ∧ test j = true := by
  induction fuel generalizing i with
  | zero => cases h
  | succ fuel ih =>
      simp only [chainFind] at h
      split at h
      · rename_i htest
        cases h
        exact ⟨Follows.refl _, htest⟩
      · split at h
        · cases h
        · rename_i k hk
          rcases ih h with ⟨hfollows, htest⟩
          exact ⟨Follows.head hk hfollows, htest⟩

/-- The cell so many successors further on. -/
def successor (next : Nat -> Option Nat) : Nat -> Nat -> Option Nat
  | 0, i => some i
  | n + 1, i => (next i).bind (successor next n)

theorem exists_successor {i j : Nat} (h : Follows next i j) :
    exists n, successor next n i = some j := by
  induction h using Relation.ReflTransGen.head_induction_on with
  | refl => exact ⟨0, rfl⟩
  | head hij _ ih =>
      rcases ih with ⟨n, hn⟩
      refine ⟨n + 1, ?_⟩
      simpa [successor, hij] using hn

theorem chainFind_of_successor {test : Nat -> Bool} {n fuel i j : Nat}
    (hj : successor next n i = some j) (htest : test j = true)
    (hfuel : n < fuel) : (chainFind next test fuel i).isSome = true := by
  induction n generalizing fuel i with
  | zero =>
      cases fuel with
      | zero => exact absurd hfuel (Nat.lt_irrefl 0)
      | succ fuel =>
          cases hj
          simp [chainFind, htest]
  | succ n ih =>
      cases fuel with
      | zero => exact absurd hfuel (Nat.not_lt_zero _)
      | succ fuel =>
          rcases Option.bind_eq_some_iff.mp hj with ⟨k, hk, hj⟩
          have hrest := ih hj (Nat.lt_of_succ_lt_succ hfuel)
          simp only [chainFind, hk]
          split
          · rfl
          · exact hrest

theorem successor_of_le {n m i j : Nat} (hn : successor next n i = some j)
    (hm : m ≤ n) : exists k, successor next m i = some k := by
  induction m generalizing n i with
  | zero => exact ⟨i, rfl⟩
  | succ m ih =>
      cases n with
      | zero => exact absurd hm (Nat.not_succ_le_zero m)
      | succ n =>
          rcases Option.bind_eq_some_iff.mp hn with ⟨k, hk, hj⟩
          rcases ih hj (Nat.le_of_succ_le_succ hm) with ⟨l, hl⟩
          exact ⟨l, by simp [successor, hk, hl]⟩

theorem rank_successor {rank : Nat -> Nat}
    (hrank : forall i j, next i = some j -> rank j < rank i)
    {n i j : Nat} (h : successor next n i = some j) :
    rank j + n ≤ rank i := by
  induction n generalizing i with
  | zero =>
      cases h
      exact Nat.le_refl _
  | succ n ih =>
      rcases Option.bind_eq_some_iff.mp h with ⟨k, hk, hj⟩
      have hlt := hrank i k hk
      have hle := ih hj
      omega

theorem successor_lt {size : Nat}
    (hsize : forall i j, next i = some j -> j < size) {n i j : Nat}
    (hi : i < size) (h : successor next n i = some j) : j < size := by
  induction n generalizing i with
  | zero =>
      cases h
      exact hi
  | succ n ih =>
      rcases Option.bind_eq_some_iff.mp h with ⟨k, hk, hj⟩
      exact ih (hsize i k hk) hj

theorem successor_add {n m i j : Nat} (h : successor next n i = some j) :
    successor next (n + m) i = successor next m j := by
  induction n generalizing i with
  | zero =>
      cases h
      rw [Nat.zero_add]
  | succ n ih =>
      rcases Option.bind_eq_some_iff.mp h with ⟨k, hk, hj⟩
      rw [Nat.succ_add]
      simp only [successor, hk, Option.bind_some]
      exact ih hj

/-- A chain without a circle has no more cells than there are. -/
theorem Linear.successor_index_lt (h : Linear next) {size : Nat}
    (hsize : forall i j, next i = some j -> j < size) {n i j : Nat}
    (hi : i < size) (hn : successor next n i = some j) : n < size := by
  rcases h.acyclic with ⟨rank, hrank⟩
  have hcell : forall m : Fin (n + 1), exists k, successor next m i = some k :=
    fun m => successor_of_le hn (Nat.le_of_lt_succ m.isLt)
  choose cell hcells using hcell
  have hbound : forall m, cell m < size :=
    fun m => successor_lt hsize hi (hcells m)
  have hinjective : Function.Injective fun m => (⟨cell m, hbound m⟩ : Fin size) := by
    intro m m' heq
    have hsame : cell m = cell m' := congrArg Fin.val heq
    have hne : forall a b : Fin (n + 1), a.val < b.val -> cell a ≠ cell b := by
      intro a b hlt hcell
      have hstep : successor next (b.val - a.val) (cell a) = some (cell b) := by
        rw [← successor_add (hcells a), ← hcells b]
        congr 1
        omega
      have hle := rank_successor hrank hstep
      rw [hcell] at hle
      omega
    rcases Nat.lt_trichotomy m.val m'.val with hlt | heq' | hgt
    · exact absurd hsame (hne m m' hlt)
    · exact Fin.ext heq'
    · exact absurd hsame.symm (hne m' m hgt)
  have hcard := Fintype.card_le_of_injective _ hinjective
  simp only [Fintype.card_fin] at hcard
  exact hcard

theorem Linear.chainFind_isSome (h : Linear next) {size : Nat}
    (hsize : forall i j, next i = some j -> j < size)
    (test : Nat -> Bool) {i j : Nat} (hi : i < size)
    (hfollows : Follows next i j) (htest : test j = true) :
    (chainFind next test size i).isSome = true := by
  rcases exists_successor hfollows with ⟨n, hn⟩
  exact chainFind_of_successor hn htest (h.successor_index_lt hsize hi hn)

theorem Linear.chainFind_of_via (h : Linear next) {size : Nat}
    (hsize : forall i j, next i = some j -> j < size)
    (test : Nat -> Bool) {i j : Nat} (hi : i < size)
    (hvia : FollowsVia next (fun k => test k = false) i j)
    (htest : test j = true) : chainFind next test size i = some j := by
  have hsome := h.chainFind_isSome hsize test hi hvia.follows htest
  clear hi
  generalize size = fuel at hsome
  induction hvia using Relation.ReflTransGen.head_induction_on
    generalizing fuel with
  | refl =>
      cases fuel with
      | zero => cases hsome
      | succ fuel => simp only [chainFind, if_pos htest]
  | head hk _ ih =>
      cases fuel with
      | zero => cases hsome
      | succ fuel =>
          simp only [chainFind, hk.1, hk.2, Bool.false_eq_true, if_false]
            at hsome ⊢
          exact ih fuel hsome

theorem Linear.via_ne (h : Linear next) {via : Nat -> Prop} {i j : Nat}
    (hvia : FollowsVia next via i j) :
    FollowsVia next (fun k => via k ∧ k ≠ j) i j := by
  rcases h.acyclic with ⟨rank, hrank⟩
  have hle : forall {a}, FollowsVia next via a j -> rank j ≤ rank a := by
    intro a ha
    induction ha using Relation.ReflTransGen.head_induction_on with
    | refl => exact Nat.le_refl _
    | head hab _ ih => exact Nat.le_trans ih (Nat.le_of_lt (hrank _ _ hab.2))
  induction hvia using Relation.ReflTransGen.head_induction_on with
  | refl => exact FollowsVia.refl j
  | @head a b hab hbj ih =>
      have hne : a ≠ j := by
        rintro rfl
        have hlt := hrank _ _ hab.2
        have hge := hle hbj
        omega
      exact Relation.ReflTransGen.head ⟨⟨hab.1, hne⟩, hab.2⟩ ih

/-!
# Linking a fresh cell behind another one
-/

/-- The cell `n` becomes the successor of the cell `a`. -/
def insertAfter (next : Nat -> Option Nat) (a n : Nat) : Nat -> Option Nat :=
  fun i => if i = a then some n else if i = n then next a else next i

variable {a m n p : Nat}

theorem insertAfter_self : insertAfter next a n a = some n := if_pos rfl

theorem insertAfter_new (hne : n ≠ a) : insertAfter next a n n = next a := by
  unfold insertAfter
  rw [if_neg hne, if_pos rfl]

theorem insertAfter_other {i : Nat} (ha : i ≠ a) (hn : i ≠ n) :
    insertAfter next a n i = next i := by
  unfold insertAfter
  rw [if_neg ha, if_neg hn]

/-- A cell that is linked in lies on the chains that the cell before lies on. -/
theorem FollowsVia.insertAfter {via via' : Nat -> Prop} {i j : Nat}
    (hend : next n = none) (hne : n ≠ a) (hvia : forall k, via k -> via' k)
    (hnew : via' n) (h : FollowsVia next via i j) :
    FollowsVia (insertAfter next a n) via' i j := by
  induction h with
  | refl => exact FollowsVia.refl i
  | @tail b c _ hbc ih =>
      rcases hbc with ⟨hb, hbc⟩
      by_cases hba : b = a
      · subst hba
        refine (ih.tail (hvia b hb) insertAfter_self).tail hnew ?_
        rw [insertAfter_new hne]
        exact hbc
      · have hbn : b ≠ n := by
          rintro rfl
          rw [hend] at hbc
          cases hbc
        refine ih.tail (hvia b hb) ?_
        rw [insertAfter_other hba hbn]
        exact hbc

theorem Follows.insertAfter {i j : Nat} (hend : next n = none)
    (hne : n ≠ a) (h : Follows next i j) :
    Follows (insertAfter next a n) i j :=
  ((follows_iff_via.mp h).insertAfter hend hne (fun _ => id) trivial).follows

theorem Linear.insertAfter (h : Linear next) (hend : next n = none)
    (hfresh : forall i, next i ≠ some n) (hne : n ≠ a) :
    Linear (insertAfter next a n) := by
  have hcases : forall i k, Library.insertAfter next a n i = some k ->
      (i = a ∧ k = n) ∨ (i = n ∧ next a = some k) ∨
        (i ≠ a ∧ i ≠ n ∧ next i = some k) := by
    intro i k hik
    by_cases ha : i = a
    · subst ha
      rw [insertAfter_self] at hik
      exact Or.inl ⟨rfl, (Option.some.inj hik).symm⟩
    · by_cases hn : i = n
      · subst hn
        rw [insertAfter_new hne] at hik
        exact Or.inr (Or.inl ⟨rfl, hik⟩)
      · rw [insertAfter_other ha hn] at hik
        exact Or.inr (Or.inr ⟨ha, hn, hik⟩)
  constructor
  · intro i j k hi hj
    rcases hcases i k hi with ⟨rfl, rfl⟩ | ⟨rfl, hak⟩ | ⟨ha, hn, hik⟩
    · rcases hcases j _ hj with ⟨rfl, _⟩ | ⟨_, hnext⟩ | ⟨_, _, hnext⟩
      · rfl
      · exact absurd hnext (hfresh _)
      · exact absurd hnext (hfresh _)
    · rcases hcases j k hj with ⟨rfl, rfl⟩ | ⟨rfl, _⟩ | ⟨ha, _, hnext⟩
      · exact absurd hak (hfresh _)
      · rfl
      · exact absurd (h.injective _ _ _ hnext hak) ha
    · rcases hcases j k hj with ⟨rfl, rfl⟩ | ⟨rfl, hak⟩ | ⟨_, _, hnext⟩
      · exact absurd hik (hfresh _)
      · exact absurd (h.injective _ _ _ hik hak) ha
      · exact h.injective _ _ _ hik hnext
  · rcases h.acyclic with ⟨rank, hrank⟩
    refine ⟨fun i => if i = n then 2 * rank a else 2 * rank i + 1, ?_⟩
    intro i k hik
    rcases hcases i k hik with ⟨rfl, rfl⟩ | ⟨rfl, hak⟩ | ⟨_, hn, hik⟩
    · simp only [if_true, if_neg (Ne.symm hne)]
      omega
    · have hk : k ≠ i := fun heq => hfresh a (heq ▸ hak)
      have hlt := hrank a k hak
      simp only [if_true, if_neg hk]
      omega
    · have hk : k ≠ n := fun heq => hfresh i (heq ▸ hik)
      have hlt := hrank i k hik
      simp only [if_neg hn, if_neg hk]
      omega

/-!
# Letting a fresh cell take the place of another one
-/

/--
The cell `n` takes the place of the cell `m`, whose predecessor is `p`; the cell
`m` is left without a successor.
-/
def takeOver (next : Nat -> Option Nat) (p m n : Nat) : Nat -> Option Nat :=
  fun i =>
    if i = p then some n
    else if i = n then next m
    else if i = m then none
    else next i

theorem takeOver_cases {i k : Nat} (h : takeOver next p m n i = some k) :
    (i = p ∧ k = n) ∨ (i = n ∧ i ≠ p ∧ next m = some k) ∨
      (i ≠ p ∧ i ≠ n ∧ i ≠ m ∧ next i = some k) := by
  unfold takeOver at h
  split at h
  · rename_i hp
    exact Or.inl ⟨hp, (Option.some.inj h).symm⟩
  · rename_i hp
    split at h
    · rename_i hn
      exact Or.inr (Or.inl ⟨hn, hp, h⟩)
    · rename_i hn
      split at h
      · cases h
      · rename_i hm
        exact Or.inr (Or.inr ⟨hp, hn, hm, h⟩)

theorem takeOver_pred : takeOver next p m n p = some n := if_pos rfl

theorem takeOver_new (hp : n ≠ p) : takeOver next p m n n = next m := by
  unfold takeOver
  rw [if_neg hp, if_pos rfl]

theorem takeOver_other {i : Nat} (hp : i ≠ p) (hn : i ≠ n) (hm : i ≠ m) :
    takeOver next p m n i = next i := by
  unfold takeOver
  rw [if_neg hp, if_neg hn, if_neg hm]

section Place

variable (h : Linear next) (hpred : next p = some m) (hend : next n = none)
variable (hfresh : forall i, next i ≠ some n)

include h hpred hend hfresh

theorem Linear.takeOver : Linear (takeOver next p m n) := by
  constructor
  · intro i j k hi hj
    rcases takeOver_cases hi with ⟨rfl, rfl⟩ | ⟨rfl, _, hmk⟩ |
      ⟨_, _, him, hik⟩
    · rcases takeOver_cases hj with ⟨rfl, _⟩ | ⟨_, _, hnext⟩ | ⟨_, _, _, hnext⟩
      · rfl
      · exact absurd hnext (hfresh _)
      · exact absurd hnext (hfresh _)
    · rcases takeOver_cases hj with ⟨rfl, rfl⟩ | ⟨rfl, _, _⟩ |
        ⟨_, _, hjm, hnext⟩
      · exact absurd hmk (hfresh _)
      · rfl
      · exact absurd (h.injective _ _ _ hnext hmk) hjm
    · rcases takeOver_cases hj with ⟨rfl, rfl⟩ | ⟨rfl, _, hmk⟩ |
        ⟨_, _, _, hnext⟩
      · exact absurd hik (hfresh _)
      · exact absurd (h.injective _ _ _ hik hmk) him
      · exact h.injective _ _ _ hik hnext
  · rcases h.acyclic with ⟨rank, hrank⟩
    refine ⟨fun i => if i = n then rank m else rank i, ?_⟩
    intro i k hik
    have hpn : p ≠ n := by
      rintro rfl
      rw [hend] at hpred
      cases hpred
    rcases takeOver_cases hik with ⟨rfl, rfl⟩ | ⟨rfl, _, hmk⟩ |
      ⟨_, hn, _, hik⟩
    · simp only [if_true, if_neg hpn]
      exact hrank _ _ hpred
    · have hk : k ≠ i := fun heq => hfresh m (heq ▸ hmk)
      simp only [if_true, if_neg hk]
      exact hrank _ _ hmk
    · have hk : k ≠ n := fun heq => hfresh i (heq ▸ hik)
      simp only [if_neg hn, if_neg hk]
      exact hrank _ _ hik

/-- A chain to the old cell now leads to the new one, and others are kept. -/
theorem FollowsVia.takeOver {via via' : Nat -> Prop} {i j : Nat} (hi : i ≠ m)
    (hvia : forall k, via k -> via' k) (hnew : via' n)
    (hf : FollowsVia next via i j) :
    FollowsVia (takeOver next p m n) via' i (if j = m then n else j) := by
  have hnp : n ≠ p := by
    rintro rfl
    rw [hend] at hpred
    cases hpred
  induction hf with
  | refl =>
      rw [if_neg hi]
      exact FollowsVia.refl i
  | @tail b c hib hbc ih =>
      rcases hbc with ⟨hviab, hbc⟩
      by_cases hc : c = m
      · subst hc
        have hb : b = p := h.injective _ _ _ hbc hpred
        subst hb
        rw [if_neg (h.ne_of_next hbc)] at ih
        rw [if_pos rfl]
        exact ih.tail (hvia b hviab) takeOver_pred
      · rw [if_neg hc]
        by_cases hb : b = m
        · subst hb
          rw [if_pos rfl] at ih
          refine ih.tail hnew ?_
          rw [takeOver_new hnp]
          exact hbc
        · rw [if_neg hb] at ih
          have hbn : b ≠ n := by
            rintro rfl
            rw [hend] at hbc
            cases hbc
          have hbp : b ≠ p := by
            rintro rfl
            rw [hpred] at hbc
            exact hc (Option.some.inj hbc).symm
          refine ih.tail (hvia b hviab) ?_
          rw [takeOver_other hbp hbn hb]
          exact hbc

theorem Follows.takeOver {i j : Nat} (hi : i ≠ m) (hf : Follows next i j) :
    Follows (takeOver next p m n) i (if j = m then n else j) :=
  (FollowsVia.takeOver h hpred hend hfresh hi (fun _ => id) trivial
    (follows_iff_via.mp hf)).follows

end Place

end Chains

end Library
end LuaServer
