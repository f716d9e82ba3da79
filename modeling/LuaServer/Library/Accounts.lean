import Mathlib.Data.Set.Function
import Mathlib.Data.List.Nodup
import Mathlib.Logic.Function.Basic

/-!
# Accounts of owners and resources

Keys such as addresses and handle numbers are used again after they have been
given back.  A token table numbers the uses: the token of a key in use is never
given to another use, so it tells the uses of one key apart.  Accounts join two
such tables, one for owners and one for the resources that they hold.
-/

namespace LuaServer
namespace Library

/-- The keys in use with their tokens, the next token and the tokens given back. -/
@[ext]
structure TokenTable (key : Type) where
  live : key -> Option Nat
  next : Nat
  retired : List Nat

namespace TokenTable

section Operations

variable {key : Type} [DecidableEq key]

def issue (T : TokenTable key) (k : key) : TokenTable key :=
  { T with
      live := Function.update T.live k (some T.next)
      next := T.next + 1 }

def retire (T : TokenTable key) (k : key) (token : Nat) : TokenTable key :=
  { T with
      live := Function.update T.live k none
      retired := T.retired ++ [token] }

end Operations

/-- Every key is taken out of use, without its token being given back. -/
def clear {key : Type} (T : TokenTable key) : TokenTable key :=
  { T with live := fun _ => none }

structure Sound {key : Type} (T : TokenTable key) : Prop where
  live_lt : forall {k token}, T.live k = some token -> token < T.next
  live_injective : forall {k k' token},
    T.live k = some token -> T.live k' = some token -> k = k'
  retired_lt : forall {token}, token ∈ T.retired -> token < T.next
  retired_nodup : T.retired.Nodup
  notMem_retired : forall {k token}, T.live k = some token -> token ∉ T.retired

section Invariants

variable {key : Type} [DecidableEq key] {T : TokenTable key} {k : key}

theorem live_issue_cases {k' : key} {token : Nat}
    (h : (T.issue k).live k' = some token) :
    (k' = k ∧ token = T.next) ∨ (k' ≠ k ∧ T.live k' = some token) := by
  unfold issue at h
  simp only at h
  by_cases hk : k' = k
  · rw [hk, Function.update_self, Option.some.injEq] at h
    exact Or.inl ⟨hk, h.symm⟩
  · rw [Function.update_of_ne hk] at h
    exact Or.inr ⟨hk, h⟩

theorem live_retire_cases {k' : key} {token token' : Nat}
    (h : (T.retire k token).live k' = some token') :
    k' ≠ k ∧ T.live k' = some token' := by
  unfold retire at h
  simp only at h
  by_cases hk : k' = k
  · rw [hk, Function.update_self] at h
    cases h
  · rw [Function.update_of_ne hk] at h
    exact ⟨hk, h⟩

theorem Sound.issue (h : T.Sound) (k : key) : (T.issue k).Sound where
  live_lt := by
    intro k' token hlive
    rcases live_issue_cases hlive with ⟨_, rfl⟩ | ⟨_, hold⟩
    · exact Nat.lt_succ_self _
    · exact Nat.lt_succ_of_lt (h.live_lt hold)
  live_injective := by
    intro k₁ k₂ token h₁ h₂
    rcases live_issue_cases h₁ with ⟨hk₁, ht₁⟩ | ⟨_, hold₁⟩
    · rcases live_issue_cases h₂ with ⟨hk₂, _⟩ | ⟨_, hold₂⟩
      · rw [hk₁, hk₂]
      · exact absurd (h.live_lt hold₂) (ht₁ ▸ Nat.lt_irrefl _)
    · rcases live_issue_cases h₂ with ⟨_, ht₂⟩ | ⟨_, hold₂⟩
      · exact absurd (h.live_lt hold₁) (ht₂ ▸ Nat.lt_irrefl _)
      · exact h.live_injective hold₁ hold₂
  retired_lt := fun hmem => Nat.lt_succ_of_lt (h.retired_lt hmem)
  retired_nodup := h.retired_nodup
  notMem_retired := by
    intro k' token hlive hmem
    rcases live_issue_cases hlive with ⟨_, rfl⟩ | ⟨_, hold⟩
    · exact Nat.lt_irrefl _ (h.retired_lt hmem)
    · exact h.notMem_retired hold hmem

theorem Sound.retire (h : T.Sound) {token : Nat}
    (hlive : T.live k = some token) : (T.retire k token).Sound where
  live_lt := fun hlive' => h.live_lt (live_retire_cases hlive').2
  live_injective := fun h₁ h₂ =>
    h.live_injective (live_retire_cases h₁).2 (live_retire_cases h₂).2
  retired_lt := by
    intro token' hmem
    rcases List.mem_append.mp hmem with hold | hnew
    · exact h.retired_lt hold
    · rw [List.mem_singleton.mp hnew]
      exact h.live_lt hlive
  retired_nodup := by
    rw [TokenTable.retire, List.nodup_append]
    refine ⟨h.retired_nodup, List.nodup_singleton token, ?_⟩
    intro x hx y hy hxy
    rw [List.mem_singleton.mp hy] at hxy
    exact h.notMem_retired hlive (hxy ▸ hx)
  notMem_retired := by
    intro k' token' hlive' hmem
    rcases live_retire_cases hlive' with ⟨hne, hold⟩
    rcases List.mem_append.mp hmem with hmem | hmem
    · exact h.notMem_retired hold hmem
    · rw [List.mem_singleton.mp hmem] at hold
      exact hne (h.live_injective hold hlive)

end Invariants

/-!
# Complete tables

Every token that was given out, from a first one on, is in use or was given back.
-/

def Complete {key : Type} (T : TokenTable key) (first : Nat) : Prop :=
  forall token, first ≤ token -> token < T.next ->
    token ∈ T.retired ∨ exists k, T.live k = some token

/-- What an operation may do to a table whose keys are fresh when they are issued. -/
inductive Change {key : Type} [DecidableEq key] (T : TokenTable key) :
    TokenTable key -> Prop where
  | kept : Change T T
  | issued {k : key} : T.live k = none -> Change T (T.issue k)
  | retired {k : key} {token : Nat} :
      T.live k = some token -> Change T (T.retire k token)

section Changes

variable {key : Type} [DecidableEq key] {T T' : TokenTable key} {k : key}
variable {token first : Nat}

theorem Complete.issue (h : T.Complete first) (hfree : T.live k = none) :
    (T.issue k).Complete first := by
  intro token hle hlt
  rcases Nat.lt_succ_iff_lt_or_eq.mp hlt with hlt | rfl
  · rcases h token hle hlt with hmem | ⟨k', hlive⟩
    · exact Or.inl hmem
    · have hne : k' ≠ k := by
        rintro rfl
        rw [hfree] at hlive
        cases hlive
      exact Or.inr ⟨k', (Function.update_of_ne hne _ _).trans hlive⟩
  · exact Or.inr ⟨k, Function.update_self _ _ _⟩

theorem Complete.retire (h : T.Complete first) (hlive : T.live k = some token) :
    (T.retire k token).Complete first := by
  intro token' hle hlt
  rcases h token' hle hlt with hmem | ⟨k', hlive'⟩
  · exact Or.inl (List.mem_append_left _ hmem)
  · by_cases hk : k' = k
    · rw [hk, hlive, Option.some.injEq] at hlive'
      rw [← hlive']
      exact Or.inl (List.mem_append_right _ List.mem_cons_self)
    · exact Or.inr ⟨k', (Function.update_of_ne hk _ _).trans hlive'⟩

theorem Change.sound (h : T.Change T') (hsound : T.Sound) : T'.Sound := by
  cases h with
  | kept => exact hsound
  | issued => exact hsound.issue _
  | retired hlive => exact hsound.retire hlive

theorem Change.complete (h : T.Change T') (hcomplete : T.Complete first) :
    T'.Complete first := by
  cases h with
  | kept => exact hcomplete
  | issued hfree => exact hcomplete.issue hfree
  | retired hlive => exact hcomplete.retire hlive

theorem Change.next_le (h : T.Change T') : T.next ≤ T'.next := by
  cases h with
  | kept | retired => exact Nat.le_refl _
  | issued => exact Nat.le_succ _

theorem Change.mem_retired (h : T.Change T') (hmem : token ∈ T.retired) :
    token ∈ T'.retired := by
  cases h with
  | kept | issued => exact hmem
  | retired => exact List.mem_append_left _ hmem

/-- No key gets a token again that no key is in use under. -/
theorem Change.not_live (h : T.Change T') (hlt : token < T.next)
    (hnone : forall k, T.live k ≠ some token) :
    forall k, T'.live k ≠ some token := by
  intro k hlive
  cases h with
  | kept => exact hnone k hlive
  | issued =>
      rcases live_issue_cases hlive with ⟨_, rfl⟩ | ⟨_, hold⟩
      · exact Nat.lt_irrefl _ hlt
      · exact hnone k hold
  | retired => exact hnone k (live_retire_cases hlive).2

omit [DecidableEq key] in
/-- A token that was given out is back exactly if no key is in use under it. -/
theorem Sound.mem_retired_iff (hsound : T.Sound) (hcomplete : T.Complete first)
    (hle : first ≤ token) (hlt : token < T.next) :
    token ∈ T.retired <-> forall k, T.live k ≠ some token := by
  constructor
  · intro hmem k hlive
    exact hsound.notMem_retired hlive hmem
  · intro hnone
    rcases hcomplete token hle hlt with hmem | ⟨k, hlive⟩
    · exact hmem
    · exact absurd hlive (hnone k)

end Changes

/-- The same with the loss of everything that is in use. -/
inductive Turnover {key : Type} [DecidableEq key] (T : TokenTable key) :
    TokenTable key -> Prop where
  | change {T' : TokenTable key} : Change T T' -> Turnover T T'
  | cleared : Turnover T T.clear

section Turnovers

variable {key : Type} [DecidableEq key] {T T' : TokenTable key} {token : Nat}

omit [DecidableEq key] in
theorem Sound.clear (h : T.Sound) : T.clear.Sound where
  live_lt := fun hlive => by cases hlive
  live_injective := fun hlive => by cases hlive
  retired_lt := h.retired_lt
  retired_nodup := h.retired_nodup
  notMem_retired := fun hlive => by cases hlive

theorem Turnover.sound (h : T.Turnover T') (hsound : T.Sound) : T'.Sound := by
  cases h with
  | change h => exact h.sound hsound
  | cleared => exact hsound.clear

theorem Turnover.next_le (h : T.Turnover T') : T.next ≤ T'.next := by
  cases h with
  | change h => exact h.next_le
  | cleared => exact Nat.le_refl _

theorem Turnover.not_live (h : T.Turnover T') (hlt : token < T.next)
    (hnone : forall k, T.live k ≠ some token) :
    forall k, T'.live k ≠ some token := by
  cases h with
  | change h => exact h.not_live hlt hnone
  | cleared =>
      intro k hlive
      cases hlive

theorem Turnover.live_of_new (h : T.Turnover T') (hle : T.next ≤ token)
    (hlt : token < T'.next) : exists k, T'.live k = some token := by
  have hold : ¬token < T.next := Nat.not_lt.mpr hle
  cases h with
  | cleared => exact absurd hlt hold
  | change h =>
      cases h with
      | kept | retired => exact absurd hlt hold
      | @issued k =>
          have heq : token = T.next :=
            (Nat.lt_succ_iff_lt_or_eq.mp hlt).resolve_left hold
          rw [heq]
          exact ⟨k, Function.update_self _ _ _⟩

end Turnovers

theorem complete_next {key : Type} (T : TokenTable key) : T.Complete T.next :=
  fun _ hle hlt => absurd hlt (Nat.not_lt.mpr hle)

theorem empty_sound {key : Type} :
    ({ live := fun _ => none, next := 0, retired := [] } :
      TokenTable key).Sound where
  live_lt := fun h => by cases h
  live_injective := fun h => by cases h
  retired_lt := fun h => by cases h
  retired_nodup := List.nodup_nil
  notMem_retired := fun h => by cases h

end TokenTable

/-!
# Owners and resources
-/

/-- `holds` gives the resource an owner holds and the token it got it under. -/
@[ext]
structure Accounts (owner res : Type) where
  owners : TokenTable owner
  resources : TokenTable res
  holds : owner -> Option (res × Nat)

namespace Accounts

section Operations

variable {owner res : Type} [DecidableEq owner] [DecidableEq res]

def lose (A : Accounts owner res) (r : res) : Accounts owner res :=
  { A with resources := A.resources.issue r }

def create (A : Accounts owner res) (o : owner) (r : res) :
    Accounts owner res where
  owners := A.owners.issue o
  resources := A.resources.issue r
  holds := Function.update A.holds o (some (r, A.resources.next))

def close (A : Accounts owner res) (o : owner) (s : Nat) (r : res) (t : Nat) :
    Accounts owner res where
  owners := A.owners.retire o s
  resources := A.resources.retire r t
  holds := Function.update A.holds o none

end Operations

/-- All resources are taken away, and the owners are left as they are. -/
def shut {owner res : Type} (A : Accounts owner res) : Accounts owner res :=
  { A with resources := A.resources.clear }

/-- No owner holds a resource that is not open or that another owner holds. -/
structure Sound {owner res : Type} (A : Accounts owner res) : Prop where
  owners : A.owners.Sound
  resources : A.resources.Sound
  holds_iff : forall o, A.holds o = none <-> A.owners.live o = none
  holds_live : forall {o r t},
    A.holds o = some (r, t) -> A.resources.live r = some t
  holds_injective : forall {o o' r t t'},
    A.holds o = some (r, t) -> A.holds o' = some (r, t') -> o = o'

/-- Every open resource has an owner. -/
def Balanced {owner res : Type} (A : Accounts owner res) : Prop :=
  forall r, A.resources.live r ≠ none -> exists o t, A.holds o = some (r, t)

section Free

variable {owner res : Type} {A : Accounts owner res} {r : res}

theorem Sound.ne_of_free (h : A.Sound) (hfree : A.resources.live r = none)
    {o' : owner} {r' : res} {t : Nat} (hholds : A.holds o' = some (r', t)) :
    r' ≠ r := by
  rintro rfl
  have hlive := h.holds_live hholds
  rw [hfree] at hlive
  cases hlive

theorem Sound.lose [DecidableEq res] (h : A.Sound)
    (hfree : A.resources.live r = none) : (A.lose r).Sound where
  owners := h.owners
  resources := h.resources.issue r
  holds_iff := h.holds_iff
  holds_live := by
    intro o' r' t hholds
    rw [← h.holds_live hholds]
    exact Function.update_of_ne (h.ne_of_free hfree hholds) _ _
  holds_injective := h.holds_injective

end Free

theorem Sound.shut {owner res : Type} {A : Accounts owner res} (h : A.Sound)
    (hholds : forall o, A.holds o = none) : A.shut.Sound where
  owners := h.owners
  resources := h.resources.clear
  holds_iff := h.holds_iff
  holds_live := by
    intro o r t hsome
    have hnone := hholds o
    cases hnone.symm.trans hsome
  holds_injective := h.holds_injective

section Invariants

variable {owner res : Type} [DecidableEq owner] [DecidableEq res]
variable {A : Accounts owner res} {o : owner} {r : res}

theorem holds_create_cases {o' : owner} {r' : res} {t : Nat}
    (hholds : (A.create o r).holds o' = some (r', t)) :
    (o' = o ∧ r' = r ∧ t = A.resources.next) ∨
      (o' ≠ o ∧ A.holds o' = some (r', t)) := by
  unfold create at hholds
  simp only at hholds
  by_cases ho : o' = o
  · rw [ho, Function.update_self, Option.some.injEq, Prod.mk.injEq] at hholds
    exact Or.inl ⟨ho, hholds.1.symm, hholds.2.symm⟩
  · rw [Function.update_of_ne ho] at hholds
    exact Or.inr ⟨ho, hholds⟩

theorem Sound.create (h : A.Sound) (hfree : A.resources.live r = none) :
    (A.create o r).Sound where
  owners := h.owners.issue o
  resources := h.resources.issue r
  holds_iff := by
    intro o'
    unfold Accounts.create TokenTable.issue
    by_cases ho : o' = o
    · simp [ho]
    · simpa [Function.update_of_ne ho] using h.holds_iff o'
  holds_live := by
    intro o' r' t hholds
    rcases holds_create_cases hholds with ⟨_, rfl, rfl⟩ | ⟨_, hold⟩
    · exact Function.update_self _ _ _
    · rw [← h.holds_live hold]
      exact Function.update_of_ne (h.ne_of_free hfree hold) _ _
  holds_injective := by
    intro o₁ o₂ r' t₁ t₂ h₁ h₂
    rcases holds_create_cases h₁ with ⟨ho₁, hr₁, _⟩ | ⟨_, hold₁⟩
    · rcases holds_create_cases h₂ with ⟨ho₂, _, _⟩ | ⟨_, hold₂⟩
      · rw [ho₁, ho₂]
      · exact absurd hr₁ (h.ne_of_free hfree hold₂)
    · rcases holds_create_cases h₂ with ⟨_, hr₂, _⟩ | ⟨_, hold₂⟩
      · exact absurd hr₂ (h.ne_of_free hfree hold₁)
      · exact h.holds_injective hold₁ hold₂

theorem holds_close_cases {o' : owner} {s t : Nat} {x : res × Nat}
    (hholds : (A.close o s r t).holds o' = some x) :
    o' ≠ o ∧ A.holds o' = some x := by
  unfold close at hholds
  simp only at hholds
  by_cases ho : o' = o
  · rw [ho, Function.update_self] at hholds
    cases hholds
  · rw [Function.update_of_ne ho] at hholds
    exact ⟨ho, hholds⟩

theorem Sound.close (h : A.Sound) {s t : Nat}
    (howner : A.owners.live o = some s) (hholds : A.holds o = some (r, t)) :
    (A.close o s r t).Sound where
  owners := h.owners.retire howner
  resources := h.resources.retire (h.holds_live hholds)
  holds_iff := by
    intro o'
    unfold Accounts.close TokenTable.retire
    by_cases ho : o' = o
    · simp [ho]
    · simpa [Function.update_of_ne ho] using h.holds_iff o'
  holds_live := by
    intro o' r' t' hholds'
    rcases holds_close_cases hholds' with ⟨hne, hold⟩
    have hr : r' ≠ r := by
      rintro rfl
      exact hne (h.holds_injective hold hholds)
    rw [← h.holds_live hold]
    exact Function.update_of_ne hr _ _
  holds_injective := fun h₁ h₂ =>
    h.holds_injective (holds_close_cases h₁).2 (holds_close_cases h₂).2

theorem Balanced.create (h : A.Balanced) (hfree : A.holds o = none) :
    (A.create o r).Balanced := by
  intro r' hlive
  by_cases hr : r' = r
  · rw [hr]
    exact ⟨o, A.resources.next, Function.update_self _ _ _⟩
  · have hold : A.resources.live r' ≠ none := by
      intro hnone
      apply hlive
      rw [← hnone]
      exact Function.update_of_ne hr _ _
    rcases h r' hold with ⟨o', t, hholds⟩
    have ho : o' ≠ o := by
      rintro rfl
      rw [hfree] at hholds
      cases hholds
    exact ⟨o', t, (Function.update_of_ne ho _ _).trans hholds⟩

theorem Balanced.close (h : A.Balanced) {s t : Nat}
    (hholds : A.holds o = some (r, t)) :
    (A.close o s r t).Balanced := by
  intro r' hlive
  have hr : r' ≠ r := by
    rintro rfl
    exact hlive (Function.update_self _ _ _)
  have hold : A.resources.live r' ≠ none := by
    intro hnone
    apply hlive
    rw [← hnone]
    exact Function.update_of_ne hr _ _
  rcases h r' hold with ⟨o', t', hholds'⟩
  have ho : o' ≠ o := by
    rintro rfl
    rw [hholds] at hholds'
    exact hr (by cases hholds'; rfl)
  exact ⟨o', t', (Function.update_of_ne ho _ _).trans hholds'⟩

omit [DecidableEq owner] [DecidableEq res] in
/-- In sound and balanced accounts, holding is a one-to-one correspondence. -/
theorem Sound.bijOn (h : A.Sound) (hbalanced : A.Balanced) {f : owner -> res}
    (hf : forall o r t, A.holds o = some (r, t) -> f o = r) :
    Set.BijOn f {o | A.owners.live o ≠ none} {r | A.resources.live r ≠ none} := by
  have hholds : forall o, A.owners.live o ≠ none ->
      exists r t, A.holds o = some (r, t) := by
    intro o ho
    cases hcase : A.holds o with
    | none => exact absurd ((h.holds_iff o).mp hcase) ho
    | some x => exact ⟨x.1, x.2, rfl⟩
  refine ⟨?_, ?_, ?_⟩
  · intro o ho
    rcases hholds o ho with ⟨r, t, hr⟩
    show A.resources.live (f o) ≠ none
    rw [hf o r t hr, h.holds_live hr]
    intro hnone
    cases hnone
  · intro o ho o' ho' heq
    rcases hholds o ho with ⟨r, t, hr⟩
    rcases hholds o' ho' with ⟨r', t', hr'⟩
    rw [hf o r t hr, hf o' r' t' hr'] at heq
    exact h.holds_injective hr (heq ▸ hr')
  · intro r hr
    rcases hbalanced r hr with ⟨o, t, ho⟩
    refine ⟨o, ?_, hf o r t ho⟩
    intro hnone
    rw [(h.holds_iff o).mpr hnone] at ho
    cases ho

end Invariants

end Accounts

end Library
end LuaServer
