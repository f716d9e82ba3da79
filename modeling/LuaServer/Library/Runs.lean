import Mathlib.Data.List.Basic

/-!
# Runs of partial step functions

A system is a partial step function: an action that is not possible in a state
has no successor.  This module collects the run semantics of such systems and
the induction rules by which an invariant of one step becomes an invariant of a
whole run.
-/

namespace LuaServer
namespace Library

section Runs

variable {state action : Type}

/-- Perform the actions one after the other. -/
def runFrom (step : state -> action -> Option state) :
    state -> List action -> Option state
  | s, [] => some s
  | s, a :: rest =>
      match step s a with
      | none => none
      | some s' => runFrom step s' rest

/-- Every step of the run of the actions meets the condition. -/
def AllSteps (step : state -> action -> Option state)
    (cond : state -> action -> Prop) : state -> List action -> Prop
  | _, [] => True
  | s, a :: rest =>
      cond s a ∧
        match step s a with
        | none => True
        | some s' => AllSteps step cond s' rest

instance decidableAllSteps (step : state -> action -> Option state)
    (cond : state -> action -> Prop) [forall s a, Decidable (cond s a)] :
    (s : state) -> (actions : List action) ->
      Decidable (AllSteps step cond s actions)
  | _, [] => isTrue trivial
  | s, a :: rest =>
      match hstep : step s a with
      | none => decidable_of_iff (cond s a) (by simp [AllSteps, hstep])
      | some s' =>
          have := decidableAllSteps step cond s' rest
          decidable_of_iff (cond s a ∧ AllSteps step cond s' rest)
            (by simp [AllSteps, hstep])

/-- A state that some run from the given state ends in. -/
def Reachable (step : state -> action -> Option state) (s s' : state) : Prop :=
  exists actions, runFrom step s actions = some s'

variable {step : state -> action -> Option state}

@[simp] theorem runFrom_nil (s : state) : runFrom step s [] = some s := rfl

theorem runFrom_cons (s : state) (a : action) (rest : List action) :
    runFrom step s (a :: rest) =
      match step s a with
      | none => none
      | some s' => runFrom step s' rest := rfl

theorem runFrom_cons_some {s s' : state} {a : action} {rest : List action}
    (h : runFrom step s (a :: rest) = some s') :
    exists mid, step s a = some mid ∧ runFrom step mid rest = some s' := by
  rw [runFrom_cons] at h
  cases hstep : step s a with
  | none =>
      rw [hstep] at h
      cases h
  | some mid =>
      rw [hstep] at h
      exact ⟨mid, rfl, h⟩

theorem runFrom_append (s : state) (first second : List action) :
    runFrom step s (first ++ second) =
      match runFrom step s first with
      | none => none
      | some mid => runFrom step mid second := by
  induction first generalizing s with
  | nil => rfl
  | cons a rest ih =>
      rw [List.cons_append, runFrom_cons, runFrom_cons]
      cases step s a with
      | none => rfl
      | some s' => exact ih s'

theorem runFrom_append_some {s s' : state} {first second : List action}
    (h : runFrom step s (first ++ second) = some s') :
    exists mid, runFrom step s first = some mid ∧
      runFrom step mid second = some s' := by
  rw [runFrom_append] at h
  cases hfirst : runFrom step s first with
  | none =>
      rw [hfirst] at h
      cases h
  | some mid =>
      rw [hfirst] at h
      exact ⟨mid, rfl, h⟩

theorem allSteps_cons_of_step {cond : state -> action -> Prop}
    {s s' : state} {a : action} {rest : List action}
    (hstep : step s a = some s') :
    AllSteps step cond s (a :: rest) <->
      cond s a ∧ AllSteps step cond s' rest := by
  simp [AllSteps, hstep]

theorem allSteps_append {cond : state -> action -> Prop}
    {s mid : state} {first second : List action}
    (hfirst : runFrom step s first = some mid) :
    AllSteps step cond s (first ++ second) <->
      AllSteps step cond s first ∧ AllSteps step cond mid second := by
  induction first generalizing s with
  | nil =>
      cases hfirst
      simp [AllSteps]
  | cons a rest ih =>
      rcases runFrom_cons_some hfirst with ⟨s', hstep, hrest⟩
      rw [List.cons_append, allSteps_cons_of_step hstep,
        allSteps_cons_of_step hstep, ih hrest, and_assoc]

theorem AllSteps.imp {cond cond' : state -> action -> Prop}
    (himp : forall s a, cond s a -> cond' s a)
    {s : state} {actions : List action}
    (h : AllSteps step cond s actions) : AllSteps step cond' s actions := by
  induction actions generalizing s with
  | nil => trivial
  | cons a rest ih =>
      refine ⟨himp s a h.1, ?_⟩
      have htail := h.2
      cases hstep : step s a with
      | none => trivial
      | some s' =>
          rw [hstep] at htail
          exact ih htail

theorem AllSteps.and {cond cond' : state -> action -> Prop}
    {s : state} {actions : List action} (h : AllSteps step cond s actions)
    (h' : AllSteps step cond' s actions) :
    AllSteps step (fun x a => cond x a ∧ cond' x a) s actions := by
  induction actions generalizing s with
  | nil => trivial
  | cons a rest ih =>
      rcases h with ⟨hcond, hrest⟩
      rcases h' with ⟨hcond', hrest'⟩
      refine ⟨⟨hcond, hcond'⟩, ?_⟩
      cases hstep : step s a with
      | none => trivial
      | some s' =>
          rw [hstep] at hrest hrest'
          exact ih hrest hrest'

/-- A condition on the actions alone. -/
theorem allSteps_of_forall {P : action -> Prop} {s : state}
    {actions : List action} (h : forall a, a ∈ actions -> P a) :
    AllSteps step (fun _ a => P a) s actions := by
  induction actions generalizing s with
  | nil => trivial
  | cons a rest ih =>
      refine ⟨h a List.mem_cons_self, ?_⟩
      cases step s a with
      | none => trivial
      | some s' => exact ih fun b hb => h b (List.mem_cons_of_mem _ hb)

theorem runFrom_invariant {inv : state -> Prop}
    {cond : state -> action -> Prop}
    (hpreserved : forall s a s',
      inv s -> cond s a -> step s a = some s' -> inv s')
    {s s' : state} {actions : List action}
    (hinv : inv s) (hcond : AllSteps step cond s actions)
    (hrun : runFrom step s actions = some s') : inv s' := by
  induction actions generalizing s with
  | nil =>
      cases hrun
      exact hinv
  | cons a rest ih =>
      rcases runFrom_cons_some hrun with ⟨mid, hstep, hrest⟩
      have hsplit := (allSteps_cons_of_step hstep).mp hcond
      exact ih (hpreserved s a mid hinv hsplit.1 hstep) hsplit.2 hrest

theorem reachable_invariant {inv : state -> Prop}
    (hpreserved : forall s a s', inv s -> step s a = some s' -> inv s')
    {s s' : state} (hinv : inv s) (hreach : Reachable step s s') :
    inv s' := by
  rcases hreach with ⟨actions, hrun⟩
  induction actions generalizing s with
  | nil =>
      cases hrun
      exact hinv
  | cons a rest ih =>
      rcases runFrom_cons_some hrun with ⟨mid, hstep, hrest⟩
      exact ih (hpreserved s a mid hinv hstep) hrest

/--
Two conditions on steps that agree wherever an invariant holds agree on runs,
if the first one keeps the invariant.
-/
theorem allSteps_congr {inv : state -> Prop}
    {cond cond' : state -> action -> Prop}
    (hagree : forall s a s', inv s -> step s a = some s' ->
      (cond s a <-> cond' s a))
    (hpreserved : forall s a s',
      inv s -> cond s a -> step s a = some s' -> inv s')
    {s s' : state} {actions : List action}
    (hinv : inv s) (hrun : runFrom step s actions = some s') :
    AllSteps step cond s actions <-> AllSteps step cond' s actions := by
  induction actions generalizing s with
  | nil => exact Iff.rfl
  | cons a rest ih =>
      rcases runFrom_cons_some hrun with ⟨mid, hstep, hrest⟩
      rw [allSteps_cons_of_step hstep, allSteps_cons_of_step hstep]
      constructor
      · intro h
        have hmid := hpreserved s a mid hinv h.1 hstep
        exact ⟨(hagree s a mid hinv hstep).mp h.1,
          (ih hmid hrest).mp h.2⟩
      · intro h
        have hcond := (hagree s a mid hinv hstep).mpr h.1
        have hmid := hpreserved s a mid hinv hcond hstep
        exact ⟨hcond, (ih hmid hrest).mpr h.2⟩

/--
A step that breaks the condition leaves a mark that stays: without the mark at
the end of a run, every step of it met the condition.  The invariant may be used
as long as all steps did.
-/
theorem allSteps_of_final {inv mark : state -> Prop}
    {cond : state -> action -> Prop}
    (hpreserved : forall s a s',
      inv s -> cond s a -> step s a = some s' -> inv s')
    (hmark : forall s a s',
      inv s -> step s a = some s' -> ¬cond s a -> mark s')
    (hstays : forall s a s', mark s -> step s a = some s' -> mark s')
    {s s' : state} {actions : List action} (hinv : inv s)
    (hrun : runFrom step s actions = some s') (hfinal : ¬mark s') :
    AllSteps step cond s actions := by
  induction actions generalizing s with
  | nil => trivial
  | cons a rest ih =>
      rcases runFrom_cons_some hrun with ⟨mid, hstep, hrest⟩
      have hcond : cond s a := by
        by_contra hbroken
        exact hfinal (reachable_invariant hstays
          (hmark s a mid hinv hstep hbroken) ⟨rest, hrest⟩)
      rw [allSteps_cons_of_step hstep]
      exact ⟨hcond, ih (hpreserved s a mid hinv hcond hstep) hrest⟩

/-- What holds at the end of a run and not at its start came about in some step. -/
theorem exists_step_of_run {P : state -> Prop} {s s' : state}
    {actions : List action} (hstart : ¬P s)
    (hrun : runFrom step s actions = some s') (hend : P s') :
    exists before a after mid mid', actions = before ++ a :: after ∧
      runFrom step s before = some mid ∧ step mid a = some mid' ∧
      ¬P mid ∧ P mid' ∧ runFrom step mid' after = some s' := by
  induction actions generalizing s with
  | nil =>
      cases hrun
      exact absurd hend hstart
  | cons a rest ih =>
      rcases runFrom_cons_some hrun with ⟨next, hstep, hrest⟩
      by_cases hnext : P next
      · exact ⟨[], a, rest, s, next, rfl, rfl, hstep, hstart, hnext, hrest⟩
      · rcases ih hnext hrest with
          ⟨before, b, after, mid, mid', rfl, hbefore, hb, hmid, hmid', hafter⟩
        refine ⟨a :: before, b, after, mid, mid', rfl, ?_, hb, hmid, hmid', hafter⟩
        rw [runFrom_cons, hstep]
        exact hbefore

theorem Reachable.trans {s s' s'' : state} (h : Reachable step s s')
    (h' : Reachable step s' s'') : Reachable step s s'' := by
  rcases h with ⟨first, hfirst⟩
  rcases h' with ⟨second, hsecond⟩
  refine ⟨first ++ second, ?_⟩
  rw [runFrom_append, hfirst]
  exact hsecond

theorem Reachable.next {s s' s'' : state} {a : action}
    (h : Reachable step s s') (hstep : step s' a = some s'') :
    Reachable step s s'' := by
  rcases h with ⟨actions, hrun⟩
  refine ⟨actions ++ [a], ?_⟩
  rw [runFrom_append, hrun]
  show runFrom step s' [a] = some s''
  rw [runFrom_cons, hstep]
  rfl

/-- Every state that the run comes through has the property. -/
def AllStates (step : state -> action -> Option state) (P : state -> Prop)
    (s : state) (actions : List action) : Prop :=
  forall before after mid, actions = before ++ after ->
    runFrom step s before = some mid -> P mid

theorem AllStates.tail {P : state -> Prop} {s mid : state} {a : action}
    {rest : List action} (h : AllStates step P s (a :: rest))
    (hstep : step s a = some mid) : AllStates step P mid rest := by
  intro before after s' heq hrun
  apply h (a :: before) after s' (congrArg (List.cons a) heq)
  rw [runFrom_cons, hstep]
  exact hrun

/--
The states of a run have a property exactly if its steps meet a condition: a step
that breaks the condition breaks the property, and the steps that meet it keep
what the property follows from.  All steps are among those that `side` allows.
-/
theorem allStates_iff_allSteps_of_side {good P : state -> Prop}
    {side cond : state -> action -> Prop}
    (hgood : forall s a s',
      good s -> side s a -> cond s a -> step s a = some s' -> good s')
    (hholds : forall s, good s -> P s)
    (hbroken : forall s a s',
      good s -> side s a -> step s a = some s' -> ¬cond s a -> ¬P s')
    {s s' : state} {actions : List action} (hstart : good s)
    (hside : AllSteps step side s actions)
    (hrun : runFrom step s actions = some s') :
    AllStates step P s actions <-> AllSteps step cond s actions := by
  constructor
  · intro hall
    induction actions generalizing s with
    | nil => trivial
    | cons a rest ih =>
        rcases runFrom_cons_some hrun with ⟨mid, hstep, hrest⟩
        rw [allSteps_cons_of_step hstep] at hside ⊢
        have hcond : cond s a := by
          by_contra hcond
          refine hbroken s a mid hstart hside.1 hstep hcond
            (hall [a] rest mid rfl ?_)
          rw [runFrom_cons, hstep]
          rfl
        exact ⟨hcond, ih (hgood s a mid hstart hside.1 hcond hstep) hside.2
          hrest (hall.tail hstep)⟩
  · intro hsteps before after mid heq hbefore
    have hboth := hside.and hsteps
    rw [heq, allSteps_append hbefore] at hboth
    apply hholds
    exact runFrom_invariant (fun x b y hx hcond hxy =>
      hgood x b y hx hcond.1 hcond.2 hxy) hstart hboth.1 hbefore

/-- The same for runs of any steps. -/
theorem allStates_iff_allSteps {good P : state -> Prop}
    {cond : state -> action -> Prop}
    (hgood : forall s a s', good s -> cond s a -> step s a = some s' -> good s')
    (hholds : forall s, good s -> P s)
    (hbroken : forall s a s', good s -> step s a = some s' -> ¬cond s a -> ¬P s')
    {s s' : state} {actions : List action} (hstart : good s)
    (hrun : runFrom step s actions = some s') :
    AllStates step P s actions <-> AllSteps step cond s actions :=
  allStates_iff_allSteps_of_side (fun s a s' hs _ => hgood s a s' hs) hholds
    (fun s a s' hs _ => hbroken s a s' hs) hstart
    (@allSteps_of_forall _ _ step (fun _ => True) _ _ fun _ _ => trivial) hrun

end Runs

end Library
end LuaServer
