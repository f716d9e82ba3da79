import Mathlib.Data.List.Basic

/-!
# Traces

A trace is a list of events in the order in which they happened.  Safety
properties speak of an event and of the events before it.
-/

namespace LuaServer
namespace Library

section Traces

variable {event : Type}

/-- Every event of the trace stands in the relation to its past. -/
def Past (P : List event -> event -> Prop) (trace : List event) : Prop :=
  forall before e after, trace = before ++ e :: after -> P before e

variable {P : List event -> event -> Prop}

theorem past_nil : Past P [] := by
  intro before e after h
  cases before with
  | nil => cases h
  | cons x rest => cases h

theorem Past.append {trace more : List event} (h : Past P trace)
    (hmore : forall before e after,
      more = before ++ e :: after -> P (trace ++ before) e) :
    Past P (trace ++ more) := by
  intro before e after heq
  rcases List.append_eq_append_iff.mp heq with
    ⟨mid, hbefore, hrest⟩ | ⟨mid, htrace, hrest⟩
  · rw [hbefore]
    exact hmore mid e after hrest
  · cases mid with
    | nil =>
        rw [List.append_nil] at htrace
        rw [← htrace]
        have hfirst := hmore [] e after hrest.symm
        rw [List.append_nil] at hfirst
        exact hfirst
    | cons x rest =>
        rw [List.cons_append, List.cons.injEq] at hrest
        rw [← hrest.1] at htrace
        exact h before e rest htrace

theorem Past.snoc {trace : List event} {e : event} (h : Past P trace)
    (he : P trace e) : Past P (trace ++ [e]) := by
  apply h.append
  intro before e' after heq
  cases before with
  | nil =>
      cases heq
      rw [List.append_nil]
      exact he
  | cons x rest =>
      rw [List.cons_append, List.cons.injEq] at heq
      cases rest with
      | nil => cases heq.2
      | cons y rest => cases heq.2

end Traces

end Library
end LuaServer
