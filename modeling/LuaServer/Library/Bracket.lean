import LuaServer.Library.Traces

/-!
# Bracketed traces

A subsystem is started, used and stopped.  A classifier tells which events of a
trace start it, stop it or work with it; all others are neutral.  The trace is
well bracketed if all work lies between the start and the stop.
-/

namespace LuaServer
namespace Library

inductive Signal where
  | start
  | stop
  | work
deriving DecidableEq

/-- How far a subsystem has got that is started at most once. -/
inductive Stage where
  | idle
  | up
  | down
deriving DecidableEq

def Stage.starts : Stage -> Nat
  | idle => 0
  | _ => 1

def Stage.stops : Stage -> Nat
  | down => 1
  | _ => 0

section Bracket

variable {event : Type} (kind : event -> Option Signal)

def starts (trace : List event) : Nat :=
  trace.countP fun e => decide (kind e = some .start)

def stops (trace : List event) : Nat :=
  trace.countP fun e => decide (kind e = some .stop)

/-- Work has a start in its past and no stop. -/
def Inside (past : List event) (e : event) : Prop :=
  kind e = some .work -> 0 < starts kind past ∧ stops kind past = 0

structure InStage (stage : Stage) (trace : List event) : Prop where
  starts_eq : starts kind trace = stage.starts
  stops_eq : stops kind trace = stage.stops
  inside : Past (Inside kind) trace

variable {kind} {trace more : List event} {e : event} {stage : Stage}

theorem starts_append (first second : List event) :
    starts kind (first ++ second) = starts kind first + starts kind second :=
  List.countP_append

theorem stops_append (first second : List event) :
    stops kind (first ++ second) = stops kind first + stops kind second :=
  List.countP_append

theorem starts_eq_zero (h : forall e, e ∈ more -> kind e ≠ some .start) :
    starts kind more = 0 := by
  apply List.countP_eq_zero.mpr
  intro e he
  simpa using h e he

theorem stops_eq_zero (h : forall e, e ∈ more -> kind e ≠ some .stop) :
    stops kind more = 0 := by
  apply List.countP_eq_zero.mpr
  intro e he
  simpa using h e he

theorem InStage.nil : InStage kind .idle ([] : List event) :=
  ⟨rfl, rfl, past_nil⟩

theorem InStage.neutral (h : InStage kind stage trace)
    (hmore : forall e, e ∈ more -> kind e = none) :
    InStage kind stage (trace ++ more) := by
  have hstart : forall e, e ∈ more -> kind e ≠ some .start := by
    intro e he
    simp [hmore e he]
  have hstop : forall e, e ∈ more -> kind e ≠ some .stop := by
    intro e he
    simp [hmore e he]
  exact
    { starts_eq := by
        rw [starts_append, starts_eq_zero hstart, h.starts_eq, Nat.add_zero]
      stops_eq := by
        rw [stops_append, stops_eq_zero hstop, h.stops_eq, Nat.add_zero]
      inside := by
        apply h.inside.append
        intro before e after heq hwork
        have hmem : e ∈ more := by
          rw [heq]
          exact List.mem_append_right _ List.mem_cons_self
        rw [hmore e hmem] at hwork
        cases hwork }

theorem InStage.work (h : InStage kind .up trace)
    (hmore : forall e, e ∈ more -> kind e = none ∨ kind e = some .work) :
    InStage kind .up (trace ++ more) := by
  have hstart : forall e, e ∈ more -> kind e ≠ some .start := by
    intro e he
    rcases hmore e he with h | h <;> simp [h]
  have hstop : forall e, e ∈ more -> kind e ≠ some .stop := by
    intro e he
    rcases hmore e he with h | h <;> simp [h]
  exact
    { starts_eq := by
        rw [starts_append, starts_eq_zero hstart, h.starts_eq, Nat.add_zero]
      stops_eq := by
        rw [stops_append, stops_eq_zero hstop, h.stops_eq, Nat.add_zero]
      inside := by
        apply h.inside.append
        intro before e after heq _
        have hbefore : forall e', e' ∈ before -> e' ∈ more := by
          intro e' he'
          rw [heq]
          exact List.mem_append_left _ he'
        rw [starts_append, stops_append, h.starts_eq, h.stops_eq,
          stops_eq_zero fun e' he' => hstop e' (hbefore e' he')]
        exact ⟨Nat.lt_add_right _ Nat.one_pos, rfl⟩ }

theorem InStage.start (h : InStage kind .idle trace)
    (he : kind e = some .start) : InStage kind .up (trace ++ [e]) where
  starts_eq := by
    rw [starts_append, h.starts_eq]
    simp [starts, he, Stage.starts]
  stops_eq := by
    rw [stops_append, h.stops_eq]
    simp [stops, he, Stage.stops]
  inside := by
    apply h.inside.snoc
    intro hwork
    rw [he] at hwork
    cases hwork

theorem InStage.stop (h : InStage kind .up trace)
    (he : kind e = some .stop) : InStage kind .down (trace ++ [e]) where
  starts_eq := by
    rw [starts_append, h.starts_eq]
    simp [starts, he, Stage.starts]
  stops_eq := by
    rw [stops_append, h.stops_eq]
    simp [stops, he, Stage.stops]
  inside := by
    apply h.inside.snoc
    intro hwork
    rw [he] at hwork
    cases hwork

theorem not_past_inside_of_stopped (hstop : 0 < stops kind trace)
    (he : e ∈ more) (hwork : kind e = some .work) :
    ¬Past (Inside kind) (trace ++ more) := by
  intro hpast
  rcases List.append_of_mem he with ⟨before, after, hmore⟩
  have hinside := hpast (trace ++ before) e after (by
    rw [hmore, List.append_assoc])
  have hzero := (hinside hwork).2
  rw [stops_append] at hzero
  omega

theorem past_inside_of_append (h : Past (Inside kind) (trace ++ more)) :
    Past (Inside kind) trace := by
  intro before e after heq
  apply h before e (after ++ more)
  rw [heq, List.append_assoc]
  rfl

end Bracket

end Library
end LuaServer
