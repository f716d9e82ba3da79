import Mathlib.Logic.Basic

/-!
# Programs with state and exceptional exits

`EStateM` keeps the state of the point where a program left by an exception, as
a C function that leaves by a longjmp does.  This module has the evaluation
rules of such programs.
-/

namespace LuaServer
namespace Library

section Evaluation

variable {err state α β : Type}

@[simp] theorem run_pure (a : α) (s : state) :
    (pure a : EStateM err state α) s = .ok a s := rfl

@[simp] theorem run_throw (e : err) (s : state) :
    (throw e : EStateM err state α) s = .error e s := rfl

@[simp] theorem run_get (s : state) :
    (get : EStateM err state state) s = .ok s s := rfl

@[simp] theorem run_modify (f : state -> state) (s : state) :
    (modify f : EStateM err state PUnit) s = .ok ⟨⟩ (f s) := rfl

theorem run_bind (x : EStateM err state α) (f : α -> EStateM err state β)
    (s : state) :
    (x >>= f) s =
      match x s with
      | .ok a s' => f a s'
      | .error e s' => .error e s' := rfl

theorem run_bind_ok {x : EStateM err state α} {f : α -> EStateM err state β}
    {s s' : state} {a : α} (h : x s = .ok a s') : (x >>= f) s = f a s' := by
  rw [run_bind, h]

theorem run_bind_error {x : EStateM err state α}
    {f : α -> EStateM err state β} {s s' : state} {e : err}
    (h : x s = .error e s') : (x >>= f) s = .error e s' := by
  rw [run_bind, h]

theorem run_get_bind (f : state -> EStateM err state β) (s : state) :
    (get >>= f) s = f s s := rfl

def finalState : EStateM.Result err state α -> state
  | .ok _ s => s
  | .error _ s => s

end Evaluation

end Library
end LuaServer
