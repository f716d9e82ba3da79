import LuaServer.Library.Marking

/-!
# The tricolor invariant

An incremental collector turns white nodes dark while the program changes the
graph.  Between two steps a dark node may refer to a white one only if it is
pending, that is, if the collector will come to it again.
-/

namespace LuaServer
namespace Library

section Tricolor

variable {node : Type}

/-- No dark node refers to a white one, unless it is pending. -/
def Tricolor (dark white pending : node -> Prop) (succ : node -> List node) :
    Prop :=
  forall x, dark x -> pending x ∨ forall y, y ∈ succ x -> ¬white y

variable {dark white pending dark' white' pending' : node -> Prop}
  {succ succ' : node -> List node}

/--
A step of the collector: no node that a dark one refers to turns white, and the
nodes that turn dark, or are not pending any more, refer to no white one.
-/
theorem Tricolor.recolor (h : Tricolor dark white pending succ)
    (hwhite : forall x y, dark x -> y ∈ succ x -> white' y -> white y)
    (hdark : forall x, dark' x ->
      (dark x ∧ (pending x -> pending' x)) ∨ pending' x ∨
        forall y, y ∈ succ x -> ¬white' y) :
    Tricolor dark' white' pending' succ := by
  intro x hx
  rcases hdark x hx with ⟨hold, hpending⟩ | hnew
  · rcases h x hold with hp | hslots
    · exact Or.inl (hpending hp)
    · right
      intro y hy hwy
      exact hslots y hy (hwhite x y hold hy hwy)
  · exact hnew

/-- When nothing is pending, all that a dark node refers to is not white. -/
theorem Tricolor.finish (h : Tricolor dark white pending succ)
    (hpending : forall x, ¬pending x) {x y : node} (hx : dark x)
    (hy : y ∈ succ x) : ¬white y := by
  rcases h x hx with hp | hslots
  · exact absurd hp (hpending x)
  · exact hslots y hy

end Tricolor

theorem Reaches.closed {node : Type} {succ : node -> List node}
    {roots : List node} {p : node -> Prop} {x : node}
    (h : Reaches succ roots x) (hroots : forall r, r ∈ roots -> p r)
    (hsucc : forall y z, p y -> z ∈ succ y -> p z) : p x := by
  rcases h with ⟨r, hr, hpath⟩
  induction hpath with
  | refl => exact hroots r hr
  | tail _ hstep ih => exact hsucc _ _ ih hstep

end Library
end LuaServer
