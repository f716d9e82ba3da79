import Mathlib.Algebra.BigOperators.Group.List.Basic
import Mathlib.Algebra.GroupWithZero.Nat
import Mathlib.Data.List.Dedup
import Mathlib.Logic.Relation

/-!
# Marking a graph with a worklist

A graph is given by the list of successors of each node.  The worklist algorithm
takes a gray node, blackens it and makes its successors gray.  It is related to
reachability: what it blackens is reachable, and with enough fuel it blackens all
that is reachable.
-/

namespace LuaServer
namespace Library

section Marking

variable {node : Type} {succ : node -> List node}

/-- The node is reached from a root along successors. -/
def Reaches (succ : node -> List node) (roots : List node) (x : node) : Prop :=
  exists r, r ∈ roots ∧ Relation.ReflTransGen (fun y z => z ∈ succ y) r x

theorem Reaches.root {roots : List node} {x : node} (h : x ∈ roots) :
    Reaches succ roots x :=
  ⟨x, h, Relation.ReflTransGen.refl⟩

theorem Reaches.step {roots : List node} {x y : node}
    (hx : Reaches succ roots x) (hy : y ∈ succ x) : Reaches succ roots y := by
  rcases hx with ⟨r, hr, hpath⟩
  exact ⟨r, hr, hpath.tail hy⟩

variable [DecidableEq node]

/-- Blacken the gray nodes one after the other. -/
def propagate (succ : node -> List node) :
    Nat -> List node -> List node -> List node
  | 0, black, _ => black
  | _ + 1, black, [] => black
  | fuel + 1, black, x :: gray =>
      if x ∈ black then propagate succ fuel black gray
      else propagate succ fuel (x :: black) (succ x ++ gray)

/-- Enough fuel for a graph whose edges start in the given nodes. -/
def markFuel (succ : node -> List node) (nodes roots : List node) : Nat :=
  roots.length + (nodes.map fun x => (succ x).length).sum + 1

def mark (succ : node -> List node) (nodes roots : List node) : List node :=
  propagate succ (markFuel succ nodes roots) [] roots

/-!
# Soundness
-/

theorem propagate_sound {roots : List node} {fuel : Nat}
    {black gray : List node}
    (hblack : forall x, x ∈ black -> Reaches succ roots x)
    (hgray : forall x, x ∈ gray -> Reaches succ roots x) :
    forall x, x ∈ propagate succ fuel black gray -> Reaches succ roots x := by
  induction fuel generalizing black gray with
  | zero => exact hblack
  | succ fuel ih =>
      cases gray with
      | nil => exact hblack
      | cons y gray =>
          have hy : Reaches succ roots y := hgray y List.mem_cons_self
          have htail : forall x, x ∈ gray -> Reaches succ roots x :=
            fun x hx => hgray x (List.mem_cons_of_mem y hx)
          simp only [propagate]
          split
          · exact ih hblack htail
          · apply ih
            · intro x hx
              rcases List.mem_cons.mp hx with rfl | hx
              · exact hy
              · exact hblack x hx
            · intro x hx
              rcases List.mem_append.mp hx with hx | hx
              · exact hy.step hx
              · exact htail x hx

/-!
# Completeness

The fuel left bounds the gray nodes together with the successors of the nodes that
are not black yet; every step uses up one of them.
-/

/-- The successors that the nodes can still contribute. -/
def pendingWork (succ : node -> List node) : List node -> List node -> Nat
  | [], _ => 0
  | z :: rest, black =>
      (if z ∈ black then 0 else (succ z).length) + pendingWork succ rest black

theorem pendingWork_nil_black (nodes : List node) :
    pendingWork succ nodes [] = (nodes.map fun x => (succ x).length).sum := by
  induction nodes with
  | nil => rfl
  | cons z rest ih => simp [pendingWork, ih]

theorem pendingWork_cons_le (nodes black : List node) (x : node) :
    pendingWork succ nodes (x :: black) ≤ pendingWork succ nodes black := by
  induction nodes with
  | nil => exact Nat.le_refl _
  | cons z rest ih =>
      by_cases hz : z ∈ black
      · simpa [pendingWork, hz] using ih
      · by_cases hzx : z = x
        · simp only [pendingWork, hzx, List.mem_cons_self, if_true]
          rw [← hzx] at ih ⊢
          simp only [hz, if_false]
          omega
        · simpa [pendingWork, hz, hzx] using ih

/-- Blackening a node moves its successors out of the pending work. -/
theorem pendingWork_blacken {nodes black : List node} {x : node}
    (hx : x ∉ black) (hedges : x ∉ nodes -> succ x = []) :
    pendingWork succ nodes (x :: black) + (succ x).length ≤
      pendingWork succ nodes black := by
  by_cases hmem : x ∈ nodes
  · clear hedges
    induction nodes with
    | nil => cases hmem
    | cons z rest ih =>
        by_cases hzx : z = x
        · have hle := @pendingWork_cons_le _ succ _ rest black x
          rw [hzx]
          simp only [pendingWork, hx, List.mem_cons_self, if_true, if_false]
          omega
        · have hrest : x ∈ rest := by
            rcases List.mem_cons.mp hmem with h | h
            · exact absurd h.symm hzx
            · exact h
          have hbound := ih hrest
          have hsame : (z ∈ x :: black) = (z ∈ black) := by simp [hzx]
          simp only [pendingWork, hsame]
          omega
  · rw [hedges hmem]
    exact pendingWork_cons_le nodes black x

theorem propagate_black_subset {fuel : Nat} {black gray : List node} :
    forall x, x ∈ black -> x ∈ propagate succ fuel black gray := by
  induction fuel generalizing black gray with
  | zero =>
      intro x hx
      exact hx
  | succ fuel ih =>
      intro x hx
      cases gray with
      | nil => exact hx
      | cons y gray =>
          simp only [propagate]
          split
          · exact ih x hx
          · exact ih x (List.mem_cons_of_mem y hx)

/--
With enough fuel the result contains the gray nodes and is closed under
successors, if every successor of a black node was black or gray.
-/
theorem propagate_closed {nodes : List node}
    (hedges : forall x, x ∉ nodes -> succ x = [])
    {fuel : Nat} {black gray : List node}
    (hfuel : gray.length + pendingWork succ nodes black < fuel)
    (hblack : forall x y, x ∈ black -> y ∈ succ x -> y ∈ black ∨ y ∈ gray) :
    (forall x, x ∈ gray -> x ∈ propagate succ fuel black gray) ∧
      forall x y, x ∈ propagate succ fuel black gray -> y ∈ succ x ->
        y ∈ propagate succ fuel black gray := by
  induction fuel generalizing black gray with
  | zero => exact absurd hfuel (Nat.not_lt_zero _)
  | succ fuel ih =>
      cases gray with
      | nil =>
          constructor
          · intro x hx
            cases hx
          · intro x y hx hy
            rcases hblack x y hx hy with h | h
            · exact h
            · cases h
      | cons z gray =>
          simp only [propagate]
          split
          · rename_i hz
            have hstep := @ih black gray
              (by simp only [List.length_cons] at hfuel; omega)
              (by
                intro x y hx hy
                rcases hblack x y hx hy with h | h
                · exact Or.inl h
                · rcases List.mem_cons.mp h with rfl | h
                  · exact Or.inl hz
                  · exact Or.inr h)
            refine ⟨?_, hstep.2⟩
            intro x hx
            rcases List.mem_cons.mp hx with rfl | hx
            · exact propagate_black_subset x hz
            · exact hstep.1 x hx
          · rename_i hz
            have hwork := pendingWork_blacken hz (hedges z)
            have hstep := @ih (z :: black) (succ z ++ gray)
              (by
                simp only [List.length_cons, List.length_append] at hfuel ⊢
                omega)
              (by
                intro x y hx hy
                rcases List.mem_cons.mp hx with rfl | hx
                · exact Or.inr (List.mem_append.mpr (Or.inl hy))
                · rcases hblack x y hx hy with h | h
                  · exact Or.inl (List.mem_cons_of_mem z h)
                  · rcases List.mem_cons.mp h with rfl | h
                    · exact Or.inl List.mem_cons_self
                    · exact Or.inr (List.mem_append.mpr (Or.inr h)))
            refine ⟨?_, hstep.2⟩
            intro x hx
            rcases List.mem_cons.mp hx with rfl | hx
            · exact propagate_black_subset x List.mem_cons_self
            · exact hstep.1 x (List.mem_append.mpr (Or.inr hx))

/-- Marking blackens exactly what is reached from the roots. -/
theorem mem_mark_iff {nodes roots : List node}
    (hedges : forall x, x ∉ nodes -> succ x = []) (x : node) :
    x ∈ mark succ nodes roots <-> Reaches succ roots x := by
  constructor
  · apply propagate_sound
    · intro y hy
      cases hy
    · intro y hy
      exact Reaches.root hy
  · rintro ⟨r, hr, hpath⟩
    have hfuel : roots.length + pendingWork succ nodes [] <
        markFuel succ nodes roots := by
      rw [pendingWork_nil_black]
      exact Nat.lt_succ_self _
    have hclosed := propagate_closed hedges hfuel
      (by
        intro y z hy
        cases hy)
    induction hpath with
    | refl => exact hclosed.1 r hr
    | tail _ hstep ih => exact hclosed.2 _ _ ih hstep

end Marking

end Library
end LuaServer
