import Mathlib.Data.List.Basic
import Mathlib.Data.List.Perm.Basic

/-!
# Channels

A channel carries a sequence of elements from one end to the other.  An
operation at either end may transfer less than was asked for, so what counts is
the chunks that really went in and came out.  A chunk that has come out is held
until it is delivered or lost, and the one that came out last is the first to go.
-/

namespace LuaServer
namespace Library

structure Channel (element chunk : Type) where
  queue : List element
  puts : List (List element)
  takes : List chunk
  held : List chunk
  delivered : List chunk
  lost : List chunk

namespace Channel

variable {element chunk : Type} {C C' C'' : Channel element chunk}
variable {content : chunk -> List element}

def empty : Channel element chunk := ⟨[], [], [], [], [], []⟩

def put (C : Channel element chunk) (part : List element) :
    Channel element chunk :=
  { C with queue := C.queue ++ part, puts := C.puts ++ [part] }

def take (C : Channel element chunk) (c : chunk) (rest : List element) :
    Channel element chunk :=
  { C with queue := rest, takes := C.takes ++ [c], held := c :: C.held }

def deliver (C : Channel element chunk) (c : chunk) (rest : List chunk) :
    Channel element chunk :=
  { C with held := rest, delivered := C.delivered ++ [c] }

def lose (C : Channel element chunk) (c : chunk) (rest : List chunk) :
    Channel element chunk :=
  { C with held := rest, lost := C.lost ++ [c] }

/-- Elements go in at the back, or a chunk from the front comes out and goes on. -/
inductive Step (content : chunk -> List element) (C : Channel element chunk) :
    Channel element chunk -> Prop where
  | idle : Step content C C
  | put (part : List element) : Step content C (C.put part)
  | take {c : chunk} {rest : List element} :
      C.queue = content c ++ rest -> Step content C (C.take c rest)
  | deliver {c : chunk} {rest : List chunk} :
      C.held = c :: rest -> Step content C (C.deliver c rest)
  | lose {c : chunk} {rest : List chunk} :
      C.held = c :: rest -> Step content C (C.lose c rest)

/-- What came out and what is still queued is what went in, in order. -/
def Conserved (content : chunk -> List element) (C : Channel element chunk) :
    Prop :=
  (C.takes.map content).flatten ++ C.queue = C.puts.flatten

/-- Every chunk that came out is held, or it was delivered or lost once. -/
def Accounted (C : Channel element chunk) : Prop :=
  C.takes.Perm (C.delivered ++ C.lost ++ C.held)

/-- The chunks were delivered in the order in which they came out. -/
def InOrder (C : Channel element chunk) : Prop :=
  C.takes = C.delivered ++ C.held

theorem empty_conserved : Conserved content empty := rfl

theorem empty_accounted : (empty : Channel element chunk).Accounted :=
  List.Perm.nil

theorem empty_inOrder : (empty : Channel element chunk).InOrder := rfl

theorem Step.conserved (h : Step content C C') (hC : C.Conserved content) :
    C'.Conserved content := by
  unfold Conserved at hC ⊢
  cases h with
  | idle | deliver | lose => exact hC
  | put part =>
      show (C.takes.map content).flatten ++ (C.queue ++ part) =
        (C.puts ++ [part]).flatten
      rw [← List.append_assoc, hC, List.flatten_concat]
  | @take c rest hqueue =>
      show ((C.takes ++ [c]).map content).flatten ++ rest = C.puts.flatten
      rw [← hC, hqueue, List.map_append, List.map_singleton,
        List.flatten_concat, List.append_assoc]

theorem Step.accounted (h : Step content C C') (hC : C.Accounted) :
    C'.Accounted := by
  unfold Accounted at hC ⊢
  cases h with
  | idle | put => exact hC
  | @take c rest =>
      have hfront : (C.takes ++ [c]).Perm (c :: C.takes) :=
        List.perm_append_singleton c _
      exact hfront.trans ((hC.cons c).trans List.perm_middle.symm)
  | @deliver c rest hheld =>
      rw [hheld] at hC
      refine hC.trans ?_
      show (C.delivered ++ C.lost ++ c :: rest).Perm
        (C.delivered ++ [c] ++ C.lost ++ rest)
      rw [List.append_assoc, List.append_assoc C.delivered [c],
        List.append_assoc]
      exact List.perm_middle.append_left C.delivered
  | @lose c rest hheld =>
      rw [hheld] at hC
      have hmove : C.delivered ++ C.lost ++ c :: rest =
          C.delivered ++ (C.lost ++ [c]) ++ rest := by simp
      rwa [hmove] at hC

/--
A chunk that is lost, and one that comes out while another is held, are all that
can change the order.
-/
theorem Step.inOrder (h : Step content C C') (hC : C.InOrder)
    (hlost : C'.lost.length ≤ C.lost.length) (hheld : C'.held.length ≤ 1) :
    C'.InOrder := by
  unfold InOrder at hC ⊢
  cases h with
  | idle | put => exact hC
  | @take c rest =>
      have hnone : C.held = [] := by
        apply List.eq_nil_of_length_eq_zero
        exact Nat.le_zero.mp (Nat.le_of_succ_le_succ hheld)
      show C.takes ++ [c] = C.delivered ++ c :: C.held
      rw [hC, hnone, List.append_nil]
  | @deliver c rest hsome =>
      show C.takes = C.delivered ++ [c] ++ rest
      rw [hC, hsome, List.append_assoc]
      rfl
  | @lose c rest =>
      have hgrown : (C.lost ++ [c]).length ≤ C.lost.length := hlost
      rw [List.length_append] at hgrown
      exact absurd hgrown (Nat.not_succ_le_self _)

end Channel

end Library
end LuaServer
