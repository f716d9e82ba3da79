import LuaServer.Platform.Scalars

/-!
# The address parser of the C library

`inet_pton(AF_INET, s, out)` accepts four decimal numbers of at most 255 without
leading zeros, separated by dots.  The executable parser is related to the
grammar it implements.
-/

namespace LuaServer

/-- An `in_addr`: the four bytes of the address in network order. -/
structure InAddr where
  a : UInt8
  b : UInt8
  c : UInt8
  d : UInt8
deriving DecidableEq

def dot : UInt8 := 46

def isDigit (byte : UInt8) : Bool := decide (48 ≤ byte ∧ byte ≤ 57)

def decimalValue (text : LuaString) : Nat :=
  text.foldl (fun n byte => 10 * n + (byte.toNat - 48)) 0

def octet (text : LuaString) : Option UInt8 :=
  if 1 ≤ text.length ∧ text.length ≤ 3 ∧ text.all isDigit ∧
      (text.length = 1 ∨ text.head? ≠ some 48) ∧ decimalValue text ≤ 255 then
    some (UInt8.ofNat (decimalValue text))
  else none

def inetPton (s : LuaString) : Option InAddr :=
  match s.splitOn dot with
  | [p, q, r, t] =>
      match octet p, octet q, octet r, octet t with
      | some a, some b, some c, some d => some ⟨a, b, c, d⟩
      | _, _, _, _ => none
  | _ => none

/-!
# The grammar
-/

def DottedQuad (s : LuaString) (addr : InAddr) : Prop :=
  exists p q r t,
    octet p = some addr.a ∧ octet q = some addr.b ∧
    octet r = some addr.c ∧ octet t = some addr.d ∧
    s = p ++ dot :: (q ++ dot :: (r ++ dot :: t))

theorem octet_digits {text : LuaString} {x : UInt8}
    (h : octet text = some x) : forall byte, byte ∈ text -> isDigit byte := by
  unfold octet at h
  split at h
  · rename_i hcond
    exact List.all_eq_true.mp hcond.2.2.1
  · cases h

theorem dot_notMem_of_octet {text : LuaString} {x : UInt8}
    (h : octet text = some x) : dot ∉ text := by
  intro hmem
  have hdigit := octet_digits h dot hmem
  exact absurd hdigit (by decide)

theorem zero_notMem_of_octet {text : LuaString} {x : UInt8}
    (h : octet text = some x) : (0 : UInt8) ∉ text := by
  intro hmem
  have hdigit := octet_digits h 0 hmem
  exact absurd hdigit (by decide)

theorem inetPton_of_dottedQuad {s : LuaString} {addr : InAddr}
    (h : DottedQuad s addr) : inetPton s = some addr := by
  rcases h with ⟨p, q, r, t, hp, hq, hr, ht, rfl⟩
  have hsplit : (p ++ dot :: (q ++ dot :: (r ++ dot :: t))).splitOn dot =
      [p, q, r, t] := by
    rw [List.splitOn_append_cons_self_of_not_mem (dot_notMem_of_octet hp),
      List.splitOn_append_cons_self_of_not_mem (dot_notMem_of_octet hq),
      List.splitOn_append_cons_self_of_not_mem (dot_notMem_of_octet hr),
      List.splitOn_eq_singleton (dot_notMem_of_octet ht)]
  simp [inetPton, hsplit, hp, hq, hr, ht]

theorem dottedQuad_of_inetPton {s : LuaString} {addr : InAddr}
    (h : inetPton s = some addr) : DottedQuad s addr := by
  unfold inetPton at h
  split at h
  · rename_i p q r t hsplit
    split at h
    · rename_i a b c d hp hq hr ht
      cases h
      refine ⟨p, q, r, t, hp, hq, hr, ht, ?_⟩
      have hjoin : [dot].intercalate (s.splitOn dot) = s :=
        List.intercalate_splitOn dot
      rw [hsplit] at hjoin
      simpa [List.intercalate] using hjoin.symm
    · cases h
  · cases h

theorem zero_notMem_of_inetPton {s : LuaString} {addr : InAddr}
    (h : inetPton s = some addr) : (0 : UInt8) ∉ s := by
  rcases dottedQuad_of_inetPton h with ⟨p, q, r, t, hp, hq, hr, ht, rfl⟩
  have hdot : (0 : UInt8) ≠ dot := by decide
  simp [zero_notMem_of_octet hp, zero_notMem_of_octet hq,
    zero_notMem_of_octet hr, zero_notMem_of_octet ht, hdot]

end LuaServer
