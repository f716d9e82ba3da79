import Mathlib.Data.Rat.Defs
import Mathlib.Data.Int.Basic
import Mathlib.Algebra.Order.Field.Rat
import Mathlib.Data.List.TakeWhile

/-!
# Scalars of the C program

Machine integers, Lua numbers and Lua strings, with the conversions between
them that the socket library performs.  Conversions whose result C leaves open
take the value the platform gives as an argument.
-/

namespace LuaServer

/-- The platforms that the socket layer distinguishes. -/
inductive Platform where
  | windows
  | mac
  | unix
deriving DecidableEq

/-- `MAX_INT`: the maximum of an int, less 2 for safety. -/
def maxInt : Nat := 2147483647 - 2

/-!
# Strings

A Lua string is a sequence of bytes with its own length; a C function that gets
it as a pointer sees the bytes before the first zero.
-/

abbrev LuaString := List UInt8

def ascii (text : String) : LuaString :=
  text.toList.map fun c => c.toNat.toUInt8

def cString (s : LuaString) : LuaString :=
  s.takeWhile fun byte => byte ≠ 0

theorem cString_eq_self {s : LuaString} (h : (0 : UInt8) ∉ s) :
    cString s = s := by
  unfold cString
  rw [List.takeWhile_eq_self_iff]
  intro byte hbyte
  simp only [ne_eq, decide_not, Bool.not_eq_eq_eq_not, Bool.not_true,
    decide_eq_false_iff_not]
  intro hzero
  exact h (hzero ▸ hbyte)

theorem zero_notMem_cString (s : LuaString) : (0 : UInt8) ∉ cString s := by
  intro h
  have hne := List.mem_takeWhile_imp h
  simp at hne

/-!
# Numbers

`lua_Number` is a double.  Every finite double is a rational number, so the
rationals with the infinities and one NaN contain all of them.
-/

inductive LuaNumber where
  | nan
  | inf (negative : Bool)
  | fin (value : Rat)
deriving DecidableEq

namespace LuaNumber

def ofInt (n : Int) : LuaNumber := fin (n : Rat)

/-- The C comparison with an integer constant; every comparison with NaN fails. -/
def gtInt : LuaNumber -> Int -> Bool
  | nan, _ => false
  | inf negative, _ => !negative
  | fin q, n => decide ((n : Rat) < q)

def numEq : LuaNumber -> LuaNumber -> Bool
  | nan, _ => false
  | x, y => decide (x = y)

/-- Discard the fractional part, as a C conversion to an integer type does. -/
def truncate (q : Rat) : Int := q.num.tdiv q.den

/--
The conversion to `uint16_t`.  It is undefined when the truncated value is
not representable; `undef` is what the platform then gives.
-/
def toUint16 (undef : UInt16) : LuaNumber -> UInt16
  | fin q =>
      if 0 ≤ truncate q ∧ truncate q < 65536 then
        UInt16.ofNat (truncate q).toNat
      else undef
  | _ => undef

/--
`lua_number2integer`: exact on integers that an int can hold, and up to the
platform (rounding, truncation, overflow) elsewhere.
-/
def toInteger (conv : LuaNumber -> Int) : LuaNumber -> Int
  | fin q =>
      if q.den = 1 ∧ -2147483648 ≤ q.num ∧ q.num ≤ 2147483647 then q.num
      else conv (fin q)
  | x => conv x

theorem truncate_intCast (n : Int) : truncate (n : Rat) = n := by
  simp [truncate]

theorem toUint16_ofInt (undef : UInt16) {n : Int}
    (hlow : 0 ≤ n) (hhigh : n < 65536) :
    toUint16 undef (ofInt n) = UInt16.ofNat n.toNat := by
  simp [toUint16, ofInt, truncate_intCast, hlow, hhigh]

theorem toInteger_ofInt (conv : LuaNumber -> Int) {n : Int}
    (hlow : -2147483648 ≤ n) (hhigh : n ≤ 2147483647) :
    toInteger conv (ofInt n) = n := by
  simp [toInteger, ofInt, hlow, hhigh]

end LuaNumber

/-!
# Integer conversions
-/

/-- The conversion of a `size_t` or a wider integer to `int`. -/
def toInt32 (n : Int) : Int := n.bmod (2 ^ 32)

/-- The conversion of an `int` to `size_t`. -/
def toSizeT (n : Int) : Nat := (n % 2 ^ 64).toNat

theorem toInt32_le_of_nonneg {n : Nat} (h : 0 ≤ toInt32 n) :
    toInt32 n ≤ n := by
  unfold toInt32 at *
  rw [Int.bmod_def] at *
  omega

theorem toInt32_of_lt {n : Nat} (h : n < 2147483648) : toInt32 n = n := by
  unfold toInt32
  rw [Int.bmod_def]
  omega

theorem toInt32_of_bounds {n : Int} (hlow : -2147483648 ≤ n)
    (hhigh : n ≤ 2147483647) : toInt32 n = n := by
  unfold toInt32
  rw [Int.bmod_def]
  omega

theorem toInt32_lt (n : Int) : toInt32 n < 2147483648 := by
  unfold toInt32
  rw [Int.bmod_def]
  omega

theorem toSizeT_of_nonneg {n : Int} (hlow : 0 ≤ n) (hhigh : n < 2147483648) :
    toSizeT n = n.toNat := by
  unfold toSizeT
  rw [Int.emod_eq_of_lt hlow (by omega)]

/-- Swap the bytes of a 16 bit value, as `htons` does on a little endian host. -/
def htons (port : UInt16) : UInt16 :=
  UInt16.ofNat (port.toNat % 256 * 256 + port.toNat / 256)

/-- The bytes of a 16 bit value in the memory of a little endian host. -/
def memoryBytes (x : UInt16) : List Nat := [x.toNat % 256, x.toNat / 256]

/-- In memory, `htons` puts the high byte first: network byte order. -/
theorem memoryBytes_htons (port : UInt16) :
    memoryBytes (htons port) = [port.toNat / 256, port.toNat % 256] := by
  have hport : port.toNat < 65536 := port.toNat_lt
  have hswap : (htons port).toNat =
      port.toNat % 256 * 256 + port.toNat / 256 := by
    unfold htons
    rw [UInt16.toNat_ofNat_of_lt']
    show _ < 65536
    omega
  unfold memoryBytes
  rw [hswap]
  congr 1
  · omega
  · congr 1
    omega

end LuaServer
