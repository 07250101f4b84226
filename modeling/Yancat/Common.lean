import Yancat.Strings
import Yancat.WordArithmetic

/-!
# Numbers with suffixes

The conversion that every numeric argument goes through: a decimal number of 64
bits with an optional multiplier, and the error number it leaves behind.
-/

namespace Yancat.Common

open Strings WordArithmetic

/-- The error numbers that a conversion can leave behind. -/
inductive Errno
  /-- The suffix is unknown. -/
  | einval
  /-- The number does not fit. -/
  | erange
  deriving DecidableEq

/-- The multiplication or the shift that a suffix asks for, with wrap-around. -/
def scaled (x : ℕ) : List Char → Option ℕ
  | [] => some x
  | c::_ =>
    match c with
    | ':' => some x
    | ',' => some x
    | 'b' => some x
    | 'B' => some x
    | 'K' => some (x*1000%wordSize)
    | 'k' => some (x<<<10%wordSize)
    | 'M' => some (x*1000000%wordSize)
    | 'm' => some (x<<<20%wordSize)
    | 'G' => some (x*1000000000%wordSize)
    | 'g' => some (x<<<30%wordSize)
    | _ => none

/-- `get_ul`: the value, and `errno`. -/
def getUl (t : List Char) : ℕ×Option Errno :=
  let x := strtoul wordSize t
  if x.erange=true then (0,some .erange)
  else
    match scaled x.val x.tail with
    | some y => (y,none)
    | none => (0,some .einval)

/-- What the C library makes of floating point numbers. -/
structure Floats (δ : Type) where
  /-- Zero. -/
  zero : δ
  /-- `strtod`: the value, the text from the end pointer on, and whether `errno`
  is set. -/
  strtod : List Char → δ×List Char×Bool
  /-- The number is at most zero. -/
  leZero : δ → Bool
  /-- The number is at least one. -/
  geOne : δ → Bool

/-- `get_double`: the value, and `errno`. -/
def getDouble {δ : Type} (F : Floats δ) (t : List Char) : δ×Option Errno :=
  let x := F.strtod t
  if x.2.2=true then (F.zero,some .erange)
  else if x.2.1≠[] then (F.zero,some .einval)
  else (x.1,none)

/-- The multiplier of a suffix. -/
def multiplier : Char → Option ℕ
  | 'b' => some 1
  | 'B' => some 1
  | 'K' => some (10^3)
  | 'k' => some (2^10)
  | 'M' => some (10^6)
  | 'm' => some (2^20)
  | 'G' => some (10^9)
  | 'g' => some (2^30)
  | _ => none

end Yancat.Common
