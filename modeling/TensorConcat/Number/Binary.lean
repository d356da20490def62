/-!
# Binary floating formats

A format is the width of its exponent field and of its fraction field. `decode`
turns a word into the number it stands for, a significand times a power of two,
and `encode` gives the word nearest to such a number: ties go to the even
significand, values too small for a full significand keep the digits of the
smallest step, and values beyond the largest finite one become infinite. Every
quantity is an integer, so a conversion is a computation and not an approximation.

Signs and payloads of words that stand for no number are not kept: such a word
is read as `nan`, and `nan` is written as the positive quiet word. A machine that
keeps them has other casts between formats, so elements are not converted by
these functions outright but by casts that are given.
-/

namespace TensorConcat.Number

/-- The quotient `n / 2 ^ s`, rounded to the nearest integer and at a tie to the even one. -/
def roundShift (n s : Nat) : Nat :=
  let below := n / Nat.pow 2 s
  let rest := n % Nat.pow 2 s
  if Nat.pow 2 s < 2 * rest ∨ Nat.pow 2 s = 2 * rest ∧ below % 2 = 1 then below + 1 else below

structure BinaryFormat where
  exponentBits : Nat
  fractionBits : Nat
deriving Repr, DecidableEq

/-- What a word stands for. A finite value is `significand * 2 ^ exponent`. -/
inductive Reading
  | nan
  | infinite (negative : Bool)
  | finite (negative : Bool) (significand : Nat) (exponent : Int)
deriving Repr, DecidableEq

namespace BinaryFormat

def half : BinaryFormat := ⟨5, 10⟩
def brain : BinaryFormat := ⟨8, 7⟩
def single : BinaryFormat := ⟨8, 23⟩
def double : BinaryFormat := ⟨11, 52⟩

/-- The exponent field of infinities and of words that are no number. -/
def topField (f : BinaryFormat) : Nat := Nat.pow 2 f.exponentBits - 1

/-- Exponent of the smallest positive value. -/
def leastExponent (f : BinaryFormat) : Int :=
  2 - (Nat.pow 2 (f.exponentBits - 1) : Nat) - f.fractionBits

def infinity (f : BinaryFormat) : Nat := f.topField * Nat.pow 2 f.fractionBits

def signBit (f : BinaryFormat) (negative : Bool) : Nat :=
  if negative then Nat.pow 2 (f.exponentBits + f.fractionBits) else 0

def decode (f : BinaryFormat) (word : Nat) : Reading :=
  let fraction := word % Nat.pow 2 f.fractionBits
  let field := word / Nat.pow 2 f.fractionBits % Nat.pow 2 f.exponentBits
  let negative := word / Nat.pow 2 (f.exponentBits + f.fractionBits) % 2 == 1
  if field = f.topField then
    if fraction = 0 then .infinite negative else .nan
  else if field = 0 then
    .finite negative fraction f.leastExponent
  else
    .finite negative (Nat.pow 2 f.fractionBits + fraction) (f.leastExponent + (field - 1 : Nat))

/-- Exponent of the last digit that is kept of `significand * 2 ^ exponent`. -/
def keptExponent (f : BinaryFormat) (significand : Nat) (exponent : Int) : Int :=
  max (exponent + (Nat.log2 significand : Int) - f.fractionBits) f.leastExponent

/-- The number `significand * 2 ^ exponent` in units of `2 ^ unit`, rounded. -/
def inUnits (significand : Nat) (exponent unit : Int) : Nat :=
  if unit ≤ exponent then significand * Nat.pow 2 (exponent - unit).toNat
  else roundShift significand (unit - exponent).toNat

/-- The word of a positive value. The rounded digits are added to the exponent
field instead of being put beside it, so a carry out of the digits raises the
exponent, and a carry out of the largest finite word gives infinity. -/
def magnitude (f : BinaryFormat) (significand : Nat) (exponent : Int) : Nat :=
  if significand = 0 then 0 else
    let unit := f.keptExponent significand exponent
    min f.infinity
      ((unit - f.leastExponent).toNat * Nat.pow 2 f.fractionBits + inUnits significand exponent unit)

def encode (f : BinaryFormat) : Reading → Nat
  | .nan => f.infinity + Nat.pow 2 (f.fractionBits - 1)
  | .infinite negative => f.signBit negative + f.infinity
  | .finite negative significand exponent =>
    f.signBit negative + f.magnitude significand exponent

def isNan (f : BinaryFormat) (word : Nat) : Bool := f.decode word == .nan

end BinaryFormat

namespace Reading

/-- The integer part, rounded toward zero; infinities have none that is finite. -/
def truncate? : Reading → Option Int
  | .finite negative significand exponent =>
    let size := if 0 ≤ exponent then significand * Nat.pow 2 exponent.toNat
      else significand / Nat.pow 2 (-exponent).toNat
    some (if negative then -(size : Int) else size)
  | _ => none

/-- The whole number `n` as a value of its own. -/
def ofInt (n : Int) : Reading := .finite (n < 0) n.natAbs 0

def isZero : Reading → Bool
  | .finite _ significand _ => significand == 0
  | _ => false

end Reading

end TensorConcat.Number
