import TensorConcat.Scalar

/-!
# Casts by integer arithmetic

A choice of the casts between floating formats, for machines that are to run. A word that stands
for no number becomes the positive quiet one, and a double is rounded to sixteen bits from its
upper half.
-/

namespace TensorConcat

open Number

/-- The low bits of a double that are cleared before it is rounded to a format. They still count
when a word that is no number is told from an infinity. -/
def clearedBits (f : BinaryFormat) : Nat := if f = .half ∨ f = .brain then 32 else 0

/-- The word of a format that a double is rounded to. -/
def narrowed (f : BinaryFormat) (word : Nat) : Nat :=
  if BinaryFormat.double.isNan word then f.encode .nan
  else
    f.encode (BinaryFormat.double.decode
      (word / Nat.pow 2 (clearedBits f) * Nat.pow 2 (clearedBits f)))

instance softwareCasts : FloatCasts where
  widen f word := BinaryFormat.double.encode (f.decode word)
  narrow := narrowed
  widen_number _ _ _ := rfl
  narrow_single word number := by
    have hkept : Nat.pow 2 (clearedBits .single) = 1 := by decide
    rw [narrowed, number, hkept, Nat.div_one, Nat.mul_one]
    rfl

end TensorConcat
