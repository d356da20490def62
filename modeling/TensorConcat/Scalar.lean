import TensorConcat.DType
import TensorConcat.Number.Binary
import TensorConcat.Number.LittleEndian

/-!
# Scalars and conversion between element types

An element is read from its bytes as a truth value, a signed 64-bit integer or
the word of a double-precision number, and written back in any element type.
Between integers the low bits are kept; a floating value becomes an integer by
dropping its fraction and stopping at the ends of the 64-bit range; an integer
becomes a floating value of any width by way of double precision. Elements are
only converted when the types differ, so a copy within one type keeps every bit.
-/

namespace TensorConcat

open Number

/-- One value without a storage type. An `int` lies in the signed 64-bit range; a
`float` is the word of a double-precision number. -/
inductive Scalar
  | bool (value : Bool)
  | int (value : Int)
  | float (word : Nat)
deriving Repr, DecidableEq

/-- How the words of the floating formats become words of double precision and back. A number
keeps its value on the way up, and is rounded to the nearest one on the way to single precision.
What becomes of a word that stands for no number depends on the machine, and how a double is
rounded to sixteen bits on the library that does it, so neither is fixed. -/
class FloatCasts where
  widen : BinaryFormat → Nat → Nat
  narrow : BinaryFormat → Nat → Nat
  widen_number : ∀ (f : BinaryFormat) (word : Nat), f.isNan word = false →
    widen f word = BinaryFormat.double.encode (f.decode word)
  narrow_single : ∀ word : Nat, BinaryFormat.double.isNan word = false →
    narrow .single word = BinaryFormat.single.encode (BinaryFormat.double.decode word)

namespace Scalar

/-- The nearest value in the signed 64-bit range. -/
def saturate (n : Int) : Int := max Int64.minValue.toInt (min n Int64.maxValue.toInt)

def asBool : Scalar → Bool
  | .bool b => b
  | .int n => n != 0
  | .float word => !(BinaryFormat.double.decode word).isZero

/-- The integer part of a floating value, held in the 64-bit range; a word that is
no number counts as zero. -/
def floatToInt (word : Nat) : Int :=
  match BinaryFormat.double.decode word with
  | .nan => 0
  | .infinite negative => if negative then Int64.minValue.toInt else Int64.maxValue.toInt
  | value => saturate (value.truncate?.getD 0)

def asInt : Scalar → Int
  | .bool b => if b then 1 else 0
  | .int n => n
  | .float word => floatToInt word

def intToFloat (n : Int) : Nat := BinaryFormat.double.encode (.ofInt n)

def asFloat : Scalar → Nat
  | .bool b => intToFloat (if b then 1 else 0)
  | .int n => intToFloat n
  | .float word => word

/-- The word of `significand * 2 ^ exponent`. -/
def dyadic (significand exponent : Int) : Scalar :=
  .float (BinaryFormat.double.encode (.finite (significand < 0) significand.natAbs exponent))

/-- The signed integer that `width` bytes hold. -/
def signed (width n : Nat) : Int := Int.bmod n (Nat.pow 256 width)

/-- The low `width` bytes of an integer. -/
def lowBytes (width : Nat) (n : Int) : List UInt8 :=
  LittleEndian.encode width (n % (Nat.pow 256 width : Nat)).toNat

variable [FloatCasts]

/-- Reads one element of the given type from its bytes. -/
def read (d : DType) (bytes : List UInt8) : Scalar :=
  let n := LittleEndian.decode bytes
  match d with
  | .bool => .bool (n != 0)
  | .u8 => .int n
  | .i8 | .i16 | .i32 | .i64 => .int (signed d.size n)
  | .f16 => .float (FloatCasts.widen .half n)
  | .bf16 => .float (FloatCasts.widen .brain n)
  | .f32 => .float (FloatCasts.widen .single n)
  | .f64 => .float n

/-- The bytes of the value in the given type. -/
def write (d : DType) (s : Scalar) : List UInt8 :=
  match d with
  | .bool => [if s.asBool then 1 else 0]
  | .u8 | .i8 | .i16 | .i32 | .i64 => lowBytes d.size s.asInt
  | .f16 => LittleEndian.encode 2 (FloatCasts.narrow .half s.asFloat)
  | .bf16 => LittleEndian.encode 2 (FloatCasts.narrow .brain s.asFloat)
  | .f32 => LittleEndian.encode 4 (FloatCasts.narrow .single s.asFloat)
  | .f64 => LittleEndian.encode 8 s.asFloat

@[simp] theorem length_write (d : DType) (s : Scalar) : (s.write d).length = d.size := by
  cases d <;> simp [write, lowBytes, DType.size]

end Scalar

variable [FloatCasts]

/-- One element moved from a type to another: the same bytes within one type. -/
def convertElement (source target : DType) (bytes : List UInt8) : List UInt8 :=
  if source = target then bytes else (Scalar.read source bytes).write target

@[simp] theorem convertElement_self (d : DType) (bytes : List UInt8) :
    convertElement d d bytes = bytes := by simp [convertElement]

theorem length_convertElement {source target : DType} {bytes : List UInt8}
    (h : bytes.length = source.size) :
    (convertElement source target bytes).length = target.size := by
  unfold convertElement
  split
  · rename_i same
    rw [h, same]
  · simp

end TensorConcat
