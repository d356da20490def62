/-!
# Element types

The ten element types, their sizes, and the type two of them meet at. A value may
only be stored in a type of the same or a higher category, and mixing types
never leaves the higher of their categories. The common type of a list is the
left fold of the pairwise rule; an empty list has none.
-/

namespace TensorConcat

inductive DType
  | bool | u8 | i8 | i16 | i32 | i64 | f16 | bf16 | f32 | f64
deriving Repr, DecidableEq

/-- Kinds of element types, in the order in which values may move between them. -/
inductive Category
  | bool | integral | floating
deriving Repr, DecidableEq

namespace Category

def level : Category → Nat
  | .bool => 0
  | .integral => 1
  | .floating => 2

def name : Category → String
  | .bool => "Bool"
  | .integral => "Integral"
  | .floating => "Floating"

end Category

namespace DType

def all : List DType := [.bool, .u8, .i8, .i16, .i32, .i64, .f16, .bf16, .f32, .f64]

/-- Bytes an element occupies. -/
def size : DType → Nat
  | .bool | .u8 | .i8 => 1
  | .i16 | .f16 | .bf16 => 2
  | .i32 | .f32 => 4
  | .i64 | .f64 => 8

def category : DType → Category
  | .bool => .bool
  | .u8 | .i8 | .i16 | .i32 | .i64 => .integral
  | .f16 | .bf16 | .f32 | .f64 => .floating

def name : DType → String
  | .bool => "bool"
  | .u8 => "u8"
  | .i8 => "i8"
  | .i16 => "i16"
  | .i32 => "i32"
  | .i64 => "i64"
  | .f16 => "f16"
  | .bf16 => "bf16"
  | .f32 => "f32"
  | .f64 => "f64"

def ofName? (text : String) : Option DType := all.find? (·.name == text)

/-- The spelling used where a whole tensor is described. -/
def title : DType → String
  | .bool => "Bool"
  | .u8 => "U8"
  | .i8 => "I8"
  | .i16 => "I16"
  | .i32 => "I32"
  | .i64 => "I64"
  | .f16 => "F16"
  | .bf16 => "BF16"
  | .f32 => "F32"
  | .f64 => "F64"

/-- The larger of two types of one category; the first wins a tie. -/
def wider (a b : DType) : DType := if b.size ≤ a.size then a else b

/-- What an unsigned byte and another integral type meet at: a signed byte is too
narrow to hold both, so they meet at sixteen bits. -/
def besideUnsigned (other : DType) : DType := if 1 < other.size then other else .i16

/-- The two sixteen-bit floating types have neither range nor precision in common. -/
def promoteFloating : DType → DType → DType
  | .f16, .bf16 | .bf16, .f16 => .f32
  | a, b => wider a b

def promoteIntegral : DType → DType → DType
  | .u8, b => besideUnsigned b
  | a, .u8 => besideUnsigned a
  | a, b => wider a b

/-- The least type that holds the values of both operands, up to rounding of
integers in floating types. -/
def promote (a b : DType) : DType :=
  if a = b then a else
    match a.category, b.category with
    | .bool, _ => b
    | _, .bool => a
    | .floating, .integral => a
    | .integral, .floating => b
    | .floating, .floating => promoteFloating a b
    | .integral, .integral => promoteIntegral a b

/-- Whether values of `a` may be stored as `b` without falling to a lower category. -/
def canCast (a b : DType) : Bool := a.category.level ≤ b.category.level

/-- The type a whole list meets at. -/
def common? : List DType → Option DType
  | [] => none
  | d :: ds => some (ds.foldl promote d)

theorem size_pos (d : DType) : 0 < d.size := by cases d <;> decide

@[simp] theorem promote_self (d : DType) : promote d d = d := by simp [promote]

theorem promote_comm (a b : DType) : promote a b = promote b a := by
  cases a <;> cases b <;> rfl

theorem promote_assoc (a b c : DType) : promote (promote a b) c = promote a (promote b c) := by
  cases a <;> cases b <;> cases c <;> rfl

end DType

end TensorConcat
