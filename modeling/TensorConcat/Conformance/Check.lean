import TensorConcat.Backend.Dispatch
import TensorConcat.SoftwareCasts

/-!
# Checks

A check runs on a machine, passes with a value or fails, and leaves the machine
behind either way. The combinators say what is asked of an action (that it succeed,
or that it be turned away for a given reason), of a tensor, and of a condition.
-/

namespace TensorConcat.Conformance

abbrev Check (α : Type) := OptionT (StateM Machine) α

namespace Check

def require (condition : Bool) : Check Unit := if condition then pure () else failure

/-- How an action ended. -/
def attempt {α : Type} (a : Action α) : Check (Except Failure α) :=
  OptionT.lift (ExceptT.run a)

def succeeds {α : Type} : Except Failure α → Check α
  | .ok a => pure a
  | .error _ => failure

/-- The request was turned away for this reason. -/
def rejected {α : Type} (code : ViolationCode) : Except Failure α → Check Unit
  | .error (.backend e) => require (e.code? == some code)
  | _ => failure

def cat (b : Backend) (inputs : List Tensor) (dim : Int) : Check Tensor := do
  succeeds (← attempt (b.cat inputs dim))

def catRejected (b : Backend) (inputs : List Tensor) (dim : Int) (code : ViolationCode) :
    Check Unit := do
  rejected code (← attempt (b.cat inputs dim))

/-- How writing into an output ended, and the output's view afterwards. -/
def write (run : Machine → Outcome Unit) : Check (Except Failure Unit × Tensor) := fun m =>
  let o := run m
  (some (o.result, o.out), o.machine)

/-- A new tensor made in memory. -/
def fresh (make : Heap → Except Failure (Tensor × Heap)) : Check Tensor := do
  succeeds (← attempt (Action.onHeap make))

def ofScalars (dims : List Nat) (dtype : DType) (values : List Scalar) : Check Tensor :=
  fresh (Tensor.ofElements dims dtype (values.map (Scalar.write dtype)))

def view (v : Except ViewError Tensor) : Check Tensor := succeeds (v.mapError .view)

/-- The tensor has this type and holds these values in row-major order. -/
def holds (t : Tensor) (dtype : DType) (values : List Scalar) : Check Unit := do
  require (t.dtype == dtype && t.toBytes (← get).heap == values.flatMap (Scalar.write dtype))

def hasDims (t : Tensor) (dims : List Nat) : Check Unit := require (t.dims == dims)

end Check

/-- Consecutive integers. -/
def integers (first : Int) (count : Nat) : List Scalar :=
  (List.range count).map fun k : Nat => .int (first + k)

/-- A row-major tensor of consecutive 32-bit integers. -/
def ramp (dims : List Nat) (first : Int) : Check Tensor :=
  Check.ofScalars dims .i32 (integers first (volume dims))

end TensorConcat.Conformance
