import TensorConcat.Tensor.Aliasing

/-!
# What a request is checked for

The parts of a concatenation request that every route looks at: which inputs
count, the type they meet at, and the first one that is known to share bytes with
a view. Every route raises the same objections to them, in its own words.
-/

namespace TensorConcat

/-- The inputs that are not left out, each with its place in the list. -/
def live (inputs : List Tensor) : List (Tensor × Nat) :=
  inputs.zipIdx.filter fun p => !p.1.isSkipped

/-- The type the inputs that count meet at, if there is one. -/
def commonType? (inputs : List Tensor) : Option DType :=
  DType.common? ((live inputs).map (·.1.dtype))

def overlapping? (out : Tensor) (inputs : List Tensor) : Option Nat :=
  inputs.findIdx? (out.surelyOverlaps ·)

/-- The element type of a new output: the common one, or that of the first input
when none counts. -/
def resultType? (inputs : List Tensor) : Option DType :=
  match inputs with
  | [] => none
  | first :: _ => some ((commonType? inputs).getD first.dtype)

/-- Why any route turns a request away. -/
inductive Objection
  | noInputs
  | notCastable (common out : DType)
  | inputOverlap (index : Nat)
  | outputRepeats
  | axisOutOfRange (dim : Int) (rank : Nat)
deriving Repr, DecidableEq

def Objection.code : Objection → ViolationCode
  | noInputs => .invalidInputCount
  | notCastable _ _ => .dtypeNotCastable
  | inputOverlap _ | outputRepeats => .memoryOverlap
  | axisOutOfRange _ _ => .invalidDimension

def checkTypes (out : Tensor) (inputs : List Tensor) : Except Objection Unit :=
  match commonType? inputs with
  | some d => if d.canCast out.dtype then .ok () else .error (.notCastable d out.dtype)
  | none => .ok ()

def checkDisjoint (out : Tensor) (inputs : List Tensor) : Except Objection Unit :=
  match overlapping? out inputs with
  | some index => .error (.inputOverlap index)
  | none => .ok ()

def checkDistinct (out : Tensor) : Except Objection Unit :=
  if out.internalOverlap = .yes then .error .outputRepeats else .ok ()

/-- The checks of an output as it stands. -/
def checkOutput (out : Tensor) (inputs : List Tensor) : Except Objection Unit := do
  checkTypes out inputs
  checkDisjoint out inputs
  checkDistinct out

/-- The check of what the output is about to become, if that is known. -/
def checkTarget (target : Option Tensor) (inputs : List Tensor) : Except Objection Unit :=
  match target with
  | some t => checkDisjoint t inputs
  | none => .ok ()

def checkAxis (rank : Nat) (dim : Int) : Except Objection Nat :=
  if 0 ≤ dim ∧ dim < rank then .ok dim.toNat else .error (.axisOutOfRange dim rank)

end TensorConcat
