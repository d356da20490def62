import TensorConcat.DType
import TensorConcat.Device.Range

/-!
# What can go wrong

Four kinds of failure. A view, a copy or a constructor refuses its arguments
(`ViewError`). A backend finds that a request breaks the rules of its operation
(`Violation`), lacks the operation, or fails while it executes (`BackendError`).
A precondition that callers promise is broken (`Fault`). Each failure is a cause;
its wording is in one function.
-/

namespace TensorConcat

/-- The largest block of memory that can be allocated, in bytes. -/
def storageLimit : Nat := 0x7FFFFFFFFFFFFFF0

def joinText : List Nat → String
  | [] => ""
  | [n] => toString n
  | n :: ns => toString n ++ ", " ++ joinText ns

def listText (ns : List Nat) : String := "[" ++ joinText ns ++ "]"

inductive ViewError
  | lengthMismatch (length : Nat) (dims : List Nat)
  | payloadMismatch (bytes : Nat) (dims : List Nat) (dtype : DType) (expected : Nat)
  | strideCount (dims strides : List Nat)
  | outsideStorage (needed held : Nat)
  | narrowAxis (axis rank : Nat)
  | narrowRange (start stop extent axis : Nat)
  | permuteRank (rank : Nat) (order : List Nat)
  | notPermutation (order : List Nat)
  | copyShape (target source : List Nat)
  | readType (wanted held : DType)
  | readBools (held : DType)
deriving Repr, DecidableEq

def ViewError.message : ViewError → String
  | lengthMismatch length dims =>
    "tensor data length (" ++ toString length ++ ") does not match shape " ++ listText dims
  | payloadMismatch bytes dims dtype expected =>
    "tensor payload has " ++ toString bytes ++ " bytes, shape " ++ listText dims ++ " of " ++
      dtype.name ++ " needs " ++ toString expected
  | strideCount dims strides =>
    "as_strided rank mismatch: shape " ++ listText dims ++ " vs strides " ++ listText strides
  | outsideStorage needed held =>
    "as_strided view needs " ++ toString needed ++ " bytes but storage holds " ++ toString held
  | narrowAxis axis rank =>
    "narrow dimension " ++ toString axis ++ " out of range for rank " ++ toString rank
  | narrowRange start stop extent axis =>
    "narrow range " ++ toString start ++ ".." ++ toString stop ++ " exceeds extent " ++
      toString extent ++ " of dimension " ++ toString axis
  | permuteRank rank order =>
    "permute expects " ++ toString rank ++ " dimensions, got " ++ listText order
  | notPermutation order => "permute order " ++ listText order ++ " is not a permutation"
  | copyShape target source =>
    "copy_ shape mismatch: destination " ++ listText target ++ ", source " ++ listText source
  | readType wanted held =>
    "to_vec requested " ++ wanted.name ++ " from a " ++ held.name ++ " tensor"
  | readBools held => "to_bools requested from a " ++ held.name ++ " tensor"

inductive ViolationCode
  | invalidInputCount
  | invalidDimension
  | shapeMismatch
  | memoryOverlap
  | dtypeNotCastable
deriving Repr, DecidableEq

namespace ViolationCode

def all : List ViolationCode :=
  [.invalidInputCount, .invalidDimension, .shapeMismatch, .memoryOverlap, .dtypeNotCastable]

def name : ViolationCode → String
  | invalidInputCount => "InvalidInputCount"
  | invalidDimension => "InvalidDimension"
  | shapeMismatch => "ShapeMismatch"
  | memoryOverlap => "MemoryOverlap"
  | dtypeNotCastable => "DTypeNotCastable"

def ofName? (text : String) : Option ViolationCode := all.find? (·.name == text)

def text : ViolationCode → String
  | invalidInputCount => "SpecError: invalid number of inputs"
  | invalidDimension => "SpecError: invalid dimension"
  | shapeMismatch =>
    "SpecError: sizes of tensors must match except in the concatenation dimension"
  | memoryOverlap =>
    "SpecError: input tensors cannot refer to any of the output memory locations"
  | dtypeNotCastable => "SpecError: input types can't be cast to the desired output type"

end ViolationCode

/-- A request that breaks a rule, found before anything was written. -/
structure Violation where
  code : ViolationCode
  detail : Option String
deriving Repr, DecidableEq

def Violation.message (v : Violation) : String :=
  match v.detail with
  | some detail => v.code.text ++ " (" ++ detail ++ ")"
  | none => v.code.text

/-- Why a request that was accepted could not be carried out. -/
inductive ExecutionCause
  | launch (error : LaunchError)
  | queuePoisoned
  | outputRank (expected actual : Nat)
  | outputIndex (what : String) (value : Nat)
  | index (value : Nat)
  | offset
  | slab (error : ViewError)
  | reported (message : String)
deriving Repr, DecidableEq

def ExecutionCause.message : ExecutionCause → String
  | launch error => "xpu device: " ++ error.message
  | queuePoisoned => "xpu device queue mutex poisoned"
  | outputRank expected actual =>
    "output layout of rank " ++ toString expected ++ " captured from a rank-" ++ toString actual ++
      " tensor"
  | outputIndex what value =>
    "output " ++ what ++ " " ++ toString value ++ " exceeds 32-bit index range"
  | index value => toString value ++ " exceeds 32-bit index range"
  | offset => "concatenation offset exceeds 32-bit index range"
  | slab error => "cat fallback: " ++ error.message
  | reported message => message

inductive BackendError
  | violation (violation : Violation)
  | unimplemented (operation reason : String)
  | execution (cause : ExecutionCause)
deriving Repr, DecidableEq

namespace BackendError

def message : BackendError → String
  | violation v => v.message
  | unimplemented operation reason => operation ++ " is not implemented: " ++ reason
  | execution cause => "backend execution failure: " ++ cause.message

def code? : BackendError → Option ViolationCode
  | violation v => some v.code
  | _ => none

end BackendError

/-- A broken precondition. No caller that keeps its promises meets one. -/
inductive Fault
  | emptyShape
  | axisOutOfRange
  | zeroDivisor
  | indexOverflow
  | storageTooLarge
  | kernelStopped
deriving Repr, DecidableEq

inductive Failure
  | view (error : ViewError)
  | backend (error : BackendError)
  | fault (fault : Fault)
deriving Repr, DecidableEq

end TensorConcat
