import TensorConcat.Tensor.Basic

/-!
# Overlap

Whether two views share bytes is decided by their byte ranges when both are
dense; otherwise the question is left open. Whether one view addresses an element
twice is decided when it is dense, and when an axis of several elements does
not move.
-/

namespace TensorConcat

inductive Overlap
  | full
  | partially
  | no
  | tooHard
deriving Repr, DecidableEq

def Overlap.name : Overlap → String
  | .full => "Full"
  | .partially => "Partial"
  | .no => "No"
  | .tooHard => "TooHard"

inductive InternalOverlap
  | no
  | yes
  | tooHard
deriving Repr, DecidableEq

def InternalOverlap.name : InternalOverlap → String
  | .no => "No"
  | .yes => "Yes"
  | .tooHard => "TooHard"

namespace Tensor

def internalOverlap (t : Tensor) : InternalOverlap :=
  if t.isDense then .no
  else if t.axes.any fun a => 1 < a.extent && a.stride == 0 then .yes
  else .tooHard

def overlap (a b : Tensor) : Overlap :=
  if a.numel = 0 ∨ b.numel = 0 then .no
  else if !a.isDense || !b.isDense then .tooHard
  else if a.storage ≠ b.storage then .no
  else if a.byteRange = b.byteRange then .full
  else if a.byteRange.1 < b.byteRange.2 ∧ b.byteRange.1 < a.byteRange.2 then .partially
  else .no

/-- Whether the overlap of the two views is known and not empty. -/
def surelyOverlaps (a b : Tensor) : Bool :=
  match a.overlap b with
  | .full | .partially => true
  | .no | .tooHard => false

end Tensor

end TensorConcat
