import TensorConcat.Machine
import TensorConcat.Tensor.Copy

/-!
# Filling an output input by input

Each input that is not left out is copied into its slab, the part of the output
along the joined axis that follows those of the inputs before it. Any rank, layout
and mixture of types will do.
-/

namespace TensorConcat

def slabResult {α : Type} : Except ViewError α → Action α
  | .ok a => pure a
  | .error e => Action.fail (.execution (.slab e))

variable [FloatCasts]

def copySlab (slab input : Tensor) : Action Unit := do
  slabResult (slab.checkCopy input)
  Action.write (slab.copyMatching input)

def copySlabs (out : Tensor) (axis : Nat) : Nat → List Tensor → Action Unit
  | filled, [] => Action.note (.slabsFilled filled axis)
  | filled, input :: rest =>
    if input.isSkipped then copySlabs out axis filled rest
    else do
      let extent := (← Action.lift (input.axis axis)).extent
      copySlab (← slabResult (out.narrow axis filled extent)) input
      copySlabs out axis (filled + extent) rest

end TensorConcat
