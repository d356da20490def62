import TensorConcat.Backend.Basic

/-!
# Dispatch

Callers may count axes from the end. `wrapDim` turns such a number into an axis of
the first input that counts, or refuses it; the request then goes to a backend.
-/

namespace TensorConcat

/-- The axis of a possibly negative number. A rank of zero counts as one, and ranks
are read as signed 64-bit words. -/
def wrapDim (dim : Int) (rank : Nat) : Except Violation Int :=
  let rank := Int.bmod (max rank 1) 0x10000000000000000
  if dim < -rank ∨ rank ≤ dim then
    .error ⟨.invalidDimension,
      some ("dimension " ++ toString dim ++ " out of range for rank " ++ toString rank)⟩
  else .ok (if dim < 0 then dim + rank else dim)

namespace Dispatch

/-- The rank that axes of a request are counted in. -/
def rankOf (inputs : List Tensor) : Nat :=
  match inputs.find? (!·.isSkipped) with
  | some t => t.rank
  | none => 1

def axis (inputs : List Tensor) (dim : Int) : Except Failure Int :=
  (wrapDim dim (rankOf inputs)).mapError fun v => .backend (.violation v)

def cat (b : Backend) (inputs : List Tensor) (dim : Int) : Action Tensor := do
  let dim ← Action.lift (axis inputs dim)
  Action.note (.dispatched "cat" b.name inputs.length dim)
  b.cat inputs dim

def catInto (b : Backend) (out : Tensor) (inputs : List Tensor) (dim : Int) (m : Machine) :
    Outcome Unit :=
  match axis inputs dim with
  | .error e => ⟨.error e, out, m⟩
  | .ok dim =>
    b.catInto out inputs dim (m.note (.dispatched "cat_out" b.name inputs.length dim))

end Dispatch

end TensorConcat
