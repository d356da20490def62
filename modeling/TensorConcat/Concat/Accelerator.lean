import TensorConcat.Concat.Launch
import TensorConcat.Concat.Slabs

/-!
# Concatenation on the device

A request is planned, the output is resized, and the plan's engine fills it. A
request that is turned away leaves everything as it was. When the engine fails,
the output has its new shape already and holds what was written until then.
-/

namespace TensorConcat

/-- How a request ended: the answer, the output's own view, and the machine. -/
structure Outcome (α : Type) where
  result : Except Failure α
  out : Tensor
  machine : Machine

namespace Accelerator

def planEvent (inputs : Nat) (p : Plan) : Event :=
  match p.filling with
  | none => .allSkipped inputs
  | some f => .planned inputs p.axis f

def plan (config : ConcatConfig) (out : Tensor) (inputs : List Tensor) (dim : Int) :
    Action Plan := do
  match Plan.make (← get).heap config out inputs dim with
  | .error r => throw r.failure
  | .ok p =>
    Action.note (planEvent inputs.length p)
    return p

variable [FloatCasts]

def fill (capacity : Nat) (engine : Engine) (out : Tensor) (inputs : List Tensor) (axis : Nat) :
    Action Unit :=
  match engine with
  | .fused rank => copyBatched out inputs axis rank capacity
  | .fallback => copySlabs out axis 0 inputs

def concatenate (config : ConcatConfig) (out : Tensor) (inputs : List Tensor) (dim : Int)
    (m : Machine) : Outcome Plan :=
  match plan config out inputs dim m with
  | (.error e, m) => ⟨.error e, out, m⟩
  | (.ok p, m) =>
    match p.filling with
    | none => ⟨.ok p, out, m⟩
    | some f =>
      match out.resize f.shape f.format m.heap with
      | .error e => ⟨.error e, out, m⟩
      | .ok (out, h) =>
        match fill config.effectiveCapacity f.engine out inputs p.axis (m.withHeap h) with
        | (.ok (), m) => ⟨.ok p, out, m⟩
        | (.error e, m) => ⟨.error e, out, m⟩

end Accelerator

end TensorConcat
