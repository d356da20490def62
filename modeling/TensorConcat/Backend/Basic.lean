import TensorConcat.Concat.Reference

/-!
# Backends

A backend has a name and concatenates into an output it is given; concatenation
into a new tensor follows from that. The accelerated and the reference routes are
backends, and so are two that do no work: one lacks the operation, the other only
has its calls noted.
-/

namespace TensorConcat

def Outcome.map {α β : Type} (f : α → β) (o : Outcome α) : Outcome β :=
  { o with result := o.result.map f }

structure Backend where
  name : String
  catInto : Tensor → List Tensor → Int → Machine → Outcome Unit

namespace Backend

def accelerator [FloatCasts] (config : ConcatConfig) : Backend :=
  ⟨"xpu", fun out inputs dim m =>
    (Accelerator.concatenate config out inputs dim m).map fun _ => ()⟩

def reference [FloatCasts] : Backend := ⟨"cpu", Reference.concatenate⟩

def refusing : Backend :=
  ⟨"refusing", fun out _ _ m =>
    ⟨.error (.backend (.unimplemented "cat" "refused")), out, m⟩⟩

def idle : Backend := ⟨"recording", fun out _ _ m => ⟨.ok (), out, m⟩⟩

/-- The same backend, with each of its calls noted. -/
def observed (b : Backend) : Backend :=
  { b with
    catInto := fun out inputs dim m =>
      let o := b.catInto out inputs dim m
      let call : Call := ⟨dim, inputs, out, m.heap, o.result.map fun _ => o.out.dims⟩
      { o with machine := { o.machine with calls := o.machine.calls.push call } } }

def recording : Backend := idle.observed

def noInputs : Failure := (Plan.Rejection.objection .noInputs).failure

/-- The type of a new output, or the refusal of an empty list. -/
def resultType (inputs : List Tensor) : Except Failure DType :=
  match resultType? inputs with
  | some d => .ok d
  | none => .error noInputs

/-- Concatenation into a new tensor of the inputs' common type. -/
def cat (b : Backend) (inputs : List Tensor) (dim : Int) : Action Tensor := fun m =>
  match resultType inputs with
  | .error e => (.error e, m)
  | .ok d =>
    match Tensor.undefined d m.heap with
    | .error e => (.error e, m)
    | .ok (out, h) =>
      let o := b.catInto out inputs dim (m.withHeap h)
      (o.result.map fun _ => o.out, o.machine)

end Backend

end TensorConcat
