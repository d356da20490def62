import TensorConcat.Backend.Basic
import TensorConcat.Proofs.Growth
import TensorConcat.Proofs.Parity
import TensorConcat.Proofs.Steadiness

/-!
# The routes of a concatenation

A caller chooses between two working backends, the reference one and the accelerated one with
its settings. What a call does to its output and to the sizes of storages is the same for both:
nothing, or a resizing.
-/

namespace TensorConcat

/-- A way to concatenate. -/
inductive Route
  | reference
  | accelerator (config : ConcatConfig)
deriving Repr, DecidableEq

def Route.backend [FloatCasts] : Route → Backend
  | reference => .reference
  | accelerator config => .accelerator config

/-- An output and memory after a call that has left the output alone or resized it, and after that
has changed bytes only. -/
inductive Outcome.ResizedOnly {α : Type} (o : Outcome α) (out : Tensor) (h : Heap) : Prop
  | kept : o.out = out → h.SameSizes o.machine.heap → ResizedOnly o out h
  | resized (shape : List Nat) (f : MemoryFormat) (k : Heap) :
      out.resize shape f h = .ok (o.out, k) → k.SameSizes o.machine.heap → ResizedOnly o out h

theorem Accelerator.concatenate_resizedOnly [FloatCasts] (config : ConcatConfig) (out : Tensor)
    (inputs : List Tensor) (dim : Int) (m : Machine) :
    (concatenate config out inputs dim m).ResizedOnly out m.heap := by
  cases verdict m.heap out inputs dim with
  | rejected r hr =>
    rw [concatenate_rejected (hr config)]
    exact .kept rfl (.refl _)
  | idle nothing =>
    rw [concatenate_idle_eq nothing]
    exact .kept rfl (.refl _)
  | refused axis shape f e joinable he =>
    rw [concatenate_refused_eq joinable he]
    exact .kept rfl (.refl _)
  | joined axis shape f t k joinable ht =>
    have hsteady := steady_fill config.effectiveCapacity (Plan.engineFor config out inputs shape f) t
      inputs axis
    rw [concatenate_of_fill joinable ht (Prod.eta _).symm]
    exact .resized shape f k ht
      (hsteady.sizes ((planned config out inputs axis shape f m).withHeap k))

theorem Reference.concatenate_resizedOnly [FloatCasts] (out : Tensor) (inputs : List Tensor)
    (dim : Int) (m : Machine) : (concatenate out inputs dim m).ResizedOnly out m.heap := by
  unfold concatenate
  split
  · exact .kept rfl (.refl _)
  · exact .kept rfl (.refl _)
  · split
    · exact .kept rfl (.refl _)
    · rename_i j _ _ t k ht
      exact .resized j.shape j.format k ht (Tensor.sameSizes_fill k t _)

theorem Route.catInto_resizedOnly [FloatCasts] (route : Route) (out : Tensor) (inputs : List Tensor)
    (dim : Int)
    (m : Machine) : (route.backend.catInto out inputs dim m).ResizedOnly out m.heap := by
  cases route with
  | reference => exact Reference.concatenate_resizedOnly out inputs dim m
  | accelerator config =>
    cases Accelerator.concatenate_resizedOnly config out inputs dim m with
    | kept hout hsizes => exact .kept hout hsizes
    | resized shape f k ht hsizes => exact .resized shape f k ht hsizes

/-- The output of a concatenation into a new tensor, on a storage of its own, before it has got a
shape. -/
def Tensor.fresh (dtype : DType) (h : Heap) : Tensor :=
  ⟨h.storages.size, 0, MemoryFormat.contiguous.axes [0], dtype⟩

/-- Memory with one more storage, without a byte. -/
def Heap.withEmpty (h : Heap) : Heap := (h.push #[]).2

theorem Heap.extends_withEmpty (h : Heap) : h.Extends h.withEmpty := .push h #[]

theorem Tensor.undefined_eq (dtype : DType) (h : Heap) :
    Tensor.undefined dtype h = .ok (.fresh dtype h, h.withEmpty) := by
  simp [undefined, zeros, checkShape, Heap.allocate, volume, storageLimit, putBytes, fresh,
    Heap.withEmpty, Heap.push, bind, Except.bind, pure, Except.pure]

/-- Concatenation into a new tensor is concatenation into an output without a byte. -/
theorem Backend.cat_eq {inputs : List Tensor} {dtype : DType}
    (hdtype : Backend.resultType inputs = .ok dtype) (b : Backend) (dim : Int) (m : Machine) :
    let o := b.catInto (.fresh dtype m.heap) inputs dim (m.withHeap m.heap.withEmpty)
    b.cat inputs dim m = (o.result.map fun _ => o.out, o.machine) := by
  intro o
  rw [Backend.cat, hdtype]
  simp only [Tensor.undefined_eq]
  rfl

end TensorConcat
