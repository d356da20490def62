import TensorConcat.Concat.Descriptor
import TensorConcat.Concat.OutputLayout
import TensorConcat.Machine

/-!
# Filling an output by launches

Inputs are taken in batches. For each batch the records are staged and one launch
is submitted, whose second direction selects the input and whose first direction
is shared out over its elements: every item copies the elements it visits, a whole
launch width apart. A batch that fails leaves the batches before it written.
-/

namespace TensorConcat

open Number

/-- Consecutive pieces of a list, all of the given length but perhaps the last. -/
def inBatches {α : Type} (n : Nat) (xs : List α) : List (List α) :=
  if _h : n = 0 ∨ xs = [] then [] else xs.take n :: inBatches n (xs.drop n)
termination_by xs.length
decreasing_by
  have : xs.length ≠ 0 := fun e => _h (.inr (List.eq_nil_of_length_eq_zero e))
  simp only [List.length_drop]
  omega

/-- Elements of a given width, by number, from a place in memory on. -/
def Pointer.element (p : Pointer) (width index : Nat) : Pointer :=
  { p with byte := p.byte + index * width }

def Heap.move (h : Heap) (width : Nat) (target source : Pointer) : Heap :=
  h.store target.storage target.byte (h.load source.storage source.byte width)

structure Launch where
  output : Pointer
  width : Nat
  layout : OutputLayout
  joined : Nat
  descriptors : Array (Descriptor Pointer)

namespace Launch

/-- Copies one element of an input whose part of the output begins at `base`. -/
def copyElement (l : Launch) (d : Descriptor Pointer) (base linear : UInt32) (h : Heap) :
    Except Fault Heap := do
  let target ← addWord base (← l.layout.offsetOf d.dimSize l.joined linear)
  return h.move l.width (l.output.element l.width target.toNat)
    (d.input.element l.width linear.toNat)

/-- What one item does: nothing if it starts beyond its input's elements. -/
def kernel (l : Launch) (item : WorkItem) (h : Heap) : Except Fault Heap :=
  match l.descriptors[item.group.y.toNat]? with
  | none => .error .axisOutOfRange
  | some d => do
    let first := item.group.x * item.localRange.x + item.localId.x
    if d.elements ≤ first then return h
    let base ← mulWord d.offset (l.layout.strideAt l.joined)
    let stride := item.groupRange.x * item.localRange.x
    (visits d.elements stride first).foldlM (fun h linear => l.copyElement d base linear h) h

/-- One row of items per input, as wide as half of the device. -/
def rangeFor (d : Device) (inputs : Nat) : Except ExecutionCause Range2 :=
  let groups := d.groupsPerLaunch
  let size := d.config.maxWorkGroupSize
  if groups.toNat * size.toNat < 0x100000000 then
    .ok ⟨⟨groups * size, UInt32.ofNat inputs⟩, ⟨size, 1⟩⟩
  else .error (.launch (.globalRangeOverflow groups size))

/-- The output has to have the joined axis, even when no item copies anything. -/
def submit (l : Launch) : Action Unit := do
  let range ← Action.execution (rangeFor (← get).device l.descriptors.size)
  if l.layout.strides.length ≤ l.joined then throw (.fault .axisOutOfRange)
  Action.submit range l.kernel

end Launch

def copyBatches (out : Tensor) (layout : OutputLayout) (axis : Nat)
    (staging : StagingBuffer (Descriptor Pointer)) : UInt32 → List (List Tensor) → Action Unit
  | _, [] => return ()
  | offset, batch :: rest => do
    let (records, next) ← Action.lift (describeBatch axis offset batch)
    let staging ← Action.stage staging records
    let descriptors ← Action.execution (staging.slice records.length)
    Launch.submit ⟨out.pointer, out.elementSize, layout, axis, descriptors.toArray⟩
    copyBatches out layout axis staging next rest

/-- Fills an output that has its final shape already. Every input is dense in the
output's format and of its type. -/
def copyBatched (out : Tensor) (inputs : List Tensor) (axis rank capacity : Nat) : Action Unit := do
  if rank < 1 ∨ maxFusedRank < rank then
    Action.fail (.unimplemented "cat"
      ("batched copy supports ranks 1 to 3, got " ++ toString rank))
  let layout ← Action.execution (OutputLayout.capture rank out)
  let staging ← Action.lift (Device.allocStaging (Descriptor Pointer) capacity)
  if capacity = 0 then throw (.fault .zeroDivisor)
  let batches := inBatches capacity inputs
  Action.note (.batched inputs.length batches.length rank out.elementSize)
  copyBatches out layout axis staging 0 batches

end TensorConcat
