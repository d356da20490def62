import TensorConcat.Device.Range
import TensorConcat.Failure

/-!
# The device queue

A device accepts launches one at a time and counts them, and counts the copies to
its staging buffers. It may be given a budget of launches. A kernel that stops
poisons the queue: the launch still counts, and every later use fails.

A staging buffer holds a fixed number of records, zero until they are staged;
staging a list replaces the records at its front.
-/

namespace TensorConcat

structure DeviceConfig where
  computeUnits : UInt32 := 16
  maxWorkGroupSize : UInt32 := 256
  failAfterSubmissions : Option Nat := none
deriving Repr, DecidableEq

structure Device where
  config : DeviceConfig
  submissions : Nat := 0
  transfers : Nat := 0
  poisoned : Bool := false
deriving Repr, DecidableEq

/-- Fixed-size records as a device sees them. -/
class Record (α : Type) where
  zero : α
  size : Nat

instance : Record UInt64 := ⟨0, 8⟩

structure StagingBuffer (α : Type) where
  capacity : Nat
  staged : Array α := #[]

namespace StagingBuffer
variable {α : Type} [Record α]

def record (b : StagingBuffer α) (i : Nat) : α := b.staged.getD i Record.zero

def put (b : StagingBuffer α) (items : List α) : StagingBuffer α :=
  { b with staged := items.toArray ++ b.staged.extract items.length b.staged.size }

def slice (b : StagingBuffer α) (count : Nat) : Except ExecutionCause (List α) :=
  if b.capacity < count then .error (.launch (.stagingOverrun count b.capacity))
  else .ok ((List.range count).map b.record)

end StagingBuffer

/-- A device address in words. -/
def describeAddress (address : UInt64) : String :=
  "DevicePtr(0x" ++ String.ofList (Nat.toDigits 16 address.toNat) ++ ")"

namespace Device

/-- Half of the compute units, but at least one. -/
def groupsPerLaunch (d : Device) : UInt32 := max (d.config.computeUnits / 2) 1

def checkQueue (d : Device) : Except ExecutionCause Unit :=
  if d.poisoned then .error .queuePoisoned else .ok ()

/-- A buffer for as many records, if a storage can have their bytes, counted exactly. -/
def allocStaging (α : Type) [Record α] (capacity : Nat) : Except Failure (StagingBuffer α) :=
  if capacity * Record.size α ≤ storageLimit then .ok ⟨capacity, #[]⟩
  else .error (.fault .storageTooLarge)

def stage {α : Type} [Record α] (d : Device) (b : StagingBuffer α) (items : List α) :
    Except ExecutionCause (StagingBuffer α × Device) := do
  if b.capacity < items.length then
    throw (.launch (.stagingOverrun items.length b.capacity))
  d.checkQueue
  return (b.put items, { d with transfers := d.transfers + 1 })

def readBack {α : Type} [Record α] (d : Device) (b : StagingBuffer α) (count : Nat) :
    Except ExecutionCause (List α) := do
  d.checkQueue
  b.slice count

/-- Takes a launch on, which counts it, or turns it away. -/
def accept (d : Device) (r : Range2) : Except ExecutionCause Device := do
  let _ ← (r.validate d.config.maxWorkGroupSize).mapError .launch
  d.checkQueue
  if let some limit := d.config.failAfterSubmissions then
    if limit ≤ d.submissions then throw (.launch (.queueRejected d.submissions))
  return { d with submissions := d.submissions + 1 }

/-- Runs the kernel for every item of a range that was taken on. -/
def execute {σ : Type} (d : Device) (r : Range2) (kernel : WorkItem → σ → Except Fault σ) (s : σ) :
    Except Fault σ × Device :=
  match r.runItems kernel s with
  | .ok s => (.ok s, d)
  | .error fault => (.error fault, { d with poisoned := true })

def describeConfig (c : DeviceConfig) : String :=
  "DeviceConfig \x7b compute_units: " ++ toString c.computeUnits.toNat ++
    ", max_work_group_size: " ++ toString c.maxWorkGroupSize.toNat ++
    ", fail_after_submissions: " ++
    (match c.failAfterSubmissions with
      | some n => "Some(" ++ toString n ++ ")"
      | none => "None") ++ " \x7d"

def describe (d : Device) : String :=
  "Device \x7b config: " ++ describeConfig d.config ++ ", submissions: " ++
    toString d.submissions ++ " \x7d"

end Device

end TensorConcat
