import TensorConcat.Concat.Plan
import TensorConcat.Device.Queue

/-!
# The machine

What an operation can see and change: memory, the device at hand, the log, and the
calls that observed backends have noted. An action runs on a machine and leaves
one behind whether it succeeds or not, so what a failed operation has already
done can be looked at.
-/

namespace TensorConcat

inductive Level
  | warn | info | debug | trace
deriving Repr, DecidableEq

def Level.name : Level → String
  | .warn => "WARN"
  | .info => "INFO"
  | .debug => "DEBUG"
  | .trace => "TRACE"

inductive Event
  | valueIgnored (name quoted : String)
  | deviceReady (config : DeviceConfig)
  | backendReplaced (name : String)
  | allSkipped (inputs : Nat)
  | planned (inputs axis : Nat) (filling : Filling)
  | batched (inputs batches rank width : Nat)
  | staged (bytes : Nat)
  | submitted (submission : Nat) (range : Range2)
  | slabsFilled (extent axis : Nat)
  | dispatched (operation backend : String) (inputs : Nat) (dim : Int)
deriving Repr, DecidableEq

namespace Event

def level : Event → Level
  | valueIgnored _ _ => .warn
  | deviceReady _ => .info
  | backendReplaced _ | allSkipped _ | planned _ _ _ | batched _ _ _ _ => .debug
  | staged _ | submitted _ _ | slabsFilled _ _ | dispatched _ _ _ _ => .trace

def engineText : Engine → String
  | .fused rank => "Fused \x7b rank: " ++ toString rank ++ " \x7d"
  | .fallback => "Fallback"

def text : Event → String
  | valueIgnored name quoted =>
    "ignoring " ++ name ++ "=" ++ quoted ++ ": expected a positive integer"
  | deviceReady c =>
    "xpu device initialised: " ++ toString c.computeUnits.toNat ++
      " compute units, work-group limit " ++ toString c.maxWorkGroupSize.toNat
  | backendReplaced name =>
    "backend '" ++ name ++ "' re-registered; previous constructor replaced"
  | allSkipped inputs => "cat: all " ++ toString inputs ++ " inputs skipped, nothing to do"
  | planned inputs axis f =>
    "cat plan: " ++ toString inputs ++ " inputs dim=" ++ toString axis ++ " shape=" ++
      listText f.shape ++ " format=" ++ f.format.title ++ " strategy=" ++ engineText f.engine
  | batched inputs batches rank width =>
    "cat batched: " ++ toString inputs ++ " inputs in " ++ toString batches ++ " batches, rank " ++
      toString rank ++ ", " ++ toString width ++ "-byte elements"
  | staged bytes => "xpu staging copy: " ++ toString bytes ++ " bytes to ADDRESS"
  | submitted submission r =>
    "xpu submit #" ++ toString submission ++ ": global " ++ r.global.text ++ " local " ++
      r.workGroup.text
  | slabsFilled extent axis =>
    "cat fallback filled " ++ toString extent ++ " positions along dim " ++ toString axis
  | dispatched operation backend inputs dim =>
    "dispatch " ++ operation ++ ": backend=" ++ backend ++ " inputs=" ++ toString inputs ++
      " dim=" ++ toString dim

end Event

/-- One call of a backend, with the memory as it was before it. -/
structure Call where
  dim : Int
  inputs : List Tensor
  out : Tensor
  before : Heap
  result : Except Failure (List Nat)

structure Machine where
  heap : Heap := {}
  device : Device := { config := {} }
  log : Array Event := #[]
  calls : Array Call := #[]

abbrev Action (α : Type) := ExceptT Failure (StateM Machine) α

namespace Machine

def note (m : Machine) (e : Event) : Machine := { m with log := m.log.push e }

def withHeap (m : Machine) (h : Heap) : Machine := { m with heap := h }

/-- A machine whose device has just been made. -/
def boot (config : DeviceConfig) : Machine :=
  ({ device := { config } } : Machine).note (.deviceReady config)

end Machine

namespace Action

def note (e : Event) : Action Unit := modify (·.note e)

def fail {α : Type} (e : BackendError) : Action α := throw (.backend e)

def lift {α : Type} : Except Failure α → Action α
  | .ok a => pure a
  | .error e => throw e

def execution {α : Type} : Except ExecutionCause α → Action α
  | .ok a => pure a
  | .error cause => fail (.execution cause)

/-- Runs a change of memory that may fail. -/
def onHeap {α : Type} (f : Heap → Except Failure (α × Heap)) : Action α := do
  let m ← get
  let (a, h) ← lift (f m.heap)
  set (m.withHeap h)
  return a

/-- Changes memory in place. -/
def write (f : Heap → Heap) : Action Unit :=
  modify fun ⟨heap, device, log, calls⟩ => ⟨f heap, device, log, calls⟩

def stage {α : Type} [Record α] (b : StagingBuffer α) (items : List α) :
    Action (StagingBuffer α) := do
  let m ← get
  let (b, device) ← execution (m.device.stage b items)
  set ({ m with device }.note (.staged (items.length * Record.size α)))
  return b

/-- Submits a kernel that works on a value of its own. -/
def launch {σ : Type} (r : Range2) (kernel : WorkItem → σ → Except Fault σ) (s : σ) : Action σ := do
  let m ← get
  let device ← execution (m.device.accept r)
  let m := m.note (.submitted m.device.submissions r)
  match device.execute r kernel s with
  | (.ok s, device) =>
    set { m with device }
    return s
  | (.error fault, device) =>
    set { m with device }
    throw (.fault fault)

/-- Submits a kernel that works on memory. -/
def submit (r : Range2) (kernel : WorkItem → Heap → Except Fault Heap) : Action Unit := do
  let h ← launch r kernel (← get).heap
  modify (·.withHeap h)

end Action

end TensorConcat
