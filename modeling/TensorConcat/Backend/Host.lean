import TensorConcat.Backend.Dispatch
import TensorConcat.Environment
import TensorConcat.SoftwareCasts

/-!
# Backends by name

A host knows its backends by name and makes a new one on every request. All
accelerated backends it makes share one device, which is made, from the
environment, when the first of them is asked for.
-/

namespace TensorConcat

inductive BackendKind
  | reference
  | accelerator
  | recording
  | refusing
deriving Repr, DecidableEq

/-- Kinds of backends by name. -/
structure Registry where
  entries : List (String × BackendKind) := []
deriving Repr, DecidableEq

namespace Registry

def has (r : Registry) (name : String) : Bool := (r.entries.lookup name).isSome

def put (r : Registry) (name : String) (kind : BackendKind) : Registry :=
  ⟨(name, kind) :: r.entries.filter (·.1 != name)⟩

/-- The names in ascending order. -/
def names (r : Registry) : List String := (r.entries.map (·.1)).mergeSort

end Registry

structure Host where
  environment : Environment := {}
  registry : Registry := ⟨[("cpu", .reference), ("xpu", .accelerator)]⟩
  device : Option Device := none
deriving Repr, DecidableEq

namespace Host

def register (h : Host) (name : String) (kind : BackendKind) : Host × List Event :=
  ({ h with registry := h.registry.put name kind },
    if h.registry.has name then [.backendReplaced name] else [])

def deviceConfig (h : Host) : DeviceConfig × Host × List Event :=
  let (config, environment, events) := h.environment.deviceConfig
  (config, { h with environment }, events)

/-- The device that all accelerated backends of the host share. -/
def sharedDevice (h : Host) : Device × Host × List Event :=
  match h.device with
  | some d => (d, h, [])
  | none =>
    let (config, h, events) := h.deviceConfig
    let d : Device := { config }
    (d, { h with device := some d }, events ++ [.deviceReady config])

/-- A new backend of a kind. One that runs on the shared device brings it along. -/
def make (h : Host) : BackendKind → (Backend × Option Device) × Host × List Event
  | .reference => ((.reference, none), h, [])
  | .recording => ((.recording, none), h, [])
  | .refusing => ((.refusing, none), h, [])
  | .accelerator =>
    let (d, h, events) := h.sharedDevice
    ((.accelerator h.environment.concatConfig, some d), h, events)

def create? (h : Host) (name : String) :
    Option ((Backend × Option Device) × Host × List Event) :=
  (h.registry.entries.lookup name).map h.make

end Host

end TensorConcat
