import TensorConcat.Machine
import TensorConcat.Text.Quoted

/-!
# Settings from the environment

Two variables give the size of the shared device and one turns the fused engine
off. A count is a positive number below `2 ^ 32`, in decimal digits with an
optional plus; any other text is ignored, with a warning when the variable is
read for the first time. Blanks around a value do not count.
-/

namespace TensorConcat

structure Environment where
  settings : List (String × String) := []
  asked : List String := []
deriving Repr, DecidableEq

def computeUnitsVariable : String := "XPU_COMPUTE_UNITS"
def workGroupVariable : String := "XPU_MAX_WORK_GROUP_SIZE"
def forceFallbackVariable : String := "XPU_CAT_FORCE_FALLBACK"

def isDigit (c : Char) : Bool := '0' ≤ c && c ≤ '9'

def digitValue (c : Char) : Nat := c.toNat - '0'.toNat

/-- A decimal number below `2 ^ 32`. -/
def parseWord (cs : List Char) : Option UInt32 :=
  let digits := match cs with
    | '+' :: rest => rest
    | _ => cs
  if digits.isEmpty || !digits.all isDigit then none
  else
    let n := digits.foldl (fun n c => 10 * n + digitValue c) 0
    if n < 0x100000000 then some (UInt32.ofNat n) else none

def parseCount (text : String) : Option UInt32 :=
  match parseWord (Text.trim text.toList) with
  | some n => if 0 < n then some n else none
  | none => none

def lowerChar (c : Char) : Char := if 'A' ≤ c && c ≤ 'Z' then Char.ofNat (c.toNat + 32) else c

def parseFlag (text : String) : Bool :=
  ["1", "true", "yes", "on"].contains (String.ofList ((Text.trim text.toList).map lowerChar))

namespace Environment

def value? (e : Environment) (name : String) : Option String := e.settings.lookup name

/-- Reads a count; the first time, a text that is no count is reported. -/
def count (e : Environment) (name : String) : Option UInt32 × Environment × List Event :=
  match e.value? name with
  | none => (none, e, [])
  | some text =>
    let n := parseCount text
    let complaint : Event := .valueIgnored name (String.ofList (Text.quote text.toList))
    let events := if n.isSome || e.asked.contains name then [] else [complaint]
    (n, { e with asked := name :: e.asked }, events)

def deviceConfig (e : Environment) : DeviceConfig × Environment × List Event :=
  let (units, e, first) := e.count computeUnitsVariable
  let (size, e, second) := e.count workGroupVariable
  let defaults : DeviceConfig := {}
  (⟨units.getD defaults.computeUnits, size.getD defaults.maxWorkGroupSize, none⟩, e,
    first ++ second)

def concatConfig (e : Environment) : ConcatConfig :=
  { forceFallback := ((e.value? forceFallbackVariable).map parseFlag).getD false }

end Environment

end TensorConcat
