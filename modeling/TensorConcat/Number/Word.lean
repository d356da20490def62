import TensorConcat.Failure

/-!
# 32-bit index arithmetic

Kernels count in 32-bit words. A sum or product that does not fit is a fault, not
a smaller number; only the step of a loop stops at the largest word instead.
-/

namespace TensorConcat.Number

def word (n : Nat) : Except Fault UInt32 :=
  if n < 0x100000000 then .ok (UInt32.ofNat n) else .error .indexOverflow

def addWord (a b : UInt32) : Except Fault UInt32 := word (a.toNat + b.toNat)

def mulWord (a b : UInt32) : Except Fault UInt32 := word (a.toNat * b.toNat)

def divWord (a b : UInt32) : Except Fault UInt32 :=
  if b = 0 then .error .zeroDivisor else .ok (a / b)

/-- The sum, or the largest word if it is larger. -/
def saturatingAdd (a b : UInt32) : UInt32 := UInt32.ofNat (min (a.toNat + b.toNat) 0xFFFFFFFF)

@[simp] theorem toNat_saturatingAdd (a b : UInt32) :
    (saturatingAdd a b).toNat = min (a.toNat + b.toNat) 0xFFFFFFFF := by
  simp only [saturatingAdd, UInt32.toNat_ofNat']
  omega

/-- The words that a loop visits which starts at `first`, steps by `stride` and
stops at `count`. A loop that does not step visits nothing. -/
def visits (count stride first : UInt32) : List UInt32 :=
  if _h : first < count ∧ 0 < stride then
    first :: visits count stride (saturatingAdd first stride)
  else []
termination_by count.toNat - first.toNat
decreasing_by
  obtain ⟨hf, hs⟩ := _h
  have hc := count.toNat_lt
  rw [UInt32.lt_iff_toNat_lt] at hf hs
  simp only [UInt32.toNat_zero] at hs
  rw [toNat_saturatingAdd]
  omega

end TensorConcat.Number
