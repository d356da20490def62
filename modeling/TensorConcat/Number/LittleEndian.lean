/-!
# Little-endian words

A natural number below `256 ^ width` as `width` bytes, least significant first.
Reading what was written at some width gives the number back, less what the
width has no room for.
-/

namespace TensorConcat.Number.LittleEndian

def encode : Nat → Nat → List UInt8
  | 0, _ => []
  | width + 1, n => UInt8.ofNat n :: encode width (n / 256)

def decode : List UInt8 → Nat
  | [] => 0
  | b :: bs => b.toNat + 256 * decode bs

@[simp] theorem length_encode (width n : Nat) : (encode width n).length = width := by
  induction width generalizing n with
  | zero => rfl
  | succ width ih => simp [encode, ih]

theorem decode_lt (bs : List UInt8) : decode bs < Nat.pow 256 bs.length := by
  induction bs with
  | nil => simp [decode]
  | cons b bs ih =>
    have hb := b.toNat_lt
    simp only [decode, List.length_cons, Nat.pow_eq, Nat.pow_succ] at ih ⊢
    omega

theorem decode_encode (width n : Nat) : decode (encode width n) = n % Nat.pow 256 width := by
  induction width generalizing n with
  | zero => simp [encode, decode, Nat.mod_one]
  | succ width ih =>
    simp only [Nat.pow_eq, Nat.pow_succ', Nat.mod_mul] at ih ⊢
    simp only [encode, decode, ih, UInt8.toNat_ofNat']

end TensorConcat.Number.LittleEndian
