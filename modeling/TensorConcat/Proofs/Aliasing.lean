import TensorConcat.Proofs.Parity
import TensorConcat.SoftwareCasts

/-!
# Which aliasing is turned away

The planner compares the byte ranges of the inputs with that of the view the output is
about to become. Only ranges of dense views are compared, since those of other views
prove nothing. So no dense input of an accepted request reaches into the range that is
written, and a dense input that does has its request turned away before anything
changes. A view with gaps is let through: it may lie in the output's own storage, among
the bytes that are written.
-/

namespace TensorConcat

theorem checkDisjoint_code {t : Tensor} {inputs : List Tensor} {o : Objection}
    (ho : checkDisjoint t inputs = .error o) : o.code = .memoryOverlap := by
  unfold checkDisjoint at ho
  split at ho
  · rw [← Except.error.inj ho]
    rfl
  · exact absurd ho (by simp)

/-- An output that could hold the inputs' type is turned away for the memory it lies in. -/
theorem checkOutput_code {out : Tensor} {inputs : List Tensor} {o : Objection}
    (types : checkTypes out inputs = .ok ()) (ho : checkOutput out inputs = .error o) :
    o.code = .memoryOverlap := by
  unfold checkOutput at ho
  rw [types] at ho
  cases hdisjoint : checkDisjoint out inputs with
  | error e =>
    rw [hdisjoint] at ho
    obtain rfl : e = o := Except.error.inj ho
    exact checkDisjoint_code hdisjoint
  | ok u =>
    rw [hdisjoint] at ho
    change checkDistinct out = .error o at ho
    unfold checkDistinct at ho
    split at ho
    · rw [← Except.error.inj ho]
      rfl
    · exact absurd ho (by simp)

section Request
variable {config : ConcatConfig} {out t : Tensor} {inputs : List Tensor} {dim : Int} {axis : Nat}
  {shape : List Nat} {f : MemoryFormat} {h k : Heap}

/-- An input that reaches into the range that is written has gaps, and lies in the storage
that the output keeps. -/
theorem Joinable.reaching_input (joinable : Joinable h out inputs dim axis shape f)
    (ht : out.resize shape f h = .ok (t, k)) (bounded : h.Bounded) {u : Tensor} (hu : u ∈ inputs)
    (known : u.storage < h.storages.size) {s i : Nat} (hin : t.InByteRange s i)
    (haddr : u.Addresses s i) : u.isDense = false ∧ u.storage = out.storage ∧ k = h := by
  have hresized := Tensor.resize_spec ht
  have hfits := hresized.numel_le bounded
  have hstorage : u.storage = t.storage := haddr.in_byteRange.1.symm.trans hin.1
  refine ⟨?_, ?_⟩
  · cases hdense : u.isDense with
    | false => rfl
    | true =>
      exact absurd haddr (hresized.not_addresses joinable.target hfits hu hdense known hin)
  · rcases hresized.place with ⟨htarget, rfl⟩ | ⟨hfresh, -⟩
    · exact ⟨hstorage.trans (Tensor.storage_of_target htarget), rfl⟩
    · omega

/-- A dense input that reaches into what the output would become has the request turned away. -/
theorem Conform.turned_away (conform : Conform inputs dim axis shape f)
    (types : checkTypes out inputs = .ok ()) (ht : out.target? shape f h = some t)
    (bounded : h.Bounded) {u : Tensor} (hu : u ∈ inputs) (dense : u.isDense)
    (known : u.storage < h.storages.size) {s i : Nat} (hin : t.InByteRange s i)
    (haddr : u.Addresses s i) :
    ∃ r, Plan.make h config out inputs dim = .error r ∧ r.code = .memoryOverlap := by
  rw [Plan.make_of_conform conform]
  cases houtput : checkOutput out inputs with
  | error o => exact ⟨.objection o, rfl, checkOutput_code types houtput⟩
  | ok u' =>
    rw [ht]
    cases htarget : checkDisjoint t inputs with
    | error o =>
      refine ⟨.objection o, ?_, checkDisjoint_code htarget⟩
      simp only [checkTarget, htarget]
      rfl
    | ok u'' =>
      have joinable : Joinable h out inputs dim axis shape f :=
        ⟨conform, houtput, by rw [ht]; exact htarget⟩
      have hresize := Tensor.resize_of_target conform.shape_ne_nil ht
      have hreach := joinable.reaching_input hresize bounded hu known hin haddr
      rw [dense] at hreach
      exact absurd hreach.1 (by simp)

end Request

section Sample

/-- One storage that an output shares with an input, and one that an input has for itself. -/
def sharedHeap : Heap := ⟨#[#[1, 2, 3, 4, 5, 6], #[0]]⟩

def firstPair : Tensor := ⟨0, 0, [⟨2, 1⟩], .u8⟩

def everyOther : Tensor := ⟨0, 0, [⟨2, 2⟩], .u8⟩

def single : Tensor := ⟨1, 0, [⟨1, 1⟩], .u8⟩

def overlaid : Tensor := ⟨0, 0, [⟨3, 1⟩], .u8⟩

theorem conform_shared : Conform [firstPair, single] 0 0 [3] .contiguous where
  counts := by decide
  dim_eq := rfl
  axis_lt := by decide
  fit := by
    unfold Tensor.FitsShape
    decide
  total := by decide
  format := by decide

theorem firstPair_addresses : firstPair.Addresses 0 1 := by
  refine ⟨[1], by simp [firstPair, Tensor.dims, Axis.extents, Within], ?_⟩
  unfold Tensor.Occupies
  decide

theorem everyOther_addresses : everyOther.Addresses 0 2 := by
  refine ⟨[1], by simp [everyOther, Tensor.dims, Axis.extents, Within], ?_⟩
  unfold Tensor.Occupies
  decide

end Sample

end TensorConcat
