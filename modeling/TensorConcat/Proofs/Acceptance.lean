import TensorConcat.Proofs.Growth
import TensorConcat.Proofs.PathIndependence
import TensorConcat.SoftwareCasts

/-!
# What becomes of a request that is accepted

The planner asks how many elements there are, and the engines ask for more. Every output
must be given its bytes, and the batched engine needs its extents and strides as words. An
output with elements few enough to be counted has these words, but one without elements
may have extents as large as one likes. So an accepted request is carried out unless it
asks for more memory than a storage can have, or for an output without elements whose
axes the batched engine can not count. The latter is found out when the output has been
resized.
-/

namespace TensorConcat

open OutputLayout

namespace Plan

/-- The batched engine is to fill an output with an extent or a stride that is no word. -/
def Overwide (p : Plan) : Prop :=
  ∃ filling rank, p.filling = some filling ∧ filling.engine = .fused rank ∧
    ¬Indexable (filling.format.axes filling.shape)

section Joining
variable {config : ConcatConfig} {out : Tensor} {inputs : List Tensor} {axis : Nat} {shape : List Nat}
  {f : MemoryFormat} {h : Heap}

theorem oversized_joining_iff :
    (joining config out inputs axis shape f).Oversized h out ↔ out.Outgrows shape h := by
  unfold Oversized Tensor.Outgrows joining
  simp

theorem overwide_joining_iff : (joining config out inputs axis shape f).Overwide ↔
    (∃ rank, engineFor config out inputs shape f = .fused rank) ∧ ¬Indexable (f.axes shape) := by
  unfold Overwide joining
  simp

end Joining

end Plan

/-- Only an output without elements can be too wide for the engine that takes it. -/
theorem Fusible.volume_eq_zero {config : ConcatConfig} {out : Tensor} {inputs : List Tensor}
    {shape : List Nat} {f : MemoryFormat} (fusible : Fusible config out inputs shape f)
    (unindexable : ¬Indexable (f.axes shape)) : volume shape = 0 := by
  apply Nat.eq_zero_of_not_pos
  intro hpos
  have hsmall := fusible.small
  exact unindexable (indexable_axes hpos (by omega))

namespace Accelerator
variable {config : ConcatConfig} {out t : Tensor} {inputs : List Tensor} {dim : Int} {axis : Nat}
  {shape : List Nat} {f : MemoryFormat} {m : Machine} {k : Heap} [FloatCasts]

/-- Once the output is resized, the only obstacle on a device in order is the width. -/
theorem concatenate_of_width (joinable : Joinable m.heap out inputs dim axis shape f)
    (ht : out.resize shape f m.heap = .ok (t, k))
    (known : ∀ u ∈ inputs, u.storage < m.heap.storages.size) (healthy : ∀ n, m.device.Healthy n)
    (narrow : ¬(Plan.joining config out inputs axis shape f).Overwide) :
    ∃ m', concatenate config out inputs dim m =
        ⟨.ok (Plan.joining config out inputs axis shape f), t, m'⟩ ∧
      m'.heap = fillSlabs t axis 0 (counted inputs) k := by
  cases hengine : Plan.engineFor config out inputs shape f with
  | fallback =>
    -- Copying input by input does not ask for words, so no bound on the axes is needed here.
    rcases fallback_run joinable (Tensor.resize_spec ht)
      (m := (planned config out inputs axis shape f m).withHeap k) rfl with ⟨m', hrun, hheap⟩
    exact ⟨m', concatenate_of_fill joinable ht (by rw [hengine]; exact hrun), hheap⟩
  | fused rank =>
    rw [Plan.overwide_joining_iff] at narrow
    have hindexable : Indexable (f.axes shape) := by
      by_contra unindexable
      exact narrow ⟨⟨rank, hengine⟩, unindexable⟩
    exact concatenate_joinable joinable ht known (.inr hindexable) (healthy _)

/-- An output that is too wide is refused by its engine, when it has been resized. -/
theorem concatenate_overwide (joinable : Joinable m.heap out inputs dim axis shape f)
    (ht : out.resize shape f m.heap = .ok (t, k))
    (overwide : (Plan.joining config out inputs axis shape f).Overwide) :
    volume shape = 0 ∧ ∃ what n, 2 ^ 32 ≤ n ∧ concatenate config out inputs dim m =
      ⟨.error (.backend (.execution (.outputIndex what n))), t,
        (planned config out inputs axis shape f m).withHeap k⟩ := by
  have hresized := Tensor.resize_spec ht
  rcases Plan.overwide_joining_iff.mp overwide with ⟨⟨rank, hengine⟩, unindexable⟩
  rcases engineFor_fused hengine with ⟨rfl, fusible⟩
  have hrank := rank_of_fusible joinable fusible hresized
  have hwide : ¬Indexable t.axes := by rwa [hresized.axes]
  rcases copyBatched_unindexable hwide hrank.2 config.effectiveCapacity
    ((planned config out inputs axis shape f m).withHeap k) with ⟨what, n, hn, hrun⟩
  rw [hrank.1] at hrun
  exact ⟨fusible.volume_eq_zero unindexable, what, n, hn,
    concatenate_of_copyBatched joinable ht hengine hrun⟩

/-- On a device in order without a limit, an accepted request with sizes that are words is carried
out, unless the output needs more memory than a storage can have, and is then left as it was, or
has no elements and is too wide for its engine, and is then resized and nothing more. -/
theorem concatenate_accepted {p : Plan}
    (accepted : Plan.make m.heap config out inputs dim = .ok p)
    (known : ∀ u ∈ inputs, u.storage < m.heap.storages.size)
    (sized : SizedInWords out inputs dim) (launchable : m.device.Launchable)
    (usable : m.device.poisoned = false) (unlimited : m.device.config.failAfterSubmissions = none) :
    let o := concatenate config out inputs dim m
    ExactInWords m.heap out inputs dim ∧
      (¬p.Oversized m.heap out → ¬p.Overwide →
        o.result = .ok p ∧ p.Leaves m.heap out inputs o.out o.machine.heap) ∧
      (p.Oversized m.heap out → o.result = .error (.fault .storageTooLarge) ∧ o.out = out ∧
        o.machine.heap = m.heap ∧ o.machine.device = m.device) ∧
      (¬p.Oversized m.heap out → p.Overwide →
        (∃ what n, 2 ^ 32 ≤ n ∧
          o.result = .error (.backend (.execution (.outputIndex what n)))) ∧
        o.machine.device = m.device ∧
        ∃ filling, p.filling = some filling ∧ volume filling.shape = 0 ∧
          out.resize filling.shape filling.format m.heap = .ok (o.out, o.machine.heap)) := by
  intro o
  refine ⟨sized.exactInWords m.heap, ?_⟩
  have healthy : ∀ n, m.device.Healthy n :=
    Device.healthy_of_unlimited launchable.size launchable.fits usable unlimited
  have hplan := Plan.make_ok accepted
  cases hfilling : p.filling with
  | none =>
    have nothing := hplan.1 hfilling
    have ho : o = _ := concatenate_idle_eq nothing
    rw [Plan.make_of_idle nothing] at accepted
    have hp := Except.ok.inj accepted
    subst hp
    have hfits : ¬(Plan.idle inputs dim).Oversized m.heap out := by simp [Plan.Oversized, Plan.idle]
    have hnarrow : ¬(Plan.idle inputs dim).Overwide := by simp [Plan.Overwide, Plan.idle]
    rw [ho]
    exact ⟨fun _ _ => ⟨rfl, rfl, rfl⟩, fun oversized => absurd oversized hfits,
      fun _ overwide => absurd overwide hnarrow⟩
  | some filling =>
    have joinable := (hplan.2 filling hfilling).1
    rw [← Plan.joining_eq joinable accepted, Plan.oversized_joining_iff]
    refine ⟨fun holds narrow => ?_, fun outgrows => ?_, fun holds overwide => ?_⟩
    · rcases Tensor.exists_resize joinable.shape_ne_nil holds filling.format with ⟨t, k, ht⟩
      rcases concatenate_of_width joinable ht known healthy narrow with ⟨m', hrun, hheap⟩
      have ho : o = _ := hrun
      rw [ho]
      exact ⟨rfl, k, ht, hheap⟩
    · have ho : o = _ := concatenate_refused_eq joinable
        (Tensor.resize_outgrows joinable.shape_ne_nil outgrows filling.format)
      rw [ho]
      exact ⟨rfl, rfl, rfl, rfl⟩
    · rcases Tensor.exists_resize joinable.shape_ne_nil holds filling.format with ⟨t, k, ht⟩
      rcases concatenate_overwide joinable ht overwide with ⟨hvolume, what, n, hn, hrun⟩
      have ho : o = _ := hrun
      rw [ho]
      exact ⟨⟨what, n, hn, rfl⟩, rfl, _, rfl, hvolume, ht⟩

end Accelerator

section Sample

/-- Two empty storages. -/
def emptyHeap : Heap := ⟨#[#[], #[]]⟩

/-- No rows, of more columns than a word can count. -/
def hollow : Tensor := ⟨0, 0, [⟨0, 2 ^ 32⟩, ⟨2 ^ 32, 1⟩], .u8⟩

def hollowOut : Tensor := ⟨1, 0, [⟨0, 1⟩], .u8⟩

theorem make_hollow : Plan.make emptyHeap {} hollowOut [hollow, hollow] 0 =
    .ok ⟨0, false, some ⟨[0, 2 ^ 32], .contiguous, .fused 2⟩⟩ := by cbv

theorem hollow_unindexable : ¬Indexable (MemoryFormat.contiguous.axes [0, 2 ^ 32]) := by
  unfold Indexable
  decide

theorem hollow_sized : SizedInWords hollowOut [hollow, hollow] 0 := by
  have hdim : (0 : Int) = (0 : Nat) := rfl
  exact .of_member (t := hollow) (by decide) hdim (by decide) (by decide) (by decide) (by decide)

end Sample

namespace Accelerator

/-- The two hollow inputs are resized for, and nothing more. -/
theorem concatenate_accepted_hollow : ∃ filling,
    (⟨0, false, some ⟨[0, 2 ^ 32], .contiguous, .fused 2⟩⟩ : Plan).filling = some filling ∧
      volume filling.shape = 0 ∧ hollowOut.resize filling.shape filling.format emptyHeap =
        .ok (⟨1, 0, [⟨0, 2 ^ 32⟩, ⟨2 ^ 32, 1⟩], .u8⟩, emptyHeap) := by
  have hfits : ¬(⟨0, false, some ⟨[0, 2 ^ 32], .contiguous, .fused 2⟩⟩ : Plan).Oversized emptyHeap
      hollowOut := by
    intro oversized
    rcases oversized with ⟨filling, hfilling, hroom, -⟩
    rcases Option.some.inj hfilling with rfl
    exact absurd hroom (by decide)
  have hout : (concatenate {} hollowOut [hollow, hollow] 0
      { heap := emptyHeap, device := smallDevice }).out =
        ⟨1, 0, [⟨0, 2 ^ 32⟩, ⟨2 ^ 32, 1⟩], .u8⟩ := by cbv
  have hheap : (concatenate {} hollowOut [hollow, hollow] 0
      { heap := emptyHeap, device := smallDevice }).machine.heap = emptyHeap := by cbv
  obtain ⟨-, -, -, hwide⟩ := concatenate_accepted (m := { heap := emptyHeap, device := smallDevice })
    make_hollow (by decide) hollow_sized (smallDevice_healthy 0).launchable rfl rfl
  have hresized := (hwide hfits ⟨_, 2, rfl, rfl, hollow_unindexable⟩).2.2
  rw [hout, hheap] at hresized
  exact hresized

/-- An accepted request on a device in order can end in an execution error. -/
theorem accepted_request_is_not_executed :
    Plan.make emptyHeap {} hollowOut [hollow, hollow] 0 =
        .ok ⟨0, false, some ⟨[0, 2 ^ 32], .contiguous, .fused 2⟩⟩ ∧
      (∀ u ∈ [hollow, hollow], u.storage < emptyHeap.storages.size) ∧
      SizedInWords hollowOut [hollow, hollow] 0 ∧ (∀ n, smallDevice.Healthy n) ∧
      (concatenate {} hollowOut [hollow, hollow] 0
        { heap := emptyHeap, device := smallDevice }).result =
          .error (.backend (.execution (.outputIndex "stride" (2 ^ 32)))) := by
  have hresult : (concatenate {} hollowOut [hollow, hollow] 0
      { heap := emptyHeap, device := smallDevice }).result =
        .error (.backend (.execution (.outputIndex "stride" (2 ^ 32)))) := by cbv
  exact ⟨make_hollow, by decide, hollow_sized, smallDevice_healthy, hresult⟩

/-- Copying input by input carries the same request out. -/
example : (concatenate { forceFallback := true } hollowOut [hollow, hollow] 0
    { heap := emptyHeap, device := smallDevice }).result =
      .ok ⟨0, false, some ⟨[0, 2 ^ 32], .contiguous, .fallback⟩⟩ := by cbv

end Accelerator

end TensorConcat
