import TensorConcat.Proofs.Engines
import TensorConcat.Proofs.RequestsInWords
import TensorConcat.SoftwareCasts

/-!
# The path taken does not show

Two machines with the same memory carry out one request, each with its own device and
its own settings. The settings decide which engine runs and how many inputs go into a
launch, the device how the elements of a launch are shared out, and neither can be
told from the outcome: the answers agree, the outputs are the same views, and the two
memories are equal byte for byte.

A request may also ask for more memory than a storage can have. Both machines then stop
at the allocation, before anything is written.
-/

namespace TensorConcat

namespace Plan

/-- The output needs a new storage, larger than any storage can be. -/
def Oversized (h : Heap) (out : Tensor) (p : Plan) : Prop :=
  ∃ filling, p.filling = some filling ∧ h.capacity out.storage < out.bytesFor filling.shape ∧
    storageLimit < out.bytesFor filling.shape

/-- What carrying out a plan leaves: nothing changed where no input counts, and else the
resized output, filled as by copying one input after the other into its slab. -/
def Leaves [FloatCasts] (p : Plan) (h : Heap) (out : Tensor) (inputs : List Tensor) (t : Tensor)
    (k : Heap) : Prop :=
  match p.filling with
  | none => t = out ∧ k = h
  | some filling => ∃ resized, out.resize filling.shape filling.format h = .ok (t, resized) ∧
      k = fillSlabs t p.axis 0 (counted inputs) resized

end Plan

namespace Accelerator

/-- One request with sizes that are words, carried out with any settings on any two healthy
devices, has one outcome. -/
theorem concatenate_path_independent [FloatCasts] {m₁ m₂ : Machine} (same : m₂.heap = m₁.heap)
    (config₁ config₂ : ConcatConfig) (out : Tensor) (inputs : List Tensor) (dim : Int)
    (known : ∀ t ∈ inputs, t.storage < m₁.heap.storages.size)
    (sized : SizedInWords out inputs dim)
    (countable : ∀ p, Plan.make m₁.heap config₁ out inputs dim = .ok p → p.Countable)
    (healthy₁ : ∀ p, Plan.make m₁.heap config₁ out inputs dim = .ok p →
      m₁.device.Healthy (p.launches config₁ inputs))
    (healthy₂ : ∀ p, Plan.make m₂.heap config₂ out inputs dim = .ok p →
      m₂.device.Healthy (p.launches config₂ inputs)) :
    let o₁ := concatenate config₁ out inputs dim m₁
    let o₂ := concatenate config₂ out inputs dim m₂
    ExactInWords m₁.heap out inputs dim ∧
      o₁.out = o₂.out ∧ o₁.machine.heap = o₂.machine.heap ∧
      ((∃ v, o₁.result = .error (.backend (.violation v)) ∧
          o₂.result = .error (.backend (.violation v)) ∧
          o₁.out = out ∧ o₁.machine.heap = m₁.heap) ∨
        (∃ p₁ p₂, o₁.result = .ok p₁ ∧ o₂.result = .ok p₂ ∧
          p₁.Leaves m₁.heap out inputs o₁.out o₁.machine.heap) ∨
        (o₁.result = .error (.fault .storageTooLarge) ∧
          o₂.result = .error (.fault .storageTooLarge) ∧
          o₁.out = out ∧ o₁.machine.heap = m₁.heap ∧
          ∃ p, Plan.make m₁.heap config₁ out inputs dim = .ok p ∧ p.Oversized m₁.heap out)) := by
  intro o₁ o₂
  refine ⟨sized.exactInWords m₁.heap, ?_⟩
  cases verdict m₁.heap out inputs dim with
  | rejected r hr =>
    have h₁ : o₁ = ⟨.error r.failure, out, m₁⟩ := concatenate_rejected (hr config₁)
    have h₂ : o₂ = ⟨.error r.failure, out, m₂⟩ := concatenate_rejected (same ▸ hr config₂)
    rw [h₁, h₂]
    exact ⟨rfl, same.symm, .inl ⟨_, rfl, rfl, rfl, rfl⟩⟩
  | idle nothing =>
    obtain ⟨m₁', h₁, hheap₁⟩ := @concatenate_idle config₁ out inputs dim m₁ _ nothing
    obtain ⟨m₂', h₂, hheap₂⟩ := @concatenate_idle config₂ out inputs dim m₂ _ nothing
    have h₁ : o₁ = _ := h₁
    have h₂ : o₂ = _ := h₂
    rw [h₁, h₂]
    exact ⟨rfl, by rw [hheap₁, hheap₂, same], .inr (.inl ⟨_, _, rfl, rfl, rfl, hheap₁⟩)⟩
  | refused axis shape f e joinable he =>
    obtain ⟨rfl, hroom, hlimit⟩ := Tensor.resize_error joinable.shape_ne_nil he
    obtain ⟨m₁', h₁, hheap₁⟩ := @concatenate_refused config₁ _ _ _ _ _ _ _ _ joinable _ he
    obtain ⟨m₂', h₂, hheap₂⟩ := @concatenate_refused config₂ _ _ _ _ _ _ m₂ _
      (same.symm ▸ joinable) _ (same.symm ▸ he)
    have h₁ : o₁ = _ := h₁
    have h₂ : o₂ = _ := h₂
    rw [h₁, h₂]
    refine ⟨rfl, by rw [hheap₁, hheap₂, same], .inr (.inr ⟨rfl, rfl, rfl, hheap₁, ?_⟩)⟩
    exact ⟨_, Plan.make_of_joinable joinable, _, rfl, hroom, hlimit⟩
  | joined axis shape f t k joinable ht =>
    have joinable₂ := same.symm ▸ joinable
    have hcountable := countable _ (Plan.make_of_joinable joinable) _ rfl
    obtain ⟨m₁', h₁, hheap₁⟩ := concatenate_joinable joinable ht known hcountable
      (healthy₁ _ (Plan.make_of_joinable joinable))
    obtain ⟨m₂', h₂, hheap₂⟩ := concatenate_joinable joinable₂ (same.symm ▸ ht)
      (same.symm ▸ known) hcountable (healthy₂ _ (Plan.make_of_joinable joinable₂))
    have h₁ : o₁ = _ := h₁
    have h₂ : o₂ = _ := h₂
    rw [h₁, h₂]
    exact ⟨rfl, by rw [hheap₁, hheap₂], .inr (.inl ⟨_, _, rfl, rfl, k, ht, hheap₁⟩)⟩

end Accelerator

section Sample

/-- Three storages: a square, a column and room for both side by side. -/
def sampleHeap : Heap := ⟨#[#[1, 2, 3, 4], #[5, 6], #[0, 0, 0, 0, 0, 0]]⟩

def square : Tensor := ⟨0, 0, [⟨2, 2⟩, ⟨2, 1⟩], .u8⟩

def column : Tensor := ⟨1, 0, [⟨2, 1⟩, ⟨1, 1⟩], .u8⟩

/-- An empty view, placed as far into the third storage as one likes. -/
def emptyAt (offset : Nat) : Tensor := ⟨2, offset, [⟨0, 1⟩], .u8⟩

/-- A device of one group of three items, and one that runs item by item. -/
def smallDevice : Device := { config := { computeUnits := 2, maxWorkGroupSize := 3 } }

def serialDevice : Device := { config := { computeUnits := 1, maxWorkGroupSize := 1 } }

theorem Device.healthy_of_unlimited {d : Device} (size : 0 < d.config.maxWorkGroupSize.toNat)
    (fits : d.groupsPerLaunch.toNat * d.config.maxWorkGroupSize.toNat < 2 ^ 32)
    (usable : d.poisoned = false) (unlimited : d.config.failAfterSubmissions = none) (n : Nat) :
    d.Healthy n :=
  ⟨size, fits, usable, fun limit hlimit => absurd (unlimited.symm.trans hlimit) (by simp)⟩

theorem smallDevice_healthy (n : Nat) : smallDevice.Healthy n :=
  Device.healthy_of_unlimited (by decide) (by decide) rfl rfl n

theorem serialDevice_healthy (n : Nat) : serialDevice.Healthy n :=
  Device.healthy_of_unlimited (by decide) (by decide) rfl rfl n

theorem make_sample (offset : Nat) (hoffset : offset = 0 ∨ offset = 2 ^ 63) :
    Plan.make sampleHeap {} (emptyAt offset) [square, column] 1 =
      .ok ⟨1, false, some ⟨[2, 3], .contiguous, .fused 2⟩⟩ := by
  rcases hoffset with rfl | rfl
  · cbv
  · cbv

theorem countable_sample {offset : Nat} (hoffset : offset = 0 ∨ offset = 2 ^ 63) {p : Plan}
    (hp : Plan.make sampleHeap {} (emptyAt offset) [square, column] 1 = .ok p) : p.Countable := by
  rw [make_sample offset hoffset] at hp
  obtain rfl := Except.ok.inj hp
  intro filling hfilling
  obtain rfl := Option.some.inj hfilling
  exact .inl (by decide)

theorem sizedInWords_sample {offset : Nat} (hoffset : offset = 0 ∨ offset = 2 ^ 63) :
    SizedInWords (emptyAt offset) [square, column] 1 := by
  have houtput : (emptyAt offset).Sized := ⟨Nat.zero_le _, fun pos => absurd pos (Nat.lt_irrefl 0)⟩
  have hdim : (1 : Int) = (1 : Nat) := rfl
  refine .of_member (t := square) (by decide) hdim houtput (by decide) (by decide) ?_
  rcases hoffset with rfl | rfl
  · decide
  · decide

theorem resize_sample : (emptyAt 0).resize [2, 3] .contiguous sampleHeap =
    .ok (⟨2, 0, [⟨2, 3⟩, ⟨3, 1⟩], .u8⟩, sampleHeap) := by
  cbv

theorem known_sample : ∀ t ∈ [square, column], t.storage < sampleHeap.storages.size := by decide

end Sample

namespace Accelerator

theorem concatenate_paths_sample :
    (concatenate {} (emptyAt 0) [square, column] 1
        { heap := sampleHeap, device := smallDevice }).machine.heap =
      (concatenate { forceFallback := true } (emptyAt 0) [square, column] 1
        { heap := sampleHeap, device := serialDevice }).machine.heap :=
  (@concatenate_path_independent _ { heap := sampleHeap, device := smallDevice }
    { heap := sampleHeap, device := serialDevice } rfl {} { forceFallback := true } (emptyAt 0)
    [square, column] 1 known_sample (sizedInWords_sample (.inl rfl))
    (fun _ hp => countable_sample (.inl rfl) hp) (fun _ _ => smallDevice_healthy _)
    (fun _ _ => serialDevice_healthy _)).2.2.1

/-- Not every request is either turned away or carried out: the output of this one would start
beyond the end of any storage. -/
theorem oversized_request_is_neither :
    (∀ t ∈ [square, column], t.storage < sampleHeap.storages.size) ∧
    SizedInWords (emptyAt (2 ^ 63)) [square, column] 1 ∧
    (∀ p, Plan.make sampleHeap {} (emptyAt (2 ^ 63)) [square, column] 1 = .ok p →
      p.Countable ∧ smallDevice.Healthy (p.launches {} [square, column])) ∧
    ¬((∃ v, (concatenate {} (emptyAt (2 ^ 63)) [square, column] 1
          { heap := sampleHeap, device := smallDevice }).result = .error (.backend (.violation v))) ∨
      ∃ p, (concatenate {} (emptyAt (2 ^ 63)) [square, column] 1
          { heap := sampleHeap, device := smallDevice }).result = .ok p) := by
  have hresult : (concatenate {} (emptyAt (2 ^ 63)) [square, column] 1
      { heap := sampleHeap, device := smallDevice }).result = .error (.fault .storageTooLarge) := by
    cbv
  refine ⟨known_sample, sizedInWords_sample (.inr rfl),
    fun p hp => ⟨countable_sample (.inr rfl) hp, smallDevice_healthy _⟩, ?_⟩
  rw [hresult]
  intro hcase
  rcases hcase with ⟨v, hv⟩ | ⟨p, hp⟩
  · exact absurd hv (by simp)
  · exact absurd hp (by simp)

end Accelerator

end TensorConcat
