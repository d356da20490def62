import TensorConcat.Proofs.PathIndependence
import TensorConcat.Proofs.Provenance
import TensorConcat.SoftwareCasts

/-!
# When the queue's budget runs out

A device may be given a budget of launches. A call of the batched engine takes one launch
for each batch, so it either fits into what is left of the budget, or is cut short at the
batch for which nothing is left. That batch has been staged but not launched: the inputs of
the batches before it are joined, the rest of memory is as the resizing left it, and the
counters tell how far the call has got.
-/

namespace TensorConcat

open OutputLayout

/-- The first few inputs are joined, with the values they had in the first heap, and every
other byte is that of the second one. -/
structure FilledUpTo [FloatCasts] (t : Tensor) (inputs : List Tensor) (axis count : Nat)
    (h k l : Heap) : Prop where
  capacity : ∀ s, l.capacity s = k.capacity s
  values : ∀ c, Within t.dims c → c.getD axis 0 < totalExtent axis (inputs.take count) →
    HoldsJoined t axis inputs h l c
  rest : ∀ s i, (∀ c, Within t.dims c → c.getD axis 0 < totalExtent axis (inputs.take count) →
    ¬t.Occupies (Axis.position t.axes c) s i) → l.byte s i = k.byte s i

section Request
variable {config : ConcatConfig} {out t : Tensor} {inputs : List Tensor} {dim : Int} {axis : Nat}
  {shape : List Nat} {f : MemoryFormat} {h k l : Heap} [FloatCasts]

/-- Joining the first few inputs fills the output up to these. -/
theorem Joins.filledUpTo {count : Nat} (joins : Joins t axis 0 (inputs.take count) k l)
    (haxis : axis < t.dims.length) (fit : ∀ u ∈ inputs, u.FitsAlong t axis) (grown : h.Extends k)
    (known : ∀ u ∈ inputs, u.storage < h.storages.size) :
    FilledUpTo t inputs axis count h k l := by
  constructor
  · exact joins.changed.capacity
  · intro c hc hlt
    have hholds := joins.holds haxis (fun u hu => fit u (List.mem_of_mem_take hu)) grown
      (fun u hu => known u (List.mem_of_mem_take hu)) hc hlt
    have happend := hholds.append (inputs.drop count)
    rwa [List.take_append_drop] at happend
  · intro s i none
    apply joins.changed.byte
    intro p hp ho
    rcases hp with ⟨c, hc, -, hlt, rfl⟩
    rw [Nat.zero_add] at hlt
    exact none c hc hlt ho

/-- A call of the batched engine takes one launch for each batch, and the batches that the budget
lasts for are joined. -/
theorem fused_upTo (joinable : Joinable h out inputs dim axis shape f)
    (fusible : Fusible config out inputs shape f) (resized : out.Resized shape f h t k)
    (known : ∀ u ∈ inputs, u.storage < h.storages.size) (indexable : Indexable (f.axes shape))
    {m : Machine} (hk : m.heap = k) (launchable : m.device.Launchable)
    (usable : m.device.poisoned = false) {launches : Nat}
    (le : launches ≤ (inBatches config.effectiveCapacity inputs).length)
    (affords : m.device.Affords launches) :
    ∃ (staging : StagingBuffer (Descriptor Pointer)) (next : UInt32) (m' : Machine)
        (runs : List (List (List Move))),
      copyBatched t inputs axis shape.length config.effectiveCapacity m =
        copyBatches t (.ofAxes t.axes) axis staging next
          ((inBatches config.effectiveCapacity inputs).drop launches) m' ∧
      staging.capacity = config.effectiveCapacity ∧
      Launched t (.ofAxes t.axes) axis m.device next
        ((inBatches config.effectiveCapacity inputs).drop launches) runs ∧
      m'.device = m.device.counting launches launches ∧
      Joins t axis 0 (inputs.take (launches * config.effectiveCapacity)) k m'.heap := by
  have hmatches := matches_of_fusible joinable fusible resized known
  have hwords := indexable_of_fusible fusible resized (.inr indexable)
  subst hk
  rcases exists_launched_fused joinable fusible resized known hwords launchable with
    ⟨runs, hlaunched, hjoins⟩
  have hlength : ((inBatches config.effectiveCapacity inputs).take launches).length = launches := by
    rw [List.length_take, Nat.min_eq_left le]
  rw [← List.take_append_drop launches (inBatches config.effectiveCapacity inputs)] at hlaunched
  rcases @copyBatches_append t (.ofAxes t.axes) axis ⟨config.effectiveCapacity, #[]⟩ 0
    (m.batched t inputs config.effectiveCapacity) m.device _ _ _ hlaunched
    (joined_lt_strides hmatches)
    (fun b hb => length_le_of_mem_inBatches (List.mem_of_mem_take hb)) rfl launchable usable
    (hlength.symm ▸ affords) with
    ⟨staging, next, m', hrun, hcapacity, hlater, hheap, hdevice⟩
  rw [hlength] at hlater hheap hdevice
  rw [List.take_append_drop] at hrun
  refine ⟨staging, next, m', _, ?_, hcapacity, hlater, hdevice, ?_⟩
  · exact (fused_start joinable fusible resized hwords m).trans hrun
  · rw [hheap]
    exact hjoins launches

/-- A call whose batches the budget lasts for joins all inputs. -/
theorem fused_paid (joinable : Joinable h out inputs dim axis shape f)
    (fusible : Fusible config out inputs shape f) (resized : out.Resized shape f h t k)
    (known : ∀ u ∈ inputs, u.storage < h.storages.size) (indexable : Indexable (f.axes shape))
    {m : Machine} (hk : m.heap = k) (launchable : m.device.Launchable)
    (usable : m.device.poisoned = false)
    (affords : m.device.Affords (inBatches config.effectiveCapacity inputs).length) :
    ∃ m', copyBatched t inputs axis shape.length config.effectiveCapacity m = (.ok (), m') ∧
      m'.device = m.device.counting (inBatches config.effectiveCapacity inputs).length
        (inBatches config.effectiveCapacity inputs).length ∧
      Joins t axis 0 (counted inputs) k m'.heap := by
  obtain ⟨staging, next, m', -, hrun, -, -, hdevice, hjoins⟩ := fused_upTo joinable fusible resized
    known indexable hk launchable usable (Nat.le_refl _) affords
  rw [← flatten_take_inBatches (effectiveCapacity_pos config), List.take_length,
    flatten_inBatches (effectiveCapacity_pos config)] at hjoins
  rw [List.drop_length] at hrun
  rw [fusible.counted_eq]
  exact ⟨m', hrun, hdevice, hjoins⟩

/-- A call that the budget does not last for stops at the first batch that is not paid for, when
this has been staged. -/
theorem fused_cut (joinable : Joinable h out inputs dim axis shape f)
    (fusible : Fusible config out inputs shape f) (resized : out.Resized shape f h t k)
    (known : ∀ u ∈ inputs, u.storage < h.storages.size) (indexable : Indexable (f.axes shape))
    {m : Machine} (hk : m.heap = k) (launchable : m.device.Launchable)
    (usable : m.device.poisoned = false) {limit : Nat}
    (hlimit : m.device.config.failAfterSubmissions = some limit) {launches : Nat}
    (left : limit - m.device.submissions = launches)
    (short : launches < (inBatches config.effectiveCapacity inputs).length) :
    ∃ m', copyBatched t inputs axis shape.length config.effectiveCapacity m =
        (.error (.backend (.execution (.launch (.queueRejected (m.device.submissions + launches))))),
          m') ∧
      m'.device = m.device.counting launches (launches + 1) ∧
      Joins t axis 0 (inputs.take (launches * config.effectiveCapacity)) k m'.heap := by
  have haffords : m.device.Affords launches := by
    intro limit' hlimit'
    rw [hlimit, Option.some.injEq] at hlimit'
    omega
  obtain ⟨staging, next, m₁, runs, hrun, hcapacity, hlaunched, hdevice, hjoins⟩ :=
    fused_upTo joinable fusible resized known indexable hk launchable usable (Nat.le_of_lt short)
      haffords
  have hmatches := matches_of_fusible joinable fusible resized known
  -- The next batch is staged before the queue turns its launch away: one transfer more.
  rw [List.drop_eq_getElem_cons short] at hrun hlaunched
  cases hlaunched with
  | cons described safe later =>
    have hroom : (inBatches config.effectiveCapacity inputs)[launches].length ≤ staging.capacity := by
      rw [hcapacity]
      exact length_le_of_mem_inBatches (List.getElem_mem short)
    have hused : limit ≤ m.device.submissions + launches := by omega
    obtain ⟨m₂, hstop, hheap, hdevice'⟩ := copyBatches_rejected (m := m₁) described
      (joined_lt_strides hmatches) hroom (by rw [hdevice]; exact launchable.counting _ _)
      (by rw [hdevice]; exact usable) (by rw [hdevice]; exact hlimit) (by rw [hdevice]; exact hused) _
    refine ⟨m₂, ?_, ?_, by rwa [hheap]⟩
    · rw [hrun, hstop, hdevice]
      rfl
    · rw [hdevice', hdevice, Device.counting_counting, Nat.add_zero]

end Request

/-- What a call leaves that the budget has cut short after a number of launches, the second heap
being memory as the resizing has left it. -/
structure CutShort [FloatCasts] (config : ConcatConfig) (out : Tensor) (inputs : List Tensor)
    (axis : Nat) (shape : List Nat) (f : MemoryFormat) (launches : Nat) (m : Machine) (k : Heap)
    (o : Outcome Plan) : Prop where
  resized : out.resize shape f m.heap = .ok (o.out, k)
  result : o.result = .error (.backend (.execution
    (.launch (.queueRejected (m.device.submissions + launches)))))
  device : o.machine.device = m.device.counting launches (launches + 1)
  dims : o.out.dims = shape
  strides : o.out.strides = f.strides shape
  filled : FilledUpTo o.out inputs axis (launches * config.effectiveCapacity) m.heap k o.machine.heap

namespace Accelerator

variable [FloatCasts]

section Request
variable {config : ConcatConfig} {out t : Tensor} {inputs : List Tensor} {dim : Int} {axis rank : Nat}
  {shape : List Nat} {f : MemoryFormat} {m : Machine} {k : Heap}

/-- A request whose batches the budget lasts for is carried out, with a launch and a transfer for
each batch. -/
theorem concatenate_paid (joinable : Joinable m.heap out inputs dim axis shape f)
    (ht : out.resize shape f m.heap = .ok (t, k))
    (hengine : Plan.engineFor config out inputs shape f = .fused rank)
    (known : ∀ u ∈ inputs, u.storage < m.heap.storages.size) (indexable : Indexable (f.axes shape))
    (launchable : m.device.Launchable) (usable : m.device.poisoned = false)
    (affords : m.device.Affords (inBatches config.effectiveCapacity inputs).length) :
    ∃ m', concatenate config out inputs dim m =
        ⟨.ok (Plan.joining config out inputs axis shape f), t, m'⟩ ∧
      m'.device = m.device.counting (inBatches config.effectiveCapacity inputs).length
        (inBatches config.effectiveCapacity inputs).length ∧
      IsConcatenation inputs axis m.heap t m'.heap := by
  rcases engineFor_fused hengine with ⟨rfl, fusible⟩
  rcases fused_paid joinable fusible (Tensor.resize_spec ht) known indexable
    (m := (planned config out inputs axis shape f m).withHeap k) rfl launchable usable affords with
    ⟨m', hrun, hdevice, hjoins⟩
  exact ⟨m', concatenate_of_copyBatched joinable ht hengine hrun, hdevice,
    joinable.isConcatenation ht known hjoins⟩

/-- A request that the budget does not last for is cut short after the launches that are left. -/
theorem concatenate_cut (joinable : Joinable m.heap out inputs dim axis shape f)
    (ht : out.resize shape f m.heap = .ok (t, k))
    (hengine : Plan.engineFor config out inputs shape f = .fused rank)
    (known : ∀ u ∈ inputs, u.storage < m.heap.storages.size) (indexable : Indexable (f.axes shape))
    (launchable : m.device.Launchable) (usable : m.device.poisoned = false) {limit : Nat}
    (hlimit : m.device.config.failAfterSubmissions = some limit)
    (short : limit - m.device.submissions < (inBatches config.effectiveCapacity inputs).length) :
    CutShort config out inputs axis shape f (limit - m.device.submissions) m k
      (concatenate config out inputs dim m) := by
  rcases engineFor_fused hengine with ⟨rfl, fusible⟩
  have hresized := Tensor.resize_spec ht
  have hcounted := fusible.counted_eq
  rcases fused_cut joinable fusible hresized known indexable
    (m := (planned config out inputs axis shape f m).withHeap k) rfl launchable usable hlimit rfl
    short with ⟨m', hrun, hdevice, hjoins⟩
  rw [concatenate_of_copyBatched joinable ht hengine hrun]
  constructor
  · exact ht
  · rfl
  · exact hdevice
  · exact hresized.dims_eq
  · exact hresized.strides_eq
  · exact hjoins.filledUpTo (joinable.axis_lt_resized hresized)
      (fun u hu => joinable.fitsAlong hresized u (hcounted.symm ▸ hu)) (Tensor.resize_extends ht)
      known

end Request

/-- A request for the batched engine, on a device in order with any budget. When the output can be
allocated, the call succeeds with one launch and one transfer for each batch if the rest of
the budget lasts for the batches, and is cut short after as many launches as are left if it
does not. -/
theorem concatenate_within_budget {config : ConcatConfig} {out : Tensor} {inputs : List Tensor}
    {dim : Int} {m : Machine} {p : Plan} {shape : List Nat} {f : MemoryFormat} {rank : Nat}
    (accepted : Plan.make m.heap config out inputs dim = .ok p)
    (filling : p.filling = some ⟨shape, f, .fused rank⟩) (indexable : Indexable (f.axes shape))
    (known : ∀ u ∈ inputs, u.storage < m.heap.storages.size) (launchable : m.device.Launchable)
    (usable : m.device.poisoned = false) :
    let o := concatenate config out inputs dim m
    let c := config.effectiveCapacity
    let batches := (inputs.length + c - 1) / c
    (out.Outgrows shape m.heap → o.result = .error (.fault .storageTooLarge) ∧ o.out = out ∧
        o.machine.heap = m.heap ∧ o.machine.device = m.device) ∧
      (¬out.Outgrows shape m.heap → m.device.Affords batches → o.result = .ok p ∧
        o.machine.device = m.device.counting batches batches ∧
        IsConcatenation inputs p.axis m.heap o.out o.machine.heap) ∧
      (¬out.Outgrows shape m.heap → ∀ limit, m.device.config.failAfterSubmissions = some limit →
        limit - m.device.submissions < batches → ∃ k,
        CutShort config out inputs p.axis shape f (limit - m.device.submissions) m k o) := by
  intro o c batches
  have hplan := (Plan.make_ok accepted).2 _ filling
  have joinable : Joinable m.heap out inputs dim p.axis shape f := hplan.1
  have hengine : .fused rank = Plan.engineFor config out inputs shape f := hplan.2
  have hsame := Plan.joining_eq joinable accepted
  have hbatches : batches = (inBatches config.effectiveCapacity inputs).length :=
    (length_inBatches (effectiveCapacity_pos config) inputs).symm
  rw [hbatches]
  refine ⟨fun outgrows => ?_, fun holds affords => ?_, fun holds limit hlimit short => ?_⟩
  · have ho : o = _ := concatenate_refused_eq joinable
      (Tensor.resize_outgrows joinable.shape_ne_nil outgrows f)
    rw [ho]
    exact ⟨rfl, rfl, rfl, rfl⟩
  · rcases Tensor.exists_resize joinable.shape_ne_nil holds f with ⟨t, k, ht⟩
    rcases concatenate_paid joinable ht hengine.symm known indexable launchable usable affords with
      ⟨m', hrun, hdevice, hconcatenation⟩
    have ho : o = _ := hrun
    rw [ho, hsame]
    exact ⟨rfl, hdevice, hconcatenation⟩
  · rcases Tensor.exists_resize joinable.shape_ne_nil holds f with ⟨t, k, ht⟩
    exact ⟨k, concatenate_cut joinable ht hengine.symm known indexable launchable usable hlimit short⟩

end Accelerator

section Sample

/-- The small device, with a budget of one launch. -/
def thriftyDevice : Device :=
  { config := { computeUnits := 2, maxWorkGroupSize := 3, failAfterSubmissions := some 1 } }

theorem thriftyDevice_launchable : thriftyDevice.Launchable := ⟨by decide, by decide⟩

theorem indexable_sample : Indexable (MemoryFormat.contiguous.axes [2, 3]) := by
  unfold Indexable
  decide

end Sample

namespace Accelerator

/-- One launch for each of two inputs, of which one is paid for. -/
theorem concatenate_within_budget_sample : ∃ k,
    CutShort { batchCapacity := 1 } (emptyAt 0) [square, column] 1 [2, 3] .contiguous 1
      { heap := sampleHeap, device := thriftyDevice } k
      (concatenate { batchCapacity := 1 } (emptyAt 0) [square, column] 1
        { heap := sampleHeap, device := thriftyDevice }) := by
  have hmake : Plan.make sampleHeap { batchCapacity := 1 } (emptyAt 0) [square, column] 1 =
      .ok ⟨1, false, some ⟨[2, 3], .contiguous, .fused 2⟩⟩ := by cbv
  have hholds : ¬(emptyAt 0).Outgrows [2, 3] sampleHeap := fun outgrows =>
    absurd outgrows.1 (by decide)
  exact (concatenate_within_budget (m := { heap := sampleHeap, device := thriftyDevice }) hmake rfl
    indexable_sample known_sample thriftyDevice_launchable rfl).2.2 hholds 1 rfl (by decide)

/-- The square is in its place, and the column is not. -/
example : (concatenate { batchCapacity := 1 } (emptyAt 0) [square, column] 1
    { heap := sampleHeap, device := thriftyDevice }).machine.heap =
      ⟨#[#[1, 2, 3, 4], #[5, 6], #[1, 2, 0, 3, 4, 0]]⟩ := by cbv

/-- A budget that lasts is not enough: this output can not be allocated, so the call stops
before its first launch. -/
theorem oversized_request_takes_no_launch :
    Plan.make sampleHeap {} (emptyAt (2 ^ 63)) [square, column] 1 =
        .ok ⟨1, false, some ⟨[2, 3], .contiguous, .fused 2⟩⟩ ∧
      Indexable (MemoryFormat.contiguous.axes [2, 3]) ∧
      (∀ t ∈ [square, column], t.storage < sampleHeap.storages.size) ∧
      smallDevice.Launchable ∧ smallDevice.poisoned = false ∧
      smallDevice.config.failAfterSubmissions = none ∧
      (concatenate {} (emptyAt (2 ^ 63)) [square, column] 1
        { heap := sampleHeap, device := smallDevice }).machine.device.submissions = 0 ∧
      ¬∃ p, (concatenate {} (emptyAt (2 ^ 63)) [square, column] 1
        { heap := sampleHeap, device := smallDevice }).result = .ok p := by
  have hresult : (concatenate {} (emptyAt (2 ^ 63)) [square, column] 1
      { heap := sampleHeap, device := smallDevice }).result = .error (.fault .storageTooLarge) := by
    cbv
  have hdevice : (concatenate {} (emptyAt (2 ^ 63)) [square, column] 1
      { heap := sampleHeap, device := smallDevice }).machine.device.submissions = 0 := by cbv
  refine ⟨make_sample (2 ^ 63) (.inr rfl), indexable_sample, known_sample,
    (smallDevice_healthy 0).launchable, rfl, rfl, hdevice, ?_⟩
  rw [hresult]
  intro hok
  rcases hok with ⟨p, hp⟩
  exact absurd hp (by simp)

end Accelerator

end TensorConcat
