import TensorConcat.Proofs.Batching
import TensorConcat.Proofs.Separation
import TensorConcat.Proofs.SlabFilling

/-!
# Both engines leave the same memory

The planner gives a request to the batched engine only when every input counts and is
dense in the output's format and of its type. The overlap test is decisive for such
inputs, so they share no byte with the resized output, and both engines join them. A
join determines the memory it leaves. So a request that is carried out leaves what
copying the inputs into their slabs one after the other leaves, whichever engine ran.
-/

namespace TensorConcat

open OutputLayout

/-- What the batched engine needs of an output besides its elements: words for its extents
and strides. An output with elements that fit into one word has them. -/
theorem indexable_axes {f : MemoryFormat} {dims : List Nat} (pos : 0 < volume dims)
    (small : volume dims < 2 ^ 32) : Indexable (f.axes dims) := by
  have hspans : ∀ ds : List Nat, 0 < volume ds → volume ds < 2 ^ 32 →
      ∀ s ∈ denseStrides ds, s < 2 ^ 32 := by
    intro ds
    induction ds with
    | nil => simp [denseStrides]
    | cons d ds ih =>
      intro hpos hsmall s hs
      have htail := volume_tail_le hpos
      have hinner : 0 < volume ds := Nat.pos_of_mul_pos_left hpos
      rcases List.mem_cons.mp hs with rfl | hs
      · rw [span_eq_volume hinner (by unfold wordMax; omega)]
        omega
      · exact ih hinner (by omega) s hs
  intro a ha
  have hextent : a.extent ∈ dims := by
    rw [← f.extents_axes dims]
    exact List.mem_map_of_mem ha
  have hstride : a.stride ∈ f.strides dims := by
    rw [← f.strides_axes dims]
    exact List.mem_map_of_mem ha
  constructor
  · obtain ⟨ds, es, hsplit⟩ := List.append_of_mem hextent
    rw [hsplit, volume_append, volume_cons] at pos small
    have hleft := Nat.pos_of_mul_pos_right pos
    have hright := Nat.pos_of_mul_pos_left (Nat.pos_of_mul_pos_left pos)
    have h₁ := Nat.le_mul_of_pos_right a.extent hright
    have h₂ := Nat.le_mul_of_pos_left (a.extent * volume es) hleft
    omega
  · refine hspans (f.arrange dims) (by rwa [f.volume_arrange]) (by rwa [f.volume_arrange]) _ ?_
    have hperm := f.arrange_perm (f.strides dims)
    rw [MemoryFormat.strides, MemoryFormat.arrange_restore] at hperm
    exact hperm.mem_iff.mpr hstride

/-- What makes the batched engine take a request. -/
structure Fusible (config : ConcatConfig) (out : Tensor) (inputs : List Tensor) (shape : List Nat)
    (f : MemoryFormat) : Prop where
  counts : ∀ t ∈ inputs, t.isSkipped = false
  rank : shape.length ≤ maxFusedRank
  small : volume shape ≤ 2 ^ 31 - 1
  dense : ∀ t ∈ inputs, t.isContiguousIn f = true
  countable : ∀ t ∈ inputs, t.numel ≤ 2 ^ 31 - 1
  dtype : ∀ t ∈ inputs, t.dtype = out.dtype

theorem fusible_spec {config : ConcatConfig} {out : Tensor} {inputs : List Tensor}
    {shape : List Nat} {f : MemoryFormat} (h : Plan.fusible config out inputs shape f = true) :
    Fusible config out inputs shape f := by
  simp only [Plan.fusible, Bool.and_eq_true, Bool.not_eq_true', decide_eq_true_eq,
    List.all_eq_true, beq_iff_eq] at h
  obtain ⟨⟨⟨⟨⟨⟨⟨-, -⟩, hcounts⟩, hrank⟩, hsmall⟩, hdense⟩, hfits⟩, hdtype⟩ := h
  refine ⟨hcounts, ?_, hsmall, hdense, fun t ht => ?_, hdtype⟩
  · exact hrank.trans (Nat.min_le_right ..)
  · have := hfits t ht
    simp only [Tensor.fitsSigned32, Bool.and_eq_true, decide_eq_true_eq] at this
    exact this.1

theorem engineFor_fused {config : ConcatConfig} {out : Tensor} {inputs : List Tensor}
    {shape : List Nat} {f : MemoryFormat} {rank : Nat}
    (h : Plan.engineFor config out inputs shape f = .fused rank) :
    rank = shape.length ∧ Fusible config out inputs shape f := by
  unfold Plan.engineFor at h
  split at h
  · rename_i hfusible
    exact ⟨(Engine.fused.inj h).symm, fusible_spec hfusible⟩
  · exact absurd h (by simp)

theorem isDense_of_isContiguousIn {t : Tensor} {f : MemoryFormat} (h : t.isContiguousIn f = true)
    (fits : t.numel ≤ wordMax) : t.isDense = true := by
  rcases Nat.eq_zero_or_pos t.numel with hzero | hpos
  · simp [Tensor.isDense, hzero]
  · exact (Tensor.packedIn_of_isContiguousIn h hpos fits).isDense

section Request
variable {config : ConcatConfig} {out t : Tensor} {inputs : List Tensor} {dim : Int} {axis : Nat}
  {shape : List Nat} {f : MemoryFormat} {h k : Heap}

theorem Joinable.fitsAlong (joinable : Joinable h out inputs dim axis shape f)
    (resized : out.Resized shape f h t k) : ∀ u ∈ counted inputs, u.FitsAlong t axis := by
  intro u hu
  rw [Tensor.FitsAlong, resized.dims_eq]
  exact joinable.fit u hu

theorem Joinable.total_eq (joinable : Joinable h out inputs dim axis shape f)
    (resized : out.Resized shape f h t k) :
    totalExtent axis (counted inputs) = t.extentAt axis := by
  rw [Tensor.extentAt, resized.dims_eq]
  exact joinable.total.symm

theorem Joinable.axis_lt_resized (joinable : Joinable h out inputs dim axis shape f)
    (resized : out.Resized shape f h t k) : axis < t.dims.length := by
  rw [resized.dims_eq]
  exact joinable.axis_lt

theorem Fusible.counted_eq (fusible : Fusible config out inputs shape f) :
    counted inputs = inputs := by
  rw [counted, List.filter_eq_self]
  intro u hu
  rw [fusible.counts u hu]
  rfl

theorem Fusible.numel_le (fusible : Fusible config out inputs shape f)
    (resized : out.Resized shape f h t k) : t.numel ≤ 2 ^ 31 - 1 := by
  rw [resized.numel_eq]
  exact fusible.small

theorem Fusible.fits (fusible : Fusible config out inputs shape f)
    (resized : out.Resized shape f h t k) : t.numel ≤ wordMax := by
  have hnumel := fusible.numel_le resized
  unfold wordMax
  omega

/-- The inputs of a request that the batched engine takes match the resized output. -/
theorem matches_of_fusible (joinable : Joinable h out inputs dim axis shape f)
    (fusible : Fusible config out inputs shape f) (resized : out.Resized shape f h t k)
    (known : ∀ u ∈ inputs, u.storage < h.storages.size) : Matches t f axis inputs := by
  have hfits := fusible.fits resized
  have hdense : ∀ u ∈ inputs, u.numel ≤ wordMax := by
    intro u hu
    have := fusible.countable u hu
    unfold wordMax
    omega
  have hcounted := fusible.counted_eq
  refine ⟨joinable.axis_lt_resized resized, fun hpos => resized.packedIn hpos hfits, ?_, ?_, ?_, ?_, ?_⟩
  · exact fun u hu => joinable.fitsAlong resized u (hcounted.symm ▸ hu)
  · rw [← joinable.total_eq resized, hcounted]
  · exact fun u hu hpos => Tensor.packedIn_of_isContiguousIn (fusible.dense u hu) hpos (hdense u hu)
  · exact fun u hu => (fusible.dtype u hu).trans resized.dtype.symm
  · exact fun u hu => resized.apart joinable.target hfits hu
      (isDense_of_isContiguousIn (fusible.dense u hu) (hdense u hu)) (known u hu)

theorem indexable_of_fusible (fusible : Fusible config out inputs shape f)
    (resized : out.Resized shape f h t k) (countable : 0 < volume shape ∨ Indexable (f.axes shape)) :
    Indexable t.axes := by
  rw [resized.axes]
  rcases countable with hpos | hindexable
  · have := fusible.small
    exact indexable_axes hpos (by omega)
  · exact hindexable

/-- The transfers of the first few of matching inputs join these, in whatever order they are
made. -/
theorem joins_replay [FloatCasts] {ps qs : List Tensor} (matching : Matches t f axis (ps ++ qs))
    (inside : t.Inside k) {xs : List Transfer} (perm : xs.Perm (transfers axis 0 ps)) :
    Joins t axis 0 ps k (k.replay t.elementSize (xs.map (Transfer.move t f axis))) := by
  rw [replay_eq_scatter]
  · exact joins_scatter matching perm inside
  · intro x hx
    exact matching.dtype _ (reads_part matching (mem_transfers_append (perm.mem_iff.mp hx) qs)).1

/-- In whatever order the transfers are made, they leave what copying the inputs into their
slabs leaves. -/
theorem replay_eq_fillSlabs [FloatCasts] (matching : Matches t f axis inputs)
    (fits : t.numel ≤ wordMax) (distinct : t.Distinct) (inside : t.Inside k) {xs : List Transfer}
    (perm : xs.Perm (transfers axis 0 inputs)) :
    k.replay t.elementSize (xs.map (Transfer.move t f axis)) = fillSlabs t axis 0 inputs k := by
  have hjoins : Joins t axis 0 inputs k (k.replay t.elementSize (xs.map (Transfer.move t f axis))) := by
    apply @joins_replay t axis f k _ inputs []
    · rwa [List.append_nil]
    · exact inside
    · exact perm
  refine hjoins.unique matching.axis_lt matching.total ?_
  exact joins_fillSlabs matching.axis_lt fits distinct matching.fit matching.apart
    (by rw [Nat.zero_add, matching.total]) inside

theorem effectiveCapacity_pos (config : ConcatConfig) : 0 < config.effectiveCapacity := by
  unfold ConcatConfig.effectiveCapacity
  omega

theorem effectiveCapacity_le (config : ConcatConfig) : config.effectiveCapacity ≤ maxBatch := by
  unfold ConcatConfig.effectiveCapacity maxBatch
  omega

theorem rank_of_fusible (joinable : Joinable h out inputs dim axis shape f)
    (fusible : Fusible config out inputs shape f) (resized : out.Resized shape f h t k) :
    t.rank = shape.length ∧ 1 ≤ t.rank ∧ t.rank ≤ maxFusedRank := by
  have hrank : t.rank = shape.length := by rw [rank_eq, resized.dims_eq]
  have haxis := joinable.axis_lt
  have hmax := fusible.rank
  omega

/-- When the output's extents and strides are words, a call of the batched engine is the run over
its batches. -/
theorem fused_start (joinable : Joinable h out inputs dim axis shape f)
    (fusible : Fusible config out inputs shape f) (resized : out.Resized shape f h t k)
    (words : Indexable t.axes) (m : Machine) :
    copyBatched t inputs axis shape.length config.effectiveCapacity m =
      copyBatches t (.ofAxes t.axes) axis ⟨config.effectiveCapacity, #[]⟩ 0
        (inBatches config.effectiveCapacity inputs)
        (m.batched t inputs config.effectiveCapacity) := by
  have hrank := rank_of_fusible joinable fusible resized
  rw [← hrank.1]
  exact copyBatched_eq words hrank.2 (effectiveCapacity_pos config) (effectiveCapacity_le config) m

variable [FloatCasts]

/-- The first few launches of a call join the inputs of their batches, however many they are. -/
theorem exists_launched_fused (joinable : Joinable h out inputs dim axis shape f)
    (fusible : Fusible config out inputs shape f) (resized : out.Resized shape f h t k)
    (known : ∀ u ∈ inputs, u.storage < h.storages.size) (words : Indexable t.axes) {d : Device}
    (launchable : d.Launchable) :
    ∃ runs : List (List (List Move)),
      Launched t (.ofAxes t.axes) axis d 0 (inBatches config.effectiveCapacity inputs) runs ∧
      ∀ n, Joins t axis 0 (inputs.take (n * config.effectiveCapacity)) k
        (k.replay t.elementSize ((runs.take n).map List.flatten).flatten) := by
  have hmatches := matches_of_fusible joinable fusible resized known
  have hnumel := fusible.numel_le resized
  have hpos := effectiveCapacity_pos config
  rcases exists_launched_inBatches hmatches words (by omega) hpos (effectiveCapacity_le config)
    launchable with ⟨runs, hlaunched, hmoves⟩
  refine ⟨runs, hlaunched, fun n => ?_⟩
  rcases hmoves n with ⟨xs, hxs, hperm⟩
  rw [flatten_take_inBatches hpos] at hperm
  rw [← List.take_append_drop (n * config.effectiveCapacity) inputs] at hmatches
  rw [hxs]
  exact joins_replay hmatches (resized.inside (fusible.fits resized)) hperm

/-- The batched engine leaves what copying the inputs into their slabs leaves. -/
theorem fused_run (joinable : Joinable h out inputs dim axis shape f)
    (fusible : Fusible config out inputs shape f) (resized : out.Resized shape f h t k)
    (known : ∀ u ∈ inputs, u.storage < h.storages.size)
    (countable : 0 < volume shape ∨ Indexable (f.axes shape)) {m : Machine} (hk : m.heap = k)
    (healthy : m.device.Healthy (inBatches config.effectiveCapacity inputs).length) :
    ∃ (m' : Machine) (runs : List (List (List Move))) (xs : List Transfer),
      copyBatched t inputs axis shape.length config.effectiveCapacity m = (.ok (), m') ∧
      m'.heap = fillSlabs t axis 0 (counted inputs) k ∧
      Launched t (.ofAxes t.axes) axis m.device 0 (inBatches config.effectiveCapacity inputs) runs ∧
      (runs.map List.flatten).flatten = xs.map (Transfer.move t f axis) ∧
      xs.Perm (transfers axis 0 inputs) := by
  have hmatches := matches_of_fusible joinable fusible resized known
  have hnumel := fusible.numel_le resized
  have hfits := fusible.fits resized
  have hrank := rank_of_fusible joinable fusible resized
  obtain ⟨m', runs, xs, hrun, hlaunched, hmoves, hperm, hheap⟩ :=
    copyBatched_run hmatches (indexable_of_fusible fusible resized countable) (by omega) hrank.2
      (effectiveCapacity_pos config) (effectiveCapacity_le config) healthy
  rw [hrank.1] at hrun
  refine ⟨m', runs, xs, hrun, ?_, hlaunched, hmoves, hperm⟩
  rw [hheap, hk, fusible.counted_eq]
  exact replay_eq_fillSlabs hmatches hfits (resized.distinct hfits) (resized.inside hfits) hperm

/-- Copying input by input succeeds, whatever the inputs are. -/
theorem fallback_run (joinable : Joinable h out inputs dim axis shape f)
    (resized : out.Resized shape f h t k) {m : Machine} (hk : m.heap = k) :
    ∃ m', copySlabs t axis 0 inputs m = (.ok (), m') ∧
      m'.heap = fillSlabs t axis 0 (counted inputs) k := by
  have hroom : 0 + totalExtent axis (counted inputs) ≤ t.extentAt axis := by
    rw [Nat.zero_add, joinable.total_eq resized]
  obtain ⟨log, hrun⟩ := copySlabs_run (joinable.axis_lt_resized resized)
    (joinable.fitsAlong resized) hroom m
  rw [hk] at hrun
  exact ⟨_, hrun, rfl⟩

end Request

namespace Plan

/-- The launches that carrying out a plan takes. -/
def launches (config : ConcatConfig) (inputs : List Tensor) (p : Plan) : Nat :=
  match p.filling with
  | some ⟨_, _, .fused _⟩ => (inBatches config.effectiveCapacity inputs).length
  | _ => 0

/-- The output has elements, or words for its extents and strides nevertheless. -/
def Countable (p : Plan) : Prop :=
  ∀ filling, p.filling = some filling →
    0 < volume filling.shape ∨ Indexable (filling.format.axes filling.shape)

end Plan

namespace Accelerator
variable {config : ConcatConfig} {out t : Tensor} {inputs : List Tensor} {dim : Int} {axis : Nat}
  {shape : List Nat} {f : MemoryFormat} {m : Machine} {k : Heap}

theorem plan_run {p : Plan} (hp : Plan.make m.heap config out inputs dim = .ok p) :
    plan config out inputs dim m = (.ok p, m.note (planEvent inputs.length p)) := by
  unfold plan
  rw [Action.bind_ok (Action.get_run m), hp]
  exact Action.bind_ok (Action.note_run _ m)

variable [FloatCasts]

/-- A request that is turned away leaves everything as it was. -/
theorem concatenate_rejected {r : Plan.Rejection}
    (hr : Plan.make m.heap config out inputs dim = .error r) :
    concatenate config out inputs dim m = ⟨.error r.failure, out, m⟩ := by
  have hplan : plan config out inputs dim m = (.error r.failure, m) := by
    unfold plan
    rw [Action.bind_ok (Action.get_run m), hr]
    rfl
  rw [concatenate, hplan]

theorem concatenate_idle_eq (nothing : Idle out inputs) :
    concatenate config out inputs dim m = ⟨.ok (Plan.idle inputs dim), out,
      m.note (planEvent inputs.length (Plan.idle inputs dim))⟩ := by
  rw [concatenate, plan_run (Plan.make_of_idle nothing m.heap dim)]
  rfl

theorem concatenate_idle (nothing : Idle out inputs) :
    ∃ m', concatenate config out inputs dim m = ⟨.ok (Plan.idle inputs dim), out, m'⟩ ∧
      m'.heap = m.heap := ⟨_, concatenate_idle_eq nothing, rfl⟩

/-- The machine when the plan of a request that joins inputs has been noted. -/
def planned (config : ConcatConfig) (out : Tensor) (inputs : List Tensor) (axis : Nat)
    (shape : List Nat) (f : MemoryFormat) (m : Machine) : Machine :=
  m.note (planEvent inputs.length (Plan.joining config out inputs axis shape f))

theorem concatenate_refused_eq (joinable : Joinable m.heap out inputs dim axis shape f)
    {e : Failure} (he : out.resize shape f m.heap = .error e) :
    concatenate config out inputs dim m =
      ⟨.error e, out, planned config out inputs axis shape f m⟩ := by
  rw [concatenate, plan_run (Plan.make_of_joinable joinable)]
  simp only [Plan.joining, Machine.note, he]
  rfl

/-- A shape that no storage can hold is refused before anything is written. -/
theorem concatenate_refused (joinable : Joinable m.heap out inputs dim axis shape f) {e : Failure}
    (he : out.resize shape f m.heap = .error e) :
    ∃ m', concatenate config out inputs dim m = ⟨.error e, out, m'⟩ ∧ m'.heap = m.heap :=
  ⟨_, concatenate_refused_eq joinable he, rfl⟩

/-- Once the output is resized, the answer is that of the engine, and so is the machine. -/
theorem concatenate_of_fill (joinable : Joinable m.heap out inputs dim axis shape f)
    (ht : out.resize shape f m.heap = .ok (t, k)) {r : Except Failure Unit} {m' : Machine}
    (hfill : fill config.effectiveCapacity (Plan.engineFor config out inputs shape f) t inputs axis
      ((planned config out inputs axis shape f m).withHeap k) = (r, m')) :
    concatenate config out inputs dim m =
      ⟨r.map fun _ => Plan.joining config out inputs axis shape f, t, m'⟩ := by
  rw [concatenate, plan_run (Plan.make_of_joinable joinable)]
  unfold planned at hfill
  simp only [Plan.joining, Machine.note, ht] at hfill ⊢
  rw [hfill]
  cases r <;> rfl

/-- What the batched engine answers is the answer to a request that it takes. -/
theorem concatenate_of_copyBatched (joinable : Joinable m.heap out inputs dim axis shape f)
    (ht : out.resize shape f m.heap = .ok (t, k)) {rank : Nat}
    (hengine : Plan.engineFor config out inputs shape f = .fused rank) {r : Except Failure Unit}
    {m' : Machine} (hrun : copyBatched t inputs axis rank config.effectiveCapacity
      ((planned config out inputs axis shape f m).withHeap k) = (r, m')) :
    concatenate config out inputs dim m =
      ⟨r.map fun _ => Plan.joining config out inputs axis shape f, t, m'⟩ := by
  apply concatenate_of_fill joinable ht
  rw [hengine]
  exact hrun

/-- A request that joins inputs is carried out, and leaves what copying the inputs into
their slabs leaves. -/
theorem concatenate_joinable (joinable : Joinable m.heap out inputs dim axis shape f)
    (ht : out.resize shape f m.heap = .ok (t, k))
    (known : ∀ u ∈ inputs, u.storage < m.heap.storages.size)
    (countable : 0 < volume shape ∨ Indexable (f.axes shape))
    (healthy : m.device.Healthy ((Plan.joining config out inputs axis shape f).launches config inputs)) :
    ∃ m', concatenate config out inputs dim m =
        ⟨.ok (Plan.joining config out inputs axis shape f), t, m'⟩ ∧
      m'.heap = fillSlabs t axis 0 (counted inputs) k := by
  have hresized := Tensor.resize_spec ht
  have hfill : ∃ m', fill config.effectiveCapacity (Plan.engineFor config out inputs shape f) t
      inputs axis ((planned config out inputs axis shape f m).withHeap k) = (.ok (), m') ∧
        m'.heap = fillSlabs t axis 0 (counted inputs) k := by
    cases hengine : Plan.engineFor config out inputs shape f with
    | fallback => exact fallback_run joinable hresized rfl
    | fused rank =>
      obtain ⟨rfl, hfusible⟩ := engineFor_fused hengine
      rw [Plan.launches, Plan.joining, hengine] at healthy
      obtain ⟨m', -, -, hrun, hm', -⟩ := fused_run joinable hfusible hresized known countable
        (m := (planned config out inputs axis shape f m).withHeap k) rfl healthy
      exact ⟨m', hrun, hm'⟩
  obtain ⟨m', hrun, hm'⟩ := hfill
  exact ⟨m', concatenate_of_fill joinable ht hrun, hm'⟩

end Accelerator

end TensorConcat
