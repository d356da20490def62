import TensorConcat.Proofs.Budget
import TensorConcat.Proofs.Promotion
import TensorConcat.Proofs.ReadingOut
import TensorConcat.Proofs.Routes

/-!
# Concatenation into a new tensor

The output of such a call has no element and no byte, so it can share none with an input: all
checks but those of the axis and the extents pass, and the storage that it gets is its own. On
a device in order, a call whose result has elements therefore succeeds exactly when the inputs
conform and the result can be allocated. Both routes then leave the joined elements in a
storage that was not there, and all that was there as it was.
-/

namespace TensorConcat

/-- What of a device order a route needs to make a number of launches. -/
def Route.Ready (route : Route) (launches : Nat) (d : Device) : Prop :=
  match route with
  | .reference => True
  | .accelerator _ => d.Healthy launches

/-- Launches that are enough for a number of inputs. -/
def Route.launches (route : Route) (inputs : Nat) : Nat :=
  match route with
  | .reference => 0
  | .accelerator config => (inputs + config.effectiveCapacity - 1) / config.effectiveCapacity

/-- Launches that are enough for a list: with a skipped input, each input is copied by itself. -/
def Route.launchesFor (route : Route) (inputs : List Tensor) : Nat :=
  if inputs.any (·.isSkipped) then 0 else route.launches inputs.length

theorem Route.launchesFor_le (route : Route) (inputs : List Tensor) :
    route.launchesFor inputs ≤ route.launches inputs.length := by
  unfold launchesFor
  split
  · exact Nat.zero_le _
  · exact Nat.le_refl _

theorem Route.Ready.mono {route : Route} {d : Device} {launches more : Nat}
    (ready : route.Ready more d) (le : launches ≤ more) : route.Ready launches d := by
  cases route with
  | reference => trivial
  | accelerator config => exact Device.Healthy.mono ready le

section Request
variable {out t : Tensor} {inputs : List Tensor} {dim : Int} {axis : Nat} {shape : List Nat}
  {f : MemoryFormat} {m : Machine} {k : Heap} {more : Nat} [FloatCasts]

/-- Either engine joins inputs that share no byte with the output. -/
theorem Accelerator.concatenate_joins {config : ConcatConfig}
    (joinable : Joinable m.heap out inputs dim axis shape f)
    (ht : out.resize shape f m.heap = .ok (t, k)) (pos : 0 < volume shape) (fits : t.numel ≤ wordMax)
    (known : ∀ u ∈ inputs, u.storage < m.heap.storages.size) (apart : ∀ u ∈ counted inputs, t.Apart u)
    (healthy : m.device.Healthy ((Route.accelerator config).launchesFor inputs + more)) :
    ∃ m', concatenate config out inputs dim m =
        ⟨.ok (Plan.joining config out inputs axis shape f), t, m'⟩ ∧
      Joins t axis 0 (counted inputs) k m'.heap ∧ m'.device.Healthy more := by
  have hresized := Tensor.resize_spec ht
  cases hengine : Plan.engineFor config out inputs shape f with
  | fallback =>
    have haxis := joinable.axis_lt_resized hresized
    have hfit := joinable.fitsAlong hresized
    have hroom : 0 + totalExtent axis (counted inputs) ≤ t.extentAt axis := by
      rw [Nat.zero_add, joinable.total_eq hresized]
    rcases copySlabs_run haxis hfit hroom ((planned config out inputs axis shape f m).withHeap k) with
      ⟨log, hrun⟩
    refine ⟨_, concatenate_of_fill joinable ht (by rw [hengine]; exact hrun), ?_, ?_⟩
    · exact joins_fillSlabs haxis fits (hresized.distinct fits) hfit apart hroom (hresized.inside fits)
    · exact healthy.mono (Nat.le_add_left _ _)
  | fused rank =>
    rcases engineFor_fused hengine with ⟨rfl, fusible⟩
    have hnone : ¬(inputs.any (·.isSkipped)) = true := by
      rw [List.any_eq_true]
      intro hskipped
      rcases hskipped with ⟨u, hu, hskips⟩
      exact absurd hskips (by simp [fusible.counts u hu])
    rw [Route.launchesFor, if_neg hnone, Route.launches,
      ← length_inBatches (effectiveCapacity_pos config)] at healthy
    have hsmall := fusible.small
    rcases fused_paid joinable fusible hresized known (indexable_axes pos (by omega))
      (m := (planned config out inputs axis shape f m).withHeap k) rfl healthy.launchable
      healthy.usable (healthy.mono (Nat.le_add_right _ _)).affords with ⟨m', hrun, hdevice, hjoins⟩
    refine ⟨m', concatenate_of_copyBatched joinable ht hengine hrun, hjoins, ?_⟩
    rw [hdevice]
    exact Device.Healthy.counting (d := m.device) healthy _

/-- Either route joins inputs that share no byte with the output. -/
theorem Route.catInto_joins (route : Route) (joinable : Joinable m.heap out inputs dim axis shape f)
    (ht : out.resize shape f m.heap = .ok (t, k)) (pos : 0 < volume shape) (fits : t.numel ≤ wordMax)
    (known : ∀ u ∈ inputs, u.storage < m.heap.storages.size) (apart : ∀ u ∈ counted inputs, t.Apart u)
    (ready : route.Ready (route.launchesFor inputs + more) m.device) :
    ∃ m', route.backend.catInto out inputs dim m = ⟨.ok (), t, m'⟩ ∧
      Joins t axis 0 (counted inputs) k m'.heap ∧ route.Ready more m'.device := by
  cases route with
  | reference =>
    rcases Reference.concatenate_joinable joinable ht fits with ⟨m', hrun, hjoins⟩
    exact ⟨m', hrun, hjoins, trivial⟩
  | accelerator config =>
    rcases Accelerator.concatenate_joins joinable ht pos fits known apart ready with
      ⟨m', hrun, hjoins, hready⟩
    refine ⟨m', ?_, hjoins, hready⟩
    change (Accelerator.concatenate config out inputs dim m).map _ = _
    rw [hrun]
    rfl

/-- A call that succeeds has left the output alone or resized it to join the inputs. -/
theorem Route.catInto_ok (route : Route)
    (hok : (route.backend.catInto out inputs dim m).result = .ok ()) :
    Idle out inputs ∧ (route.backend.catInto out inputs dim m).out = out ∨
      ∃ axis shape f k, Joinable m.heap out inputs dim axis shape f ∧
        out.resize shape f m.heap = .ok ((route.backend.catInto out inputs dim m).out, k) := by
  cases route with
  | reference =>
    change (Reference.concatenate out inputs dim m).result = _ at hok
    change Idle out inputs ∧ (Reference.concatenate out inputs dim m).out = out ∨
      ∃ axis shape f k, Joinable m.heap out inputs dim axis shape f ∧
        out.resize shape f m.heap = .ok ((Reference.concatenate out inputs dim m).out, k)
    cases haccept : Reference.accept m.heap out inputs dim with
    | error r =>
      rw [Reference.concatenate_rejected haccept] at hok
      exact absurd hok (by simp)
    | ok joined =>
      have hspec := Reference.accept_ok haccept
      cases joined with
      | none =>
        rw [Reference.concatenate_idle (hspec.1 rfl)]
        exact .inl ⟨hspec.1 rfl, rfl⟩
      | some j =>
        have joinable := hspec.2 j rfl
        cases hresize : out.resize j.shape j.format m.heap with
        | error e =>
          rw [Reference.concatenate_refused joinable hresize] at hok
          exact absurd hok (by simp)
        | ok r =>
          refine .inr ⟨_, _, _, r.2, joinable, ?_⟩
          simp only [Reference.concatenate, haccept, hresize]
  | accelerator config =>
    change ((Accelerator.concatenate config out inputs dim m).map fun _ => ()).result = _ at hok
    change Idle out inputs ∧ (Accelerator.concatenate config out inputs dim m).out = out ∨
      ∃ axis shape f k, Joinable m.heap out inputs dim axis shape f ∧
        out.resize shape f m.heap = .ok ((Accelerator.concatenate config out inputs dim m).out, k)
    cases verdict m.heap out inputs dim with
    | rejected r hr =>
      rw [Accelerator.concatenate_rejected (hr config)] at hok
      exact absurd hok (by simp [Outcome.map, Except.map])
    | idle nothing =>
      rw [Accelerator.concatenate_idle_eq nothing]
      exact .inl ⟨nothing, rfl⟩
    | refused axis shape f e joinable he =>
      rw [Accelerator.concatenate_refused_eq joinable he] at hok
      exact absurd hok (by simp [Outcome.map, Except.map])
    | joined axis shape f t k joinable ht =>
      rw [Accelerator.concatenate_of_fill joinable ht (Prod.eta _).symm]
      exact .inr ⟨axis, shape, f, k, joinable, ht⟩

end Request

section Fresh
variable {inputs : List Tensor} {dim : Int} {axis : Nat} {shape : List Nat} {f : MemoryFormat}
  {dtype : DType} {h k : Heap} {t : Tensor}

/-- A view without elements shares no byte with any input. -/
theorem checkDisjoint_of_empty (empty : t.numel = 0) (inputs : List Tensor) :
    checkDisjoint t inputs = .ok () := by
  rw [Tensor.checkDisjoint_iff]
  intro u _
  rw [Tensor.surelyOverlaps, Tensor.overlap, if_pos (.inl empty)]

/-- The type of a new output is the one at which the inputs that count meet. -/
theorem resultType_eq_ok_iff (counts : counted inputs ≠ []) :
    Backend.resultType inputs = .ok dtype ↔
      DType.common? ((counted inputs).map (·.dtype)) = some dtype := by
  rw [← commonType?_eq]
  cases inputs with
  | nil => exact absurd rfl counts
  | cons first rest =>
    cases hcommon : commonType? (first :: rest) with
    | none =>
      rw [commonType?_eq] at hcommon
      exact absurd (List.map_eq_nil_iff.mp (DType.common?_eq_none_iff.mp hcommon)) counts
    | some d => simp [Backend.resultType, resultType?, hcommon]

theorem exists_resultType (counts : counted inputs ≠ []) :
    ∃ dtype, Backend.resultType inputs = .ok dtype := by
  obtain ⟨d, hd⟩ := DType.exists_common (mt List.map_eq_nil_iff.mp counts)
  exact ⟨d, (resultType_eq_ok_iff counts).mpr hd⟩

/-- Inputs of one type meet at it. -/
theorem resultType_of_uniform (counts : counted inputs ≠ [])
    (uniform : ∀ u ∈ counted inputs, u.dtype = dtype) : Backend.resultType inputs = .ok dtype := by
  obtain ⟨u, hu⟩ := List.exists_mem_of_ne_nil _ counts
  have hmem : dtype ∈ (counted inputs).map (·.dtype) := uniform u hu ▸ List.mem_map_of_mem hu
  rw [resultType_eq_ok_iff counts, DType.common?_eq_some_iff]
  refine ⟨mt List.map_eq_nil_iff.mp counts, List.forall_mem_map.mpr fun v hv => ?_,
    fun e below => below dtype hmem⟩
  rw [uniform v hv]
  exact .refl dtype

theorem checkOutput_fresh (hdtype : Backend.resultType inputs = .ok dtype) (h : Heap) :
    checkOutput (.fresh dtype h) inputs = .ok () := by
  have htypes : checkTypes (.fresh dtype h) inputs = .ok () := by
    unfold checkTypes
    cases hcommon : commonType? inputs with
    | none => rfl
    | some d =>
      have hd : d = dtype := by
        unfold Backend.resultType resultType? at hdtype
        cases inputs with
        | nil => exact absurd hdtype (by simp)
        | cons first rest => simpa [hcommon] using hdtype
      rw [hd]
      exact if_pos (decide_eq_true (Nat.le_refl dtype.category.level))
  rw [checkOutput, htypes, checkDisjoint_of_empty rfl]
  rfl

theorem bytesFor_fresh (dtype : DType) (h : Heap) (shape : List Nat) :
    (Tensor.fresh dtype h).bytesFor shape = volume shape * dtype.size := by
  change (0 + volume shape) * dtype.size = _
  rw [Nat.zero_add]

theorem capacity_fresh (dtype : DType) (h : Heap) :
    h.withEmpty.capacity (Tensor.fresh dtype h).storage = 0 := h.capacity_push #[]

/-- Nothing that an output without a byte becomes is known to overlap an input. -/
theorem checkTarget_fresh (dtype : DType) (h : Heap) (shape : List Nat) (f : MemoryFormat)
    (inputs : List Tensor) :
    checkTarget ((Tensor.fresh dtype h).target? shape f h.withEmpty) inputs = .ok () := by
  unfold Tensor.target?
  rw [capacity_fresh, bytesFor_fresh]
  split
  · rfl
  · rename_i hroom
    -- What has room in no byte has no element.
    have hempty : volume shape = 0 := by
      have hsize := dtype.size_pos
      have hmul := Nat.eq_zero_of_not_pos hroom
      exact (Nat.mul_eq_zero.mp hmul).resolve_right hsize.ne'
    apply checkDisjoint_of_empty
    rw [Tensor.numel, Tensor.dims, f.extents_axes, hempty]

theorem Conform.joinable_fresh (conform : Conform inputs dim axis shape f)
    (hdtype : Backend.resultType inputs = .ok dtype) (h : Heap) :
    Joinable h.withEmpty (.fresh dtype h) inputs dim axis shape f where
  toConform := conform
  checked := checkOutput_fresh hdtype h
  target := checkTarget_fresh dtype h shape f inputs

theorem outgrows_fresh_iff : (Tensor.fresh dtype h).Outgrows shape h.withEmpty ↔
    storageLimit < volume shape * dtype.size := by
  unfold Tensor.Outgrows
  rw [capacity_fresh, bytesFor_fresh]
  omega

/-- A new output gets a storage that was not there before. -/
theorem fresh_place (ht : (Tensor.fresh dtype h).resize shape f h.withEmpty = .ok (t, k)) :
    h.storages.size ≤ t.storage ∧ t.storage < k.storages.size := by
  have hcount : h.withEmpty.storages.size = h.storages.size + 1 := by simp [Heap.withEmpty, Heap.push]
  rcases Tensor.resize_place ht with ⟨hstorage, rfl⟩ | ⟨hstorage, hk, -⟩
  · change t.storage = h.storages.size at hstorage
    omega
  · omega

end Fresh

/-- What was known before memory has grown is all that a concatenation reads. -/
theorem IsConcatenation.earlier [FloatCasts] {inputs : List Tensor} {axis : Nat} {h k l : Heap}
    {t : Tensor} (concatenation : IsConcatenation inputs axis k t l) (grown : h.Extends k)
    (known : ∀ u ∈ inputs, u.storage < h.storages.size) : IsConcatenation inputs axis h t l where
  axis_lt := concatenation.axis_lt
  dims := concatenation.dims
  strides := concatenation.strides
  values c hc := by
    rcases concatenation.values c hc with ⟨n, u, lies, hunique, hwithin, hvalue⟩
    have hu : u ∈ inputs := List.mem_of_mem_filter (List.mem_of_getElem? lies.part)
    refine ⟨n, u, lies, hunique, hwithin, ?_⟩
    rw [hvalue, Tensor.converted, Tensor.converted, Tensor.loadElement_extends grown (known u hu)]

/-- Inputs that conform, with the type of the new tensor, which a storage can hold. -/
structure Concatenable (inputs : List Tensor) (dim : Int) (axis : Nat) (shape : List Nat)
    (f : MemoryFormat) (dtype : DType) : Prop extends Conform inputs dim axis shape f where
  typed : Backend.resultType inputs = .ok dtype
  holds : volume shape * dtype.size ≤ storageLimit

/-- A new tensor, in memory that has grown, into which inputs have been concatenated. -/
structure Concatenated [FloatCasts] (inputs : List Tensor) (axis : Nat) (h : Heap) (t : Tensor)
    (k : Heap) : Prop extends IsConcatenation inputs axis h t k where
  grown : h.Extends k
  typed : Backend.resultType inputs = .ok t.dtype
  known : t.storage < k.storages.size
  holds : t.numel * t.elementSize ≤ storageLimit

section Inputs
variable {inputs : List Tensor} {dim : Int} {axis : Nat} {shape : List Nat} {f : MemoryFormat}
  {u : Tensor}

theorem mem_counted_of_pos (hu : u ∈ inputs) (pos : 0 < u.numel) : u ∈ counted inputs := by
  refine List.mem_filter.mpr ⟨hu, ?_⟩
  simp [Tensor.isSkipped, pos.ne']

theorem extentAt_le_totalExtent {parts : List Tensor} (hu : u ∈ parts) :
    u.extentAt axis ≤ totalExtent axis parts :=
  List.le_sum_of_mem (List.mem_map_of_mem hu)

/-- The extents decide; the format is that of the first input, whichever it is. -/
theorem exists_conform (counts : counted inputs ≠ []) (dim_eq : dim = axis)
    (axis_lt : axis < shape.length) (fit : ∀ t ∈ counted inputs, t.FitsShape shape axis)
    (total : shape.getD axis 0 = totalExtent axis (counted inputs)) :
    ∃ f, Conform inputs dim axis shape f := by
  cases hhead : inputs.head? with
  | none =>
    rw [List.head?_eq_none_iff.mp hhead] at counts
    exact absurd rfl counts
  | some head => exact ⟨head.suggestedFormat, counts, dim_eq, axis_lt, fit, total, by rw [hhead]; rfl⟩

/-- Inputs of which one has an element are joined to a shape that has elements. -/
theorem Conform.volume_pos (conform : Conform inputs dim axis shape f) (hu : u ∈ inputs)
    (pos : 0 < u.numel) : 0 < volume shape := by
  have hcounted := mem_counted_of_pos hu pos
  have hle : u.extentAt axis ≤ shape.getD axis 0 :=
    conform.total ▸ extentAt_le_totalExtent hcounted
  have hvolume := volume_set_le hle
  rw [← conform.fit u hcounted] at hvolume
  exact pos.trans_le hvolume

end Inputs

section Concatenation
variable {inputs : List Tensor} {dim : Int} {axis : Nat} {shape : List Nat} {f : MemoryFormat}
  {dtype : DType} {m m' : Machine} {t : Tensor} {more : Nat}

/-- A call that has given a new tensor has written to an output that had no byte. -/
theorem Backend.catInto_of_cat {b : Backend} (hok : b.cat inputs dim m = (.ok t, m')) :
    ∃ dtype, Backend.resultType inputs = .ok dtype ∧
      b.catInto (.fresh dtype m.heap) inputs dim (m.withHeap m.heap.withEmpty) = ⟨.ok (), t, m'⟩ := by
  cases hdtype : Backend.resultType inputs with
  | error e =>
    rw [Backend.cat, hdtype] at hok
    exact absurd (congrArg Prod.fst hok) (by simp)
  | ok dtype =>
    refine ⟨dtype, rfl, ?_⟩
    rw [Backend.cat_eq hdtype] at hok
    revert hok
    cases b.catInto (.fresh dtype m.heap) inputs dim (m.withHeap m.heap.withEmpty) with
    | mk result out machine =>
      cases result with
      | error e =>
        intro hok
        exact absurd (congrArg Prod.fst hok) (by simp [Except.map])
      | ok _ =>
        intro hok
        rcases Prod.mk.inj hok with ⟨hresult, rfl⟩
        rw [← Except.ok.inj hresult]

variable [FloatCasts]

/-- Either route concatenates what can be concatenated, if the device is in order for the launches
it takes. -/
theorem Route.cat_joins (route : Route)
    (concatenable : Concatenable inputs dim axis shape f dtype) (pos : 0 < volume shape)
    (known : ∀ u ∈ inputs, u.storage < m.heap.storages.size)
    (ready : route.Ready (route.launchesFor inputs + more) m.device) :
    ∃ t m', route.backend.cat inputs dim m = (.ok t, m') ∧ t.dtype = dtype ∧ t.dims = shape ∧
      Concatenated inputs axis m.heap t m'.heap ∧ route.Ready more m'.device := by
  have joinable := concatenable.toConform.joinable_fresh concatenable.typed m.heap
  have hroom : ¬(Tensor.fresh dtype m.heap).Outgrows shape m.heap.withEmpty := by
    rw [outgrows_fresh_iff]
    exact Nat.not_lt.mpr concatenable.holds
  rcases Tensor.exists_resize joinable.shape_ne_nil hroom f with ⟨t, k, ht⟩
  have hresized := Tensor.resize_spec ht
  have hplace := fresh_place ht
  have hempty := m.heap.extends_withEmpty
  have hholds : t.numel * t.elementSize ≤ storageLimit := by
    rw [hresized.numel_eq, Tensor.elementSize, hresized.dtype]
    exact concatenable.holds
  have hknown : ∀ u ∈ inputs, u.storage < m.heap.withEmpty.storages.size :=
    fun u hu => (known u hu).trans_le hempty.count
  have hapart : ∀ u ∈ counted inputs, t.Apart u := by
    intro u hu
    have hstorage := known u (List.mem_of_mem_filter hu)
    exact Tensor.apart_of_storage_ne (by omega)
  rcases route.catInto_joins (m := m.withHeap m.heap.withEmpty) joinable ht pos
    (Tensor.numel_le_wordMax hholds) hknown hapart ready with ⟨m', hrun, hjoins, hready⟩
  refine ⟨t, m', ?_, hresized.dtype, hresized.dims_eq, ?_, hready⟩
  · rw [Backend.cat_eq concatenable.typed, hrun]
    rfl
  · constructor
    · exact (joinable.isConcatenation ht hknown hjoins).earlier hempty known
    · exact (hempty.trans (Tensor.resize_extends ht)).changedAt hjoins.changed hplace.1
    · rw [hresized.dtype]
      exact concatenable.typed
    · rw [hjoins.changed.count]
      exact hplace.2
    · exact hholds

/-- On a device in order, either route concatenates what can be concatenated. -/
theorem Route.cat_concatenable (route : Route)
    (concatenable : Concatenable inputs dim axis shape f dtype) (pos : 0 < volume shape)
    (known : ∀ u ∈ inputs, u.storage < m.heap.storages.size)
    (ready : route.Ready (route.launches inputs.length + more) m.device) :
    ∃ t m', route.backend.cat inputs dim m = (.ok t, m') ∧ t.dtype = dtype ∧ t.dims = shape ∧
      Concatenated inputs axis m.heap t m'.heap ∧ route.Ready more m'.device :=
  route.cat_joins concatenable pos known
    (ready.mono (Nat.add_le_add_right (route.launchesFor_le inputs) more))

/-- What a route has concatenated could be concatenated, unless no input counts. -/
theorem Route.cat_ok {route : Route} (hok : route.backend.cat inputs dim m = (.ok t, m')) :
    counted inputs = [] ∧ t.numel = 0 ∨
      ∃ axis f, Concatenable inputs dim axis t.dims f t.dtype := by
  rcases Backend.catInto_of_cat hok with ⟨dtype, hdtype, hrun⟩
  have hcases := route.catInto_ok (congrArg Outcome.result hrun)
  rw [hrun] at hcases
  change Idle (.fresh dtype m.heap) inputs ∧ t = .fresh dtype m.heap ∨
    ∃ axis shape f k, Joinable m.heap.withEmpty (.fresh dtype m.heap) inputs dim axis shape f ∧
      (Tensor.fresh dtype m.heap).resize shape f m.heap.withEmpty = .ok (t, k) at hcases
  rcases hcases with ⟨nothing, rfl⟩ | ⟨axis, shape, f, k, joinable, ht⟩
  · exact .inl ⟨nothing.none_counts, rfl⟩
  · have hresized := Tensor.resize_spec ht
    have hroom := Tensor.not_outgrows joinable.shape_ne_nil ht
    rw [outgrows_fresh_iff] at hroom
    refine .inr ⟨axis, f, ?_⟩
    rw [hresized.dims_eq, hresized.dtype]
    exact ⟨joinable.toConform, hdtype, Nat.not_lt.mp hroom⟩

theorem Route.concatenable_of_cat {route : Route}
    (hok : route.backend.cat inputs dim m = (.ok t, m')) (counts : counted inputs ≠ []) :
    ∃ axis f, Concatenable inputs dim axis t.dims f t.dtype := by
  rcases Route.cat_ok hok with ⟨hnone, -⟩ | hconcatenable
  · exact absurd hnone counts
  · exact hconcatenable

/-- The result has an element when an input has one. -/
theorem Route.numel_pos_of_cat {route : Route} (hok : route.backend.cat inputs dim m = (.ok t, m'))
    {u : Tensor} (hu : u ∈ inputs) (pos : 0 < u.numel) : 0 < t.numel := by
  have hcounts := List.ne_nil_of_mem (mem_counted_of_pos hu pos)
  rcases Route.concatenable_of_cat hok hcounts with ⟨axis, f, concatenable⟩
  exact concatenable.volume_pos hu pos

/-- What either route has made of inputs, on a device in order, if it has an element. -/
theorem Route.concatenated_of_cat {route : Route}
    (hok : route.backend.cat inputs dim m = (.ok t, m'))
    (pos : 0 < t.numel) (known : ∀ u ∈ inputs, u.storage < m.heap.storages.size)
    (ready : route.Ready (route.launches inputs.length + more) m.device) :
    ∃ axis : Nat, dim = axis ∧ Concatenated inputs axis m.heap t m'.heap ∧
      route.Ready more m'.device := by
  rcases Route.cat_ok hok with ⟨-, hzero⟩ | ⟨axis, f, concatenable⟩
  · omega
  · rcases route.cat_concatenable concatenable pos known ready with
      ⟨u, l, hrun, -, -, concatenated, hready⟩
    rcases Prod.mk.inj (hok.symm.trans hrun) with ⟨hresult, rfl⟩
    rw [Except.ok.inj hresult]
    exact ⟨axis, concatenable.dim_eq, concatenated, hready⟩

end Concatenation

end TensorConcat
