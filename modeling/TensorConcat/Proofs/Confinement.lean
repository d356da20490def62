import TensorConcat.Proofs.Growth
import TensorConcat.Proofs.Interference
import TensorConcat.Proofs.Parity
import TensorConcat.SoftwareCasts

/-!
# What a call leaves alone

A request that is turned away, or whose inputs are all left out, changes nothing but the
log. Any other call may give the output another shape and storage and write inside the
byte range that its final view spans, and nowhere else. That holds on both routes and
for every device, whatever the answer: an engine that stops half way has written elements
of the resized output, and a new storage begins with the bytes of the old one.
-/

namespace TensorConcat

open OutputLayout

/-- The output has moved to a storage of its own, since the old one was too small. -/
structure Replaced (out : Tensor) (h : Heap) (t : Tensor) (k : Heap) : Prop where
  storage : t.storage = h.storages.size
  count : k.storages.size = h.storages.size + 1
  short : h.capacity out.storage < out.bytesFor t.dims
  old : ∀ s < h.storages.size, ∀ i, k.byte s i = h.byte s i
  before : ∀ i < t.start,
    k.byte t.storage i = if i < h.capacity out.storage then h.byte out.storage i else 0

/-- An output and memory after a call that writes inside the output's byte range only. -/
structure Confined (out : Tensor) (h : Heap) (t : Tensor) (k : Heap) : Prop where
  dtype : t.dtype = out.dtype
  offset : t.offset = out.offset
  capacity : ∀ s < h.storages.size, k.capacity s = h.capacity s
  outside : ∀ s < h.storages.size, ∀ i, ¬t.InByteRange s i → k.byte s i = h.byte s i
  place : t.storage = out.storage ∧ k.storages.size = h.storages.size ∨ Replaced out h t k

theorem Confined.refl (out : Tensor) (h : Heap) : Confined out h out h :=
  ⟨rfl, rfl, fun _ _ => rfl, fun _ _ _ _ => rfl, .inl ⟨rfl, rfl⟩⟩

/-- No byte lies in a byte range before its start. -/
theorem Tensor.not_inByteRange_of_lt_start {t : Tensor} {s i : Nat} (hi : i < t.start) :
    ¬t.InByteRange s i := by
  intro hin
  have hstart : t.byteRange.1 = t.start := by
    rw [byteRange]
    split
    · rfl
    · rfl
  have hlow := hin.2.1
  omega

/-- Bytes outside the byte range of a view survive a change of its elements. -/
theorem Tensor.ChangedAt.byte_outside {t : Tensor} {h k : Heap}
    (changed : t.ChangedAt t.Reaches h k)
    {s i : Nat} (outside : ¬t.InByteRange s i) : k.byte s i = h.byte s i :=
  changed.byte s i fun _ hp ho =>
    outside (Tensor.Addresses.in_byteRange (Tensor.addresses_iff.mpr ⟨_, hp, ho⟩))

section Resize
variable {out t : Tensor} {dims : List Nat} {f : MemoryFormat} {h k l : Heap}

/-- Bytes of old storages that the resized view does not span are what they were. -/
theorem byte_of_resize (hok : out.resize dims f h = .ok (t, k))
    (changed : t.ChangedAt t.Reaches k l)
    {s : Nat} (hs : s < h.storages.size) {i : Nat} (outside : ¬t.InByteRange s i) :
    l.byte s i = h.byte s i :=
  (changed.byte_outside outside).trans ((Tensor.resize_extends hok).byte hs i)

/-- A view that has got a new storage leaves the old one alone. -/
theorem replaced_of_resize (hok : out.resize dims f h = .ok (t, k))
    (changed : t.ChangedAt t.Reaches k l) (fresh : t.storage = h.storages.size)
    (count : k.storages.size = h.storages.size + 1)
    (short : h.capacity out.storage < out.bytesFor dims)
    (begins : ∀ i, k.byte t.storage i = h.byte out.storage i) : Replaced out h t l where
  storage := fresh
  count := changed.count.trans count
  short := by rwa [(Tensor.resize_spec hok).dims_eq]
  old s hs i := by
    apply byte_of_resize hok changed hs
    intro hin
    have hstorage := hin.1
    omega
  before i hi := by
    rw [changed.byte_outside (Tensor.not_inByteRange_of_lt_start hi), begins]
    split
    · rfl
    · rename_i hbeyond
      exact Heap.byte_of_capacity_le (Nat.not_lt.mp hbeyond)

/-- Resizing and writing elements of what has been resized is confined. -/
theorem confined_of_resize (hok : out.resize dims f h = .ok (t, k))
    (changed : t.ChangedAt t.Reaches k l) : Confined out h t l where
  dtype := (Tensor.resize_spec hok).dtype
  offset := (Tensor.resize_spec hok).offset
  capacity s hs := by rw [changed.capacity, (Tensor.resize_extends hok).capacity hs]
  outside s hs i := byte_of_resize hok changed hs
  place := by
    rcases Tensor.resize_place hok with ⟨hsame, rfl⟩ | ⟨hfresh, hcount, hshort, hbegins⟩
    · exact .inl ⟨hsame, changed.count⟩
    · exact .inr (replaced_of_resize hok changed hfresh hcount hshort hbegins)

end Resize

namespace Outcome
variable {α : Type} {o : Outcome α} {out : Tensor} {inputs : List Tensor} {m : Machine}

/-- A call that has changed nothing but the log. -/
structure Untouched (o : Outcome α) (out : Tensor) (m : Machine) : Prop where
  out : o.out = out
  heap : o.machine.heap = m.heap
  device : o.machine.device = m.device

/-- A call that leaves alone what it has to. -/
structure Framed (o : Outcome α) (out : Tensor) (inputs : List Tensor) (m : Machine) : Prop where
  untouched : (∃ v, o.result = .error (.backend (.violation v))) ∨
    (∀ t ∈ inputs, t.isSkipped = true) → o.Untouched out m
  confined : Confined out m.heap o.out o.machine.heap

theorem Untouched.framed (untouched : o.Untouched out m) : o.Framed out inputs m where
  untouched _ := untouched
  confined := by
    rw [untouched.out, untouched.heap]
    exact .refl out m.heap

end Outcome

/-- A run of an engine that has changed elements of a view only, and is done or could not be
executed. -/
structure WritesWithin (t : Tensor) (k : Heap) (run : Except Failure Unit × Machine) : Prop where
  changed : t.ChangedAt t.Reaches k run.2.heap
  answer : run.1 = .ok () ∨ ∃ cause, run.1 = .error (.backend (.execution cause))

/-- A run that was stopped before it wrote anything. -/
theorem WritesWithin.stopped {t : Tensor} {m : Machine} {k : Heap} (cause : ExecutionCause)
    (hheap : m.heap = k) : WritesWithin t k (.error (.backend (.execution cause)), m) where
  changed := by
    rw [hheap]
    exact .refl ..
  answer := .inr ⟨cause, rfl⟩

theorem counted_eq_nil_iff {inputs : List Tensor} :
    counted inputs = [] ↔ ∀ t ∈ inputs, t.isSkipped = true := by
  simp [counted]

section Request
variable {config : ConcatConfig} {out t : Tensor} {inputs : List Tensor} {dim : Int} {axis : Nat}
  {shape : List Nat} {f : MemoryFormat} {h k : Heap}

/-- A request that joins inputs and is not turned away is framed if it writes elements of the
resized output only. -/
theorem Joinable.framed {α : Type} {o : Outcome α} {m : Machine}
    (joinable : Joinable m.heap out inputs dim axis shape f)
    (ht : out.resize shape f m.heap = .ok (o.out, k))
    (changed : o.out.ChangedAt o.out.Reaches k o.machine.heap)
    (answer : ∀ v, o.result ≠ .error (.backend (.violation v))) : o.Framed out inputs m where
  untouched := by
    intro hcase
    rcases hcase with ⟨v, hv⟩ | hskipped
    · exact absurd hv (answer v)
    · exact absurd (counted_eq_nil_iff.mpr hskipped) joinable.counts
  confined := confined_of_resize ht changed

variable [FloatCasts]

/-- Whatever the device, the batched engine writes within the resized output. -/
theorem fused_confined (joinable : Joinable h out inputs dim axis shape f)
    (fusible : Fusible config out inputs shape f) (resized : out.Resized shape f h t k)
    (known : ∀ u ∈ inputs, u.storage < h.storages.size) {m : Machine} (hk : m.heap = k) :
    WritesWithin t k (copyBatched t inputs axis shape.length config.effectiveCapacity m) := by
  have hrank := rank_of_fusible joinable fusible resized
  -- The engine may stop before it stages anything, at its first batch, or after some launches.
  by_cases hwords : Indexable t.axes
  · have hmatches := matches_of_fusible joinable fusible resized known
    by_cases launchable : m.device.Launchable
    · rcases exists_launched_fused joinable fusible resized known hwords launchable with
        ⟨runs, hlaunched, hjoins⟩
      rcases @copyBatches_partial t (.ofAxes t.axes) axis ⟨config.effectiveCapacity, #[]⟩ 0
        (m.batched t inputs config.effectiveCapacity) _ _ _ hlaunched (joined_lt_strides hmatches)
        (fun b hb => length_le_of_mem_inBatches hb) rfl with ⟨r, m', n, hrun, hheap, hanswer⟩
      rw [fused_start joinable fusible resized hwords m, hrun]
      subst hk
      constructor
      · rw [hheap]
        exact (hjoins n).reaches
      · exact hanswer
    · have hnumel := fusible.numel_le resized
      have hnonempty : inputs ≠ [] := by
        rw [← fusible.counted_eq]
        exact joinable.counts
      rcases copyBatched_stopped hmatches hwords (by omega) hrank.2 (effectiveCapacity_pos config)
        (effectiveCapacity_le config) hnonempty
        fun healthy : m.device.Healthy 1 => launchable healthy.launchable with
        ⟨cause, m', hrun, hheap⟩
      rw [← hrank.1, hrun]
      exact .stopped cause (hheap.trans hk)
  · rcases copyBatched_unindexable hwords hrank.2 config.effectiveCapacity m with ⟨what, n, -, hrun⟩
    rw [← hrank.1, hrun]
    exact .stopped _ hk

/-- Whatever the device and the engine, filling writes within the resized output. -/
theorem fill_confined (config : ConcatConfig) (joinable : Joinable h out inputs dim axis shape f)
    (resized : out.Resized shape f h t k) (bounded : h.Bounded)
    (known : ∀ u ∈ inputs, u.storage < h.storages.size) {m : Machine} (hk : m.heap = k) :
    WritesWithin t k (Accelerator.fill config.effectiveCapacity
      (Plan.engineFor config out inputs shape f) t inputs axis m) := by
  cases hengine : Plan.engineFor config out inputs shape f with
  | fallback =>
    rcases fallback_run joinable resized hk with ⟨m', hrun, hheap⟩
    have hroom : 0 + totalExtent axis (counted inputs) ≤ t.extentAt axis := by
      rw [Nat.zero_add, joinable.total_eq resized]
    rw [Accelerator.fill, hrun]
    constructor
    · rw [hheap]
      exact changedAt_fillSlabs (joinable.axis_lt_resized resized) (resized.numel_le bounded)
        (joinable.fitsAlong resized) hroom k
    · exact .inl rfl
  | fused rank =>
    rcases engineFor_fused hengine with ⟨rfl, fusible⟩
    exact fused_confined joinable fusible resized known hk

end Request

namespace Accelerator

theorem concatenate_framed [FloatCasts] (config : ConcatConfig) (out : Tensor)
    (inputs : List Tensor) (dim : Int) {m : Machine} (bounded : m.heap.Bounded)
    (known : ∀ u ∈ inputs, u.storage < m.heap.storages.size) :
    (concatenate config out inputs dim m).Framed out inputs m := by
  cases verdict m.heap out inputs dim with
  | rejected r hr =>
    rw [concatenate_rejected (hr config)]
    exact Outcome.Untouched.framed ⟨rfl, rfl, rfl⟩
  | idle nothing =>
    rw [concatenate_idle_eq nothing]
    exact Outcome.Untouched.framed ⟨rfl, rfl, rfl⟩
  | refused axis shape f e joinable he =>
    rw [concatenate_refused_eq joinable he]
    exact Outcome.Untouched.framed ⟨rfl, rfl, rfl⟩
  | joined axis shape f t k joinable ht =>
    have hwrites := fill_confined config joinable (Tensor.resize_spec ht) bounded known
      (m := (planned config out inputs axis shape f m).withHeap k) rfl
    rw [concatenate_of_fill joinable ht (Prod.eta _).symm]
    apply joinable.framed ht hwrites.changed
    intro v hv
    rcases hwrites.answer with hdone | ⟨cause, hstopped⟩
    · exact absurd hv (by simp [hdone, Except.map])
    · exact absurd hv (by simp [hstopped, Except.map])

end Accelerator

namespace Reference

theorem concatenate_framed [FloatCasts] (out : Tensor) (inputs : List Tensor) (dim : Int)
    {m : Machine} (bounded : m.heap.Bounded) :
    (concatenate out inputs dim m).Framed out inputs m := by
  cases haccept : accept m.heap out inputs dim with
  | error r =>
    rw [concatenate_rejected haccept]
    exact Outcome.Untouched.framed ⟨rfl, rfl, rfl⟩
  | ok joined =>
    have hspec := accept_ok haccept
    cases joined with
    | none =>
      rw [concatenate_idle (hspec.1 rfl)]
      exact Outcome.Untouched.framed ⟨rfl, rfl, rfl⟩
    | some j =>
      have joinable := hspec.2 j rfl
      cases hresize : out.resize j.shape j.format m.heap with
      | error e =>
        rw [concatenate_refused joinable hresize]
        exact Outcome.Untouched.framed ⟨rfl, rfl, rfl⟩
      | ok r =>
        rcases r with ⟨t, k⟩
        have hresized := Tensor.resize_spec hresize
        obtain ⟨m', hrun, hjoins⟩ :=
          concatenate_joinable joinable hresize (hresized.numel_le bounded)
        rw [hrun]
        exact joinable.framed hresize hjoins.reaches (fun v hv => absurd hv (by simp))

end Reference

/-- An empty view inside the square, which is too small for the answer. -/
def cramped : Tensor := ⟨0, 2, [⟨0, 1⟩], .u8⟩

/-- On a queue that is poisoned the output has grown as well, and nothing is written to it. -/
example : (Accelerator.concatenate {} cramped [square, column] 1
    { heap := sampleHeap, device := { smallDevice with poisoned := true } }).machine.heap =
      ⟨#[#[1, 2, 3, 4], #[5, 6], #[0, 0, 0, 0, 0, 0], #[1, 2, 3, 4, 0, 0, 0, 0]]⟩ := by cbv

end TensorConcat
