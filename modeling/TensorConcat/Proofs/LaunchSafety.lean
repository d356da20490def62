import TensorConcat.Proofs.Interference
import TensorConcat.Proofs.PathIndependence
import TensorConcat.SoftwareCasts

/-!
# Launches are safe in any order

The planner hands a request to the batched engine only after checks that make its
launches safe: words hold every number that the batcher and the kernel compute, every
item reads its own input and writes the output, each element of the output is written
once in the whole call, and no byte of an input is written at all. The moves of a call
are then isolated, so the order in which a launch makes them does not show.
-/

namespace TensorConcat

open OutputLayout

section Match
variable {out : Tensor} {f : MemoryFormat} {axis : Nat} {parts : List Tensor}

/-- What a transfer writes belongs to no part. -/
theorem not_addresses_of_writes (matching : Matches out f axis parts) {x : Transfer}
    (hx : x ∈ transfers axis 0 parts) {u : Tensor} (hu : u ∈ parts) {s i : Nat}
    (hs : (x.move out f axis).Writes out.elementSize s i) : ¬u.Addresses s i :=
  matching.apart u hu s i (addresses_of_writes matching hx hs)

/-- The transfers of matching parts do not get in each other's way. -/
theorem isolated_transfers (matching : Matches out f axis parts) {xs : List Transfer}
    (perm : xs.Perm (transfers axis 0 parts)) :
    Isolated out.elementSize (xs.map (Transfer.move out f axis)) := by
  constructor
  · have hnodup : (xs.map (Transfer.target out f axis)).Nodup :=
      (perm.map _).nodup_iff.mpr (nodup_targets matching)
    rw [List.pairwise_map]
    apply (List.pairwise_map.mp hnodup).imp
    intro x y hne s i hx hy
    exact hne ((writes_move.mp hx).position_eq (writes_move.mp hy))
  · intro mv hmv mw hmw s i hwrites hreads
    rcases List.mem_map.mp hmv with ⟨x, hx, rfl⟩
    rcases List.mem_map.mp hmw with ⟨y, hy, rfl⟩
    have hx := perm.mem_iff.mp hx
    have hy := perm.mem_iff.mp hy
    exact not_addresses_of_writes matching hx (reads_part matching hy).1 hwrites
      (addresses_of_reads matching hy hreads)

/-- The moves of all transfers go to the elements of the output, one to each. -/
theorem moves_perm (matching : Matches out f axis parts) {xs : List Transfer}
    (perm : xs.Perm (transfers axis 0 parts)) :
    ((xs.map (Transfer.move out f axis)).map Move.target).Perm
      ((coordinates out.dims).map fun c =>
        out.pointer.element out.elementSize (Axis.position out.axes c)) := by
  have htargets := ((perm.map _).trans (targets_perm matching)).map
    (out.pointer.element out.elementSize)
  rw [List.map_map, List.map_map] at htargets
  rw [List.map_map]
  exact htargets

end Match

/-- What holds of all the moves that a call makes, launch by launch: each element of the output
is written by one of them, no byte of an input is written, and whatever the order of the
accesses of a launch, memory `h` becomes memory `k`. -/
structure SafeMoves (out : Tensor) (inputs : List Tensor) (h k : Heap) (mss : List (List Move)) :
    Prop where
  once : (mss.flatten.map Move.target).Perm ((coordinates out.dims).map fun c =>
    out.pointer.element out.elementSize (Axis.position out.axes c))
  apart : ∀ mv ∈ mss.flatten, ∀ u ∈ inputs, ∀ s i,
    mv.Writes out.elementSize s i → ¬u.Addresses s i
  settles : SettlesInTurn out.elementSize mss h k

/-- On a healthy device every launch of a request that the batched engine takes is safe: its
items compute within words, each reads its own input and writes the resized output, every
element is written once, no input is, and no order of the accesses shows. -/
theorem fused_launches_safe [FloatCasts] {config : ConcatConfig} {out : Tensor}
    {inputs : List Tensor} {dim : Int}
    {m : Machine} {p : Plan} {shape : List Nat} {f : MemoryFormat} {rank : Nat}
    (accepted : Plan.make m.heap config out inputs dim = .ok p)
    (filling : p.filling = some ⟨shape, f, .fused rank⟩) (nonempty : 0 < volume shape)
    {t : Tensor} {k : Heap} (resized : out.resize shape f m.heap = .ok (t, k))
    (known : ∀ u ∈ inputs, u.storage < m.heap.storages.size)
    (healthy : m.device.Healthy (inBatches config.effectiveCapacity inputs).length) :
    ∃ (m' : Machine) (layout : OutputLayout) (runs : List (List (List Move))),
      Accelerator.concatenate config out inputs dim m = ⟨.ok p, t, m'⟩ ∧
      capture rank t = .ok layout ∧
      Launched t layout p.axis m.device 0 (inBatches config.effectiveCapacity inputs) runs ∧
      SafeMoves t inputs k m'.heap (runs.map List.flatten) := by
  have hspec := Tensor.resize_spec resized
  have hplan := (Plan.make_ok accepted).2 _ filling
  dsimp only at hplan
  rcases hplan with ⟨joinable, hengine⟩
  rcases engineFor_fused hengine.symm with ⟨rfl, fusible⟩
  have hmatches := matches_of_fusible joinable fusible hspec known
  have hnumel := fusible.numel_le hspec
  have hfits : t.numel ≤ wordMax := by
    unfold wordMax
    omega
  have hlaunches : m.device.Healthy
      ((Plan.joining config out inputs p.axis shape f).launches config inputs) := by
    rw [Plan.launches, Plan.joining, ← hengine]
    exact healthy
  obtain ⟨m', hrun, hheap⟩ := Accelerator.concatenate_joinable joinable resized known
    (.inl nonempty) hlaunches
  have hsame : Plan.joining config out inputs p.axis shape f = p := by
    rw [Plan.make_of_joinable joinable] at accepted
    exact Except.ok.inj accepted
  obtain ⟨-, runs, xs, -, -, hlaunched, hmoves, hperm⟩ := @fused_run config out t inputs dim p.axis
    shape f m.heap k _ joinable fusible hspec known (.inl nonempty) (m.withHeap k) rfl healthy
  refine ⟨m', .ofAxes t.axes, runs, hsame ▸ hrun, ?_, hlaunched, ?_⟩
  · rw [← hspec.dims_eq, ← rank_eq]
    exact capture_eq (indexable_of_fusible fusible hspec (.inl nonempty))
  · constructor
    · rw [hmoves]
      exact moves_perm hmatches hperm
    · intro mv hmv u hu s i hwrites
      rw [hmoves] at hmv
      rcases List.mem_map.mp hmv with ⟨x, hx, rfl⟩
      exact not_addresses_of_writes hmatches (hperm.mem_iff.mp hx) hu hwrites
    · have hreplay := replay_eq_fillSlabs hmatches hfits (hspec.distinct hfits)
        (hspec.inside hfits) hperm
      rw [hheap, fusible.counted_eq, ← hreplay, ← hmoves]
      apply settlesInTurn_replay
      rw [hmoves]
      exact isolated_transfers hmatches hperm

/-- Six elements by three items a row: two launches of one row each. -/
theorem fused_launches_sample : ∃ (layout : OutputLayout) (runs : List (List (List Move))),
    Launched ⟨2, 0, [⟨2, 3⟩, ⟨3, 1⟩], .u8⟩ layout 1 smallDevice 0 [[square], [column]] runs ∧
      SafeMoves ⟨2, 0, [⟨2, 3⟩, ⟨3, 1⟩], .u8⟩ [square, column] sampleHeap
        ⟨#[#[1, 2, 3, 4], #[5, 6], #[1, 2, 5, 3, 4, 6]]⟩ (runs.map List.flatten) := by
  have hbatches : inBatches (ConcatConfig.effectiveCapacity { batchCapacity := 1 })
      [square, column] = [[square], [column]] := by cbv
  have hmake : Plan.make sampleHeap { batchCapacity := 1 } (emptyAt 0) [square, column] 1 =
      .ok ⟨1, false, some ⟨[2, 3], .contiguous, .fused 2⟩⟩ := by cbv
  obtain ⟨m', layout, runs, hrun, -, hlaunched, hmoves⟩ := @fused_launches_safe _
    { batchCapacity := 1 } (emptyAt 0) [square, column] 1
    { heap := sampleHeap, device := smallDevice } _ [2, 3] .contiguous 2 hmake rfl (by decide) _ _
    resize_sample known_sample (smallDevice_healthy _)
  have hheap : m'.heap = ⟨#[#[1, 2, 3, 4], #[5, 6], #[1, 2, 5, 3, 4, 6]]⟩ := by
    have hconcat : (Accelerator.concatenate { batchCapacity := 1 } (emptyAt 0) [square, column] 1
        { heap := sampleHeap, device := smallDevice }).machine.heap =
          ⟨#[#[1, 2, 3, 4], #[5, 6], #[1, 2, 5, 3, 4, 6]]⟩ := by cbv
    rw [hrun] at hconcat
    exact hconcat
  rw [hbatches] at hlaunched
  exact ⟨layout, runs, hlaunched, hheap ▸ hmoves⟩

end TensorConcat
