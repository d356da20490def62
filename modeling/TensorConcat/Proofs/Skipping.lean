import TensorConcat.Proofs.Blame
import TensorConcat.Proofs.Splitting
import TensorConcat.SoftwareCasts

/-!
# Skipped inputs do not show

A skipped tensor changes which engine a list is given to, and the format when it comes first.
Everything else that a route looks at is read off the inputs that count: the type of the result,
the input that the others are held against, the extents and the places. So a list and the same
list with skipped tensors put in are turned away for the same rule, or are both joined to tensors
that read the same, or are both too large for a storage.
-/

namespace TensorConcat

/-- The second list is the first with skipped tensors put in. -/
inductive WithSkipped : List Tensor → List Tensor → Prop
  | nil : WithSkipped [] []
  | keep (t : Tensor) {xs ys : List Tensor} : WithSkipped xs ys → WithSkipped (t :: xs) (t :: ys)
  | put {t : Tensor} {xs ys : List Tensor} : t.isSkipped = true → WithSkipped xs ys →
      WithSkipped xs (t :: ys)

namespace WithSkipped
variable {xs ys : List Tensor}

/-- The same inputs count. -/
theorem counted_eq (inserted : WithSkipped xs ys) : counted ys = counted xs := by
  induction inserted with
  | nil => rfl
  | keep t _ ih => rw [counted_cons, counted_cons, ih]
  | put skipped _ ih => rw [counted_cons, if_pos skipped, ih]

theorem sublist (inserted : WithSkipped xs ys) : xs.Sublist ys := by
  induction inserted with
  | nil => exact .slnil
  | keep t _ ih => exact .cons_cons t ih
  | put _ _ ih => exact .cons _ ih

/-- Without a skipped tensor nothing has been put in. -/
theorem eq_of_none_skipped (inserted : WithSkipped xs ys)
    (none : ¬(ys.any (·.isSkipped)) = true) : ys = xs := by
  induction inserted with
  | nil => rfl
  | keep t _ ih =>
    rw [List.any_cons, Bool.or_eq_true, not_or] at none
    rw [ih none.2]
  | put skipped _ _ =>
    rw [List.any_cons, skipped] at none
    exact absurd rfl none

theorem launchesFor_le (inserted : WithSkipped xs ys) (route : Route) :
    route.launchesFor ys ≤ route.launches xs.length := by
  by_cases hskipped : (ys.any (·.isSkipped)) = true
  · rw [Route.launchesFor, if_pos hskipped]
    exact Nat.zero_le _
  · rw [inserted.eq_of_none_skipped hskipped]
    exact route.launchesFor_le xs

theorem resultType_iff (inserted : WithSkipped xs ys) (counts : counted xs ≠ []) {dtype : DType} :
    Backend.resultType ys = .ok dtype ↔ Backend.resultType xs = .ok dtype := by
  have countsToo : counted ys ≠ [] := by rwa [inserted.counted_eq]
  rw [resultType_eq_ok_iff counts, resultType_eq_ok_iff countsToo, inserted.counted_eq]

/-- The lists conform alike. Only the format may be another. -/
theorem exists_conform (inserted : WithSkipped xs ys) {dim : Int} {axis : Nat} {shape : List Nat}
    {f : MemoryFormat} (conform : Conform xs dim axis shape f) :
    ∃ g, Conform ys dim axis shape g := by
  have hcounted := inserted.counted_eq
  have fit : ∀ t ∈ counted ys, t.FitsShape shape axis := by
    rw [hcounted]
    exact conform.fit
  exact TensorConcat.exists_conform (by rw [hcounted]; exact conform.counts) conform.dim_eq
    conform.axis_lt fit (by rw [hcounted]; exact conform.total)

end WithSkipped

/-- The rule that an answer names as broken. -/
def ruleNamed {α : Type} (answer : Except Failure α) : Option ViolationCode :=
  match answer with
  | .error (.backend e) => e.code?
  | _ => none

theorem ruleNamed_map {α β : Type} (f : α → β) (answer : Except Failure α) :
    ruleNamed (answer.map f) = ruleNamed answer := by
  cases answer with
  | ok a => rfl
  | error e =>
    cases e with
    | backend e => rfl
    | view e => rfl
    | fault e => rfl

/-- The input that a route holds the others against. -/
def Route.reference? (route : Route) (inputs : List Tensor) : Option Tensor :=
  match route with
  | .reference => (counted inputs).head?
  | .accelerator _ => (counted inputs).getLast?

section Rules
variable {route : Route} {out r : Tensor} {inputs xs ys : List Tensor} {dim : Int} {m : Machine}
  {h : Heap} {dtype : DType}

theorem Route.exists_reference? (counts : counted inputs ≠ []) (route : Route) :
    ∃ r, route.reference? inputs = some r := by
  cases route with
  | reference => exact ⟨_, List.head?_eq_some_head counts⟩
  | accelerator config => exact ⟨_, List.getLast?_eq_some_getLast counts⟩

/-- A route names the rule that the request breaks against the input it looks at. -/
theorem Route.broken_catInto [FloatCasts] (hr : route.reference? inputs = some r) :
    (route.backend.catInto out inputs dim m).broken = ruleBroken m.heap out inputs dim r := by
  cases route with
  | reference =>
    change (Reference.concatenate out inputs dim m).broken = _
    rw [Reference.broken_concatenate]
    exact Reference.broken_eq hr
  | accelerator config =>
    change ruleNamed ((Accelerator.concatenate config out inputs dim m).result.map _) = _
    rw [ruleNamed_map]
    change (Accelerator.concatenate config out inputs dim m).broken = _
    rw [Accelerator.broken_concatenate]
    exact Plan.broken_eq hr

/-- Of a request for a new tensor only the axis and the extents can be wrong. -/
theorem ruleBroken_fresh (hdtype : Backend.resultType inputs = .ok dtype) :
    ruleBroken h.withEmpty (.fresh dtype h) inputs dim r =
      match checkAxis r.rank dim with
      | .error o => some o.code
      | .ok axis =>
        if (counted inputs).all fun t => Reference.agree axis r.dims t.dims then none
        else some .shapeMismatch := by
  rw [ruleBroken, checkOutput_fresh hdtype]
  cases checkAxis r.rank dim with
  | error o => rfl
  | ok axis =>
    dsimp only [targetLike]
    rw [checkTarget_fresh]

theorem Backend.ruleNamed_cat (hdtype : Backend.resultType inputs = .ok dtype) (b : Backend) :
    ruleNamed (b.cat inputs dim m).1 =
      (b.catInto (.fresh dtype m.heap) inputs dim (m.withHeap m.heap.withEmpty)).broken := by
  rw [Backend.cat_eq hdtype]
  exact ruleNamed_map _ _

variable [FloatCasts]

theorem Route.ruleNamed_cat (hdtype : Backend.resultType inputs = .ok dtype)
    (hr : route.reference? inputs = some r) :
    ruleNamed (route.backend.cat inputs dim m).1 =
      ruleBroken m.heap.withEmpty (.fresh dtype m.heap) inputs dim r := by
  rw [Backend.ruleNamed_cat hdtype]
  exact Route.broken_catInto hr

/-- The same rule is named with and without skipped tensors. -/
theorem WithSkipped.ruleNamed_cat (inserted : WithSkipped xs ys) (counts : counted xs ≠ [])
    (route : Route) (dim : Int) (m : Machine) :
    ruleNamed (route.backend.cat ys dim m).1 = ruleNamed (route.backend.cat xs dim m).1 := by
  have hcounted := inserted.counted_eq
  obtain ⟨dtype, hdtype⟩ := exists_resultType counts
  obtain ⟨r, hr⟩ := route.exists_reference? counts
  have hdtypeToo := (inserted.resultType_iff counts).mpr hdtype
  have hrToo : route.reference? ys = some r := by
    rw [← hr]
    unfold Route.reference?
    rw [hcounted]
  rw [Route.ruleNamed_cat hdtype hr, Route.ruleNamed_cat hdtypeToo hrToo, ruleBroken_fresh hdtype,
    ruleBroken_fresh hdtypeToo, hcounted]

/-- Inputs of which no rule is named conform. -/
theorem Route.conform_of_ruleNamed (counts : counted inputs ≠ [])
    (hnone : ruleNamed (route.backend.cat inputs dim m).1 = none) :
    ∃ axis shape f, Conform inputs dim axis shape f := by
  obtain ⟨dtype, hdtype⟩ := exists_resultType counts
  obtain ⟨r, hr⟩ := route.exists_reference? counts
  rw [Route.ruleNamed_cat hdtype hr, ruleBroken_fresh hdtype] at hnone
  cases haxis : checkAxis r.rank dim with
  | error o =>
    rw [haxis] at hnone
    exact absurd hnone (by simp)
  | ok axis =>
    rw [haxis] at hnone
    have hdim := checkAxis_eq_ok.mp haxis
    rw [rank_eq] at hdim
    by_cases hagree : ((counted inputs).all fun t => Reference.agree axis r.dims t.dims) = true
    · have fit := all_agree_iff.mp hagree
      have hlt : axis < (r.dims.set axis (totalExtent axis (counted inputs))).length := by
        rw [List.length_set]
        exact hdim.2
      have htotal := @getD_set r.dims axis axis (totalExtent axis (counted inputs)) hdim.2
      rw [if_pos rfl] at htotal
      exact ⟨axis, _, exists_conform counts hdim.1 hlt (fun t ht => (fit t ht).set _) htotal⟩
    · simp only [if_neg hagree] at hnone
      exact absurd hnone (by simp)

end Rules

section Joined
variable {route : Route} {inputs xs ys : List Tensor} {dim : Int} {m : Machine} {axis : Nat}
  {shape : List Nat} {f : MemoryFormat} {dtype : DType} [FloatCasts]

theorem Route.catInto_refused {out : Tensor} {e : Failure} (route : Route)
    (joinable : Joinable m.heap out inputs dim axis shape f)
    (he : out.resize shape f m.heap = .error e) :
    (route.backend.catInto out inputs dim m).result = .error e := by
  cases route with
  | reference =>
    change (Reference.concatenate out inputs dim m).result = _
    rw [Reference.concatenate_refused joinable he]
  | accelerator config =>
    change (Accelerator.concatenate config out inputs dim m).result.map _ = _
    rw [Accelerator.concatenate_refused_eq joinable he]
    rfl

/-- A result that is too large for a storage stops the call. -/
theorem Route.cat_oversized (route : Route) (conform : Conform inputs dim axis shape f)
    (hdtype : Backend.resultType inputs = .ok dtype)
    (large : storageLimit < volume shape * dtype.size) :
    (route.backend.cat inputs dim m).1 = .error (.fault .storageTooLarge) := by
  have joinable := conform.joinable_fresh hdtype m.heap
  have hgrows : (Tensor.fresh dtype m.heap).Outgrows shape m.heap.withEmpty :=
    outgrows_fresh_iff.mpr large
  have hresize := Tensor.resize_outgrows joinable.shape_ne_nil hgrows f
  have hrefused := route.catInto_refused (m := m.withHeap m.heap.withEmpty) joinable hresize
  rw [Backend.cat_eq hdtype]
  dsimp only
  rw [hrefused]
  rfl

/-- With and without skipped tensors the results read the same. -/
theorem WithSkipped.cat_sameReading (inserted : WithSkipped xs ys) (route : Route)
    (concatenable : Concatenable xs dim axis shape f dtype) (pos : 0 < volume shape)
    (known : ∀ u ∈ ys, u.storage < m.heap.storages.size)
    (ready : route.Ready (route.launches xs.length) m.device) :
    ∃ t k u l, route.backend.cat xs dim m = (.ok t, k) ∧ route.backend.cat ys dim m = (.ok u, l) ∧
      t.dims = shape ∧ t.dtype = dtype ∧ t.SameReading k.heap u l.heap := by
  obtain ⟨g, conformToo⟩ := inserted.exists_conform concatenable.toConform
  have concatenableToo : Concatenable ys dim axis shape g dtype :=
    ⟨conformToo, (inserted.resultType_iff concatenable.counts).mpr concatenable.typed,
      concatenable.holds⟩
  have readyRight : route.Ready (route.launchesFor ys + 0) m.device :=
    ready.mono (inserted.launchesFor_le route)
  have readyLeft : route.Ready (route.launches xs.length + 0) m.device := ready
  have knownLeft (u : Tensor) (hu : u ∈ xs) := known u (inserted.sublist.mem hu)
  obtain ⟨t, k, ht, rfl, htdims, hleft, -⟩ :=
    route.cat_concatenable concatenable pos knownLeft readyLeft
  obtain ⟨u, l, hu, hdtype, hudims, hright, -⟩ :=
    route.cat_joins concatenableToo pos known readyRight
  have hdims : t.dims = u.dims := htdims.trans hudims.symm
  have hreading : t.SameReading k.heap u l.heap := by
    apply Tensor.SameReading.of_elements hdtype.symm hdims hleft.holds
    intro c hc
    have hvalues := hright.values c (hdims ▸ hc)
    rw [inserted.counted_eq] at hvalues
    exact (hleft.values c hc).agree hvalues hdtype.symm
  exact ⟨t, k, u, l, ht, hu, htdims, rfl, hreading⟩

end Joined

/-- On either route, skipped tensors put into a list of which an input counts do not show. Both
lists are turned away, for the same rule; or both could be joined to one shape and one type. If a
storage can hold that, if it has an element and the device is in order, both are, and the results
read the same. If no storage can, though a word can count its bytes, both stop, and in words the
shape and its bytes are the same. -/
theorem cat_ignores_skipped [FloatCasts] (route : Route) (m : Machine) {xs ys : List Tensor}
    (dim : Int) (inserted : WithSkipped xs ys) (counts : counted xs ≠ [])
    (known : ∀ u ∈ ys, u.storage < m.heap.storages.size) :
    (∃ code, ruleNamed (route.backend.cat xs dim m).1 = some code ∧
      ruleNamed (route.backend.cat ys dim m).1 = some code) ∨
    ∃ axis shape f dtype, Conform xs dim axis shape f ∧ Backend.resultType xs = .ok dtype ∧
      (volume shape * dtype.size ≤ storageLimit → 0 < volume shape →
        route.Ready (route.launches xs.length) m.device →
        ∃ t k u l, route.backend.cat xs dim m = (.ok t, k) ∧
          route.backend.cat ys dim m = (.ok u, l) ∧ t.dims = shape ∧ t.dtype = dtype ∧
          t.SameReading k.heap u l.heap) ∧
      (storageLimit < volume shape * dtype.size → volume shape * dtype.size ≤ wordMax →
        sumInWords ((counted xs).map (·.extentAt axis)) = shape.getD axis 0 ∧
        (Tensor.fresh dtype m.heap).bytesForInWords shape = volume shape * dtype.size ∧
        (route.backend.cat xs dim m).1 = .error (.fault .storageTooLarge) ∧
        (route.backend.cat ys dim m).1 = .error (.fault .storageTooLarge)) := by
  cases hrule : ruleNamed (route.backend.cat xs dim m).1 with
  | some code => exact .inl ⟨code, rfl, (inserted.ruleNamed_cat counts route dim m).trans hrule⟩
  | none =>
    obtain ⟨axis, shape, f, conform⟩ := Route.conform_of_ruleNamed counts hrule
    obtain ⟨dtype, hdtype⟩ := exists_resultType counts
    refine .inr ⟨axis, shape, f, dtype, conform, hdtype, ?_, ?_⟩
    · intro holds pos ready
      exact inserted.cat_sameReading route ⟨conform, hdtype, holds⟩ pos known ready
    · intro large words
      obtain ⟨g, conformToo⟩ := inserted.exists_conform conform
      rw [← bytesFor_fresh dtype m.heap] at words ⊢
      refine ⟨conform.sumInWords_eq ?_ ((Tensor.volume_le_bytesFor _ _).trans words),
        Tensor.bytesForInWords_of_le words, route.cat_oversized conform hdtype large,
        route.cat_oversized conformToo ((inserted.resultType_iff counts).mpr hdtype) large⟩
      exact Nat.pos_of_mul_pos_right (Nat.zero_lt_of_lt large)

section Sample

/-- A tensor that is skipped, of a type to which nothing else is converted. -/
def skippedDouble : Tensor := ⟨1, 0, [⟨0, 1⟩], .f64⟩

/-- A square between skipped tensors is joined as it is alone. -/
theorem cat_ignores_skipped_square :
    WithSkipped [square] [skippedDouble, square, skippedDouble] ∧
      ∀ route ∈ [Route.reference, Route.accelerator {}],
        ∃ t k u l, route.backend.cat [square] 1 sampleMachine = (.ok t, k) ∧
          route.backend.cat [skippedDouble, square, skippedDouble] 1 sampleMachine = (.ok u, l) ∧
          t.dims = [2, 2] ∧ t.dtype = .u8 ∧ t.SameReading k.heap u l.heap := by
  have inserted : WithSkipped [square] [skippedDouble, square, skippedDouble] :=
    .put rfl (.keep square (.put rfl .nil))
  have counts : square ∈ counted [square] := by decide
  refine ⟨inserted, fun route hroute => ?_⟩
  have hnone : ruleNamed (route.backend.cat [square] 1 sampleMachine).1 = none := by
    rcases List.mem_pair.mp hroute with rfl | rfl
    · cbv
    · cbv
  have hready : route.Ready (route.launches [square].length) sampleMachine.device := by
    cases route with
    | reference => trivial
    | accelerator config => exact smallDevice_healthy _
  cases cat_ignores_skipped route sampleMachine 1 inserted (List.ne_nil_of_mem counts)
    (by decide) with
  | inl hrule =>
    obtain ⟨code, hcode, -⟩ := hrule
    exact absurd (hnone.symm.trans hcode) (by simp)
  | inr hjoined =>
    obtain ⟨axis, shape, f, dtype, conform, hdtype, hreading, -⟩ := hjoined
    obtain rfl : axis = 1 := Int.ofNat.inj conform.dim_eq.symm
    obtain rfl := conform.shape_eq counts
    obtain rfl : dtype = .u8 := Except.ok.inj (hdtype.symm.trans (by decide))
    exact hreading (by decide) (by decide) hready

/-- An input that is too large for a storage stops the call, alone and behind a skipped tensor: it
neither names a rule nor succeeds. -/
theorem oversized_input_stops_both :
    WithSkipped [repeated] [skippedDouble, repeated] ∧ counted [repeated] = [repeated] ∧
      0 < repeated.numel ∧ (∀ n, smallDevice.Healthy n) ∧
      ∀ route ∈ [Route.reference, Route.accelerator {}],
        ∀ inputs ∈ [[repeated], [skippedDouble, repeated]],
          (route.backend.cat inputs 0 { heap := ⟨#[#[7], #[]]⟩, device := smallDevice }).1 =
            .error (.fault .storageTooLarge) := by
  refine ⟨.put rfl (.keep repeated .nil), by decide, by decide, smallDevice_healthy, ?_⟩
  intro route hroute inputs hinputs
  rcases List.mem_pair.mp hroute with rfl | rfl
  · rcases List.mem_pair.mp hinputs with rfl | rfl
    · cbv
    · cbv
  · rcases List.mem_pair.mp hinputs with rfl | rfl
    · cbv
    · cbv

end Sample

end TensorConcat
