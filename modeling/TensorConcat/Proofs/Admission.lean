import TensorConcat.Proofs.Aliasing
import TensorConcat.Proofs.Containment
import TensorConcat.Proofs.Promotion
import TensorConcat.Proofs.RequestsInWords

/-!
# Which requests are well formed

The planner holds every input against one of them, folds their types before it looks at
the output's, and takes the format from whichever input comes first. What it accepts can
be said without a reference, without a fold and almost without an order: each input that
counts can be stored, any two of them agree off the axis, and no input is known to share
bytes with the output, as it is and as it is about to become.

The order of the inputs shows only in the format of what the output is about to become.
The bytes that a dense view spans do not depend on the format, so a rearranged list is
accepted as well, with the same shape.
-/

namespace TensorConcat

theorem checkTypes_iff {out : Tensor} {inputs : List Tensor} :
    checkTypes out inputs = .ok () ↔
      ∀ t ∈ counted inputs, t.dtype.category.level ≤ out.dtype.category.level := by
  unfold checkTypes
  rw [commonType?_eq]
  cases hcommon : DType.common? ((counted inputs).map (·.dtype)) with
  | none =>
    have hnone : counted inputs = [] :=
      List.map_eq_nil_iff.mp (DType.common?_eq_none_iff.mp hcommon)
    simp [hnone]
  | some d =>
    have hcast := @DType.canCast_common d out.dtype _ hcommon
    simp only [List.forall_mem_map, DType.canCast, decide_eq_true_eq] at hcast
    simp [← hcast, DType.canCast]

namespace Tensor

/-- The views are known to share bytes. -/
def Overlapping (t u : Tensor) : Prop := t.overlap u = .full ∨ t.overlap u = .partially

/-- As many axes, and the same extent on each of them but one. -/
def AlikeOff (t u : Tensor) (axis : Nat) : Prop :=
  t.rank = u.rank ∧ ∀ i < u.rank, i ≠ axis → u.dims[i]? = t.dims[i]?

theorem surelyOverlaps_iff {t u : Tensor} : t.surelyOverlaps u = false ↔ ¬t.Overlapping u := by
  unfold surelyOverlaps Overlapping
  cases t.overlap u with
  | full => simp
  | partially => simp
  | no => simp
  | tooHard => simp

theorem fitsShape_iff {t u : Tensor} {axis : Nat} :
    t.FitsShape u.dims axis ↔ t.AlikeOff u axis := by
  unfold AlikeOff
  rw [rank_eq, rank_eq]
  exact eq_set_iff

/-- No axis of several elements of a dense view stands still. -/
theorem stride_pos_of_isDense {t : Tensor} (dense : t.isDense = true) (pos : t.numel ≠ 0)
    {a : Axis} (ha : a ∈ t.axes) (several : 1 < a.extent) : 0 < a.stride := by
  apply Nat.pos_of_ne_zero
  intro still
  obtain ⟨c, e, hc, he, hne, hsame⟩ :=
    Axis.exists_repeated (Nat.pos_of_ne_zero pos) ha several still
  exact hne (distinct_of_isDense dense c e hc he hsame)

end Tensor

theorem checkDisjoint_eq_ok {t : Tensor} {inputs : List Tensor} :
    checkDisjoint t inputs = .ok () ↔ ∀ u ∈ inputs, ¬t.Overlapping u := by
  rw [Tensor.checkDisjoint_iff]
  simp only [Tensor.surelyOverlaps_iff]

theorem checkDistinct_iff {out : Tensor} :
    checkDistinct out = .ok () ↔
      (out.numel ≠ 0 → ∀ a ∈ out.axes, 1 < a.extent → a.stride ≠ 0) := by
  unfold checkDistinct Tensor.internalOverlap
  cases hdense : out.isDense with
  | true =>
    constructor
    · intro _ pos a ha several
      exact (Tensor.stride_pos_of_isDense hdense pos ha several).ne'
    · intro _
      rfl
  | false =>
    have pos : out.numel ≠ 0 := by
      intro hzero
      rw [Tensor.isDense, hzero] at hdense
      exact absurd hdense (by simp)
    simp only [Bool.false_eq_true, if_false]
    by_cases hstill : out.axes.any fun a => 1 < a.extent && a.stride == 0
    · rw [if_pos hstill, if_pos rfl]
      simp only [List.any_eq_true, Bool.and_eq_true, decide_eq_true_eq, beq_iff_eq] at hstill
      constructor
      · intro hok
        exact absurd hok (by simp)
      · intro hmoves
        cases hstill with
        | intro a ha => exact absurd ha.2.2 (hmoves pos a ha.1 ha.2.1)
    · rw [if_neg hstill, if_neg (by simp)]
      simp only [List.any_eq_true, Bool.and_eq_true, decide_eq_true_eq, beq_iff_eq] at hstill
      constructor
      · intro _ _ a ha several still
        exact hstill ⟨a, ha, several, still⟩
      · intro _
        rfl

/-- Inputs that can be joined along an axis, into what the output is about to become. -/
structure JoinsAlong (h : Heap) (out : Tensor) (inputs : List Tensor) (axis : Nat) : Prop where
  has_axis : ∀ t ∈ counted inputs, axis < t.rank
  alike : ∀ t ∈ counted inputs, ∀ u ∈ counted inputs, t.AlikeOff u axis
  target_apart : ∀ first t target, inputs.head? = some first → t ∈ counted inputs →
    out.target? (t.dims.set axis (totalExtent axis (counted inputs))) first.suggestedFormat h =
      some target → ∀ u ∈ inputs, ¬target.Overlapping u

/-- A well-formed request. -/
structure WellFormed (h : Heap) (out : Tensor) (inputs : List Tensor) (dim : Int) : Prop where
  nonempty : inputs ≠ []
  castable : ∀ t ∈ counted inputs, t.dtype.category.level ≤ out.dtype.category.level
  apart : ∀ t ∈ inputs, ¬out.Overlapping t
  distinct : out.numel ≠ 0 → ∀ a ∈ out.axes, 1 < a.extent → a.stride ≠ 0
  joins : counted inputs = [] ∨ ∃ axis : Nat, dim = axis ∧ JoinsAlong h out inputs axis

/-- The extents that all inputs that count have off the axis, and their sum along it. -/
structure JoinedShape (inputs : List Tensor) (axis : Nat) (shape : List Nat) : Prop where
  rank : ∀ t ∈ counted inputs, t.rank = shape.length
  common : ∀ t ∈ counted inputs, ∀ i < shape.length, i ≠ axis → shape[i]? = t.dims[i]?
  total : shape[axis]? = some ((counted inputs).map (·.extentAt axis)).sum

section Requests
variable {h : Heap} {config : ConcatConfig} {out : Tensor} {inputs : List Tensor} {dim : Int}
  {axis : Nat} {shape : List Nat} {f : MemoryFormat}

theorem checkOutput_iff : checkOutput out inputs = .ok () ↔
    (∀ t ∈ counted inputs, t.dtype.category.level ≤ out.dtype.category.level) ∧
    (∀ t ∈ inputs, ¬out.Overlapping t) ∧
    (out.numel ≠ 0 → ∀ a ∈ out.axes, 1 < a.extent → a.stride ≠ 0) := by
  unfold checkOutput
  simp only [checked_bind, Unique.exists_iff, PUnit.default_eq_unit]
  rw [checkTypes_iff, checkDisjoint_eq_ok, checkDistinct_iff]

theorem checkTarget_iff {target : Option Tensor} : checkTarget target inputs = .ok () ↔
    ∀ t, target = some t → ∀ u ∈ inputs, ¬t.Overlapping u := by
  cases target with
  | none => simp [checkTarget]
  | some t => simp [checkTarget, checkDisjoint_eq_ok]

theorem Conform.joinedShape (conform : Conform inputs dim axis shape f) :
    JoinedShape inputs axis shape where
  rank t ht := by
    rw [rank_eq]
    exact (conform.fit t ht).length_eq
  common t ht i hi hne := (eq_set_iff.mp (conform.fit t ht)).2 i hi hne
  total := by
    rw [List.getElem?_eq_getElem conform.axis_lt, ← List.getD_eq_getElem _ 0 conform.axis_lt,
      conform.total]
    rfl

theorem Joinable.joinsAlong (joinable : Joinable h out inputs dim axis shape f) :
    JoinsAlong h out inputs axis where
  has_axis t ht := by
    rw [rank_eq]
    exact joinable.axis_lt_dims ht
  alike t ht u hu := Tensor.fitsShape_iff.mp ((joinable.fit t ht).trans (joinable.fit u hu))
  target_apart first t target hfirst ht htarget := by
    have hformat := joinable.format
    rw [hfirst, Option.map_some, Option.some.injEq] at hformat
    rw [← joinable.shape_eq ht, hformat] at htarget
    exact checkTarget_iff.mp joinable.target target htarget

theorem JoinsAlong.joinable (joins : JoinsAlong h out inputs axis)
    (checked : checkOutput out inputs = .ok ()) {t : Tensor} (ht : t ∈ counted inputs)
    {first : Tensor} (hfirst : inputs.head? = some first) :
    Joinable h out inputs axis axis (t.dims.set axis (totalExtent axis (counted inputs)))
      first.suggestedFormat := by
  have htarget := checkTarget_iff.mpr fun target heq =>
    joins.target_apart first t target hfirst ht heq
  have haxis : axis < t.dims.length := by
    rw [← rank_eq]
    exact joins.has_axis t ht
  have hfit : ∀ u ∈ counted inputs, u.FitsShape t.dims axis := fun u hu =>
    Tensor.fitsShape_iff.mpr (joins.alike u hu t ht)
  exact .of_member checked ht rfl haxis hfit (by rw [hfirst]; rfl) htarget

namespace Plan

theorem wellFormed_of_make {p : Plan} (accepted : make h config out inputs dim = .ok p) :
    WellFormed h out inputs dim := by
  have hcases := make_ok accepted
  have hnonempty : inputs ≠ [] := by
    intro hnil
    rw [hnil] at accepted
    exact absurd accepted (by simp [make])
  cases hfilling : p.filling with
  | none =>
    have hidle := hcases.1 hfilling
    have hchecked := checkOutput_iff.mp hidle.checked
    exact ⟨hnonempty, hchecked.1, hchecked.2.1, hchecked.2.2, .inl hidle.none_counts⟩
  | some filling =>
    have hjoinable := (hcases.2 filling hfilling).1
    have hchecked := checkOutput_iff.mp hjoinable.checked
    exact ⟨hnonempty, hchecked.1, hchecked.2.1, hchecked.2.2,
      .inr ⟨p.axis, hjoinable.dim_eq, hjoinable.joinsAlong⟩⟩

theorem make_of_wellFormed (wellFormed : WellFormed h out inputs dim) :
    ∃ p, make h config out inputs dim = .ok p := by
  have hchecked : checkOutput out inputs = .ok () :=
    checkOutput_iff.mpr ⟨wellFormed.castable, wellFormed.apart, wellFormed.distinct⟩
  cases hcounted : counted inputs with
  | nil =>
    have hidle : Idle out inputs := ⟨wellFormed.nonempty, hchecked, hcounted⟩
    exact ⟨_, make_of_idle hidle h dim⟩
  | cons t ts =>
    have ht : t ∈ counted inputs := by simp [hcounted]
    cases wellFormed.joins with
    | inl hnone => exact absurd ht (by simp [hnone])
    | inr hjoins =>
      obtain ⟨axis, rfl, joins⟩ := hjoins
      have hhead := List.head?_eq_some_head wellFormed.nonempty
      exact ⟨_, make_of_joinable (joins.joinable hchecked ht hhead)⟩

theorem exists_make_iff :
    (∃ p, make h config out inputs dim = .ok p) ↔ WellFormed h out inputs dim := by
  constructor
  · intro hok
    cases hok with
    | intro p accepted => exact wellFormed_of_make accepted
  · exact make_of_wellFormed

/-- What an accepted request with an input that counts leads to. -/
theorem exists_filling (counts : counted inputs ≠ []) {p : Plan}
    (accepted : make h config out inputs dim = .ok p) :
    ∃ filling, p.filling = some filling ∧ dim = p.axis ∧
      JoinedShape inputs p.axis filling.shape := by
  have hcases := make_ok accepted
  cases hfilling : p.filling with
  | none => exact absurd (hcases.1 hfilling).none_counts counts
  | some filling =>
    have hjoinable := (hcases.2 filling hfilling).1
    exact ⟨filling, rfl, hjoinable.dim_eq, hjoinable.toConform.joinedShape⟩

end Plan

/-- The shape is determined as soon as an input counts. -/
theorem JoinedShape.unique {other : List Nat} (joined : JoinedShape inputs axis shape)
    (joinedToo : JoinedShape inputs axis other) (counts : counted inputs ≠ []) : shape = other := by
  obtain ⟨t, ht⟩ := List.exists_mem_of_ne_nil _ counts
  have hlength : shape.length = other.length := (joined.rank t ht).symm.trans (joinedToo.rank t ht)
  apply List.ext_getElem?
  intro i
  by_cases haxis : i = axis
  · rw [haxis, joined.total, joinedToo.total]
  · by_cases hi : i < shape.length
    · rw [joined.common t ht i hi haxis, joinedToo.common t ht i (hlength ▸ hi) haxis]
    · rw [List.getElem?_eq_none (by omega), List.getElem?_eq_none (by omega)]

end Requests

section Order
variable {h : Heap} {out : Tensor} {inputs others : List Tensor} {dim : Int} {axis : Nat}
  {dims shape : List Nat} {f g : MemoryFormat}

/-- The bytes that a target spans do not depend on its format. -/
theorem Tensor.Resized.byteRange_eq {t : Tensor} {k : Heap} (r : Resized out dims f h t k)
    (pos : 0 < t.numel) (fits : t.numel ≤ wordMax) :
    t.byteRange = (out.start, out.start + volume dims * out.elementSize) := by
  have solid : t.Solid := ⟨pos, (r.packedIn pos fits).isDense⟩
  rw [solid.byteRange_eq, r.numel_eq, start, elementSize, r.offset, r.dtype, start, elementSize]

theorem overlap_target {t u v : Tensor} (bounded : h.Bounded) (nonempty : dims ≠ [])
    (ht : out.target? dims f h = some t) (hu : out.target? dims g h = some u) :
    t.overlap v = u.overlap v := by
  have hresized := Tensor.resize_spec (Tensor.resize_of_target nonempty ht)
  have hresizedToo := Tensor.resize_spec (Tensor.resize_of_target nonempty hu)
  have hnumel : t.numel = u.numel := hresized.numel_eq.trans hresizedToo.numel_eq.symm
  have hfits := hresized.numel_le bounded
  have hstorage : t.storage = u.storage :=
    (Tensor.storage_of_target ht).trans (Tensor.storage_of_target hu).symm
  unfold Tensor.overlap
  by_cases hempty : u.numel = 0
  · rw [if_pos (.inl (hnumel.trans hempty)), if_pos (.inl hempty)]
  · have hpos := Nat.pos_of_ne_zero hempty
    rw [(hresized.packedIn (hnumel ▸ hpos) hfits).isDense,
      (hresizedToo.packedIn hpos (hnumel ▸ hfits)).isDense, hnumel, hstorage,
      hresized.byteRange_eq (hnumel ▸ hpos) hfits, hresizedToo.byteRange_eq hpos (hnumel ▸ hfits)]

theorem target_format {t : Tensor} (ht : out.target? dims f h = some t) (g : MemoryFormat) :
    ∃ u, out.target? dims g h = some u := by
  unfold Tensor.target? at ht ⊢
  split at ht
  · exact absurd ht (by simp)
  · rename_i hroom
    rw [if_neg hroom]
    exact ⟨_, rfl⟩

theorem counted_perm (perm : inputs.Perm others) : (counted inputs).Perm (counted others) :=
  perm.filter _

theorem totalExtent_perm (perm : inputs.Perm others) :
    totalExtent axis inputs = totalExtent axis others := (perm.map _).sum_nat

theorem JoinedShape.perm (joined : JoinedShape inputs axis shape) (perm : inputs.Perm others) :
    JoinedShape others axis shape where
  rank t ht := joined.rank t ((counted_perm perm).mem_iff.mpr ht)
  common t ht := joined.common t ((counted_perm perm).mem_iff.mpr ht)
  total := by
    rw [joined.total]
    exact congrArg some (totalExtent_perm (counted_perm perm))

theorem JoinsAlong.perm (joins : JoinsAlong h out inputs axis) (bounded : h.Bounded)
    (perm : inputs.Perm others) : JoinsAlong h out others axis where
  has_axis t ht := joins.has_axis t ((counted_perm perm).mem_iff.mpr ht)
  alike t ht u hu := joins.alike t ((counted_perm perm).mem_iff.mpr ht) u
    ((counted_perm perm).mem_iff.mpr hu)
  target_apart first t target _ ht htarget u hu := by
    have ht := (counted_perm perm).mem_iff.mpr ht
    have hu := perm.mem_iff.mpr hu
    have hhead := List.head?_eq_some_head (List.ne_nil_of_mem hu)
    have hnonempty : t.dims.set axis (totalExtent axis (counted inputs)) ≠ [] := by
      intro hnil
      have hlt := joins.has_axis t ht
      rw [rank_eq, ← List.length_set (i := axis), hnil] at hlt
      exact absurd hlt (Nat.not_lt_zero axis)
    -- The first input of the other list may be laid out in another format.
    rw [← totalExtent_perm (counted_perm perm)] at htarget
    obtain ⟨target', htarget'⟩ := target_format htarget (inputs.head _).suggestedFormat
    have hapart := joins.target_apart _ t target' hhead ht htarget' u hu
    rw [Tensor.Overlapping, overlap_target bounded hnonempty htarget htarget']
    exact hapart

theorem WellFormed.perm (wellFormed : WellFormed h out inputs dim) (bounded : h.Bounded)
    (perm : inputs.Perm others) : WellFormed h out others dim where
  nonempty := by
    intro hnil
    rw [hnil, List.perm_nil] at perm
    exact wellFormed.nonempty perm
  castable t ht := wellFormed.castable t ((counted_perm perm).mem_iff.mpr ht)
  apart t ht := wellFormed.apart t (perm.mem_iff.mpr ht)
  distinct := wellFormed.distinct
  joins := by
    cases wellFormed.joins with
    | inl hnone =>
      have hperm := counted_perm perm
      rw [hnone, List.nil_perm] at hperm
      exact .inl hperm
    | inr hjoins =>
      cases hjoins with
      | intro axis hjoins => exact .inr ⟨axis, hjoins.1, hjoins.2.perm bounded perm⟩

end Order

namespace Plan

theorem make_perm {h : Heap} {config : ConcatConfig} {out : Tensor} {inputs others : List Tensor}
    {dim : Int} (perm : inputs.Perm others) {p q : Plan}
    (hp : make h config out inputs dim = .ok p) (hq : make h config out others dim = .ok q) :
    q.filling.map (·.shape) = p.filling.map (·.shape) := by
  by_cases counts : counted inputs = []
  · have hcountsToo := counted_perm perm
    rw [counts, List.nil_perm] at hcountsToo
    have hidle (l : List Tensor) (r : Plan) (hr : make h config out l dim = .ok r)
        (hnone : counted l = []) : r.filling = none := by
      cases hfilling : r.filling with
      | none => rfl
      | some filling => exact absurd hnone ((make_ok hr).2 filling hfilling).1.counts
    rw [hidle _ _ hp counts, hidle _ _ hq hcountsToo]
  · have hcountsToo : counted others ≠ [] := by
      intro hnil
      have hperm := counted_perm perm
      rw [hnil, List.perm_nil] at hperm
      exact counts hperm
    obtain ⟨filling, hfilling, hdim, hjoined⟩ := exists_filling counts hp
    obtain ⟨filling', hfilling', hdim', hjoined'⟩ := exists_filling hcountsToo hq
    have haxis : p.axis = q.axis := by
      rw [hdim] at hdim'
      exact Int.ofNat.inj hdim'
    rw [hfilling, hfilling', Option.map_some, Option.map_some]
    rw [← haxis] at hjoined'
    exact congrArg some (hjoined'.unique (hjoined.perm perm) hcountsToo)

/-- Of the requests whose sizes are words, the planner accepts just the well-formed ones, whatever
the settings. What it plans has the extents of the inputs off the axis and their sum along it, and
the order in which the inputs are listed has no part in either. Nothing that it works out on the
way is too large for a word. -/
theorem accepts_well_formed (h : Heap) (config : ConcatConfig) (out : Tensor)
    (inputs : List Tensor) (dim : Int) (sized : SizedInWords out inputs dim) :
    ExactInWords h out inputs dim ∧
    ((∃ p, make h config out inputs dim = .ok p) ↔ WellFormed h out inputs dim) ∧
    (∀ p, make h config out inputs dim = .ok p → counted inputs ≠ [] →
      ∃ filling, p.filling = some filling ∧ dim = p.axis ∧
        JoinedShape inputs p.axis filling.shape) ∧
    (h.Bounded → ∀ others, inputs.Perm others →
      ((∃ q, make h config out others dim = .ok q) ↔
        ∃ p, make h config out inputs dim = .ok p) ∧
      ∀ p q, make h config out inputs dim = .ok p → make h config out others dim = .ok q →
        q.filling.map (·.shape) = p.filling.map (·.shape)) := by
  refine ⟨sized.exactInWords h, exists_make_iff, ?planned, ?reordered⟩
  case planned =>
    intro p accepted counts
    exact exists_filling counts accepted
  case reordered =>
    intro bounded others perm
    constructor
    · rw [exists_make_iff, exists_make_iff]
      constructor
      · intro wellFormed
        exact wellFormed.perm bounded perm.symm
      · intro wellFormed
        exact wellFormed.perm bounded perm
    · intro p q hp hq
      exact make_perm perm hp hq

/-- The two inputs are accepted in either order. -/
theorem accepts_well_formed_sample : sampleHeap.Bounded ∧
    SizedInWords (emptyAt 0) [square, column] 1 ∧ [square, column].Perm [column, square] ∧
    ∃ p q, make sampleHeap {} (emptyAt 0) [square, column] 1 = .ok p ∧
      make sampleHeap {} (emptyAt 0) [column, square] 1 = .ok q ∧
      q.filling.map (·.shape) = p.filling.map (·.shape) := by
  have perm : [square, column].Perm [column, square] := .swap ..
  have accepted := make_sample 0 (.inl rfl)
  have hsized := sizedInWords_sample (.inl rfl)
  obtain ⟨-, -, -, hperm⟩ :=
    accepts_well_formed sampleHeap {} (emptyAt 0) [square, column] 1 hsized
  obtain ⟨haccepted, hshape⟩ := hperm sampleHeap_bounded _ perm
  cases haccepted.mpr ⟨_, accepted⟩ with
  | intro q hq =>
    exact ⟨sampleHeap_bounded, hsized, perm, _, q, accepted, hq, hshape _ q accepted hq⟩

end Plan

end TensorConcat
