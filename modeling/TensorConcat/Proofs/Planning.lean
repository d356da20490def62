import TensorConcat.Concat.Reference
import TensorConcat.Proofs.Joining
import TensorConcat.Proofs.Running

/-!
# What an accepted request is

Both routes walk through their checks in order and stop at the first that fails. What
they accept can be said without any order: `Joinable` lists what holds of a request
that joins inputs, together with the axis, the shape and the format it leads to, and
`Idle` what holds of one that leaves the output alone. Each route accepts exactly these
requests, so they accept the same ones, though they compare the inputs with different
members of the list.
-/

namespace TensorConcat

/-- The inputs that count, in order. -/
def counted (inputs : List Tensor) : List Tensor := inputs.filter fun t => !t.isSkipped

theorem map_fst_live (inputs : List Tensor) : (live inputs).map Prod.fst = counted inputs := by
  unfold live counted
  rw [show (fun p : Tensor × Nat => !p.1.isSkipped) =
    (fun t : Tensor => !t.isSkipped) ∘ Prod.fst from rfl, ← List.filter_map, List.zipIdx_map_fst]

theorem commonType?_eq (inputs : List Tensor) :
    commonType? inputs = DType.common? ((counted inputs).map (·.dtype)) := by
  rw [commonType?, ← map_fst_live, List.map_map]
  rfl

theorem counted_append (xs ys : List Tensor) : counted (xs ++ ys) = counted xs ++ counted ys :=
  List.filter_append ..

theorem counted_cons (t : Tensor) (ts : List Tensor) :
    counted (t :: ts) = if t.isSkipped then counted ts else t :: counted ts := by
  unfold counted
  rw [List.filter_cons]
  cases t.isSkipped with
  | true => rfl
  | false => rfl

namespace Tensor.FitsShape
variable {t u : Tensor} {shape : List Nat} {axis : Nat}

theorem length_eq (h : t.FitsShape shape axis) : t.dims.length = shape.length := by
  rw [h, List.length_set]

/-- The joined extent of the shape does not matter. -/
theorem set (h : t.FitsShape shape axis) (n : Nat) : t.FitsShape (shape.set axis n) axis := by
  rw [FitsShape, List.set_set]
  exact h

/-- Tensors that fit one shape fit each other. -/
theorem trans (ht : t.FitsShape shape axis) (hu : u.FitsShape shape axis) :
    t.FitsShape u.dims axis := by
  rw [FitsShape, hu, List.set_set]
  exact ht

/-- A tensor that fits a part fits what the part fits. -/
theorem of_part (ht : t.FitsShape u.dims axis) (hu : u.FitsShape shape axis) :
    t.FitsShape shape axis := by
  rw [FitsShape, hu, List.set_set] at ht
  exact ht

end Tensor.FitsShape

/-- Lists of extents that differ on one axis at most. -/
theorem eq_set_iff {ds es : List Nat} {axis : Nat} :
    es = ds.set axis (es.getD axis 0) ↔
      es.length = ds.length ∧ ∀ i < ds.length, i ≠ axis → ds[i]? = es[i]? := by
  constructor
  · intro heq
    have hlen : es.length = ds.length := by rw [heq, List.length_set]
    refine ⟨hlen, fun i _ hne => ?_⟩
    rw [heq, List.getElem?_set_ne fun same => hne same.symm]
  · intro halike
    rcases halike with ⟨hlen, hsame⟩
    apply List.ext_getElem?
    intro i
    by_cases hi : i < ds.length
    · by_cases haxis : axis = i
      · subst haxis
        rw [List.getElem?_set_self hi, List.getD_eq_getElem _ _ (hlen ▸ hi),
          List.getElem?_eq_getElem (hlen ▸ hi)]
      · rw [List.getElem?_set_ne haxis, hsame i hi fun same => haxis same.symm]
    · rw [List.getElem?_eq_none (by omega), List.getElem?_eq_none (by rw [List.length_set]; omega)]

/-- Inputs of which some count, and those that do agree on what they are joined to. -/
structure Conform (inputs : List Tensor) (dim : Int) (axis : Nat) (shape : List Nat)
    (f : MemoryFormat) : Prop where
  counts : counted inputs ≠ []
  dim_eq : dim = axis
  axis_lt : axis < shape.length
  fit : ∀ t ∈ counted inputs, t.FitsShape shape axis
  total : shape.getD axis 0 = totalExtent axis (counted inputs)
  format : inputs.head?.map (·.suggestedFormat) = some f

/-- A request that joins inputs, with what it leads to. -/
structure Joinable (h : Heap) (out : Tensor) (inputs : List Tensor) (dim : Int) (axis : Nat)
    (shape : List Nat) (f : MemoryFormat) : Prop extends Conform inputs dim axis shape f where
  checked : checkOutput out inputs = .ok ()
  target : checkTarget (out.target? shape f h) inputs = .ok ()

/-- A request that is accepted and leaves the output alone. -/
structure Idle (out : Tensor) (inputs : List Tensor) : Prop where
  nonempty : inputs ≠ []
  checked : checkOutput out inputs = .ok ()
  none_counts : counted inputs = []

theorem rank_eq (t : Tensor) : t.rank = t.dims.length := (Axis.length_extents _).symm

theorem checkAxis_eq_ok {rank axis : Nat} {dim : Int} :
    checkAxis rank dim = .ok axis ↔ dim = axis ∧ axis < rank := by
  unfold checkAxis
  by_cases hin : 0 ≤ dim ∧ dim < rank
  · rw [if_pos hin, Except.ok.injEq]
    omega
  · rw [if_neg hin]
    constructor
    · intro h
      exact absurd h (by simp)
    · omega

namespace Plan
variable {reference : Tensor} {axis : Nat}

theorem checkExtents_eq_ok {t : Tensor} {index : Nat} :
    checkExtents reference axis t index = .ok () ↔ t.FitsShape reference.dims axis := by
  unfold checkExtents Tensor.FitsShape Tensor.extentAt
  rw [eq_set_iff, rank_eq, rank_eq]
  by_cases hrank : reference.dims.length ≠ t.dims.length
  · rw [if_pos hrank]
    constructor
    · intro h
      exact absurd h (by simp)
    · intro h
      exact absurd h.1.symm hrank
  · rw [if_neg hrank]
    cases hfind : mismatch? axis reference.dims t.dims with
    | none =>
      rw [mismatch?, List.find?_eq_none] at hfind
      refine ⟨fun _ => ⟨(not_not.mp hrank).symm, fun i hi hne => ?_⟩, fun _ => rfl⟩
      simpa [hne] using hfind i (List.mem_range.mpr hi)
    | some i =>
      obtain hi := List.find?_some hfind
      have hmem := List.mem_range.mp (List.mem_of_find?_eq_some hfind)
      simp only [Bool.and_eq_true, bne_iff_ne, ne_eq] at hi
      constructor
      · intro h
        exact absurd h (by simp)
      · intro h
        exact absurd (h.2 i hmem hi.1) hi.2

theorem joinedExtent_eq_ok {ps : List (Tensor × Nat)} {n : Nat} :
    joinedExtent reference axis ps = .ok n ↔
      (∀ t ∈ ps.map Prod.fst, t.FitsShape reference.dims axis) ∧
        n = totalExtent axis (ps.map Prod.fst) := by
  induction ps generalizing n with
  | nil =>
    rw [joinedExtent, Except.ok.injEq]
    simp [eq_comm]
  | cons p ps ih =>
    obtain ⟨t, index⟩ := p
    rw [joinedExtent, checked_bind, List.map_cons, List.forall_mem_cons, totalExtent_cons]
    constructor
    · intro hrun
      rcases hrun with ⟨⟨⟩, hcheck, h⟩
      obtain ⟨rest, hrest, h⟩ := checked_bind.mp h
      obtain ⟨hfit, rfl⟩ := ih.mp hrest
      exact ⟨⟨checkExtents_eq_ok.mp hcheck, hfit⟩, (Except.ok.inj h).symm⟩
    · intro hfits
      rcases hfits with ⟨⟨hfit, hrest⟩, hn⟩
      refine ⟨(), checkExtents_eq_ok.mpr hfit, ?_⟩
      exact checked_bind.mpr ⟨_, ih.mpr ⟨hrest, rfl⟩, congrArg Except.ok hn.symm⟩

end Plan

namespace Reference
variable {first : Tensor} {axis : Nat}

theorem agree_iff {t : Tensor} :
    agree axis first.dims t.dims = true ↔ t.FitsShape first.dims axis := by
  unfold agree
  rw [Bool.and_eq_true, beq_iff_eq, beq_iff_eq]
  constructor
  · intro hagree
    rcases hagree with ⟨_, hset⟩
    have hset := congrArg (·.set axis (t.dims.getD axis 0)) hset
    simp only [List.set_set, set_getD_self] at hset
    exact hset.symm
  · intro hfit
    refine ⟨hfit.length_eq.symm, ?_⟩
    rw [hfit, List.set_set]

theorem joinedExtent_eq_ok {ts : List Tensor} {n : Nat} :
    joinedExtent first axis ts = .ok n ↔
      (∀ t ∈ ts, t.FitsShape first.dims axis) ∧ n = totalExtent axis ts := by
  induction ts generalizing n with
  | nil =>
    rw [joinedExtent, Except.ok.injEq]
    simp [eq_comm]
  | cons t ts ih =>
    rw [joinedExtent, List.forall_mem_cons, totalExtent_cons]
    by_cases hagree : agree axis first.dims t.dims
    · rw [hagree]
      constructor
      · intro h
        obtain ⟨rest, hrest, h⟩ := checked_bind.mp h
        obtain ⟨hfit, rfl⟩ := ih.mp hrest
        exact ⟨⟨agree_iff.mp hagree, hfit⟩, (Except.ok.inj h).symm⟩
      · intro hfits
        rcases hfits with ⟨⟨_, hrest⟩, hn⟩
        exact checked_bind.mpr ⟨_, ih.mpr ⟨hrest, rfl⟩, congrArg Except.ok hn.symm⟩
    · rw [(Bool.not_eq_true _).mp hagree]
      constructor
      · intro h
        exact absurd h throw_bind_ne_ok
      · intro hfits
        rcases hfits with ⟨⟨hfit, _⟩, _⟩
        exact absurd (agree_iff.mpr hfit) hagree

end Reference

section Requests
variable {h : Heap} {out : Tensor} {inputs : List Tensor} {dim : Int} {axis : Nat}
  {shape : List Nat} {f : MemoryFormat}

/-- A member of the list with which all others agree fixes the shape. -/
theorem Joinable.of_member {t : Tensor} (checked : checkOutput out inputs = .ok ())
    (ht : t ∈ counted inputs) (hdim : dim = axis) (haxis : axis < t.dims.length)
    (fit : ∀ u ∈ counted inputs, u.FitsShape t.dims axis)
    (format : inputs.head?.map (·.suggestedFormat) = some f)
    (target : checkTarget
      (out.target? (t.dims.set axis (totalExtent axis (counted inputs))) f h) inputs = .ok ()) :
    Joinable h out inputs dim axis (t.dims.set axis (totalExtent axis (counted inputs))) f where
  checked := checked
  counts := List.ne_nil_of_mem ht
  dim_eq := hdim
  axis_lt := by rwa [List.length_set]
  fit u hu := (fit u hu).set _
  total := by rw [getD_set haxis, if_pos rfl]
  format := format
  target := target

/-- The shape read off any input that counts. -/
theorem Conform.shape_eq (conform : Conform inputs dim axis shape f) {t : Tensor}
    (ht : t ∈ counted inputs) : shape = t.dims.set axis (totalExtent axis (counted inputs)) := by
  rw [conform.fit t ht, List.set_set, ← conform.total, set_getD_self]

theorem Conform.axis_lt_dims (conform : Conform inputs dim axis shape f) {t : Tensor}
    (ht : t ∈ counted inputs) : axis < t.dims.length := by
  rw [(conform.fit t ht).length_eq]
  exact conform.axis_lt

theorem Conform.shape_ne_nil (conform : Conform inputs dim axis shape f) : shape ≠ [] := by
  intro hnil
  have hlt := conform.axis_lt
  rw [hnil] at hlt
  exact absurd hlt (Nat.not_lt_zero axis)

theorem getLast?_live (inputs : List Tensor) :
    ((live inputs).getLast?).map Prod.fst = (counted inputs).getLast? := by
  rw [← map_fst_live, List.getLast?_map]

namespace Plan

/-- The plan of a request that joins inputs. -/
def joining (config : ConcatConfig) (out : Tensor) (inputs : List Tensor) (axis : Nat)
    (shape : List Nat) (f : MemoryFormat) : Plan :=
  ⟨axis, inputs.any (·.isSkipped), some ⟨shape, f, engineFor config out inputs shape f⟩⟩

/-- The plan of a request that leaves the output alone. -/
def idle (inputs : List Tensor) (dim : Int) : Plan :=
  ⟨dim.toNat, inputs.any (·.isSkipped), none⟩

variable {config : ConcatConfig}

/-- The checks of a list that has a first member. -/
theorem make_eq {first : Tensor} (hfirst : inputs.head? = some first) :
    make h config out inputs dim = (do
      (checkOutput out inputs).mapError .objection
      match (live inputs).getLast? with
      | none => return ⟨dim.toNat, inputs.any (·.isSkipped), none⟩
      | some (reference, _) =>
        let axis ← (checkAxis reference.rank dim).mapError .objection
        let extent ← joinedExtent reference axis (live inputs)
        let shape := reference.dims.set axis extent
        let f := first.suggestedFormat
        (checkTarget (out.target? shape f h) inputs).mapError .objection
        return ⟨axis, inputs.any (·.isSkipped),
          some ⟨shape, f, engineFor config out inputs shape f⟩⟩) := by
  cases inputs with
  | nil => exact absurd hfirst (by simp)
  | cons head rest =>
    obtain rfl := Option.some.inj hfirst
    rfl

/-- What the planner accepts joins inputs or leaves the output alone. -/
theorem make_ok {p : Plan} (hp : make h config out inputs dim = .ok p) :
    (p.filling = none → Idle out inputs) ∧ ∀ filling, p.filling = some filling →
      Joinable h out inputs dim p.axis filling.shape filling.format ∧
        filling.engine = engineFor config out inputs filling.shape filling.format := by
  cases hhead : inputs.head? with
  | none =>
    rw [List.head?_eq_none_iff.mp hhead] at hp
    exact absurd hp (by simp [make])
  | some first =>
    rw [make_eq hhead] at hp
    obtain ⟨⟨⟩, hchecked, hp⟩ := checked_bind.mp hp
    have hchecked := checked_mapError.mp hchecked
    have hlast := getLast?_live inputs
    cases hlive : (live inputs).getLast? with
    | none =>
      rw [hlive] at hp hlast
      obtain rfl := Except.ok.inj hp
      refine ⟨fun _ => ⟨?_, hchecked, List.getLast?_eq_none_iff.mp hlast.symm⟩, by simp⟩
      intro hcase
      rcases hcase with rfl
      exact absurd hhead (by simp)
    | some r =>
      obtain ⟨reference, index⟩ := r
      rw [hlive] at hp hlast
      have hmem : reference ∈ counted inputs := List.mem_of_getLast? hlast.symm
      obtain ⟨axis, haxis, hp⟩ := checked_bind.mp hp
      obtain ⟨hdim, hlt⟩ := checkAxis_eq_ok.mp (checked_mapError.mp haxis)
      rw [rank_eq] at hlt
      obtain ⟨extent, hextent, hp⟩ := checked_bind.mp hp
      obtain ⟨hfit, rfl⟩ := joinedExtent_eq_ok.mp hextent
      rw [map_fst_live] at hfit hp
      obtain ⟨⟨⟩, htarget, hp⟩ := checked_bind.mp hp
      obtain rfl := Except.ok.inj hp
      refine ⟨by simp, fun filling hfilling => ?_⟩
      obtain rfl := Option.some.inj hfilling
      exact ⟨.of_member hchecked hmem hdim hlt hfit (by rw [hhead]; rfl)
        (checked_mapError.mp htarget), rfl⟩

/-- Of inputs that conform, only the output and its memory are left to check. -/
theorem make_of_conform (conform : Conform inputs dim axis shape f) :
    make h config out inputs dim = (do
      (checkOutput out inputs).mapError .objection
      (checkTarget (out.target? shape f h) inputs).mapError .objection
      return joining config out inputs axis shape f) := by
  obtain ⟨first, hhead, hformat⟩ := Option.map_eq_some_iff.mp conform.format
  rw [make_eq hhead]
  have hlast := getLast?_live inputs
  cases hlive : (live inputs).getLast? with
  | none =>
    rw [hlive] at hlast
    exact absurd (List.getLast?_eq_none_iff.mp hlast.symm) conform.counts
  | some r =>
    obtain ⟨reference, index⟩ := r
    rw [hlive] at hlast
    have hmem : reference ∈ counted inputs := List.mem_of_getLast? hlast.symm
    have hlt := conform.axis_lt_dims hmem
    have haxis : checkAxis reference.rank dim = .ok axis :=
      checkAxis_eq_ok.mpr ⟨conform.dim_eq, by rwa [rank_eq]⟩
    have hextent : joinedExtent reference axis (live inputs) =
        .ok (totalExtent axis (counted inputs)) := by
      rw [joinedExtent_eq_ok, map_fst_live]
      exact ⟨fun t ht => (conform.fit t ht).trans (conform.fit reference hmem), rfl⟩
    rw [conform.shape_eq hmem]
    simp only [haxis, hextent, hformat, Except.mapError, bind, Except.bind, pure, Except.pure,
      joining]

/-- The planner accepts every request that joins inputs. -/
theorem make_of_joinable (joinable : Joinable h out inputs dim axis shape f) :
    make h config out inputs dim = .ok (joining config out inputs axis shape f) := by
  rw [make_of_conform joinable.toConform, joinable.checked, joinable.target]
  rfl

theorem joining_eq (joinable : Joinable h out inputs dim axis shape f) {p : Plan}
    (accepted : make h config out inputs dim = .ok p) :
    joining config out inputs axis shape f = p := by
  rw [make_of_joinable joinable] at accepted
  exact Except.ok.inj accepted

theorem make_of_idle (nothing : Idle out inputs) (h : Heap) (dim : Int) :
    make h config out inputs dim = .ok (idle inputs dim) := by
  cases hhead : inputs.head? with
  | none => exact absurd (List.head?_eq_none_iff.mp hhead) nothing.nonempty
  | some first =>
    have hlast := getLast?_live inputs
    rw [nothing.none_counts] at hlast
    have hlive : (live inputs).getLast? = none := by simpa using hlast
    rw [make_eq hhead, hlive, nothing.checked]
    rfl

/-- The settings have no part in the checks. -/
theorem make_error {config₁ : ConcatConfig} {r : Rejection} (hr : make h config₁ out inputs dim = .error r)
    (config₂ : ConcatConfig) : make h config₂ out inputs dim = .error r := by
  cases hhead : inputs.head? with
  | none =>
    rw [List.head?_eq_none_iff.mp hhead] at hr ⊢
    exact hr
  | some first =>
    rw [make_eq hhead] at hr ⊢
    cases hchecked : checkOutput out inputs with
    | error o =>
      rw [hchecked] at hr
      exact hr
    | ok u =>
      rw [hchecked] at hr
      cases hlive : (live inputs).getLast? with
      | none =>
        rw [hlive] at hr
        exact absurd hr (by simp [Except.mapError, bind, Except.bind, pure, Except.pure])
      | some r =>
        obtain ⟨reference, index⟩ := r
        rw [hlive] at hr
        simp only [Except.mapError, bind, Except.bind, pure, Except.pure] at hr ⊢
        split at hr
        · exact hr
        · split at hr
          · exact hr
          · split at hr
            · exact hr
            · exact absurd hr (by simp)

end Plan

namespace Reference

theorem accept_eq {head : Tensor} (hhead : inputs.head? = some head) :
    accept h out inputs dim = (do
      (checkOutput out inputs).mapError .objection
      match counted inputs with
      | [] => return none
      | first :: rest =>
        let axis ← (checkAxis first.rank dim).mapError .objection
        let extent ← joinedExtent first axis (first :: rest)
        let shape := first.dims.set axis extent
        let f := head.suggestedFormat
        (checkTarget (out.target? shape f h) inputs).mapError .objection
        return some ⟨axis, shape, f⟩) := by
  rw [← map_fst_live]
  cases inputs with
  | nil => exact absurd hhead (by simp)
  | cons first rest =>
    obtain rfl := Option.some.inj hhead
    rfl

/-- What the reference route accepts joins inputs or leaves the output alone. -/
theorem accept_ok {r : Option Joined} (hr : accept h out inputs dim = .ok r) :
    (r = none → Idle out inputs) ∧
      ∀ j, r = some j → Joinable h out inputs dim j.axis j.shape j.format := by
  cases hhead : inputs.head? with
  | none =>
    rw [List.head?_eq_none_iff.mp hhead] at hr
    exact absurd hr (by simp [accept])
  | some head =>
    rw [accept_eq hhead] at hr
    obtain ⟨⟨⟩, hchecked, hr⟩ := checked_bind.mp hr
    have hchecked := checked_mapError.mp hchecked
    cases hcounted : counted inputs with
    | nil =>
      rw [hcounted] at hr
      obtain rfl := Except.ok.inj hr
      refine ⟨fun _ => ⟨?_, hchecked, hcounted⟩, by simp⟩
      intro hcase
      rcases hcase with rfl
      exact absurd hhead (by simp)
    | cons first others =>
      rw [hcounted] at hr
      have hmem : first ∈ counted inputs := by simp [hcounted]
      obtain ⟨axis, haxis, hr⟩ := checked_bind.mp hr
      obtain ⟨hdim, hlt⟩ := checkAxis_eq_ok.mp (checked_mapError.mp haxis)
      rw [rank_eq] at hlt
      obtain ⟨extent, hextent, hr⟩ := checked_bind.mp hr
      rw [← hcounted] at hextent
      obtain ⟨hfit, rfl⟩ := joinedExtent_eq_ok.mp hextent
      obtain ⟨⟨⟩, htarget, hr⟩ := checked_bind.mp hr
      obtain rfl := Except.ok.inj hr
      refine ⟨by simp, fun j hj => ?_⟩
      obtain rfl := Option.some.inj hj
      exact .of_member hchecked hmem hdim hlt hfit (by rw [hhead]; rfl) (checked_mapError.mp htarget)

/-- The reference route accepts every request that joins inputs. -/
theorem accept_of_joinable (joinable : Joinable h out inputs dim axis shape f) :
    accept h out inputs dim = .ok (some ⟨axis, shape, f⟩) := by
  obtain ⟨head, hhead, hformat⟩ := Option.map_eq_some_iff.mp joinable.format
  rw [accept_eq hhead]
  cases hcounted : counted inputs with
  | nil => exact absurd hcounted joinable.counts
  | cons first others =>
    have hmem : first ∈ counted inputs := by simp [hcounted]
    have hlt := joinable.axis_lt_dims hmem
    have haxis : checkAxis first.rank dim = .ok axis :=
      checkAxis_eq_ok.mpr ⟨joinable.dim_eq, by rwa [rank_eq]⟩
    have hextent : joinedExtent first axis (first :: others) =
        .ok (totalExtent axis (counted inputs)) := by
      rw [joinedExtent_eq_ok, ← hcounted]
      exact ⟨fun t ht => (joinable.fit t ht).trans (joinable.fit first hmem), rfl⟩
    have htarget := joinable.target
    rw [joinable.shape_eq hmem] at htarget ⊢
    simp only [joinable.checked, haxis, hextent, hformat, htarget, Except.mapError, bind,
      Except.bind, pure, Except.pure]

theorem accept_of_idle (idle : Idle out inputs) (h : Heap) (dim : Int) :
    accept h out inputs dim = .ok none := by
  cases hhead : inputs.head? with
  | none => exact absurd (List.head?_eq_none_iff.mp hhead) idle.nonempty
  | some head =>
    rw [accept_eq hhead, idle.none_counts, idle.checked]
    rfl

end Reference

/-- What becomes of a request, whatever the settings: it is turned away, leaves the output
alone, asks for more memory than there can be, or joins its inputs. -/
inductive Verdict (h : Heap) (out : Tensor) (inputs : List Tensor) (dim : Int) : Prop
  | rejected (r : Plan.Rejection) :
      (∀ config, Plan.make h config out inputs dim = .error r) → Verdict h out inputs dim
  | idle : Idle out inputs → Verdict h out inputs dim
  | refused (axis : Nat) (shape : List Nat) (f : MemoryFormat) (e : Failure) :
      Joinable h out inputs dim axis shape f → out.resize shape f h = .error e →
      Verdict h out inputs dim
  | joined (axis : Nat) (shape : List Nat) (f : MemoryFormat) (t : Tensor) (k : Heap) :
      Joinable h out inputs dim axis shape f → out.resize shape f h = .ok (t, k) →
      Verdict h out inputs dim

theorem verdict (h : Heap) (out : Tensor) (inputs : List Tensor) (dim : Int) :
    Verdict h out inputs dim := by
  cases hmake : Plan.make h {} out inputs dim with
  | error r => exact .rejected r (Plan.make_error hmake)
  | ok p =>
    obtain ⟨hidle, hjoins⟩ := Plan.make_ok hmake
    cases hfilling : p.filling with
    | none => exact .idle (hidle hfilling)
    | some filling =>
      have joinable := (hjoins filling hfilling).1
      cases hresize : out.resize filling.shape filling.format h with
      | error e => exact .refused _ _ _ e joinable hresize
      | ok r => exact .joined _ _ _ r.1 r.2 joinable hresize

end Requests

end TensorConcat
