import TensorConcat.Proofs.Aliasing
import TensorConcat.Proofs.Growth
import TensorConcat.SoftwareCasts

/-!
# Where the elements of a concatenation come from

The parts that are joined lie one after the other along the axis, so every coordinate lies
in the slab of just one part, and its element is the one which that part holds as many
places further down as the parts before it take. That is what the reference route leaves,
whichever the axis and the layouts are, and even where inputs share bytes with the output.
-/

namespace TensorConcat

/-- The coordinate lies in the slab of part number `n`, which is `u`. -/
structure LiesIn (axis : Nat) (parts : List Tensor) (c : List Nat) (n : Nat) (u : Tensor) : Prop where
  part : parts[n]? = some u
  lower : totalExtent axis (parts.take n) ≤ c.getD axis 0
  upper : c.getD axis 0 < totalExtent axis (parts.take n) + u.extentAt axis

section Slabs
variable {axis : Nat} {parts ps qs : List Tensor} {c : List Nat} {n n' : Nat} {u u' : Tensor}

/-- A later slab begins where an earlier one has ended. -/
theorem LiesIn.not_lt (first : LiesIn axis parts c n u) (second : LiesIn axis parts c n' u') :
    ¬n < n' := by
  intro hlt
  have hend := first.upper
  rw [← totalExtent_take_succ first.part] at hend
  have hmono := @totalExtent_take_mono axis parts (n + 1) n' hlt
  have hbegin := second.lower
  omega

theorem LiesIn.unique (first : LiesIn axis parts c n u) (second : LiesIn axis parts c n' u') :
    n = n' ∧ u = u' := by
  have hn : n = n' := Nat.le_antisymm (Nat.not_lt.mp (second.not_lt first))
    (Nat.not_lt.mp (first.not_lt second))
  subst hn
  exact ⟨rfl, Option.some.inj (first.part.symm.trans second.part)⟩

/-- An element of a part lies in its slab, as many places further up as the parts before it take. -/
theorem liesIn_raiseAxis (hn : parts[n]? = some u) (hlen : axis < c.length)
    (hlt : c.getD axis 0 < u.extentAt axis) :
    LiesIn axis parts (raiseAxis axis (totalExtent axis (parts.take n)) c) n u := by
  have hraised := getD_raiseAxis (n := totalExtent axis (parts.take n)) hlen
  exact ⟨hn, by omega, by omega⟩

theorem LiesIn.append (lies : LiesIn axis ps c n u) (qs : List Tensor) :
    LiesIn axis (ps ++ qs) c n u := by
  have hlt : n < ps.length := (List.getElem?_eq_some_iff.mp lies.part).1
  constructor
  · rw [List.getElem?_append_left hlt]
    exact lies.part
  · rw [List.take_append_of_le_length (Nat.le_of_lt hlt)]
    exact lies.lower
  · rw [List.take_append_of_le_length (Nat.le_of_lt hlt)]
    exact lies.upper

theorem LiesIn.prepend (lies : LiesIn axis qs (lowerAxis axis (totalExtent axis ps) c) n u)
    (hlen : axis < c.length) (beyond : totalExtent axis ps ≤ c.getD axis 0) :
    LiesIn axis (ps ++ qs) c (ps.length + n) u := by
  have hlower := lies.lower
  have hupper := lies.upper
  rw [getD_lowerAxis hlen] at hlower hupper
  constructor
  · rw [List.getElem?_append_right (Nat.le_add_right _ _), Nat.add_sub_cancel_left]
    exact lies.part
  · rw [List.take_length_add_append, totalExtent_append]
    omega
  · rw [List.take_length_add_append, totalExtent_append]
    omega

/-- The source of an element is the part in whose slab it lies. -/
theorem exists_liesIn {e : List Nat} (hlen : axis < c.length)
    (hs : sourceAt axis parts c = some (u, e)) :
    ∃ n, LiesIn axis parts c n u ∧ e = lowerAxis axis (totalExtent axis (parts.take n)) c := by
  induction parts generalizing c with
  | nil => simp [sourceAt] at hs
  | cons t ts ih =>
    rw [sourceAt] at hs
    split at hs
    · rename_i hin
      obtain ⟨rfl, rfl⟩ := Prod.mk.inj (Option.some.inj hs)
      exact ⟨0, ⟨rfl, Nat.zero_le _, by simpa using hin⟩, by simp⟩
    · rename_i hbeyond
      -- The rest of the parts is looked up from the end of this slab on.
      rcases ih (by simpa using hlen) hs with ⟨n, lies, rfl⟩
      have hlower := lies.lower
      have hupper := lies.upper
      rw [getD_lowerAxis hlen] at hlower hupper
      refine ⟨n + 1, ⟨by simpa using lies.part, ?_, ?_⟩, ?_⟩
      · rw [List.take_succ_cons, totalExtent_cons]
        omega
      · rw [List.take_succ_cons, totalExtent_cons]
        omega
      · rw [List.take_succ_cons, totalExtent_cons, lowerAxis_lowerAxis hlen]

end Slabs

/-- At a coordinate, the output holds in the second heap the converted element that the one
part in whose slab the coordinate lies held in the first. -/
def HoldsJoined [FloatCasts] (out : Tensor) (axis : Nat) (parts : List Tensor) (h k : Heap)
    (c : List Nat) : Prop :=
  ∃ n u, LiesIn axis parts c n u ∧ (∀ n' u', LiesIn axis parts c n' u' → n' = n ∧ u' = u) ∧
    Within u.dims (lowerAxis axis (totalExtent axis (parts.take n)) c) ∧
    out.loadElement k (Axis.position out.axes c) =
      Tensor.converted out u (lowerAxis axis (totalExtent axis (parts.take n)) c) h

section Values
variable {out : Tensor} {axis : Nat} {parts ps : List Tensor} {h k l : Heap} {c : List Nat}
  [FloatCasts]

theorem HoldsJoined.append (holds : HoldsJoined out axis ps h k c) (qs : List Tensor) :
    HoldsJoined out axis (ps ++ qs) h k c := by
  rcases holds with ⟨n, u, lies, -, hwithin, hvalue⟩
  have htake : (ps ++ qs).take n = ps.take n :=
    List.take_append_of_le_length (Nat.le_of_lt (List.getElem?_eq_some_iff.mp lies.part).1)
  refine ⟨n, u, lies.append qs, fun n' u' lies' => lies'.unique (lies.append qs), ?_, ?_⟩
  · rwa [htake]
  · rwa [htake]

theorem HoldsJoined.within {n : Nat} {u : Tensor} (holds : HoldsJoined out axis parts h k c)
    (lies : LiesIn axis parts c n u) :
    Within u.dims (lowerAxis axis (totalExtent axis (parts.take n)) c) := by
  rcases holds with ⟨n', u', -, hunique, hwithin, -⟩
  rcases hunique n u lies with ⟨rfl, rfl⟩
  exact hwithin

/-- The element of the output is that of whichever part the coordinate lies in. -/
theorem HoldsJoined.value {n : Nat} {u : Tensor} (holds : HoldsJoined out axis parts h k c)
    (lies : LiesIn axis parts c n u) : out.loadElement k (Axis.position out.axes c) =
      Tensor.converted out u (lowerAxis axis (totalExtent axis (parts.take n)) c) h := by
  rcases holds with ⟨n', u', -, hunique, -, hvalue⟩
  rcases hunique n u lies with ⟨rfl, rfl⟩
  exact hvalue

/-- Two outputs of one type that hold the same joined elements hold the same bytes. -/
theorem HoldsJoined.agree {other : Tensor} (first : HoldsJoined out axis parts h k c)
    (second : HoldsJoined other axis parts h l c) (same : out.dtype = other.dtype) :
    out.loadElement k (Axis.position out.axes c) =
      other.loadElement l (Axis.position other.axes c) := by
  rcases second with ⟨n, u, lies, -, -, hvalue⟩
  rw [first.value lies, hvalue, Tensor.converted, Tensor.converted, same]

/-- Joined parts are found where they lie, with the values from before, as long as growing
has not changed what they read. -/
theorem Joins.holds (joins : Joins out axis 0 parts k l) (haxis : axis < out.dims.length)
    (fit : ∀ t ∈ parts, t.FitsAlong out axis) (grown : h.Extends k)
    (known : ∀ t ∈ parts, t.storage < h.storages.size) (hc : Within out.dims c)
    (hlt : c.getD axis 0 < totalExtent axis parts) : HoldsJoined out axis parts h l c := by
  have hlen : axis < c.length := hc.length_eq ▸ haxis
  obtain ⟨u, e, hs⟩ := exists_sourceAt hlen hlt
  have hvalue := joins.value c hc (Nat.zero_le _) u e (by simpa using hs)
  have hsource := mem_of_sourceAt (d := out.dims.getD axis 0) haxis fit
    (by rwa [set_getD_self]) hs
  obtain ⟨n, lies, rfl⟩ := exists_liesIn hlen hs
  refine ⟨n, u, lies, fun n' u' lies' => lies'.unique lies, hsource.2, ?_⟩
  rw [hvalue, Tensor.converted, Tensor.converted,
    Tensor.loadElement_extends grown (known u hsource.1)]

end Values

/-- What a view and memory are when the inputs that count have been joined along an axis, their
elements being those of the first heap. -/
structure IsConcatenation [FloatCasts] (inputs : List Tensor) (axis : Nat) (h : Heap) (t : Tensor)
    (k : Heap) : Prop where
  axis_lt : axis < t.dims.length
  dims : ∀ u ∈ counted inputs, t.dims = u.dims.set axis (totalExtent axis (counted inputs))
  strides : ∀ head, inputs.head? = some head → t.strides = head.suggestedFormat.strides t.dims
  values : ∀ c, Within t.dims c → HoldsJoined t axis (counted inputs) h k c

section Concatenation
variable [FloatCasts] {inputs : List Tensor} {axis n : Nat} {h k : Heap} {t u : Tensor}

theorem IsConcatenation.extentAt_eq (concatenation : IsConcatenation inputs axis h t k)
    (counts : counted inputs ≠ []) : t.extentAt axis = totalExtent axis (counted inputs) := by
  rcases List.exists_mem_of_ne_nil _ counts with ⟨u, hu⟩
  have haxis := concatenation.axis_lt
  have hdims := concatenation.dims u hu
  rw [hdims, List.length_set] at haxis
  rw [Tensor.extentAt, hdims, getD_set haxis, if_pos rfl]

/-- The slab of an input that counts ends inside the result. -/
theorem IsConcatenation.room (concatenation : IsConcatenation inputs axis h t k)
    (hn : (counted inputs)[n]? = some u) :
    totalExtent axis ((counted inputs).take n) + u.extentAt axis ≤ t.extentAt axis := by
  rw [concatenation.extentAt_eq (List.ne_nil_of_mem (List.mem_of_getElem? hn))]
  exact totalExtent_take_add_le hn

/-- An element of an input that counts is found, converted, in the place that it has in the result. -/
theorem IsConcatenation.input {c : List Nat} (concatenation : IsConcatenation inputs axis h t k)
    (hn : (counted inputs)[n]? = some u) (hc : Within u.dims c) :
    Within t.dims (raiseAxis axis (totalExtent axis ((counted inputs).take n)) c) ∧
      t.loadElement k (Axis.position t.axes
        (raiseAxis axis (totalExtent axis ((counted inputs).take n)) c)) =
          Tensor.converted t u c h := by
  have haxis := concatenation.axis_lt
  have hdims := concatenation.dims u (List.mem_of_getElem? hn)
  have hlen : axis < u.dims.length := by
    rw [hdims, List.length_set] at haxis
    exact haxis
  have hlength : axis < c.length := hc.length_eq ▸ hlen
  have hpart : Within (t.dims.set axis (u.extentAt axis)) c := by
    rwa [hdims, List.set_set, Tensor.extentAt, set_getD_self]
  have hwithin := within_raiseAxis haxis hpart (concatenation.room hn)
  have hvalue := (concatenation.values _ hwithin).value (liesIn_raiseAxis hn hlength (hc.getD_lt hlen))
  rw [lowerAxis_raiseAxis hlength] at hvalue
  exact ⟨hwithin, hvalue⟩

end Concatenation

section Request
variable {out t : Tensor} {inputs : List Tensor} {dim : Int} {axis : Nat} {shape : List Nat}
  {f : MemoryFormat} {h k l : Heap}

theorem Tensor.Resized.strides_eq (resized : out.Resized shape f h t k) :
    t.strides = f.strides shape := by rw [Tensor.strides, resized.axes, f.strides_axes]

theorem Joinable.suggested_eq (joinable : Joinable h out inputs dim axis shape f) {head : Tensor}
    (hhead : inputs.head? = some head) : head.suggestedFormat = f := by
  have hformat := joinable.format
  rw [hhead] at hformat
  exact Option.some.inj hformat

/-- Joining the inputs that count concatenates them. -/
theorem Joinable.isConcatenation [FloatCasts] (joinable : Joinable h out inputs dim axis shape f)
    (ht : out.resize shape f h = .ok (t, k)) (known : ∀ u ∈ inputs, u.storage < h.storages.size)
    (joins : Joins t axis 0 (counted inputs) k l) : IsConcatenation inputs axis h t l := by
  have hresized := Tensor.resize_spec ht
  have haxis := joinable.axis_lt_resized hresized
  constructor
  · exact haxis
  · intro u hu
    rw [hresized.dims_eq]
    exact joinable.shape_eq hu
  · intro head hhead
    rw [joinable.suggested_eq hhead, hresized.strides_eq, hresized.dims_eq]
  · intro c hc
    refine joins.holds haxis (joinable.fitsAlong hresized) (Tensor.resize_extends ht)
      (fun u hu => known u (List.mem_of_mem_filter hu)) hc ?_
    rw [joinable.total_eq hresized]
    exact hc.getD_lt haxis

end Request

namespace Reference

/-- A request with an input that counts, and with sizes that are words, succeeds on the reference
route just when it is accepted and the output can be allocated, and the output is then the
concatenation, with the values that the inputs held before. -/
theorem concatenate_computes [FloatCasts] (out : Tensor) (inputs : List Tensor) (dim : Int)
    {m : Machine}
    (bounded : m.heap.Bounded) (known : ∀ u ∈ inputs, u.storage < m.heap.storages.size)
    (counts : counted inputs ≠ []) (sized : SizedInWords out inputs dim) :
    let o := concatenate out inputs dim m
    ExactInWords m.heap out inputs dim ∧
      (o.result = .ok () ↔ ∃ j, accept m.heap out inputs dim = .ok (some j) ∧
        ¬out.Outgrows j.shape m.heap) ∧
      (o.result = .ok () → o.out.dtype = out.dtype ∧ ∃ axis : Nat, dim = axis ∧
        IsConcatenation inputs axis m.heap o.out o.machine.heap) := by
  intro o
  refine ⟨sized.exactInWords m.heap, ?_⟩
  cases haccept : accept m.heap out inputs dim with
  | error r =>
    have ho : o = ⟨.error r.failure, out, m⟩ := concatenate_rejected haccept
    rw [ho]
    simp
  | ok joined =>
    have hspec := accept_ok haccept
    cases joined with
    | none => exact absurd (hspec.1 rfl).none_counts counts
    | some j =>
      have joinable := hspec.2 j rfl
      cases hresize : out.resize j.shape j.format m.heap with
      | error e =>
        have herror := Tensor.resize_error joinable.shape_ne_nil hresize
        have ho : o = ⟨.error e, out, m⟩ := concatenate_refused joinable hresize
        rw [ho]
        simp [Tensor.Outgrows, herror.2]
      | ok r =>
        obtain ⟨t, k⟩ := r
        have hresized := Tensor.resize_spec hresize
        obtain ⟨m', hrun, hjoins⟩ :=
          concatenate_joinable joinable hresize (hresized.numel_le bounded)
        have ho : o = ⟨.ok (), t, m'⟩ := hrun
        rw [ho]
        refine ⟨⟨fun _ => ⟨j, rfl, ?_⟩, fun _ => rfl⟩, fun _ => ⟨hresized.dtype, j.axis, ?_, ?_⟩⟩
        · exact Tensor.not_outgrows joinable.shape_ne_nil hresize
        · exact joinable.dim_eq
        · exact joinable.isConcatenation hresize known hjoins

/-- The second element of the first input lies where the output is written, and is read before. -/
theorem concatenate_computes_sample : ∃ axis : Nat, (0 : Int) = axis ∧
    IsConcatenation [everyOther, single] axis sharedHeap overlaid
      ⟨#[#[1, 3, 0, 4, 5, 6], #[0]]⟩ := by
  have hbounded : sharedHeap.Bounded := by
    unfold Heap.Bounded
    decide
  have hresult : (concatenate overlaid [everyOther, single] 0 { heap := sharedHeap }).result =
      .ok () := by cbv
  have hout : (concatenate overlaid [everyOther, single] 0 { heap := sharedHeap }).out =
      overlaid := by cbv
  have hheap : (concatenate overlaid [everyOther, single] 0
      { heap := sharedHeap }).machine.heap = ⟨#[#[1, 3, 0, 4, 5, 6], #[0]]⟩ := by cbv
  have hdim : (0 : Int) = (0 : Nat) := rfl
  have hsized : SizedInWords overlaid [everyOther, single] 0 :=
    .of_member (t := everyOther) (by decide) hdim (by decide) (by decide) (by decide) (by decide)
  obtain ⟨-, -, hjoined⟩ := concatenate_computes overlaid [everyOther, single] 0
    (m := { heap := sharedHeap }) hbounded (by decide) (by decide) hsized
  have hcomputes := (hjoined hresult).2
  rw [hout, hheap] at hcomputes
  exact hcomputes

end Reference

end TensorConcat
