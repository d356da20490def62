import TensorConcat.Concat.OutputLayout
import TensorConcat.Proofs.Joining
import TensorConcat.Proofs.Words

/-!
# Where the index mapping puts an element

The mapping takes an element number apart in the order of descending strides. That
order may differ from the memory order of the output where strides tie, but a tie
involves axes of extent one only, and those neither step nor divide. Without them
both orders are the same list, so the mapping finds the coordinate that the number
has in the input's own memory order, and adds up the output's strides. All words
stay below the output's volume.
-/

namespace TensorConcat

open Number

/-- The step offset of a number over axes listed outermost first, and what is left of it
once every axis has taken its index. -/
def peeled : List Axis → Nat → Nat × Nat
  | [], n => (0, n)
  | a :: inner, n =>
    ((peeled inner n).1 + (peeled inner n).2 % a.extent * a.stride, (peeled inner n).2 / a.extent)

theorem peeled_filter (axes : List Axis) (n : Nat) :
    peeled (axes.filter (·.extent != 1)) n = peeled axes n := by
  induction axes with
  | nil => rfl
  | cons a axes ih =>
    by_cases ha : a.extent = 1
    · rw [List.filter_cons_of_neg (by simp [ha]), ih]
      simp [peeled, ha, Nat.mod_one]
    · rw [List.filter_cons_of_pos (by simpa using ha)]
      simp only [peeled, ih]

theorem peeled_map_filter {ι : Type} (g : ι → Axis) (xs : List ι) (n : Nat) :
    peeled ((xs.filter fun i => (g i).extent != 1).map g) n = peeled (xs.map g) n := by
  rw [← peeled_filter (xs.map g), List.filter_map]
  rfl

theorem peeled_eq (axes : List Axis) (n : Nat) :
    (peeled axes n).1 =
        Axis.position axes (digits (Axis.extents axes) (n % volume (Axis.extents axes))) ∧
      (peeled axes n).2 = n / volume (Axis.extents axes) := by
  induction axes generalizing n with
  | nil => simp [peeled, Axis.position]
  | cons a axes ih =>
    obtain ⟨hoffset, hleft⟩ := ih n
    simp only [peeled, hoffset, hleft, Axis.extents_cons, volume_cons, digits, Axis.position]
    rw [Nat.mul_comm a.extent, Nat.mod_mul_right_mod, Nat.mod_mul_right_div_self,
      Nat.div_div_eq_div_mul]
    exact ⟨Nat.add_comm .., rfl⟩

theorem peeled_of_lt {axes : List Axis} {n : Nat} (h : n < volume (Axis.extents axes)) :
    (peeled axes n).1 = Axis.position axes (digits (Axis.extents axes) n) := by
  rw [(peeled_eq axes n).1, Nat.mod_eq_of_lt h]

namespace OutputLayout
variable {l : OutputLayout} {dimSize linear : UInt32} {joined : Nat}

/-- An axis of the input with its step in the output. -/
def inputAxis (l : OutputLayout) (dimSize : UInt32) (joined axis : Nat) : Axis :=
  ⟨(l.extentAt dimSize joined axis).toNat, (l.strideAt axis).toNat⟩

theorem peel_eq {inner : List Nat} (extents : ∀ a ∈ inner, 0 < (l.inputAxis dimSize joined a).extent)
    (fits : (peeled (inner.map (l.inputAxis dimSize joined)) linear.toNat).1 < 2 ^ 32) :
    ∃ offset left, l.peel dimSize joined linear inner = .ok (offset, left) ∧
      (offset.toNat, left.toNat) =
        peeled (inner.map (l.inputAxis dimSize joined)) linear.toNat := by
  induction inner with
  | nil => exact ⟨0, linear, rfl, rfl⟩
  | cons a inner ih =>
    simp only [List.map_cons, peeled] at fits
    obtain ⟨offset, left, hpeel, hpair⟩ := ih (fun b hb => extents b (by simp [hb])) (by omega)
    obtain ⟨hoffset, hleft⟩ := Prod.mk.inj hpair
    obtain ⟨next, hdiv, hnext⟩ := @divWord_eq left (l.extentAt dimSize joined a)
      (extents a (by simp))
    have hrest := @toNat_sub_mul_div left (l.extentAt dimSize joined a) next hnext
    rw [← hoffset, ← hleft] at fits
    have hstep : left.toNat % (l.extentAt dimSize joined a).toNat * (l.strideAt a).toNat < 2 ^ 32 :=
      lt_of_le_of_lt (Nat.le_add_left ..) fits
    obtain ⟨step, hmul, htimes⟩ := @mulWord_eq (left - l.extentAt dimSize joined a * next)
      (l.strideAt a) (by rwa [hrest])
    rw [hrest] at htimes
    obtain ⟨total, hadd, hsum⟩ := @addWord_eq offset step (by rw [htimes]; exact fits)
    refine ⟨total, next, ?_, ?_⟩
    · rw [peel, hpeel]
      simp only [bind, Except.bind, hdiv, hmul, hadd, pure, Except.pure]
    · simp only [List.map_cons, peeled, ← hoffset, ← hleft, hsum, htimes, hnext]
      rfl

/-- Without overflow the mapping is the step offset of the whole number. -/
theorem offsetOf_eq (order : l.order ≠ [])
    (extents : ∀ a ∈ l.order, 0 < (l.inputAxis dimSize joined a).extent)
    (small : linear.toNat < volume (Axis.extents (l.order.map (l.inputAxis dimSize joined))))
    (fits : (peeled (l.order.map (l.inputAxis dimSize joined)) linear.toNat).1 < 2 ^ 32) :
    ∃ w, l.offsetOf dimSize joined linear = .ok w ∧
      w.toNat = (peeled (l.order.map (l.inputAxis dimSize joined)) linear.toNat).1 := by
  unfold offsetOf
  cases horder : l.order with
  | nil => exact absurd horder order
  | cons outermost inner =>
    rw [horder] at extents small fits
    have hinner := fun a ha => extents a (List.mem_cons_of_mem outermost ha)
    simp only [List.map_cons, peeled, Axis.extents_cons, volume_cons] at small fits ⊢
    obtain ⟨offset, left, hpeel, hpair⟩ := @peel_eq l dimSize linear joined inner hinner (by omega)
    obtain ⟨hoffset, hleft⟩ := Prod.mk.inj hpair
    -- What is left for the outermost axis is already an index of it.
    have hindex : left.toNat < (l.inputAxis dimSize joined outermost).extent := by
      rw [hleft, (peeled_eq _ _).2]
      exact Nat.div_lt_of_lt_mul (by rwa [Nat.mul_comm])
    rw [← hoffset, ← hleft, Nat.mod_eq_of_lt hindex] at fits ⊢
    obtain ⟨step, hmul, htimes⟩ := @mulWord_eq left (l.strideAt outermost)
      (lt_of_le_of_lt (Nat.le_add_left ..) fits)
    obtain ⟨total, hadd, hsum⟩ := @addWord_eq offset step (by rw [htimes]; exact fits)
    refine ⟨total, ?_, by rw [hsum, htimes]; rfl⟩
    simp only [hpeel, bind, Except.bind, hmul, hadd]

/-- The layout of axes whose extents and strides are words. -/
def ofAxes (axes : List Axis) : OutputLayout :=
  ofParts (axes.map (UInt32.ofNat ·.extent)) (axes.map (UInt32.ofNat ·.stride))

/-- Extents and strides that fit into words. -/
def Indexable (axes : List Axis) : Prop := ∀ a ∈ axes, a.extent < 2 ^ 32 ∧ a.stride < 2 ^ 32

theorem outputWord_eq (what : String) {n : Nat} (h : n < 2 ^ 32) :
    outputWord what n = .ok (UInt32.ofNat n) := if_pos h

theorem mapM_axisWords {axes : List Axis} (h : Indexable axes) :
    axes.mapM axisWords = .ok (axes.map fun a => (UInt32.ofNat a.extent, UInt32.ofNat a.stride)) := by
  induction axes with
  | nil => rfl
  | cons a axes ih =>
    obtain ⟨hextent, hstride⟩ := h a (by simp)
    have hrest := ih fun b hb => h b (by simp [hb])
    simp only [List.mapM_cons, axisWords, outputWord_eq _ hextent, outputWord_eq _ hstride, hrest, bind,
      Except.bind, pure, Except.pure, List.map_cons]

/-- The first number that is too large for a word is reported. -/
theorem mapM_axisWords_error {axes : List Axis} (h : ¬Indexable axes) :
    ∃ what n, 2 ^ 32 ≤ n ∧ axes.mapM axisWords = .error (.outputIndex what n) := by
  induction axes with
  | nil => exact absurd (fun a ha => absurd ha (by simp)) h
  | cons a axes ih =>
    rw [List.mapM_cons]
    by_cases hextent : a.extent < 2 ^ 32
    · by_cases hstride : a.stride < 2 ^ 32
      · have hrest : ¬Indexable axes := by
          intro hrest
          apply h
          rw [Indexable, List.forall_mem_cons]
          exact ⟨⟨hextent, hstride⟩, hrest⟩
        rcases ih hrest with ⟨what, n, hn, hmap⟩
        refine ⟨what, n, hn, ?_⟩
        simp only [axisWords, outputWord_eq _ hextent, outputWord_eq _ hstride, hmap, bind, Except.bind,
          pure, Except.pure]
      · refine ⟨"stride", a.stride, Nat.not_lt.mp hstride, ?_⟩
        have hword : outputWord "stride" a.stride = .error (.outputIndex "stride" a.stride) :=
          if_neg hstride
        simp only [axisWords, outputWord_eq _ hextent, hword, bind, Except.bind]
    · refine ⟨"size", a.extent, Nat.not_lt.mp hextent, ?_⟩
      have hword : outputWord "size" a.extent = .error (.outputIndex "size" a.extent) := if_neg hextent
      simp only [axisWords, hword, bind, Except.bind]

theorem capture_error {out : Tensor} (h : ¬Indexable out.axes) :
    ∃ what n, 2 ^ 32 ≤ n ∧ capture out.rank out = .error (.outputIndex what n) := by
  rcases mapM_axisWords_error h with ⟨what, n, hn, hmap⟩
  refine ⟨what, n, hn, ?_⟩
  simp only [capture, ne_eq, not_true_eq_false, if_false, hmap, bind, Except.bind]

theorem capture_eq {out : Tensor} (h : Indexable out.axes) :
    capture out.rank out = .ok (ofAxes out.axes) := by
  simp only [capture, ne_eq, not_true_eq_false, if_false, mapM_axisWords h, bind, Except.bind, pure,
    Except.pure, ofAxes, List.map_map]
  rfl

section OfAxes
variable {axes : List Axis} {i : Nat}

theorem length_strides_ofAxes (axes : List Axis) : (ofAxes axes).strides.length = axes.length :=
  List.length_map _

theorem toNat_getD_map {xs : List Nat} (h : ∀ x ∈ xs, x < 2 ^ 32) (i : Nat) :
    ((xs.map UInt32.ofNat).getD i 0).toNat = xs.getD i 0 := by
  by_cases hi : i < xs.length
  · rw [List.getD_eq_getElem _ _ (by simpa using hi), List.getD_eq_getElem _ _ hi,
      List.getElem_map, toNat_ofNat_of_lt (h _ (List.getElem_mem hi))]
  · rw [List.getD_eq_default _ _ (by simpa using hi), List.getD_eq_default _ _ (by simpa using hi)]
    rfl

theorem toNat_strideAt (h : Indexable axes) (i : Nat) :
    ((ofAxes axes).strideAt i).toNat = (Axis.strides axes).getD i 0 := by
  have hs : ∀ s ∈ Axis.strides axes, s < 2 ^ 32 := by
    intro s hs
    obtain ⟨a, ha, rfl⟩ := List.mem_map.mp hs
    exact (h a ha).2
  rw [← toNat_getD_map hs, Axis.strides, List.map_map]
  rfl

theorem toNat_size (h : Indexable axes) (i : Nat) :
    ((ofAxes axes).sizes.getD i 0).toNat = (Axis.extents axes).getD i 0 := by
  have hs : ∀ d ∈ Axis.extents axes, d < 2 ^ 32 := by
    intro d hd
    obtain ⟨a, ha, rfl⟩ := List.mem_map.mp hd
    exact (h a ha).1
  rw [← toNat_getD_map hs, Axis.extents, List.map_map]
  rfl

theorem extent_lt (h : Indexable axes) (i : Nat) : (Axis.extents axes).getD i 0 < 2 ^ 32 := by
  rw [← toNat_size h]
  exact UInt32.toNat_lt _

theorem inputAxis_ofAxes (h : Indexable axes) (dimSize : UInt32) (joined i : Nat) :
    (ofAxes axes).inputAxis dimSize joined i =
      ⟨if i = joined then dimSize.toNat else (Axis.extents axes).getD i 0,
        (Axis.strides axes).getD i 0⟩ := by
  simp only [inputAxis, extentAt, toNat_strideAt h, Axis.mk.injEq, and_true]
  split
  · rfl
  · exact toNat_size h i

theorem axes_eq_map_range (axes : List Axis) :
    axes = (List.range axes.length).map fun i =>
      ⟨(Axis.extents axes).getD i 0, (Axis.strides axes).getD i 0⟩ := by
  apply List.ext_getElem (by simp)
  intro i h₁ h₂
  simp [Axis.extents, Axis.strides, h₁]

/-- The axes of an input: its own extent on the joined axis, the output's on the others. -/
def inputAxes (axes : List Axis) (joined extent : Nat) : List Axis :=
  axes.set joined ⟨extent, (Axis.strides axes).getD joined 0⟩

theorem inputAxes_eq_map_range (h : Indexable axes) (dimSize : UInt32) (joined : Nat) :
    inputAxes axes joined dimSize.toNat =
      (List.range axes.length).map ((ofAxes axes).inputAxis dimSize joined) := by
  apply List.ext_getElem (by simp [inputAxes])
  intro i h₁ h₂
  have hi : i < axes.length := by simpa [inputAxes] using h₁
  rw [List.getElem_map, List.getElem_range, inputAxis_ofAxes h]
  simp only [inputAxes, List.getElem_set]
  by_cases same : joined = i
  · simp [same]
  · rw [if_neg same, if_neg fun e => same e.symm]
    simp [Axis.extents, Axis.strides, hi]

theorem extents_inputAxes (axes : List Axis) (joined extent : Nat) :
    Axis.extents (inputAxes axes joined extent) = (Axis.extents axes).set joined extent := by
  simp [inputAxes, Axis.extents, List.map_set]

/-- The order of descending strides, as a relation between neighbours. -/
theorem pairwise_order (h : Indexable axes) :
    (ofAxes axes).order.Pairwise fun i j =>
      (Axis.strides axes).getD j 0 ≤ (Axis.strides axes).getD i 0 := by
  have hsorted := @List.pairwise_mergeSort _
    (fun i j => decide ((ofAxes axes).strides.getD j 0 ≤ (ofAxes axes).strides.getD i 0))
    (by
      intro i j k hij hjk
      simp only [decide_eq_true_eq, UInt32.le_iff_toNat_le] at hij hjk ⊢
      omega)
    (by
      intro i j
      simp only [Bool.or_eq_true, decide_eq_true_eq, UInt32.le_iff_toNat_le]
      omega)
    (List.range (ofAxes axes).sizes.length)
  apply hsorted.imp
  intro i j hij
  rw [decide_eq_true_eq, UInt32.le_iff_toNat_le] at hij
  rwa [← toNat_strideAt h, ← toNat_strideAt h]

theorem order_perm (axes : List Axis) : (ofAxes axes).order.Perm (List.range axes.length) := by
  have hperm : (ofAxes axes).order.Perm (List.range (ofAxes axes).sizes.length) :=
    List.mergeSort_perm _ _
  rwa [show (ofAxes axes).sizes.length = axes.length from List.length_map _] at hperm

/-- In memory order the axes that step in the output have descending strides. -/
theorem pairwise_physical {f : MemoryFormat} (packed : Packed (f.arrange axes)) :
    ((f.order axes.length).filter fun i => (Axis.extents axes).getD i 0 != 1).Pairwise fun i j =>
      (Axis.strides axes).getD j 0 < (Axis.strides axes).getD i 0 := by
  have hstrict := packed.pairwise_stride
  conv at hstrict => arg 2; rw [axes_eq_map_range axes, f.arrange_map]
  rw [List.filter_map, List.pairwise_map] at hstrict
  exact hstrict

/-- Both orders list the axes that step in the input alike. -/
theorem filter_order_eq {f : MemoryFormat} (h : Indexable axes) (packed : Packed (f.arrange axes))
    {dimSize : UInt32} {joined : Nat} (pos : 0 < dimSize.toNat)
    (le : dimSize.toNat ≤ (Axis.extents axes).getD joined 0) :
    (ofAxes axes).order.filter (fun i => ((ofAxes axes).inputAxis dimSize joined i).extent != 1) =
      (f.order axes.length).filter
        fun i => ((ofAxes axes).inputAxis dimSize joined i).extent != 1 := by
  have hstep : ∀ i, ((ofAxes axes).inputAxis dimSize joined i).extent ≠ 1 →
      (Axis.extents axes).getD i 0 ≠ 1 := by
    intro i hi
    rw [inputAxis_ofAxes h] at hi
    split at hi
    · rename_i same
      subst same
      dsimp only at hi
      omega
    · exact hi
  have hstrict : ((f.order axes.length).filter
      fun i => ((ofAxes axes).inputAxis dimSize joined i).extent != 1).Pairwise fun i j =>
        (Axis.strides axes).getD j 0 < (Axis.strides axes).getD i 0 := by
    have := (pairwise_physical packed).filter
      (fun i => ((ofAxes axes).inputAxis dimSize joined i).extent != 1)
    rw [List.filter_filter] at this
    refine (List.filter_congr fun i _ => ?_) ▸ this
    by_cases hi : ((ofAxes axes).inputAxis dimSize joined i).extent = 1
    · simp [hi]
    · simpa [hi] using hstep i hi
  have hperm := ((order_perm axes).trans (f.arrange_perm (List.range axes.length)).symm).filter
    (fun i => ((ofAxes axes).inputAxis dimSize joined i).extent != 1)
  have hkeys : (((f.order axes.length).filter
      fun i => ((ofAxes axes).inputAxis dimSize joined i).extent != 1).map
        fun i => (Axis.strides axes).getD i 0).Nodup := by
    rw [List.Nodup, List.pairwise_map]
    exact hstrict.imp Nat.ne_of_gt
  refine List.Perm.eq_of_pairwise (fun i j hi hj hij hji => ?_) ((pairwise_order h).filter _)
    (hstrict.imp Nat.le_of_lt) hperm
  exact List.inj_on_of_nodup_map hkeys (hperm.mem_iff.mp hi) hj (Nat.le_antisymm hji hij)

end OfAxes

/-- The mapping puts an input's element where the coordinate lies that has its number in
the memory order over the input's extents. -/
theorem offsetOf_ofAxes {axes : List Axis} {f : MemoryFormat} (h : Indexable axes)
    (packed : Packed (f.arrange axes)) (small : volume (Axis.extents axes) ≤ 2 ^ 32)
    (hjoined : joined < axes.length) (le : dimSize.toNat ≤ (Axis.extents axes).getD joined 0)
    (hlinear : linear.toNat < volume ((Axis.extents axes).set joined dimSize.toNat)) :
    ∃ w, (ofAxes axes).offsetOf dimSize joined linear = .ok w ∧
      w.toNat = Axis.position axes
        (f.unrank ((Axis.extents axes).set joined dimSize.toNat) linear.toNat) := by
  have hlen : joined < (Axis.extents axes).length := by rwa [Axis.length_extents]
  have hunrank := f.within_unrank hlinear
  have hpos : 0 < dimSize.toNat := Nat.zero_lt_of_lt (hunrank.getD_lt_set hlen)
  have hwithin : Within (Axis.extents axes)
      (f.unrank ((Axis.extents axes).set joined dimSize.toNat) linear.toNat) := by
    have := within_set hlen hunrank ((hunrank.getD_lt_set hlen).trans_le le)
    rwa [set_getD_self, set_getD_self] at this
  -- The two orders agree once axes of extent one are left out, and those do not matter.
  have hpeeled : peeled ((ofAxes axes).order.map ((ofAxes axes).inputAxis dimSize joined))
      linear.toNat = peeled (f.arrange (inputAxes axes joined dimSize.toNat)) linear.toNat := by
    rw [← peeled_map_filter, filter_order_eq h packed hpos le, peeled_map_filter,
      inputAxes_eq_map_range h, f.arrange_map]
    rfl
  have hextents : Axis.extents (f.arrange (inputAxes axes joined dimSize.toNat)) =
      f.arrange ((Axis.extents axes).set joined dimSize.toNat) := by
    rw [f.extents_arrange, extents_inputAxes]
  have hoffset : (peeled (f.arrange (inputAxes axes joined dimSize.toNat)) linear.toNat).1 =
      Axis.position axes (f.unrank ((Axis.extents axes).set joined dimSize.toNat) linear.toNat) := by
    rw [peeled_of_lt (by rwa [hextents, f.volume_arrange]), hextents,
      ← f.arrange_restore (digits _ _), Axis.position_arrange]
    · exact Axis.position_set_extent axes joined dimSize.toNat _
    · simp [length_digits, inputAxes, Axis.length_extents]
  have hvolume : volume (Axis.extents
      ((ofAxes axes).order.map ((ofAxes axes).inputAxis dimSize joined))) =
        volume ((Axis.extents axes).set joined dimSize.toNat) := by
    rw [← extents_inputAxes, inputAxes_eq_map_range h]
    exact volume_perm (((order_perm axes).map _).map _)
  have horder : (ofAxes axes).order ≠ [] := by
    have := (order_perm axes).length_eq
    rw [List.length_range] at this
    exact List.ne_nil_of_length_pos (by omega)
  rw [← hoffset, ← hpeeled]
  refine offsetOf_eq horder (fun a ha => ?_) (by rwa [hvolume]) ?_
  · refine volume_pos_iff.mp (hvolume.symm ▸ Nat.zero_lt_of_lt hlinear) _ ?_
    exact List.mem_map_of_mem (List.mem_map_of_mem ha)
  · rw [hpeeled, hoffset]
    exact (MemoryFormat.position_lt packed hwithin).trans_le small

end OutputLayout

end TensorConcat
