import TensorConcat.Proofs.LaunchTrace

/-!
# Moves that do not interfere

The items of a launch run at the same time. A move is then two accesses, a load and a
later store, and the accesses of different moves come in any order. `Access` is one of
them: a move that has not begun is loaded, or a loaded one is stored.

The order does not show when no move writes a byte that another one writes or that any
of them reads. The invariant of a launch under way says that every loaded value is the
one that memory held at the start, and that memory is what the stored moves have made of
it. Such a memory is determined by the moves, not by their order.
-/

namespace TensorConcat

theorem Heap.byte_of_capacity_le {h : Heap} {s i : Nat} (beyond : h.capacity s ≤ i) :
    h.byte s i = 0 := by
  rw [Heap.byte, Array.getD_eq_getD_getElem?, Array.getElem?_eq_none beyond, Option.getD_none]

namespace Move

/-- The bytes that a move takes out of memory. -/
def value (mv : Move) (width : Nat) (h : Heap) : List UInt8 :=
  h.load mv.source.storage mv.source.byte width

/-- Memory after bytes have been put where a move puts them. -/
def put (mv : Move) (bytes : List UInt8) (h : Heap) : Heap :=
  h.store mv.target.storage mv.target.byte bytes

end Move

/-- A launch under way: the moves that have not begun, those that have been loaded, with what
they hold, and memory. -/
structure Progress where
  pending : List Move
  loaded : List (Move × List UInt8)
  heap : Heap

/-- One access of a launch under way. -/
inductive Access (width : Nat) : Progress → Progress → Prop
  | load {before after : List Move} {loaded : List (Move × List UInt8)} {h : Heap} (mv : Move) :
      Access width ⟨before ++ mv :: after, loaded, h⟩
        ⟨before ++ after, (mv, mv.value width h) :: loaded, h⟩
  | store {pending : List Move} {before after : List (Move × List UInt8)} {h : Heap} (mv : Move)
      (bytes : List UInt8) :
      Access width ⟨pending, before ++ (mv, bytes) :: after, h⟩
        ⟨pending, before ++ after, mv.put bytes h⟩

/-- However far a launch of these moves has come from memory `h`, it goes on to its end, and
there it has memory `k`. -/
def Settles (width : Nat) (ms : List Move) (h k : Heap) : Prop :=
  ∀ s, Relation.ReflTransGen (Access width) ⟨ms, [], h⟩ s →
    Relation.ReflTransGen (Access width) s ⟨[], [], k⟩

/-- Launches one after the other, each of which ends before the next begins. -/
inductive SettlesInTurn (width : Nat) : List (List Move) → Heap → Heap → Prop
  | nil (h : Heap) : SettlesInTurn width [] h h
  | cons {ms : List Move} {rest : List (List Move)} {h k l : Heap} : Settles width ms h k →
      SettlesInTurn width rest k l → SettlesInTurn width (ms :: rest) h l

/-- No move writes a byte that another one writes, and none one that any of them reads. -/
structure Isolated (width : Nat) (ms : List Move) : Prop where
  unshared : ms.Pairwise fun mv mw => ∀ s i, mv.Writes width s i → ¬mw.Writes width s i
  unread : ∀ mv ∈ ms, ∀ mw ∈ ms, ∀ s i, mv.Writes width s i → ¬mw.Reads width s i

/-- Heap `k` is what moves make of heap `h`, each with the value it finds there. -/
structure Made (width : Nat) (ms : List Move) (h k : Heap) : Prop where
  count : k.storages.size = h.storages.size
  capacity : ∀ s, k.capacity s = h.capacity s
  written : ∀ mv ∈ ms, ∀ j < width, mv.target.byte + j < h.capacity mv.target.storage →
    k.byte mv.target.storage (mv.target.byte + j) = (mv.value width h).getD j 0
  kept : ∀ s i, (∀ mv ∈ ms, ¬mv.Writes width s i) → k.byte s i = h.byte s i

namespace Isolated
variable {width : Nat} {ms ns : List Move}

theorem sublist (isolated : Isolated width ms) (sub : ns.Sublist ms) : Isolated width ns :=
  ⟨isolated.unshared.sublist sub,
    fun mv hmv mw hmw => isolated.unread mv (sub.subset hmv) mw (sub.subset hmw)⟩

theorem perm (isolated : Isolated width ms) (perm : ns.Perm ms) : Isolated width ns := by
  constructor
  · apply (perm.pairwise_iff _).mpr isolated.unshared
    intro mv mw apart s i hw hv
    exact apart s i hv hw
  · intro mv hmv mw hmw
    exact isolated.unread mv (perm.mem_iff.mp hmv) mw (perm.mem_iff.mp hmw)

end Isolated

namespace Made
variable {width : Nat} {ms ns : List Move} {h k l : Heap}

theorem refl (width : Nat) (h : Heap) : Made width [] h h :=
  ⟨rfl, fun _ => rfl, fun _ hmv => absurd hmv (by simp), fun _ _ _ => rfl⟩

theorem perm (made : Made width ms h k) (perm : ns.Perm ms) : Made width ns h k where
  count := made.count
  capacity := made.capacity
  written mv hmv := made.written mv (perm.mem_iff.mp hmv)
  kept s i none := made.kept s i fun mv hmv => none mv (perm.mem_iff.mpr hmv)

/-- A memory that moves make is determined by them. -/
theorem unique (first : Made width ms h k) (second : Made width ms h l) : k = l := by
  refine Heap.ext_byte (first.count.trans second.count.symm)
    (fun s => (first.capacity s).trans (second.capacity s).symm) fun s i => ?_
  by_cases hany : ∃ mv ∈ ms, mv.Writes width s i
  · rcases hany with ⟨mv, hmv, rfl, hlo, hhi⟩
    rw [← Nat.add_sub_of_le hlo]
    by_cases hin : mv.target.byte + (i - mv.target.byte) < h.capacity mv.target.storage
    · rw [first.written mv hmv _ (by omega) hin, second.written mv hmv _ (by omega) hin]
    · rw [Heap.byte_of_capacity_le (by rw [first.capacity]; omega),
        Heap.byte_of_capacity_le (by rw [second.capacity]; omega)]
  · have none : ∀ mv ∈ ms, ¬mv.Writes width s i := fun mv hmv hw => hany ⟨mv, hmv, hw⟩
    rw [first.kept s i none, second.kept s i none]

/-- A move still finds what it would have found at the start. -/
theorem value_eq (made : Made width ms h k) {mv : Move}
    (unread : ∀ mw ∈ ms, ∀ s i, mw.Writes width s i → ¬mv.Reads width s i) :
    mv.value width k = mv.value width h := by
  refine List.map_congr_left fun j hj => made.kept _ _ fun mw hmw hw => ?_
  have hj := List.mem_range.mp hj
  exact unread mw hmw _ _ hw ⟨rfl, by omega, by omega⟩

/-- One more move is stored. -/
theorem put (made : Made width ms h k) {mv : Move}
    (unshared : ∀ mw ∈ ms, ∀ s i, mv.Writes width s i → ¬mw.Writes width s i) :
    Made width (mv :: ms) h (mv.put (mv.value width h) k) := by
  have hlength : (mv.value width h).length = width := Heap.length_load ..
  have hcapacity : ∀ s, (mv.put (mv.value width h) k).capacity s = h.capacity s :=
    fun s => (Heap.capacity_store ..).trans (made.capacity s)
  refine ⟨(Heap.storages_size_store ..).trans made.count, hcapacity, ?_, ?_⟩
  · intro mw hmw j hj hin
    rcases List.mem_cons.mp hmw with rfl | hmw
    · rw [Move.put, Heap.byte_store, if_pos ⟨rfl, by omega, by omega, by rw [made.capacity]; omega⟩,
        Nat.add_sub_cancel_left]
    · have hother : ¬mv.Writes width mw.target.storage (mw.target.byte + j) :=
        fun hw => unshared mw hmw _ _ hw ⟨rfl, by omega, by omega⟩
      rw [Move.put, Heap.byte_store, if_neg, made.written mw hmw j hj hin]
      intro hcovered
      rcases hcovered with ⟨hs, hlo, hhi, _⟩
      exact hother ⟨hs, hlo, by omega⟩
  · intro s i none
    rw [Move.put, Heap.byte_store, if_neg]
    · exact made.kept s i fun mw hmw => none mw (List.mem_cons_of_mem _ hmw)
    · intro hcovered
      rcases hcovered with ⟨hs, hlo, hhi, _⟩
      exact none mv (by simp) ⟨hs, hlo, by omega⟩

end Made

/-- The invariant of a launch under way from memory `h`. -/
structure Progress.Sound (width : Nat) (ms : List Move) (h : Heap) (s : Progress)
    (stored : List Move) : Prop where
  all : (stored ++ (s.loaded.map Prod.fst ++ s.pending)).Perm ms
  held : ∀ q ∈ s.loaded, q.2 = q.1.value width h
  made : Made width stored h s.heap

section Run
variable {width : Nat} {ms : List Move} {h : Heap}

/-- Every access keeps the invariant. -/
theorem Access.sound (isolated : Isolated width ms) {s t : Progress} {stored : List Move}
    (access : Access width s t) (sound : s.Sound width ms h stored) :
    ∃ later, t.Sound width ms h later := by
  have hall := sound.all
  have hheld := sound.held
  cases access with
  | @load before after loaded k mv =>
    have hmem : ∀ mw ∈ stored, mw ∈ ms := fun mw hmw => hall.subset (List.mem_append_left _ hmw)
    have hmv : mv ∈ ms := hall.subset (by simp)
    refine ⟨stored, ?_, ?_, sound.made⟩
    · refine (List.Perm.append_left _ ?_).trans hall
      rw [List.map_cons, List.cons_append, ← List.append_assoc, ← List.append_assoc]
      exact List.perm_middle.symm
    · intro q hq
      rcases List.mem_cons.mp hq with rfl | hq
      · exact sound.made.value_eq fun mw hmw => isolated.unread mw (hmem mw hmw) mv hmv
      · exact hheld q hq
  | @store pending before after k mv bytes =>
    have hfirst : (mv :: (stored ++ ((before ++ after).map Prod.fst ++ pending))).Perm ms := by
      refine List.Perm.trans ?_ hall
      simp only [List.map_append, List.map_cons, List.append_assoc, List.cons_append]
      rw [← List.append_assoc, ← List.append_assoc stored]
      exact List.perm_middle.symm
    have hapart := (isolated.perm hfirst).unshared
    rw [List.pairwise_cons] at hapart
    obtain rfl : bytes = mv.value width h := hheld (mv, bytes) (by simp)
    refine ⟨mv :: stored, hfirst, fun q hq => hheld q ?_, ?_⟩
    · rcases List.mem_append.mp hq with hq | hq
      · exact List.mem_append_left _ hq
      · exact List.mem_append_right _ (List.mem_cons_of_mem _ hq)
    · exact sound.made.put fun mw hmw => hapart.1 mw (List.mem_append_left _ hmw)

theorem Progress.Sound.of_run (isolated : Isolated width ms) {s t : Progress} {stored : List Move}
    (sound : s.Sound width ms h stored) (run : Relation.ReflTransGen (Access width) s t) :
    ∃ later, t.Sound width ms h later := by
  induction run with
  | refl => exact ⟨stored, sound⟩
  | tail _ access ih =>
    rcases ih with ⟨later, hlater⟩
    exact access.sound isolated hlater

theorem Progress.sound_start (width : Nat) (ms : List Move) (h : Heap) :
    Progress.Sound width ms h ⟨ms, [], h⟩ [] :=
  ⟨.refl _, fun _ hq => absurd hq (by simp), .refl width h⟩

/-- A launch under way can be brought to its end. -/
theorem Progress.exists_end (width : Nat) (s : Progress) :
    ∃ k, Relation.ReflTransGen (Access width) s ⟨[], [], k⟩ := by
  rcases s with ⟨pending, loaded, h⟩
  induction pending generalizing loaded h with
  | nil =>
    induction loaded generalizing h with
    | nil => exact ⟨h, .refl⟩
    | cons q rest ih =>
      rcases ih (q.1.put q.2 h) with ⟨k, run⟩
      exact ⟨k, .head (@Access.store width [] [] rest h q.1 q.2) run⟩
  | cons mv rest ih =>
    rcases ih ((mv, mv.value width h) :: loaded) h with ⟨k, run⟩
    exact ⟨k, .head (@Access.load width [] rest loaded h mv) run⟩

/-- Making the moves one after the other is one way to run a launch. -/
theorem replay_run (width : Nat) (ms : List Move) (h : Heap) :
    Relation.ReflTransGen (Access width) ⟨ms, [], h⟩ ⟨[], [], h.replay width ms⟩ := by
  induction ms generalizing h with
  | nil => exact .refl
  | cons mv rest ih =>
    apply Relation.ReflTransGen.head (@Access.load width [] rest [] h mv)
    apply Relation.ReflTransGen.head (@Access.store width rest [] [] h mv _)
    exact ih (mv.put (mv.value width h) h)

/-- Whatever the order of the accesses, the moves leave what they leave one after the other. -/
theorem settles_replay (isolated : Isolated width ms) (h : Heap) :
    Settles width ms h (h.replay width ms) := by
  intro s run
  rcases s.exists_end width with ⟨k, rest⟩
  have hmade : ∀ l, Relation.ReflTransGen (Access width) ⟨ms, [], h⟩ ⟨[], [], l⟩ →
      Made width ms h l := by
    intro l run
    rcases (Progress.sound_start width ms h).of_run isolated run with ⟨stored, sound⟩
    have hall := sound.all
    simp only [List.map_nil, List.append_nil] at hall
    exact sound.made.perm hall.symm
  rw [(hmade _ (replay_run width ms h)).unique (hmade k (run.trans rest))]
  exact rest

/-- Launches of isolated moves, one after the other. -/
theorem settlesInTurn_replay {mss : List (List Move)} (isolated : Isolated width mss.flatten)
    (h : Heap) : SettlesInTurn width mss h (h.replay width mss.flatten) := by
  induction mss generalizing h with
  | nil => exact .nil h
  | cons ms rest ih =>
    rw [List.flatten_cons] at isolated ⊢
    rw [Heap.replay_append]
    apply SettlesInTurn.cons
    · exact settles_replay (isolated.sublist (List.sublist_append_left ..)) h
    · exact ih (isolated.sublist (List.sublist_append_right ..)) _

end Run

end TensorConcat
