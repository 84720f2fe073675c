import Mathlib.Data.List.Basic
import MySvrKit.LockFreeQueue

/-! # `LockFreeQueue` as a bounded queue, called by one thread

Since `NextPosition` never takes a position back to the start of the ring, the
queue works as long as the ring has slots that were never used.  `FirstLap`
describes these call sequences by the calls alone, and `refines_iff` says that
the queue is a bounded queue of capacity `length` along a call sequence exactly
when it is one of them. -/

universe u

namespace MySvrKit.LockFreeQueue
variable {T : Type u} {length : Nat}

/-! ## The call sequences the ring has room for -/

def isPush : FifoCall T → Bool
  | .push _ => true
  | _ => false

def isRemoval : FifoCall T → Bool
  | .pop => true
  | .clear => true
  | _ => false

/-- The number of `Push` calls. -/
def pushes (calls : List (FifoCall T)) : Nat := calls.countP isPush

/-- Some `Pop` or `Clear` comes after a `Push`. -/
def Removes (calls : List (FifoCall T)) : Prop :=
  ∃ t c, List.Sublist [.push t, c] calls ∧ isRemoval c = true

/-- There is room for one more `Push` after these calls: fewer than `length` were
made, or exactly `length` with something removed between them and now. -/
def Room (length : Nat) (before : List (FifoCall T)) : Prop :=
  pushes before < length ∨ (pushes before = length ∧ Removes before)

/-- Every `Push` of the sequence finds room: there are at most `length + 1` of
them, and one with number `length + 1` has a `Pop` or `Clear` between it and the
first. -/
def FirstLap (length : Nat) (calls : List (FifoCall T)) : Prop :=
  ∀ before t after, calls = before ++ .push t :: after → Room length before

theorem pushes_concat (before : List (FifoCall T)) (c : FifoCall T) :
    pushes (before ++ [c]) = pushes before + if isPush c then 1 else 0 := by
  simp [pushes, List.countP_append, List.countP_singleton]

theorem pushes_pos_iff {before : List (FifoCall T)} :
    0 < pushes before ↔ ∃ t, FifoCall.push t ∈ before := by
  rw [pushes, List.countP_pos_iff]
  constructor
  · rintro ⟨c, hc, hp⟩
    cases c with
    | push t => exact ⟨t, hc⟩
    | _ => cases hp
  · rintro ⟨t, ht⟩
    exact ⟨_, ht, rfl⟩

theorem removes_concat {before : List (FifoCall T)} {c : FifoCall T} :
    Removes (before ++ [c]) ↔ Removes before ∨ (0 < pushes before ∧ isRemoval c = true) := by
  rw [pushes_pos_iff]
  constructor
  · rintro ⟨t, c', hs, hc'⟩
    obtain ⟨l₁, l₂, hl, h₁, h₂⟩ := List.sublist_append_iff.mp hs
    rcases List.sublist_singleton.mp h₂ with rfl | rfl
    · rw [List.append_nil] at hl
      exact Or.inl ⟨t, c', hl ▸ h₁, hc'⟩
    · have hl' : [FifoCall.push t] ++ [c'] = l₁ ++ [c] := hl
      obtain ⟨rfl, hcc⟩ := List.append_inj' hl' rfl
      obtain rfl := List.singleton_inj.mp hcc
      exact Or.inr ⟨⟨t, List.singleton_sublist.mp h₁⟩, hc'⟩
  · rintro (⟨t, c', hs, hc'⟩ | ⟨⟨t, ht⟩, hc⟩)
    · exact ⟨t, c', hs.trans (List.sublist_append_left _ _), hc'⟩
    · exact ⟨t, c, (List.singleton_sublist.mpr ht).append (List.Sublist.refl [c]), hc⟩

/-! ## The queue and the bounded queue side by side -/

/-- What the calls made so far have left: the slots from the read position on
hold the elements of the bounded queue, the write position counts the pushes, and
the read position has moved iff something was removed. -/
structure Tracks (before : List (FifoCall T)) (q : LockFreeQueue T length)
    (b : BoundedFifo T length) : Prop where
  write_eq : q.writePosition = pushes before
  write_le : q.writePosition ≤ length + 1
  held_length : q.readPosition + b.held.length = q.writePosition
  slots : ∀ i < b.held.length, q.slot (q.readPosition + i) = b.held[i]?
  moved : 0 < q.readPosition ↔ Removes before

theorem tracks_fresh [Inhabited T] :
    Tracks [] (fresh T length) (BoundedFifo.new T length) where
  write_eq := rfl
  write_le := Nat.zero_le _
  held_length := rfl
  slots i hi := absurd hi (Nat.not_lt_zero i)
  moved := ⟨fun h => absurd h (Nat.lt_irrefl 0), fun ⟨_, _, hs, _⟩ => by cases hs⟩

section Step
variable {before : List (FifoCall T)} {q : LockFreeQueue T length} {b : BoundedFifo T length}
variable (hpos : 1 ≤ length) (hlength : length + 1 < 2 ^ 32)

include hlength in
theorem Tracks.contents (h : Tracks before q b) : q.contents = b.held :=
  contents_eq h.held_length (by rw [kRingBufferLength_eq hlength]; exact h.write_le) h.slots

/-- Where there is room, the bounded queue is not full. -/
theorem Tracks.lt_of_room (h : Tracks before q b) (hroom : Room length before) :
    b.held.length < length ∧ q.writePosition ≤ length := by
  have := h.held_length
  have := h.write_eq
  rcases hroom with hlt | ⟨heq, hrem⟩
  · omega
  · have := h.moved.mpr hrem
    omega

/-- Where there is no room, it is full, or the write position has left the ring. -/
theorem Tracks.full_or_outside (h : Tracks before q b) (hroom : ¬ Room length before) :
    (b.held.length = length ∧ q.writePosition = length ∧ q.readPosition = 0) ∨
      (q.writePosition = length + 1 ∧ 0 < q.readPosition) := by
  have hw := h.write_eq
  have hlen := h.held_length
  have hb := b.bounded
  have hle := h.write_le
  rw [Room, not_or, not_and] at hroom
  rcases Nat.lt_or_ge length q.writePosition with hlt | hge
  · exact Or.inr ⟨by omega, by omega⟩
  · have hzero : ¬ 0 < q.readPosition := fun hr =>
      hroom.2 (by omega) (h.moved.mp hr)
    exact Or.inl ⟨by omega, by omega, by omega⟩

theorem Tracks.empty_iff (h : Tracks before q b) : q.empty = true ↔ b.held = [] := by
  have := h.held_length
  rw [← List.length_eq_zero_iff, LockFreeQueue.empty, decide_eq_true_iff]
  omega

include hpos hlength in
/-- A `Push` with room is accepted by both. -/
theorem Tracks.push (h : Tracks before q b) (hroom : Room length before) (t : T) :
    ∃ q', q.call (.push t) = some ((b.call (.push t)).1, q') ∧
      Tracks (before ++ [.push t]) q' (b.call (.push t)).2 := by
  obtain ⟨hfull, hle⟩ := h.lt_of_room hroom
  obtain ⟨hreply, hheld⟩ := BoundedFifo.call_push_of_lt (a := t) hfull
  have hlen := h.held_length
  have hin : q.writePosition < kRingBufferLength length := by
    rw [kRingBufferLength_eq hlength]; omega
  have hnext := nextPosition_of_lt hpos (Nat.lt_of_succ_lt hlength) hin
  obtain ⟨q₁, hq₁⟩ := writeSlot_of_lt (q := q) (t := t) hin
  obtain ⟨hr₁, hw₁⟩ := writeSlot_positions hq₁
  refine ⟨{ q₁ with writePosition := q.writePosition + 1 }, ?_, ?_⟩
  · have hne : q.writePosition + 1 ≠ q.readPosition := by omega
    simp [call, LockFreeQueue.push, hnext, hne, hq₁, hreply]
  · refine ⟨?_, by simp only; omega, ?_, ?_, ?_⟩
    · simp [pushes_concat, isPush, h.write_eq]
    · simp only [hheld, hr₁, List.length_append, List.length_singleton]; omega
    · intro i hi
      rw [hheld, List.length_append, List.length_singleton] at hi
      show q₁.slot (q₁.readPosition + i) = _
      rw [hheld, hr₁, slot_writeSlot hq₁]
      rcases Nat.lt_or_ge i b.held.length with hlt | hge
      · rw [if_neg (by omega), h.slots i hlt, List.getElem?_append_left hlt]
      · have hi' : i = b.held.length := by omega
        rw [if_pos (by omega), hi', List.getElem?_concat_length]
    · show 0 < q₁.readPosition ↔ _
      rw [hr₁, h.moved, removes_concat]
      simp [isRemoval]

include hpos hlength in
/-- A `Push` without room is accepted by a queue that should refuse it, or has
no result. -/
theorem Tracks.push_no_room (h : Tracks before q b) (hroom : ¬ Room length before) (t : T)
    (q' : LockFreeQueue T length) : q.call (.push t) ≠ some ((b.call (.push t)).1, q') := by
  intro hcall
  rcases h.full_or_outside hroom with ⟨hheld, hw, hr⟩ | ⟨hw, hr⟩
  · -- the slot behind the last one is still in the vector, so the queue takes it
    have hin : q.writePosition < kRingBufferLength length := by
      rw [kRingBufferLength_eq hlength]; omega
    have hnext := nextPosition_of_lt hpos (Nat.lt_of_succ_lt hlength) hin
    obtain ⟨q₁, hq₁⟩ := writeSlot_of_lt (q := q) (t := t) hin
    rw [BoundedFifo.call_push_of_full (by omega)] at hcall
    simp [call, LockFreeQueue.push, hnext, hr, hq₁] at hcall
  · -- The successor of a position past the ring is `0` at most, never a read position.
    have hnext : nextPosition length q.writePosition ≠ q.readPosition := by
      have := h.held_length
      rw [nextPosition_eq hpos hlength, hw]
      omega
    have hout : q.writeSlot q.writePosition t = none := by
      unfold writeSlot
      rw [dif_neg (by rw [kRingBufferLength_eq hlength]; omega)]
    simp [call, LockFreeQueue.push, hnext, hout] at hcall

include hpos hlength in
theorem Tracks.pop (h : Tracks before q b) :
    ∃ q', q.call .pop = some ((b.call .pop).1, q') ∧
      Tracks (before ++ [.pop]) q' (b.call .pop).2 := by
  have hlen := h.held_length
  have hle := h.write_le
  have hpush : pushes (before ++ [.pop]) = pushes before := by simp [pushes_concat, isPush]
  rcases hheld : b.held with _ | ⟨t, l⟩
  · rw [hheld, List.length_nil] at hlen
    refine ⟨q, ?_, ?_⟩
    · simp [call, LockFreeQueue.pop, h.empty_iff.mpr hheld, BoundedFifo.call, BoundedFifo.take,
        hheld]
    · refine ⟨hpush ▸ h.write_eq, hle, ?_, ?_, ?_⟩
      · simp [BoundedFifo.call, BoundedFifo.take, hheld, hlen]
      · simp [BoundedFifo.call, BoundedFifo.take, hheld]
      · rw [removes_concat, ← h.moved, ← h.write_eq]
        simp only [isRemoval, and_true]
        omega
  · rw [hheld, List.length_cons] at hlen
    have hslot : q.slot q.readPosition = some t := by
      have := h.slots 0 (by simp [hheld])
      simpa [hheld] using this
    have hne : ¬ q.empty = true := by simp [h.empty_iff, hheld]
    have hnext : nextPosition length q.readPosition = q.readPosition + 1 :=
      nextPosition_of_lt hpos (Nat.lt_of_succ_lt hlength)
        (by rw [kRingBufferLength_eq hlength]; omega)
    refine ⟨{ q with readPosition := q.readPosition + 1 }, ?_, ?_⟩
    · simp [call, LockFreeQueue.pop, hne, hslot, hnext, BoundedFifo.call, BoundedFifo.take, hheld]
    · refine ⟨hpush ▸ h.write_eq, hle, ?_, ?_, ?_⟩
      · simp only [BoundedFifo.call, BoundedFifo.take, hheld, List.tail_cons]
        omega
      · intro i hi
        simp only [BoundedFifo.call, BoundedFifo.take, hheld, List.tail_cons] at hi ⊢
        have := h.slots (i + 1) (by simp [hheld]; omega)
        rw [hheld, List.getElem?_cons_succ] at this
        rw [← this]
        show q.slot _ = q.slot _
        congr 1
        omega
      · rw [removes_concat, ← h.write_eq]
        simp only [isRemoval, and_true]
        exact ⟨fun _ => Or.inr (by omega), fun _ => Nat.succ_pos _⟩

theorem Tracks.clear (h : Tracks before q b) :
    ∃ q', q.call .clear = some ((b.call .clear).1, q') ∧
      Tracks (before ++ [.clear]) q' (b.call .clear).2 := by
  have hlen := h.held_length
  have hpush : pushes (before ++ [.clear]) = pushes before := by simp [pushes_concat, isPush]
  have hq : q.clear.readPosition = q.writePosition ∧ q.clear.writePosition = q.writePosition := by
    unfold LockFreeQueue.clear
    by_cases he : q.readPosition = q.writePosition <;> simp [he]
  refine ⟨q.clear, rfl, ?_, ?_, ?_, ?_, ?_⟩
  · rw [hq.2, hpush, h.write_eq]
  · rw [hq.2]; exact h.write_le
  · rw [hq.1, hq.2]; rfl
  · intro i hi; exact absurd hi (Nat.not_lt_zero i)
  · rw [hq.1, removes_concat, ← h.moved, ← h.write_eq]
    simp only [isRemoval, and_true]
    omega

theorem Tracks.size (h : Tracks before q b) :
    ∃ q', q.call .size = some ((b.call .size).1, q') ∧
      Tracks (before ++ [.size]) q' (b.call .size).2 := by
  have hlen := h.held_length
  refine ⟨q, ?_, ?_, h.write_le, hlen, h.slots, ?_⟩
  · have hsize : q.size = b.held.length := by rw [size_eq (by omega)]; omega
    simp [call, BoundedFifo.call, hsize]
  · simp [pushes_concat, isPush, h.write_eq]
  · rw [removes_concat, h.moved]; simp [isRemoval]

theorem Tracks.empty (h : Tracks before q b) :
    ∃ q', q.call .empty = some ((b.call .empty).1, q') ∧
      Tracks (before ++ [.empty]) q' (b.call .empty).2 := by
  refine ⟨q, ?_, ?_, h.write_le, h.held_length, h.slots, ?_⟩
  · have hempty : q.empty = b.held.isEmpty := by
      rw [Bool.eq_iff_iff, h.empty_iff, List.isEmpty_iff]
    simp [call, BoundedFifo.call, hempty]
  · simp [pushes_concat, isPush, h.write_eq]
  · rw [removes_concat, h.moved]; simp [isRemoval]

include hpos hlength in
/-- One call keeps the two queues together, a `Push` provided there is room. -/
theorem Tracks.call (h : Tracks before q b) (c : FifoCall T)
    (hroom : ∀ t, c = .push t → Room length before) :
    ∃ q', q.call c = some ((b.call c).1, q') ∧ Tracks (before ++ [c]) q' (b.call c).2 := by
  cases c with
  | push t => exact h.push hpos hlength (hroom t rfl) t
  | pop => exact h.pop hpos hlength
  | clear => exact h.clear
  | size => exact h.size
  | empty => exact h.empty

include hpos hlength in
/-- From queues that go together, the calls are answered alike iff each `Push`
among them finds room. -/
theorem Tracks.refines_iff {calls : List (FifoCall T)} (h : Tracks before q b) :
    BoundedFifo.Refines LockFreeQueue.call LockFreeQueue.contents q b calls ↔
      ∀ pre t post, calls = pre ++ .push t :: post → Room length (before ++ pre) := by
  induction calls generalizing before q b with
  | nil =>
    refine ⟨fun _ pre t post he => ?_, fun _ => h.contents hlength⟩
    simp at he
  | cons c calls ih =>
    by_cases hroom : ∀ t, c = .push t → Room length before
    · obtain ⟨q', hq', h'⟩ := h.call hpos hlength c hroom
      rw [BoundedFifo.refines_cons_iff (h.contents hlength) hq', ih h']
      constructor
      · intro hall pre t post he
        rcases List.cons_eq_append_iff.mp he with ⟨rfl, hpost⟩ | ⟨pre, rfl, hcalls⟩
        · rw [List.append_nil]
          exact hroom t (List.cons_eq_cons.mp hpost).1.symm
        · have hlater := hall pre t post hcalls
          rwa [List.append_assoc] at hlater
      · intro hall pre t post he
        rw [List.append_assoc]
        exact hall (c :: pre) t post (by rw [he]; rfl)
    · -- the first `Push` without room ends both sides
      obtain ⟨t, rfl, hno⟩ : ∃ t, c = .push t ∧ ¬ Room length before := by
        simpa only [not_forall, exists_prop] using hroom
      constructor
      · rintro ⟨-, q', hq', -⟩
        exact absurd hq' (h.push_no_room hpos hlength hno t q')
      · intro hall
        have hfirst := hall [] t calls rfl
        rw [List.append_nil] at hfirst
        exact absurd hfirst hno

end Step

/-! ## The result -/

/-- Refinement along one call sequence: from a constructed queue, every call has
the reply a bounded queue of capacity `length` gives, and the elements held are
that queue's, before and after each call. -/
def RefinesFifo (T : Type u) [Inhabited T] (length : Nat) (calls : List (FifoCall T)) : Prop :=
  BoundedFifo.Refines LockFreeQueue.call LockFreeQueue.contents (fresh T length)
    (BoundedFifo.new T length) calls

/-- **`LockFreeQueue` is a bounded queue of capacity `length` on the first lap of
the ring and no further.** -/
theorem refinesFifo_iff [Inhabited T] (hpos : 1 ≤ length) (hlength : length + 1 < 2 ^ 32)
    (calls : List (FifoCall T)) : RefinesFifo T length calls ↔ FirstLap length calls :=
  tracks_fresh.refines_iff hpos hlength

/-- No more calls than the capacity is one way to stay on the first lap. -/
theorem firstLap_of_length_le {calls : List (FifoCall T)} (h : calls.length ≤ length) :
    FirstLap length calls := by
  rintro before t after rfl
  have : pushes before ≤ before.length := List.countP_le_length
  simp only [List.length_append, List.length_cons] at h
  exact Or.inl (by omega)

/-- The calls of the basic test, on the default 128-slot queue. -/
theorem refinesFifo_basic_test : RefinesFifo Nat 128
    [.push 3, .push 9, .push 19, .size, .pop, .pop, .size, .empty, .clear, .empty] :=
  (refinesFifo_iff (by decide) (by decide) _).mpr (firstLap_of_length_le (by decide))

/-- A queue of capacity 1 takes a second element, and has no result for the
`Push` that comes after two laps' worth of `Push` and `Pop`. -/
theorem not_refinesFifo_one : ¬ RefinesFifo Nat 1 [.push 3, .push 9] ∧
    ¬ RefinesFifo Nat 1 [.push 3, .pop, .push 9, .pop, .push 19] := by
  constructor
  · rintro ⟨-, q₁, h₁, -, q₂, h₂, -⟩
    have hrun : ((fresh Nat 1).call (.push 3)).bind (fun x => (x.2.call (.push 9)).map Prod.fst) =
        some (.pushed true) := by decide
    rw [h₁, Option.bind_some, h₂, Option.map_some] at hrun
    have hfull : (((BoundedFifo.new Nat 1).call (.push 3)).2.call (.push 9)).1 =
        .pushed false := rfl
    exact absurd (hfull.symm.trans (Option.some.inj hrun)) (by decide)
  · rintro ⟨-, q₁, h₁, -, q₂, h₂, -, q₃, h₃, -, q₄, h₄, -, q₅, h₅, -⟩
    have hrun : (((((fresh Nat 1).call (.push 3)).bind fun x => x.2.call .pop).bind
        fun x => x.2.call (.push 9)).bind fun x => x.2.call .pop).bind
        (fun x => (x.2.call (.push 19)).map Prod.fst) = none := by decide
    rw [h₁, Option.bind_some, h₂, Option.bind_some, h₃, Option.bind_some, h₄, Option.bind_some,
      h₅] at hrun
    cases hrun

end MySvrKit.LockFreeQueue
