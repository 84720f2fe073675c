import Mathlib.Data.Fintype.Basic
import Mathlib.Data.List.Basic
import MySvrKit.QueueThreads

/-! # What keeps the shared queue a queue

A `Push` is in its window from its load of the write position to its store, a
`Pop` or `Clear` from the load it bases its store on.  Where no two windows of
one side overlap, and a `Pop` takes its position from a queue that is not empty,
the accepted elements stand in the ring in order of acceptance, the write
position counts them and the read position counts the ones removed
(`Ordered`).  `Disciplined` is that condition on one step, and `Ordered.next`
the proof that such a step keeps the order, whatever the other threads are
doing. -/

universe u v

namespace MySvrKit
open LockFreeQueue QueueEvent

namespace Local
variable {T : Type u}

/-- In a `Push`, between the load and the store of the write position. -/
def InPush : Local T → Prop
  | .pushLoadRead .. | .pushWriteSlot .. | .pushStoreWrite .. => True
  | _ => False

/-- In a `Pop` or `Clear`, between the load the store depends on and the store. -/
def InRemoval : Local T → Prop
  | .popReadSlot .. | .popStoreRead .. | .clearStoreRead .. => True
  | _ => False

instance : DecidablePred (InPush (T := T)) := fun l => by
  cases l <;> first | exact .isTrue trivial | exact .isFalse id

instance : DecidablePred (InRemoval (T := T)) := fun l => by
  cases l <;> first | exact .isTrue trivial | exact .isFalse id

/-- What a thread's local variables say about the queue. -/
def Holds {length : Nat} (q : LockFreeQueue T length) : Local T → Prop
  | .pushLoadRead _ old new | .pushWriteSlot _ old new =>
      old = q.writePosition ∧ new = nextPosition length old
  | .pushStoreWrite t old new =>
      old = q.writePosition ∧ new = nextPosition length old ∧ q.slot old = some t
  | .popReadSlot old new =>
      old = q.readPosition ∧ new = nextPosition length old ∧ old < q.writePosition
  | .popStoreRead t old new =>
      old = q.readPosition ∧ new = nextPosition length old ∧ old < q.writePosition ∧
        q.slot old = some t
  | .clearStoreRead _ writePos => q.readPosition ≤ writePos ∧ writePos ≤ q.writePosition
  | _ => True

end Local

section
variable {Tid : Type v} {T : Type u} {length : Nat}

/-- The order in the ring: on the first lap, the slots hold the accepted elements
at their numbers, the read position of them have been removed, oldest first, and
no two threads are in the window of one side. -/
structure Ordered (x : QueueConfig Tid T length) : Prop where
  read_le : x.queue.readPosition ≤ x.queue.writePosition
  write_le : x.queue.writePosition ≤ kRingBufferLength length
  accepts_length : (accepts x.history).length = x.queue.writePosition
  removals_eq : removals x.history = (accepts x.history).take x.queue.readPosition
  slots : ∀ i, x.queue.readPosition ≤ i → i < x.queue.writePosition →
    x.queue.slot i = (accepts x.history)[i]?
  holds : ∀ i, (x.locals i).Holds x.queue
  one_push : ∀ i j, (x.locals i).InPush → (x.locals j).InPush → i = j
  one_removal : ∀ i j, (x.locals i).InRemoval → (x.locals j).InRemoval → i = j

/-- The condition on an access made from place `l`: a window is entered when no
thread is in a window of that side, and a `Pop` takes its read position from a
queue that is not empty. -/
def DisciplinedAt (x : QueueConfig Tid T length) : Local T → Prop
  | .pushLoadWrite _ => ∀ j, ¬ (x.locals j).InPush
  | .popLoadRead =>
      (∀ j, ¬ (x.locals j).InRemoval) ∧ x.queue.readPosition ≠ x.queue.writePosition
  | .clearLoadWrite _ => ∀ j, ¬ (x.locals j).InRemoval
  | _ => True

/-- Thread `i`'s next access is disciplined. -/
def Disciplined (x : QueueConfig Tid T length) (i : Tid) : Prop := DisciplinedAt x (x.locals i)

instance [Fintype Tid] (x : QueueConfig Tid T length) : DecidablePred (DisciplinedAt x) := fun l =>
  match l with
  | .pushLoadWrite _ => inferInstanceAs (Decidable (∀ j, ¬ (x.locals j).InPush))
  | .popLoadRead => inferInstanceAs (Decidable ((∀ j, ¬ (x.locals j).InRemoval) ∧ _ ≠ _))
  | .clearLoadWrite _ => inferInstanceAs (Decidable (∀ j, ¬ (x.locals j).InRemoval))
  | .idle | .pushLoadRead .. | .pushWriteSlot .. | .pushStoreWrite .. | .popEmpty _
  | .popReadSlot .. | .popStoreRead .. | .clearLoadRead | .clearStoreRead .. | .sizeLoadRead
  | .sizeLoadWrite _ | .sizeEmpty .. | .emptyCall _ => .isTrue trivial

instance [Fintype Tid] (x : QueueConfig Tid T length) (i : Tid) : Decidable (Disciplined x i) :=
  inferInstanceAs (Decidable (DisciplinedAt x _))

theorem ordered_initial [Inhabited T] :
    Ordered (QueueConfig.initial : QueueConfig Tid T length) where
  read_le := Nat.le_refl _
  write_le := Nat.zero_le _
  accepts_length := rfl
  removals_eq := rfl
  slots i _ h := absurd h (Nat.not_lt_zero i)
  holds _ := trivial
  one_push _ _ h := h.elim
  one_removal _ _ h := h.elim

/-- On the first lap, what is in the ring is what was accepted and not removed. -/
theorem Ordered.accepts_eq {x : QueueConfig Tid T length} (h : Ordered x) :
    accepts x.history = removals x.history ++ x.queue.contents := by
  have hread := h.read_le
  have hlen := h.accepts_length
  rw [h.removals_eq, contents_eq (l := (accepts x.history).drop x.queue.readPosition),
    List.take_append_drop]
  · rw [List.length_drop]; omega
  · exact h.write_le
  · intro i hi
    rw [List.length_drop] at hi
    rw [List.getElem?_drop]
    exact h.slots _ (by omega) (by omega)

theorem Ordered.size_eq {x : QueueConfig Tid T length} (h : Ordered x) :
    (accepts x.history).length = (removals x.history).length + x.queue.size := by
  have hread := h.read_le
  have hlen := h.accepts_length
  rw [LockFreeQueue.size_eq hread, h.removals_eq, List.length_take]
  omega

/-! ## Steps that leave the queue alone -/

variable [DecidableEq Tid]

/-- Windows stay exclusive when thread `i` moves to `l`, if it was in the window
before or nobody is. -/
theorem exclusive_update {w : Local T → Prop} {locals : Tid → Local T} {i : Tid} {l : Local T}
    (h : ∀ j k, w (locals j) → w (locals k) → j = k)
    (hl : w l → w (locals i) ∨ ∀ j, ¬ w (locals j)) :
    ∀ j k, w (Function.update locals i l j) → w (Function.update locals i l k) → j = k := by
  intro j k hj hk
  have alone : w l → ∀ m, m ≠ i → ¬ w (locals m) := by
    intro hw m hm hmw
    rcases hl hw with hi | hnone
    · exact hm (h m i hmw hi)
    · exact hnone m hmw
  by_cases hji : j = i <;> by_cases hki : k = i
  · rw [hji, hki]
  · subst hji
    rw [Function.update_self] at hj
    rw [Function.update_of_ne hki] at hk
    exact absurd hk (alone hj k hki)
  · subst hki
    rw [Function.update_self] at hk
    rw [Function.update_of_ne hji] at hj
    exact absurd hj (alone hk j hji)
  · rw [Function.update_of_ne hji] at hj
    rw [Function.update_of_ne hki] at hk
    exact h j k hj hk

/-- A thread's step that only loads keeps the order. -/
theorem Ordered.load {x : QueueConfig Tid T length} (h : Ordered x) {i : Tid} {l : Local T}
    {events : List (QueueEvent T)} (hl : l.Holds x.queue)
    (hpush : l.InPush → (x.locals i).InPush ∨ ∀ j, ¬ (x.locals j).InPush)
    (hremoval : l.InRemoval → (x.locals i).InRemoval ∨ ∀ j, ¬ (x.locals j).InRemoval)
    (ha : accepts events = []) (hr : removals events = []) :
    Ordered ⟨x.queue, Function.update x.locals i l, x.history ++ events⟩ where
  read_le := h.read_le
  write_le := h.write_le
  accepts_length := by rw [accepts_append, ha, List.append_nil]; exact h.accepts_length
  removals_eq := by
    rw [accepts_append, removals_append, ha, hr, List.append_nil, List.append_nil]
    exact h.removals_eq
  slots j h1 h2 := by rw [accepts_append, ha, List.append_nil]; exact h.slots j h1 h2
  holds := forall_update (p := fun _ l => l.Holds x.queue) hl fun j _ => h.holds j
  one_push := exclusive_update h.one_push hpush
  one_removal := exclusive_update h.one_removal hremoval

/-! ## Steps that change the queue -/

/-- The other threads' local variables stay right under a change of the queue that
leaves alone what their windows depend on. -/
theorem Local.Holds.frame {q q' : LockFreeQueue T length} {l : Local T} (h : l.Holds q)
    (hpush : l.InPush → q'.writePosition = q.writePosition ∧ q'.slot q.writePosition =
      q.slot q.writePosition)
    (hremoval : l.InRemoval → q'.readPosition = q.readPosition ∧
      q.writePosition ≤ q'.writePosition ∧
        (q.readPosition < q.writePosition → q'.slot q.readPosition = q.slot q.readPosition)) :
    l.Holds q' := by
  cases l with
  | pushLoadRead t old new | pushWriteSlot t old new =>
    obtain ⟨hold, hnew⟩ := h
    exact ⟨hold.trans (hpush trivial).1.symm, hnew⟩
  | pushStoreWrite t old new =>
    obtain ⟨hold, hnew, hslot⟩ := h
    obtain ⟨hw, hs⟩ := hpush trivial
    exact ⟨hold.trans hw.symm, hnew, by rw [hold, hs, ← hold]; exact hslot⟩
  | popReadSlot old new =>
    obtain ⟨hold, hnew, hlt⟩ := h
    obtain ⟨hr, hw, -⟩ := hremoval trivial
    exact ⟨hold.trans hr.symm, hnew, Nat.lt_of_lt_of_le hlt hw⟩
  | popStoreRead t old new =>
    obtain ⟨hold, hnew, hlt, hslot⟩ := h
    obtain ⟨hr, hw, hs⟩ := hremoval trivial
    refine ⟨hold.trans hr.symm, hnew, Nat.lt_of_lt_of_le hlt hw, ?_⟩
    rw [hold, hs (hold ▸ hlt), ← hold]
    exact hslot
  | clearStoreRead readPos writePos =>
    obtain ⟨hle, hle'⟩ := h
    obtain ⟨hr, hw, -⟩ := hremoval trivial
    exact ⟨hr ▸ hle, Nat.le_trans hle' hw⟩
  | _ => trivial

section Step
variable (hpos : 1 ≤ length) (hlength : length < 2 ^ 32)
variable {x : QueueConfig Tid T length} {i : Tid}

include hpos hlength in
/-- A `Push` publishes the position after the one it wrote. -/
theorem Local.Holds.store_new {q : LockFreeQueue T length} {t : T} {old new : Nat}
    (h : (Local.pushStoreWrite t old new).Holds q) : new = q.writePosition + 1 := by
  obtain ⟨hold, hnew, hslot⟩ := h
  rw [hnew, nextPosition_of_lt hpos hlength (slot_isSome_iff.mp ⟨t, hslot⟩), hold]

/-- The slot write of a `Push` touches the slot behind the last accepted one. -/
theorem Ordered.writeSlot (h : Ordered x) {t : T} {old new : Nat} {q' : LockFreeQueue T length}
    (hl : x.locals i = .pushWriteSlot t old new) (hq : x.queue.writeSlot old t = some q') :
    Ordered ⟨q', Function.update x.locals i (.pushStoreWrite t old new), x.history ++ []⟩ := by
  obtain ⟨hold, hnew⟩ : old = x.queue.writePosition ∧ new = nextPosition length old := by
    have := h.holds i
    rwa [hl] at this
  obtain ⟨hr, hw⟩ := writeSlot_positions hq
  have hslot := slot_writeSlot hq
  have hin : (x.locals i).InPush := by rw [hl]; trivial
  rw [List.append_nil]
  refine ⟨?_, ?_, ?_, ?_, ?_, ?_, ?_, ?_⟩
  · simp only [hr, hw]; exact h.read_le
  · simp only [hw]; exact h.write_le
  · simp only [hw]; exact h.accepts_length
  · simp only [hr]; exact h.removals_eq
  · -- the slot written is behind every published one
    intro j h1 h2
    simp only [hr, hw] at h1 h2 ⊢
    rw [hslot, if_neg (by omega)]
    exact h.slots j h1 h2
  · refine forall_update (p := fun _ l => l.Holds q') ?_ fun j hj => ?_
    · exact ⟨hold.trans hw.symm, hnew, by rw [hslot, if_pos rfl]⟩
    · refine (h.holds j).frame (fun hp => absurd (h.one_push j i hp hin) hj) fun _ => ?_
      refine ⟨hr, Nat.le_of_eq hw.symm, fun hlt => ?_⟩
      rw [hslot, if_neg (by omega)]
  · exact exclusive_update h.one_push fun _ => Or.inl hin
  · exact exclusive_update h.one_removal fun hf => hf.elim

include hpos hlength in
/-- The store of the write position publishes the element just written. -/
theorem Ordered.storeWrite (h : Ordered x) {t : T} {old new : Nat}
    (hl : x.locals i = .pushStoreWrite t old new) :
    Ordered ⟨{ x.queue with writePosition := new }, Function.update x.locals i .idle,
      x.history ++ [.accepted t]⟩ := by
  have hi : (Local.pushStoreWrite t old new).Holds x.queue := hl ▸ h.holds i
  have hnew := hi.store_new hpos hlength
  obtain ⟨hold, -, hslot⟩ := hi
  have hin : (x.locals i).InPush := by rw [hl]; trivial
  have hlt : old < kRingBufferLength length := slot_isSome_iff.mp ⟨t, hslot⟩
  have hread := h.read_le
  have hlen := h.accepts_length
  have hacc : accepts (x.history ++ [.accepted t]) = accepts x.history ++ [t] := by
    rw [accepts_append]; rfl
  have hrem : removals (x.history ++ [.accepted t]) = removals x.history := by
    rw [removals_append]; exact List.append_nil _
  refine ⟨?_, ?_, ?_, ?_, ?_, ?_, ?_, ?_⟩
  · simp only; omega
  · simp only; omega
  · simp only [hacc, List.length_append, List.length_singleton]; omega
  · simp only [hacc, hrem]
    rw [List.take_append_of_le_length (by omega)]
    exact h.removals_eq
  · intro j h1 h2
    simp only [hacc] at h1 h2 ⊢
    show x.queue.slot j = _
    rcases Nat.lt_or_ge j x.queue.writePosition with hj | hj
    · rw [List.getElem?_append_left (by omega)]
      exact h.slots j h1 hj
    · -- the last slot is the one written before the store
      have hjw : j = old := by omega
      have hjl : j = (accepts x.history).length := by omega
      rw [hjl, List.getElem?_concat_length, ← hjl, hjw, hslot]
  · refine forall_update (p := fun _ l => l.Holds _) trivial fun j hj => ?_
    refine (h.holds j).frame (fun hp => absurd (h.one_push j i hp hin) hj) fun _ => ?_
    exact ⟨rfl, by simp only; omega, fun _ => rfl⟩
  · exact exclusive_update h.one_push fun hf => hf.elim
  · exact exclusive_update h.one_removal fun hf => hf.elim

include hpos hlength in
/-- The store of a `Pop` releases the oldest element, which is the one it read. -/
theorem Ordered.storeRead (h : Ordered x) {t : T} {old new : Nat}
    (hl : x.locals i = .popStoreRead t old new) :
    Ordered ⟨{ x.queue with readPosition := new }, Function.update x.locals i .idle,
      x.history ++ [.returned t]⟩ := by
  obtain ⟨hold, hnew, hlt, hslot⟩ : old = x.queue.readPosition ∧ new = nextPosition length old ∧
      old < x.queue.writePosition ∧ x.queue.slot old = some t := by
    have := h.holds i
    rwa [hl] at this
  have hin : (x.locals i).InRemoval := by rw [hl]; trivial
  have hwle := h.write_le
  have hlen := h.accepts_length
  have hnew' : new = x.queue.readPosition + 1 := by
    rw [hnew, nextPosition_of_lt hpos hlength (Nat.lt_of_lt_of_le hlt hwle), hold]
  have hacc : accepts (x.history ++ [.returned t]) = accepts x.history := by
    rw [accepts_append]; exact List.append_nil _
  have hrem : removals (x.history ++ [.returned t]) = removals x.history ++ [t] := by
    rw [removals_append]; rfl
  have hget : (accepts x.history)[x.queue.readPosition]? = some t := by
    rw [← h.slots _ (Nat.le_refl _) (by omega), ← hold, hslot]
  refine ⟨?_, hwle, ?_, ?_, ?_, ?_, ?_, ?_⟩
  · simp only; omega
  · simp only [hacc]; exact hlen
  · simp only [hacc, hrem]
    rw [hnew', List.take_add_one, hget, h.removals_eq]
    rfl
  · intro j h1 h2
    simp only [hacc] at h1 h2 ⊢
    exact h.slots j (by omega) h2
  · refine forall_update (p := fun _ l => l.Holds _) trivial fun j hj => ?_
    exact (h.holds j).frame (fun _ => ⟨rfl, rfl⟩)
      fun hp => absurd (h.one_removal j i hp hin) hj
  · exact exclusive_update h.one_push fun hf => hf.elim
  · exact exclusive_update h.one_removal fun hf => hf.elim

/-- The store of a `Clear` releases every element up to the position it loaded. -/
theorem Ordered.storeClear (h : Ordered x) {readPos writePos : Nat}
    (hl : x.locals i = .clearStoreRead readPos writePos) :
    Ordered ⟨{ x.queue with readPosition := writePos }, Function.update x.locals i .idle,
      x.history ++ [.discarded { x.queue with writePosition := writePos }.contents]⟩ := by
  obtain ⟨hle, hle'⟩ : x.queue.readPosition ≤ writePos ∧ writePos ≤ x.queue.writePosition := by
    have := h.holds i
    rwa [hl] at this
  have hin : (x.locals i).InRemoval := by rw [hl]; trivial
  have hwle := h.write_le
  have hlen := h.accepts_length
  have hcontents : { x.queue with writePosition := writePos }.contents =
      ((accepts x.history).take writePos).drop x.queue.readPosition := by
    apply contents_eq
    · simp only [List.length_drop, List.length_take]; omega
    · simp only; omega
    · intro j hj
      simp only [List.length_drop, List.length_take] at hj
      show x.queue.slot (x.queue.readPosition + j) = _
      rw [List.getElem?_drop, List.getElem?_take_of_lt (by omega)]
      exact h.slots _ (by omega) (by omega)
  rw [hcontents]
  have hacc : ∀ ts, accepts (x.history ++ [.discarded ts]) = accepts x.history := by
    intro ts; rw [accepts_append]; exact List.append_nil _
  have hrem : ∀ ts, removals (x.history ++ [.discarded ts]) = removals x.history ++ ts := by
    intro ts; rw [removals_append]; simp [removals]
  refine ⟨hle', hwle, ?_, ?_, ?_, ?_, ?_, ?_⟩
  · simp only [hacc]; exact hlen
  · simp only [hacc, hrem]
    rw [h.removals_eq, ← Nat.min_eq_left hle, ← List.take_take, Nat.min_eq_left hle]
    exact List.take_append_drop _ _
  · intro j h1 h2
    simp only [hacc] at h1 h2 ⊢
    exact h.slots j (by omega) h2
  · refine forall_update (p := fun _ l => l.Holds _) trivial fun j hj => ?_
    exact (h.holds j).frame (fun _ => ⟨rfl, rfl⟩)
      fun hp => absurd (h.one_removal j i hp hin) hj
  · exact exclusive_update h.one_push fun hf => hf.elim
  · exact exclusive_update h.one_removal fun hf => hf.elim

include hpos hlength in
/-- **A disciplined access keeps the order**, one case per place a thread can
stand at. -/
theorem Ordered.access (h : Ordered x) (hd : Disciplined x i) {readFirst : Bool}
    {y : QueueConfig Tid T length} (hs : x.next (.access i readFirst) = some y) : Ordered y := by
  obtain ⟨q, l, events, ha, rfl⟩ := QueueConfig.next_access hs
  have hi := h.holds i
  unfold Disciplined at hd
  generalize hl : x.locals i = place at ha hi hd
  have hin : ∀ {w : Local T → Prop}, w place → w (x.locals i) := fun hw => hl ▸ hw
  cases ha with
  | pushLoadWrite => exact h.load ⟨rfl, rfl⟩ (fun _ => Or.inr hd) (fun hf => hf.elim) rfl rfl
  | pushLoadRead hroom =>
    exact h.load hi (fun _ => Or.inl (hin trivial)) (fun hf => hf.elim) rfl rfl
  | pushWriteSlot hq => exact h.writeSlot hl hq
  | pushStoreWrite => exact h.storeWrite hpos hlength hl
  | popLoadRead =>
    have hlt := Nat.lt_of_le_of_ne h.read_le hd.2
    exact h.load ⟨rfl, rfl, hlt⟩ (fun hf => hf.elim) (fun _ => Or.inr hd.1) rfl rfl
  | popReadSlot hslot =>
    obtain ⟨hold, hnew, hlt⟩ := hi
    exact h.load ⟨hold, hnew, hlt, hslot⟩ (fun hf => hf.elim)
      (fun _ => Or.inl (hin trivial)) rfl rfl
  | popStoreRead => exact h.storeRead hpos hlength hl
  | clearLoadWrite hne =>
    exact h.load ⟨h.read_le, Nat.le_refl _⟩ (fun hf => hf.elim) (fun _ => Or.inr hd) rfl rfl
  | clearStoreRead => exact h.storeClear hl
  -- the places left are outside the windows and say nothing about the queue
  | pushFull _ | popEmptyLoad _ | popFoundEmpty _ | popNotEmpty _ | clearLoadRead
  | clearNothing _ | sizeLoadRead | sizeLoadWrite | sizeEmptyLoad _ | sizeZero _ | sizeBetween _
  | emptyLoad _ | emptyAnswer _ =>
    exact h.load trivial (fun hf => hf.elim) (fun hf => hf.elim) rfl rfl

/-- Entering a call keeps the order. -/
theorem Ordered.call (h : Ordered x) {c : FifoCall T} {y : QueueConfig Tid T length}
    (hs : x.next (.call i c) = some y) : Ordered y := by
  obtain ⟨-, rfl⟩ := QueueConfig.next_call hs
  have hc : ¬ (LockFreeQueue.enter c).InPush ∧ ¬ (LockFreeQueue.enter c).InRemoval ∧
      (LockFreeQueue.enter c).Holds x.queue := by
    cases c <;> exact ⟨id, id, trivial⟩
  have hy : Ordered ⟨x.queue, Function.update x.locals i (LockFreeQueue.enter c),
      x.history ++ []⟩ :=
    h.load hc.2.2 (fun hf => absurd hf hc.1) (fun hf => absurd hf hc.2.1) rfl rfl
  rwa [List.append_nil] at hy

end Step
end

end MySvrKit
