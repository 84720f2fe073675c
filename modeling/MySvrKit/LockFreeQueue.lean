import Mathlib.Algebra.Group.Nat.Defs
import Mathlib.Data.List.Basic
import MySvrKit.BoundedFifo

/-! # `LockFreeQueue`: the ring and its operations

`2nd/lockfree/lock_free_queue.hpp`, one call at a time.  The two positions are
`uint32_t`; `kRingBufferLength` is a `size_t` computed from the `uint32_t` sum
`length + 1`.  A subscript of `ring_buffer_` outside the vector is undefined
behaviour, and the operation that makes it has no result (`none`). -/

universe u

namespace MySvrKit

/-- `kRingBufferLength`, the number of slots. -/
def kRingBufferLength (length : Nat) : Nat := (length + 1) % 2 ^ 32

/-- `NextPosition`: `position + 1 % kRingBufferLength`, in which `%` binds
tighter than `+`, cut to `uint32_t` on return. -/
def nextPosition (length position : Nat) : Nat :=
  (position + 1 % kRingBufferLength length) % 2 ^ 32

/-- The members of `LockFreeQueue<T, length>`. -/
structure LockFreeQueue (T : Type u) (length : Nat) where
  ringBuffer : Vector T (kRingBufferLength length)
  readPosition : Nat
  writePosition : Nat

namespace LockFreeQueue
variable {T : Type u} {length : Nat}

/-- A constructed queue: `kRingBufferLength` value-initialised slots. -/
def fresh (T : Type u) [Inhabited T] (length : Nat) : LockFreeQueue T length where
  ringBuffer := Vector.replicate _ default
  readPosition := 0
  writePosition := 0

/-- Reading `ring_buffer_[position]`. -/
def slot (q : LockFreeQueue T length) (position : Nat) : Option T := q.ringBuffer[position]?

/-- Assigning `ring_buffer_[position] = t`. -/
def writeSlot (q : LockFreeQueue T length) (position : Nat) (t : T) :
    Option (LockFreeQueue T length) :=
  if h : position < kRingBufferLength length then
    some { q with ringBuffer := q.ringBuffer.set position t }
  else
    none

/-- `Push`: whether `t` was accepted. -/
def push (q : LockFreeQueue T length) (t : T) : Option (Bool × LockFreeQueue T length) :=
  let oldWritePos := q.writePosition
  let newWritePos := nextPosition length oldWritePos
  let readPos := q.readPosition
  if newWritePos = readPos then
    some (false, q)
  else do
    let q ← q.writeSlot oldWritePos t
    return (true, { q with writePosition := newWritePos })

/-- `Empty`. -/
def empty (q : LockFreeQueue T length) : Bool := q.readPosition = q.writePosition

/-- `Pop`: the element assigned to `t`, or `none` where `Pop` returns false. -/
def pop (q : LockFreeQueue T length) : Option (Option T × LockFreeQueue T length) :=
  if q.empty then
    some (none, q)
  else do
    let oldReadPos := q.readPosition
    let newReadPos := nextPosition length oldReadPos
    let t ← q.slot oldReadPos
    return (some t, { q with readPosition := newReadPos })

/-- `Clear`. -/
def clear (q : LockFreeQueue T length) : LockFreeQueue T length :=
  let readPos := q.readPosition
  let writePos := q.writePosition
  if readPos ≠ writePos then { q with readPosition := writePos } else q

/-- What `Size` computes from its two loads once `Empty` has answered false: a
`size_t` expression in the first branch, a `uint32_t` one in the second. -/
def sizeBetween (length readPos writePos : Nat) : Nat :=
  if writePos < readPos then
    (kRingBufferLength length + 2 ^ 64 - readPos + writePos) % 2 ^ 64 % 2 ^ 32
  else
    writePos - readPos

/-- `Size`. -/
def size (q : LockFreeQueue T length) : Nat :=
  let readPos := q.readPosition
  let writePos := q.writePosition
  if q.empty then 0 else sizeBetween length readPos writePos

/-- One call, as an operation of a bounded queue. -/
def call (q : LockFreeQueue T length) :
    FifoCall T → Option (FifoReply T × LockFreeQueue T length)
  | .push t => (q.push t).map fun (accepted, q') => (.pushed accepted, q')
  | .pop => (q.pop).map fun (t, q') => (.popped t, q')
  | .clear => some (.cleared, q.clear)
  | .size => some (.size q.size, q)
  | .empty => some (.empty q.empty, q)

/-- The elements in the `n` slots from `position` on, going round the ring. -/
def slotsFrom (q : LockFreeQueue T length) (position : Nat) : Nat → List T
  | 0 => []
  | n + 1 =>
      (q.slot position).toList ++ q.slotsFrom ((position + 1) % kRingBufferLength length) n

/-- The elements held: the slots from `read_position_` up to `write_position_`. -/
def contents (q : LockFreeQueue T length) : List T :=
  q.slotsFrom q.readPosition
    (if q.writePosition < q.readPosition then
      kRingBufferLength length - q.readPosition + q.writePosition
    else
      q.writePosition - q.readPosition)

/-! ## Slots -/

theorem slot_isSome_iff {q : LockFreeQueue T length} {i : Nat} :
    (∃ t, q.slot i = some t) ↔ i < kRingBufferLength length := by
  unfold slot
  constructor
  · rintro ⟨t, ht⟩
    exact (Vector.getElem?_eq_some_iff.mp ht).1
  · intro h
    exact ⟨q.ringBuffer[i], Vector.getElem?_eq_getElem h⟩

/-- What a slot write does, and that it needs a subscript in range. -/
theorem writeSlot_eq_some_iff {q q' : LockFreeQueue T length} {i : Nat} {t : T} :
    q.writeSlot i t = some q' ↔
      ∃ h : i < kRingBufferLength length, q' = { q with ringBuffer := q.ringBuffer.set i t h } := by
  unfold writeSlot
  split
  · rename_i h
    simp only [Option.some.injEq]
    exact ⟨fun he => ⟨h, he.symm⟩, fun ⟨_, he⟩ => he.symm⟩
  · rename_i h
    simp [h]

theorem writeSlot_of_lt {q : LockFreeQueue T length} {i : Nat} {t : T}
    (h : i < kRingBufferLength length) : ∃ q', q.writeSlot i t = some q' :=
  ⟨_, writeSlot_eq_some_iff.mpr ⟨h, rfl⟩⟩

theorem writeSlot_positions {q q' : LockFreeQueue T length} {i : Nat} {t : T}
    (h : q.writeSlot i t = some q') :
    q'.readPosition = q.readPosition ∧ q'.writePosition = q.writePosition := by
  obtain ⟨_, rfl⟩ := writeSlot_eq_some_iff.mp h
  exact ⟨rfl, rfl⟩

/-- A slot write changes the slot it names and no other. -/
theorem slot_writeSlot {q q' : LockFreeQueue T length} {i : Nat} {t : T}
    (h : q.writeSlot i t = some q') (j : Nat) :
    q'.slot j = if j = i then some t else q.slot j := by
  obtain ⟨hi, rfl⟩ := writeSlot_eq_some_iff.mp h
  unfold slot
  simp only [Vector.getElem?_set hi]
  by_cases hj : i = j
  · simp [hj]
  · simp [hj, Ne.symm hj]

/-! ## Positions -/

theorem kRingBufferLength_eq (hlength : length + 1 < 2 ^ 32) :
    kRingBufferLength length = length + 1 :=
  Nat.mod_eq_of_lt hlength

/-- As written, `NextPosition` is the successor: it wraps at `2 ^ 32`, never at
the end of the ring. -/
theorem nextPosition_eq (hpos : 1 ≤ length) (hlength : length + 1 < 2 ^ 32) (position : Nat) :
    nextPosition length position = (position + 1) % 2 ^ 32 := by
  unfold nextPosition
  rw [kRingBufferLength_eq hlength, Nat.mod_eq_of_lt (by omega : 1 < length + 1)]

/-- The successor of a position in the ring is the next number, also where it is
no position of the ring any more. -/
theorem nextPosition_of_lt (hpos : 1 ≤ length) (hlength : length < 2 ^ 32) {position : Nat}
    (hp : position < kRingBufferLength length) : nextPosition length position = position + 1 := by
  rcases Nat.lt_or_ge (length + 1) (2 ^ 32) with h | h
  · rw [kRingBufferLength_eq h] at hp
    rw [nextPosition_eq hpos h, Nat.mod_eq_of_lt (by omega)]
  · -- The largest `uint32_t` has no slot at all.
    have hzero : length + 1 = 2 ^ 32 := by omega
    rw [kRingBufferLength, hzero, Nat.mod_self] at hp
    exact absurd hp (Nat.not_lt_zero _)

/-! ## Contents on the first lap -/

/-- The slots of a stretch that does not pass the end of the ring. -/
theorem slotsFrom_eq {q : LockFreeQueue T length} {l : List T} {r : Nat}
    (hr : r + l.length ≤ kRingBufferLength length)
    (hslot : ∀ i < l.length, q.slot (r + i) = l[i]?) : q.slotsFrom r l.length = l := by
  induction l generalizing r with
  | nil => rfl
  | cons t l ih =>
    have hhead : q.slot r = some t := hslot 0 (Nat.succ_pos _)
    rw [List.length_cons] at hr
    have htail : q.slotsFrom ((r + 1) % kRingBufferLength length) l.length = l := by
      by_cases hl : l = []
      · -- the last slot of the stretch may be the last of the ring
        subst hl
        rfl
      · have hpos : 0 < l.length := List.length_pos_of_ne_nil hl
        rw [Nat.mod_eq_of_lt (by omega)]
        apply ih
        · omega
        · intro i hi
          rw [Nat.add_assoc, Nat.add_comm 1 i]
          exact hslot (i + 1) (Nat.succ_lt_succ hi)
    rw [List.length_cons, slotsFrom, hhead, htail]
    rfl

/-- On the first lap the contents are read off the slots from the read position
on. -/
theorem contents_eq {q : LockFreeQueue T length} {l : List T}
    (hrw : q.readPosition + l.length = q.writePosition)
    (hw : q.writePosition ≤ kRingBufferLength length)
    (hslot : ∀ i < l.length, q.slot (q.readPosition + i) = l[i]?) : q.contents = l := by
  have hn : q.writePosition - q.readPosition = l.length := by omega
  rw [contents, if_neg (by omega), hn]
  exact slotsFrom_eq (by omega) hslot

/-- On the first lap `Size` is the distance of the positions. -/
theorem size_eq {q : LockFreeQueue T length} (hrw : q.readPosition ≤ q.writePosition) :
    q.size = q.writePosition - q.readPosition := by
  unfold size empty sizeBetween
  by_cases h : q.readPosition = q.writePosition
  · simp [h]
  · simp [h, Nat.not_lt.mpr hrw]

end LockFreeQueue
end MySvrKit
