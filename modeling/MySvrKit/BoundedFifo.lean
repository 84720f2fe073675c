import Mathlib.Data.List.Basic

/-! # Bounded first-in first-out queues

The abstract object a bounded queue implements: the elements held, oldest
first, never more than the capacity.  `call` is the meaning of one operation, and
`Refines` says that an implementation answers a sequence of calls as the bounded
queue does. -/

universe u v

/-- The operations of a bounded queue. -/
inductive FifoCall (α : Type u)
  | push (a : α)
  | pop
  | clear
  | size
  | empty
  deriving DecidableEq

/-- What an operation answers; `popped none` is a `pop` that found nothing. -/
inductive FifoReply (α : Type u)
  | pushed (accepted : Bool)
  | popped (a : Option α)
  | cleared
  | size (n : Nat)
  | empty (b : Bool)
  deriving DecidableEq

/-- A queue of at most `capacity` elements, oldest first. -/
structure BoundedFifo (α : Type u) (capacity : Nat) where
  held : List α
  bounded : held.length ≤ capacity

namespace BoundedFifo
variable {α : Type u} {capacity : Nat}

/-- The queue that holds nothing. -/
def new (α : Type u) (capacity : Nat) : BoundedFifo α capacity := ⟨[], Nat.zero_le _⟩

/-- Append `a` if there is room. -/
def offer (q : BoundedFifo α capacity) (a : α) : Bool × BoundedFifo α capacity :=
  if h : q.held.length < capacity then
    (true, ⟨q.held ++ [a], by simp only [List.length_append, List.length_singleton]; omega⟩)
  else
    (false, q)

/-- Remove the oldest element, if there is one. -/
def take (q : BoundedFifo α capacity) : Option α × BoundedFifo α capacity :=
  (q.held.head?, ⟨q.held.tail, by have := q.bounded; simp; omega⟩)

/-- One operation: its reply and the queue after it. -/
def call (q : BoundedFifo α capacity) : FifoCall α → FifoReply α × BoundedFifo α capacity
  | .push a => let (accepted, q') := q.offer a; (.pushed accepted, q')
  | .pop => let (a, q') := q.take; (.popped a, q')
  | .clear => (.cleared, new α capacity)
  | .size => (.size q.held.length, q)
  | .empty => (.empty q.held.isEmpty, q)

/-- `Refines call contents q b calls`: made one after another on `q`, the `calls`
all have a result, every reply is the one the bounded queue `b` gives, and before
and after each call the implementation holds what the bounded queue holds. -/
def Refines {Impl : Type v} (call : Impl → FifoCall α → Option (FifoReply α × Impl))
    (contents : Impl → List α) : Impl → BoundedFifo α capacity → List (FifoCall α) → Prop
  | q, b, [] => contents q = b.held
  | q, b, c :: cs =>
      contents q = b.held ∧
        ∃ q', call q c = some ((b.call c).1, q') ∧ Refines call contents q' (b.call c).2 cs

theorem offer_of_lt {q : BoundedFifo α capacity} {a : α} (h : q.held.length < capacity) :
    (q.offer a).1 = true ∧ (q.offer a).2.held = q.held ++ [a] := by
  simp [offer, h]

theorem offer_of_full {q : BoundedFifo α capacity} {a : α} (h : ¬ q.held.length < capacity) :
    q.offer a = (false, q) := by
  simp [offer, h]

theorem call_push_of_lt {q : BoundedFifo α capacity} {a : α} (h : q.held.length < capacity) :
    (q.call (.push a)).1 = .pushed true ∧ (q.call (.push a)).2.held = q.held ++ [a] := by
  obtain ⟨h1, h2⟩ := offer_of_lt (a := a) h
  exact ⟨by simp [call, h1], by simp [call, h2]⟩

theorem call_push_of_full {q : BoundedFifo α capacity} {a : α} (h : ¬ q.held.length < capacity) :
    q.call (.push a) = (.pushed false, q) := by
  simp [call, offer_of_full h]

/-- Past a call that has the right reply, refinement is refinement by what the
call leaves. -/
theorem refines_cons_iff {Impl : Type v} {call : Impl → FifoCall α → Option (FifoReply α × Impl)}
    {contents : Impl → List α} {q q' : Impl} {b : BoundedFifo α capacity} {c : FifoCall α}
    {cs : List (FifoCall α)} (hc : contents q = b.held) (h : call q c = some ((b.call c).1, q')) :
    Refines call contents q b (c :: cs) ↔ Refines call contents q' (b.call c).2 cs := by
  constructor
  · rintro ⟨-, q'', hq'', hcs⟩
    rw [h] at hq''
    obtain rfl := (Prod.mk.inj (Option.some.inj hq'')).2
    exact hcs
  · intro hcs
    exact ⟨hc, q', h, hcs⟩

end BoundedFifo
