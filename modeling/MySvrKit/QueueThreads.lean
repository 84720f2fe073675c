import Mathlib.Logic.Function.Basic
import MySvrKit.LockFreeQueue
import MySvrKit.Transition

/-! # Threads sharing one `LockFreeQueue`

Any number of threads call the queue's operations.  One step is one atomic load
or store of a position, or one read or write of a slot, in the order of the
source; everything a thread does between two of them is local and happens with
the first.  `Local` says which access a thread makes next and holds the local
variables it has by then.  C++ leaves the order of the two loads in `Empty`
open, so a step that makes the first of them says which it is. -/

universe u v

namespace MySvrKit

/-- Where a thread stands in `Empty`. -/
inductive EmptyLocal
  | start
  | haveRead (readPos : Nat)
  | haveWrite (writePos : Nat)

/-- Where a thread stands in the call it is making: the access it makes next and
its local variables. -/
inductive Local (T : Type u)
  | idle
  | pushLoadWrite (t : T)
  | pushLoadRead (t : T) (oldWritePos newWritePos : Nat)
  | pushWriteSlot (t : T) (oldWritePos newWritePos : Nat)
  | pushStoreWrite (t : T) (oldWritePos newWritePos : Nat)
  | popEmpty (e : EmptyLocal)
  | popLoadRead
  | popReadSlot (oldReadPos newReadPos : Nat)
  | popStoreRead (t : T) (oldReadPos newReadPos : Nat)
  | clearLoadRead
  | clearLoadWrite (readPos : Nat)
  | clearStoreRead (readPos writePos : Nat)
  | sizeLoadRead
  | sizeLoadWrite (readPos : Nat)
  | sizeEmpty (readPos writePos : Nat) (e : EmptyLocal)
  | emptyCall (e : EmptyLocal)

/-- What a call has come to, at its last access: `accepted` and `refused` end a
`Push`, `returned` and `foundEmpty` a `Pop`, `discarded` is `Clear`'s store. -/
inductive QueueEvent (T : Type u)
  | accepted (t : T)
  | refused
  | returned (t : T)
  | foundEmpty
  | discarded (ts : List T)
  | sized (n : Nat)
  | wasEmpty (b : Bool)

namespace QueueEvent
variable {T : Type u}

/-- The elements whose `Push` returned true, in the order of publication. -/
def accepts (history : List (QueueEvent T)) : List T :=
  history.filterMap fun
    | .accepted t => some t
    | _ => none

/-- The elements successful `Pop`s returned, in order. -/
def returns (history : List (QueueEvent T)) : List T :=
  history.filterMap fun
    | .returned t => some t
    | _ => none

/-- The elements `Pop` returned or `Clear` discarded, in order. -/
def removals (history : List (QueueEvent T)) : List T :=
  history.flatMap fun
    | .returned t => [t]
    | .discarded ts => ts
    | _ => []

@[simp] theorem accepts_append (h h' : List (QueueEvent T)) :
    accepts (h ++ h') = accepts h ++ accepts h' := List.filterMap_append

@[simp] theorem returns_append (h h' : List (QueueEvent T)) :
    returns (h ++ h') = returns h ++ returns h' := List.filterMap_append

@[simp] theorem removals_append (h h' : List (QueueEvent T)) :
    removals (h ++ h') = removals h ++ removals h' := List.flatMap_append

end QueueEvent

namespace LockFreeQueue
variable {T : Type u} {length : Nat}

/-- One load of `Empty`: what is loaded so far, or the answer. -/
def emptyStep (q : LockFreeQueue T length) (readFirst : Bool) : EmptyLocal → EmptyLocal ⊕ Bool
  | .start => .inl (if readFirst then .haveRead q.readPosition else .haveWrite q.writePosition)
  | .haveRead readPos => .inr (readPos = q.writePosition)
  | .haveWrite writePos => .inr (q.readPosition = writePos)

/-- One access of a call in progress: the queue, the thread's next place and what
the call has come to.  `none` where the access is outside `ring_buffer_`. -/
def advance (q : LockFreeQueue T length) (readFirst : Bool) :
    Local T → Option (LockFreeQueue T length × Local T × List (QueueEvent T))
  | .idle => none
  | .pushLoadWrite t =>
      some (q, .pushLoadRead t q.writePosition (nextPosition length q.writePosition), [])
  | .pushLoadRead t oldWritePos newWritePos =>
      if newWritePos = q.readPosition then
        some (q, .idle, [.refused])
      else
        some (q, .pushWriteSlot t oldWritePos newWritePos, [])
  | .pushWriteSlot t oldWritePos newWritePos =>
      (q.writeSlot oldWritePos t).map fun q' => (q', .pushStoreWrite t oldWritePos newWritePos, [])
  | .pushStoreWrite t _ newWritePos =>
      some ({ q with writePosition := newWritePos }, .idle, [.accepted t])
  | .popEmpty e =>
      match q.emptyStep readFirst e with
      | .inl e' => some (q, .popEmpty e', [])
      | .inr true => some (q, .idle, [.foundEmpty])
      | .inr false => some (q, .popLoadRead, [])
  | .popLoadRead =>
      some (q, .popReadSlot q.readPosition (nextPosition length q.readPosition), [])
  | .popReadSlot oldReadPos newReadPos =>
      (q.slot oldReadPos).map fun t => (q, .popStoreRead t oldReadPos newReadPos, [])
  | .popStoreRead t _ newReadPos =>
      some ({ q with readPosition := newReadPos }, .idle, [.returned t])
  | .clearLoadRead => some (q, .clearLoadWrite q.readPosition, [])
  | .clearLoadWrite readPos =>
      if readPos ≠ q.writePosition then
        some (q, .clearStoreRead readPos q.writePosition, [])
      else
        some (q, .idle, [])
  | .clearStoreRead _ writePos =>
      -- The store passes over the slots from the read position up to `writePos`.
      some ({ q with readPosition := writePos }, .idle,
        [.discarded { q with writePosition := writePos }.contents])
  | .sizeLoadRead => some (q, .sizeLoadWrite q.readPosition, [])
  | .sizeLoadWrite readPos => some (q, .sizeEmpty readPos q.writePosition .start, [])
  | .sizeEmpty readPos writePos e =>
      match q.emptyStep readFirst e with
      | .inl e' => some (q, .sizeEmpty readPos writePos e', [])
      | .inr true => some (q, .idle, [.sized 0])
      | .inr false => some (q, .idle, [.sized (sizeBetween length readPos writePos)])
  | .emptyCall e =>
      match q.emptyStep readFirst e with
      | .inl e' => some (q, .emptyCall e', [])
      | .inr b => some (q, .idle, [.wasEmpty b])

/-- The accesses of a call in progress, by branches of `advance`. -/
inductive Access (q : LockFreeQueue T length) :
    Local T → LockFreeQueue T length → Local T → List (QueueEvent T) → Prop
  | pushLoadWrite {t} : Access q (.pushLoadWrite t) q
      (.pushLoadRead t q.writePosition (nextPosition length q.writePosition)) []
  | pushFull {t old new} (hfull : new = q.readPosition) :
      Access q (.pushLoadRead t old new) q .idle [.refused]
  | pushLoadRead {t old new} (hroom : new ≠ q.readPosition) :
      Access q (.pushLoadRead t old new) q (.pushWriteSlot t old new) []
  | pushWriteSlot {t old new q'} (hq : q.writeSlot old t = some q') :
      Access q (.pushWriteSlot t old new) q' (.pushStoreWrite t old new) []
  | pushStoreWrite {t old new} :
      Access q (.pushStoreWrite t old new) { q with writePosition := new } .idle [.accepted t]
  | popEmptyLoad {readFirst e e'} (he : q.emptyStep readFirst e = .inl e') :
      Access q (.popEmpty e) q (.popEmpty e') []
  | popFoundEmpty {readFirst e} (he : q.emptyStep readFirst e = .inr true) :
      Access q (.popEmpty e) q .idle [.foundEmpty]
  | popNotEmpty {readFirst e} (he : q.emptyStep readFirst e = .inr false) :
      Access q (.popEmpty e) q .popLoadRead []
  | popLoadRead : Access q .popLoadRead q
      (.popReadSlot q.readPosition (nextPosition length q.readPosition)) []
  | popReadSlot {t old new} (hslot : q.slot old = some t) :
      Access q (.popReadSlot old new) q (.popStoreRead t old new) []
  | popStoreRead {t old new} :
      Access q (.popStoreRead t old new) { q with readPosition := new } .idle [.returned t]
  | clearLoadRead : Access q .clearLoadRead q (.clearLoadWrite q.readPosition) []
  | clearLoadWrite {readPos} (hne : readPos ≠ q.writePosition) :
      Access q (.clearLoadWrite readPos) q (.clearStoreRead readPos q.writePosition) []
  | clearNothing {readPos} (heq : readPos = q.writePosition) :
      Access q (.clearLoadWrite readPos) q .idle []
  | clearStoreRead {readPos writePos} :
      Access q (.clearStoreRead readPos writePos) { q with readPosition := writePos } .idle
        [.discarded { q with writePosition := writePos }.contents]
  | sizeLoadRead : Access q .sizeLoadRead q (.sizeLoadWrite q.readPosition) []
  | sizeLoadWrite {readPos} :
      Access q (.sizeLoadWrite readPos) q (.sizeEmpty readPos q.writePosition .start) []
  | sizeEmptyLoad {readPos writePos readFirst e e'} (he : q.emptyStep readFirst e = .inl e') :
      Access q (.sizeEmpty readPos writePos e) q (.sizeEmpty readPos writePos e') []
  | sizeZero {readPos writePos readFirst e} (he : q.emptyStep readFirst e = .inr true) :
      Access q (.sizeEmpty readPos writePos e) q .idle [.sized 0]
  | sizeBetween {readPos writePos readFirst e} (he : q.emptyStep readFirst e = .inr false) :
      Access q (.sizeEmpty readPos writePos e) q .idle
        [.sized (LockFreeQueue.sizeBetween length readPos writePos)]
  | emptyLoad {readFirst e e'} (he : q.emptyStep readFirst e = .inl e') :
      Access q (.emptyCall e) q (.emptyCall e') []
  | emptyAnswer {readFirst e b} (he : q.emptyStep readFirst e = .inr b) :
      Access q (.emptyCall e) q .idle [.wasEmpty b]

theorem access_of_advance {q q' : LockFreeQueue T length} {readFirst : Bool} {l l' : Local T}
    {events : List (QueueEvent T)} (h : q.advance readFirst l = some (q', l', events)) :
    q.Access l q' l' events := by
  cases l with
  | idle => cases h
  | pushLoadWrite t =>
    obtain ⟨rfl, rfl, rfl⟩ := h
    exact .pushLoadWrite
  | pushLoadRead t old new =>
    simp only [advance] at h
    split at h
    · rename_i hfull
      obtain ⟨rfl, rfl, rfl⟩ := h
      exact .pushFull hfull
    · rename_i hroom
      obtain ⟨rfl, rfl, rfl⟩ := h
      exact .pushLoadRead hroom
  | pushWriteSlot t old new =>
    obtain ⟨q₁, hq₁, he⟩ := Option.map_eq_some_iff.mp h
    obtain ⟨rfl, rfl, rfl⟩ := he
    exact .pushWriteSlot hq₁
  | pushStoreWrite t old new =>
    obtain ⟨rfl, rfl, rfl⟩ := h
    exact .pushStoreWrite
  | popEmpty e =>
    simp only [advance] at h
    split at h
    · rename_i he
      obtain ⟨rfl, rfl, rfl⟩ := h
      exact .popEmptyLoad he
    · rename_i he
      obtain ⟨rfl, rfl, rfl⟩ := h
      exact .popFoundEmpty he
    · rename_i he
      obtain ⟨rfl, rfl, rfl⟩ := h
      exact .popNotEmpty he
  | popLoadRead =>
    obtain ⟨rfl, rfl, rfl⟩ := h
    exact .popLoadRead
  | popReadSlot old new =>
    obtain ⟨t, ht, he⟩ := Option.map_eq_some_iff.mp h
    obtain ⟨rfl, rfl, rfl⟩ := he
    exact .popReadSlot ht
  | popStoreRead t old new =>
    obtain ⟨rfl, rfl, rfl⟩ := h
    exact .popStoreRead
  | clearLoadRead =>
    obtain ⟨rfl, rfl, rfl⟩ := h
    exact .clearLoadRead
  | clearLoadWrite readPos =>
    simp only [advance] at h
    split at h
    · rename_i hne
      obtain ⟨rfl, rfl, rfl⟩ := h
      exact .clearLoadWrite hne
    · rename_i heq
      obtain ⟨rfl, rfl, rfl⟩ := h
      exact .clearNothing (not_not.mp heq)
  | clearStoreRead readPos writePos =>
    obtain ⟨rfl, rfl, rfl⟩ := h
    exact .clearStoreRead
  | sizeLoadRead =>
    obtain ⟨rfl, rfl, rfl⟩ := h
    exact .sizeLoadRead
  | sizeLoadWrite readPos =>
    obtain ⟨rfl, rfl, rfl⟩ := h
    exact .sizeLoadWrite
  | sizeEmpty readPos writePos e =>
    simp only [advance] at h
    split at h
    · rename_i he
      obtain ⟨rfl, rfl, rfl⟩ := h
      exact .sizeEmptyLoad he
    · rename_i he
      obtain ⟨rfl, rfl, rfl⟩ := h
      exact .sizeZero he
    · rename_i he
      obtain ⟨rfl, rfl, rfl⟩ := h
      exact .sizeBetween he
  | emptyCall e =>
    simp only [advance] at h
    split at h
    · rename_i he
      obtain ⟨rfl, rfl, rfl⟩ := h
      exact .emptyLoad he
    · rename_i he
      obtain ⟨rfl, rfl, rfl⟩ := h
      exact .emptyAnswer he

/-- Where a thread stands when it has entered a call. -/
def enter : FifoCall T → Local T
  | .push t => .pushLoadWrite t
  | .pop => .popEmpty .start
  | .clear => .clearLoadRead
  | .size => .sizeLoadRead
  | .empty => .emptyCall .start

end LockFreeQueue

/-! ## Interleavings -/

/-- The shared queue, every thread's place, and the events so far in order. -/
structure QueueConfig (Tid : Type v) (T : Type u) (length : Nat) where
  queue : LockFreeQueue T length
  locals : Tid → Local T
  history : List (QueueEvent T)

/-- A thread enters a call, or makes the next access of the one it is in. -/
inductive QueueAction (Tid : Type v) (T : Type u)
  | call (i : Tid) (c : FifoCall T)
  | access (i : Tid) (readFirst : Bool)

/-- A fact about every thread's place, when thread `i` moves to `l`. -/
theorem forall_update {Tid : Type v} {T : Type u} [DecidableEq Tid] {p : Tid → Local T → Prop}
    {locals : Tid → Local T} {i : Tid} {l : Local T} (hi : p i l)
    (h : ∀ j, j ≠ i → p j (locals j)) : ∀ j, p j (Function.update locals i l j) := by
  intro j
  by_cases hj : j = i
  · subst hj; rwa [Function.update_self]
  · rw [Function.update_of_ne hj]; exact h j hj

namespace QueueConfig
variable {Tid : Type v} {T : Type u} {length : Nat} [DecidableEq Tid]

/-- A constructed queue and no calls. -/
def initial [Inhabited T] : QueueConfig Tid T length :=
  ⟨LockFreeQueue.fresh T length, fun _ => .idle, []⟩

/-- The configuration after an action; `none` where the action is not possible or
its access is outside `ring_buffer_`. -/
def next (x : QueueConfig Tid T length) : QueueAction Tid T → Option (QueueConfig Tid T length)
  | .call i c =>
      match x.locals i with
      | .idle => some { x with locals := Function.update x.locals i (LockFreeQueue.enter c) }
      | _ => none
  | .access i readFirst =>
      (x.queue.advance readFirst (x.locals i)).map fun (q, l, events) =>
        ⟨q, Function.update x.locals i l, x.history ++ events⟩

theorem next_call {x y : QueueConfig Tid T length} {i : Tid} {c : FifoCall T}
    (h : x.next (.call i c) = some y) :
    x.locals i = .idle ∧
      y = { x with locals := Function.update x.locals i (LockFreeQueue.enter c) } := by
  simp only [next] at h
  split at h
  · rename_i hidle
    exact ⟨hidle, (Option.some.inj h).symm⟩
  · cases h

theorem next_access {x y : QueueConfig Tid T length} {i : Tid} {readFirst : Bool}
    (h : x.next (.access i readFirst) = some y) :
    ∃ q l events, x.queue.Access (x.locals i) q l events ∧
      y = ⟨q, Function.update x.locals i l, x.history ++ events⟩ := by
  obtain ⟨⟨q, l, events⟩, ha, hy⟩ := Option.map_eq_some_iff.mp h
  exact ⟨q, l, events, LockFreeQueue.access_of_advance ha, hy.symm⟩

/-- The same where thread `i` makes only the calls `may i` allows. -/
def step (may : Tid → FifoCall T → Bool) (x : QueueConfig Tid T length) :
    QueueAction Tid T → Option (QueueConfig Tid T length)
  | .call i c => if may i c then x.next (.call i c) else none
  | .access i readFirst => x.next (.access i readFirst)

theorem step_call {may : Tid → FifoCall T → Bool} {x y : QueueConfig Tid T length} {i : Tid}
    {c : FifoCall T} (h : x.step may (.call i c) = some y) :
    may i c = true ∧ x.next (.call i c) = some y := by
  simp only [step] at h
  split at h
  · rename_i hmay
    exact ⟨hmay, h⟩
  · cases h

end QueueConfig

/-- Threads on a constructed queue, thread `i` making the calls `may i` allows.
A step has a result, so no access of a run is outside `ring_buffer_`. -/
def queueThreads (Tid : Type v) (T : Type u) [DecidableEq Tid] [Inhabited T] (length : Nat)
    (may : Tid → FifoCall T → Bool) :
    TransitionSystem (QueueConfig Tid T length) (QueueAction Tid T) where
  init x := x = QueueConfig.initial
  step x a y := x.step may a = some y

/-- Executing actions from the start is a run. -/
theorem queueThreads_exec {Tid : Type v} {T : Type u} [DecidableEq Tid] [Inhabited T]
    {length : Nat} {may : Tid → FifoCall T → Bool} {actions : List (QueueAction Tid T)}
    {x : QueueConfig Tid T length}
    (h : TransitionSystem.exec (QueueConfig.step may) QueueConfig.initial actions = some x) :
    (queueThreads Tid T length may).Reachable x :=
  (TransitionSystem.Reachable.initial rfl).exec (fun _ _ _ hs => hs) h

end MySvrKit
