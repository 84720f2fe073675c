import Mathlib.Data.List.Perm.Subperm
import MySvrKit.QueueDiscipline

/-! # Any number of producers and consumers

Threads that push and pop on one queue conserve its elements as long as every
step is disciplined: producers do not overlap between load and store, consumers
neither, and no consumer takes its position from an empty queue.  Without that
two producers may publish one slot for two accepted elements. -/

universe u v

namespace MySvrKit
open LockFreeQueue QueueEvent

namespace QueueConservation
variable {Tid : Type v} {T : Type u} {length : Nat}

/-- Every thread may push and pop. -/
def may (_ : Tid) : FifoCall T → Bool
  | .push _ => true
  | .pop => true
  | _ => false

/-- **Conservation.**  Accepted elements are returned at most once each and
nothing else is returned; with no call in progress, the accepted ones are those
returned and those `Size` counts. -/
def Conserves (x : QueueConfig Tid T length) : Prop :=
  (returns x.history).Subperm (accepts x.history) ∧
    ((∀ i, x.locals i = .idle) →
      (accepts x.history).length = (returns x.history).length + x.queue.size)

/-- Runs of threads that push and pop, every access disciplined. -/
def disciplined (Tid : Type v) (T : Type u) [DecidableEq Tid] [Inhabited T] (length : Nat) :
    TransitionSystem (QueueConfig Tid T length) (QueueAction Tid T) :=
  (queueThreads Tid T length may).restrict fun x a =>
    ∀ i readFirst, a = .access i readFirst → Disciplined x i

/-- The places of a `Push` or `Pop`. -/
def PushPopAt : Local T → Prop
  | .clearLoadRead | .clearLoadWrite _ | .clearStoreRead .. => False
  | _ => True

/-- Without `Clear`, what is removed is what is returned. -/
structure NoClear (x : QueueConfig Tid T length) : Prop where
  places : ∀ i, PushPopAt (x.locals i)
  removals_eq : removals x.history = returns x.history

theorem pushPopAt_access {q q' : LockFreeQueue T length} {l l' : Local T}
    {events : List (QueueEvent T)} (hl : PushPopAt l) (ha : q.Access l q' l' events) :
    PushPopAt l' ∧ removals events = returns events := by
  cases ha with
  | clearLoadRead | clearLoadWrite _ | clearNothing _ | clearStoreRead => exact hl.elim
  | _ => exact ⟨trivial, rfl⟩

theorem conserves_of_ordered {x : QueueConfig Tid T length} (h : Ordered x) (hc : NoClear x) :
    Conserves x := by
  rw [Conserves, ← hc.removals_eq]
  refine ⟨?_, fun _ => h.size_eq⟩
  rw [h.removals_eq]
  exact (List.take_sublist _ _).subperm

variable [DecidableEq Tid]

theorem NoClear.step {x y : QueueConfig Tid T length} {a : QueueAction Tid T} (h : NoClear x)
    (hs : x.step may a = some y) : NoClear y := by
  cases a with
  | call i c =>
    obtain ⟨hmay, hn⟩ := QueueConfig.step_call hs
    obtain ⟨-, rfl⟩ := QueueConfig.next_call hn
    have hc : PushPopAt (LockFreeQueue.enter c) := by cases c <;> trivial
    exact ⟨forall_update (p := fun _ l => PushPopAt l) hc fun j _ => h.places j, h.removals_eq⟩
  | access i readFirst =>
    obtain ⟨q, l, events, ha, rfl⟩ := QueueConfig.next_access hs
    obtain ⟨hl, he⟩ := pushPopAt_access (h.places i) ha
    refine ⟨forall_update (p := fun _ l => PushPopAt l) hl fun j _ => h.places j, ?_⟩
    rw [removals_append, returns_append, h.removals_eq, he]

/-- **Disciplined threads conserve the queue's elements**, however many there are
and however their steps interleave. -/
theorem conserves_of_disciplined [Inhabited T] (hpos : 1 ≤ length) (hlength : length < 2 ^ 32)
    {x : QueueConfig Tid T length} (h : (disciplined Tid T length).Reachable x) : Conserves x := by
  -- the order of the ring needs the discipline, the absence of `Clear` does not
  have hinv : Ordered x ∧ NoClear x := by
    refine h.invariant (I := fun x => Ordered x ∧ NoClear x) ?_ ?_
    · rintro _ rfl
      exact ⟨ordered_initial, fun _ => trivial, rfl⟩
    · rintro s a t ⟨ho, hc⟩ ⟨hd, hs⟩
      refine ⟨?_, hc.step hs⟩
      cases a with
      | call i c => exact ho.call (QueueConfig.step_call hs).2
      | access i readFirst => exact ho.access hpos hlength (hd i readFirst rfl) hs
  exact conserves_of_ordered hinv.1 hinv.2

/-- A step that is taken only if it is disciplined. -/
def disciplinedStep [Fintype Tid] (x : QueueConfig Tid T length) :
    QueueAction Tid T → Option (QueueConfig Tid T length)
  | .call i c => x.step may (.call i c)
  | .access i readFirst =>
      if Disciplined x i then x.step may (.access i readFirst) else none

/-- Executing disciplined steps from the start is a disciplined run. -/
theorem disciplined_exec [Fintype Tid] [Inhabited T] {actions : List (QueueAction Tid T)}
    {x : QueueConfig Tid T length}
    (h : TransitionSystem.exec disciplinedStep QueueConfig.initial actions = some x) :
    (disciplined Tid T length).Reachable x := by
  refine (TransitionSystem.Reachable.initial rfl).exec (fun s a t hs => ?_) h
  cases a with
  | call i c => exact ⟨nofun, hs⟩
  | access i readFirst =>
    simp only [disciplinedStep] at hs
    split at hs
    · rename_i hd
      exact ⟨fun j _ he => by cases he; exact hd, hs⟩
    · cases hs

/-- Two producers one after the other, while a consumer is in `Empty`. -/
def turns : List (QueueAction (Fin 3) Nat) :=
  .call 0 (.push 1) :: .call 2 .pop :: .access 2 true :: List.replicate 4 (.access 0 true) ++
    .call 1 (.push 2) :: List.replicate 4 (.access 1 true) ++ List.replicate 4 (.access 2 true)

theorem conserves_turns : ∃ x : QueueConfig (Fin 3) Nat 2,
    TransitionSystem.exec disciplinedStep QueueConfig.initial turns = some x ∧
      returns x.history = [1] ∧ Conserves x := by
  obtain ⟨x, hx⟩ : ∃ x : QueueConfig (Fin 3) Nat 2,
      TransitionSystem.exec disciplinedStep QueueConfig.initial turns = some x :=
    Option.isSome_iff_exists.mp (by decide)
  have hpopped : (TransitionSystem.exec disciplinedStep
      (QueueConfig.initial : QueueConfig (Fin 3) Nat 2) turns).map
        (fun x => returns x.history) = some [1] := by decide
  rw [hx] at hpopped
  exact ⟨x, hx, Option.some.inj hpopped,
    conserves_of_disciplined (by decide) (by decide) (disciplined_exec hx)⟩

/-- Two producers that take turns at every access of one `Push` each. -/
def overlappingPushes : List (QueueAction Bool Nat) :=
  .call false (.push 1) :: .call true (.push 2) ::
    (List.replicate 4 [.access false true, .access true true]).flatten

/-- Both elements are accepted, and one of them is held by no slot. -/
theorem not_conserves_overlappingPushes :
    ¬ ∀ x : QueueConfig Bool Nat 2, (queueThreads Bool Nat 2 may).Reachable x → Conserves x := by
  intro hall
  obtain ⟨x, hx⟩ : ∃ x : QueueConfig Bool Nat 2,
      TransitionSystem.exec (QueueConfig.step may) QueueConfig.initial overlappingPushes = some x :=
    Option.isSome_iff_exists.mp (by decide)
  have hcount : (TransitionSystem.exec (QueueConfig.step may)
      (QueueConfig.initial : QueueConfig Bool Nat 2) overlappingPushes).map (fun x =>
        ((accepts x.history).length, (returns x.history).length, x.queue.size)) =
          some (2, 0, 1) := by decide
  have hidle : (TransitionSystem.exec (QueueConfig.step may)
      (QueueConfig.initial : QueueConfig Bool Nat 2) overlappingPushes).map (fun x =>
        x.locals) = some fun _ => .idle := by
    apply congrArg some
    funext i
    cases i <;> rfl
  rw [hx] at hcount hidle
  obtain ⟨ha, hr, hs⟩ : (accepts x.history).length = 2 ∧ (returns x.history).length = 0 ∧
      x.queue.size = 1 := by
    simpa only [Option.map_some, Option.some.injEq, Prod.mk.injEq] using hcount
  have hconserved := (hall x (queueThreads_exec hx)).2 (congrFun (Option.some.inj hidle))
  omega

end QueueConservation
end MySvrKit
