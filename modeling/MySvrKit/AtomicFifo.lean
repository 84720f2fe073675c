import MySvrKit.BoundedFifo
import MySvrKit.Refinement
import Mathlib.Logic.Function.Basic

/-! # A first-in first-out queue whose operations are atomic

What a queue shared by threads is for.  A thread invokes an operation, the queue
performs it at some later instant, all at once, and the thread then gets its
answer.  `clear` alone takes two instants: it notes how many elements there are, and
takes that many off the front. -/

universe u v

/-- Where a thread's operation is. -/
inductive FifoStatus (α : Type u)
  | idle
  | called (c : FifoCall α)
  | clearing (n : Nat)
  | done (reply : FifoReply α)

/-- What is seen of a queue: operations and answers. -/
inductive FifoSeen (Tid : Type v) (α : Type u)
  | invoke (i : Tid) (c : FifoCall α)
  | respond (i : Tid) (reply : FifoReply α)

/-- The elements held, oldest first, and every thread's operation. -/
structure AtomicFifo (Tid : Type v) (α : Type u) where
  held : List α
  status : Tid → FifoStatus α

/-- A thread invokes an operation, has it performed, gets its answer. -/
inductive AtomicAction (Tid : Type v) (α : Type u)
  | invoke (i : Tid) (c : FifoCall α)
  | perform (i : Tid)
  | respond (i : Tid)

namespace AtomicFifo
variable {Tid : Type v} {α : Type u}

/-- The instant of an operation: what is held after it, and how far it is then. -/
def perform (held : List α) : FifoStatus α → Option (List α × FifoStatus α)
  | .called (.push a) => some (held ++ [a], .done (.pushed true))
  | .called .pop => some (held.tail, .done (.popped held.head?))
  | .called .clear => some (held, .clearing held.length)
  | .called .size => some (held, .done (.size held.length))
  | .called .empty => some (held, .done (.empty held.isEmpty))
  | .clearing n => some (held.drop n, .done .cleared)
  | .idle | .done _ => none

variable [DecidableEq Tid]

/-- One step. -/
def next (q : AtomicFifo Tid α) : AtomicAction Tid α → Option (AtomicFifo Tid α)
  | .invoke i c =>
      match q.status i with
      | .idle => some { q with status := Function.update q.status i (.called c) }
      | _ => none
  | .perform i =>
      (perform q.held (q.status i)).map fun (held, status) =>
        ⟨held, Function.update q.status i status⟩
  | .respond i =>
      match q.status i with
      | .done _ => some { q with status := Function.update q.status i .idle }
      | _ => none

/-- What is seen of a step. -/
def observe (q : AtomicFifo Tid α) : AtomicAction Tid α → List (FifoSeen Tid α)
  | .invoke i c => [.invoke i c]
  | .perform _ => []
  | .respond i =>
      match q.status i with
      | .done reply => [.respond i reply]
      | _ => []

end AtomicFifo

/-- The runs of a queue that starts with nothing in it. -/
def atomicFifo (Tid : Type v) (α : Type u) [DecidableEq Tid] :
    TransitionSystem (AtomicFifo Tid α) (AtomicAction Tid α) where
  init q := q = ⟨[], fun _ => .idle⟩
  step q a r := q.next a = some r

namespace AtomicFifo
variable {Tid : Type v} {α : Type u} [DecidableEq Tid] {q : AtomicFifo Tid α} {i : Tid}

/-- One step, and what is seen of it. -/
theorem shows_next {r : AtomicFifo Tid α} {a : AtomicAction Tid α} (h : q.next a = some r) :
    (atomicFifo Tid α).Shows observe q (q.observe a) r := TransitionSystem.Shows.step h

theorem shows_invoke {c : FifoCall α} (h : q.status i = .idle) :
    (atomicFifo Tid α).Shows observe q [.invoke i c]
      ⟨q.held, Function.update q.status i (.called c)⟩ :=
  shows_next (a := .invoke i c) (by simp only [next, h])

theorem shows_perform {held : List α} {status status' : FifoStatus α} (hi : q.status i = status)
    (h : perform q.held status = some (held, status')) :
    (atomicFifo Tid α).Shows observe q [] ⟨held, Function.update q.status i status'⟩ :=
  shows_next (a := .perform i) (by simp only [next, hi, h, Option.map_some])

theorem shows_respond {reply : FifoReply α} (h : q.status i = .done reply) :
    (atomicFifo Tid α).Shows observe q [.respond i reply]
      ⟨q.held, Function.update q.status i .idle⟩ := by
  have hshows := shows_next (q := q) (a := .respond i)
    (r := ⟨q.held, Function.update q.status i .idle⟩) (by simp only [next, h])
  simpa only [observe, h] using hshows

/-- An operation performed and answered at once. -/
theorem shows_answer {held : List α} {status : FifoStatus α} {reply : FifoReply α}
    (hi : q.status i = status) (h : perform q.held status = some (held, .done reply)) :
    (atomicFifo Tid α).Shows observe q [.respond i reply]
      ⟨held, Function.update q.status i .idle⟩ := by
  have hrespond := shows_respond (q := ⟨held, Function.update q.status i (.done reply)⟩) (i := i)
    (Function.update_self ..)
  simpa only [List.nil_append, Function.update_idem] using (shows_perform hi h).trans hrespond

end AtomicFifo
