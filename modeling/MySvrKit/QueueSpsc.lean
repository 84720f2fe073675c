import MySvrKit.QueueDiscipline

/-! # One producer and one consumer

The use the queue is written for: one thread pushes, another pops and clears, and
both may ask `Size` and `Empty`.  Every step of such a run is disciplined.  The
producer is alone in its window; what the consumer loads in `Empty` stays below
what it will find, because only the consumer moves the read position and the
write position only grows. -/

universe u

namespace MySvrKit
open LockFreeQueue QueueEvent

/-- The two threads. -/
inductive Role
  | producer
  | consumer
  deriving DecidableEq

namespace Role
variable {T : Type u} {length : Nat}

/-- The calls each of them makes. -/
def may : Role → FifoCall T → Bool
  | .producer, .push _ => true
  | .consumer, .pop => true
  | .consumer, .clear => true
  | _, .size => true
  | _, .empty => true
  | _, _ => false

/-- The places the producer can stand at. -/
def ProducerAt : Local T → Prop
  | .popEmpty _ | .popLoadRead | .popReadSlot .. | .popStoreRead .. | .clearLoadRead
  | .clearLoadWrite _ | .clearStoreRead .. => False
  | _ => True

/-- The places the consumer can stand at, with what `Empty` has told it. -/
def ConsumerAt (q : LockFreeQueue T length) : Local T → Prop
  | .pushLoadWrite _ | .pushLoadRead .. | .pushWriteSlot .. | .pushStoreWrite .. => False
  | .popEmpty (.haveRead readPos) => readPos = q.readPosition
  | .popEmpty (.haveWrite writePos) => q.readPosition ≤ writePos ∧ writePos ≤ q.writePosition
  | .popLoadRead => q.readPosition < q.writePosition
  | _ => True

theorem not_inRemoval_of_producerAt {l : Local T} (h : ProducerAt l) : ¬ l.InRemoval := by
  cases l <;> first | exact h.elim | exact id

theorem not_inPush_of_consumerAt {q : LockFreeQueue T length} {l : Local T}
    (h : ConsumerAt q l) : ¬ l.InPush := by
  cases l <;> first | exact h.elim | exact id

/-- The invariant of a run with one producer and one consumer. -/
structure Inv (x : QueueConfig Role T length) : Prop where
  ordered : Ordered x
  producer : ProducerAt (x.locals .producer)
  consumer : ConsumerAt x.queue (x.locals .consumer)

theorem Inv.disciplined {x : QueueConfig Role T length} (h : Inv x) (i : Role) :
    Disciplined x i := by
  unfold Disciplined
  cases i with
  | producer =>
    have hp := h.producer
    cases hl : x.locals .producer with
    | pushLoadWrite t =>
      rintro (_ | _)
      · rw [hl]; exact id
      · exact not_inPush_of_consumerAt h.consumer
    | popLoadRead | clearLoadWrite _ => rw [hl] at hp; exact hp.elim
    | _ => trivial
  | consumer =>
    have hc := h.consumer
    cases hl : x.locals .consumer with
    | pushLoadWrite t => rw [hl] at hc; exact hc.elim
    | popLoadRead =>
      rw [hl] at hc
      refine ⟨?_, Nat.ne_of_lt hc⟩
      rintro (_ | _)
      · exact not_inRemoval_of_producerAt h.producer
      · rw [hl]; exact id
    | clearLoadWrite _ =>
      rintro (_ | _)
      · exact not_inRemoval_of_producerAt h.producer
      · rw [hl]; exact id
    | _ => trivial

/-- What the producer has done to the queue leaves the consumer's place right. -/
theorem ConsumerAt.mono {q q' : LockFreeQueue T length} {l : Local T} (h : ConsumerAt q l)
    (hr : q'.readPosition = q.readPosition) (hw : q.writePosition ≤ q'.writePosition) :
    ConsumerAt q' l := by
  cases l with
  | popEmpty e =>
    cases e with
    | start => trivial
    | haveRead readPos => exact Eq.trans h hr.symm
    | haveWrite writePos => exact ⟨hr ▸ h.1, Nat.le_trans h.2 hw⟩
  | popLoadRead => exact Nat.lt_of_le_of_lt (Nat.le_of_eq hr) (Nat.lt_of_lt_of_le h hw)
  | pushLoadWrite _ | pushLoadRead _ _ _ | pushWriteSlot _ _ _ | pushStoreWrite _ _ _ => exact h
  | _ => trivial

variable (hpos : 1 ≤ length) (hlength : length < 2 ^ 32)

include hpos hlength in
/-- An access of the producer: it stays a producer, does not touch the read
position and does not take the write position back. -/
theorem producer_access {q q' : LockFreeQueue T length} {l l' : Local T}
    {events : List (QueueEvent T)} (hl : ProducerAt l) (hq : l.Holds q)
    (ha : q.Access l q' l' events) :
    ProducerAt l' ∧ q'.readPosition = q.readPosition ∧ q.writePosition ≤ q'.writePosition := by
  cases ha with
  | pushWriteSlot hslot =>
    obtain ⟨hr, hw⟩ := writeSlot_positions hslot
    exact ⟨trivial, hr, Nat.le_of_eq hw.symm⟩
  | @pushStoreWrite t old new =>
    have hnew : new = q.writePosition + 1 := hq.store_new hpos hlength
    refine ⟨trivial, rfl, ?_⟩
    show q.writePosition ≤ new
    omega
  | pushLoadWrite | pushFull _ | pushLoadRead _ | sizeLoadRead | sizeLoadWrite | sizeEmptyLoad _
  | sizeZero _ | sizeBetween _ | emptyLoad _ | emptyAnswer _ =>
    exact ⟨trivial, rfl, Nat.le_refl _⟩
  | _ => exact hl.elim

/-- One load of `Empty` by the consumer: it goes on knowing what it has loaded, or the
answer is right for as long as only producers move, the read position being its
own. -/
theorem consumer_emptyStep {q : LockFreeQueue T length} (readFirst : Bool) {e : EmptyLocal}
    (hle : q.readPosition ≤ q.writePosition) (hl : ConsumerAt q (.popEmpty e)) :
    match q.emptyStep readFirst e with
    | .inl e' => ConsumerAt q (.popEmpty e')
    | .inr b => b = false → q.readPosition < q.writePosition := by
  cases e with
  | start =>
    cases readFirst
    · exact ⟨hle, Nat.le_refl _⟩
    · rfl
  | haveRead readPos =>
    obtain rfl : readPos = q.readPosition := hl
    intro hne
    exact Nat.lt_of_le_of_ne hle (of_decide_eq_false hne)
  | haveWrite writePos =>
    -- the write position may have grown since it was loaded
    obtain ⟨h1, h2⟩ := hl
    intro hne
    exact Nat.lt_of_lt_of_le (Nat.lt_of_le_of_ne h1 (of_decide_eq_false hne)) h2

/-- An access of the consumer: it stays a consumer. -/
theorem consumer_access {q q' : LockFreeQueue T length} {l l' : Local T}
    {events : List (QueueEvent T)} (hle : q.readPosition ≤ q.writePosition)
    (hl : ConsumerAt q l) (ha : q.Access l q' l' events) : ConsumerAt q' l' := by
  cases ha with
  | @popEmptyLoad readFirst e e' he =>
    have hstep := consumer_emptyStep readFirst hle hl
    rw [he] at hstep
    exact hstep
  | @popNotEmpty readFirst e he =>
    have hstep := consumer_emptyStep readFirst hle hl
    rw [he] at hstep
    exact hstep rfl
  | pushLoadWrite | pushFull _ | pushLoadRead _ | pushWriteSlot _ | pushStoreWrite => exact hl.elim
  | _ => trivial

theorem producerAt_enter {c : FifoCall T} (h : may .producer c = true) :
    ProducerAt (LockFreeQueue.enter c) := by
  cases c <;> trivial

theorem consumerAt_enter {q : LockFreeQueue T length} {c : FifoCall T}
    (h : may .consumer c = true) : ConsumerAt q (LockFreeQueue.enter c) := by
  cases c <;> trivial

include hpos hlength in
/-- Every step of a run with one producer and one consumer keeps the invariant. -/
theorem Inv.step {x y : QueueConfig Role T length} {a : QueueAction Role T} (h : Inv x)
    (hs : x.step may a = some y) : Inv y := by
  cases a with
  | call i c =>
    obtain ⟨hmay, hn⟩ := QueueConfig.step_call hs
    have hy := h.ordered.call hn
    obtain ⟨-, rfl⟩ := QueueConfig.next_call hn
    cases i with
    | producer => exact ⟨hy, producerAt_enter hmay, h.consumer⟩
    | consumer => exact ⟨hy, h.producer, consumerAt_enter hmay⟩
  | access i readFirst =>
    have hy := h.ordered.access hpos hlength (h.disciplined i) hs
    obtain ⟨q, l, events, ha, rfl⟩ := QueueConfig.next_access hs
    cases i with
    | producer =>
      obtain ⟨hl, hr, hw⟩ :=
        producer_access hpos hlength h.producer (h.ordered.holds .producer) ha
      exact ⟨hy, hl, h.consumer.mono hr hw⟩
    | consumer => exact ⟨hy, h.producer, consumer_access h.ordered.read_le h.consumer ha⟩

include hpos hlength in
theorem inv_of_reachable [Inhabited T] {x : QueueConfig Role T length}
    (h : (queueThreads Role T length may).Reachable x) : Inv x := by
  refine h.invariant ?_ fun _ _ _ hi hs => hi.step hpos hlength hs
  rintro _ rfl
  exact ⟨ordered_initial, trivial, trivial⟩

/-- **Single producer, single consumer.**  In every state of every run, up to the
first access outside `ring_buffer_`, the elements popped or cleared are a prefix
of the elements accepted, and the rest of those are the slots from the read
position up to the write position. -/
theorem spsc_fifo [Inhabited T] (hpos : 1 ≤ length) (hlength : length < 2 ^ 32)
    {x : QueueConfig Role T length} (h : (queueThreads Role T length may).Reachable x) :
    removals x.history <+: accepts x.history ∧
      accepts x.history = removals x.history ++ x.queue.contents := by
  have heq := (inv_of_reachable hpos hlength h).ordered.accepts_eq
  exact ⟨⟨_, heq.symm⟩, heq⟩

/-- Two elements pushed and one of them popped, the pop starting between the two
pushes' slot write and store. -/
def overlappingPop : List (QueueAction Role Nat) :=
  .call .producer (.push 7) :: List.replicate 4 (.access .producer true) ++
    .call .producer (.push 8) :: List.replicate 3 (.access .producer true) ++
    .call .consumer .pop :: List.replicate 4 (.access .consumer true) ++
    [.access .producer true, .access .consumer true]

theorem spsc_fifo_overlappingPop : ∃ x : QueueConfig Role Nat 2,
    TransitionSystem.exec (QueueConfig.step may) QueueConfig.initial overlappingPop = some x ∧
      removals x.history = [7] ∧ accepts x.history = removals x.history ++ x.queue.contents := by
  obtain ⟨x, hx⟩ : ∃ x : QueueConfig Role Nat 2,
      TransitionSystem.exec (QueueConfig.step may) QueueConfig.initial overlappingPop = some x :=
    Option.isSome_iff_exists.mp (by decide)
  have hpopped : (TransitionSystem.exec (QueueConfig.step may)
      (QueueConfig.initial : QueueConfig Role Nat 2) overlappingPop).map
        (fun x => removals x.history) = some [7] := by decide
  rw [hx] at hpopped
  exact ⟨x, hx, Option.some.inj hpopped,
    (spsc_fifo (by decide) (by decide) (queueThreads_exec hx)).2⟩

end Role
end MySvrKit
