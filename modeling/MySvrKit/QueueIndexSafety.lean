import MySvrKit.QueueThreads

/-! # Ring positions in range

Every position of a running queue is loaded from `read_position_` or
`write_position_`, or is the `NextPosition` of one that was.  `NextPosition` of the
last slot's position is the length of the ring, so the positions stay in range up to
the first `Push` or `Pop` that takes the successor of that position, and no longer
(`indexSafe_iff_spares`). -/

universe u v

namespace MySvrKit
open LockFreeQueue

/-- What `Empty` has loaded. -/
def EmptyLocal.positions : EmptyLocal → List Nat
  | .start => []
  | .haveRead readPos => [readPos]
  | .haveWrite writePos => [writePos]

/-- The positions in the local variables of a call. -/
def Local.positions {T : Type u} : Local T → List Nat
  | .idle | .pushLoadWrite _ | .popLoadRead | .clearLoadRead | .sizeLoadRead => []
  | .pushLoadRead _ old new | .pushWriteSlot _ old new | .pushStoreWrite _ old new
  | .popReadSlot old new | .popStoreRead _ old new => [old, new]
  | .clearLoadWrite readPos | .sizeLoadWrite readPos => [readPos]
  | .clearStoreRead readPos writePos => [readPos, writePos]
  | .sizeEmpty readPos writePos e => readPos :: writePos :: e.positions
  | .popEmpty e | .emptyCall e => e.positions

section
variable {Tid : Type v} {T : Type u} {length : Nat}

/-- The positions of the queue and of a call in progress are in the ring. -/
structure LockFreeQueue.InRing (q : LockFreeQueue T length) (l : Local T) : Prop where
  read : q.readPosition < kRingBufferLength length
  write : q.writePosition < kRingBufferLength length
  positions : ∀ p ∈ l.positions, p < kRingBufferLength length

/-- **Index safety**: every position of the queue and of every call in progress is in
the ring, and no call's next access is outside `ring_buffer_`. -/
structure IndexSafe [DecidableEq Tid] (x : QueueConfig Tid T length) : Prop where
  read : x.queue.readPosition < kRingBufferLength length
  write : x.queue.writePosition < kRingBufferLength length
  positions : ∀ i, ∀ p ∈ (x.locals i).positions, p < kRingBufferLength length
  subscripts : ∀ i readFirst, x.locals i ≠ .idle → (x.next (.access i readFirst)).isSome = true

/-- The position of which the next access takes the `NextPosition` is not the last
slot's. -/
def LockFreeQueue.SparesLastAt (q : LockFreeQueue T length) : Local T → Prop
  | .pushLoadWrite _ => q.writePosition + 1 < kRingBufferLength length
  | .popLoadRead => q.readPosition + 1 < kRingBufferLength length
  | _ => True

/-- No `Push` and no `Pop` loads the last slot's position. -/
def SparesLast (x : QueueConfig Tid T length) : QueueAction Tid T → Prop
  | .call _ _ => True
  | .access i _ => x.queue.SparesLastAt (x.locals i)

namespace LockFreeQueue
variable {q q' : LockFreeQueue T length} {l l' : Local T} {events : List (QueueEvent T)}

/-- `Empty` holds nothing but the queue's positions. -/
theorem positions_emptyStep {readFirst : Bool} {e e' : EmptyLocal}
    (h : q.emptyStep readFirst e = .inl e') :
    ∀ p ∈ e'.positions, p = q.readPosition ∨ p = q.writePosition := by
  cases e with
  | start =>
    cases readFirst with
    | false => cases h; simp [EmptyLocal.positions]
    | true => cases h; simp [EmptyLocal.positions]
  | haveRead readPos => cases h
  | haveWrite writePos => cases h

/-- A load of `Empty` keeps the positions in the ring. -/
theorem InRing.emptyLoad (h : q.InRing l) {readFirst : Bool} {e e' : EmptyLocal}
    (he : q.emptyStep readFirst e = .inl e') :
    ∀ p ∈ e'.positions, p < kRingBufferLength length := by
  intro p hp
  rcases positions_emptyStep he p hp with rfl | rfl
  · exact h.read
  · exact h.write

section
variable (hpos : 1 ≤ length) (hlength : length + 1 < 2 ^ 32)

include hpos hlength in
/-- The successor of a position in the ring is in the ring unless it was the last. -/
theorem nextPosition_lt_iff {position : Nat} (hp : position < kRingBufferLength length) :
    nextPosition length position < kRingBufferLength length ↔
      position + 1 < kRingBufferLength length := by
  rw [nextPosition_of_lt hpos (Nat.lt_of_succ_lt hlength) hp]

include hpos hlength in
/-- An access that takes the successor of no last position keeps the positions of the
queue and of its call in the ring. -/
theorem InRing.access (h : q.InRing l) (ha : q.Access l q' l' events)
    (hs : q.SparesLastAt l) : q'.InRing l' := by
  have hloaded := h.positions
  cases ha with
  | pushLoadWrite =>
    have hnext := (nextPosition_lt_iff hpos hlength h.write).mpr hs
    exact ⟨h.read, h.write, by simp [Local.positions, h.write, hnext]⟩
  | popLoadRead =>
    have hnext := (nextPosition_lt_iff hpos hlength h.read).mpr hs
    exact ⟨h.read, h.write, by simp [Local.positions, h.read, hnext]⟩
  | pushWriteSlot hslot =>
    obtain ⟨hr, hw⟩ := writeSlot_positions hslot
    exact ⟨hr ▸ h.read, hw ▸ h.write, hloaded⟩
  -- what is stored is what the call holds
  | pushStoreWrite => exact ⟨h.read, hloaded _ (by simp [Local.positions]), nofun⟩
  | popStoreRead => exact ⟨hloaded _ (by simp [Local.positions]), h.write, nofun⟩
  | clearStoreRead => exact ⟨hloaded _ (by simp [Local.positions]), h.write, nofun⟩
  | pushLoadRead _ | popReadSlot _ => exact ⟨h.read, h.write, hloaded⟩
  | clearLoadRead | sizeLoadRead =>
    exact ⟨h.read, h.write, by simp [Local.positions, h.read]⟩
  | clearLoadWrite _ | sizeLoadWrite =>
    refine ⟨h.read, h.write, ?_⟩
    simp only [Local.positions, List.forall_mem_cons] at hloaded ⊢
    exact ⟨hloaded.1, h.write, nofun⟩
  | popEmptyLoad he | emptyLoad he => exact ⟨h.read, h.write, h.emptyLoad he⟩
  | sizeEmptyLoad he =>
    refine ⟨h.read, h.write, ?_⟩
    simp only [Local.positions, List.forall_mem_cons] at hloaded ⊢
    exact ⟨hloaded.1, hloaded.2.1, h.emptyLoad he⟩
  | pushFull _ | popFoundEmpty _ | popNotEmpty _ | clearNothing _ | sizeZero _
  | sizeBetween _ | emptyAnswer _ => exact ⟨h.read, h.write, nofun⟩

include hpos hlength in
/-- An access that takes the successor of the last position holds a position outside the
ring from then on. -/
theorem InRing.not_positions (h : q.InRing l) (ha : q.Access l q' l' events)
    (hs : ¬ q.SparesLastAt l) : ¬ ∀ p ∈ l'.positions, p < kRingBufferLength length := by
  intro hall
  cases ha with
  | pushLoadWrite =>
    exact hs ((nextPosition_lt_iff hpos hlength h.write).mp (hall _ (by simp [Local.positions])))
  | popLoadRead =>
    exact hs ((nextPosition_lt_iff hpos hlength h.read).mp (hall _ (by simp [Local.positions])))
  | _ => exact hs trivial

end

/-- A call whose positions are in the ring makes its next access. -/
theorem advance_isSome (readFirst : Bool) (hidle : l ≠ .idle)
    (h : ∀ p ∈ l.positions, p < kRingBufferLength length) :
    (q.advance readFirst l).isSome = true := by
  cases l with
  | idle => exact absurd rfl hidle
  | pushWriteSlot t old new =>
    obtain ⟨q', hq'⟩ := writeSlot_of_lt (q := q) (t := t) (h old (by simp [Local.positions]))
    simp [advance, hq']
  | popReadSlot old new =>
    obtain ⟨t, ht⟩ := slot_isSome_iff (q := q).mpr (h old (by simp [Local.positions]))
    simp [advance, ht]
  -- every branch of the other accesses has a result
  | pushLoadRead _ _ _ | clearLoadWrite _ | popEmpty _ | sizeEmpty _ _ _ | emptyCall _ =>
    simp only [advance]
    split <;> rfl
  | _ => rfl

end LockFreeQueue

/-! ## Runs -/

variable [DecidableEq Tid]

/-- The subscripts are in range because the positions are. -/
theorem IndexSafe.of_positions {x : QueueConfig Tid T length}
    (hread : x.queue.readPosition < kRingBufferLength length)
    (hwrite : x.queue.writePosition < kRingBufferLength length)
    (hpositions : ∀ i, ∀ p ∈ (x.locals i).positions, p < kRingBufferLength length) :
    IndexSafe x where
  read := hread
  write := hwrite
  positions := hpositions
  subscripts i readFirst hidle := by
    simp only [QueueConfig.next, Option.isSome_map]
    exact advance_isSome readFirst hidle (hpositions i)

theorem IndexSafe.inRing {x : QueueConfig Tid T length} (h : IndexSafe x) (i : Tid) :
    x.queue.InRing (x.locals i) := ⟨h.read, h.write, h.positions i⟩

theorem indexSafe_initial [Inhabited T] (hlength : length + 1 < 2 ^ 32) :
    IndexSafe (QueueConfig.initial : QueueConfig Tid T length) := by
  have hzero : 0 < kRingBufferLength length := by
    rw [kRingBufferLength_eq hlength]
    omega
  exact .of_positions hzero hzero fun _ => nofun

section
variable (hpos : 1 ≤ length) (hlength : length + 1 < 2 ^ 32) {x y : QueueConfig Tid T length}
  {may : Tid → FifoCall T → Bool} {a : QueueAction Tid T}

include hpos hlength in
/-- A step that takes the successor of no last position keeps every position in range. -/
theorem IndexSafe.step (h : IndexSafe x) (hs : x.step may a = some y) (hlast : SparesLast x a) :
    IndexSafe y := by
  cases a with
  | call i c =>
    obtain ⟨-, rfl⟩ := QueueConfig.next_call (QueueConfig.step_call hs).2
    have henter : ∀ p ∈ (LockFreeQueue.enter c).positions, p < kRingBufferLength length := by
      cases c <;> nofun
    exact .of_positions h.read h.write
      (forall_update (p := fun _ l => ∀ p ∈ l.positions, p < kRingBufferLength length) henter
        fun j _ => h.positions j)
  | access i readFirst =>
    obtain ⟨q, l, events, ha, rfl⟩ := QueueConfig.next_access hs
    have hin : q.InRing l := (h.inRing i).access hpos hlength ha hlast
    -- the other threads' variables are as before
    exact .of_positions hin.read hin.write
      (forall_update (p := fun _ l => ∀ p ∈ l.positions, p < kRingBufferLength length)
        hin.positions fun j _ => h.positions j)

include hpos hlength in
/-- A step that takes the successor of the last position leaves it in a local variable. -/
theorem IndexSafe.not_step (h : IndexSafe x) (hs : x.step may a = some y)
    (hlast : ¬ SparesLast x a) : ¬ IndexSafe y := by
  intro hy
  cases a with
  | call i c => exact hlast trivial
  | access i readFirst =>
    obtain ⟨q, l, events, ha, rfl⟩ := QueueConfig.next_access hs
    have hall : ∀ p ∈ (Function.update x.locals i l i).positions,
        p < kRingBufferLength length := hy.positions i
    rw [Function.update_self] at hall
    exact (h.inRing i).not_positions hpos hlength ha hlast hall

end

/-- **Positions stay in the ring exactly as long as no `Push` or `Pop` takes the successor
of the last slot's position**, for any number of threads, whatever calls they make and
however their accesses interleave. -/
theorem indexSafe_iff_spares [Inhabited T] (hpos : 1 ≤ length) (hlength : length + 1 < 2 ^ 32)
    {may : Tid → FifoCall T → Bool} {run : List (QueueAction Tid T × QueueConfig Tid T length)}
    (h : (queueThreads Tid T length may).IsRun QueueConfig.initial run) :
    (∀ x ∈ run, IndexSafe x.2) ↔ TransitionSystem.Meets SparesLast QueueConfig.initial run := by
  refine TransitionSystem.IsRun.forall_iff_meets (I := IndexSafe) ?_ (fun _ hs => hs) ?_
    (indexSafe_initial hlength) h
  · exact fun s a t hs hstep hlast => hs.step hpos hlength hstep hlast
  · exact fun s a t hs hstep hnot => hs.not_step hpos hlength hstep hnot

/-- The calls of the threads that share a queue. -/
def sharedMay (_ : Tid) : FifoCall T → Bool
  | .push _ | .pop | .clear => true
  | .size | .empty => false

/-- The theorem at a run: one thread enters a `Push` while another is in its own. -/
theorem indexSafe_iff_spares_twoPushes :
    ∃ run, (queueThreads Bool Nat 2 sharedMay).IsRun QueueConfig.initial run ∧ run.length = 7 ∧
      ∀ x ∈ run, IndexSafe x.2 := by
  have hrun : (queueThreads Bool Nat 2 sharedMay).IsRun QueueConfig.initial
      [(.call true (.push 7), _), (.access true true, _), (.call false (.push 8), _),
        (.access false true, _), (.access true true, _), (.access true true, _),
        (.access true true, _)] :=
    ⟨rfl, rfl, rfl, rfl, rfl, rfl, rfl, trivial⟩
  -- both load position 0, in a ring of three slots
  have hspares : 0 + 1 < kRingBufferLength 2 := by decide
  exact ⟨_, hrun, rfl, (indexSafe_iff_spares (by decide) (by decide) hrun).mpr
    ⟨trivial, hspares, trivial, hspares, trivial, trivial, trivial, trivial⟩⟩

/-- The first producer of the repository's test: four elements, into a queue of two. -/
def fourPushes : List (QueueAction Bool Nat) :=
  (List.range 4).flatMap fun t => .call true (.push t) :: List.replicate 4 (.access true true)

/-- The third `Push` takes the write position out of the ring, and the fourth has no
slot to write. -/
theorem not_indexSafe_fourPushes :
    (∃ x : QueueConfig Bool Nat 2, (queueThreads Bool Nat 2 sharedMay).Reachable x ∧
      x.queue.writePosition = kRingBufferLength 2 ∧ ¬ IndexSafe x) ∧
    ∃ x : QueueConfig Bool Nat 2, (queueThreads Bool Nat 2 sharedMay).Reachable x ∧
      x.locals true = .pushWriteSlot 3 3 4 ∧ x.next (.access true true) = none := by
  have hthree : TransitionSystem.exec (QueueConfig.step sharedMay)
      (QueueConfig.initial : QueueConfig Bool Nat 2) (fourPushes.take 15) = some _ := rfl
  have hfourth : TransitionSystem.exec (QueueConfig.step sharedMay)
      (QueueConfig.initial : QueueConfig Bool Nat 2) (fourPushes.take 18) = some _ := rfl
  refine ⟨⟨_, queueThreads_exec hthree, rfl, fun h => ?_⟩, ⟨_, queueThreads_exec hfourth, rfl, rfl⟩⟩
  exact absurd h.write (by decide)

end
end MySvrKit
