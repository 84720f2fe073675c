import MySvrKit.QueueSize

/-! # Every call ends by its own accesses

No operation of the queue waits for another thread: there is no retry and no loop in
any of them.  Each access of a thread brings it nearer the end of its call
(`Local.accessesLeft`), whatever the others do in between, and the only access it
cannot make is one with a subscript outside `ring_buffer_`. -/

universe u v

namespace MySvrKit
open LockFreeQueue

namespace Local
variable {T : Type u}

/-- How many accesses a thread still has to make in its call, at most. -/
def accessesLeft : Local T → Nat
  | .idle => 0
  | .pushLoadWrite _ => 4
  | .pushLoadRead .. => 3
  | .pushWriteSlot .. => 2
  | .pushStoreWrite .. => 1
  | .popEmpty .start => 5
  | .popEmpty (.haveRead _) | .popEmpty (.haveWrite _) => 4
  | .popLoadRead => 3
  | .popReadSlot .. => 2
  | .popStoreRead .. => 1
  | .clearLoadRead => 3
  | .clearLoadWrite _ => 2
  | .clearStoreRead .. => 1
  | .sizeLoadRead => 4
  | .sizeLoadWrite _ => 3
  | .sizeEmpty _ _ .start => 2
  | .sizeEmpty _ _ (.haveRead _) | .sizeEmpty _ _ (.haveWrite _) => 1
  | .emptyCall .start => 2
  | .emptyCall (.haveRead _) | .emptyCall (.haveWrite _) => 1

theorem accessesLeft_pos {l : Local T} (h : l ≠ .idle) : 0 < l.accessesLeft := by
  cases l with
  | idle => exact absurd rfl h
  | popEmpty e | sizeEmpty r w e | emptyCall e => cases e <;> simp [accessesLeft]
  | _ => simp [accessesLeft]

/-- The next access has a subscript outside `ring_buffer_`. -/
def OutOfRange (length : Nat) : Local T → Prop
  | .pushWriteSlot _ oldWritePos _ => kRingBufferLength length ≤ oldWritePos
  | .popReadSlot oldReadPos _ => kRingBufferLength length ≤ oldReadPos
  | _ => False

end Local

/-- The accesses of one call, at most. -/
def accessesOf {T : Type u} : FifoCall T → Nat
  | .push _ => 4
  | .pop => 5
  | .clear => 3
  | .size => 4
  | .empty => 2

namespace LockFreeQueue
variable {T : Type u} {length : Nat} {q q' : LockFreeQueue T length} {l l' : Local T}
  {events : List (QueueEvent T)}

theorem accessesLeft_enter (c : FifoCall T) : (enter c).accessesLeft = accessesOf c := by
  cases c <;> rfl

/-- The first load of `Empty` leaves its second. -/
theorem emptyStep_inl {readFirst : Bool} {e e' : EmptyLocal}
    (h : q.emptyStep readFirst e = .inl e') :
    e = .start ∧ ((∃ r, e' = .haveRead r) ∨ ∃ w, e' = .haveWrite w) := by
  cases e with
  | start =>
    refine ⟨rfl, ?_⟩
    cases readFirst with
    | true => exact Or.inl ⟨_, (Sum.inl.inj h).symm⟩
    | false => exact Or.inr ⟨_, (Sum.inl.inj h).symm⟩
  | haveRead r | haveWrite w => cases h

/-- The second load of `Empty` answers. -/
theorem emptyStep_inr {readFirst : Bool} {e : EmptyLocal} {b : Bool}
    (h : q.emptyStep readFirst e = .inr b) :
    (∃ r, e = .haveRead r) ∨ ∃ w, e = .haveWrite w := by
  cases e with
  | start => cases h
  | haveRead r => exact Or.inl ⟨r, rfl⟩
  | haveWrite w => exact Or.inr ⟨w, rfl⟩

/-- **Every access brings its call nearer the end.** -/
theorem accessesLeft_lt (h : q.Access l q' l' events) : l'.accessesLeft < l.accessesLeft := by
  cases h with
  | popEmptyLoad he | sizeEmptyLoad he | emptyLoad he =>
    obtain ⟨rfl, ⟨r, rfl⟩ | ⟨w, rfl⟩⟩ := emptyStep_inl he <;> simp [Local.accessesLeft]
  | popFoundEmpty he | popNotEmpty he | sizeZero he | sizeBetween he | emptyAnswer he =>
    obtain ⟨r, rfl⟩ | ⟨w, rfl⟩ := emptyStep_inr he <;> simp [Local.accessesLeft]
  | _ => simp [Local.accessesLeft]

/-- **The only access a thread in a call cannot make is one outside the ring.** -/
theorem advance_isSome_of_inRange (readFirst : Bool) (hidle : l ≠ .idle)
    (hrange : ¬ l.OutOfRange length) :
    (q.advance readFirst l).isSome = true := by
  cases l with
  | idle => exact absurd rfl hidle
  | pushLoadRead t old new =>
    simp only [advance]
    split <;> rfl
  | pushWriteSlot t old new =>
    obtain ⟨q', hq'⟩ := writeSlot_of_lt (q := q) (t := t) (Nat.lt_of_not_le hrange)
    simp only [advance, hq', Option.map_some, Option.isSome_some]
  | popReadSlot old new =>
    obtain ⟨t, ht⟩ := (slot_isSome_iff (q := q)).mpr (Nat.lt_of_not_le hrange)
    simp only [advance, ht, Option.map_some, Option.isSome_some]
  | popEmpty e | sizeEmpty r w e | emptyCall e =>
    simp only [advance]
    split <;> rfl
  | clearLoadWrite r =>
    simp only [advance]
    split <;> rfl
  | _ => rfl

end LockFreeQueue

namespace QueueConfig
variable {Tid : Type v} {T : Type u} {length : Nat} [DecidableEq Tid]
  {may : Tid → FifoCall T → Bool} {x y : QueueConfig Tid T length} {i : Tid}

/-- A step while thread `i` is in a call: its own accesses count down, the steps of the
others leave it where it is. -/
theorem accessesLeft_step {a : QueueAction Tid T} (hx : x.locals i ≠ .idle)
    (h : x.step may a = some y) :
    (y.locals i).accessesLeft + (if a.isAccessOf i then 1 else 0) ≤
      (x.locals i).accessesLeft := by
  cases a with
  | call j c =>
    obtain ⟨hidle, rfl⟩ := next_call (step_call h).2
    have hij : i ≠ j := by
      rintro rfl
      exact hx hidle
    simp [QueueAction.isAccessOf, Function.update_of_ne hij]
  | access j readFirst =>
    obtain ⟨q, l, events, ha, rfl⟩ := next_access h
    by_cases hj : j = i
    · subst hj
      have hlt := accessesLeft_lt ha
      simp only [QueueAction.isAccessOf, decide_true, if_true, Function.update_self]
      omega
    · simp [QueueAction.isAccessOf, hj, Function.update_of_ne (Ne.symm hj)]

/-- Until a thread is out of its call, the accesses it has made and those it has left are
together no more than the operation's. -/
theorem accesses_le [Inhabited T] {c : FifoCall T} (hcall : x.step may (.call i c) = some y)
    {run : List (QueueAction Tid T × QueueConfig Tid T length)}
    (hrun : (queueThreads Tid T length may).IsRun y run) :
    (∃ z ∈ run.map Prod.snd, z.locals i = .idle) ∨
      ((TransitionSystem.last y run).locals i ≠ .idle ∧
        ((TransitionSystem.last y run).locals i).accessesLeft +
          run.countP (fun a => a.1.isAccessOf i) ≤ accessesOf c) := by
  refine hrun.along (I := fun before s => (∃ z ∈ before.map Prod.snd, z.locals i = .idle) ∨
    (s.locals i ≠ .idle ∧ (s.locals i).accessesLeft +
      before.countP (fun a => a.1.isAccessOf i) ≤ accessesOf c)) ?_ ?_
  · obtain ⟨-, rfl⟩ := next_call (step_call hcall).2
    simp only [Function.update_self, accessesLeft_enter]
    refine Or.inr ⟨fun hidle => ?_, Nat.le_refl _⟩
    cases c <;> cases hidle
  · rintro before s a t (⟨z, hz, hidle⟩ | ⟨hs, hle⟩) hstep
    · rw [List.map_append]
      exact Or.inl ⟨z, List.mem_append_left _ hz, hidle⟩
    · by_cases ht : t.locals i = .idle
      · rw [List.map_append]
        exact Or.inl ⟨t, List.mem_append_right _ (List.mem_singleton_self t), ht⟩
      · have hcount := accessesLeft_step hs hstep
        rw [List.countP_append, List.countP_singleton]
        refine Or.inr ⟨ht, ?_⟩
        simp only
        omega

/-- **Wait-freedom.**  A thread that has entered a call is out of it by the time it has made
as many accesses as the operation has, whatever and however much the other threads do
meanwhile; and as long as it is in the call it can make its next access, unless that is
outside `ring_buffer_`. -/
theorem call_waitFree [Inhabited T] {c : FifoCall T} (hcall : x.step may (.call i c) = some y)
    {run : List (QueueAction Tid T × QueueConfig Tid T length)}
    (hrun : (queueThreads Tid T length may).IsRun y run) :
    (accessesOf c ≤ run.countP (fun a => a.1.isAccessOf i) →
        ∃ z ∈ run.map Prod.snd, z.locals i = .idle) ∧
      ((TransitionSystem.last y run).locals i ≠ .idle →
        ¬ ((TransitionSystem.last y run).locals i).OutOfRange length →
          ∀ readFirst, ∃ z, (TransitionSystem.last y run).step may (.access i readFirst) =
            some z) := by
  constructor
  · intro henough
    rcases accesses_le hcall hrun with hout | ⟨hin, hle⟩
    · exact hout
    · have hpos := Local.accessesLeft_pos hin
      omega
  · intro hin hrange readFirst
    have hsome :=
      advance_isSome_of_inRange (q := (TransitionSystem.last y run).queue) readFirst hin hrange
    rw [← Option.isSome_map (f := fun r => QueueConfig.mk r.1
      (Function.update (TransitionSystem.last y run).locals i r.2.1)
      ((TransitionSystem.last y run).history ++ r.2.2))] at hsome
    exact Option.isSome_iff_exists.mp hsome

/-- The theorem at a run: a `Push` with another thread's `Push` in the middle of it. -/
theorem call_waitFree_twoPushes :
    ∃ (y : QueueConfig Bool Nat 2) (run : List (QueueAction Bool Nat × QueueConfig Bool Nat 2)),
      (queueThreads Bool Nat 2 fun _ _ => true).IsRun y run ∧ run.length = 9 ∧
        ∃ z ∈ run.map Prod.snd, z.locals true = .idle := by
  have hcall : (initial : QueueConfig Bool Nat 2).step (fun _ _ => true) (.call true (.push 7)) =
      some _ := rfl
  have hrun : (queueThreads Bool Nat 2 fun _ _ => true).IsRun
      ⟨LockFreeQueue.fresh Nat 2, Function.update (fun _ => .idle) true (.pushLoadWrite 7), []⟩
      [(.access true true, _), (.call false (.push 8), _), (.access false true, _),
        (.access false true, _), (.access false true, _), (.access false true, _),
        (.access true true, _), (.access true true, _), (.access true true, _)] :=
    ⟨rfl, rfl, rfl, rfl, rfl, rfl, rfl, rfl, rfl, trivial⟩
  exact ⟨_, _, hrun, rfl, (call_waitFree hcall hrun).1
    (by simp [QueueAction.isAccessOf, accessesOf])⟩

end QueueConfig
end MySvrKit
