import MySvrKit.QueueSpsc

/-! # `Size` is exact for the thread at either end

`Size` loads the two positions one after the other, and loads both again in `Empty`.
While a thread is in `Size` the position that only it moves stands still, so any value
it loads of the other position makes up, together with its own, a pair that the queue
really had: when that value was loaded. -/

universe u v

namespace MySvrKit
open LockFreeQueue QueueEvent

/-- An access of thread `i`. -/
def QueueAction.isAccessOf {Tid : Type v} {T : Type u} [DecidableEq Tid] (i : Tid) :
    QueueAction Tid T → Bool
  | .call .. => false
  | .access j _ => j = i

/-- The exact number of accepted and not yet removed elements is `n`. -/
def QueueConfig.Counts {Tid : Type v} {T : Type u} {length : Nat} (x : QueueConfig Tid T length)
    (n : Nat) : Prop :=
  (accepts x.history).length = (removals x.history).length + n

namespace Role
variable {T : Type u} {length : Nat}

/-- The position that only this thread moves. -/
def own (q : LockFreeQueue T length) : Role → Nat
  | .producer => q.writePosition
  | .consumer => q.readPosition

/-- **A `Size` that returns exactly**: from `x`, the access of thread `i` that leads to `z`
ends its `Size`, which returns the number of elements held in one of the states `during`
it. -/
def SizeReturns (i : Role) (during : List (QueueConfig Role T length))
    (x z : QueueConfig Role T length) : Prop :=
  z.locals i = .idle ∧ ∃ n, z.history = x.history ++ [.sized n] ∧ ∃ v ∈ during, v.Counts n

/-- Where a thread is in `Size` after `n` of its loads, what it has loaded being from the
states `seen`. -/
inductive SizeAt (seen : List (QueueConfig Role T length)) : Local T → Nat → Prop
  | loadRead : SizeAt seen .sizeLoadRead 0
  | loadWrite {r} (hr : r ∈ seen) : SizeAt seen (.sizeLoadWrite r.queue.readPosition) 1
  | start {r w} (hr : r ∈ seen) (hw : w ∈ seen) :
      SizeAt seen (.sizeEmpty r.queue.readPosition w.queue.writePosition .start) 2
  | haveRead {r w r'} (hr : r ∈ seen) (hw : w ∈ seen) (hr' : r' ∈ seen) :
      SizeAt seen (.sizeEmpty r.queue.readPosition w.queue.writePosition
        (.haveRead r'.queue.readPosition)) 3
  | haveWrite {r w w'} (hr : r ∈ seen) (hw : w ∈ seen) (hw' : w' ∈ seen) :
      SizeAt seen (.sizeEmpty r.queue.readPosition w.queue.writePosition
        (.haveWrite w'.queue.writePosition)) 3

/-- The states of a `Size` so far: the thread's own position has not moved. -/
structure Sizing (i : Role) (seen : List (QueueConfig Role T length))
    (x : QueueConfig Role T length) (n : Nat) : Prop where
  current : x ∈ seen
  inv : ∀ v ∈ seen, Inv v
  still : ∀ v ∈ seen, own v.queue i = own x.queue i
  place : SizeAt seen (x.locals i) n

theorem Inv.counts {x : QueueConfig Role T length} (h : Inv x) :
    x.Counts (x.queue.writePosition - x.queue.readPosition) := by
  rw [QueueConfig.Counts, ← LockFreeQueue.size_eq h.ordered.read_le]
  exact h.ordered.size_eq

theorem SizeAt.mono {seen seen' : List (QueueConfig Role T length)} {l : Local T} {n : Nat}
    (h : SizeAt seen l n) (hs : seen ⊆ seen') : SizeAt seen' l n := by
  cases h with
  | loadRead => exact .loadRead
  | loadWrite hr => exact .loadWrite (hs hr)
  | start hr hw => exact .start (hs hr) (hs hw)
  | haveRead hr hw hr' => exact .haveRead (hs hr) (hs hw) (hs hr')
  | haveWrite hr hw hw' => exact .haveWrite (hs hr) (hs hw) (hs hw')

/-! ## The thread's own position -/

/-- The consumer's accesses leave the write position alone. -/
theorem consumer_writePosition {q q' : LockFreeQueue T length} {l l' : Local T}
    {events : List (QueueEvent T)} (hl : ConsumerAt q l) (ha : q.Access l q' l' events) :
    q'.writePosition = q.writePosition := by
  cases ha with
  | pushWriteSlot _ | pushStoreWrite => exact hl.elim
  | _ => rfl

/-- An access of the other thread leaves a thread's own position alone. -/
theorem Inv.own_access (hpos : 1 ≤ length) (hlength : length < 2 ^ 32)
    {x : QueueConfig Role T length} (h : Inv x) {i j : Role} (hj : j ≠ i)
    {q : LockFreeQueue T length} {l : Local T} {events : List (QueueEvent T)}
    (ha : x.queue.Access (x.locals j) q l events) : own q i = own x.queue i := by
  cases i with
  | producer =>
    cases j with
    | producer => exact absurd rfl hj
    | consumer => exact consumer_writePosition h.consumer ha
  | consumer =>
    cases j with
    | producer =>
      exact (producer_access hpos hlength h.producer (h.ordered.holds .producer) ha).2.1
    | consumer => exact absurd rfl hj

variable {i : Role} {seen : List (QueueConfig Role T length)} {x y : QueueConfig Role T length}
  {n : Nat}

/-- **The instant**: a read position and a write position, each seen during a `Size`, were
the queue's at one moment, and their distance was what it held then. -/
theorem Sizing.instant (h : Sizing i seen x n) {r w : QueueConfig Role T length} (hr : r ∈ seen)
    (hw : w ∈ seen) :
    ∃ v ∈ seen, v.queue.readPosition = r.queue.readPosition ∧
      v.queue.writePosition = w.queue.writePosition ∧
      v.Counts (w.queue.writePosition - r.queue.readPosition) := by
  have hstill : own r.queue i = own w.queue i := (h.still r hr).trans (h.still w hw).symm
  cases i with
  | producer =>
    -- when the read position was loaded, the write position was the producer's
    have hwrite : r.queue.writePosition = w.queue.writePosition := hstill
    exact ⟨r, hr, rfl, hwrite, hwrite ▸ (h.inv r hr).counts⟩
  | consumer =>
    have hread : r.queue.readPosition = w.queue.readPosition := hstill
    exact ⟨w, hw, hread.symm, rfl, hread ▸ (h.inv w hw).counts⟩

/-- What `Empty` answers inside `Size`, by what both its loads have seen. -/
theorem Sizing.answer (h : Sizing i seen x n) {r w r' w' : QueueConfig Role T length}
    (hr : r ∈ seen) (hw : w ∈ seen) (hr' : r' ∈ seen) (hw' : w' ∈ seen) :
    ∃ v ∈ seen, v.Counts
      (if r'.queue.readPosition = w'.queue.writePosition then 0
        else sizeBetween length r.queue.readPosition w.queue.writePosition) := by
  split
  · rename_i hempty
    obtain ⟨v, hv, -, -, hcounts⟩ := h.instant hr' hw'
    rw [hempty, Nat.sub_self] at hcounts
    exact ⟨v, hv, hcounts⟩
  · obtain ⟨v, hv, hread, hwrite, hcounts⟩ := h.instant hr hw
    have hle : r.queue.readPosition ≤ w.queue.writePosition := by
      rw [← hread, ← hwrite]
      exact (h.inv v hv).ordered.read_le
    rw [sizeBetween, if_neg (Nat.not_lt.mpr hle)]
    exact ⟨v, hv, hcounts⟩

/-! ## The loads of `Size` -/

/-- A load of `Size` before its last goes on with what it has seen. -/
theorem Sizing.load (h : Sizing i seen x n) (hn : n < 3) (readFirst : Bool) :
    ∃ l, x.queue.advance readFirst (x.locals i) = some (x.queue, l, []) ∧
      SizeAt seen l (n + 1) := by
  have hplace := h.place
  have hx := h.current
  generalize x.locals i = l at hplace
  cases hplace with
  | loadRead => exact ⟨_, rfl, .loadWrite hx⟩
  | loadWrite hr => exact ⟨_, rfl, .start hr hx⟩
  | start hr hw =>
    cases readFirst with
    | false => exact ⟨_, rfl, .haveWrite hr hw hx⟩
    | true => exact ⟨_, rfl, .haveRead hr hw hx⟩
  | haveRead _ _ _ | haveWrite _ _ _ => omega

/-- The last load of `Size` ends it, with a number the queue held. -/
theorem Sizing.last (h : Sizing i seen x 3) (readFirst : Bool) :
    ∃ m, x.queue.advance readFirst (x.locals i) = some (x.queue, .idle, [.sized m]) ∧
      ∃ v ∈ seen, v.Counts m := by
  have hx := h.current
  have hplace := h.place
  generalize x.locals i = l at hplace ⊢
  cases hplace with
  | @haveRead r w r' hr hw hr' =>
    refine ⟨_, ?_, h.answer hr hw hr' hx⟩
    by_cases hempty : r'.queue.readPosition = x.queue.writePosition
    · simp [advance, emptyStep, hempty]
    · simp [advance, emptyStep, hempty]
  | @haveWrite r w w' hr hw hw' =>
    refine ⟨_, ?_, h.answer hr hw hx hw'⟩
    by_cases hempty : x.queue.readPosition = w'.queue.writePosition
    · simp [advance, emptyStep, hempty]
    · simp [advance, emptyStep, hempty]

/-! ## Runs -/

/-- A load of thread `i`, as a step. -/
theorem next_of_advance {readFirst : Bool} {l : Local T} {events : List (QueueEvent T)}
    (h : x.queue.advance readFirst (x.locals i) = some (x.queue, l, events)) :
    x.step may (.access i readFirst) =
      some ⟨x.queue, Function.update x.locals i l, x.history ++ events⟩ := by
  simp only [QueueConfig.step, QueueConfig.next, h, Option.map_some]

/-- A thread in `Size` is not idle. -/
theorem Sizing.not_idle (h : Sizing i seen x n) : x.locals i ≠ .idle := by
  intro hidle
  have hplace := h.place
  rw [hidle] at hplace
  cases hplace

/-- A step in which the thread's own position does not move. -/
theorem Sizing.moved (h : Sizing i seen x n) (hy : Inv y) (hown : own y.queue i = own x.queue i)
    {m : Nat} (hplace : SizeAt seen (y.locals i) m) : Sizing i (seen ++ [y]) y m where
  current := List.mem_append_right _ (List.mem_singleton_self y)
  inv v hv := by
    rcases List.mem_append.mp hv with hv | hv
    · exact h.inv v hv
    · rwa [List.mem_singleton.mp hv]
  still v hv := by
    rcases List.mem_append.mp hv with hv | hv
    · exact (h.still v hv).trans hown.symm
    · rw [List.mem_singleton.mp hv]
  place := hplace.mono (List.subset_append_left _ _)

section
variable (hpos : 1 ≤ length) (hlength : length < 2 ^ 32) {a : QueueAction Role T}

include hpos hlength in
/-- A step during a `Size`, its last load apart. -/
theorem Sizing.step (h : Sizing i seen x n) (hs : x.step may a = some y)
    (hn : n + (if a.isAccessOf i then 1 else 0) ≤ 3) :
    Sizing i (seen ++ [y]) y (n + if a.isAccessOf i then 1 else 0) := by
  have hx := h.inv x h.current
  have hy := hx.step hpos hlength hs
  cases a with
  | call j c =>
    obtain ⟨hidle, rfl⟩ := QueueConfig.next_call (QueueConfig.step_call hs).2
    have hji : i ≠ j := by
      rintro rfl
      exact h.not_idle hidle
    refine h.moved hy rfl ?_
    simp only [Function.update_of_ne hji]
    exact h.place
  | access j readFirst =>
    by_cases hj : j = i
    · -- its own load, which leaves the queue alone
      subst hj
      simp only [QueueAction.isAccessOf, decide_true, if_true] at hn ⊢
      obtain ⟨l, hl, hplace⟩ := h.load (by omega) readFirst
      rw [next_of_advance hl] at hs
      obtain rfl := Option.some.inj hs
      refine h.moved hy rfl ?_
      simpa only [Function.update_self] using hplace
    · obtain ⟨q, l, events, ha, rfl⟩ := QueueConfig.next_access hs
      refine h.moved hy (hx.own_access hpos hlength hj ha) ?_
      simp only [Function.update_of_ne (Ne.symm hj), QueueAction.isAccessOf, hj, decide_false]
      exact h.place

include hpos hlength in
/-- The states of a run that a call of `Size` starts, up to its last load. -/
theorem Sizing.run [Inhabited T] (hx : (queueThreads Role T length may).Reachable x)
    (hcall : x.step may (.call i .size) = some y)
    {run : List (QueueAction Role T × QueueConfig Role T length)}
    (hrun : (queueThreads Role T length may).IsRun y run)
    (hloads : run.countP (fun a => a.1.isAccessOf i) ≤ 3) :
    Sizing i (y :: run.map Prod.snd) (TransitionSystem.last y run)
      (run.countP fun a => a.1.isAccessOf i) := by
  have hy := inv_of_reachable hpos hlength (hx.step hcall)
  have hplace : y.locals i = .sizeLoadRead := by
    obtain ⟨-, rfl⟩ := QueueConfig.next_call (QueueConfig.step_call hcall).2
    exact Function.update_self ..
  refine hrun.along (I := fun before s => before.countP (fun a => a.1.isAccessOf i) ≤ 3 →
      Sizing i (y :: before.map Prod.snd) s (before.countP fun a => a.1.isAccessOf i))
    (fun _ => ?_) ?_ hloads
  · refine ⟨List.mem_singleton_self y, ?_, ?_, hplace ▸ .loadRead⟩
    · rintro v hv
      rwa [List.mem_singleton.mp hv]
    · rintro v hv
      rw [List.mem_singleton.mp hv]
  · intro before s a t hs hstep hn
    rw [List.countP_append, List.countP_singleton] at hn ⊢
    rw [List.map_append, ← List.cons_append]
    exact (hs (by omega)).step hpos hlength hstep hn

end

/-- **`Size` is exact from either end.**  A thread that calls `Size` in a reachable state
can make every load of it, whatever the other thread does meanwhile, and the fourth ends
the call, which returns the number of elements that the queue held in some state since
its start. -/
theorem size_exact [Inhabited T] (hpos : 1 ≤ length) (hlength : length < 2 ^ 32)
    (hx : (queueThreads Role T length may).Reachable x)
    (hcall : x.step may (.call i .size) = some y)
    {run : List (QueueAction Role T × QueueConfig Role T length)}
    (hrun : (queueThreads Role T length may).IsRun y run)
    (hloads : run.countP (fun a => a.1.isAccessOf i) ≤ 3) (readFirst : Bool) :
    ∃ z, (TransitionSystem.last y run).step may (.access i readFirst) = some z ∧
      (run.countP (fun a => a.1.isAccessOf i) = 3 →
        SizeReturns i (y :: run.map Prod.snd) (TransitionSystem.last y run) z) := by
  have hsizing := Sizing.run hpos hlength hx hcall hrun hloads
  rcases Nat.lt_or_ge (run.countP fun a => a.1.isAccessOf i) 3 with hlt | hge
  · obtain ⟨l, hl, -⟩ := hsizing.load hlt readFirst
    exact ⟨_, next_of_advance hl, fun h => absurd h (Nat.ne_of_lt hlt)⟩
  · have hthree := Nat.le_antisymm hloads hge
    rw [hthree] at hsizing
    obtain ⟨m, hl, hcounts⟩ := hsizing.last readFirst
    exact ⟨_, next_of_advance hl, fun _ => ⟨Function.update_self .., m, rfl, hcounts⟩⟩

/-- The theorem at a run: the consumer asks while the producer pushes. -/
theorem size_exact_duringPush :
    ∃ (y z : QueueConfig Role Nat 2) (run : List (QueueAction Role Nat × QueueConfig Role Nat 2)),
      QueueConfig.initial.step may (.call .consumer .size) = some y ∧
        (queueThreads Role Nat 2 may).IsRun y run ∧
        (TransitionSystem.last y run).step may (.access .consumer true) = some z ∧
        SizeReturns .consumer (y :: run.map Prod.snd) (TransitionSystem.last y run) z ∧
        z.history = [.accepted 7, .sized 1] := by
  have hcall : (QueueConfig.initial : QueueConfig Role Nat 2).step may (.call .consumer .size) =
      some _ := rfl
  have hrun : (queueThreads Role Nat 2 may).IsRun
      ⟨LockFreeQueue.fresh Nat 2, Function.update (fun _ => .idle) .consumer .sizeLoadRead, []⟩
      [(.access .consumer true, _), (.call .producer (.push 7), _), (.access .producer true, _),
        (.access .producer true, _), (.access .producer true, _), (.access .producer true, _),
        (.access .consumer true, _), (.access .consumer true, _)] :=
    ⟨rfl, rfl, rfl, rfl, rfl, rfl, rfl, rfl, trivial⟩
  obtain ⟨z, hz, hreturns⟩ := size_exact (by decide) (by decide) (.initial rfl) hcall hrun
    (by simp [QueueAction.isAccessOf]) true
  refine ⟨_, z, _, rfl, hrun, hz, hreturns (by simp [QueueAction.isAccessOf]), ?_⟩
  obtain rfl := Option.some.inj hz
  rfl

end Role
end MySvrKit
