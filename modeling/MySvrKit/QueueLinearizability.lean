import MySvrKit.AtomicFifo
import MySvrKit.QueueSize

/-! # One producer and one consumer see an atomic queue

The queue shared by one producer and one consumer refines the queue whose operations
are atomic: any calls and answers of a run, up to the first access outside
`ring_buffer_`, could have come from operations each performed at one instant between
its call and its return.  A `Push` is performed by its store and a successful `Pop` by
its own.  `Size`, `Empty` and a `Pop` that finds nothing are performed by the load
that made up the pair of positions their answer comes from, and whether that was it
only a later load decides: hence a backward simulation. -/

universe u v

namespace MySvrKit
open LockFreeQueue QueueEvent

/-- What a call returns, by the event of its last access. -/
def replyOf {T : Type u} : List (QueueEvent T) → FifoReply T
  | [.accepted _] => .pushed true
  | [.refused] => .pushed false
  | [.returned t] => .popped (some t)
  | [.foundEmpty] => .popped none
  | [.sized n] => .size n
  | [.wasEmpty b] => .empty b
  | _ => .cleared

/-- What a thread that has come to this place has had returned. -/
def answered {T : Type u} (events : List (QueueEvent T)) : Local T → List (FifoReply T)
  | .idle => [replyOf events]
  | _ => []

/-- What is seen of a step: the call a thread enters, and what it returns at its last
access. -/
def QueueConfig.observe {Tid : Type v} {T : Type u} {length : Nat}
    (x : QueueConfig Tid T length) : QueueAction Tid T → List (FifoSeen Tid T)
  | .call i c => [.invoke i c]
  | .access i readFirst =>
      match x.queue.advance readFirst (x.locals i) with
      | some (_, l, events) => (answered events l).map (.respond i)
      | none => []

namespace Local
variable {T : Type u}

/-- The call a thread is in; `Clear` has begun to take elements at its store. -/
def pending : Local T → Option (FifoCall T)
  | .pushLoadWrite t | .pushLoadRead t .. | .pushWriteSlot t .. | .pushStoreWrite t .. =>
      some (.push t)
  | .popEmpty _ | .popLoadRead | .popReadSlot .. | .popStoreRead .. => some .pop
  | .clearLoadRead | .clearLoadWrite _ => some .clear
  | .sizeLoadRead | .sizeLoadWrite _ | .sizeEmpty .. => some .size
  | .emptyCall _ => some .empty
  | .idle | .clearStoreRead .. => none

end Local

namespace Role
variable {T : Type u} {length : Nat}

/-! ## What a thread has loaded

`p` is the position that only this thread moves, which stands still during its calls
up to their store. -/

/-- A read position loaded during the call. -/
def ReadSeen (p r : Nat) : Role → Prop
  | .producer => r ≤ p
  | .consumer => r = p

/-- A write position loaded during the call. -/
def WriteSeen (p w : Nat) : Role → Prop
  | .producer => w = p
  | .consumer => p ≤ w

def EmptySeen (i : Role) (p : Nat) : EmptyLocal → Prop
  | .start => True
  | .haveRead r => i.ReadSeen p r
  | .haveWrite w => i.WriteSeen p w

/-- What a thread's local variables are to its own position. -/
def Loaded (i : Role) (p : Nat) : Local T → Prop
  | .popEmpty e | .emptyCall e => i.EmptySeen p e
  | .clearLoadWrite r | .sizeLoadWrite r => i.ReadSeen p r
  | .sizeEmpty r w e => i.ReadSeen p r ∧ i.WriteSeen p w ∧ i.EmptySeen p e
  | _ => True

theorem readSeen_load (i : Role) {q : LockFreeQueue T length}
    (hle : q.readPosition ≤ q.writePosition) : i.ReadSeen (own q i) q.readPosition := by
  cases i with
  | producer => exact hle
  | consumer => rfl

theorem writeSeen_load (i : Role) {q : LockFreeQueue T length}
    (hle : q.readPosition ≤ q.writePosition) : i.WriteSeen (own q i) q.writePosition := by
  cases i with
  | producer => rfl
  | consumer => exact hle

theorem ReadSeen.le {i : Role} {p r w : Nat} (hr : i.ReadSeen p r) (hw : i.WriteSeen p w) :
    r ≤ w := by
  cases i with
  | producer => exact hr.trans_eq hw.symm
  | consumer => exact hr.trans_le hw

/-- The answer of `Empty` that a first load of the other thread's position decides. -/
inductive EmptyAnswer (p : Nat) : Role → EmptyLocal → Bool → Prop
  | read {r} : EmptyAnswer p .producer (.haveRead r) (r = p)
  | write {w} : EmptyAnswer p .consumer (.haveWrite w) (p = w)

/-- The first load of `Empty`: what it decides is so now. -/
theorem emptyStep_first {i : Role} {q : LockFreeQueue T length} {readFirst : Bool}
    {e e' : EmptyLocal} (hle : q.readPosition ≤ q.writePosition)
    (h : q.emptyStep readFirst e = .inl e') :
    e = .start ∧ i.EmptySeen (own q i) e' ∧
      ∀ b, EmptyAnswer (own q i) i e' b → b = q.empty := by
  cases e with
  | haveRead r | haveWrite w => cases h
  | start =>
    refine ⟨rfl, ?_⟩
    cases readFirst with
    | true =>
      obtain rfl := Sum.inl.inj h
      refine ⟨readSeen_load i hle, fun b hb => ?_⟩
      cases hb
      rfl
    | false =>
      obtain rfl := Sum.inl.inj h
      refine ⟨writeSeen_load i hle, fun b hb => ?_⟩
      cases hb
      rfl

/-- The second load of `Empty`: the answer was decided by the first, or is so now. -/
theorem emptyStep_second {i : Role} {q : LockFreeQueue T length} {readFirst : Bool}
    {e : EmptyLocal} {b : Bool} (hseen : i.EmptySeen (own q i) e)
    (h : q.emptyStep readFirst e = .inr b) : EmptyAnswer (own q i) i e b ∨ b = q.empty := by
  cases e with
  | start => cases h
  | haveRead r =>
    obtain rfl := Sum.inr.inj h
    cases i with
    | producer => exact Or.inl .read
    | consumer =>
      obtain rfl : r = q.readPosition := hseen
      exact Or.inr rfl
  | haveWrite w =>
    obtain rfl := Sum.inr.inj h
    cases i with
    | producer =>
      obtain rfl : w = q.writePosition := hseen
      exact Or.inr rfl
    | consumer => exact Or.inl .write

/-! ## The invariant -/

/-- The invariant of a run, with what each thread has loaded. -/
structure Loading (x : QueueConfig Role T length) : Prop where
  inv : Inv x
  loaded : ∀ i, Loaded i (own x.queue i) (x.locals i)

theorem loaded_enter (i : Role) (p : Nat) (c : FifoCall T) :
    i.Loaded p (LockFreeQueue.enter c) := by
  cases c <;> trivial

/-- An access of a thread: its stores end its calls, its loads are of positions seen
now. -/
theorem loaded_access {i : Role} {q q' : LockFreeQueue T length} {l l' : Local T}
    {events : List (QueueEvent T)} (hle : q.readPosition ≤ q.writePosition)
    (hl : i.Loaded (own q i) l) (ha : q.Access l q' l' events) : i.Loaded (own q' i) l' := by
  cases ha with
  | popEmptyLoad he | emptyLoad he => exact (emptyStep_first hle he).2.1
  | sizeEmptyLoad he => exact ⟨hl.1, hl.2.1, (emptyStep_first hle he).2.1⟩
  | clearLoadRead | sizeLoadRead => exact readSeen_load i hle
  | sizeLoadWrite => exact ⟨hl, writeSeen_load i hle, trivial⟩
  | _ => trivial

section
variable (hpos : 1 ≤ length) (hlength : length < 2 ^ 32)

include hpos hlength in
theorem Loading.step {x y : QueueConfig Role T length} {a : QueueAction Role T} (h : Loading x)
    (hs : x.step may a = some y) : Loading y := by
  refine ⟨h.inv.step hpos hlength hs, ?_⟩
  cases a with
  | call i c =>
    obtain ⟨-, rfl⟩ := QueueConfig.next_call (QueueConfig.step_call hs).2
    exact forall_update (p := fun i l => Loaded i (own x.queue i) l) (loaded_enter i _ c)
      fun j _ => h.loaded j
  | access i readFirst =>
    obtain ⟨q, l, events, ha, rfl⟩ := QueueConfig.next_access hs
    refine forall_update (p := fun i l => Loaded i (own q i) l)
      (loaded_access h.inv.ordered.read_le (h.loaded i) ha) fun j hj => ?_
    rw [h.inv.own_access hpos hlength (Ne.symm hj) ha]
    exact h.loaded j

include hpos hlength in
theorem loading_of_reachable [Inhabited T] {x : QueueConfig Role T length}
    (h : (queueThreads Role T length may).Reachable x) : Loading x := by
  refine h.invariant ?_ fun _ _ _ hi hs => hi.step hpos hlength hs
  rintro _ rfl
  exact ⟨inv_of_reachable hpos hlength (.initial rfl), fun _ => trivial⟩

end

/-! ## Contents -/

theorem Inv.length_contents {x : QueueConfig Role T length} (h : Inv x) :
    x.queue.contents.length = x.queue.writePosition - x.queue.readPosition := by
  have hcounts := h.counts
  rw [QueueConfig.Counts, h.ordered.accepts_eq, List.length_append] at hcounts
  omega

theorem Inv.isEmpty_contents {x : QueueConfig Role T length} (h : Inv x) :
    x.queue.contents.isEmpty = x.queue.empty := by
  have hle := h.ordered.read_le
  have hlen := h.length_contents
  rw [Bool.eq_iff_iff, List.isEmpty_iff, ← List.length_eq_zero_iff, hlen, LockFreeQueue.empty,
    decide_eq_true_iff]
  omega

/-- The contents before and after a step, by what it has accepted and removed. -/
theorem contents_of_events {x y : QueueConfig Role T length} (hx : Inv x) (hy : Inv y)
    {events : List (QueueEvent T)} (h : y.history = x.history ++ events) :
    x.queue.contents ++ accepts events = removals events ++ y.queue.contents := by
  have hafter := hy.ordered.accepts_eq
  rw [h, accepts_append, removals_append, hx.ordered.accepts_eq, List.append_assoc,
    List.append_assoc] at hafter
  exact List.append_cancel_left hafter

/-! ## The atomic queue's side -/

/-- An answer that a thread's loads have decided and not yet given. -/
inductive Committed (i : Role) (p : Nat) : Local T → FifoReply T → Prop
  | popFoundEmpty {e} (h : EmptyAnswer p i e true) : Committed i p (.popEmpty e) (.popped none)
  | sizeRead {r} (hi : i = .producer) : Committed i p (.sizeLoadWrite r) (.size (p - r))
  | sized {r w e} : Committed i p (.sizeEmpty r w e) (.size (w - r))
  | sizeZero {r w e} (h : EmptyAnswer p i e true) : Committed i p (.sizeEmpty r w e) (.size 0)
  | wasEmpty {e b} (h : EmptyAnswer p i e b) : Committed i p (.emptyCall e) (.empty b)

/-- Where the atomic queue may be with the operation of a thread that stands at `l`. -/
inductive Stands (i : Role) (p : Nat) : Local T → FifoStatus T → Prop
  | idle : Stands i p .idle .idle
  | called {l c} (h : l.pending = some c) : Stands i p l (.called c)
  | clearing {r w} : Stands i p (.clearStoreRead r w) (.clearing (w - p))
  | done {l reply} (h : Committed i p l reply) : Stands i p l (.done reply)

/-- The atomic queue holds the same, and is as far with every thread's operation. -/
structure Matches (x : QueueConfig Role T length) (q : AtomicFifo Role T) : Prop where
  held : q.held = x.queue.contents
  stands : ∀ i, Stands i (own x.queue i) (x.locals i) (q.status i)

theorem Stands.eq_idle {i : Role} {p : Nat} {status : FifoStatus T}
    (h : Stands i p .idle status) : status = .idle := by
  cases h with
  | idle => rfl
  | called hc => cases hc
  | done hd => cases hd

/-- Where nothing is decided, the operation is still to be performed. -/
theorem Stands.eq_called {i : Role} {p : Nat} {l : Local T} {c : FifoCall T}
    {status : FifoStatus T} (h : Stands i p l status) (hl : l.pending = some c)
    (hnot : ∀ reply, ¬ Committed i p l reply) : status = .called c := by
  cases h with
  | idle | clearing => cases hl
  | called hc => rw [Option.some.inj (hc.symm.trans hl)]
  | done hd => exact absurd hd (hnot _)

/-- What the atomic queue does about one access: how what it holds and the thread's
operation change, and what the thread is answered. -/
inductive Explains (held : List T) :
    FifoStatus T → List (FifoReply T) → List T → FifoStatus T → Prop
  | nothing {status} : Explains held status [] held status
  | performs {status held' status'} (h : AtomicFifo.perform held status = some (held', status')) :
      Explains held status [] held' status'
  | answers {reply} : Explains held (.done reply) [reply] held .idle
  | performsAndAnswers {status held' reply}
      (h : AtomicFifo.perform held status = some (held', .done reply)) :
      Explains held status [reply] held' .idle
  | clearsNothing (h : held = []) : Explains held (.called .clear) [.cleared] held .idle

theorem Explains.shows {held held' : List T} {status status' : FifoStatus T}
    {replies : List (FifoReply T)} (h : Explains held status replies held' status') (i : Role)
    (others : Role → FifoStatus T) :
    (atomicFifo Role T).Shows AtomicFifo.observe ⟨held, Function.update others i status⟩
      (replies.map (.respond i)) ⟨held', Function.update others i status'⟩ := by
  have hstatus : ∀ status, Function.update others i status i = status := fun _ =>
    Function.update_self ..
  cases h with
  | nothing => exact .refl _
  | performs h =>
    have hshows := AtomicFifo.shows_perform (q := ⟨held, Function.update others i status⟩)
      (hstatus status) h
    rwa [Function.update_idem] at hshows
  | @answers reply =>
    have hshows := AtomicFifo.shows_respond (q := ⟨held, Function.update others i (.done reply)⟩)
      (hstatus (.done reply))
    rwa [Function.update_idem] at hshows
  | performsAndAnswers h =>
    have hshows := AtomicFifo.shows_answer (q := ⟨held, Function.update others i status⟩)
      (hstatus status) h
    rwa [Function.update_idem] at hshows
  | clearsNothing h =>
    subst h
    -- it notes that there is nothing, and takes nothing
    have hnote := AtomicFifo.shows_perform
      (q := ⟨[], Function.update others i (.called .clear)⟩) (hstatus _)
      (show AtomicFifo.perform [] (.called .clear) = some ([], .clearing 0) from rfl)
    have htake := AtomicFifo.shows_answer
      (q := ⟨[], Function.update (Function.update others i (.called .clear)) i (.clearing 0)⟩)
      (Function.update_self ..)
      (show AtomicFifo.perform [] (.clearing 0) = some ([], .done .cleared) from rfl)
    simpa only [List.nil_append, List.map_cons, List.map_nil, Function.update_idem] using
      hnote.trans htake

/-! ## Every access is explained -/

section
variable {i : Role} {x : QueueConfig Role T length} {q : LockFreeQueue T length} {l : Local T}
  {events : List (QueueEvent T)} {status' : FifoStatus T}

theorem Inv.perform_size (h : Inv x) :
    AtomicFifo.perform x.queue.contents (.called .size) =
      some (x.queue.contents, .done (.size (x.queue.writePosition - x.queue.readPosition))) := by
  simp only [AtomicFifo.perform, h.length_contents]

theorem Inv.perform_empty (h : Inv x) :
    AtomicFifo.perform x.queue.contents (.called .empty) =
      some (x.queue.contents, .done (.empty x.queue.empty)) := by
  simp only [AtomicFifo.perform, h.isEmpty_contents]

theorem Inv.contents_of_empty (h : Inv x) (he : x.queue.empty = true) :
    x.queue.contents = [] := by
  rw [← List.isEmpty_iff, h.isEmpty_contents, he]

/-- Of an empty queue `Pop` and `Size` say so. -/
theorem Inv.perform_of_empty (h : Inv x) (he : true = x.queue.empty) :
    AtomicFifo.perform x.queue.contents (.called .pop) =
        some (x.queue.contents, .done (.popped none)) ∧
      AtomicFifo.perform x.queue.contents (.called .size) =
        some (x.queue.contents, .done (.size 0)) := by
  rw [h.contents_of_empty he.symm]
  exact ⟨rfl, rfl⟩

/-- What the atomic queue may have been doing before an access of thread `i`. -/
def Explained (i : Role) (x : QueueConfig Role T length) (q : LockFreeQueue T length)
    (l : Local T) (events : List (QueueEvent T)) (status' : FifoStatus T) : Prop :=
  ∃ status, Stands i (own x.queue i) (x.locals i) status ∧
    Explains x.queue.contents status (answered events l) q.contents status'

/-- An access in the middle of a call that decides nothing. -/
theorem Explained.of_quiet {p : Nat} {c : FifoCall T} (hpending : (x.locals i).pending = some c)
    (hl : l.pending = some c) (hnot : ∀ reply, ¬ Committed i p l reply)
    (hq : q.contents = x.queue.contents) (hs : Stands i p l status') :
    Explained i x q l events status' := by
  obtain rfl := hs.eq_called hl hnot
  have hanswered : answered events l = [] := by cases l <;> first | rfl | cases hl
  refine ⟨.called c, .called hpending, ?_⟩
  rw [hanswered, hq]
  exact .nothing

/-- A last access at which the operation is performed. -/
theorem Explained.of_perform {p : Nat} {c : FifoCall T} (hpending : (x.locals i).pending = some c)
    (h : AtomicFifo.perform x.queue.contents (.called c) =
      some (q.contents, .done (replyOf events)))
    (hs : Stands i p .idle status') : Explained i x q .idle events status' := by
  obtain rfl := hs.eq_idle
  exact ⟨.called c, .called hpending, .performsAndAnswers h⟩

/-- A last access that gives an answer decided before. -/
theorem Explained.of_committed {p : Nat}
    (h : Committed i (own x.queue i) (x.locals i) (replyOf events))
    (hq : q.contents = x.queue.contents) (hs : Stands i p .idle status') :
    Explained i x q .idle events status' := by
  obtain rfl := hs.eq_idle
  refine ⟨.done _, .done h, ?_⟩
  rw [hq]
  exact .answers

/-- A load after which the operation may have been performed: now, or before. -/
theorem Explained.of_load {c : FifoCall T} (hpending : (x.locals i).pending = some c)
    (hl : l.pending = some c)
    (hdone : ∀ reply, Committed i (own x.queue i) l reply →
      Committed i (own x.queue i) (x.locals i) reply ∨
        AtomicFifo.perform x.queue.contents (.called c) = some (x.queue.contents, .done reply))
    (hs : Stands i (own x.queue i) l status') : Explained i x x.queue l events status' := by
  have hanswered : answered events l = [] := by cases l <;> first | rfl | cases hl
  unfold Explained
  rw [hanswered]
  cases hs with
  | idle | clearing => cases hl
  | called hc =>
    obtain rfl := Option.some.inj (hl.symm.trans hc)
    exact ⟨.called c, .called hpending, .nothing⟩
  | @done l reply hd =>
    rcases hdone reply hd with h | h
    · exact ⟨.done reply, .done h, .nothing⟩
    · exact ⟨.called c, .called hpending, .performs h⟩

/-- On the first lap no `Push` finds the ring full. -/
theorem Inv.not_full (h : Inv x) (hpos : 1 ≤ length) (hlength : length + 2 < 2 ^ 32) {t : T}
    {old new : Nat} (hl : x.locals i = .pushLoadRead t old new) :
    new ≠ x.queue.readPosition := by
  obtain ⟨rfl, rfl⟩ : old = x.queue.writePosition ∧ new = nextPosition length old := by
    have hholds := h.ordered.holds i
    rwa [hl] at hholds
  have hwrite := h.ordered.write_le
  rw [kRingBufferLength_eq (by omega)] at hwrite
  rw [nextPosition_eq hpos (by omega), Nat.mod_eq_of_lt (by omega)]
  have hread := h.ordered.read_le
  omega

/-- What the store of a `Clear` takes off. -/
theorem Inv.contents_clear (hx : Inv x) {readPos writePos : Nat}
    (hl : x.locals i = .clearStoreRead readPos writePos)
    (hy : Inv (⟨{ x.queue with readPosition := writePos }, Function.update x.locals i .idle,
      x.history ++ [.discarded { x.queue with writePosition := writePos }.contents]⟩ :
        QueueConfig Role T length)) :
    { x.queue with readPosition := writePos }.contents =
      x.queue.contents.drop (writePos - x.queue.readPosition) := by
  obtain ⟨hle, hle'⟩ : x.queue.readPosition ≤ writePos ∧ writePos ≤ x.queue.writePosition := by
    have hholds := hx.ordered.holds i
    rwa [hl] at hholds
  have heq : x.queue.contents ++ [] = { x.queue with writePosition := writePos }.contents ++
      { x.queue with readPosition := writePos }.contents :=
    (contents_of_events hx hy rfl).trans (congrArg (· ++ _) (List.append_nil _))
  have hafter : { x.queue with readPosition := writePos }.contents.length =
      x.queue.writePosition - writePos := hy.length_contents
  have hlen := congrArg List.length heq
  rw [List.append_nil] at heq hlen
  rw [List.length_append, hx.length_contents, hafter] at hlen
  rw [heq, List.drop_left' (by omega)]

/-- **Every access is explained**, one case per branch of `advance`. -/
theorem Loading.explained (hx : Loading x) (hpos : 1 ≤ length) (hlength : length + 2 < 2 ^ 32)
    (ha : x.queue.Access (x.locals i) q l events)
    (hy : Inv ⟨q, Function.update x.locals i l, x.history ++ events⟩)
    (hs : Stands i (own q i) l status') : Explained i x q l events status' := by
  have hle := hx.inv.ordered.read_le
  have hseen := hx.loaded i
  have hnow := hx.inv.perform_size
  generalize hl : x.locals i = place at ha hseen
  have hpending : (x.locals i).pending = place.pending := congrArg _ hl
  cases ha with
  | pushLoadWrite | pushLoadRead _ | popNotEmpty _ | popLoadRead | popReadSlot _ | clearLoadRead =>
    exact .of_quiet hpending rfl nofun rfl hs
  | pushWriteSlot hslot =>
    have hcontents : x.queue.contents ++ [] = q.contents := contents_of_events hx.inv hy rfl
    rw [List.append_nil] at hcontents
    exact .of_quiet hpending rfl nofun hcontents.symm hs
  | pushFull hfull => exact absurd hfull (hx.inv.not_full hpos hlength hl)
  | @pushStoreWrite t old new =>
    have hcontents : x.queue.contents ++ [t] = { x.queue with writePosition := new }.contents :=
      contents_of_events hx.inv hy rfl
    refine .of_perform hpending ?_ hs
    rw [← hcontents]
    rfl
  | @popEmptyLoad readFirst e e' he =>
    obtain ⟨rfl, -, hanswer⟩ := emptyStep_first (i := i) hle he
    refine .of_load hpending rfl (fun reply hd => ?_) hs
    cases hd with
    | popFoundEmpty h => exact Or.inr (hx.inv.perform_of_empty (hanswer true h)).1
  | popFoundEmpty he =>
    rcases emptyStep_second hseen he with h | h
    · exact .of_committed (hl ▸ .popFoundEmpty h) rfl hs
    · exact .of_perform hpending (hx.inv.perform_of_empty h).1 hs
  | @popStoreRead t old new =>
    have hcontents : x.queue.contents ++ [] = t :: { x.queue with readPosition := new }.contents :=
      contents_of_events hx.inv hy rfl
    rw [List.append_nil] at hcontents
    refine .of_perform hpending ?_ hs
    rw [hcontents]
    rfl
  | @clearLoadWrite readPos hne =>
    -- the elements held now are those the store will take
    have hstatus : status' = .clearing x.queue.contents.length := by
      rw [hx.inv.length_contents]
      cases hs with
      | called hc => cases hc
      | clearing => cases i with
        | producer =>
          have hproducer := hx.inv.producer
          rw [hl] at hproducer
          exact hproducer.elim
        | consumer => rfl
      | done hd => cases hd
    exact ⟨.called .clear, .called hpending, hstatus ▸ .performs rfl⟩
  | @clearNothing readPos heq =>
    obtain rfl := hs.eq_idle
    refine ⟨.called .clear, .called hpending, .clearsNothing (hx.inv.contents_of_empty ?_)⟩
    cases i with
    | producer =>
      have hproducer := hx.inv.producer
      rw [hl] at hproducer
      exact hproducer.elim
    | consumer =>
      obtain rfl : readPos = x.queue.readPosition := hseen
      exact decide_eq_true heq
  | @clearStoreRead readPos writePos =>
    obtain rfl := hs.eq_idle
    refine ⟨.clearing (writePos - own x.queue i), hl ▸ .clearing, .performsAndAnswers ?_⟩
    cases i with
    | producer =>
      have hproducer := hx.inv.producer
      rw [hl] at hproducer
      exact hproducer.elim
    | consumer =>
      rw [hx.inv.contents_clear hl hy]
      rfl
  | sizeLoadRead =>
    refine .of_load hpending rfl (fun reply hd => ?_) hs
    cases hd with
    | sizeRead hi =>
      subst hi
      exact Or.inr hnow
  | @sizeLoadWrite readPos =>
    refine .of_load hpending rfl (fun reply hd => ?_) hs
    cases hd with
    | sized =>
      cases i with
      | producer => exact Or.inl (hl ▸ .sizeRead rfl)
      | consumer =>
        obtain rfl : readPos = x.queue.readPosition := hseen
        exact Or.inr hnow
    | sizeZero h => cases h
  | @sizeEmptyLoad readPos writePos readFirst e e' he =>
    obtain ⟨rfl, -, hanswer⟩ := emptyStep_first (i := i) hle he
    refine .of_load hpending rfl (fun reply hd => ?_) hs
    cases hd with
    | sized => exact Or.inl (hl ▸ .sized)
    | sizeZero h => exact Or.inr (hx.inv.perform_of_empty (hanswer true h)).2
  | sizeZero he =>
    rcases emptyStep_second hseen.2.2 he with h | h
    · exact .of_committed (hl ▸ .sizeZero h) rfl hs
    · exact .of_perform hpending (hx.inv.perform_of_empty h).2 hs
  | @sizeBetween readPos writePos readFirst e he =>
    have hsize : LockFreeQueue.sizeBetween length readPos writePos = writePos - readPos :=
      if_neg (Nat.not_lt.mpr (hseen.1.le hseen.2.1))
    refine .of_committed ?_ rfl hs
    rw [hl, hsize]
    exact .sized
  | emptyLoad he =>
    obtain ⟨rfl, -, hanswer⟩ := emptyStep_first (i := i) hle he
    refine .of_load hpending rfl (fun reply hd => ?_) hs
    cases hd with
    | wasEmpty h => exact Or.inr (hanswer _ h ▸ hx.inv.perform_empty)
  | emptyAnswer he =>
    rcases emptyStep_second hseen he with h | h
    · exact .of_committed (hl ▸ .wasEmpty h) rfl hs
    · exact .of_perform hpending (h ▸ hx.inv.perform_empty) hs

end

/-! ## The refinement -/

theorem exists_stands (i : Role) (p : Nat) (l : Local T) : ∃ status, Stands i p l status := by
  cases l with
  | idle => exact ⟨_, .idle⟩
  | clearStoreRead r w => exact ⟨_, .clearing⟩
  | _ => exact ⟨_, .called rfl⟩

theorem not_committed_enter {i : Role} {p : Nat} {c : FifoCall T} {reply : FifoReply T} :
    ¬ Committed i p (LockFreeQueue.enter c) reply := by
  intro h
  cases c with
  | pop => cases h with
    | popFoundEmpty ha => cases ha
  | empty => cases h with
    | wasEmpty ha => cases ha
  | _ => cases h

section
variable {x y : QueueConfig Role T length} {i : Role} {b : AtomicFifo Role T}

/-- The atomic queue before a step of thread `i`, by what it is after. -/
theorem Matches.of_status {others : Role → FifoStatus T} {status : FifoStatus T}
    (hi : Stands i (own x.queue i) (x.locals i) status)
    (hothers : ∀ j, j ≠ i → Stands j (own x.queue j) (x.locals j) (others j)) :
    Matches x ⟨x.queue.contents, Function.update others i status⟩ := by
  refine ⟨rfl, fun j => ?_⟩
  by_cases hj : j = i
  · subst hj
    simp only [Function.update_self]
    exact hi
  · simp only [Function.update_of_ne hj]
    exact hothers j hj

/-- An operation is invoked when its call is entered. -/
theorem Matches.call {c : FifoCall T} (hb : Matches y b) (hs : x.next (.call i c) = some y) :
    ∃ a, Matches x a ∧ (atomicFifo Role T).Shows AtomicFifo.observe a [.invoke i c] b := by
  obtain ⟨hidle, rfl⟩ := QueueConfig.next_call hs
  have hcalled : b.status i = .called c := by
    have hstands := hb.stands i
    simp only [Function.update_self] at hstands
    refine hstands.eq_called ?_ fun _ => not_committed_enter
    cases c <;> rfl
  have hstands : Stands i (own x.queue i) (x.locals i) .idle := hidle ▸ .idle
  refine ⟨⟨_, Function.update b.status i _⟩, .of_status hstands fun j hj => ?_, ?_⟩
  · have hother := hb.stands j
    simp only [Function.update_of_ne hj] at hother
    exact hother
  · have hheld : b.held = x.queue.contents := hb.held
    have hshows := AtomicFifo.shows_invoke (q := ⟨b.held, Function.update b.status i .idle⟩)
      (i := i) (c := c) (Function.update_self ..)
    simpa only [Function.update_idem, ← hcalled, Function.update_eq_self, ← hheld] using hshows

/-- An access is what the atomic queue does about it. -/
theorem Matches.access (hpos : 1 ≤ length) (hlength : length + 2 < 2 ^ 32) (hx : Loading x)
    {readFirst : Bool} (hb : Matches y b) (hs : x.step may (.access i readFirst) = some y) :
    ∃ a, Matches x a ∧
      (atomicFifo Role T).Shows AtomicFifo.observe a (x.observe (.access i readFirst)) b := by
  have hy := hx.inv.step hpos (by omega) hs
  obtain ⟨⟨q, l, events⟩, hadvance, rfl⟩ := Option.map_eq_some_iff.mp hs
  have ha := access_of_advance hadvance
  have hstands := hb.stands i
  simp only [Function.update_self] at hstands
  obtain ⟨status, hstatus, hexplains⟩ := hx.explained hpos hlength ha hy hstands
  refine ⟨⟨_, Function.update b.status i _⟩, .of_status hstatus fun j hj => ?_, ?_⟩
  · -- the others stand where they stood, and so do their own positions
    have hother := hb.stands j
    simp only [Function.update_of_ne hj] at hother
    rwa [hx.inv.own_access hpos (by omega) (Ne.symm hj) ha] at hother
  · have hheld : b.held = q.contents := hb.held
    have hshows := hexplains.shows i b.status
    rw [Function.update_eq_self, ← hheld] at hshows
    simpa only [QueueConfig.observe, hadvance] using hshows

end

/-- **Linearizability.**  Whatever calls and answers can be seen of one producer and one
consumer on the queue, in any interleaving of their loads and stores up to the first
access outside `ring_buffer_`, can be seen of the queue whose operations are atomic. -/
theorem spsc_linearizable [Inhabited T] (hpos : 1 ≤ length) (hlength : length + 2 < 2 ^ 32) :
    (queueThreads Role T length may).Refines QueueConfig.observe (atomicFifo Role T)
      AtomicFifo.observe := by
  refine TransitionSystem.BackwardSimulation.refines (R := Matches) ⟨?_, ?_, ?_⟩
  · intro x _
    choose status hstatus using fun i => exists_stands i (own x.queue i) (x.locals i)
    exact ⟨⟨x.queue.contents, status⟩, rfl, hstatus⟩
  · rintro x a rfl ha
    have hheld := ha.held
    have hidle : a.status = fun _ => .idle := funext fun i => (ha.stands i).eq_idle
    obtain ⟨held, status⟩ := a
    obtain rfl : held = [] := hheld
    obtain rfl : status = fun _ => .idle := hidle
    rfl
  · intro x action y b hx hs hb
    cases action with
    | call i c => exact hb.call (QueueConfig.step_call hs).2
    | access i readFirst =>
      exact hb.access hpos hlength (loading_of_reachable hpos (by omega) hx) hs

/-- The theorem at a run: the consumer asks for the size while the producer pushes. -/
theorem spsc_linearizable_duringPush :
    (atomicFifo Role Nat).Exhibits AtomicFifo.observe
      [.invoke .consumer .size, .invoke .producer (.push 7), .respond .producer (.pushed true),
        .respond .consumer (.size 1)] := by
  refine spsc_linearizable (show 1 ≤ 2 by decide) (by decide) _ ⟨_, _, rfl,
    [(.call .consumer .size, _), (.access .consumer true, _), (.call .producer (.push 7), _),
      (.access .producer true, _), (.access .producer true, _), (.access .producer true, _),
      (.access .producer true, _), (.access .consumer true, _), (.access .consumer true, _),
      (.access .consumer true, _)],
    ⟨rfl, rfl, rfl, rfl, rfl, rfl, rfl, rfl, rfl, rfl, trivial⟩, rfl, rfl⟩

end Role
end MySvrKit
