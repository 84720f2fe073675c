import MySvrKit.LogDelivery
import MySvrKit.StepCounts

/-! # When a line is printed

`LoopPrint` takes four steps for a line, and three more for each call of `PrintLog` that
fails on the way: the line stays at the front of the queue and is tried again.  So how far
the loop has come in a run is given by its own steps, whatever the threads that log and
the other processes do meanwhile, until it finds the queue empty; and then everything is
printed. -/

universe u v w

namespace MySvrKit

/-- The steps of the loop that have led to its place from the head of the loop. -/
def LoopPc.stage : LoopPc → Nat
  | .empty | .undefined => 0
  | .front => 1
  | .printLog => 2
  | .pop => 3

namespace MyLog
open TransitionSystem (count last)
variable {Thread : Type w} {World : Type u} {Handle : Type v} [DecidableEq Thread]
  {os : Posix World Handle} {logLevel : Nat} {logFilePath : Str} {world : World}
  {s t : MyLog Thread World Handle} {a : LogAction Thread World} {k : Nat}

/-- A step of the `LoopPrint` thread. -/
def loops (_ : MyLog Thread World Handle) : LogAction Thread World → Bool
  | .loopPrint => true
  | .enter _ _ | .push _ | .environment _ => false

variable (os) in
/-- A call of `PrintLog` that does not return 0. -/
def fails (s : MyLog Thread World Handle) : LogAction Thread World → Bool
  | .loopPrint =>
      match s.loopPc, s.logQueue with
      | .printLog, logString :: _ =>
          match s.logFileMgr.printLog os.traced logString s.world with
          | some (ret, _, _) => ret ≠ 0
          | none => false
      | _, _ => false
  | .enter _ _ | .push _ | .environment _ => false

omit [DecidableEq Thread] in
theorem fails_of_printLog {logString : Str} {rest : List Str} {ret : Int}
    {logFileMgr : LogFileMgr Handle} {world : World × List Str} (hpc : s.loopPc = .printLog)
    (hq : s.logQueue = logString :: rest)
    (h : s.logFileMgr.printLog os.traced logString s.world = some (ret, logFileMgr, world)) :
    s.fails os .loopPrint = decide (ret ≠ 0) := by
  simp only [fails, hpc, hq, h]

omit [DecidableEq Thread] in
theorem fails_of_stage (h : s.loopPc.stage ≠ 2) : s.fails os .loopPrint = false := by
  cases hpc : s.loopPc with
  | printLog =>
    rw [hpc] at h
    exact absurd rfl h
  | empty | front | pop | undefined => simp only [fails, hpc]

/-- How far the loop has come: four for each line popped, and its place. -/
def progress (s : MyLog Thread World Handle) : Nat :=
  4 * (s.pushed.length - s.logQueue.length) + s.loopPc.stage

omit [DecidableEq Thread] in
theorem Delivering.queue_le (hs : s.Delivering) : s.logQueue.length ≤ s.pushed.length := by
  obtain ⟨popped, hpushed, -⟩ := hs.printed_eq
  have hlen := congrArg List.length hpushed
  rw [pushedLines, List.length_map, List.length_append] at hlen
  omega

omit [DecidableEq Thread] in
/-- How many lines are printed is how far the loop has come. -/
theorem Delivering.length_written (hs : s.Delivering) :
    s.written.length = (s.progress + 1) / 4 := by
  obtain ⟨popped, hpushed, hwritten⟩ := hs.printed_eq
  have hlen := congrArg List.length hpushed
  rw [pushedLines, List.length_map, List.length_append] at hlen
  rw [hwritten, List.length_map, List.length_append, progress, hlen, Nat.add_sub_cancel]
  cases hpc : s.loopPc with
  | pop =>
    have hne : s.logQueue ≠ [] := hs.nonempty (by rw [hpc]; intro h; cases h)
    obtain ⟨front, rest, hq⟩ := List.exists_cons_of_ne_nil hne
    simp only [printedFront, hpc, hq, List.take_succ_cons, List.take_zero, List.length_singleton,
      LoopPc.stage]
    omega
  | empty | front | printLog | undefined =>
    simp only [printedFront, hpc, List.length_nil, LoopPc.stage]
    omega

omit [DecidableEq Thread] in
/-- A step of the loop: it goes on by one, or a call of `PrintLog` puts it back by two, or
it has nothing to do and everything is printed. -/
theorem Delivering.progress_loopPrint (hopen : ∀ p w, (os.fopen p w).1.isSome = true)
    (hs : s.Delivering) (h : s.loopPrint os = some t) :
    (s.written.length = s.pushed.length ∧ t = s) ∨
      t.progress + 3 * (s.fails os .loopPrint).toNat = s.progress + 1 := by
  have hwritten := hs.length_written
  have hqueue := hs.queue_le
  unfold MyLog.loopPrint at h
  split at h
  case h_1 hpc =>
    by_cases hq : s.logQueue = []
    · rw [hq] at h
      rw [progress, hpc, hq, List.length_nil, LoopPc.stage] at hwritten
      refine Or.inl ⟨by omega, ?_⟩
      simpa only [List.isEmpty_nil, if_true, Option.some.injEq] using h.symm
    · have hne : s.logQueue.isEmpty = false := by simpa using hq
      rw [hne] at h
      obtain rfl := Option.some.inj h
      right
      simp only [fails, hpc, progress, LoopPc.stage, Bool.toNat_false]
  case h_2 hpc =>
    split at h
    · rename_i hnil
      exact absurd hnil (hs.nonempty (by rw [hpc]; intro h; cases h))
    · obtain rfl := Option.some.inj h
      right
      simp only [fails, hpc, progress, LoopPc.stage, Bool.toNat_false]
  case h_3 hpc =>
    split at h
    · rename_i hnil
      exact absurd hnil (hs.nonempty (by rw [hpc]; intro h; cases h))
    · rename_i logString rest hq
      split at h
      · rename_i hnone
        have htraced : ∀ p w, (os.traced.fopen p w).1.isSome = true := fun p w => hopen p w.1
        have hsome := LogFileMgr.printLog_isSome htraced s.logFileMgr logString s.world
        rw [hnone] at hsome
        cases hsome
      · rename_i ret logFileMgr world' hprint
        obtain rfl := Option.some.inj h
        right
        rw [fails_of_printLog hpc hq hprint]
        by_cases hret : ret = 0
        · simp [hret, hpc, progress, LoopPc.stage]
        · simp [hret, hpc, progress, LoopPc.stage]
  case h_4 hpc =>
    split at h
    · rename_i hnil
      exact absurd hnil (hs.nonempty (by rw [hpc]; intro h; cases h))
    · rename_i line rest hq
      obtain rfl := Option.some.inj h
      right
      rw [hq, List.length_cons] at hqueue
      simp only [fails, hpc, hq, progress, LoopPc.stage, Bool.toNat_false, List.length_cons]
      omega
  case h_5 hpc => cases h

/-- **One step**: whatever the other threads do, the loop is where its own steps have
brought it. -/
theorem Delivering.progress_step (hopen : ∀ p w, (os.fopen p w).1.isSome = true)
    (hs : s.Delivering) (h : s.next os a = some t) :
    (s.written.length = s.pushed.length ∧ t = s) ∨
      t.progress + 3 * (s.fails os a).toNat = s.progress + (s.loops a).toNat := by
  cases a with
  | enter thread call =>
    simp only [next] at h
    split at h
    · cases h
    · split at h
      · obtain rfl := Option.some.inj h
        exact Or.inr rfl
      · obtain rfl := Option.some.inj h
        exact Or.inr rfl
  | push thread =>
    obtain ⟨line, -, rfl⟩ := Option.map_eq_some_iff.mp h
    right
    simp only [fails, loops, progress, List.length_append, List.length_singleton, Bool.toNat_false]
    omega
  | environment world =>
    obtain rfl := Option.some.inj h
    exact Or.inr rfl
  | loopPrint => exact hs.progress_loopPrint hopen h

/-- Nothing printed is taken back. -/
theorem written_prefix_step (h : s.next os a = some t) : s.written <+: t.written := by
  cases a with
  | enter thread call =>
    simp only [next] at h
    split at h
    · cases h
    · split at h
      · exact Option.some.inj h ▸ List.prefix_refl _
      · exact Option.some.inj h ▸ List.prefix_refl _
  | push thread =>
    obtain ⟨line, -, rfl⟩ := Option.map_eq_some_iff.mp h
    exact List.prefix_refl _
  | environment world => exact Option.some.inj h ▸ List.prefix_refl _
  | loopPrint =>
    simp only [next, MyLog.loopPrint] at h
    split at h
    case h_1 => split at h <;> exact Option.some.inj h ▸ List.prefix_refl _
    case h_2 => split at h <;> exact Option.some.inj h ▸ List.prefix_refl _
    case h_3 =>
      split at h
      · exact Option.some.inj h ▸ List.prefix_refl _
      · split at h
        · exact Option.some.inj h ▸ List.prefix_refl _
        · rename_i hprint
          obtain rfl := Option.some.inj h
          -- `PrintLog` prints at most its line
          rcases LogFileMgr.printLog_cases os.traced_keeps hprint with
            ⟨-, hsame⟩ | ⟨-, file, w₁, hsame, -, rfl⟩
          · show s.world.2 <+: _
            rw [← hsame]
            exact List.prefix_refl _
          · show s.world.2 <+: w₁.2 ++ _
            rw [hsame]
            exact List.prefix_append _ _
    case h_4 => split at h <;> exact Option.some.inj h ▸ List.prefix_refl _
    case h_5 => cases h

theorem written_prefix_run {run : List (LogAction Thread World × MyLog Thread World Handle)}
    (h : (runs os logLevel logFilePath world).IsRun s run) : s.written <+: (last s run).written :=
  h.keeps (I := fun t => s.written <+: t.written)
    (fun _ _ _ hs hstep => hs.trans (written_prefix_step hstep)) (List.prefix_refl _)

/-- Nor is anything pushed. -/
theorem pushed_prefix_step (h : s.next os a = some t) : s.pushed <+: t.pushed := by
  cases a with
  | enter thread call =>
    simp only [next] at h
    split at h
    · cases h
    · split at h
      · exact Option.some.inj h ▸ List.prefix_refl _
      · exact Option.some.inj h ▸ List.prefix_refl _
  | push thread =>
    obtain ⟨line, -, rfl⟩ := Option.map_eq_some_iff.mp h
    exact List.prefix_append _ _
  | environment world => exact Option.some.inj h ▸ List.prefix_refl _
  | loopPrint =>
    obtain ⟨-, -, -, hsame⟩ := loopPrint_threads os h
    exact hsame ▸ List.prefix_refl _

theorem pushed_prefix_run {run : List (LogAction Thread World × MyLog Thread World Handle)}
    (h : (runs os logLevel logFilePath world).IsRun s run) : s.pushed <+: (last s run).pushed :=
  h.keeps (I := fun t => s.pushed <+: t.pushed)
    (fun _ _ _ hs hstep => hs.trans (pushed_prefix_step hstep)) (List.prefix_refl _)

/-- **The whole run**: the line is printed by its end, or the loop is where its own steps
have brought it. -/
theorem Delivering.progress_run (hopen : ∀ p w, (os.fopen p w).1.isSome = true)
    {run : List (LogAction Thread World × MyLog Thread World Handle)} :
    ∀ {s : MyLog Thread World Handle}, s.Delivering → k < s.pushed.length →
      (runs os logLevel logFilePath world).IsRun s run →
        k < (last s run).written.length ∨
          (last s run).progress + 3 * count (fails os) s run = s.progress + count loops s run := by
  induction run with
  | nil => exact fun _ _ _ => Or.inr rfl
  | cons x run ih =>
    obtain ⟨a, t⟩ := x
    intro s hs hk hrun
    obtain ⟨hstep, hrest⟩ := hrun
    have ht := hs.step hopen hstep
    have hpushed : s.pushed.length ≤ t.pushed.length := (pushed_prefix_step hstep).length_le
    rcases ih ht (Nat.lt_of_lt_of_le hk hpushed) hrest with hdone | hrun
    · exact Or.inl hdone
    · rcases hs.progress_step hopen hstep with ⟨hall, rfl⟩ | hone
      · -- the queue was empty: the line had been printed before
        left
        have hlast := written_prefix_run hrest
        exact Nat.lt_of_lt_of_le (hall ▸ hk) hlast.length_le
      · right
        simp only [last, count]
        omega

/-- **Delivery in time.**  Where `fopen` does not fail: a line that has been pushed is
printed by the time `LoopPrint` has taken four steps for each line from the first unprinted
one to it, and three more for each call of `PrintLog` that has failed meanwhile. -/
theorem written_in_time (hopen : ∀ p w, (os.fopen p w).1.isSome = true)
    (h : (runs os logLevel logFilePath world).Reachable s) (hk : k < s.pushed.length)
    {run : List (LogAction Thread World × MyLog Thread World Handle)}
    (hrun : (runs os logLevel logFilePath world).IsRun s run)
    (hloops : 4 * (k + 1 - s.written.length) + 3 * count (fails os) s run ≤ count loops s run) :
    ∃ line, s.pushedLines[k]? = some line ∧
      (last s run).written[k]? = some (printed line) := by
  have hs := delivering_of_reachable hopen h
  have hwritten := hs.length_written
  have hlast : (last s run).Delivering :=
    hrun.keeps (fun _ _ _ hs hstep => hs.step hopen hstep) hs
  have hprinted : k < (last s run).written.length := by
    rcases hs.progress_run hopen hk hrun with hdone | hprogress
    · exact hdone
    · rw [hlast.length_written]
      omega
  -- what is printed there is the line of that number
  obtain ⟨later, hlater⟩ := hlast.written_prefix
  obtain ⟨since, hsince⟩ := (pushed_prefix_run hrun).map Prod.snd
  have hk : k < s.pushedLines.length := (List.length_map ..).symm ▸ hk
  refine ⟨s.pushedLines[k], List.getElem?_eq_getElem hk, ?_⟩
  have hpushed : (last s run).pushedLines[k]? = some s.pushedLines[k] := by
    rw [pushedLines, ← hsince]
    exact (List.getElem?_append_left hk).trans (List.getElem?_eq_getElem hk)
  calc (last s run).written[k]?
      = ((last s run).written ++ later)[k]? := (List.getElem?_append_left hprinted).symm
    _ = ((last s run).pushedLines.map printed)[k]? := by rw [hlater]
    _ = some (printed s.pushedLines[k]) := by rw [List.getElem?_map, hpushed, Option.map_some]

/-- The theorem at a run with a second line whose first call fails: seven steps of the loop
print it. -/
theorem written_in_time_secondRun :
    (runs posix 1 ['l'] eve).Reachable secondPushed ∧
      (runs posix 1 ['l'] eve).IsRun secondPushed secondRun ∧
      count (fails posix) secondPushed secondRun = 1 ∧ count loops secondPushed secondRun = 7 ∧
      secondPushed.written = [['t', '|', 'g', '|', 'r', 'u', 'n', '|', 'm', '\n']] ∧
      ∃ line, secondPushed.pushedLines[1]? = some line ∧
        (last secondPushed secondRun).written[1]? = some (printed line) := by
  have hfails : count (fails posix) secondPushed secondRun = 1 := by
    have hfirst : fails posix ({ secondMeets true with loopPc := .printLog } :
        MyLog Unit LogWorld Nat) .loopPrint = _ :=
      fails_of_printLog rfl rfl printLog_secondMeets
    have hnext : fails posix ({ secondFailed with
        world := (secondMeets false).world, loopPc := .printLog } :
          MyLog Unit LogWorld Nat) .loopPrint = _ :=
      fails_of_printLog rfl rfl printLog_secondFailed
    have hidle : ∀ s : MyLog Unit LogWorld Nat, s.loopPc.stage ≠ 2 →
        fails posix s .loopPrint = false := fun _ => fails_of_stage
    -- one step after the other
    have henvironment : ∀ (s : MyLog Unit LogWorld Nat) w, fails posix s (.environment w) = false :=
      fun _ _ => rfl
    rw [secondRun, count, henvironment, count, hidle (secondMeets true) (by decide), count,
      hidle { secondMeets true with loopPc := .front } (by decide), count, hfirst, count,
      henvironment, count,
      hidle { secondFailed with world := (secondMeets false).world } (by decide), count,
      hidle { secondFailed with world := (secondMeets false).world, loopPc := .front }
        (by decide), count, hnext, count, hidle secondPrinted (by decide), count]
    decide
  have hloops : count loops secondPushed secondRun = 7 := rfl
  refine ⟨reachable_secondPushed, isRun_secondRun, hfails, hloops, rfl, ?_⟩
  exact written_in_time posix_fopen_isSome reachable_secondPushed (by decide) isRun_secondRun
    (by rw [hfails, hloops]; decide)

end MyLog
end MySvrKit
