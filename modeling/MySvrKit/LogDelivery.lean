import MySvrKit.LogRotation

/-! # Asynchronous log delivery

`MyLog` of `2nd/log/log.h` and `2nd/log/log.cpp`: any number of threads call
`Log`, which pushes a line on `log_queue_`, and one thread runs `LoopPrint`,
which prints the front of the queue and pops it once `PrintLog` has returned 0.
Each call on the queue is one step.  What the operating system answers is left
open: the machine runs over any `Posix`, and other processes may change the world
between any two steps. -/

universe u v w

namespace MySvrKit

/-! ## `MyLog::Log` -/

namespace LogLevel

def kDebugLogLevel : Nat := 1

def kRunLogLevel : Nat := 2

def kErrorLogLevel : Nat := 3

end LogLevel

/-- The `switch` of `Log`. -/
def szLogLevel (logLevel : Nat) : Str :=
  if logLevel = LogLevel.kDebugLogLevel then ['d', 'e', 'b', 'u', 'g']
  else if logLevel = LogLevel.kRunLogLevel then ['r', 'u', 'n']
  else if logLevel = LogLevel.kErrorLogLevel then ['e', 'r', 'r', 'o', 'r']
  else ['u', 'n', 'k', 'n', 'o', 'w', 'n']

/-- One call of `Log`: its level, what `GetCurrentTime` and `GetGraphId` return
during it, and the caller's format with its arguments filled in. -/
structure LogCall where
  logLevel : Nat
  currentTime : Str
  graphId : Str
  message : Str

/-- `sizeof(buffer)` in `Log`. -/
def kLogBufferSize : Nat := 1024

/-- The string `Log` pushes: `snprintf` cuts at the buffer, and the string made of
the buffer ends at the first NUL. -/
def LogCall.buffer (call : LogCall) : Str :=
  cStr ((cStr call.currentTime ++ ['|'] ++ cStr call.graphId ++ ['|'] ++
    szLogLevel call.logLevel ++ ['|'] ++ call.message).take (kLogBufferSize - 1))

theorem LogCall.cStr_buffer (call : LogCall) : cStr call.buffer = call.buffer := cStr_cStr _

/-! ## The operating system with a record of what is printed -/

/-- `os`, with every string `fprintf` prints also appended to a list. -/
def Posix.traced {World : Type u} {Handle : Type v} (os : Posix World Handle) :
    Posix (World × List Str) Handle where
  stat p w := ((os.stat p w.1).1, (os.stat p w.1).2, w.2)
  rename old new w := ((os.rename old new w.1).1, (os.rename old new w.1).2, w.2)
  fopen p w := ((os.fopen p w.1).1, (os.fopen p w.1).2, w.2)
  fclose file w := (os.fclose file w.1, w.2)
  fprintf file text w := (os.fprintf file text w.1, w.2 ++ [text])
  today w := ((os.today w.1).1, (os.today w.1).2, w.2)

theorem Posix.traced_keeps {World : Type u} {Handle : Type v} (os : Posix World Handle) :
    os.traced.Keeps fun w w' => w'.2 = w.2 where
  refl _ := rfl
  trans h₁ h₂ := h₂.trans h₁
  stat _ _ := rfl
  rename _ _ _ _ := rfl
  fopen _ _ := rfl
  fclose _ _ := rfl
  today _ := rfl

theorem rotateToArchive_traced {World : Type u} {Handle : Type v} (os : Posix World Handle)
    (path : Str) (remaining i : Nat) (w : World × List Str) :
    rotateToArchive os.traced path remaining i w =
      ((rotateToArchive os path remaining i w.1).1,
        (rotateToArchive os path remaining i w.1).2, w.2) := by
  induction remaining generalizing i w with
  | zero => rfl
  | succ remaining ih =>
    have hstat : os.traced.stat (archivePath path i) w =
        ((os.stat (archivePath path i) w.1).1, (os.stat (archivePath path i) w.1).2, w.2) := rfl
    simp only [rotateToArchive, hstat]
    rcases os.stat (archivePath path i) w.1 with ⟨_ | size, w'⟩
    · rfl
    · exact ih (i + 1) (w', w.2)

/-- A size rotation prints nothing. -/
theorem LogFileMgr.sizeRotate_traced {World : Type u} {Handle : Type v} (os : Posix World Handle)
    (mgr : LogFileMgr Handle) (w : World × List Str) :
    mgr.sizeRotate os.traced w =
      ((mgr.sizeRotate os w.1).1, (mgr.sizeRotate os w.1).2, w.2) := by
  have hday : mgr.dayPath os.traced w = mgr.dayPath os w.1 := rfl
  have hstat : os.traced.stat (mgr.dayPath os w.1) (os.traced.today w).2 =
      ((os.stat (mgr.dayPath os w.1) (os.today w.1).2).1,
        (os.stat (mgr.dayPath os w.1) (os.today w.1).2).2, w.2) := rfl
  simp only [sizeRotate, rotateLogFilePathWithSize, hday, hstat]
  rcases os.stat (mgr.dayPath os w.1) (os.today w.1).2 with ⟨_ | size, w'⟩
  · rfl
  · dsimp only
    by_cases hsmall : size < kLogFileMaxSizeByte
    · rw [if_pos hsmall, if_pos hsmall]
    · rw [if_neg hsmall, if_neg hsmall]
      exact rotateToArchive_traced os _ _ _ (w', w.2)

namespace LogFileMgr
variable {mgr : LogFileMgr Nat} {w : LogWorld × List Str} {p logString : Str} {k file : Nat}

/-- A call on a day whose file is full, where `rename` fails. -/
theorem printLog_full_fails (hpath : mgr.dayPath posix w.1 = p) (hsize : w.1.files.size? p = some k)
    (hbig : kLogFileMaxSizeByte ≤ k) (hfree : w.1.files.names (archivePath p 0) = none)
    (hfails : w.1.renameFails = true) :
    mgr.printLog posix.traced logString w = some (-1, { mgr with currentLogFilePath := p }, w) := by
  have hday : mgr.dayPath posix.traced w = p := hpath
  have hrotate : mgr.sizeRotate posix.traced w = (-1, w) := by
    rw [sizeRotate_traced, sizeRotate_full hpath hsize hbig hfree, if_pos hfails]
  have hne : (mgr.sizeRotate posix.traced w).1 ≠ 0 := by
    rw [hrotate]
    exact (by decide : (-1 : Int) ≠ 0)
  rw [printLog_of_fails posix.traced logString hne, hrotate, hday]

/-- A call there where `rename` works and the path is stored already: nothing is opened. -/
theorem printLog_full_prints (hpath : mgr.dayPath posix w.1 = p)
    (hsize : w.1.files.size? p = some k) (hbig : kLogFileMaxSizeByte ≤ k)
    (hfree : w.1.files.names (archivePath p 0) = none) (hworks : w.1.renameFails = false)
    (hcurrent : mgr.currentLogFilePath = p) (hptr : mgr.ptrLogFile = some file) :
    mgr.printLog posix.traced logString w =
      some (0, mgr, { w.1 with
        files := (w.1.files.rename p (archivePath p 0)).append file (cStr logString ++ ['\n']) },
        w.2 ++ [cStr logString ++ ['\n']]) := by
  have hday : mgr.dayPath posix.traced w = p := hpath
  have hrotate : mgr.sizeRotate posix.traced w =
      (0, { w.1 with files := w.1.files.rename p (archivePath p 0) }, w.2) := by
    rw [sizeRotate_traced, sizeRotate_full hpath hsize hbig hfree, if_neg (by rw [hworks]; decide)]
  have hfile : ∀ w, mgr.handleFor posix.traced p w = (some file, w) := by
    intro w
    rw [handleFor, if_pos hcurrent, hptr]
  have hmgr : (⟨mgr.logFilePath, p, some file⟩ : LogFileMgr Nat) = mgr := by
    rw [← hcurrent, ← hptr]
  rw [printLog_eq, hrotate, if_neg (not_not.mpr rfl), hday, hfile]
  exact congrArg (fun mgr => some (0, mgr, _)) hmgr

end LogFileMgr

/-! ## The threads -/

/-- Where the `LoopPrint` thread is: before `empty`, before `front`, inside
`PrintLog`, before `pop`; `undefined` where the program has no behaviour (`front`
or `pop` on an empty queue, `fprintf` on a null pointer). -/
inductive LoopPc
  | empty
  | front
  | printLog
  | pop
  | undefined

/-- A step: a thread enters `Log` and formats its line, a thread pushes the line,
the `LoopPrint` thread goes on, another process acts. -/
inductive LogAction (Thread : Type w) (World : Type u)
  | enter (thread : Thread) (call : LogCall)
  | push (thread : Thread)
  | loopPrint
  | environment (world : World)

/-- `MyLog` with its threads, and a record of the calls of `Log` and of the
pushes, each with its thread. -/
structure MyLog (Thread : Type w) (World : Type u) (Handle : Type v) where
  logLevel : Nat
  logFileMgr : LogFileMgr Handle
  logQueue : List Str
  loopPc : LoopPc
  /-- The line of each thread that is about to push. -/
  buffers : Thread → Option Str
  world : World × List Str
  entered : List (Thread × LogCall)
  pushed : List (Thread × Str)

namespace MyLog
variable {Thread : Type w} {World : Type u} {Handle : Type v} [DecidableEq Thread]
  (os : Posix World Handle)

/-- `MyLog::Init` on a fresh object. -/
def init (logLevel : Nat) (logFilePath : Str) (world : World) : MyLog Thread World Handle :=
  let (logFileMgr, world) := LogFileMgr.init os.traced logFilePath (world, [])
  { logLevel, logFileMgr, logQueue := [], loopPc := .empty, buffers := fun _ => none, world
    entered := [], pushed := [] }

/-- One step of `LoopPrint`. -/
def loopPrint (s : MyLog Thread World Handle) : Option (MyLog Thread World Handle) :=
  match s.loopPc with
  | .empty =>
      if s.logQueue.isEmpty then some s else some { s with loopPc := .front }
  | .front =>
      match s.logQueue with
      | [] => some { s with loopPc := .undefined }
      | _ :: _ => some { s with loopPc := .printLog }
  | .printLog =>
      -- the argument is a reference to the front of the queue
      match s.logQueue with
      | [] => some { s with loopPc := .undefined }
      | logString :: _ =>
          match s.logFileMgr.printLog os.traced logString s.world with
          | none => some { s with loopPc := .undefined }
          | some (ret, logFileMgr, world) =>
              some { s with logFileMgr, world, loopPc := if ret ≠ 0 then .empty else .pop }
  | .pop =>
      match s.logQueue with
      | [] => some { s with loopPc := .undefined }
      | _ :: rest => some { s with logQueue := rest, loopPc := .empty }
  | .undefined => none

/-- One step of the program. -/
def next (s : MyLog Thread World Handle) :
    LogAction Thread World → Option (MyLog Thread World Handle)
  | .enter thread call =>
      if (s.buffers thread).isSome then
        none
      else if call.logLevel < s.logLevel then
        some { s with entered := s.entered ++ [(thread, call)] }
      else
        some { s with
          entered := s.entered ++ [(thread, call)]
          buffers := Function.update s.buffers thread (some call.buffer) }
  | .push thread =>
      (s.buffers thread).map fun line =>
        { s with
          logQueue := s.logQueue ++ [line]
          buffers := Function.update s.buffers thread none
          pushed := s.pushed ++ [(thread, line)] }
  | .loopPrint => s.loopPrint os
  | .environment world => some { s with world := (world, s.world.2) }

/-- The runs of the program from `MyLog::Init` on. -/
def runs (logLevel : Nat) (logFilePath : Str) (world : World) :
    TransitionSystem (MyLog Thread World Handle) (LogAction Thread World) where
  init s := s = init os logLevel logFilePath world
  step s a t := s.next os a = some t

/-- The strings printed so far, over all files, in order. -/
def written (s : MyLog Thread World Handle) : List Str := s.world.2

/-- The lines pushed so far. -/
def pushedLines (s : MyLog Thread World Handle) : List Str := s.pushed.map Prod.snd

/-- What `fprintf` prints of a line. -/
def printed (line : Str) : Str := line ++ ['\n']

/-! ## What every thread has pushed -/

/-- The lines thread `t` has to push: those of its calls of `Log` whose level is at
least `log_level_`. -/
def linesOf (s : MyLog Thread World Handle) (t : Thread) : List Str :=
  (s.entered.filter fun e => e.1 = t ∧ s.logLevel ≤ e.2.logLevel).map fun e => e.2.buffer

/-- The lines thread `t` has pushed. -/
def pushesOf (s : MyLog Thread World Handle) (t : Thread) : List Str :=
  (s.pushed.filter fun e => e.1 = t).map Prod.snd

/-- Every thread has pushed its lines, in order, but for the one it is about to
push. -/
def Accounted (s : MyLog Thread World Handle) : Prop :=
  ∀ t, s.linesOf t = s.pushesOf t ++ (s.buffers t).toList

omit [DecidableEq Thread] in
theorem loopPrint_threads {s s' : MyLog Thread World Handle} (h : s.loopPrint os = some s') :
    s'.logLevel = s.logLevel ∧ s'.buffers = s.buffers ∧ s'.entered = s.entered ∧
      s'.pushed = s.pushed := by
  unfold loopPrint at h
  repeat' split at h
  all_goals first
    | exact Option.some.inj h ▸ ⟨rfl, rfl, rfl, rfl⟩
    | cases h

theorem Accounted.step {s s' : MyLog Thread World Handle} {a : LogAction Thread World}
    (hs : s.Accounted) (h : s.next os a = some s') : s'.Accounted := by
  intro t
  have ht := hs t
  cases a with
  | enter thread call =>
    simp only [next] at h
    split at h
    · cases h
    · rename_i hidle
      have hnone : s.buffers thread = none := by simpa using hidle
      split at h
      · rename_i hlow
        obtain rfl := Option.some.inj h
        simpa [linesOf, pushesOf, Nat.not_le.mpr hlow] using ht
      · rename_i hlevel
        obtain rfl := Option.some.inj h
        by_cases he : t = thread
        · subst he
          simpa [linesOf, pushesOf, Nat.le_of_not_lt hlevel, hnone] using ht
        · simpa [linesOf, pushesOf, Function.update_of_ne he, Ne.symm he] using ht
  | push thread =>
    obtain ⟨line, hline, rfl⟩ := Option.map_eq_some_iff.mp h
    by_cases he : t = thread
    · subst he
      simpa [linesOf, pushesOf, hline] using ht
    · simpa [linesOf, pushesOf, Function.update_of_ne he, Ne.symm he] using ht
  | loopPrint =>
    obtain ⟨h₁, h₂, h₃, h₄⟩ := loopPrint_threads os h
    simpa only [linesOf, pushesOf, h₁, h₂, h₃, h₄] using ht
  | environment world =>
    obtain rfl := Option.some.inj h
    exact ht

/-! ## What the loop has printed -/

/-- The front of the queue while it is printed and not yet popped. -/
def printedFront (s : MyLog Thread World Handle) : List Str :=
  match s.loopPc with
  | .pop => s.logQueue.take 1
  | _ => []

/-- **The delivery invariant**: the lines pushed are the lines popped and then the
queue; what is printed is the lines popped, and the front between a successful
`PrintLog` and the `pop`. -/
structure Delivering (s : MyLog Thread World Handle) : Prop where
  printed_eq : ∃ popped, s.pushedLines = popped ++ s.logQueue ∧
    s.written = (popped ++ s.printedFront).map printed
  nonempty : s.loopPc ≠ .empty → s.logQueue ≠ []
  running : s.loopPc ≠ .undefined
  -- the lines go through `c_str()` once more when they are printed
  queue_cStr : ∀ line ∈ s.logQueue, cStr line = line
  buffers_cStr : ∀ t line, s.buffers t = some line → cStr line = line

omit [DecidableEq Thread] in
theorem delivering_init (logLevel : Nat) (logFilePath : Str) (world : World) :
    (init os logLevel logFilePath world : MyLog Thread World Handle).Delivering where
  printed_eq := ⟨[], rfl, rfl⟩
  nonempty h := absurd rfl h
  running h := nomatch h
  queue_cStr _ h := nomatch h
  buffers_cStr _ _ h := nomatch h

/-- A push behind a queue whose front is being handled leaves the front. -/
theorem Delivering.push {s : MyLog Thread World Handle} {thread : Thread} {line : Str}
    (hs : s.Delivering) (hline : s.buffers thread = some line) :
    Delivering { s with
      logQueue := s.logQueue ++ [line]
      buffers := Function.update s.buffers thread none
      pushed := s.pushed ++ [(thread, line)] } where
  printed_eq := by
    -- the same lines are popped, and the front is not the new line
    obtain ⟨popped, hpushed, hwritten⟩ := hs.printed_eq
    refine ⟨popped, ?_, ?_⟩
    · simp only [pushedLines, List.map_append, List.map_cons, List.map_nil] at hpushed ⊢
      rw [hpushed, List.append_assoc]
    · refine hwritten.trans (congrArg (fun l => (popped ++ l).map printed) ?_)
      cases hpc : s.loopPc with
      | pop =>
        have hne : s.logQueue ≠ [] := hs.nonempty (by rw [hpc]; nofun)
        obtain ⟨front, rest, hq⟩ := List.exists_cons_of_ne_nil hne
        simp [printedFront, hpc, hq]
      | _ => simp [printedFront, hpc]
  nonempty _ := by simp
  running := hs.running
  queue_cStr := by
    intro l hl
    rcases List.mem_append.mp hl with hl | hl
    · exact hs.queue_cStr l hl
    · rw [List.mem_singleton.mp hl]
      exact hs.buffers_cStr thread line hline
  buffers_cStr := by
    intro t l hl
    by_cases he : t = thread
    · subst he
      simp at hl
    · exact hs.buffers_cStr t l (by simpa [Function.update_of_ne he] using hl)

omit [DecidableEq Thread] in
/-- The invariant through `PrintLog`: a nonzero return has printed nothing and
leaves the line at the front, a zero return has printed it. -/
theorem Delivering.printLog {s : MyLog Thread World Handle} {logString : Str} {rest : List Str}
    {ret : Int} {logFileMgr : LogFileMgr Handle} {world : World × List Str} (hs : s.Delivering)
    (hpc : s.loopPc = .printLog) (hq : s.logQueue = logString :: rest)
    (h : s.logFileMgr.printLog os.traced logString s.world = some (ret, logFileMgr, world)) :
    Delivering { s with logFileMgr, world, loopPc := if ret ≠ 0 then .empty else .pop } := by
  obtain ⟨popped, hpushed, hwritten⟩ := hs.printed_eq
  have hfront : s.printedFront = [] := by simp [printedFront, hpc]
  rw [hfront, List.append_nil] at hwritten
  have hne : s.logQueue ≠ [] := by simp [hq]
  rcases LogFileMgr.printLog_cases os.traced_keeps h with ⟨hret, hkept⟩ |
    ⟨hret, file, w₁, hkept, -, hw⟩
  · refine ⟨⟨popped, hpushed, ?_⟩, fun _ => hne, ?_, hs.queue_cStr, hs.buffers_cStr⟩
    · simpa [printedFront, hret, written, hkept] using hwritten
    · simp [hret]
  · refine ⟨⟨popped, hpushed, ?_⟩, fun _ => hne, ?_, hs.queue_cStr, hs.buffers_cStr⟩
    · have hline : cStr logString = logString := hs.queue_cStr logString (by simp [hq])
      have hworld : world.2 = s.written ++ [printed logString] := by
        rw [hw]
        simp only [Posix.traced, hkept, hline]
        rfl
      simp only [written] at hwritten hworld ⊢
      simp [printedFront, hret, hworld, hwritten, hq]
    · simp [hret]

variable {os}

omit [DecidableEq Thread] in
theorem Delivering.loopPrint (hopen : ∀ p w, (os.fopen p w).1.isSome = true)
    {s s' : MyLog Thread World Handle} (hs : s.Delivering) (h : s.loopPrint os = some s') :
    s'.Delivering := by
  obtain ⟨popped, hpushed, hwritten⟩ := hs.printed_eq
  unfold MyLog.loopPrint at h
  split at h
  case h_1 hpc =>
    have hfront : s.printedFront = [] := by simp [printedFront, hpc]
    split at h
    · obtain rfl := Option.some.inj h
      exact hs
    · rename_i hne
      obtain rfl := Option.some.inj h
      refine ⟨⟨popped, hpushed, ?_⟩, fun _ => by simpa using hne, nofun, hs.queue_cStr,
        hs.buffers_cStr⟩
      simpa [printedFront, hpc, written] using hwritten
  case h_2 hpc =>
    split at h
    · rename_i hnil
      exact absurd hnil (hs.nonempty (by rw [hpc]; nofun))
    · obtain rfl := Option.some.inj h
      refine ⟨⟨popped, hpushed, ?_⟩, fun _ => hs.nonempty (by rw [hpc]; nofun), nofun,
        hs.queue_cStr, hs.buffers_cStr⟩
      simpa [printedFront, hpc, written] using hwritten
  case h_3 hpc =>
    split at h
    · rename_i hnil
      exact absurd hnil (hs.nonempty (by rw [hpc]; nofun))
    · rename_i logString rest hq
      split at h
      · rename_i hnone
        -- `fopen` never fails, so nothing is printed through a null pointer
        have htraced : ∀ p w, (os.traced.fopen p w).1.isSome = true := fun p w => hopen p w.1
        have hsome := LogFileMgr.printLog_isSome htraced s.logFileMgr logString s.world
        rw [hnone] at hsome
        cases hsome
      · rename_i hprint
        obtain rfl := Option.some.inj h
        exact hs.printLog os hpc hq hprint
  case h_4 hpc =>
    split at h
    · rename_i hnil
      exact absurd hnil (hs.nonempty (by rw [hpc]; nofun))
    · rename_i line rest hq
      obtain rfl := Option.some.inj h
      refine ⟨⟨popped ++ [line], ?_, ?_⟩, fun hne => absurd rfl hne, nofun, ?_, hs.buffers_cStr⟩
      · simpa [hq, pushedLines] using hpushed
      · simpa [printedFront, hpc, hq, written] using hwritten
      · exact fun l hl => hs.queue_cStr l (by simp [hq, show l ∈ rest from hl])
  case h_5 hpc => cases h

theorem Delivering.step (hopen : ∀ p w, (os.fopen p w).1.isSome = true)
    {s s' : MyLog Thread World Handle} {a : LogAction Thread World} (hs : s.Delivering)
    (h : s.next os a = some s') : s'.Delivering := by
  cases a with
  | enter thread call =>
    simp only [next] at h
    split at h
    · cases h
    · split at h
      · obtain rfl := Option.some.inj h
        exact ⟨hs.printed_eq, hs.nonempty, hs.running, hs.queue_cStr, hs.buffers_cStr⟩
      · obtain rfl := Option.some.inj h
        refine ⟨hs.printed_eq, hs.nonempty, hs.running, hs.queue_cStr, ?_⟩
        intro t l hl
        by_cases he : t = thread
        · subst he
          obtain rfl : call.buffer = l := by simpa using hl
          exact call.cStr_buffer
        · exact hs.buffers_cStr t l (by simpa [Function.update_of_ne he] using hl)
  | push thread =>
    obtain ⟨line, hline, rfl⟩ := Option.map_eq_some_iff.mp h
    exact hs.push hline
  | loopPrint => exact hs.loopPrint hopen h
  | environment world =>
    obtain rfl := Option.some.inj h
    exact ⟨hs.printed_eq, hs.nonempty, hs.running, hs.queue_cStr, hs.buffers_cStr⟩

omit [DecidableEq Thread] in
/-- The popped lines and the front are a beginning of the lines pushed. -/
theorem Delivering.written_prefix {s : MyLog Thread World Handle} (hs : s.Delivering) :
    s.written <+: s.pushedLines.map printed := by
  obtain ⟨popped, hpushed, hwritten⟩ := hs.printed_eq
  have hfront : s.printedFront <+: s.logQueue := by
    unfold printedFront
    split
    · exact List.take_prefix 1 _
    · exact List.nil_prefix
  rw [hwritten, hpushed]
  exact ((List.prefix_append_right_inj popped).mpr hfront).map printed

/-! ### A line whose call fails once -/

omit [DecidableEq Thread] in
/-- The step of the loop that prints. -/
theorem loopPrint_of_printLog {s : MyLog Thread World Handle} {logString : Str} {rest : List Str}
    {ret : Int} {logFileMgr : LogFileMgr Handle} {world : World × List Str}
    (hpc : s.loopPc = .printLog) (hq : s.logQueue = logString :: rest)
    (h : s.logFileMgr.printLog os.traced logString s.world = some (ret, logFileMgr, world)) :
    s.loopPrint os =
      some { s with logFileMgr, world, loopPc := if ret ≠ 0 then .empty else .pop } := by
  simp only [loopPrint, hpc, hq, h]

/-- The day before one whose log file is full. -/
def eve : LogWorld := { LogRun.fullDay with day := ⟨2024, 1, 1⟩ }

/-- A line is printed on that day, and a second one pushed. -/
def secondPushed : MyLog Unit LogWorld Nat :=
  (TransitionSystem.exec (next posix) (init posix 1 ['l'] eve)
    [.enter () ⟨2, ['t'], ['g'], ['m']⟩, .push (), .loopPrint, .loopPrint, .loopPrint, .loopPrint,
      .enter () ⟨2, ['t'], ['g'], ['n']⟩, .push ()]).get rfl

/-- That state on the next day. -/
def secondMeets (renameFails : Bool) : MyLog Unit LogWorld Nat :=
  { secondPushed with
    world :=
      ({ secondPushed.world.1 with day := ⟨2024, 1, 2⟩, renameFails }, secondPushed.world.2) }

/-- What the call that fails leaves. -/
def secondFailed : MyLog Unit LogWorld Nat :=
  { secondMeets true with
    logFileMgr := { secondPushed.logFileMgr with currentLogFilePath := LogRun.secondDay }
    loopPc := .empty }

/-- And the next one, where `rename` works. -/
def secondPrinted : MyLog Unit LogWorld Nat :=
  { secondFailed with
    world := ({ (secondMeets false).world.1 with
      files := (secondPushed.world.1.files.rename LogRun.secondDay
        (archivePath LogRun.secondDay 0)).append 2
          ['t', '|', 'g', '|', 'r', 'u', 'n', '|', 'n', '\n'] },
      secondPushed.world.2 ++ [['t', '|', 'g', '|', 'r', 'u', 'n', '|', 'n', '\n']])
    loopPc := .pop }

/-- The second line is tried, and tried again. -/
def secondRun : List (LogAction Unit LogWorld × MyLog Unit LogWorld Nat) :=
  [(.environment (secondMeets true).world.1, secondMeets true),
    (.loopPrint, { secondMeets true with loopPc := .front }),
    (.loopPrint, { secondMeets true with loopPc := .printLog }),
    (.loopPrint, secondFailed),
    (.environment (secondMeets false).world.1,
      { secondFailed with world := (secondMeets false).world }),
    (.loopPrint, { secondFailed with world := (secondMeets false).world, loopPc := .front }),
    (.loopPrint, { secondFailed with world := (secondMeets false).world, loopPc := .printLog }),
    (.loopPrint, secondPrinted),
    (.loopPrint, { secondPrinted with logQueue := [], loopPc := .empty })]

theorem size?_secondMeets (renameFails : Bool) :
    (secondMeets renameFails).world.1.files.size? LogRun.secondDay = some kLogFileMaxSizeByte := by
  have hname : (secondMeets renameFails).world.1.files.names LogRun.secondDay = some 0 := rfl
  have hcontent : (secondMeets renameFails).world.1.files.content 0 =
      List.replicate kLogFileMaxSizeByte 'x' := rfl
  rw [FileStore.size?_of_names hname, hcontent, List.length_replicate]

theorem printLog_secondMeets :
    secondPushed.logFileMgr.printLog posix.traced ['t', '|', 'g', '|', 'r', 'u', 'n', '|', 'n']
      (secondMeets true).world = some (-1, secondFailed.logFileMgr, secondFailed.world) :=
  LogFileMgr.printLog_full_fails rfl (size?_secondMeets true) (Nat.le_refl _) rfl rfl

theorem printLog_secondFailed :
    secondFailed.logFileMgr.printLog posix.traced ['t', '|', 'g', '|', 'r', 'u', 'n', '|', 'n']
      (secondMeets false).world = some (0, secondFailed.logFileMgr, secondPrinted.world) :=
  LogFileMgr.printLog_full_prints rfl (size?_secondMeets false) (Nat.le_refl _) rfl rfl rfl rfl

theorem loopPrint_secondMeets :
    ({ secondMeets true with loopPc := .printLog } : MyLog Unit LogWorld Nat).loopPrint posix =
      some secondFailed := by
  have hstep : ({ secondMeets true with loopPc := .printLog } :
      MyLog Unit LogWorld Nat).loopPrint posix = _ :=
    loopPrint_of_printLog rfl rfl printLog_secondMeets
  rw [if_pos (by decide)] at hstep
  exact hstep

theorem loopPrint_secondFailed :
    ({ secondFailed with world := (secondMeets false).world, loopPc := .printLog } :
      MyLog Unit LogWorld Nat).loopPrint posix = some secondPrinted := by
  have hstep : ({ secondFailed with world := (secondMeets false).world, loopPc := .printLog } :
      MyLog Unit LogWorld Nat).loopPrint posix = _ :=
    loopPrint_of_printLog rfl rfl printLog_secondFailed
  rw [if_neg (by decide)] at hstep
  exact hstep

theorem reachable_secondPushed : (runs posix 1 ['l'] eve).Reachable secondPushed := by
  have hexec : TransitionSystem.exec (next posix) (init posix 1 ['l'] eve)
      [.enter () ⟨2, ['t'], ['g'], ['m']⟩, .push (), .loopPrint, .loopPrint, .loopPrint,
        .loopPrint, .enter () ⟨2, ['t'], ['g'], ['n']⟩, .push ()] = some secondPushed :=
    (Option.some_get _).symm
  exact TransitionSystem.Reachable.exec (fun _ _ _ h => h) (TransitionSystem.Reachable.initial rfl)
    hexec

theorem isRun_secondRun : (runs posix 1 ['l'] eve).IsRun secondPushed secondRun :=
  ⟨rfl, rfl, rfl, loopPrint_secondMeets, rfl, rfl, rfl, loopPrint_secondFailed, rfl, trivial⟩

/-! ### Every run -/

variable {logLevel : Nat} {logFilePath : Str} {world : World} {s : MyLog Thread World Handle}

theorem delivering_of_reachable (hopen : ∀ p w, (os.fopen p w).1.isSome = true)
    (h : (runs os logLevel logFilePath world).Reachable s) : s.Delivering :=
  h.invariant (fun _ h₀ => h₀ ▸ delivering_init os ..) fun _ _ _ hs hstep => hs.step hopen hstep

theorem accounted_of_reachable (h : (runs os logLevel logFilePath world).Reachable s) :
    s.Accounted :=
  h.invariant (fun _ h₀ => h₀ ▸ fun _ => rfl) fun _ _ _ hs hstep => hs.step os hstep

/-- **Asynchronous log delivery.**  Whatever the operating system answers, as long
as `fopen` finds a file: in every state of every run what is printed is a
beginning of the lines pushed, in the order of the pushes; what is popped and then
the queue is what was pushed, and what is popped is printed; what is pushed are, for
each thread, the lines of its calls at `log_level_` or above, in order, but for
one it is about to push; and the loop never comes to a step without behaviour. -/
theorem delivers (hopen : ∀ p w, (os.fopen p w).1.isSome = true)
    (h : (runs os logLevel logFilePath world).Reachable s) :
    s.written <+: s.pushedLines.map printed ∧
      (∃ popped, s.pushedLines = popped ++ s.logQueue ∧
        s.written = (popped ++ s.printedFront).map printed) ∧
      (∀ t, s.linesOf t = s.pushesOf t ++ (s.buffers t).toList) ∧
      s.loopPc ≠ .undefined := by
  have hd := delivering_of_reachable hopen h
  exact ⟨hd.written_prefix, hd.printed_eq, accounted_of_reachable h, hd.running⟩

/-- The theorem at a run of two lines: the first call for the second line fails, the next one
prints it. -/
theorem delivers_secondRun :
    (runs posix 1 ['l'] eve).Reachable secondPushed ∧
      (runs posix 1 ['l'] eve).IsRun secondPushed secondRun ∧
      secondPushed.logFileMgr.printLog posix.traced ['t', '|', 'g', '|', 'r', 'u', 'n', '|', 'n']
        (secondMeets true).world = some (-1, secondFailed.logFileMgr, secondFailed.world) ∧
      ∃ popped, (TransitionSystem.last secondPushed secondRun).written = popped.map printed ∧
        (TransitionSystem.last secondPushed secondRun).pushedLines = popped ∧
        popped = [['t', '|', 'g', '|', 'r', 'u', 'n', '|', 'm'],
          ['t', '|', 'g', '|', 'r', 'u', 'n', '|', 'n']] := by
  have hr := reachable_secondPushed.reaches isRun_secondRun.reaches
  obtain ⟨-, ⟨popped, hpushed, hwritten⟩, -⟩ := delivers posix_fopen_isSome hr
  have hqueue : (TransitionSystem.last secondPushed secondRun).logQueue = [] := rfl
  have hfront : (TransitionSystem.last secondPushed secondRun).printedFront = [] := rfl
  rw [hqueue, List.append_nil] at hpushed
  rw [hfront, List.append_nil] at hwritten
  exact ⟨reachable_secondPushed, isRun_secondRun, printLog_secondMeets, popped, hwritten, hpushed,
    hpushed.symm.trans rfl⟩

end MyLog
end MySvrKit
