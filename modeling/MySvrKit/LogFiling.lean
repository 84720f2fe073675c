import MySvrKit.LogDelivery
import MySvrKit.LogStdio

/-! # Where the lines are

The queue of `MyLog`, the loop that empties it and the rotation of the files together, over
buffered streams.  While no other process touches the files, `fopen` and the writes succeed
and each call on the queue is one step: every file that has a name holds what it held before
`Init`, or nothing if it is new, and then the lines printed on it, in the order of the pushes,
up to what the stream of the open file has not written out; and the file a line has been
printed on has a name ever after.  The day may change and `rename` may fail at any time. -/

universe u v w

namespace MySvrKit

/-- The texts printed on a file. -/
def textsOf (prints : List (Nat × Str)) (f : Nat) : Str :=
  (prints.filterMap fun p => if p.1 = f then some p.2 else none).flatten

theorem textsOf_append (prints more : List (Nat × Str)) (f : Nat) :
    textsOf (prints ++ more) f = textsOf prints f ++ textsOf more f := by
  simp only [textsOf, List.filterMap_append, List.flatten_append]

theorem textsOf_self (f : Nat) (text : Str) : textsOf [(f, text)] f = text := by
  simp [textsOf]

theorem textsOf_other {prints : List (Nat × Str)} {f : Nat} (h : ∀ p ∈ prints, p.1 ≠ f) :
    textsOf prints f = [] := by
  have hnone : (prints.filterMap fun p => if p.1 = f then some p.2 else none) = [] :=
    List.filterMap_eq_nil_iff.mpr fun p hp => if_neg (h p hp)
  rw [textsOf, hnone, List.flatten_nil]

/-- What the files of `fs` have got since `fs₀` are the texts printed. -/
structure Filed (fs₀ fs : FileStore Str Char) (prints : List (Nat × Str)) : Prop where
  preserves : fs₀.Preserves fs
  next_le : fs₀.next ≤ fs.next
  /-- A file with a name holds what it held, and what has been printed on it. -/
  content : ∀ n f, fs.names n = some f →
    fs.content f = (if f < fs₀.next then fs₀.content f else []) ++ textsOf prints f
  /-- What has been printed on has a name. -/
  named : ∀ p ∈ prints, ∃ n, fs.names n = some p.1

/-! ## What the calls do to the files -/

section
variable {fs₀ fs : FileStore Str Char} {prints : List (Nat × Str)} {f : Nat}

theorem Filed.refl (fs : FileStore Str Char) : Filed fs fs [] where
  preserves := FileStore.Preserves.refl fs
  next_le := Nat.le_refl _
  content n f hn := by
    rw [if_pos (fs.fresh n f hn)]
    exact (List.append_nil _).symm
  named _ hp := absurd hp List.not_mem_nil

/-- A rename to a free name takes no file's name away and writes nothing. -/
theorem Filed.rename {old new : Str} (h : Filed fs₀ fs prints) (hfree : fs.names new = none) :
    Filed fs₀ (fs.rename old new) prints where
  preserves := h.preserves.trans (FileStore.preserves_rename hfree)
  next_le := h.next_le
  content n f hn := by
    by_cases hnew : n = new
    · rw [hnew, FileStore.names_rename_new] at hn
      exact h.content old f hn
    · by_cases hold : n = old
      · rw [hold, FileStore.names_rename_old (hold ▸ hnew)] at hn
        cases hn
      · rw [FileStore.names_rename_other hnew hold] at hn
        exact h.content n f hn
  named p hp := by
    obtain ⟨n, hn⟩ := h.named p hp
    exact (FileStore.preserves_rename hfree n p.1 hn).1

/-- A file that is made by opening it is empty, and nothing has been printed on it. -/
theorem Filed.openAppend (h : Filed fs₀ fs prints) (path : Str) :
    Filed fs₀ (fs.openAppend path).2 prints := by
  cases hpath : fs.names path with
  | some g =>
    rw [FileStore.openAppend_of_some hpath]
    exact h
  | none =>
    obtain ⟨-, hnames, hcontent⟩ := FileStore.openAppend_of_none hpath
    have hnext : (fs.openAppend path).2.next = fs.next + 1 := by
      unfold FileStore.openAppend
      rw [hpath]
    refine ⟨h.preserves.trans (FileStore.preserves_openAppend fs path), ?_, fun n f hn => ?_,
      fun p hp => ?_⟩
    · have hle := h.next_le
      omega
    · rw [hnames] at hn
      rw [hcontent]
      by_cases he : n = path
      · rw [he, Function.update_self] at hn
        obtain rfl := Option.some.inj hn
        have hunused : ∀ p ∈ prints, p.1 ≠ fs.next := by
          intro p hp heq
          obtain ⟨m, hm⟩ := h.named p hp
          exact absurd (fs.fresh m p.1 hm) (by omega)
        rw [Function.update_self, if_neg (Nat.not_lt.mpr h.next_le), textsOf_other hunused]
        rfl
      · rw [Function.update_of_ne he] at hn
        rw [Function.update_of_ne (Nat.ne_of_lt (fs.fresh n f hn))]
        exact h.content n f hn
    · obtain ⟨n, hn⟩ := h.named p hp
      exact ⟨n, FileStore.names_openAppend_of_some hn⟩

/-- A text printed on a file that has a name. -/
theorem Filed.append (h : Filed fs₀ fs prints) (hf : ∃ n, fs.names n = some f) (text : Str) :
    Filed fs₀ (fs.append f text) (prints ++ [(f, text)]) where
  preserves := h.preserves.trans (FileStore.preserves_append fs f text)
  next_le := h.next_le
  content n g hn := by
    have hbefore := h.content n g hn
    rw [textsOf_append]
    by_cases he : g = f
    · rw [he] at hbefore ⊢
      rw [FileStore.content_append_self, hbefore, textsOf_self, List.append_assoc]
    · have hother : ∀ p ∈ [(f, text)], p.1 ≠ g := by
        intro p hp
        rw [List.mem_singleton.mp hp]
        exact Ne.symm he
      rw [FileStore.content_append_other he, hbefore, textsOf_other hother, List.append_nil]
  named p hp := by
    rcases List.mem_append.mp hp with hp | hp
    · exact h.named p hp
    · rw [List.mem_singleton.mp hp]
      exact hf

end

/-- A call that prints nothing: files that are as `Filed` says stay so, and no buffer is
filled. -/
structure KeepsFiled (w w' : StdioWorld × List Str) : Prop where
  written : w'.2 = w.2
  preserves : w.1.files.settled.Preserves w'.1.files.settled
  filed : ∀ fs₀ prints, Filed fs₀ w.1.files.settled prints → Filed fs₀ w'.1.files.settled prints
  buffered : ∀ f, w.1.files.buffered f = [] → w'.1.files.buffered f = []

theorem KeepsFiled.refl (w : StdioWorld × List Str) : KeepsFiled w w :=
  ⟨rfl, FileStore.Preserves.refl _, fun _ _ h => h, fun _ h => h⟩

theorem traced_keepsFiled : stdio.traced.Keeps KeepsFiled where
  refl := KeepsFiled.refl
  trans h₁ h₂ := ⟨h₂.written.trans h₁.written, h₁.preserves.trans h₂.preserves,
    fun fs₀ prints h => h₂.filed fs₀ prints (h₁.filed fs₀ prints h),
    fun f h => h₂.buffered f (h₁.buffered f h)⟩
  stat _ w := KeepsFiled.refl w
  rename old new w hfree := by
    have hnone : w.1.files.disk.names new = none := FileStore.size?_eq_none_iff.mp hfree
    show KeepsFiled w ((stdio.rename old new w.1).2, w.2)
    unfold stdio
    dsimp only
    split
    · exact KeepsFiled.refl w
    · have hsettled := BufferedStore.settled_rename w.1.files old new
      refine ⟨rfl, ?_, fun fs₀ prints h => ?_, fun _ h => h⟩
      · exact hsettled ▸ FileStore.preserves_rename hnone
      · exact hsettled ▸ h.rename hnone
  fopen path w := by
    have hsettled : (w.1.files.openAppend path).2.settled =
        (w.1.files.settled.openAppend path).2 := by
      rw [BufferedStore.settled_openAppend]
    refine ⟨rfl, ?_, fun fs₀ prints h => ?_, fun f => BufferedStore.buffered_openAppend_of_empty⟩
    · exact hsettled ▸ FileStore.preserves_openAppend _ path
    · exact hsettled ▸ h.openAppend path
  fclose file w := by
    have hsettled := BufferedStore.settled_flush w.1.files file
    refine ⟨rfl, ?_, fun fs₀ prints h => ?_, fun f => BufferedStore.buffered_flush_of_empty⟩
    · exact hsettled.symm ▸ FileStore.Preserves.refl _
    · exact hsettled.symm ▸ h
  today w := KeepsFiled.refl w

namespace LogFileMgr
variable {mgr mgr' : LogFileMgr Nat} {w w' : StdioWorld × List Str} {fs₀ : FileStore Str Char}
  {prints : List (Nat × Str)}

/-- The open file has a name, and no other file has text in a buffer. -/
structure Opens (mgr : LogFileMgr Nat) (files : BufferedStore Str Char) : Prop where
  named : ∀ file, mgr.ptrLogFile = some file → ∃ n, files.settled.names n = some file
  buffers : mgr.BuffersOpen files

theorem Opens.keep (h : mgr.Opens w.1.files) (hkept : KeepsFiled w w')
    (hptr : mgr'.ptrLogFile = mgr.ptrLogFile) : mgr'.Opens w'.1.files where
  named file hfile := by
    obtain ⟨n, hn⟩ := h.named file (hptr.symm.trans hfile)
    exact (hkept.preserves n file hn).1
  buffers f hf := hkept.buffered f (h.buffers f (hptr ▸ hf))

theorem sizeRotate_keepsFiled (mgr : LogFileMgr Nat) (w : StdioWorld × List Str) :
    KeepsFiled w (mgr.sizeRotate stdio.traced w).2 :=
  traced_keepsFiled.trans (traced_keepsFiled.today w)
    (rotateLogFilePathWithSize_keeps traced_keepsFiled _ _)

theorem closeIfOpen_traced (mgr : LogFileMgr Nat) (w : StdioWorld × List Str) :
    mgr.closeIfOpen stdio.traced w = (mgr.closeIfOpen stdio w.1, w.2) := by
  unfold closeIfOpen
  cases mgr.ptrLogFile with
  | none => rfl
  | some file => rfl

/-- The file a line is printed on has a name when it is, and no other has a buffer in use. -/
theorem handleFor_opens {path : Str} {file : Nat} (hopen : mgr.Opens w.1.files)
    (h : mgr.handleFor stdio.traced path w = (some file, w')) :
    KeepsFiled w w' ∧ Opens ⟨mgr.logFilePath, path, some file⟩ w'.1.files := by
  rcases handleFor_cases stdio.traced (fun p w => stdio_fopen_isSome p w.1) h with
    ⟨-, hptr, rfl⟩ | hfopen
  · exact ⟨KeepsFiled.refl w', hopen.keep (KeepsFiled.refl w') hptr.symm⟩
  · have hclose : KeepsFiled w (mgr.closeIfOpen stdio.traced w) := by
      unfold closeIfOpen
      split
      · exact traced_keepsFiled.fclose _ w
      · exact KeepsFiled.refl w
    obtain ⟨hfile, rfl⟩ := Prod.mk.inj hfopen
    obtain rfl := Option.some.inj hfile
    have hopens := traced_keepsFiled.fopen path (mgr.closeIfOpen stdio.traced w)
    refine ⟨traced_keepsFiled.trans hclose hopens, ?_, fun f _ => ?_⟩
    · rintro _ ⟨⟩
      exact ⟨path, FileStore.names_openAppend_self _ path⟩
    · refine hopens.buffered f ?_
      rw [closeIfOpen_traced]
      exact hopen.buffers.close.2 f

/-- **One call of `PrintLog`**: what it prints is on a file that has a name. -/
theorem printLog_filed {logString : Str} {ret : Int}
    (h : mgr.printLog stdio.traced logString w = some (ret, mgr', w'))
    (hopen : mgr.Opens w.1.files) (hfiled : Filed fs₀ w.1.files.settled prints) :
    mgr'.Opens w'.1.files ∧ ∃ more : List (Nat × Str),
      w'.2 = w.2 ++ more.map Prod.snd ∧ Filed fs₀ w'.1.files.settled (prints ++ more) := by
  have hrotate := sizeRotate_keepsFiled mgr w
  rcases printLog_returns _ h with ⟨-, hsize, rfl⟩ | ⟨-, -, file, w₁, hfile, rfl, rfl⟩
  · rw [hsize] at hrotate
    refine ⟨hopen.keep hrotate rfl, [], ?_, ?_⟩
    · rw [List.map_nil, List.append_nil]
      exact hrotate.written
    · rw [List.append_nil]
      exact hrotate.filed fs₀ prints hfiled
  · obtain ⟨hkept, hopens⟩ := handleFor_opens (hopen.keep hrotate rfl) hfile
    have hnamed := hopens.named file rfl
    have hsettled := BufferedStore.settled_write w₁.1.files file (cStr logString ++ ['\n']) w₁.1.out
    refine ⟨⟨?_, fun f hf => ?_⟩, [(file, cStr logString ++ ['\n'])], ?_, ?_⟩
    · rintro _ ⟨⟩
      exact hnamed
    · have hne : f ≠ file := fun he => hf (he ▸ rfl)
      exact (BufferedStore.buffered_write_other hne).trans (hopens.buffers f hf)
    · show w₁.2 ++ _ = _
      rw [hkept.written, hrotate.written]
      rfl
    · show Filed fs₀ (w₁.1.files.write _ _ _).settled _
      rw [hsettled]
      exact (hkept.filed fs₀ prints (hrotate.filed fs₀ prints hfiled)).append hnamed _

end LogFileMgr

/-! ## Runs -/

namespace MyLog
variable {Thread : Type w} [DecidableEq Thread] {logLevel : Nat} {logFilePath : Str}
  {world : LogWorld} {s t : MyLog Thread StdioWorld Nat} {a : LogAction Thread StdioWorld}

/-- Another process may set the day, whether `rename` fails, and how much the next `fprintf`
writes out; it leaves the files and the buffers. -/
def LeavesFiles (s : MyLog Thread StdioWorld Nat) : LogAction Thread StdioWorld → Prop
  | .environment world => world.files = s.world.1.files
  | .enter _ _ | .push _ | .loopPrint => True

/-- The runs in which no other process touches the files. -/
def fileRuns (Thread : Type w) [DecidableEq Thread] (logLevel : Nat) (logFilePath : Str)
    (world : LogWorld) :
    TransitionSystem (MyLog Thread StdioWorld Nat) (LogAction Thread StdioWorld) :=
  (runs stdio logLevel logFilePath world.stdio).restrict LeavesFiles

/-- **The invariant**: what is written is on the files, or in the buffer of the open one. -/
structure Filing (fs₀ : FileStore Str Char) (s : MyLog Thread StdioWorld Nat) : Prop where
  opened : s.logFileMgr.Opens s.world.1.files
  filed : ∃ prints : List (Nat × Str),
    prints.map Prod.snd = s.written ∧ Filed fs₀ s.world.1.files.settled prints

omit [DecidableEq Thread] in
theorem filing_init (logLevel : Nat) (logFilePath : Str) (world : LogWorld) :
    Filing world.files
      (init stdio logLevel logFilePath world.stdio : MyLog Thread StdioWorld Nat) := by
  have hempty : ∀ f, world.stdio.files.buffered f = [] := fun _ => rfl
  have hopened : (world.stdio.files.openAppend logFilePath).2.settled =
      (world.files.openAppend logFilePath).2 := by
    have hsettled := BufferedStore.settled_openAppend world.stdio.files logFilePath
    rw [BufferedStore.settled_of_empty hempty] at hsettled
    exact (congrArg Prod.snd hsettled).symm
  refine ⟨⟨?_, fun f _ => BufferedStore.buffered_openAppend_of_empty (hempty f)⟩, [], rfl, ?_⟩
  · intro file hfile
    obtain rfl : (world.files.openAppend logFilePath).1 = file := Option.some.inj hfile
    exact ⟨logFilePath, FileStore.names_openAppend_self world.files logFilePath⟩
  · show Filed world.files (world.stdio.files.openAppend logFilePath).2.settled []
    rw [hopened]
    exact (Filed.refl world.files).openAppend logFilePath

omit [DecidableEq Thread] in
theorem Filing.same {fs₀ : FileStore Str Char} (hs : s.Filing fs₀)
    (hmgr : t.logFileMgr = s.logFileMgr) (hfiles : t.world.1.files = s.world.1.files)
    (hwritten : t.written = s.written) : t.Filing fs₀ where
  opened := by
    rw [hmgr, hfiles]
    exact hs.opened
  filed := by
    rw [hwritten, hfiles]
    exact hs.filed

omit [DecidableEq Thread] in
theorem Filing.loopPrint {fs₀ : FileStore Str Char} (hs : s.Filing fs₀)
    (h : s.loopPrint stdio = some t) : t.Filing fs₀ := by
  unfold MyLog.loopPrint at h
  split at h
  case h_1 => split at h <;> exact Option.some.inj h ▸ hs.same rfl rfl rfl
  case h_2 => split at h <;> exact Option.some.inj h ▸ hs.same rfl rfl rfl
  case h_3 =>
    split at h
    · exact Option.some.inj h ▸ hs.same rfl rfl rfl
    · split at h
      · exact Option.some.inj h ▸ hs.same rfl rfl rfl
      · rename_i hprint
        obtain rfl := Option.some.inj h
        obtain ⟨prints, hprints, hfiled⟩ := hs.filed
        obtain ⟨hopen, more, hwritten, hmore⟩ := LogFileMgr.printLog_filed hprint hs.opened hfiled
        refine ⟨hopen, prints ++ more, ?_, hmore⟩
        rw [List.map_append, hprints]
        exact hwritten.symm
  case h_4 => split at h <;> exact Option.some.inj h ▸ hs.same rfl rfl rfl
  case h_5 => cases h

theorem Filing.step {fs₀ : FileStore Str Char} (hs : s.Filing fs₀) (hleaves : s.LeavesFiles a)
    (h : s.next stdio a = some t) : t.Filing fs₀ := by
  cases a with
  | enter thread call =>
    simp only [next] at h
    split at h
    · cases h
    · split at h <;> exact Option.some.inj h ▸ hs.same rfl rfl rfl
  | push thread =>
    obtain ⟨line, -, rfl⟩ := Option.map_eq_some_iff.mp h
    exact hs.same rfl rfl rfl
  | environment world => exact Option.some.inj h ▸ hs.same rfl hleaves rfl
  | loopPrint => exact hs.loopPrint h

/-- **From `Log` to the files.**  In every run in which no other process touches the
files: every file that has a name holds, with what is still in its buffer, what it held before
`Init` and then the lines printed on it, in order; no file but the open one has text in a
buffer; each line printed is on one file, which has a name; the lines printed are the first of
the lines pushed, and all of them when the queue is empty. -/
theorem lines_filed (h : (fileRuns Thread logLevel logFilePath world).Reachable s) :
    ∃ prints : List (Nat × Str), Filed world.files s.world.1.files.settled prints ∧
      s.logFileMgr.BuffersOpen s.world.1.files ∧
      prints.map Prod.snd <+: s.pushedLines.map printed ∧
      (s.logQueue = [] → prints.map Prod.snd = s.pushedLines.map printed) := by
  have hfiling : s.Filing world.files := by
    refine h.invariant (I := Filing world.files) ?_ fun _ _ _ hs hstep => hs.step hstep.1 hstep.2
    rintro s rfl
    exact filing_init logLevel logFilePath world
  have hdelivering : s.Delivering := by
    refine h.invariant (I := Delivering) ?_ fun _ _ _ hs hstep =>
      hs.step stdio_fopen_isSome hstep.2
    rintro s rfl
    exact delivering_init stdio logLevel logFilePath world.stdio
  obtain ⟨prints, hprints, hfiled⟩ := hfiling.filed
  refine ⟨prints, hfiled, hfiling.opened.buffers, hprints ▸ hdelivering.written_prefix, ?_⟩
  intro hempty
  obtain ⟨popped, hpushed, hwritten⟩ := hdelivering.printed_eq
  have hfront : s.printedFront = [] := by
    unfold printedFront
    split
    · rw [hempty, List.take_nil]
    · rfl
  rw [hempty, List.append_nil] at hpushed
  rw [hprints, hwritten, hfront, List.append_nil, hpushed]

/-- A line is pushed and printed on the first of January. -/
def firstPrinted : MyLog Unit StdioWorld Nat :=
  (TransitionSystem.exec (next stdio)
    (init stdio 1 ['l'] (LogRun.emptyWorld ⟨2024, 1, 1⟩).stdio)
    [.enter () ⟨2, ['t'], ['g'], ['m']⟩, .push (), .loopPrint, .loopPrint, .loopPrint,
      .loopPrint]).get rfl

/-- A second one on the day after. -/
def secondFiled : MyLog Unit StdioWorld Nat :=
  (TransitionSystem.exec (next stdio) firstPrinted
    [.environment { firstPrinted.world.1 with day := ⟨2024, 1, 2⟩ },
      .enter () ⟨2, ['t'], ['g'], ['n']⟩, .push (), .loopPrint, .loopPrint, .loopPrint,
      .loopPrint]).get rfl

/-- The theorem at a run over two days: the first line is on disk, in the file of its day, the
second in the buffer of the file of the next. -/
theorem lines_filed_twoDays :
    (fileRuns Unit 1 ['l'] (LogRun.emptyWorld ⟨2024, 1, 1⟩)).Reachable secondFiled ∧
      secondFiled.world.1.files.disk.names ['l', '2', '0', '2', '4', '0', '1', '0', '1'] = some 1 ∧
      secondFiled.world.1.files.disk.content 1 =
        ['t', '|', 'g', '|', 'r', 'u', 'n', '|', 'm', '\n'] ∧
      secondFiled.world.1.files.disk.names ['l', '2', '0', '2', '4', '0', '1', '0', '2'] = some 2 ∧
      secondFiled.world.1.files.disk.content 2 = [] ∧
      ∃ prints : List (Nat × Str),
        Filed (LogRun.emptyWorld ⟨2024, 1, 1⟩).files secondFiled.world.1.files.settled prints ∧
        prints.map Prod.snd = [['t', '|', 'g', '|', 'r', 'u', 'n', '|', 'm', '\n'],
          ['t', '|', 'g', '|', 'r', 'u', 'n', '|', 'n', '\n']] := by
  have hfirst : (fileRuns Unit 1 ['l'] (LogRun.emptyWorld ⟨2024, 1, 1⟩)).IsRun
      (init stdio 1 ['l'] (LogRun.emptyWorld ⟨2024, 1, 1⟩).stdio)
      [(.enter () ⟨2, ['t'], ['g'], ['m']⟩, _), (.push (), _), (.loopPrint, _), (.loopPrint, _),
        (.loopPrint, _), (.loopPrint, firstPrinted)] :=
    ⟨⟨trivial, rfl⟩, ⟨trivial, rfl⟩, ⟨trivial, rfl⟩, ⟨trivial, rfl⟩, ⟨trivial, rfl⟩,
      ⟨trivial, rfl⟩, trivial⟩
  have hsecond : (fileRuns Unit 1 ['l'] (LogRun.emptyWorld ⟨2024, 1, 1⟩)).IsRun firstPrinted
      [(.environment { firstPrinted.world.1 with day := ⟨2024, 1, 2⟩ }, _),
        (.enter () ⟨2, ['t'], ['g'], ['n']⟩, _), (.push (), _), (.loopPrint, _), (.loopPrint, _),
        (.loopPrint, _), (.loopPrint, secondFiled)] :=
    ⟨⟨rfl, rfl⟩, ⟨trivial, rfl⟩, ⟨trivial, rfl⟩, ⟨trivial, rfl⟩, ⟨trivial, rfl⟩, ⟨trivial, rfl⟩,
      ⟨trivial, rfl⟩, trivial⟩
  have h₀ : (fileRuns Unit 1 ['l'] (LogRun.emptyWorld ⟨2024, 1, 1⟩)).Reachable _ := .initial rfl
  have hs : (fileRuns Unit 1 ['l'] (LogRun.emptyWorld ⟨2024, 1, 1⟩)).Reachable secondFiled :=
    (h₀.reaches hfirst.reaches).reaches hsecond.reaches
  obtain ⟨prints, hfiled, -, -, hall⟩ := lines_filed hs
  have hpushed : secondFiled.pushedLines =
      [['t', '|', 'g', '|', 'r', 'u', 'n', '|', 'm'],
        ['t', '|', 'g', '|', 'r', 'u', 'n', '|', 'n']] := by decide
  exact ⟨hs, rfl, by decide, rfl, by decide, prints, hfiled, (hall rfl).trans (hpushed ▸ rfl)⟩

end MyLog
end MySvrKit
