import MySvrKit.LogRotation

/-! # The size of log files

How large the files `LogFileMgr` writes to can become.  A size rotation is meant to
end a file at 100 MiB, but `LogFileRotate` only reopens the file when the path has
changed: after a size rotation of the path that is already open, the lines go on
into the archive.  The bound holds in every run that never does that. -/

namespace MySvrKit.LogRun

/-- The names log files have: a day's path, or an archive name of one. -/
def LogName (logFilePath n : Str) : Prop :=
  ∃ d, n = rotateLogFilePathWithDay logFilePath d ∨
    ∃ i, n = archivePath (rotateLogFilePathWithDay logFilePath d) i

/-- Every log file is smaller than `bound`. -/
def LogFilesBelow (bound : Nat) (logFilePath : Str) (fs : FileStore Str Char) : Prop :=
  ∀ n, LogName logFilePath n → ∀ k, fs.size? n = some k → k < bound

/-- A call as the bound assumes it: a line that fits `MyLog`'s buffer, a `rename`
that works, and an archive name to spare. -/
def Admissible (s : LogRun) (c : PrintCall) : Prop :=
  c.logString.length ≤ 1023 ∧ c.renameFails = false ∧
    ∃ i, i < kLogFileMaxNum ∧ s.files.names (archivePath (s.dayPath c) i) = none

/-- The call does not size-rotate the path that is open. -/
def KeepsOpenFile (s : LogRun) (c : PrintCall) : Prop :=
  s.mgr.currentLogFilePath = s.dayPath c →
    ∀ k, s.files.size? (s.dayPath c) = some k → k < kLogFileMaxSizeByte

variable {logFilePath : Str} {world : LogWorld} {s t : LogRun} {c : PrintCall}

theorem LogName.archive {d : Day} (i : Nat) :
    LogName logFilePath (archivePath (rotateLogFilePathWithDay logFilePath d) i) :=
  ⟨d, Or.inr ⟨i, rfl⟩⟩

/-- The least free archive name of a call that has one. -/
theorem Admissible.least (h : Admissible s c) :
    ∃ i, i < kLogFileMaxNum ∧ s.files.names (archivePath (s.dayPath c) i) = none ∧
      ∀ j, j < i → s.files.names (archivePath (s.dayPath c) j) ≠ none := by
  obtain ⟨-, -, i, hi, hfree⟩ := h
  cases hfound : freeArchive s.files (s.dayPath c) with
  | some i => exact ⟨i, freeArchive_eq_some_iff.mp hfound⟩
  | none => exact absurd hfree (freeArchive_eq_none_iff.mp hfound i hi)

theorem kLogFileMaxSizeByte_pos : 0 < kLogFileMaxSizeByte := by decide

/-! ## Through a size rotation -/

/-- After the rotation of an admissible call the day's path, if it still has a file,
has one below 100 MiB. -/
theorem Admissible.small_after_rotation (h : Admissible s c) {w : LogWorld}
    (hw : SizeRotation (s.dayPath c) (s.meets c) w) {k : Nat}
    (hk : w.files.size? (s.dayPath c) = some k) : k < kLogFileMaxSizeByte := by
  by_cases hsmall : ∀ k, s.files.size? (s.dayPath c) = some k → k < kLogFileMaxSizeByte
  · have hsame : w = s.meets c := hw.small hsmall
    rw [hsame] at hk
    exact hsmall k hk
  · push Not at hsmall
    obtain ⟨k₀, hk₀, hbig⟩ := hsmall
    obtain ⟨i, hi, hfree, hleast⟩ := h.least
    have hgone := hw.moves k₀ i hk₀ hbig hi hfree hleast h.2.1 (s.dayPath c)
    rw [if_neg (archivePath_ne _ _), if_pos rfl] at hgone
    rw [FileStore.size?_eq_none_iff.mpr hgone] at hk
    cases hk

/-- A rotation of a day's path keeps every bound on the log files. -/
theorem Admissible.bound_after_rotation (h : Admissible s c)
    (hpath : s.mgr.logFilePath = logFilePath) {bound : Nat} {w : LogWorld}
    (hw : SizeRotation (s.dayPath c) (s.meets c) w)
    (hs : LogFilesBelow bound logFilePath s.files) :
    LogFilesBelow bound logFilePath w.files := by
  intro n hn k hk
  by_cases hsmall : ∀ k, s.files.size? (s.dayPath c) = some k → k < kLogFileMaxSizeByte
  · have hsame : w = s.meets c := hw.small hsmall
    rw [hsame] at hk
    exact hs n hn k hk
  · push Not at hsmall
    obtain ⟨k₀, hk₀, hbig⟩ := hsmall
    obtain ⟨i, hi, hfree, hleast⟩ := h.least
    have hmoves := hw.moves k₀ i hk₀ hbig hi hfree hleast h.2.1 n
    obtain ⟨f, hf, hlen⟩ := FileStore.size?_eq_some_iff.mp hk
    rw [hw.content] at hlen
    rw [hf] at hmoves
    split at hmoves
    · -- the archive name: the file the day's path had
      have hday : LogName logFilePath (s.dayPath c) := ⟨c.day, Or.inl (by rw [dayPath, hpath])⟩
      exact hs _ hday k (FileStore.size?_eq_some_iff.mpr ⟨f, hmoves.symm, hlen⟩)
    · split at hmoves
      · cases hmoves
      · exact hs n hn k (FileStore.size?_eq_some_iff.mpr ⟨f, hmoves.symm, hlen⟩)

/-- Only a failing `rename` makes the rotation return nonzero. -/
theorem rotate_eq_zero (hwork : c.renameFails = false) {ret : Int} {w : LogWorld}
    (h : rotateLogFilePathWithSize posix (s.dayPath c) (s.meets c) = (ret, w)) : ret = 0 := by
  have hmeets : (s.meets c).renameFails = false := hwork
  rw [rotateLogFilePathWithSize_posix, hmeets] at h
  split at h
  · split at h <;> exact (Prod.mk.inj h).1.symm
  · exact (Prod.mk.inj h).1.symm

/-! ## Through a print -/

/-- Opening the day's path keeps every bound on the log files. -/
theorem LogFilesBelow.openAppend {bound : Nat} {fs fs' : FileStore Str Char} {p : Str} {f : Nat}
    (hs : LogFilesBelow bound logFilePath fs) (hopen : fs.openAppend p = (f, fs'))
    (hpos : 0 < bound) : LogFilesBelow bound logFilePath fs' := by
  intro n hn k hk
  cases hp : fs.names p with
  | some g =>
    rw [FileStore.openAppend_of_some hp] at hopen
    obtain ⟨-, rfl⟩ := Prod.mk.inj hopen
    exact hs n hn k hk
  | none =>
    obtain ⟨hf, hnames, hcontent⟩ := FileStore.openAppend_of_none hp
    rw [hopen] at hf hnames hcontent
    obtain ⟨g, hg, rfl⟩ := FileStore.size?_eq_some_iff.mp hk
    by_cases he : n = p
    · -- the new file
      subst he
      rw [hnames, Function.update_self] at hg
      rw [hcontent, ← Option.some.inj hg, Function.update_self]
      exact hpos
    · rw [hnames, Function.update_of_ne he] at hg
      rw [hcontent, Function.update_of_ne (Nat.ne_of_lt (fs.fresh n g hg))]
      exact hs n hn _ (FileStore.size?_of_names hg)

/-- A line printed on a file below 100 MiB keeps the log files below the bound. -/
theorem LogFilesBelow.append {fs : FileStore Str Char} {f : Nat} {logString : Str}
    (hs : LogFilesBelow (kLogFileMaxSizeByte + 1024) logFilePath fs)
    (hf : (fs.content f).length < kLogFileMaxSizeByte) (hline : logString.length ≤ 1023) :
    LogFilesBelow (kLogFileMaxSizeByte + 1024) logFilePath
      (fs.append f (cStr logString ++ ['\n'])) := by
  intro n hn k hk
  obtain ⟨g, hg, rfl⟩ := FileStore.size?_eq_some_iff.mp hk
  by_cases he : g = f
  · subst he
    have hcut := length_cStr_le logString
    rw [FileStore.content_append_self, List.length_append, List.length_append,
      List.length_singleton]
    omega
  · rw [FileStore.content_append_other he]
    exact hs n hn _ (FileStore.size?_of_names hg)

/-! ## Whole runs -/

/-- **The size invariant**: log files are below the bound, and once a day's path is
current the open file is the one it names. -/
structure Bounded (logFilePath : Str) (s : LogRun) : Prop where
  path : s.mgr.logFilePath = logFilePath
  below : LogFilesBelow (kLogFileMaxSizeByte + 1024) logFilePath s.files
  opened : s.mgr.currentLogFilePath = logFilePath ∨
    ∃ f, s.mgr.ptrLogFile = some f ∧ s.files.names s.mgr.currentLogFilePath = some f

/-- The file a line goes to is the one its day's path names, and below 100 MiB
before the line. -/
theorem PrintsTo.small {w : LogWorld} {file : Nat} {files : FileStore Str Char}
    (hs : Bounded logFilePath s) (hc : Admissible s c) (hkeep : KeepsOpenFile s c)
    (hw : SizeRotation (s.dayPath c) (s.meets c) w) (h : s.PrintsTo c w file files) :
    files.names (s.dayPath c) = some file ∧ (files.content file).length < kLogFileMaxSizeByte ∧
      LogFilesBelow (kLogFileMaxSizeByte + 1024) logFilePath files := by
  have hbelow := hc.bound_after_rotation hs.path hw hs.below
  rcases h with ⟨-, hopen⟩ | ⟨hcur, hptr, rfl⟩
  · refine ⟨?_, ?_, hbelow.openAppend hopen (Nat.succ_pos _)⟩
    · have hself := FileStore.names_openAppend_self w.files (s.dayPath c)
      rwa [hopen] at hself
    · cases hp : w.files.names (s.dayPath c) with
      | some f =>
        rw [FileStore.openAppend_of_some hp] at hopen
        obtain ⟨rfl, rfl⟩ := Prod.mk.inj hopen
        exact hc.small_after_rotation hw (FileStore.size?_of_names hp)
      | none =>
        have hempty := FileStore.content_openAppend_new hp
        rw [hopen] at hempty
        have hlen : (files.content file).length = 0 := congrArg List.length hempty
        exact hlen ▸ kLogFileMaxSizeByte_pos
  · -- the path was open before the call, so by the condition it was not rotated
    have hnotbase : s.mgr.currentLogFilePath ≠ logFilePath := by
      rw [hcur, dayPath, hs.path]
      exact rotateLogFilePathWithDay_ne logFilePath c.day
    obtain ⟨f, hf, hname⟩ := hs.opened.resolve_left hnotbase
    obtain rfl : f = file := Option.some.inj (hf.symm.trans hptr)
    have hsame : w = s.meets c := hw.small (hkeep hcur)
    rw [hcur] at hname
    rw [hsame]
    exact ⟨hname, hkeep hcur _ (FileStore.size?_of_names hname), hs.below⟩

theorem Bounded.step (hs : Bounded logFilePath s) (hc : Admissible s c)
    (hkeep : KeepsOpenFile s c) (h : (runs logFilePath world).step s c t) :
    Bounded logFilePath t := by
  obtain ⟨ret, h⟩ := h
  obtain ⟨w, hrot, hpath, hcur, hend⟩ := printLog_posix h
  have hw := sizeRotation (s.dayPath c) (s.meets c)
  rcases hend with ⟨hret, -, -⟩ | ⟨-, file, files, hto, hptr, hfiles⟩
  · exact absurd (rotate_eq_zero hc.2.1 hrot) hret
  · -- the line goes to a file below 100 MiB, and adds at most 1024 bytes
    rw [hrot] at hw
    obtain ⟨hname, hsmall, hbelow⟩ := hto.small hs hc hkeep hw
    refine ⟨hpath.trans hs.path, ?_, Or.inr ⟨file, hptr, ?_⟩⟩
    · rw [hfiles]
      exact hbelow.append hsmall hc.1
    · rw [hfiles, hcur]
      exact hname

/-- **Size rotation bounds the log files of every run that never size-rotates the
path that is open.** -/
theorem below_of_keepsOpenFile
    (hstart : LogFilesBelow kLogFileMaxSizeByte logFilePath world.files)
    (h : ((runs logFilePath world).restrict
      fun s c => Admissible s c ∧ KeepsOpenFile s c).Reachable s) :
    LogFilesBelow (kLogFileMaxSizeByte + 1024) logFilePath s.files := by
  have hbounded : Bounded logFilePath s := by
    refine h.invariant ?_ fun a c b ha hstep => ha.step hstep.1.1 hstep.1.2 hstep.2
    rintro s rfl
    have hbelow : LogFilesBelow (kLogFileMaxSizeByte + 1024) logFilePath world.files :=
      fun n hn k hk => (hstart n hn k hk).trans_le (Nat.le_add_right _ _)
    exact ⟨rfl, hbelow.openAppend rfl (Nat.succ_pos _), Or.inl rfl⟩
  exact hbounded.below

/-- The theorem at a run of two lines on one day, the second on the file that is open. -/
theorem below_of_keepsOpenFile_twoLines :
    ∃ s c t, ((runs ['l'] (emptyWorld ⟨2024, 1, 1⟩)).restrict
        fun s c => Admissible s c ∧ KeepsOpenFile s c).Reachable s ∧
      (runs ['l'] (emptyWorld ⟨2024, 1, 1⟩)).step s c t ∧
      s.mgr.currentLogFilePath = s.dayPath c ∧ s.files.size? (s.dayPath c) = some 2 ∧
      t.files.size? (s.dayPath c) = some 4 ∧
      LogFilesBelow (kLogFileMaxSizeByte + 1024) ['l'] t.files := by
  have hstart : LogFilesBelow kLogFileMaxSizeByte ['l'] (emptyWorld ⟨2024, 1, 1⟩).files :=
    fun n _ k hk => nomatch hk
  let c : PrintCall := ⟨['a'], ⟨2024, 1, 1⟩, false⟩
  let s₀ : LogRun := ⟨(LogFileMgr.init posix ['l'] (emptyWorld ⟨2024, 1, 1⟩)).1,
    (LogFileMgr.init posix ['l'] (emptyWorld ⟨2024, 1, 1⟩)).2⟩
  let s : LogRun := ((s₀.printLog c).get (by decide)).2
  let t : LogRun := ((s.printLog c).get (by decide)).2
  have h₁ : s₀.printLog c = some (_, s) := (Option.some_get _).symm
  have h₂ : s.printLog c = some (_, t) := (Option.some_get _).symm
  have hsize : s.files.size? (s.dayPath c) = some 2 := by decide
  have hfirst : KeepsOpenFile s₀ c := fun hcur => absurd hcur (by decide)
  have hsecond : KeepsOpenFile s c := by
    intro _ k hk
    obtain rfl := Option.some.inj (hsize.symm.trans hk)
    decide
  have hr : ((runs ['l'] (emptyWorld ⟨2024, 1, 1⟩)).restrict
      fun s c => Admissible s c ∧ KeepsOpenFile s c).Reachable s :=
    (TransitionSystem.Reachable.initial rfl).step
      ⟨⟨⟨by decide, rfl, 0, by decide, by decide⟩, hfirst⟩, _, h₁⟩
  exact ⟨s, c, t, hr, ⟨_, h₂⟩, by decide, hsize, by decide, below_of_keepsOpenFile hstart
    (hr.step ⟨⟨⟨by decide, rfl, 0, by decide, by decide⟩, hsecond⟩, _, h₂⟩)⟩

/-! ## The rotation of the open path -/

/-- **A size rotation of the path that is open leaves the archive open**: the file
moves to the archive name, the line is still appended to it, and so is the next. -/
theorem sameDay_rotation {ret : Int} {f i : Nat} (h : s.printLog c = some (ret, t))
    (hcur : s.mgr.currentLogFilePath = s.dayPath c) (hptr : s.mgr.ptrLogFile = some f)
    (hname : s.files.names (s.dayPath c) = some f)
    (hbig : kLogFileMaxSizeByte ≤ (s.files.content f).length) (hi : i < kLogFileMaxNum)
    (hfree : s.files.names (archivePath (s.dayPath c) i) = none)
    (hleast : ∀ j, j < i → s.files.names (archivePath (s.dayPath c) j) ≠ none)
    (hwork : c.renameFails = false) :
    t.files.names (archivePath (s.dayPath c) i) = some f ∧ t.mgr.ptrLogFile = some f ∧
      t.files.content f = s.files.content f ++ (cStr c.logString ++ ['\n']) := by
  obtain ⟨w, hrot, -, -, hend⟩ := printLog_posix h
  have hw := sizeRotation (s.dayPath c) (s.meets c)
  rw [hrot] at hw
  have hmoved := hw.moves _ i (FileStore.size?_of_names hname) hbig hi hfree hleast hwork
    (archivePath (s.dayPath c) i)
  rw [if_pos rfl] at hmoved
  have hret : ret = 0 := rotate_eq_zero hwork hrot
  rcases hend with ⟨hne, -, -⟩ | ⟨-, file, files, hto, htptr, hfiles⟩
  · exact absurd hret hne
  · rcases hto with ⟨hnot, -⟩ | ⟨-, hfile, rfl⟩
    · exact absurd ⟨hcur, by rw [hptr]; rfl⟩ hnot
    · obtain rfl : f = file := Option.some.inj (hptr.symm.trans hfile)
      rw [hfiles]
      refine ⟨hmoved.trans hname, htptr, ?_⟩
      rw [FileStore.content_append_self, hw.content]
      rfl

/-- The first call of a day whose file is below 100 MiB opens that file and prints
there. -/
theorem newDay_small {ret : Int} {f : Nat} (h : s.printLog c = some (ret, t))
    (hcur : s.mgr.currentLogFilePath ≠ s.dayPath c) (hwork : c.renameFails = false)
    (hname : s.files.names (s.dayPath c) = some f)
    (hsmall : (s.files.content f).length < kLogFileMaxSizeByte) :
    t.files.names = s.files.names ∧ t.mgr.ptrLogFile = some f ∧
      t.files.content f = s.files.content f ++ (cStr c.logString ++ ['\n']) := by
  obtain ⟨w, hrot, -, -, hend⟩ := printLog_posix h
  have hw := sizeRotation (s.dayPath c) (s.meets c)
  rw [hrot] at hw
  obtain rfl : w = s.meets c := by
    refine hw.small fun k hk => ?_
    obtain rfl := Option.some.inj ((FileStore.size?_of_names hname).symm.trans hk)
    exact hsmall
  rcases hend with ⟨hne, -, -⟩ | ⟨-, file, files, hto, htptr, hfiles⟩
  · exact absurd (rotate_eq_zero hwork hrot) hne
  · rcases hto with ⟨-, hopen⟩ | ⟨hsame, -, -⟩
    · have hsome : (s.meets c).files.openAppend (s.dayPath c) = (f, s.files) :=
        FileStore.openAppend_of_some hname
      rw [hsome] at hopen
      obtain ⟨rfl, rfl⟩ := Prod.mk.inj hopen
      rw [hfiles]
      exact ⟨rfl, htptr, FileStore.content_append_self ..⟩
    · exact absurd hsame hcur

/-- A world whose log file of the day is one byte short of 100 MiB. -/
def nearlyFull : LogWorld where
  files :=
    { names := fun n => if n = ['l', '2', '0', '2', '4', '0', '1', '0', '1'] then some 0 else none
      content := fun _ => List.replicate (kLogFileMaxSizeByte - 1) 'x'
      next := 1
      fresh := by
        intro n f h
        split at h
        · exact Option.some.inj h ▸ Nat.one_pos
        · cases h }
  day := ⟨2024, 1, 1⟩
  renameFails := false

/-- Two lines of one day, the second of 1023 bytes, take the archive past the
bound. -/
theorem not_below_sameDay :
    LogFilesBelow kLogFileMaxSizeByte ['l'] nearlyFull.files ∧
      ∃ s, ((runs ['l'] nearlyFull).restrict Admissible).Reachable s ∧
        ¬ LogFilesBelow (kLogFileMaxSizeByte + 1024) ['l'] s.files := by
  refine ⟨?start, ?run⟩
  case start =>
    intro n _ k hk
    obtain ⟨f, -, rfl⟩ := FileStore.size?_eq_some_iff.mp hk
    show (List.replicate (kLogFileMaxSizeByte - 1) 'x').length < kLogFileMaxSizeByte
    rw [List.length_replicate]
    exact Nat.sub_lt kLogFileMaxSizeByte_pos Nat.one_pos
  case run =>
    let s₀ : LogRun := ⟨(LogFileMgr.init posix ['l'] nearlyFull).1,
      (LogFileMgr.init posix ['l'] nearlyFull).2⟩
    let c₁ : PrintCall := ⟨['x'], ⟨2024, 1, 1⟩, false⟩
    let c₂ : PrintCall := ⟨List.replicate 1023 'x', ⟨2024, 1, 1⟩, false⟩
    have hday : s₀.dayPath c₁ = ['l', '2', '0', '2', '4', '0', '1', '0', '1'] := by decide
    have hname : s₀.files.names (s₀.dayPath c₁) = some 0 := by rw [hday]; rfl
    have hcontent : s₀.files.content 0 = List.replicate (kLogFileMaxSizeByte - 1) 'x' :=
      FileStore.content_openAppend Nat.one_pos
    have hfree : s₀.files.names (archivePath (s₀.dayPath c₁) 0) = none := by rw [hday]; rfl
    have hr₀ : ((runs ['l'] nearlyFull).restrict Admissible).Reachable s₀ :=
      TransitionSystem.Reachable.initial rfl
    -- the first line fills the file of the day
    obtain ⟨ret₁, s₁, h₁⟩ := printLog_total s₀ c₁
    have hr₁ := hr₀.step (l := c₁) ⟨⟨by decide, rfl, 0, by decide, hfree⟩, ret₁, h₁⟩
    obtain ⟨hnames₁, hptr₁, hcontent₁⟩ := newDay_small h₁ (by decide) rfl hname (by
      rw [hcontent, List.length_replicate]
      exact Nat.sub_lt kLogFileMaxSizeByte_pos Nat.one_pos)
    obtain ⟨-, -, hpath₁, hcur₁, -⟩ := printLog_posix h₁
    have hday₁ : s₁.dayPath c₂ = s₀.dayPath c₁ := by rw [dayPath, hpath₁]; rfl
    have hfull : kLogFileMaxSizeByte + 1 = (s₁.files.content 0).length := by
      rw [hcontent₁, hcontent, List.length_append, List.length_replicate]
      rfl
    -- the second line moves it to the archive name and follows it there
    obtain ⟨ret₂, s₂, h₂⟩ := printLog_total s₁ c₂
    have hfree₁ : s₁.files.names (archivePath (s₁.dayPath c₂) 0) = none := by
      rw [hnames₁, hday₁, hfree]
    have hr₂ := hr₁.step (l := c₂)
      ⟨⟨List.length_replicate.le, rfl, 0, by decide, hfree₁⟩, ret₂, h₂⟩
    obtain ⟨hnames₂, -, hcontent₂⟩ := sameDay_rotation h₂ (hcur₁.trans hday₁.symm) hptr₁
      (by rw [hnames₁, hday₁, hname]) (by omega) (by decide) hfree₁ (fun j hj => nomatch hj) rfl
    refine ⟨s₂, hr₂, fun hbelow => ?_⟩
    have hlog : LogName ['l'] (archivePath (s₁.dayPath c₂) 0) := by
      rw [hday₁]
      exact LogName.archive (d := ⟨2024, 1, 1⟩) 0
    have hlt := hbelow _ hlog _ (FileStore.size?_of_names hnames₂)
    have hline : (cStr c₂.logString).length = 1023 := by
      rw [cStr_replicate (by decide)]
      exact List.length_replicate
    rw [hcontent₂, List.length_append, List.length_append, hline, List.length_singleton] at hlt
    omega

end MySvrKit.LogRun
