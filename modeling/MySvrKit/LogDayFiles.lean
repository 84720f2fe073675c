import MySvrKit.LogNames
import MySvrKit.LogRotation

/-! # Each line lands in its own day's file

`LogFileRotate` opens a file only when the path has changed, and a size rotation
renames a file that may be open.  So the open handle need not be on the file its
path names: what holds is that its file has the path's name, or an archive name of
it.  The operating system is any on which `fopen` and `rename` succeed and `stat`
finds the names there are; it may report any sizes. -/

universe u v

namespace MySvrKit

/-- What the file system is in a world, and the file a handle is open on. -/
structure FileView (World : Type u) (Handle : Type v) where
  files : World → FileStore Str Char
  fileOf : World → Handle → Nat

/-- The files and handles of two worlds are the same. -/
def FileView.Same {World : Type u} {Handle : Type v} (view : FileView World Handle)
    (w w' : World) : Prop :=
  view.files w' = view.files w ∧ view.fileOf w' = view.fileOf w

/-- `os.Working view`: `fopen` and `rename` succeed, `stat` succeeds iff the name
exists, and each call does to the files what it is for. -/
structure Posix.Working {World : Type u} {Handle : Type v} (os : Posix World Handle)
    (view : FileView World Handle) : Prop where
  stat : ∀ p w, (os.stat p w).1.isSome = ((view.files w).names p).isSome ∧
    view.Same w (os.stat p w).2
  rename : ∀ old new w, (view.files w).names old ≠ none → (view.files w).names new = none →
    (os.rename old new w).1 = 0 ∧
      view.files (os.rename old new w).2 = (view.files w).rename old new ∧
      view.fileOf (os.rename old new w).2 = view.fileOf w
  fopen : ∀ p w, ∃ file, (os.fopen p w).1 = some file ∧
    view.files (os.fopen p w).2 = ((view.files w).openAppend p).2 ∧
    view.fileOf (os.fopen p w).2 file = ((view.files w).openAppend p).1
  fclose : ∀ file w, view.files (os.fclose file w) = view.files w
  fprintf : ∀ file text w,
    view.files (os.fprintf file text w) = (view.files w).append (view.fileOf w file) text ∧
      view.fileOf (os.fprintf file text w) = view.fileOf w
  today : ∀ w, view.Same w (os.today w).2

/-- The file has the name of that day, or an archive name of it. -/
def DayFile (fs : FileStore Str Char) (logFilePath : Str) (d : Day) (f : Nat) : Prop :=
  fs.names (rotateLogFilePathWithDay logFilePath d) = some f ∨
    ∃ i, fs.names (archivePath (rotateLogFilePathWithDay logFilePath d) i) = some f

/-- What a size rotation of `path` may do to the file system. -/
def MayArchive (path : Str) (fs fs' : FileStore Str Char) : Prop :=
  fs' = fs ∨ ∃ i, fs.names (archivePath path i) = none ∧ fs' = fs.rename path (archivePath path i)

/-! ## What a size rotation and an open keep -/

section
variable {fs fs' : FileStore Str Char} {p path n : Str} {d e : Day} {f : Nat}

/-- A name other than the rotated path keeps its file. -/
theorem MayArchive.names (h : MayArchive path fs fs') (hn : fs.names n = some f)
    (hne : n ≠ path) : fs'.names n = some f := by
  rcases h with rfl | ⟨i, hfree, rfl⟩
  · exact hn
  · have hnew : n ≠ archivePath path i := by
      intro he
      rw [he, hfree] at hn
      cases hn
    rw [FileStore.names_rename_other hnew hne]
    exact hn

theorem MayArchive.soleName (h : MayArchive path fs fs') (hf : fs.SoleName f) :
    fs'.SoleName f := by
  rcases h with rfl | ⟨i, hfree, rfl⟩
  · exact hf
  · exact hf.rename hfree

/-- A file of a day stays one through the size rotation of any day's path. -/
theorem MayArchive.dayFile (hd : d.InCalendar) (he : e.InCalendar)
    (h : MayArchive (rotateLogFilePathWithDay p e) fs fs') (hf : DayFile fs p d f) :
    DayFile fs' p d f := by
  rcases hf with hf | ⟨i, hf⟩
  · by_cases hsame : rotateLogFilePathWithDay p d = rotateLogFilePathWithDay p e
    · rcases h with rfl | ⟨i, -, rfl⟩
      · exact Or.inl hf
      · -- the file of the rotated path goes to the archive name
        refine Or.inr ⟨i, ?_⟩
        rw [hsame, FileStore.names_rename_new, ← hsame]
        exact hf
    · exact Or.inl (h.names hf hsame)
  · exact Or.inr ⟨i, h.names hf (archivePath_ne_dayPath hd he i)⟩

/-- No day's file is the file of the configured path, unless by a hard link. -/
theorem DayFile.ne_of_soleName (hf : DayFile fs p d f) (hsole : fs.SoleName f) {g : Nat}
    (hg : fs.names p = some g) : f ≠ g := by
  rintro rfl
  rcases hf with hf | ⟨i, hf⟩
  · exact rotateLogFilePathWithDay_ne p d (hsole _ _ hf hg)
  · have hname := hsole _ _ hf hg
    have hlen := congrArg List.length hname
    obtain ⟨before, after, hp, hrotate, -⟩ := rotateLogFilePathWithDay_eq p
    simp only [archivePath, hrotate, List.length_append, List.length_singleton] at hlen
    rw [hp, List.length_append] at hlen
    omega

/-- A file belongs to one day, unless by a hard link. -/
theorem DayFile.day_unique (hd : d.InCalendar) (he : e.InCalendar) (hf : DayFile fs p d f)
    (hf' : DayFile fs p e f) (hsole : fs.SoleName f) : d = e := by
  rcases hf with hf | ⟨i, hf⟩ <;> rcases hf' with hf' | ⟨j, hf'⟩
  · exact (rotateLogFilePathWithDay_inj hd he (hsole _ _ hf hf')).2
  · exact absurd (hsole _ _ hf' hf) (archivePath_ne_dayPath he hd j)
  · exact absurd (hsole _ _ hf hf') (archivePath_ne_dayPath hd he i)
  · exact (archivePath_inj hd he (hsole _ _ hf hf')).1

end

/-! ## One call -/

namespace LogFileMgr
variable {World : Type u} {Handle : Type v} {os : Posix World Handle}
variable {view : FileView World Handle}

/-- The search loop returns 0, and renames at most once, to a free name. -/
theorem rotateToArchive_working (hos : os.Working view) {path : Str} (remaining i : Nat)
    {w : World} (hpath : (view.files w).names path ≠ none) :
    (rotateToArchive os path remaining i w).1 = 0 ∧
      MayArchive path (view.files w) (view.files (rotateToArchive os path remaining i w).2) ∧
      view.fileOf (rotateToArchive os path remaining i w).2 = view.fileOf w := by
  induction remaining generalizing i w with
  | zero => exact ⟨rfl, Or.inl rfl, rfl⟩
  | succ remaining ih =>
    simp only [rotateToArchive]
    obtain ⟨hfound, hfiles, hhandles⟩ := hos.stat (archivePath path i) w
    rcases hstat : os.stat (archivePath path i) w with ⟨_ | size, w'⟩
    · -- a free name
      rw [hstat] at hfound hfiles hhandles
      have hfree : (view.files w').names (archivePath path i) = none := by
        rw [hfiles]
        exact Option.isNone_iff_eq_none.mp (Option.isSome_eq_false_iff.mp hfound.symm)
      rw [← hfiles] at hpath
      obtain ⟨hret, hrename, hkept⟩ := hos.rename path _ w' hpath hfree
      refine ⟨hret, Or.inr ⟨i, ?_, ?_⟩, ?_⟩
      · rw [← hfiles]; exact hfree
      · rw [hrename, hfiles]
      · exact hkept.trans hhandles
    · rw [hstat] at hfiles hhandles
      dsimp only at hfiles hhandles
      have hrest := ih (i + 1) (w := w') (by rw [hfiles]; exact hpath)
      rw [hfiles, hhandles] at hrest
      exact hrest

/-- The size rotation of a call returns 0 and does nothing but archive. -/
theorem sizeRotate_working (hos : os.Working view) (mgr : LogFileMgr Handle) (w : World) :
    (mgr.sizeRotate os w).1 = 0 ∧
      MayArchive (mgr.dayPath os w) (view.files w) (view.files (mgr.sizeRotate os w).2) ∧
      view.fileOf (mgr.sizeRotate os w).2 = view.fileOf w := by
  obtain ⟨hfiles₀, hhandles₀⟩ := hos.today w
  rw [← hfiles₀, ← hhandles₀]
  unfold sizeRotate rotateLogFilePathWithSize
  obtain ⟨hfound, hfiles, hhandles⟩ := hos.stat (mgr.dayPath os w) (os.today w).2
  rcases hstat : os.stat (mgr.dayPath os w) (os.today w).2 with ⟨_ | size, w'⟩
  · rw [hstat] at hfiles hhandles
    exact ⟨rfl, Or.inl hfiles, hhandles⟩
  · rw [hstat] at hfound hfiles hhandles
    dsimp only at hfound hfiles hhandles ⊢
    split
    · exact ⟨rfl, Or.inl hfiles, hhandles⟩
    · have hpath : (view.files w').names (mgr.dayPath os w) ≠ none := by
        rw [hfiles]
        exact Option.isSome_iff_ne_none.mp hfound.symm
      have hloop := rotateToArchive_working hos kLogFileMaxNum 0 hpath
      rw [hfiles, hhandles] at hloop
      exact hloop

/-- What holds between two calls: the configured path still has the file `Init`
opened, no file has got a second name, and the open handle, once a line has been
printed, is on a file of the day whose path is current. -/
structure Placed (view : FileView World Handle) (logFilePath : Str) (fs₀ : FileStore Str Char)
    (s : LogFileMgr Handle × World) : Prop where
  path : s.1.logFilePath = logFilePath
  base : (view.files s.2).names logFilePath = some (fs₀.openAppend logFilePath).1
  sole : ∀ f, fs₀.SoleName f → (view.files s.2).SoleName f
  current : s.1.currentLogFilePath = logFilePath ∨
    ∃ d file, d.InCalendar ∧ s.1.currentLogFilePath = rotateLogFilePathWithDay logFilePath d ∧
      s.1.ptrLogFile = some file ∧
      DayFile (view.files s.2) logFilePath d (view.fileOf s.2 file)

theorem Placed.init (hos : os.Working view) (logFilePath : Str) (world : World) :
    Placed view logFilePath (view.files world) (LogFileMgr.init os logFilePath world) := by
  obtain ⟨file, -, hfiles, -⟩ := hos.fopen logFilePath world
  refine ⟨rfl, ?_, fun f hf => ?_, Or.inl rfl⟩
  · show (view.files (os.fopen logFilePath world).2).names logFilePath = _
    rw [hfiles]
    exact FileStore.names_openAppend_self _ _
  · show (view.files (os.fopen logFilePath world).2).SoleName f
    rw [hfiles]
    exact hf.openAppend

/-- The line of a call goes to a file of its day. -/
theorem Placed.handleFor (hos : os.Working view) {logFilePath : Str} {fs₀ : FileStore Str Char}
    {mgr : LogFileMgr Handle} {w : World} (hs : Placed view logFilePath fs₀ (mgr, w))
    (hday : (os.today w).1.InCalendar) :
    ∃ file w₁, mgr.handleFor os (mgr.dayPath os w) (mgr.sizeRotate os w).2 = (some file, w₁) ∧
      (view.files w₁).names logFilePath = some (fs₀.openAppend logFilePath).1 ∧
      (∀ f, fs₀.SoleName f → (view.files w₁).SoleName f) ∧
      DayFile (view.files w₁) logFilePath (os.today w).1 (view.fileOf w₁ file) := by
  obtain ⟨-, harchive, hhandles⟩ := sizeRotate_working hos mgr w
  have hpath : mgr.dayPath os w = rotateLogFilePathWithDay logFilePath (os.today w).1 := by
    rw [dayPath, hs.path]
  have hbase := harchive.names hs.base
    (by rw [hpath]; exact (rotateLogFilePathWithDay_ne logFilePath _).symm)
  have hsole := fun f hf => harchive.soleName (hs.sole f hf)
  unfold LogFileMgr.handleFor
  by_cases hcur : mgr.currentLogFilePath = mgr.dayPath os w
  · -- the handle of an earlier line of this day
    rcases hs.current with hinit | ⟨d, file, hd, hcurrent, hptr, hfile⟩
    · exact absurd (hpath.symm.trans (hcur.symm.trans hinit)) (rotateLogFilePathWithDay_ne _ _)
    · have hsame : d = (os.today w).1 :=
        (rotateLogFilePathWithDay_inj hd hday (hcurrent.symm.trans (hcur.trans hpath))).2
      have hptr : mgr.ptrLogFile = some file := hptr
      rw [if_pos hcur, hptr]
      refine ⟨file, _, rfl, hbase, hsole, ?_⟩
      rw [hhandles, ← hsame]
      exact MayArchive.dayFile hd hday (hpath ▸ harchive) hfile
  · obtain ⟨file, hfile, hfiles, hof⟩ := hos.fopen (mgr.dayPath os w)
      (mgr.closeIfOpen os (mgr.sizeRotate os w).2)
    have hclosed : view.files (mgr.closeIfOpen os (mgr.sizeRotate os w).2) =
        view.files (mgr.sizeRotate os w).2 := by
      unfold closeIfOpen
      cases mgr.ptrLogFile with
      | none => rfl
      | some file => exact hos.fclose file _
    rw [if_neg hcur]
    rcases hopen : os.fopen (mgr.dayPath os w) (mgr.closeIfOpen os (mgr.sizeRotate os w).2)
      with ⟨_ | file', w₁⟩
    · rw [hopen] at hfile
      cases hfile
    · rw [hopen] at hfile hfiles hof
      obtain rfl := Option.some.inj hfile
      rw [hclosed] at hfiles hof
      refine ⟨file', w₁, rfl, ?_, fun f hf => ?_, Or.inl ?_⟩
      · rw [hfiles]
        exact FileStore.names_openAppend_of_some hbase
      · rw [hfiles]
        exact (hsole f hf).openAppend
      · rw [hof, hfiles, ← hpath]
        exact FileStore.names_openAppend_self _ _

/-- The world may change between two calls as long as its files do not. -/
theorem Placed.same {logFilePath : Str} {fs₀ : FileStore Str Char} {mgr : LogFileMgr Handle}
    {w w' : World} (hs : Placed view logFilePath fs₀ (mgr, w)) (h : view.Same w w') :
    Placed view logFilePath fs₀ (mgr, w') := by
  obtain ⟨hfiles, hhandles⟩ := h
  refine ⟨hs.path, ?_, ?_, ?_⟩
  · show (view.files w').names _ = _
    rw [hfiles]
    exact hs.base
  · show ∀ f, _ → (view.files w').SoleName f
    rw [hfiles]
    exact hs.sole
  · show _ ∨ ∃ d file, _ ∧ _ ∧ _ ∧ DayFile (view.files w') _ d (view.fileOf w' file)
    rw [hfiles, hhandles]
    exact hs.current

theorem Placed.step (hos : os.Working view) {logFilePath : Str} {fs₀ : FileStore Str Char}
    {s t : LogFileMgr Handle × World} {c : Str × World} (hs : Placed view logFilePath fs₀ s)
    (hsame : view.Same s.2 c.2) (hday : (os.today c.2).1.InCalendar) {ret : Int}
    (h : s.1.printLog os c.1 c.2 = some (ret, t)) : Placed view logFilePath fs₀ t := by
  obtain ⟨mgr', w'⟩ := t
  have hs' := hs.same hsame
  rcases printLog_returns os h with ⟨hret, hsize, -⟩ | ⟨-, -, file, w₁, hfile, rfl, rfl⟩
  · have hzero := (sizeRotate_working hos s.1 c.2).1
    rw [hsize] at hzero
    exact absurd hzero hret
  · obtain ⟨file', w₁', hfile', hbase, hsole, hplace⟩ := hs'.handleFor hos hday
    obtain ⟨heq, rfl⟩ := Prod.mk.inj (hfile.symm.trans hfile')
    obtain rfl := Option.some.inj heq
    obtain ⟨hfiles, hhandles⟩ := hos.fprintf file (cStr c.1 ++ ['\n']) w₁
    -- printing changes no name and no handle
    refine ⟨hs.path, ?_, fun f hf => ?_, Or.inr ⟨(os.today c.2).1, file, hday, ?_, rfl, ?_⟩⟩
    · show (view.files (os.fprintf file _ w₁)).names _ = _
      rw [hfiles]
      exact hbase
    · show (view.files (os.fprintf file _ w₁)).SoleName f
      rw [hfiles]
      exact (hsole f hf).append
    · show s.1.dayPath os c.2 = _
      rw [dayPath, hs.path]
    · show DayFile (view.files (os.fprintf file _ w₁)) _ _ (view.fileOf (os.fprintf file _ w₁) file)
      rw [hfiles, hhandles]
      exact hplace

/-! ## Runs -/

/-- `Init` and any calls of `PrintLog` on any days with four-digit years, while no
other process touches the files. -/
def dayRuns (os : Posix World Handle) (view : FileView World Handle) (logFilePath : Str)
    (world : World) : TransitionSystem (LogFileMgr Handle × World) (Str × World) :=
  (runs os view.Same logFilePath world).restrict fun _ c => (os.today c.2).1.InCalendar

theorem placed (hos : os.Working view) {logFilePath : Str} {world : World}
    {s : LogFileMgr Handle × World} (hs : (dayRuns os view logFilePath world).Reachable s) :
    Placed view logFilePath (view.files world) s := by
  refine hs.invariant (I := Placed view logFilePath (view.files world)) ?_ ?_
  · rintro s rfl
    exact Placed.init hos logFilePath world
  · rintro s c t hs ⟨hday, hsame, ret, h⟩
    exact hs.step hos hsame hday h

/-- **Each line lands in its own day's file.**  Every call returns 0 and prints its
line through a handle whose file has at that moment the name of the call's day, or
an archive name of it; unless some file had two names before `Init`, it is not the
file `Init` opened and not a file of another day. -/
theorem printLog_dayFile (hos : os.Working view) {logFilePath : Str} {world : World}
    {s : LogFileMgr Handle × World} (hs : (dayRuns os view logFilePath world).Reachable s)
    (logString : Str) {w : World} (hsame : view.Same s.2 w)
    (hday : (os.today w).1.InCalendar) :
    ∃ mgr' file w₁, s.1.printLog os logString w =
        some (0, mgr', os.fprintf file (cStr logString ++ ['\n']) w₁) ∧
      DayFile (view.files w₁) logFilePath (os.today w).1 (view.fileOf w₁ file) ∧
      ((view.files world).SoleName (view.fileOf w₁ file) →
        view.fileOf w₁ file ≠ ((view.files world).openAppend logFilePath).1 ∧
        ∀ d, d.InCalendar → DayFile (view.files w₁) logFilePath d (view.fileOf w₁ file) →
          d = (os.today w).1) := by
  have hplaced := (placed hos hs).same hsame
  obtain ⟨file, w₁, hfile, hbase, hsole, hplace⟩ := hplaced.handleFor hos hday
  refine ⟨⟨s.1.logFilePath, s.1.dayPath os w, some file⟩, file, w₁, ?_, hplace, fun hone => ?_⟩
  · rw [printLog_eq, if_neg (not_not.mpr (sizeRotate_working hos s.1 w).1), hfile]
  · have hsingle := hsole _ hone
    exact ⟨hplace.ne_of_soleName hsingle hbase,
      fun d hd hother => hother.day_unique hd hday hplace hsingle⟩

/-! ## A run -/

/-- The files of a `LogWorld`; a handle is the number of its file. -/
def logWorldView : FileView LogWorld Nat := ⟨LogWorld.files, fun _ file => file⟩

/-- `posix` with a `rename` that never fails. -/
def renamingPosix : Posix LogWorld Nat :=
  { posix with rename := fun old new w => (0, { w with files := w.files.rename old new }) }

theorem renamingPosix_working : renamingPosix.Working logWorldView where
  stat _ _ := ⟨Option.isSome_map, rfl, rfl⟩
  rename _ _ _ _ _ := ⟨rfl, rfl, rfl⟩
  fopen _ _ := ⟨_, rfl, rfl, rfl⟩
  fclose _ _ := rfl
  fprintf _ _ _ := ⟨rfl, rfl⟩
  today _ := ⟨rfl, rfl⟩

/-- The theorem at the second line of a run, a day after the first. -/
theorem printLog_dayFile_nextDay :
    ∃ s₀ s : LogFileMgr Nat × LogWorld,
      (dayRuns renamingPosix logWorldView ['l'] (LogRun.emptyWorld ⟨2024, 1, 1⟩)).Reachable s₀ ∧
      (dayRuns renamingPosix logWorldView ['l'] (LogRun.emptyWorld ⟨2024, 1, 1⟩)).step s₀
        (['a'], s₀.2) s ∧
      ∃ mgr' file w₁, s.1.printLog renamingPosix ['b'] { s.2 with day := ⟨2024, 1, 2⟩ } =
          some (0, mgr', renamingPosix.fprintf file ['b', '\n'] w₁) ∧
      DayFile w₁.files ['l'] ⟨2024, 1, 2⟩ file := by
  let s₀ := LogFileMgr.init renamingPosix ['l'] (LogRun.emptyWorld ⟨2024, 1, 1⟩)
  have hday₁ : (renamingPosix.today s₀.2).1.InCalendar :=
    show (Day.mk 2024 1 1).InCalendar by decide
  have hr₀ : (dayRuns renamingPosix logWorldView ['l']
      (LogRun.emptyWorld ⟨2024, 1, 1⟩)).Reachable s₀ := TransitionSystem.Reachable.initial rfl
  obtain ⟨mgr₁, file₁, w₁, h₁, -⟩ :=
    printLog_dayFile renamingPosix_working hr₀ ['a'] (w := s₀.2) ⟨rfl, rfl⟩ hday₁
  have hstep : (dayRuns renamingPosix logWorldView ['l'] (LogRun.emptyWorld ⟨2024, 1, 1⟩)).step s₀
      (['a'], s₀.2) _ := ⟨hday₁, ⟨rfl, rfl⟩, 0, h₁⟩
  -- the second line
  obtain ⟨mgr₂, file₂, w₂, h₂, hplace, -⟩ := printLog_dayFile renamingPosix_working
    (hr₀.step hstep) ['b']
    (w := { w₁ with day := ⟨2024, 1, 2⟩, files := w₁.files.append file₁ ['a', '\n'] })
    ⟨rfl, rfl⟩ (show (Day.mk 2024 1 2).InCalendar by decide)
  exact ⟨s₀, _, hr₀, hstep, mgr₂, file₂, w₂, h₂, hplace⟩

end LogFileMgr
end MySvrKit
