import MySvrKit.FileStore
import MySvrKit.LogRuns

/-! # Rotation loses nothing

`LogFileMgr` over a file system of names and files, for runs of `PrintLog` calls
with any days and any failures of `rename`.  A rename onto an existing name would
replace a file; the search loop of `RotateLogFilePathWithSize` only renames to a
name that `stat` has just not found. -/

namespace MySvrKit

/-- The world `LogFileMgr` runs in: the file system, the day, and whether `rename`
fails. -/
structure LogWorld where
  files : FileStore Str Char
  day : Day
  renameFails : Bool

/-- The system calls on that world; `fopen` succeeds, and a handle is the number
of the open file. -/
def posix : Posix LogWorld Nat where
  stat p w := (w.files.size? p, w)
  rename old new w :=
    if w.renameFails || (w.files.names old).isNone then (-1, w)
    else (0, { w with files := w.files.rename old new })
  fopen p w := (some (w.files.openAppend p).1, { w with files := (w.files.openAppend p).2 })
  fclose _ w := w
  fprintf file text w := { w with files := w.files.append file text }
  today w := (w.day, w)

theorem posix_fopen_isSome (p : Str) (w : LogWorld) : (posix.fopen p w).1.isSome = true := rfl

/-- No call but `fprintf` loses anything, and `fprintf` only extends a file. -/
theorem posix_keeps : posix.Keeps fun w w' => w.files.Preserves w'.files where
  refl w := FileStore.Preserves.refl w.files
  trans := FileStore.Preserves.trans
  stat _ w := FileStore.Preserves.refl w.files
  rename old new w hfree := by
    have hnone : w.files.names new = none := FileStore.size?_eq_none_iff.mp hfree
    show w.files.Preserves (posix.rename old new w).2.files
    unfold posix
    dsimp only
    split
    · exact FileStore.Preserves.refl _
    · exact FileStore.preserves_rename hnone
  fopen p w := FileStore.preserves_openAppend w.files p
  fclose _ w := FileStore.Preserves.refl w.files
  today w := FileStore.Preserves.refl w.files

theorem printLog_preserves {mgr mgr' : LogFileMgr Nat} {logString : Str} {w w' : LogWorld}
    {ret : Int} (h : mgr.printLog posix logString w = some (ret, mgr', w')) :
    w.files.Preserves w'.files := by
  rcases LogFileMgr.printLog_cases posix_keeps h with ⟨-, hk⟩ | ⟨-, file, w₁, hk, -, rfl⟩
  · exact hk
  · exact hk.trans (FileStore.preserves_append _ file _)

/-! ## The name a size rotation takes -/

/-- The least archive number below `kLogFileMaxNum` whose name is free. -/
def freeArchive (fs : FileStore Str Char) (p : Str) : Option Nat :=
  (List.range kLogFileMaxNum).find? fun i => (fs.names (archivePath p i)).isNone

theorem freeArchive_eq_some_iff {fs : FileStore Str Char} {p : Str} {i : Nat} :
    freeArchive fs p = some i ↔ i < kLogFileMaxNum ∧ fs.names (archivePath p i) = none ∧
      ∀ j, j < i → fs.names (archivePath p j) ≠ none := by
  simp [freeArchive, Option.isSome_iff_ne_none]
  tauto

theorem freeArchive_eq_none_iff {fs : FileStore Str Char} {p : Str} :
    freeArchive fs p = none ↔
      ∀ i, i < kLogFileMaxNum → fs.names (archivePath p i) ≠ none := by
  simp [freeArchive]

/-- The search loop renames to the first free name of those it tries. -/
theorem rotateToArchive_posix (p : Str) (remaining i : Nat) (w : LogWorld) :
    rotateToArchive posix p remaining i w =
      match (List.range' i remaining).find? fun j =>
          (w.files.names (archivePath p j)).isNone with
      | some j => posix.rename p (archivePath p j) w
      | none => (0, w) := by
  induction remaining generalizing i with
  | zero => rfl
  | succ remaining ih =>
    rw [List.range'_succ, List.find?_cons]
    cases hn : w.files.names (archivePath p i) with
    | none =>
      -- `stat` fails, so this is the name the loop takes
      have hstat : posix.stat (archivePath p i) w = (none, w) :=
        congrArg (·, w) (FileStore.size?_eq_none_iff.mpr hn)
      simp only [rotateToArchive, hstat, Option.isNone_none]
    | some f =>
      have hstat : posix.stat (archivePath p i) w = (some (w.files.content f).length, w) :=
        congrArg (·, w) (FileStore.size?_eq_some_iff.mpr ⟨f, hn, rfl⟩)
      simp only [rotateToArchive, hstat, Option.isNone_some, ih]

/-- **One size rotation.**  Below the size nothing happens; at the size the file
goes to the least free archive name, if there is one and `rename` works. -/
theorem rotateLogFilePathWithSize_posix (p : Str) (w : LogWorld) :
    rotateLogFilePathWithSize posix p w =
      if ∃ k, w.files.size? p = some k ∧ kLogFileMaxSizeByte ≤ k then
        match freeArchive w.files p with
        | some i =>
            if w.renameFails then (-1, w)
            else (0, { w with files := w.files.rename p (archivePath p i) })
        | none => (0, w)
      else (0, w) := by
  have hstat : posix.stat p w = (w.files.size? p, w) := rfl
  cases hsize : w.files.size? p with
  | none => simp [rotateLogFilePathWithSize, hstat, hsize]
  | some k =>
    obtain ⟨f, hf, -⟩ := FileStore.size?_eq_some_iff.mp hsize
    by_cases hk : k < kLogFileMaxSizeByte
    · simp [rotateLogFilePathWithSize, hstat, hsize, hk, Nat.not_le.mpr hk]
    · simp only [rotateLogFilePathWithSize, hstat, hsize, hk, if_false, Option.some.injEq,
        exists_eq_left', Nat.le_of_not_lt hk, if_true, rotateToArchive_posix, freeArchive,
        List.range_eq_range']
      split
      · simp [posix, hf]
      · rfl

/-- A full file whose first archive name is free. -/
theorem rotateLogFilePathWithSize_full {p : Str} {w : LogWorld} {k : Nat}
    (hsize : w.files.size? p = some k) (hbig : kLogFileMaxSizeByte ≤ k)
    (hfree : w.files.names (archivePath p 0) = none) :
    rotateLogFilePathWithSize posix p w =
      if w.renameFails then (-1, w)
      else (0, { w with files := w.files.rename p (archivePath p 0) }) := by
  have hfound : freeArchive w.files p = some 0 :=
    freeArchive_eq_some_iff.mpr ⟨by decide, hfree, fun j hj => absurd hj (Nat.not_lt_zero j)⟩
  rw [rotateLogFilePathWithSize_posix, if_pos ⟨k, hsize, hbig⟩]
  simp only [hfound]

/-- A call of `PrintLog` whose day's file is full. -/
theorem LogFileMgr.sizeRotate_full {mgr : LogFileMgr Nat} {w : LogWorld} {p : Str} {k : Nat}
    (hpath : mgr.dayPath posix w = p) (hsize : w.files.size? p = some k)
    (hbig : kLogFileMaxSizeByte ≤ k) (hfree : w.files.names (archivePath p 0) = none) :
    mgr.sizeRotate posix w =
      if w.renameFails then (-1, w)
      else (0, { w with files := w.files.rename p (archivePath p 0) }) := by
  subst hpath
  exact rotateLogFilePathWithSize_full hsize hbig hfree

/-- **What a size rotation of `p` does to the names**: it moves `p` to the least
free archive name if the file has reached the size, some archive name is free and
`rename` works, and otherwise does nothing. -/
structure SizeRotation (p : Str) (w w' : LogWorld) : Prop where
  content : w'.files.content = w.files.content
  moves : ∀ k i, w.files.size? p = some k → kLogFileMaxSizeByte ≤ k → i < kLogFileMaxNum →
    w.files.names (archivePath p i) = none →
    (∀ j, j < i → w.files.names (archivePath p j) ≠ none) → w.renameFails = false →
    ∀ n, w'.files.names n =
      if n = archivePath p i then w.files.names p else if n = p then none else w.files.names n
  small : (∀ k, w.files.size? p = some k → k < kLogFileMaxSizeByte) → w' = w
  taken : (∀ i, i < kLogFileMaxNum → w.files.names (archivePath p i) ≠ none) → w' = w
  fails : w.renameFails = true → w' = w

theorem sizeRotation (p : Str) (w : LogWorld) :
    SizeRotation p w (rotateLogFilePathWithSize posix p w).2 := by
  rw [rotateLogFilePathWithSize_posix]
  refine ⟨?content, ?moves, ?small, ?taken, ?fails⟩
  case content => repeat' first | split | rfl
  case moves =>
    intro k i hk hbig hi hfree hleast hwork n
    have hfound : freeArchive w.files p = some i := freeArchive_eq_some_iff.mpr ⟨hi, hfree, hleast⟩
    simp only [hk, Option.some.injEq, exists_eq_left', hbig, if_true, hfound, hwork,
      Bool.false_eq_true, if_false]
    rfl
  case small =>
    intro hsmall
    rw [if_neg]
    rintro ⟨k, hk, hbig⟩
    exact absurd (hsmall k hk) (Nat.not_lt.mpr hbig)
  case taken =>
    intro htaken
    rw [freeArchive_eq_none_iff.mpr htaken]
    split <;> rfl
  case fails =>
    intro hfails
    simp only [hfails, if_true]
    repeat' first | split | rfl

/-! ## Runs -/

/-- One call of `PrintLog`: the line, the day, and whether `rename` fails. -/
structure PrintCall where
  logString : Str
  day : Day
  renameFails : Bool

/-- `LogFileMgr` and its world between two calls. -/
structure LogRun where
  mgr : LogFileMgr Nat
  world : LogWorld

namespace LogRun

/-- The file system between two calls. -/
abbrev files (s : LogRun) : FileStore Str Char := s.world.files

/-- The world a call meets. -/
def meets (s : LogRun) (c : PrintCall) : LogWorld :=
  { s.world with day := c.day, renameFails := c.renameFails }

/-- `PrintLog`. -/
def printLog (s : LogRun) (c : PrintCall) : Option (Int × LogRun) :=
  (s.mgr.printLog posix c.logString (s.meets c)).map fun r => (r.1, ⟨r.2.1, r.2.2⟩)

/-- `LogFileMgr::Init` and then any calls of `PrintLog`. -/
def runs (logFilePath : Str) (world : LogWorld) : TransitionSystem LogRun PrintCall where
  init s := s = ⟨(LogFileMgr.init posix logFilePath world).1,
    (LogFileMgr.init posix logFilePath world).2⟩
  step s c t := ∃ ret, s.printLog c = some (ret, t)

variable {logFilePath : Str} {world : LogWorld} {s t : LogRun} {c : PrintCall}

theorem step_preserves (h : (runs logFilePath world).step s c t) : s.files.Preserves t.files := by
  obtain ⟨ret, h⟩ := h
  obtain ⟨r, hr, heq⟩ := Option.map_eq_some_iff.mp h
  obtain ⟨rfl, rfl⟩ := Prod.mk.inj heq
  exact printLog_preserves (w := s.meets c) hr

/-- From any state of a run on, nothing is lost. -/
theorem reaches_preserves (hs : (runs logFilePath world).Reachable s)
    (h : (runs logFilePath world).Reaches s t) : s.files.Preserves t.files :=
  h.relates hs (R := fun a b => a.files.Preserves b.files) (fun _ => FileStore.Preserves.refl _)
    (fun _ _ _ => FileStore.Preserves.trans) fun _ _ _ _ hstep => step_preserves hstep

theorem initial_preserves (hs : (runs logFilePath world).Reachable s) :
    world.files.Preserves s.files := by
  refine hs.invariant (I := fun s => world.files.Preserves s.files) ?_ ?_
  · rintro s rfl
    exact FileStore.preserves_openAppend world.files logFilePath
  · exact fun a l b ha hstep => ha.trans (step_preserves hstep)

/-- The path of a call's day. -/
def dayPath (s : LogRun) (c : PrintCall) : Str := rotateLogFilePathWithDay s.mgr.logFilePath c.day

/-- Where the line of a successful call goes: to the file of the day's path, opened
now, or to the open file if the path has not changed. -/
def PrintsTo (s : LogRun) (c : PrintCall) (w : LogWorld) (file : Nat)
    (files : FileStore Str Char) : Prop :=
  (¬ (s.mgr.currentLogFilePath = s.dayPath c ∧ s.mgr.ptrLogFile.isSome = true) ∧
      w.files.openAppend (s.dayPath c) = (file, files)) ∨
    (s.mgr.currentLogFilePath = s.dayPath c ∧ s.mgr.ptrLogFile = some file ∧ files = w.files)

theorem refreshFilePtr_posix (mgr : LogFileMgr Nat) (w : LogWorld) :
    mgr.refreshFilePtr posix w =
      (0, { mgr with ptrLogFile := some (w.files.openAppend mgr.currentLogFilePath).1 },
        { w with files := (w.files.openAppend mgr.currentLogFilePath).2 }) := by
  unfold LogFileMgr.refreshFilePtr
  cases mgr.ptrLogFile <;> rfl

/-- **One call of `PrintLog`**: the size rotation of the day's path, and where that
returns 0 the line. -/
theorem printLog_posix {ret : Int} (h : s.printLog c = some (ret, t)) :
    ∃ w, rotateLogFilePathWithSize posix (s.dayPath c) (s.meets c) = (ret, w) ∧
      t.mgr.logFilePath = s.mgr.logFilePath ∧ t.mgr.currentLogFilePath = s.dayPath c ∧
      ((ret ≠ 0 ∧ t.mgr.ptrLogFile = s.mgr.ptrLogFile ∧ t.files = w.files) ∨
        (ret = 0 ∧ ∃ file files, s.PrintsTo c w file files ∧ t.mgr.ptrLogFile = some file ∧
          t.files = files.append file (cStr c.logString ++ ['\n']))) := by
  obtain ⟨r, hr, heq⟩ := Option.map_eq_some_iff.mp h
  obtain ⟨rfl, rfl⟩ := Prod.mk.inj heq
  rcases hrot : rotateLogFilePathWithSize posix (s.dayPath c) (s.meets c) with ⟨ret, w⟩
  have hday : posix.today (s.meets c) = (c.day, s.meets c) := rfl
  simp only [LogFileMgr.printLog, LogFileMgr.logFileRotate, hday] at hr
  change rotateLogFilePathWithSize posix
    (rotateLogFilePathWithDay s.mgr.logFilePath c.day) (s.meets c) = (ret, w) at hrot
  rw [hrot] at hr
  by_cases hret : ret = 0
  · by_cases hpath : s.mgr.currentLogFilePath = s.dayPath c
    · -- the same path as before the call: the open file stays, if there is one
      have hsame : ¬ s.mgr.currentLogFilePath ≠
          rotateLogFilePathWithDay s.mgr.logFilePath c.day := fun hne => hne hpath
      simp only [ne_eq, hret, not_true_eq_false, if_false, hsame] at hr
      cases hptr : s.mgr.ptrLogFile with
      | some file =>
        simp only [LogFileMgr.openIfNull, hptr, Option.isNone_some, Bool.false_eq_true, if_false,
          Option.some.injEq] at hr
        subst hr
        exact ⟨w, by rw [hret], rfl, rfl, Or.inr ⟨rfl, file, w.files,
          Or.inr ⟨hpath, hptr, rfl⟩, rfl, rfl⟩⟩
      | none =>
        simp only [LogFileMgr.openIfNull, hptr, Option.isNone_none, if_true] at hr
        obtain rfl := Option.some.inj hr
        exact ⟨w, by rw [hret], rfl, rfl, Or.inr ⟨rfl, _, _,
          Or.inl ⟨by simp [hptr], rfl⟩, rfl, rfl⟩⟩
    · have hnew : s.mgr.currentLogFilePath ≠
          rotateLogFilePathWithDay s.mgr.logFilePath c.day := hpath
      simp only [ne_eq, hret, not_true_eq_false, if_false, hnew, not_false_eq_true, if_true,
        refreshFilePtr_posix, LogFileMgr.openIfNull, Option.isNone_some, Bool.false_eq_true] at hr
      obtain rfl := Option.some.inj hr
      exact ⟨w, by rw [hret], rfl, rfl, Or.inr ⟨rfl, _, _,
        Or.inl ⟨fun h => hpath h.1, rfl⟩, rfl, rfl⟩⟩
  · simp only [ne_eq, hret, not_false_eq_true, if_true, Option.some.injEq] at hr
    subst hr
    exact ⟨w, rfl, rfl, rfl, Or.inl ⟨hret, rfl, rfl⟩⟩

/-- `fopen` works, so every call has a result. -/
theorem printLog_total (s : LogRun) (c : PrintCall) : ∃ ret t, s.printLog c = some (ret, t) := by
  have hsome := LogFileMgr.printLog_isSome posix_fopen_isSome s.mgr c.logString (s.meets c)
  obtain ⟨r, hr⟩ := Option.isSome_iff_exists.mp hsome
  exact ⟨r.1, ⟨r.2.1, r.2.2⟩, Option.map_eq_some_iff.mpr ⟨r, hr, rfl⟩⟩

/-- Outside the day's path a call changes the names as its size rotation does, and
the day's path keeps its file if the rotation leaves it one. -/
theorem printLog_names {ret : Int} (h : s.printLog c = some (ret, t)) :
    ∃ w, SizeRotation (s.dayPath c) (s.meets c) w ∧
      (∀ n, n ≠ s.dayPath c → t.files.names n = w.files.names n) ∧
      ∀ f, w.files.names (s.dayPath c) = some f → t.files.names (s.dayPath c) = some f := by
  obtain ⟨w, hrot, -, -, hend⟩ := printLog_posix h
  have hsize := sizeRotation (s.dayPath c) (s.meets c)
  rw [hrot] at hsize
  refine ⟨w, hsize, ?_⟩
  rcases hend with ⟨-, -, hfiles⟩ | ⟨-, file, files, hto, -, hfiles⟩
  · rw [hfiles]
    exact ⟨fun _ _ => rfl, fun _ hf => hf⟩
  · rw [hfiles]
    rcases hto with ⟨-, hopen⟩ | ⟨-, -, hsame⟩
    · -- opening the day's path makes that name, and only if it is not there
      refine ⟨fun n hn => ?_, fun f hf => ?_⟩
      · have hother := FileStore.names_openAppend_other (s := w.files) hn
        rwa [hopen] at hother
      · rw [FileStore.openAppend_of_some hf] at hopen
        obtain ⟨-, rfl⟩ := Prod.mk.inj hopen
        exact hf
    · rw [hsame]
      exact ⟨fun _ _ => rfl, fun _ hf => hf⟩

/-- **Rotation never destroys log data.**  In every run, over every initial file
system: what any name led to at an earlier point is still led to by some name,
possibly longer; and each call changes the names by its size rotation and by
opening the day's path, nothing else. -/
theorem rotation_preserves (hs : (runs logFilePath world).Reachable s) :
    world.files.Preserves s.files ∧
      (∀ t, (runs logFilePath world).Reaches s t → s.files.Preserves t.files) ∧
      ∀ c ret t, s.printLog c = some (ret, t) →
        ∃ w, SizeRotation (s.dayPath c) (s.meets c) w ∧
          (∀ n, n ≠ s.dayPath c → t.files.names n = w.files.names n) ∧
          ∀ f, w.files.names (s.dayPath c) = some f → t.files.names (s.dayPath c) = some f :=
  ⟨initial_preserves hs, fun _ ht => reaches_preserves hs ht, fun _ _ _ h => printLog_names h⟩

/-- A world with no files. -/
def emptyWorld (day : Day) : LogWorld :=
  ⟨⟨fun _ => none, fun _ => [], 0, fun _ _ h => nomatch h⟩, day, false⟩

/-- The path of 2 January. -/
def secondDay : Str := rotateLogFilePathWithDay ['l'] ⟨2024, 1, 2⟩

/-- 2 January, whose log file is full. -/
def fullDay : LogWorld where
  files := {
    names := fun n => if n = secondDay then some 0 else none
    content := fun _ => List.replicate kLogFileMaxSizeByte 'x'
    next := 1
    fresh := by
      intro n f h
      split at h
      · exact Nat.lt_one_iff.mpr (Option.some.inj h).symm
      · cases h }
  day := ⟨2024, 1, 2⟩
  renameFails := false

/-- `Init` leaves the file of that day as it is. -/
theorem size?_fullDay :
    (LogFileMgr.init posix ['l'] fullDay).2.files.size? secondDay = some kLogFileMaxSizeByte := by
  have hname : (LogFileMgr.init posix ['l'] fullDay).2.files.names secondDay = some 0 := rfl
  have hcontent : (LogFileMgr.init posix ['l'] fullDay).2.files.content 0 =
      List.replicate kLogFileMaxSizeByte 'x' := FileStore.content_openAppend Nat.one_pos
  rw [FileStore.size?_of_names hname, hcontent, List.length_replicate]

/-- The theorem at a run whose call rotates the full file of the day: its bytes are under the
archive name then. -/
theorem rotation_preserves_fullDay :
    ∃ s c t, (runs ['l'] fullDay).Reachable s ∧ (runs ['l'] fullDay).step s c t ∧
      s.files.names secondDay = some 0 ∧ s.files.size? secondDay = some kLogFileMaxSizeByte ∧
      t.files.names (archivePath secondDay 0) = some 0 ∧
      s.files.content 0 <+: t.files.content 0 ∧ fullDay.files.Preserves t.files := by
  let s : LogRun := ⟨(LogFileMgr.init posix ['l'] fullDay).1,
    (LogFileMgr.init posix ['l'] fullDay).2⟩
  let c : PrintCall := ⟨['a'], ⟨2024, 1, 2⟩, false⟩
  have hr : (runs ['l'] fullDay).Reachable s := TransitionSystem.Reachable.initial rfl
  obtain ⟨ret, t, hcall⟩ := printLog_total s c
  have hstep : (runs ['l'] fullDay).step s c t := ⟨ret, hcall⟩
  have hname : s.files.names secondDay = some 0 := rfl
  obtain ⟨-, hlater, hnames⟩ := rotation_preserves hr
  obtain ⟨w, hw, hother, -⟩ := hnames c ret t hcall
  -- the rotation takes the first archive name, and opening the day's path leaves it
  have harchive : t.files.names (archivePath secondDay 0) = some 0 := by
    have hday : s.dayPath c = secondDay := rfl
    have hfree : s.files.names (archivePath secondDay 0) = none := rfl
    have hmoved := hw.moves kLogFileMaxSizeByte 0 size?_fullDay (Nat.le_refl _) (by decide) hfree
      (fun j hj => absurd hj (Nat.not_lt_zero j)) rfl (archivePath secondDay 0)
    rw [hday, if_pos rfl] at hmoved
    rw [hother _ (archivePath_ne secondDay 0).symm, hmoved]
    exact hname
  have hkept := hlater t ((TransitionSystem.Reaches.refl s).tail hstep)
  exact ⟨s, c, t, hr, hstep, hname, size?_fullDay, harchive, (hkept _ _ hname).2,
    (rotation_preserves (hr.step hstep)).1⟩

end LogRun
end MySvrKit
