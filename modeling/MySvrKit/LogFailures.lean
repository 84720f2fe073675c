import MySvrKit.LogRotation

/-! # What failing calls do to the log manager

`LogFileRotate` stores the day's path before the size rotation that may fail, and
`RefreshFilePtr`'s error is dropped.  Both show in later calls: after a failed
rotation the path says that the day's file is open when it is not, and after a
failed `fopen` the next print may go through a null pointer. -/

universe u v

namespace MySvrKit

/-! ## Failed rotations -/

namespace LogFileMgr
variable {World : Type u} {Handle : Type v} (os : Posix World Handle)

/-- Calls of `PrintLog` that fail, one after another, each in a world of its own. -/
def failedCalls : TransitionSystem (LogFileMgr Handle × World) (Str × World) where
  init _ := True
  step s c t := ∃ ret, ret ≠ 0 ∧ s.1.printLog os c.1 c.2 = some (ret, t)

/-- A failed call is a failed `LogFileRotate`: it stores the path of its day, and
nothing else changes. -/
theorem failedCalls_step {s t : LogFileMgr Handle × World} {c : Str × World}
    (h : (failedCalls os).step s c t) :
    (s.1.logFileRotate os c.2).1 ≠ 0 ∧ (s.1.logFileRotate os c.2).2.1 = t.1 ∧
      t.1 = { s.1 with currentLogFilePath := s.1.dayPath os c.2 } := by
  obtain ⟨mgr', w'⟩ := t
  obtain ⟨ret, hret, h⟩ := h
  rcases printLog_returns os h with ⟨-, hsize, rfl⟩ | ⟨hzero, -⟩
  · have hfails : (s.1.sizeRotate os c.2).1 ≠ 0 := by
      rw [hsize]
      exact hret
    rw [logFileRotate_of_fails os hfails]
    exact ⟨hfails, rfl, rfl⟩
  · exact absurd hzero hret

/-- After any number of failed calls the manager is the one before them with the
path of the last of their days. -/
theorem failedCalls_run {s : LogFileMgr Handle × World}
    {run : List ((Str × World) × (LogFileMgr Handle × World))}
    (h : (failedCalls os).IsRun s run) :
    ∀ x ∈ run, x.2.1 = { s.1 with currentLogFilePath := s.1.dayPath os x.1.2 } := by
  induction run generalizing s with
  | nil =>
    intro x hx
    cases hx
  | cons y run ih =>
    obtain ⟨c, t⟩ := y
    obtain ⟨hstep, hrest⟩ := h
    obtain ⟨-, -, ht⟩ := failedCalls_step os hstep
    intro x hx
    rcases List.mem_cons.mp hx with rfl | hx
    · exact ht
    · have hlater := ih hrest x hx
      rw [ht] at hlater
      exact hlater

/-- **Failed rotations leave the manager able to rotate exactly where no day change
is among them.**  In every state reached, after any failed calls: each left the path
and the handle as they were, and any later call does what it would have done without
them, iff each failed call found the path of its day already stored. -/
theorem failedCalls_harmless_iff {between : World → World → Prop} {logFilePath : Str}
    {world : World} {s : LogFileMgr Handle × World}
    (hs : (runs os between logFilePath world).Reachable s)
    {run : List ((Str × World) × (LogFileMgr Handle × World))}
    (hrun : (failedCalls os).IsRun s run) :
    (∀ x ∈ run, (x.2.1.currentLogFilePath = s.1.currentLogFilePath ∧
        x.2.1.ptrLogFile = s.1.ptrLogFile) ∧
        ∀ logString w, x.2.1.printLog os logString w = s.1.printLog os logString w) ↔
      ∀ x ∈ run,
        rotateLogFilePathWithDay logFilePath (os.today x.1.2).1 = s.1.currentLogFilePath := by
  have hpath := logFilePath_of_reachable os hs
  have hafter := failedCalls_run os hrun
  constructor
  · intro h x hx
    have hcurrent := (h x hx).1.1
    rw [hafter x hx] at hcurrent
    rw [← hpath]
    exact hcurrent
  · intro h x hx
    have hday : s.1.dayPath os x.1.2 = s.1.currentLogFilePath := by
      rw [dayPath, hpath]
      exact h x hx
    have hsame : x.2.1 = s.1 := by rw [hafter x hx, hday]
    rw [hsame]
    exact ⟨⟨rfl, rfl⟩, fun _ _ => rfl⟩

end LogFileMgr

/-! ### A rotation that fails on a new day -/

namespace LogFileMgr
open LogRun (secondDay fullDay size?_fullDay)

/-- The size rotation of a call on 2 January, after `Init`. -/
theorem sizeRotate_fullDay (mgr : LogFileMgr Nat) (hpath : mgr.logFilePath = ['l'])
    (renameFails : Bool) :
    mgr.sizeRotate posix { (init posix ['l'] fullDay).2 with renameFails } =
      if renameFails then (-1, { (init posix ['l'] fullDay).2 with renameFails })
      else (0, { (init posix ['l'] fullDay).2 with
        renameFails
        files :=
          (init posix ['l'] fullDay).2.files.rename secondDay (archivePath secondDay 0) }) := by
  have hday : mgr.dayPath posix { (init posix ['l'] fullDay).2 with renameFails } = secondDay := by
    show rotateLogFilePathWithDay mgr.logFilePath _ = _
    rw [hpath]
    rfl
  have hsize : ({ (init posix ['l'] fullDay).2 with renameFails } : LogWorld).files.size?
      secondDay = some kLogFileMaxSizeByte := size?_fullDay
  exact sizeRotate_full hday hsize (Nat.le_refl _) rfl

/-- A call there where `rename` fails. -/
theorem printLog_fullDay (mgr : LogFileMgr Nat) (hpath : mgr.logFilePath = ['l']) :
    mgr.printLog posix ['a'] { (init posix ['l'] fullDay).2 with renameFails := true } =
      some (-1, { mgr with currentLogFilePath := secondDay },
        { (init posix ['l'] fullDay).2 with renameFails := true }) := by
  have hfails := sizeRotate_fullDay mgr hpath true
  rw [if_pos rfl] at hfails
  rw [printLog_of_fails posix _ (by rw [hfails]; decide), hfails]
  unfold secondDay
  rw [← hpath]
  rfl

/-- The theorem at the second of two failed calls on one day. -/
theorem failedCalls_harmless_again :
    ∃ s t : LogFileMgr Nat × LogWorld, (runs posix (fun _ _ => True) ['l'] fullDay).Reachable s ∧
      s.1.currentLogFilePath = secondDay ∧ (failedCalls posix).step s (['a'], s.2) t ∧
      t.1.currentLogFilePath = s.1.currentLogFilePath ∧ t.1.ptrLogFile = s.1.ptrLogFile := by
  let s₀ := init posix ['l'] fullDay
  let s₁ : LogFileMgr Nat × LogWorld :=
    (⟨['l'], secondDay, some 1⟩, { s₀.2 with renameFails := true })
  have h₁ : s₀.1.printLog posix ['a'] { s₀.2 with renameFails := true } = some (-1, s₁) :=
    printLog_fullDay s₀.1 rfl
  have h₂ : s₁.1.printLog posix ['a'] s₁.2 = some (-1, s₁) := printLog_fullDay s₁.1 rfl
  have hr₀ : (runs posix (fun _ _ => True) ['l'] fullDay).Reachable s₀ :=
    TransitionSystem.Reachable.initial rfl
  have hr : (runs posix (fun _ _ => True) ['l'] fullDay).Reachable s₁ :=
    hr₀.step (l := (['a'], s₁.2)) ⟨trivial, -1, h₁⟩
  have hstep : (failedCalls posix).step s₁ (['a'], s₁.2) s₁ := ⟨-1, by decide, h₂⟩
  have hrun : (failedCalls posix).IsRun s₁ [((['a'], s₁.2), s₁)] := ⟨hstep, trivial⟩
  have hharmless := (failedCalls_harmless_iff posix hr hrun).mpr (by
    intro x hx
    rw [List.mem_singleton.mp hx]
    rfl)
  exact ⟨s₁, s₁, hr, rfl, hstep, (hharmless _ (List.mem_singleton_self _)).1⟩

/-- After one failed call on the new day the line goes to the file `Init` opened;
without the call it goes to the file of the day. -/
theorem failedCalls_misplace :
    ∃ s t, (runs posix (fun _ _ => True) ['l'] fullDay).Reachable s ∧
      (failedCalls posix).step s (['a'], { s.2 with renameFails := true }) t ∧
      t.1.currentLogFilePath ≠ s.1.currentLogFilePath ∧
      ∃ r r', t.1.printLog posix ['a'] s.2 = some (0, r) ∧
        s.1.printLog posix ['a'] s.2 = some (0, r') ∧
        r.1.ptrLogFile = some 1 ∧ r.2.files.names ['l'] = some 1 ∧
        r'.1.ptrLogFile = some 2 ∧ r'.2.files.names secondDay = some 2 := by
  let s := init posix ['l'] fullDay
  let renamed := s.2.files.rename secondDay (archivePath secondDay 0)
  let mgr : LogFileMgr Nat := ⟨['l'], secondDay, some 1⟩
  have hfailed : s.1.printLog posix ['a'] { s.2 with renameFails := true } =
      some (-1, mgr, { s.2 with renameFails := true }) := printLog_fullDay s.1 rfl
  have hworks : s.1.sizeRotate posix s.2 = (0, { s.2 with files := renamed }) :=
    sizeRotate_fullDay s.1 rfl false
  have hworks' : mgr.sizeRotate posix s.2 = (0, { s.2 with files := renamed }) :=
    sizeRotate_fullDay mgr rfl false
  have hsame : mgr.currentLogFilePath = mgr.dayPath posix s.2 := rfl
  have hnew : s.1.currentLogFilePath ≠ s.1.dayPath posix s.2 :=
    (rotateLogFilePathWithDay_ne ['l'] _).symm
  -- the stored path is the day's, so nothing is opened
  have hafter : mgr.printLog posix ['a'] s.2 =
      some (0, mgr, { s.2 with files := renamed.append 1 ['a', '\n'] }) := by
    rw [printLog_eq, hworks', if_neg (by decide), handleFor, if_pos hsame]
    rfl
  have hwithout : s.1.printLog posix ['a'] s.2 =
      some (0, ⟨['l'], secondDay, some (renamed.openAppend secondDay).1⟩,
        { s.2 with
          files := (renamed.openAppend secondDay).2.append (renamed.openAppend secondDay).1
            ['a', '\n'] }) := by
    have hopen : posix.fopen (s.1.dayPath posix s.2)
        (s.1.closeIfOpen posix { s.2 with files := renamed }) =
          (some (renamed.openAppend secondDay).1,
            { s.2 with files := (renamed.openAppend secondDay).2 }) := rfl
    rw [printLog_eq, hworks, if_neg (by decide), handleFor, if_neg hnew, hopen]
    rfl
  have hnumber : (renamed.openAppend secondDay).1 = 2 :=
    (FileStore.openAppend_of_none (FileStore.names_rename_old (archivePath_ne secondDay 0))).1
  refine ⟨s, (mgr, { s.2 with renameFails := true }), TransitionSystem.Reachable.initial rfl,
    ⟨-1, by decide, hfailed⟩, rotateLogFilePathWithDay_ne ['l'] ⟨2024, 1, 2⟩, _, _, hafter,
    hwithout, rfl, rfl, congrArg some hnumber, ?_⟩
  show (renamed.openAppend secondDay).2.names secondDay = some 2
  rw [FileStore.names_openAppend_self, hnumber]

end LogFileMgr

/-! ## Files that do not open -/

/-- `os`, with a list of the handles that are open. -/
def Posix.tracked {World : Type u} {Handle : Type v} [DecidableEq Handle]
    (os : Posix World Handle) : Posix (World × List Handle) Handle where
  stat p w := ((os.stat p w.1).1, (os.stat p w.1).2, w.2)
  rename old new w := ((os.rename old new w.1).1, (os.rename old new w.1).2, w.2)
  fopen p w := ((os.fopen p w.1).1, (os.fopen p w.1).2, (os.fopen p w.1).1.toList ++ w.2)
  fclose file w := (os.fclose file w.1, w.2.erase file)
  fprintf file text w := (os.fprintf file text w.1, w.2)
  today w := ((os.today w.1).1, (os.today w.1).2, w.2)

namespace LogFileMgr
variable {World : Type u} {Handle : Type v}

/-- The call finds the size rotation failing, or a file open under its path, or one
of its calls of `fopen` succeeding. -/
def FindsFile (os : Posix World Handle) (mgr : LogFileMgr Handle) (w : World) : Prop :=
  (mgr.sizeRotate os w).1 ≠ 0 ∨
    (mgr.currentLogFilePath = mgr.dayPath os w ∧
      (mgr.ptrLogFile.isSome = true ∨
        (os.fopen (mgr.dayPath os w) (mgr.sizeRotate os w).2).1.isSome = true)) ∨
    (mgr.currentLogFilePath ≠ mgr.dayPath os w ∧
      ((os.fopen (mgr.dayPath os w) (mgr.closeIfOpen os (mgr.sizeRotate os w).2)).1.isSome = true ∨
        (os.fopen (mgr.dayPath os w) (os.fopen (mgr.dayPath os w)
          (mgr.closeIfOpen os (mgr.sizeRotate os w).2)).2).1.isSome = true))

theorem handleFor_isSome_iff (os : Posix World Handle) (mgr : LogFileMgr Handle) (path : Str)
    (w : World) :
    (mgr.handleFor os path w).1.isSome = true ↔
      (mgr.currentLogFilePath = path ∧
        (mgr.ptrLogFile.isSome = true ∨ (os.fopen path w).1.isSome = true)) ∨
      (mgr.currentLogFilePath ≠ path ∧
        ((os.fopen path (mgr.closeIfOpen os w)).1.isSome = true ∨
          (os.fopen path (os.fopen path (mgr.closeIfOpen os w)).2).1.isSome = true)) := by
  by_cases hpath : mgr.currentLogFilePath = path
  · cases hptr : mgr.ptrLogFile <;> simp [handleFor, hpath, hptr]
  · rcases hopen : os.fopen path (mgr.closeIfOpen os w) with ⟨_ | file, w'⟩ <;>
      simp [handleFor, hpath, hopen]

/-- A call has a result exactly where it finds a file. -/
theorem printLog_isSome_iff (os : Posix World Handle) (mgr : LogFileMgr Handle)
    (logString : Str) (w : World) :
    (mgr.printLog os logString w).isSome = true ↔ mgr.FindsFile os w := by
  rw [printLog_eq, FindsFile, ← handleFor_isSome_iff]
  by_cases hret : (mgr.sizeRotate os w).1 = 0
  · rw [if_neg (not_not.mpr hret)]
    rcases mgr.handleFor os (mgr.dayPath os w) (mgr.sizeRotate os w).2 with ⟨_ | file, w₁⟩
    · simp [hret]
    · simp [hret]
  · rw [if_pos hret]
    simp [hret]

/-! ### The open handles -/

section
variable [DecidableEq Handle] {os : Posix World Handle}

theorem rotateToArchive_handles (path : Str) (remaining i : Nat) (w : World × List Handle) :
    (rotateToArchive os.tracked path remaining i w).2.2 = w.2 := by
  induction remaining generalizing i w with
  | zero => rfl
  | succ remaining ih =>
    simp only [rotateToArchive]
    rcases hstat : os.tracked.stat (archivePath path i) w with ⟨_ | size, w'⟩
    · have hkept : w'.2 = w.2 := (congrArg (fun r => r.2.2) hstat).symm
      exact hkept
    · have hkept : w'.2 = w.2 := (congrArg (fun r => r.2.2) hstat).symm
      exact (ih (i + 1) w').trans hkept

theorem sizeRotate_handles (mgr : LogFileMgr Handle) (w : World × List Handle) :
    (mgr.sizeRotate os.tracked w).2.2 = w.2 := by
  unfold sizeRotate rotateLogFilePathWithSize
  rcases hstat : os.tracked.stat (mgr.dayPath os.tracked w) (os.tracked.today w).2
    with ⟨_ | size, w'⟩
  · have hkept : w'.2 = w.2 := (congrArg (fun r => r.2.2) hstat).symm
    exact hkept
  · have hkept : w'.2 = w.2 := (congrArg (fun r => r.2.2) hstat).symm
    dsimp only
    split
    · exact hkept
    · exact (rotateToArchive_handles _ _ _ w').trans hkept

/-- The only open handle is the one in `ptr_log_file_`, through the opening and
closing of a call too. -/
theorem handleFor_handles {mgr : LogFileMgr Handle} {w w₁ : World × List Handle} {path : Str}
    {found : Option Handle} (hw : w.2 = mgr.ptrLogFile.toList)
    (h : mgr.handleFor os.tracked path w = (found, w₁)) : w₁.2 = found.toList := by
  -- `fopen` where no handle is open
  have hfopen : ∀ {w w₁ : World × List Handle} {found : Option Handle}, w.2 = [] →
      os.tracked.fopen path w = (found, w₁) → w₁.2 = found.toList := by
    intro w w₁ found hw h
    obtain ⟨hfound, rfl⟩ := Prod.mk.inj h
    show (os.fopen path w.1).1.toList ++ w.2 = found.toList
    rw [hw, List.append_nil, hfound]
  have hclosed : (mgr.closeIfOpen os.tracked w).2 = [] := by
    unfold closeIfOpen
    cases hptr : mgr.ptrLogFile with
    | none =>
      rw [hptr] at hw
      exact hw
    | some file =>
      rw [hptr] at hw
      show w.2.erase file = []
      rw [hw]
      simp
  unfold handleFor at h
  split at h
  · cases hptr : mgr.ptrLogFile with
    | none =>
      rw [hptr] at h hw
      exact hfopen hw h
    | some file =>
      rw [hptr] at h hw
      obtain ⟨rfl, rfl⟩ := Prod.mk.inj h
      exact hw
  · rcases hopen : os.tracked.fopen path (mgr.closeIfOpen os.tracked w) with ⟨_ | file, w'⟩
    · rw [hopen] at h
      exact hfopen (hfopen hclosed hopen) h
    · rw [hopen] at h
      obtain ⟨rfl, rfl⟩ := Prod.mk.inj h
      exact hfopen hclosed hopen

/-- `Init` and any calls of `PrintLog`, any outcome of the calls they make. -/
def trackedRuns (os : Posix World Handle) (logFilePath : Str) (world : World) :
    TransitionSystem (LogFileMgr Handle × (World × List Handle))
      (Str × (World × List Handle)) :=
  runs os.tracked (fun w w' => w'.2 = w.2) logFilePath (world, [])

theorem handles_eq {logFilePath : Str} {world : World}
    {s : LogFileMgr Handle × (World × List Handle)}
    (hs : (trackedRuns os logFilePath world).Reachable s) :
    s.2.2 = s.1.ptrLogFile.toList := by
  refine hs.invariant (I := fun s => s.2.2 = s.1.ptrLogFile.toList) ?_ ?_
  · rintro s rfl
    exact List.append_nil _
  · rintro s c ⟨mgr', w'⟩ hs ⟨hsame, ret, h⟩
    have hrotated : (s.1.sizeRotate os.tracked c.2).2.2 = s.1.ptrLogFile.toList :=
      (sizeRotate_handles s.1 c.2).trans (hsame.trans hs)
    rcases printLog_returns os.tracked h with ⟨-, hsize, rfl⟩ | ⟨-, -, file, w₁, hfile, rfl, rfl⟩
    · rw [hsize] at hrotated
      exact hrotated
    · have hopen : w₁.2 = [file] := handleFor_handles hrotated hfile
      exact hopen

/-- **`PrintLog` reports success only for a written line, exactly where it finds a
file.**  In every state of every run: a call returns (it does not print through a
null pointer), a return of 0 has appended the line through an open handle, and a
return with no file open is not 0, iff the size rotation failed, a file was open
under the call's path, or one of its `fopen`s succeeded. -/
theorem printLog_writes_iff {logFilePath : Str} {world : World}
    {s : LogFileMgr Handle × (World × List Handle)}
    (hs : (trackedRuns os logFilePath world).Reachable s) (logString : Str)
    {w : World × List Handle} (hw : w.2 = s.2.2) :
    (∃ ret mgr' w', s.1.printLog os.tracked logString w = some (ret, mgr', w') ∧
        (ret = 0 → ∃ file w₁, mgr'.ptrLogFile = some file ∧ file ∈ w₁.2 ∧
          w' = os.tracked.fprintf file (cStr logString ++ ['\n']) w₁) ∧
        (mgr'.ptrLogFile = none → ret ≠ 0)) ↔
      s.1.FindsFile os.tracked w := by
  rw [← printLog_isSome_iff os.tracked s.1 logString w]
  constructor
  · rintro ⟨ret, mgr', w', h, -, -⟩
    rw [h]
    rfl
  · intro h
    obtain ⟨⟨ret, mgr', w'⟩, h⟩ := Option.isSome_iff_exists.mp h
    refine ⟨ret, mgr', w', h, ?_⟩
    have hrotated : (s.1.sizeRotate os.tracked w).2.2 = s.1.ptrLogFile.toList :=
      (sizeRotate_handles s.1 w).trans (hw.trans (handles_eq hs))
    rcases printLog_returns os.tracked h with ⟨hret, -, -⟩ | ⟨rfl, -, file, w₁, hfile, rfl, rfl⟩
    · exact ⟨fun hzero => absurd hzero hret, fun _ => hret⟩
    · have hopen : w₁.2 = [file] := handleFor_handles hrotated hfile
      refine ⟨fun _ => ⟨file, w₁, rfl, ?_, rfl⟩, fun hnull => ?_⟩
      · rw [hopen]
        exact List.mem_singleton_self file
      · cases hnull

end

/-- The theorem at the first line of a run whose files open. -/
theorem printLog_writes_firstLine :
    ∃ ret mgr' w', (init posix.tracked ['l'] (LogRun.emptyWorld ⟨2024, 1, 1⟩, [])).1.printLog
        posix.tracked ['a']
        (init posix.tracked ['l'] (LogRun.emptyWorld ⟨2024, 1, 1⟩, [])).2 = some (ret, mgr', w') ∧
      (mgr'.ptrLogFile = none → ret ≠ 0) := by
  have hr : (trackedRuns posix ['l'] (LogRun.emptyWorld ⟨2024, 1, 1⟩)).Reachable
      (init posix.tracked ['l'] (LogRun.emptyWorld ⟨2024, 1, 1⟩, [])) :=
    TransitionSystem.Reachable.initial rfl
  obtain ⟨ret, mgr', w', h, -, hnull⟩ := (printLog_writes_iff hr ['a'] rfl).mpr
      (Or.inr (Or.inr ⟨(rotateLogFilePathWithDay_ne ['l'] ⟨2024, 1, 1⟩).symm, Or.inl rfl⟩))
  exact ⟨ret, mgr', w', h, hnull⟩

/-- `posix` in a directory that does not exist. -/
def noDirectory : Posix LogWorld Nat :=
  { posix with fopen := fun _ w => (none, w) }

/-- The first line there is printed through a null pointer. -/
theorem printLog_nullFile :
    ∃ s, (trackedRuns noDirectory ['d', '/', 'l'] (LogRun.emptyWorld ⟨2024, 1, 1⟩)).Reachable s ∧
      s.1.printLog noDirectory.tracked ['a'] s.2 = none :=
  ⟨_, TransitionSystem.Reachable.initial rfl, by decide⟩

end LogFileMgr

end MySvrKit
