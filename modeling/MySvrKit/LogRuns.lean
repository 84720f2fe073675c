import MySvrKit.LogFileMgr
import MySvrKit.Transition

/-! # Runs of `PrintLog` over any operating system

One equation for `PrintLog`, in terms of the calls it makes, and the runs of
`LogFileMgr` in which each call may meet a world of its own. -/

universe u v

namespace MySvrKit.LogFileMgr
variable {World : Type u} {Handle : Type v} (os : Posix World Handle)

/-- The path a call of `PrintLog` in the world `w` computes for its day. -/
def dayPath (mgr : LogFileMgr Handle) (w : World) : Str :=
  rotateLogFilePathWithDay mgr.logFilePath (os.today w).1

/-- What a call of `PrintLog` in the world `w` gets from its size rotation. -/
def sizeRotate (mgr : LogFileMgr Handle) (w : World) : Int × World :=
  rotateLogFilePathWithSize os (mgr.dayPath os w) (os.today w).2

/-- The world after the `fclose` of `RefreshFilePtr`. -/
def closeIfOpen (mgr : LogFileMgr Handle) (w : World) : World :=
  match mgr.ptrLogFile with
  | some file => os.fclose file w
  | none => w

/-- The handle `PrintLog` has when it prints: the open one if the path is the same,
else what `RefreshFilePtr` opens; the late `fopen` where that is null. -/
def handleFor (mgr : LogFileMgr Handle) (path : Str) (w : World) : Option Handle × World :=
  if mgr.currentLogFilePath = path then
    match mgr.ptrLogFile with
    | some file => (some file, w)
    | none => os.fopen path w
  else
    match os.fopen path (mgr.closeIfOpen os w) with
    | (some file, w) => (some file, w)
    | (none, w) => os.fopen path w

/-- `LogFileRotate` where the size rotation fails: the path has changed, the handle
has not. -/
theorem logFileRotate_of_fails {mgr : LogFileMgr Handle} {w : World}
    (h : (mgr.sizeRotate os w).1 ≠ 0) :
    mgr.logFileRotate os w = ((mgr.sizeRotate os w).1,
      { mgr with currentLogFilePath := mgr.dayPath os w }, (mgr.sizeRotate os w).2) := by
  unfold logFileRotate
  exact if_pos h

theorem logFileRotate_fst (mgr : LogFileMgr Handle) (w : World) :
    (mgr.logFileRotate os w).1 = (mgr.sizeRotate os w).1 := by
  by_cases hret : (mgr.sizeRotate os w).1 = 0
  · rw [hret]
    have hrotate : (rotateLogFilePathWithSize os
        (rotateLogFilePathWithDay mgr.logFilePath (os.today w).1) (os.today w).2).1 = 0 := hret
    simp only [logFileRotate, hrotate, ne_eq, not_true_eq_false, if_false]
    split <;> rfl
  · rw [logFileRotate_of_fails os hret]

theorem printLog_of_fails {mgr : LogFileMgr Handle} {w : World} (logString : Str)
    (h : (mgr.sizeRotate os w).1 ≠ 0) :
    mgr.printLog os logString w = some ((mgr.sizeRotate os w).1,
      { mgr with currentLogFilePath := mgr.dayPath os w }, (mgr.sizeRotate os w).2) := by
  unfold printLog
  rw [logFileRotate_of_fails os h]
  exact if_pos h

/-- `RefreshFilePtr` and the late `fopen`: a file that did not open is tried again. -/
theorem openIfNull_refreshFilePtr (mgr : LogFileMgr Handle) (w : World) :
    (mgr.refreshFilePtr os w).2.1.openIfNull os (mgr.refreshFilePtr os w).2.2 =
      match os.fopen mgr.currentLogFilePath (mgr.closeIfOpen os w) with
      | (some file, w) => ({ mgr with ptrLogFile := some file }, w)
      | (none, w) =>
          ({ mgr with ptrLogFile := (os.fopen mgr.currentLogFilePath w).1 },
            (os.fopen mgr.currentLogFilePath w).2) := by
  show openIfNull os
      { mgr with
        ptrLogFile := (os.fopen mgr.currentLogFilePath (mgr.closeIfOpen os w)).1 }
      (os.fopen mgr.currentLogFilePath (mgr.closeIfOpen os w)).2 = _
  rcases os.fopen mgr.currentLogFilePath (mgr.closeIfOpen os w) with ⟨_ | file, w'⟩
  · rfl
  · rfl

/-- `LogFileRotate` and the late `fopen`, where the size rotation returns 0. -/
theorem openIfNull_logFileRotate {mgr : LogFileMgr Handle} {w : World}
    (h : (mgr.sizeRotate os w).1 = 0) :
    (mgr.logFileRotate os w).2.1.openIfNull os (mgr.logFileRotate os w).2.2 =
      (⟨mgr.logFilePath, mgr.dayPath os w,
          (mgr.handleFor os (mgr.dayPath os w) (mgr.sizeRotate os w).2).1⟩,
        (mgr.handleFor os (mgr.dayPath os w) (mgr.sizeRotate os w).2).2) := by
  have hrotate : (rotateLogFilePathWithSize os
      (rotateLogFilePathWithDay mgr.logFilePath (os.today w).1) (os.today w).2).1 = 0 := h
  by_cases hpath : mgr.currentLogFilePath = mgr.dayPath os w
  · have hsame : ¬ mgr.currentLogFilePath ≠
        rotateLogFilePathWithDay mgr.logFilePath (os.today w).1 := fun hne => hne hpath
    simp only [logFileRotate, hrotate, ne_eq, not_true_eq_false, if_false, hsame, handleFor,
      if_pos hpath]
    cases mgr.ptrLogFile <;> rfl
  · have hnew : mgr.currentLogFilePath ≠
        rotateLogFilePathWithDay mgr.logFilePath (os.today w).1 := hpath
    have hrefresh := openIfNull_refreshFilePtr os
      { mgr with currentLogFilePath := mgr.dayPath os w } (mgr.sizeRotate os w).2
    simp only [logFileRotate, hrotate, ne_eq, not_true_eq_false, if_false, hnew,
      not_false_eq_true, if_true, handleFor, if_neg hpath]
    refine hrefresh.trans ?_
    show (match os.fopen (mgr.dayPath os w) (mgr.closeIfOpen os (mgr.sizeRotate os w).2) with
      | (some file, w) => _
      | (none, w) => _) = _
    rcases os.fopen (mgr.dayPath os w) (mgr.closeIfOpen os (mgr.sizeRotate os w).2)
      with ⟨_ | file, w'⟩
    · rfl
    · rfl

/-- **`PrintLog`, by the calls it makes**: the error of the size rotation, or the
line through the handle it has then, or no behaviour where that is null. -/
theorem printLog_eq (mgr : LogFileMgr Handle) (logString : Str) (w : World) :
    mgr.printLog os logString w =
      if (mgr.sizeRotate os w).1 ≠ 0 then
        some ((mgr.sizeRotate os w).1, { mgr with currentLogFilePath := mgr.dayPath os w },
          (mgr.sizeRotate os w).2)
      else
        match mgr.handleFor os (mgr.dayPath os w) (mgr.sizeRotate os w).2 with
        | (some file, w₁) =>
            some (0, ⟨mgr.logFilePath, mgr.dayPath os w, some file⟩,
              os.fprintf file (cStr logString ++ ['\n']) w₁)
        | (none, _) => none := by
  by_cases hret : (mgr.sizeRotate os w).1 = 0
  · have hfst : (mgr.logFileRotate os w).1 = 0 := (logFileRotate_fst os mgr w).trans hret
    simp only [printLog, hfst, hret, ne_eq, not_true_eq_false, if_false,
      openIfNull_logFileRotate os hret]
    rcases mgr.handleFor os (mgr.dayPath os w) (mgr.sizeRotate os w).2 with ⟨_ | file, w₁⟩
    · rfl
    · rfl
  · rw [if_pos hret, printLog_of_fails os logString hret]

/-- A call of `PrintLog` that returns, by its two ways to do so. -/
theorem printLog_returns {mgr mgr' : LogFileMgr Handle} {logString : Str} {w w' : World}
    {ret : Int} (h : mgr.printLog os logString w = some (ret, mgr', w')) :
    (ret ≠ 0 ∧ mgr.sizeRotate os w = (ret, w') ∧
        mgr' = { mgr with currentLogFilePath := mgr.dayPath os w }) ∨
      (ret = 0 ∧ (mgr.sizeRotate os w).1 = 0 ∧ ∃ file w₁,
        mgr.handleFor os (mgr.dayPath os w) (mgr.sizeRotate os w).2 = (some file, w₁) ∧
        mgr' = ⟨mgr.logFilePath, mgr.dayPath os w, some file⟩ ∧
        w' = os.fprintf file (cStr logString ++ ['\n']) w₁) := by
  rw [printLog_eq] at h
  by_cases hret : (mgr.sizeRotate os w).1 = 0
  · rw [if_neg (not_not.mpr hret)] at h
    rcases hfile : mgr.handleFor os (mgr.dayPath os w) (mgr.sizeRotate os w).2
      with ⟨_ | file, w₁⟩
    · rw [hfile] at h
      cases h
    · rw [hfile] at h
      obtain ⟨rfl, rfl, rfl⟩ := by simpa only [Option.some.injEq, Prod.mk.injEq] using h
      exact Or.inr ⟨rfl, hret, file, w₁, rfl, rfl, rfl⟩
  · rw [if_pos hret] at h
    obtain ⟨rfl, rfl, rfl⟩ := by simpa only [Option.some.injEq, Prod.mk.injEq] using h
    exact Or.inl ⟨hret, rfl, rfl⟩

/-- Where `fopen` does not fail, a line is printed on the file that is open if the path is
the same, or on the one that `fopen` gives after an open one is closed. -/
theorem handleFor_cases (hopen : ∀ p w, (os.fopen p w).1.isSome = true) {mgr : LogFileMgr Handle}
    {path : Str} {file : Handle} {w w' : World} (h : mgr.handleFor os path w = (some file, w')) :
    (mgr.currentLogFilePath = path ∧ mgr.ptrLogFile = some file ∧ w' = w) ∨
      os.fopen path (mgr.closeIfOpen os w) = (some file, w') := by
  unfold handleFor at h
  split at h
  · rename_i hpath
    split at h
    · rename_i current hptr
      obtain ⟨hfile, rfl⟩ := Prod.mk.inj h
      exact Or.inl ⟨hpath, hptr.trans hfile, rfl⟩
    · rename_i hptr
      refine Or.inr ?_
      unfold closeIfOpen
      rw [hptr]
      exact h
  · split at h
    · rename_i hfopen
      exact Or.inr (hfopen.trans h)
    · rename_i hfopen
      have hsome := hopen path (mgr.closeIfOpen os w)
      rw [hfopen] at hsome
      cases hsome

/-- `LogFileMgr::Init` in the world `world` and then any calls of `PrintLog`, each
with a line and the world it meets, which `between` relates to the one the call
before left. -/
def runs (between : World → World → Prop) (logFilePath : Str) (world : World) :
    TransitionSystem (LogFileMgr Handle × World) (Str × World) where
  init s := s = init os logFilePath world
  step s c t := between s.2 c.2 ∧ ∃ ret, s.1.printLog os c.1 c.2 = some (ret, t)

/-- No call changes the path `Init` was given. -/
theorem logFilePath_of_reachable {between : World → World → Prop} {logFilePath : Str}
    {world : World} {s : LogFileMgr Handle × World}
    (hs : (runs os between logFilePath world).Reachable s) : s.1.logFilePath = logFilePath := by
  refine hs.invariant (I := fun s => s.1.logFilePath = logFilePath) ?_ ?_
  · rintro s rfl
    rfl
  · rintro s c ⟨mgr', w'⟩ hs ⟨-, ret, h⟩
    rcases printLog_returns os h with ⟨-, -, rfl⟩ | ⟨-, -, file, w₁, -, rfl, -⟩
    · exact hs
    · exact hs

end MySvrKit.LogFileMgr
