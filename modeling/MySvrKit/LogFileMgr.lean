import MySvrKit.LogPaths

/-! # `LogFileMgr`

`2nd/log/log_file_mgr.cpp` over the system calls it makes.  A `Posix` is an
operating system: what `stat`, `rename`, `fopen`, `fclose` and `fprintf` answer
and do in each state of the world, and the day `gettimeofday` and `localtime`
give.  The functions follow the source; `printLog` has no result where it prints
through a null `FILE *`. -/

universe u v

namespace MySvrKit

/-- The system calls `LogFileMgr` makes. -/
structure Posix (World : Type u) (Handle : Type v) where
  /-- `st_size` where `stat` succeeds. -/
  stat : Str → World → Option Nat × World
  /-- `rename`, 0 on success. -/
  rename : Str → Str → World → Int × World
  /-- `fopen` with mode `"a"`; `none` is the null pointer. -/
  fopen : Str → World → Option Handle × World
  fclose : Handle → World → World
  fprintf : Handle → Str → World → World
  /-- `gettimeofday` and `localtime`. -/
  today : World → Day × World

def kLogFileMaxSizeByte : Nat := 100 * 1024 * 1024

def kLogFileMaxNum : Nat := 1000

namespace Errcode

def kLogFileOpenFail : Int := -101

end Errcode

/-- The members of `LogFileMgr`. -/
structure LogFileMgr (Handle : Type v) where
  logFilePath : Str
  currentLogFilePath : Str
  ptrLogFile : Option Handle

section
variable {World : Type u} {Handle : Type v} (os : Posix World Handle)

/-- The loop of `RotateLogFilePathWithSize`, from archive number `i` with
`remaining` numbers to try. -/
def rotateToArchive (logFilePath : Str) : Nat → Nat → World → Int × World
  | 0, _, w => (0, w)
  | remaining + 1, i, w =>
      let newLogFilePath := archivePath logFilePath i
      match os.stat newLogFilePath w with
      | (some _, w) => rotateToArchive logFilePath remaining (i + 1) w
      | (none, w) => os.rename logFilePath newLogFilePath w

/-- `RotateLogFilePathWithSize`. -/
def rotateLogFilePathWithSize (logFilePath : Str) (w : World) : Int × World :=
  match os.stat logFilePath w with
  | (none, w) => (0, w)
  | (some stSize, w) =>
      if stSize < kLogFileMaxSizeByte then
        (0, w)
      else
        rotateToArchive os logFilePath kLogFileMaxNum 0 w

namespace LogFileMgr
variable {os}

variable (os) in
/-- `LogFileMgr::Init`. -/
def init (logFilePath : Str) (w : World) : LogFileMgr Handle × World :=
  let (ptrLogFile, w) := os.fopen logFilePath w
  (⟨logFilePath, logFilePath, ptrLogFile⟩, w)

variable (os) in
/-- `LogFileMgr::RefreshFilePtr`. -/
def refreshFilePtr (mgr : LogFileMgr Handle) (w : World) : Int × LogFileMgr Handle × World :=
  let w :=
    match mgr.ptrLogFile with
    | some file => os.fclose file w
    | none => w
  let (ptrLogFile, w) := os.fopen mgr.currentLogFilePath w
  let ret := if ptrLogFile.isNone then Errcode.kLogFileOpenFail else 0
  (ret, { mgr with ptrLogFile }, w)

variable (os) in
/-- `LogFileMgr::LogFileRotate`.  It drops what `RefreshFilePtr` returns. -/
def logFileRotate (mgr : LogFileMgr Handle) (w : World) : Int × LogFileMgr Handle × World :=
  let oldCurrentLogFilePath := mgr.currentLogFilePath
  let (day, w) := os.today w
  let mgr := { mgr with currentLogFilePath := rotateLogFilePathWithDay mgr.logFilePath day }
  let (ret, w) := rotateLogFilePathWithSize os mgr.currentLogFilePath w
  if ret ≠ 0 then
    (ret, mgr, w)
  else if oldCurrentLogFilePath ≠ mgr.currentLogFilePath then
    let (_, mgr, w) := mgr.refreshFilePtr os w
    (0, mgr, w)
  else
    (0, mgr, w)

variable (os) in
/-- The late `fopen` of `PrintLog`. -/
def openIfNull (mgr : LogFileMgr Handle) (w : World) : LogFileMgr Handle × World :=
  if mgr.ptrLogFile.isNone then
    let (ptrLogFile, w) := os.fopen mgr.currentLogFilePath w
    ({ mgr with ptrLogFile }, w)
  else
    (mgr, w)

variable (os) in
/-- `LogFileMgr::PrintLog`; `none` where `fprintf` gets a null pointer. -/
def printLog (mgr : LogFileMgr Handle) (logString : Str) (w : World) :
    Option (Int × LogFileMgr Handle × World) :=
  let (ret, mgr, w) := mgr.logFileRotate os w
  if ret ≠ 0 then
    some (ret, mgr, w)
  else
    let (mgr, w) := mgr.openIfNull os w
    match mgr.ptrLogFile with
    | some file => some (0, mgr, os.fprintf file (cStr logString ++ ['\n']) w)
    | none => none

end LogFileMgr

/-! ## What no call but `fprintf` changes -/

/-- `os.Keeps R`: every call but `fprintf` leads to an `R`-related world, `rename`
where `stat` has just failed on its target. -/
structure Posix.Keeps (R : World → World → Prop) : Prop where
  refl : ∀ w, R w w
  trans : ∀ {a b c}, R a b → R b c → R a c
  stat : ∀ p w, R w (os.stat p w).2
  rename : ∀ old new w, (os.stat new w).1 = none →
    R (os.stat new w).2 (os.rename old new (os.stat new w).2).2
  fopen : ∀ p w, R w (os.fopen p w).2
  fclose : ∀ h w, R w (os.fclose h w)
  today : ∀ w, R w (os.today w).2

variable {os} {R : World → World → Prop} (hR : os.Keeps R)
include hR

theorem rotateToArchive_keeps (p : Str) (remaining i : Nat) (w : World) :
    R w (rotateToArchive os p remaining i w).2 := by
  induction remaining generalizing i w with
  | zero => exact hR.refl w
  | succ remaining ih =>
    simp only [rotateToArchive]
    have hstat := hR.stat (archivePath p i) w
    rcases hs : os.stat (archivePath p i) w with ⟨_ | _, w'⟩
    · have hrename := hR.rename p (archivePath p i) w (by rw [hs])
      rw [hs] at hstat hrename
      exact hR.trans hstat hrename
    · rw [hs] at hstat
      exact hR.trans hstat (ih (i + 1) w')

theorem rotateLogFilePathWithSize_keeps (p : Str) (w : World) :
    R w (rotateLogFilePathWithSize os p w).2 := by
  simp only [rotateLogFilePathWithSize]
  have hstat := hR.stat p w
  rcases hs : os.stat p w with ⟨_ | stSize, w'⟩
  · rw [hs] at hstat
    exact hstat
  · rw [hs] at hstat
    by_cases hlt : stSize < kLogFileMaxSizeByte
    · simpa only [hlt, if_true] using hstat
    · simp only [hlt, if_false]
      exact hR.trans hstat (rotateToArchive_keeps hR p _ 0 w')

namespace LogFileMgr

theorem refreshFilePtr_keeps (mgr : LogFileMgr Handle) (w : World) :
    R w (mgr.refreshFilePtr os w).2.2 := by
  simp only [refreshFilePtr]
  cases mgr.ptrLogFile with
  | none => exact hR.fopen _ w
  | some file => exact hR.trans (hR.fclose file w) (hR.fopen _ _)

theorem logFileRotate_keeps (mgr : LogFileMgr Handle) (w : World) :
    R w (mgr.logFileRotate os w).2.2 := by
  simp only [logFileRotate]
  have hday := hR.today w
  have hsize := rotateLogFilePathWithSize_keeps hR
    (rotateLogFilePathWithDay mgr.logFilePath (os.today w).1) (os.today w).2
  split
  · exact hR.trans hday hsize
  · split
    · exact hR.trans (hR.trans hday hsize) (refreshFilePtr_keeps hR _ _)
    · exact hR.trans hday hsize

theorem openIfNull_keeps (mgr : LogFileMgr Handle) (w : World) :
    R w (mgr.openIfNull os w).2 := by
  simp only [openIfNull]
  split
  · exact hR.fopen _ w
  · exact hR.refl w

/-- **`PrintLog` in one line**: a nonzero exit happens before anything is printed,
a zero exit has printed the line once, last. -/
theorem printLog_cases {mgr mgr' : LogFileMgr Handle} {logString : Str} {w w' : World} {ret : Int}
    (h : mgr.printLog os logString w = some (ret, mgr', w')) :
    (ret ≠ 0 ∧ R w w') ∨
      (ret = 0 ∧ ∃ file w₁, R w w₁ ∧ mgr'.ptrLogFile = some file ∧
        w' = os.fprintf file (cStr logString ++ ['\n']) w₁) := by
  simp only [printLog] at h
  have hrotate := logFileRotate_keeps hR mgr w
  split at h
  · rename_i hret
    obtain ⟨rfl, rfl, rfl⟩ := by simpa only [Option.some.injEq, Prod.mk.injEq] using h
    exact Or.inl ⟨hret, hrotate⟩
  · have hopen := openIfNull_keeps hR (mgr.logFileRotate os w).2.1 (mgr.logFileRotate os w).2.2
    split at h
    · rename_i file hfile
      obtain ⟨rfl, rfl, rfl⟩ := by simpa only [Option.some.injEq, Prod.mk.injEq] using h
      exact Or.inr ⟨rfl, file, _, hR.trans hrotate hopen, hfile, rfl⟩
    · cases h

end LogFileMgr

omit hR in
/-- Where `fopen` never fails, `PrintLog` always has a result. -/
theorem LogFileMgr.printLog_isSome (hopen : ∀ p w, (os.fopen p w).1.isSome = true)
    (mgr : LogFileMgr Handle) (logString : Str) (w : World) :
    (mgr.printLog os logString w).isSome = true := by
  simp only [printLog]
  split
  · rfl
  · have hptr : ((mgr.logFileRotate os w).2.1.openIfNull os
        (mgr.logFileRotate os w).2.2).1.ptrLogFile.isSome = true := by
      unfold openIfNull
      split
      · exact hopen _ _
      · rename_i hnone
        exact Option.isSome_iff_ne_none.mpr (fun h => hnone (by rw [h]; rfl))
    obtain ⟨file, hfile⟩ := Option.isSome_iff_exists.mp hptr
    rw [hfile]
    rfl

end
end MySvrKit
