import MySvrKit.BufferedStore
import MySvrKit.LogRotation

/-! # `LogFileMgr` over buffered streams

`fprintf` puts the text into the buffer of its `FILE *`, which writes out as much of what it
holds as it likes, and `fclose` writes out the rest; `stat` sees what has been written out.
`PrintLog` never calls `fflush`.  Here `fopen` and the writes succeed. -/

namespace MySvrKit

/-- The files with their buffers, the day, whether `rename` fails, and how much of the
buffer the next `fprintf` writes out. -/
structure StdioWorld where
  files : BufferedStore Str Char
  day : Day
  renameFails : Bool
  out : Nat

/-- The system calls on that world.  A handle is the number of the open file: the log has
one stream open at a time. -/
def stdio : Posix StdioWorld Nat where
  stat p w := (w.files.disk.size? p, w)
  rename old new w :=
    if w.renameFails || (w.files.disk.names old).isNone then (-1, w)
    else (0, { w with files := w.files.rename old new })
  fopen p w := (some (w.files.openAppend p).1, { w with files := (w.files.openAppend p).2 })
  fclose file w := { w with files := w.files.flush file }
  fprintf file text w := { w with files := w.files.write file text w.out }
  today w := (w.day, w)

theorem stdio_fopen_isSome (p : Str) (w : StdioWorld) : (stdio.fopen p w).1.isSome = true := rfl

/-- A world in which nothing is buffered. -/
def LogWorld.stdio (world : LogWorld) : StdioWorld :=
  ⟨⟨world.files, fun _ => []⟩, world.day, world.renameFails, 0⟩

/-! ## The size rotation -/

section
variable {p : Str} {w w' : StdioWorld} {ret : Int}

/-- The search loop does nothing, or renames to the first free name of those it tries. -/
theorem rotateToArchive_stdio {remaining i f : Nat} (hf : w.files.disk.names p = some f)
    (h : rotateToArchive stdio p remaining i w = (ret, w')) :
    (w' = w ∧ (ret ≠ 0 → w.renameFails = true)) ∨
      (ret = 0 ∧ ∃ j, i ≤ j ∧ j < i + remaining ∧ w.files.disk.names (archivePath p j) = none ∧
        (∀ k, i ≤ k → k < j → w.files.disk.names (archivePath p k) ≠ none) ∧
        w' = { w with files := w.files.rename p (archivePath p j) }) := by
  induction remaining generalizing i with
  | zero =>
    obtain ⟨rfl, rfl⟩ := Prod.mk.inj h
    exact Or.inl ⟨rfl, fun hret => absurd rfl hret⟩
  | succ remaining ih =>
    cases hn : w.files.disk.names (archivePath p i) with
    | none =>
      -- `stat` fails, so this is the name the loop takes
      have hstat : stdio.stat (archivePath p i) w = (none, w) :=
        congrArg (·, w) (FileStore.size?_eq_none_iff.mpr hn)
      simp only [rotateToArchive, hstat] at h
      by_cases hfails : w.renameFails = true
      · have hrename : stdio.rename p (archivePath p i) w = (-1, w) := if_pos (by simp [hfails])
        rw [hrename] at h
        obtain ⟨rfl, rfl⟩ := Prod.mk.inj h
        exact Or.inl ⟨rfl, fun _ => hfails⟩
      · have hrename : stdio.rename p (archivePath p i) w =
            (0, { w with files := w.files.rename p (archivePath p i) }) :=
          if_neg (by simp [hfails, hf])
        rw [hrename] at h
        obtain ⟨rfl, rfl⟩ := Prod.mk.inj h
        refine Or.inr ⟨rfl, i, Nat.le_refl i, by omega, hn, fun k hle hlt => ?_, rfl⟩
        omega
    | some g =>
      have hstat : stdio.stat (archivePath p i) w = (some (w.files.disk.content g).length, w) :=
        congrArg (·, w) (FileStore.size?_eq_some_iff.mpr ⟨g, hn, rfl⟩)
      simp only [rotateToArchive, hstat] at h
      rcases ih h with hsame | ⟨hret, j, hle, hlt, hfree, hleast, hw⟩
      · exact Or.inl hsame
      · refine Or.inr ⟨hret, j, by omega, by omega, hfree, fun k hk hkj => ?_, hw⟩
        by_cases he : k = i
        · rw [he, hn]
          intro hnone
          cases hnone
        · exact hleast k (by omega) hkj

/-- **One size rotation**: nothing, or the file of the path becomes the first free archive;
it fails only where `rename` does. -/
theorem rotateLogFilePathWithSize_stdio
    (h : rotateLogFilePathWithSize stdio p w = (ret, w')) :
    (w' = w ∧ (ret ≠ 0 → w.renameFails = true)) ∨
      (ret = 0 ∧ ∃ j f, j < kLogFileMaxNum ∧ w.files.disk.names p = some f ∧
        w.files.disk.names (archivePath p j) = none ∧
        (∀ k, k < j → w.files.disk.names (archivePath p k) ≠ none) ∧
        w' = { w with files := w.files.rename p (archivePath p j) }) := by
  have hstat : stdio.stat p w = (w.files.disk.size? p, w) := rfl
  cases hsize : w.files.disk.size? p with
  | none =>
    simp only [rotateLogFilePathWithSize, hstat, hsize] at h
    obtain ⟨rfl, rfl⟩ := Prod.mk.inj h
    exact Or.inl ⟨rfl, fun hret => absurd rfl hret⟩
  | some k =>
    obtain ⟨f, hf, -⟩ := FileStore.size?_eq_some_iff.mp hsize
    simp only [rotateLogFilePathWithSize, hstat, hsize] at h
    split at h
    · obtain ⟨rfl, rfl⟩ := Prod.mk.inj h
      exact Or.inl ⟨rfl, fun hret => absurd rfl hret⟩
    · rcases rotateToArchive_stdio hf h with hsame | ⟨hret, j, -, hlt, hfree, hleast, hw⟩
      · exact Or.inl hsame
      · exact Or.inr ⟨hret, j, f, by omega, hf, hfree, fun k hk => hleast k (Nat.zero_le k) hk, hw⟩

end

/-! ## The buffers of the log -/

namespace LogFileMgr
variable {mgr : LogFileMgr Nat}

/-- Only the open file may have text in its buffer. -/
def BuffersOpen (mgr : LogFileMgr Nat) (files : BufferedStore Str Char) : Prop :=
  ∀ f, mgr.ptrLogFile ≠ some f → files.buffered f = []

/-- With the stream of the open file closed, every buffer is empty. -/
theorem BuffersOpen.close {w : StdioWorld} (h : mgr.BuffersOpen w.files) :
    (mgr.closeIfOpen stdio w).files.settled = w.files.settled ∧
      ∀ f, (mgr.closeIfOpen stdio w).files.buffered f = [] := by
  unfold closeIfOpen
  split
  · rename_i file hptr
    refine ⟨BufferedStore.settled_flush w.files file, fun f => ?_⟩
    by_cases he : f = file
    · rw [he]
      exact BufferedStore.buffered_flush_self w.files file
    · refine BufferedStore.buffered_flush_of_empty (h f ?_)
      rw [hptr]
      exact fun hsame => he (Option.some.inj hsame).symm
  · rename_i hptr
    exact ⟨rfl, fun f => h f (by rw [hptr]; intro h; cases h)⟩

end LogFileMgr

end MySvrKit
