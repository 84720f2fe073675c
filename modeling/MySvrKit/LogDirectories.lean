import MySvrKit.LogFailures
import MySvrKit.LogNames

/-! # Log directories

`RotateLogFilePathWithDay` looks for the last dot of the whole path, so the day gets
into the file name only if that dot is in the file name.  Where it is in a directory
name, or in a leading "./", the day names another directory, which nothing creates. -/

universe u v

namespace MySvrKit

/-- The directory part of a path: up to its last '/', with it. -/
def directoryPart (path : Str) : Str :=
  match rfind '/' path with
  | some i => path.take (i + 1)
  | none => []

/-- The file name of a path: what follows its last '/'. -/
def fileName (path : Str) : Str :=
  match rfind '/' path with
  | some i => path.drop (i + 1)
  | none => path

/-- `stamped` is the file name `name` with the day inserted before its last dot, or
appended where it has none. -/
def Stamped (name : Str) (d : Day) (stamped : Str) : Prop :=
  ∃ stem extension, name = stem ++ extension ∧ stamped = stem ++ getCurrentDay d ++ extension ∧
    ((extension = [] ∧ '.' ∉ stem) ∨ ∃ rest, extension = '.' :: rest ∧ '.' ∉ rest)

/-- **The day touches only the file name**: the path of the day has the directory part of
the configured path, so any directory that serves the one serves it and its archives, and
its file name is the configured one with the day in it. -/
structure StampsFileName (path : Str) (d : Day) : Prop where
  directory : directoryPart (rotateLogFilePathWithDay path d) = directoryPart path
  name : Stamped (fileName path) d (fileName (rotateLogFilePathWithDay path d))
  serves : ∀ isDirectory : Str → Prop, isDirectory (directoryPart path) →
    isDirectory (directoryPart (rotateLogFilePathWithDay path d)) ∧
      ∀ i, isDirectory (directoryPart (archivePath (rotateLogFilePathWithDay path d) i))

/-! ## Splitting a path -/

/-- Text without a '/' belongs to the file name. -/
theorem directoryPart_append (x : Str) {y : Str} (hy : '/' ∉ y) :
    directoryPart (x ++ y) = directoryPart x ∧ fileName (x ++ y) = fileName x ++ y := by
  unfold directoryPart fileName
  rw [rfind_append_of_not_mem x hy]
  cases hx : rfind '/' x with
  | none => exact ⟨rfl, rfl⟩
  | some i =>
    obtain ⟨rest, -, hsplit, hdrop⟩ := eq_append_of_rfind hx
    have hlength : i + 1 ≤ x.length := by
      have hlen := congrArg List.length hdrop
      rw [List.length_drop, List.length_cons] at hlen
      omega
    exact ⟨List.take_append_of_le_length hlength, List.drop_append_of_le_length hlength⟩

theorem directoryPart_slash (x : Str) {y : Str} (hy : '/' ∉ y) :
    directoryPart (x ++ '/' :: y) = x ++ ['/'] ∧ fileName (x ++ '/' :: y) = y := by
  unfold directoryPart fileName
  rw [rfind_append_cons x hy]
  have hsplit : x ++ '/' :: y = (x ++ ['/']) ++ y := by simp
  have hlength : x.length + 1 = (x ++ ['/']).length := by simp
  simp only [hsplit, hlength, List.take_left, List.drop_left, and_self]

theorem mem_of_mem_fileName {c : Char} {path : Str} (h : c ∈ fileName path) : c ∈ path := by
  unfold fileName at h
  split at h
  · exact List.mem_of_mem_drop h
  · exact h

/-- The archive of a path is in its directory. -/
theorem directoryPart_archivePath (path : Str) (i : Nat) :
    directoryPart (archivePath path i) = directoryPart path := by
  rw [archivePath, List.append_assoc]
  refine (directoryPart_append path ?_).1
  intro h
  rcases List.mem_cons.mp h with hdot | hnumber
  · cases hdot
  · have hdigit := isDigit_of_mem_decimal hnumber
    cases hdigit

theorem StampsFileName.of_parts {path : Str} {d : Day}
    (hdirectory : directoryPart (rotateLogFilePathWithDay path d) = directoryPart path)
    (hname : Stamped (fileName path) d (fileName (rotateLogFilePathWithDay path d))) :
    StampsFileName path d where
  directory := hdirectory
  name := hname
  serves isDirectory h := by
    refine ⟨hdirectory ▸ h, fun i => ?_⟩
    rw [directoryPart_archivePath, hdirectory]
    exact h

section
variable {before after : Str} {d : Day}

/-- A splice behind the last '/' changes the file name only. -/
theorem StampsFileName.of_splice
    (hrotate : rotateLogFilePathWithDay (before ++ after) d = before ++ getCurrentDay d ++ after)
    (hdot : (after = [] ∧ '.' ∉ before) ∨ ∃ rest, '.' ∉ rest ∧ after = '.' :: rest)
    (hslash : '/' ∉ after) : StampsFileName (before ++ after) d := by
  have hadded : '/' ∉ getCurrentDay d ++ after := by
    rw [List.mem_append]
    exact not_or.mpr ⟨not_mem_getCurrentDay rfl d, hslash⟩
  obtain ⟨hdirectory, hname⟩ := directoryPart_append before hslash
  obtain ⟨hdirectory', hname'⟩ := directoryPart_append before hadded
  have hrotate' : rotateLogFilePathWithDay (before ++ after) d =
      before ++ (getCurrentDay d ++ after) := by
    rw [hrotate, List.append_assoc]
  refine .of_parts ?_ ⟨fileName before, after, hname, ?_, ?_⟩
  · rw [hrotate', hdirectory', hdirectory]
  · rw [hrotate', hname', List.append_assoc]
  · rcases hdot with ⟨hnil, hbefore⟩ | ⟨rest, hrest, hdot⟩
    · exact Or.inl ⟨hnil, fun h => hbefore (mem_of_mem_fileName h)⟩
    · exact Or.inr ⟨rest, hdot, hrest⟩

/-- A splice before the last '/' makes the directory part longer. -/
theorem not_stampsFileName_of_splice {directory name : Str}
    (hrotate : rotateLogFilePathWithDay (before ++ (directory ++ '/' :: name)) d =
      before ++ getCurrentDay d ++ (directory ++ '/' :: name))
    (hname : '/' ∉ name) : ¬ StampsFileName (before ++ (directory ++ '/' :: name)) d := by
  intro h
  have hsame := h.directory
  rw [hrotate, ← List.append_assoc, ← List.append_assoc, (directoryPart_slash _ hname).1,
    (directoryPart_slash _ hname).1] at hsame
  have hlength := congrArg List.length hsame
  have hday := length_getCurrentDay_pos d
  simp only [List.length_append] at hlength
  omega

end

/-- **The day touches only the file name exactly where the file name has a dot or the
whole path has none**, for every path and every day. -/
theorem stampsFileName_iff (path : Str) (d : Day) :
    StampsFileName path d ↔ ('.' ∈ path → '.' ∈ fileName path) := by
  obtain ⟨before, after, rfl, hrotate, hdot⟩ := rotateLogFilePathWithDay_eq path
  by_cases hslash : '/' ∈ after
  · -- the last dot is in a directory name
    obtain ⟨directory, name, rfl, hname⟩ := exists_last hslash
    refine iff_of_false (not_stampsFileName_of_splice (hrotate d) hname) fun h => ?_
    rw [← List.append_assoc, (directoryPart_slash _ hname).2] at h
    rcases hdot with ⟨hnil, -⟩ | ⟨rest, hrest, hsplit⟩
    · simp at hnil
    · cases directory with
      | nil => cases hsplit
      | cons a directory =>
        obtain ⟨rfl, rfl⟩ := List.cons.inj hsplit
        exact hrest (List.mem_append_right _ (List.mem_cons_of_mem _ (h (by simp))))
  · refine iff_of_true (.of_splice (hrotate d) hdot hslash) fun h => ?_
    rw [(directoryPart_append before hslash).2]
    rcases hdot with ⟨rfl, hbefore⟩ | ⟨rest, -, rfl⟩
    · rw [List.append_nil] at h
      exact absurd h hbefore
    · exact List.mem_append_right _ List.mem_cons_self

/-- Where the day touches only the file name, a directory that serves the configured path
serves every call of `PrintLog`: it finds a file. -/
theorem printLog_isSome_of_stamps {World : Type u} {Handle : Type v} {os : Posix World Handle}
    {between : World → World → Prop} {path : Str} {world : World}
    {s : LogFileMgr Handle × World} (hstamps : ∀ d, StampsFileName path d)
    {isDirectory : Str → Prop} (hdirectory : isDirectory (directoryPart path))
    (hfopen : ∀ p w, isDirectory (directoryPart p) → (os.fopen p w).1.isSome = true)
    (hs : (LogFileMgr.runs os between path world).Reachable s) (logString : Str) (w : World) :
    (s.1.printLog os logString w).isSome = true := by
  have hpath := LogFileMgr.logFilePath_of_reachable os hs
  have hopen : ∀ w', (os.fopen (s.1.dayPath os w) w').1.isSome = true := by
    intro w'
    apply hfopen
    rw [LogFileMgr.dayPath, hpath]
    exact ((hstamps _).serves isDirectory hdirectory).1
  rw [LogFileMgr.printLog_isSome_iff]
  by_cases hsame : s.1.currentLogFilePath = s.1.dayPath os w
  · exact Or.inr (Or.inl ⟨hsame, Or.inr (hopen _)⟩)
  · exact Or.inr (Or.inr ⟨hsame, Or.inl (hopen _)⟩)

/-- The file of a day would be in a directory named after the day where the log file is
"./a". -/
theorem not_stampsFileName_dotSlash :
    rotateLogFilePathWithDay ['.', '/', 'a'] ⟨2024, 9, 30⟩ =
        ['2', '0', '2', '4', '0', '9', '3', '0', '.', '/', 'a'] ∧
      ¬ StampsFileName ['.', '/', 'a'] ⟨2024, 9, 30⟩ := by
  refine ⟨by decide, fun h => ?_⟩
  have hsame := h.directory
  exact absurd hsame (by decide)

end MySvrKit
