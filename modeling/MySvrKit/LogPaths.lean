import Mathlib.Data.List.TakeWhile

/-! # Log file names

The name functions of `2nd/log/log_file_mgr.cpp`.  A `std::string` is a list of
characters, one per byte. -/

namespace MySvrKit

/-- A `std::string`. -/
abbrev Str := List Char

/-- What a `%s` or a constructor from `const char *` reads of these characters:
they end at the first NUL. -/
def cStr (s : Str) : Str := s.takeWhile (· ≠ '\x00')

theorem cStr_cStr (s : Str) : cStr (cStr s) = cStr s := List.takeWhile_idem

theorem cStr_replicate {c : Char} (hc : c ≠ '\x00') (n : Nat) :
    cStr (List.replicate n c) = List.replicate n c :=
  List.takeWhile_eq_self_iff.mpr fun x hx => by
    rw [List.eq_of_mem_replicate hx]
    exact decide_eq_true hc

theorem length_cStr_le (s : Str) : (cStr s).length ≤ s.length :=
  (List.takeWhile_prefix _).length_le

/-- A decimal number, as `%d` and `std::to_string` write it. -/
def decimal (n : Nat) : Str := Nat.toDigits 10 n

/-- `%02d`. -/
def decimal2 (n : Nat) : Str := if n < 10 then '0' :: decimal n else decimal n

/-- A calendar day, as `localtime` gives it. -/
structure Day where
  year : Nat
  month : Nat
  day : Nat
  deriving DecidableEq

/-- `GetCurrentDay` on that day: the format `%d%02d%02d`. -/
def getCurrentDay (d : Day) : Str := decimal d.year ++ decimal2 d.month ++ decimal2 d.day

/-- `std::string::rfind` of one character; `none` is `npos`. -/
def rfind (c : Char) : Str → Option Nat
  | [] => none
  | x :: xs =>
      match rfind c xs with
      | some i => some (i + 1)
      | none => if x = c then some 0 else none

/-- `RotateLogFilePathWithDay`: the path it stores in `new_log_file_path`.  It
always returns 0. -/
def rotateLogFilePathWithDay (logFilePath : Str) (today : Day) : Str :=
  match rfind '.' logFilePath with
  | some dotPosition =>
      let logFilePathBeforeDot := logFilePath.take dotPosition
      let logFilePathAfterDot := logFilePath.drop dotPosition
      logFilePathBeforeDot ++ getCurrentDay today ++ logFilePathAfterDot
  | none => logFilePath ++ getCurrentDay today

/-- The archive names `RotateLogFilePathWithSize` tries. -/
def archivePath (logFilePath : Str) (i : Nat) : Str := logFilePath ++ ['.'] ++ decimal i

theorem length_getCurrentDay_pos (d : Day) : 0 < (getCurrentDay d).length := by
  have hyear : 0 < (decimal d.year).length := Nat.length_toDigits_pos
  simp only [getCurrentDay, List.length_append]
  omega

/-- The day makes a path longer, so no day's path is the configured path. -/
theorem rotateLogFilePathWithDay_ne (p : Str) (d : Day) : rotateLogFilePathWithDay p d ≠ p := by
  have hday := length_getCurrentDay_pos d
  intro h
  have hlen := congrArg List.length h
  unfold rotateLogFilePathWithDay at hlen
  split at hlen
  · simp only [List.length_append, List.length_take, List.length_drop] at hlen
    omega
  · simp only [List.length_append] at hlen
    omega

theorem archivePath_ne (p : Str) (i : Nat) : p ≠ archivePath p i := by
  intro h
  have := congrArg List.length h
  simp only [archivePath, List.length_append, List.length_singleton] at this
  omega

end MySvrKit
