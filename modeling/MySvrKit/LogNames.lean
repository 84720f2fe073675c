import MySvrKit.FixedWidth
import MySvrKit.LogPaths

/-! # Log file names tell days apart

`GetCurrentDay` writes a calendar day as a numeral of eight digits, and
`RotateLogFilePathWithDay` splices it in before the last dot of the path, or at its
end.  No digit is a dot, so the place of the splice can be read off the result, and
with it the path and the day. -/

namespace MySvrKit

/-- A calendar day with a four-digit year. -/
def Day.InCalendar (d : Day) : Prop :=
  1000 ≤ d.year ∧ d.year < 10000 ∧ 1 ≤ d.month ∧ d.month ≤ 12 ∧ 1 ≤ d.day ∧ d.day ≤ 31

instance (d : Day) : Decidable d.InCalendar :=
  inferInstanceAs (Decidable (_ ∧ _))

/-- `d` is an earlier day than `e`. -/
def Day.Before (d e : Day) : Prop :=
  d.year < e.year ∨
    (d.year = e.year ∧ (d.month < e.month ∨ (d.month = e.month ∧ d.day < e.day)))

instance (d e : Day) : Decidable (d.Before e) :=
  inferInstanceAs (Decidable (_ ∨ _))

/-- The number `GetCurrentDay` writes. -/
def Day.number (d : Day) : Nat := (d.year * 10 ^ 2 + d.month) * 10 ^ 2 + d.day

namespace Day
variable {d e : Day}

theorem InCalendar.number_lt (h : d.InCalendar) : d.number < 10 ^ 8 := by
  unfold InCalendar at h
  unfold number
  omega

theorem InCalendar.number_inj (hd : d.InCalendar) (he : e.InCalendar)
    (h : d.number = e.number) : d = e := by
  obtain ⟨year, month, day⟩ := d
  obtain ⟨year', month', day'⟩ := e
  simp only [InCalendar, number, mk.injEq] at *
  omega

theorem InCalendar.number_mono (hd : d.InCalendar) (he : e.InCalendar) (h : d.Before e) :
    d.number < e.number := by
  simp only [InCalendar, Before, number] at *
  omega

end Day

/-! ## The day in a name -/

theorem decimal2_eq {n : Nat} (h : n < 100) : decimal2 n = fixedWidth 2 n := by
  unfold decimal2
  split
  · rename_i hlt
    have hdiv : n / 10 = 0 := by omega
    have hmod : n % 10 = n := by omega
    rw [decimal, Nat.toDigits_of_lt_base hlt]
    show ['0', Nat.digitChar n] = [Nat.digitChar (n / 10 % 10), Nat.digitChar (n % 10)]
    rw [hdiv, hmod]
    rfl
  · exact FixedWidth.toDigits_eq (by omega) (by omega)

theorem getCurrentDay_eq {d : Day} (h : d.InCalendar) :
    getCurrentDay d = fixedWidth 8 d.number := by
  obtain ⟨hlow, hhigh, -, hmonth, -, hday⟩ := h
  have hyear : decimal d.year = fixedWidth 4 d.year := FixedWidth.toDigits_eq hlow hhigh
  rw [getCurrentDay, hyear, decimal2_eq (by omega), decimal2_eq (by omega),
    FixedWidth.fixedWidth_append 4 2 d.year (by omega),
    FixedWidth.fixedWidth_append 6 2 _ (by omega)]
  rfl

theorem length_getCurrentDay {d : Day} (h : d.InCalendar) : (getCurrentDay d).length = 8 := by
  rw [getCurrentDay_eq h, FixedWidth.length_fixedWidth]

theorem isDigit_of_mem_decimal {n : Nat} {c : Char} (h : c ∈ decimal n) : c.isDigit = true :=
  Nat.isDigit_of_mem_toDigits (by decide) (by decide) h

theorem isDigit_of_mem_getCurrentDay {d : Day} {c : Char} (h : c ∈ getCurrentDay d) :
    c.isDigit = true := by
  have hpadded : ∀ n, c ∈ decimal2 n → c.isDigit = true := by
    intro n hn
    unfold decimal2 at hn
    split at hn
    · rcases List.mem_cons.mp hn with rfl | hn
      · rfl
      · exact isDigit_of_mem_decimal hn
    · exact isDigit_of_mem_decimal hn
  rw [getCurrentDay, List.mem_append, List.mem_append] at h
  rcases h with (hyear | hmonth) | hday
  · exact isDigit_of_mem_decimal hyear
  · exact hpadded _ hmonth
  · exact hpadded _ hday

theorem not_mem_getCurrentDay {c : Char} (hc : c.isDigit = false) (d : Day) :
    c ∉ getCurrentDay d := by
  intro h
  rw [isDigit_of_mem_getCurrentDay h] at hc
  cases hc

theorem getCurrentDay_inj {d e : Day} (hd : d.InCalendar) (he : e.InCalendar)
    (h : getCurrentDay d = getCurrentDay e) : d = e := by
  rw [getCurrentDay_eq hd, getCurrentDay_eq he] at h
  exact hd.number_inj he (FixedWidth.fixedWidth_inj hd.number_lt he.number_lt h)

theorem getCurrentDay_lex {d e : Day} (hd : d.InCalendar) (he : e.InCalendar)
    (h : d.Before e) : List.Lex (· < ·) (getCurrentDay d) (getCurrentDay e) := by
  rw [getCurrentDay_eq hd, getCurrentDay_eq he]
  exact FixedWidth.fixedWidth_lex (hd.number_mono he h) he.number_lt

theorem decimal_inj {i j : Nat} (h : decimal i = decimal j) : i = j := by
  have hback := congrArg (Nat.ofDigitChars 10 · 0) h
  simpa only [decimal, Nat.ofDigitChars_ten_toDigits] using hback

/-! ## The place of the splice -/

theorem rfind_eq_none_iff {c : Char} {s : Str} : rfind c s = none ↔ c ∉ s := by
  induction s with
  | nil => simp [rfind]
  | cons x xs ih =>
    rw [rfind, List.mem_cons]
    cases hxs : rfind c xs with
    | some i =>
      have hmem : c ∈ xs := by
        by_contra hnot
        rw [ih.mpr hnot] at hxs
        cases hxs
      simp [hmem]
    | none =>
      have hnot : c ∉ xs := ih.mp hxs
      by_cases hx : x = c
      · simp [hx]
      · simp [hx, hnot, Ne.symm hx]

/-- `rfind` finds the last occurrence. -/
theorem eq_append_of_rfind {c : Char} {s : Str} {i : Nat} (h : rfind c s = some i) :
    ∃ rest, c ∉ rest ∧ s = s.take i ++ c :: rest ∧ s.drop i = c :: rest := by
  induction s generalizing i with
  | nil => cases h
  | cons x xs ih =>
    rw [rfind] at h
    cases hxs : rfind c xs with
    | some j =>
      rw [hxs] at h
      obtain rfl := Option.some.inj h
      obtain ⟨rest, hrest, hsplit, hdrop⟩ := ih hxs
      exact ⟨rest, hrest, congrArg (x :: ·) hsplit, hdrop⟩
    | none =>
      rw [hxs] at h
      by_cases hx : x = c
      · rw [if_pos hx] at h
        obtain rfl := Option.some.inj h
        exact ⟨xs, rfind_eq_none_iff.mp hxs, by rw [hx]; rfl, by rw [hx]; rfl⟩
      · rw [if_neg hx] at h
        cases h

/-- Text without the character does not move its last occurrence. -/
theorem rfind_append_of_not_mem {c : Char} (x : Str) {y : Str} (hy : c ∉ y) :
    rfind c (x ++ y) = rfind c x := by
  induction x with
  | nil => exact rfind_eq_none_iff.mpr hy
  | cons a x ih => simp only [List.cons_append, rfind, ih]

theorem rfind_append_cons {c : Char} (x : Str) {y : Str} (hy : c ∉ y) :
    rfind c (x ++ c :: y) = some x.length := by
  induction x with
  | nil => simp [rfind, rfind_eq_none_iff.mpr hy]
  | cons a x ih => simp [rfind, ih]

/-- A string with the character in it, at the last occurrence. -/
theorem exists_last {c : Char} {s : Str} (h : c ∈ s) : ∃ x y, s = x ++ c :: y ∧ c ∉ y := by
  cases hs : rfind c s with
  | none => exact absurd h (rfind_eq_none_iff.mp hs)
  | some i =>
    obtain ⟨rest, hrest, hsplit, -⟩ := eq_append_of_rfind hs
    exact ⟨_, rest, hsplit, hrest⟩

/-- A string splits in one way at its last `c`. -/
theorem split_last_unique {c : Char} {x x' y y' : Str} (hy : c ∉ y) (hy' : c ∉ y')
    (h : x ++ c :: y = x' ++ c :: y') : x = x' ∧ y = y' := by
  rcases List.append_eq_append_iff.mp h with ⟨t, hx, ht⟩ | ⟨t, hx, ht⟩
  · cases t with
    | nil => exact ⟨by rw [hx, List.append_nil], (List.cons.inj ht).2⟩
    | cons a t =>
      -- then the last `c` of the one would be inside `y`
      refine absurd ?_ hy
      rw [(List.cons.inj ht).2]
      exact List.mem_append_right t List.mem_cons_self
  · cases t with
    | nil => exact ⟨by rw [hx, List.append_nil], (List.cons.inj ht).2.symm⟩
    | cons a t =>
      refine absurd ?_ hy'
      rw [(List.cons.inj ht).2]
      exact List.mem_append_right t List.mem_cons_self

/-- The path splits into what is before the day and what is after it. -/
theorem rotateLogFilePathWithDay_eq (p : Str) : ∃ before after : Str, p = before ++ after ∧
    (∀ d, rotateLogFilePathWithDay p d = before ++ getCurrentDay d ++ after) ∧
    ((after = [] ∧ '.' ∉ before) ∨ ∃ rest, '.' ∉ rest ∧ after = '.' :: rest) := by
  unfold rotateLogFilePathWithDay
  cases hdot : rfind '.' p with
  | none =>
    exact ⟨p, [], (List.append_nil p).symm, fun d => (List.append_nil _).symm,
      Or.inl ⟨rfl, rfind_eq_none_iff.mp hdot⟩⟩
  | some i =>
    obtain ⟨rest, hrest, -, hdrop⟩ := eq_append_of_rfind hdot
    exact ⟨p.take i, p.drop i, (List.take_append_drop i p).symm, fun d => rfl,
      Or.inr ⟨rest, hrest, hdrop⟩⟩

theorem length_rotateLogFilePathWithDay {p : Str} {d : Day} (h : d.InCalendar) :
    (rotateLogFilePathWithDay p d).length = p.length + 8 := by
  obtain ⟨before, after, rfl, hrotate, -⟩ := rotateLogFilePathWithDay_eq p
  rw [hrotate, List.length_append, List.length_append, List.length_append, length_getCurrentDay h]
  omega

/-- **A day's path determines the path and the day.** -/
theorem rotateLogFilePathWithDay_inj {p q : Str} {d e : Day} (hd : d.InCalendar)
    (he : e.InCalendar) (h : rotateLogFilePathWithDay p d = rotateLogFilePathWithDay q e) :
    p = q ∧ d = e := by
  obtain ⟨a, b, rfl, hp, hab⟩ := rotateLogFilePathWithDay_eq p
  obtain ⟨a', b', rfl, hq, hab'⟩ := rotateLogFilePathWithDay_eq q
  rw [hp, hq] at h
  have hlen : (getCurrentDay d).length = (getCurrentDay e).length := by
    rw [length_getCurrentDay hd, length_getCurrentDay he]
  have hsplit : a ++ getCurrentDay d = a' ++ getCurrentDay e ∧ b = b' := by
    rcases hab with ⟨rfl, ha⟩ | ⟨rest, hrest, rfl⟩ <;>
      rcases hab' with ⟨rfl, ha'⟩ | ⟨rest', hrest', rfl⟩
    · simpa only [List.append_nil, and_true] using h
    · -- a dot on the right only
      have hmem : '.' ∈ a ++ getCurrentDay d ++ [] := by
        rw [h]
        exact List.mem_append_right _ List.mem_cons_self
      simp only [List.append_nil, List.mem_append] at hmem
      exact absurd hmem (not_or.mpr ⟨ha, not_mem_getCurrentDay rfl d⟩)
    · have hmem : '.' ∈ a' ++ getCurrentDay e ++ [] := by
        rw [← h]
        exact List.mem_append_right _ List.mem_cons_self
      simp only [List.append_nil, List.mem_append] at hmem
      exact absurd hmem (not_or.mpr ⟨ha', not_mem_getCurrentDay rfl e⟩)
    · obtain ⟨h₁, rfl⟩ := split_last_unique hrest hrest' h
      exact ⟨h₁, rfl⟩
  obtain ⟨h₁, rfl⟩ := hsplit
  obtain ⟨rfl, hday⟩ := List.append_inj' h₁ hlen
  exact ⟨rfl, getCurrentDay_inj hd he hday⟩

theorem rotateLogFilePathWithDay_lex {p : Str} {d e : Day} (hd : d.InCalendar)
    (he : e.InCalendar) (h : d.Before e) :
    List.Lex (· < ·) (rotateLogFilePathWithDay p d) (rotateLogFilePathWithDay p e) := by
  obtain ⟨before, after, -, hrotate, -⟩ := rotateLogFilePathWithDay_eq p
  rw [hrotate, hrotate, List.append_assoc, List.append_assoc]
  apply List.Lex.append_left
  apply FixedWidth.lex_append (getCurrentDay_lex hd he h)
  rw [length_getCurrentDay hd, length_getCurrentDay he]

/-! ## Archive names -/

/-- An archive name is longer than every day's path. -/
theorem archivePath_ne_dayPath {p : Str} {d e : Day} (hd : d.InCalendar) (he : e.InCalendar)
    (i : Nat) : archivePath (rotateLogFilePathWithDay p d) i ≠ rotateLogFilePathWithDay p e := by
  intro h
  have hlen := congrArg List.length h
  simp only [archivePath, List.length_append, List.length_singleton,
    length_rotateLogFilePathWithDay hd, length_rotateLogFilePathWithDay he] at hlen
  omega

theorem archivePath_inj {p : Str} {d e : Day} (hd : d.InCalendar) (he : e.InCalendar)
    {i j : Nat} (h : archivePath (rotateLogFilePathWithDay p d) i =
      archivePath (rotateLogFilePathWithDay p e) j) : d = e ∧ i = j := by
  have hlen : (rotateLogFilePathWithDay p d).length = (rotateLogFilePathWithDay p e).length := by
    rw [length_rotateLogFilePathWithDay hd, length_rotateLogFilePathWithDay he]
  simp only [archivePath, List.append_assoc] at h
  obtain ⟨hday, hnumber⟩ := List.append_inj h hlen
  have hindex : decimal i = decimal j := (List.cons.inj hnumber).2
  exact ⟨(rotateLogFilePathWithDay_inj hd he hday).2, decimal_inj hindex⟩

/-- **Log file names are unambiguous and chronological.** -/
theorem names_unambiguous (p q : Str) {d e : Day} (hd : d.InCalendar) (he : e.InCalendar) :
    (rotateLogFilePathWithDay p d = rotateLogFilePathWithDay q e → p = q ∧ d = e) ∧
      (d.Before e →
        List.Lex (· < ·) (rotateLogFilePathWithDay p d) (rotateLogFilePathWithDay p e)) ∧
      ∀ i, archivePath (rotateLogFilePathWithDay p d) i ≠ rotateLogFilePathWithDay p e ∧
        ∀ j, archivePath (rotateLogFilePathWithDay p d) i =
          archivePath (rotateLogFilePathWithDay p e) j → d = e ∧ i = j :=
  ⟨rotateLogFilePathWithDay_inj hd he, rotateLogFilePathWithDay_lex hd he,
    fun i => ⟨archivePath_ne_dayPath hd he i, fun _ => archivePath_inj hd he⟩⟩

/-- The theorem at two days of one year. -/
theorem names_unambiguous_monthEnd :
    List.Lex (· < ·) (rotateLogFilePathWithDay ['a', '.', 'l'] ⟨2024, 9, 30⟩)
      (rotateLogFilePathWithDay ['a', '.', 'l'] ⟨2024, 10, 1⟩) :=
  (names_unambiguous ['a', '.', 'l'] ['a', '.', 'l'] (d := ⟨2024, 9, 30⟩) (e := ⟨2024, 10, 1⟩)
    (by decide) (by decide)).2.1 (by decide)

end MySvrKit
