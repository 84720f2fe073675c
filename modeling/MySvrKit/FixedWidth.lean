import Mathlib.Algebra.Group.Nat.Defs
import Mathlib.Data.List.Lex

/-! # Decimal numerals of a fixed width

Numerals that are padded to one width compare, as strings, the way their numbers
do.  `fixedWidth k n` is the numeral of the last `k` digits of `n`; it is what a
format such as `%04d` writes of a number below `10 ^ k`, and `Nat.toDigits` of a
number that has exactly `k` digits.  Several of them with separators compare the way
the lists of their numbers do, whatever follows. -/

/-- The last `k` decimal digits of `n`. -/
def fixedWidth : Nat → Nat → List Char
  | 0, _ => []
  | k + 1, n => fixedWidth k (n / 10) ++ [Nat.digitChar (n % 10)]

namespace FixedWidth

theorem length_fixedWidth (k n : Nat) : (fixedWidth k n).length = k := by
  induction k generalizing n with
  | zero => rfl
  | succ k ih => rw [fixedWidth, List.length_append, ih, List.length_singleton]

/-- Two numerals side by side are one numeral. -/
theorem fixedWidth_append (k j a : Nat) {b : Nat} (hb : b < 10 ^ j) :
    fixedWidth k a ++ fixedWidth j b = fixedWidth (k + j) (a * 10 ^ j + b) := by
  induction j generalizing b with
  | zero =>
    obtain rfl : b = 0 := by omega
    simp [fixedWidth]
  | succ j ih =>
    have hpow : a * 10 ^ (j + 1) = 10 * (a * 10 ^ j) := by
      rw [Nat.pow_succ, ← Nat.mul_assoc, Nat.mul_comm]
    have hdiv : (a * 10 ^ (j + 1) + b) / 10 = a * 10 ^ j + b / 10 := by omega
    have hmod : (a * 10 ^ (j + 1) + b) % 10 = b % 10 := by omega
    have hlast := ih (b := b / 10) (by omega)
    show fixedWidth k a ++ (fixedWidth j (b / 10) ++ [Nat.digitChar (b % 10)]) =
      fixedWidth (k + j) ((a * 10 ^ (j + 1) + b) / 10) ++
        [Nat.digitChar ((a * 10 ^ (j + 1) + b) % 10)]
    rw [← List.append_assoc, hlast, hdiv, hmod]

/-- The numeral of a number that has `k` digits. -/
theorem toDigits_eq {k n : Nat} (hlow : 10 ^ k ≤ n) (hhigh : n < 10 ^ (k + 1)) :
    Nat.toDigits 10 n = fixedWidth (k + 1) n := by
  induction k generalizing n with
  | zero =>
    have hdigit : n % 10 = n := by omega
    rw [Nat.toDigits_of_lt_base (by omega), fixedWidth, fixedWidth, hdigit, List.nil_append]
  | succ k ih =>
    have hleading := ih (n := n / 10) (by omega) (by omega)
    rw [Nat.toDigits_of_base_le (by decide) (by omega), hleading]
    rfl

/-! ## Order -/

theorem lex_append {α : Type} {r : α → α → Prop} {a b x y : List α} (h : List.Lex r a b)
    (hlength : a.length = b.length) : List.Lex r (a ++ x) (b ++ y) := by
  induction h with
  | nil => cases hlength
  | cons _ ih => exact .cons (ih (Nat.succ.inj hlength))
  | rel h => exact .rel h

theorem digitChar_lt {a b : Nat} (h : a < b) (hb : b < 10) : Nat.digitChar a < Nat.digitChar b := by
  have hall : ∀ b < 10, ∀ a < b, Nat.digitChar a < Nat.digitChar b := by decide
  exact hall b hb a h

/-- **A smaller number has a smaller numeral.** -/
theorem fixedWidth_lex {k m n : Nat} (h : m < n) (hn : n < 10 ^ k) :
    List.Lex (· < ·) (fixedWidth k m) (fixedWidth k n) := by
  induction k generalizing m n with
  | zero => omega
  | succ k ih =>
    rw [fixedWidth, fixedWidth]
    rcases Nat.lt_or_ge (m / 10) (n / 10) with hlt | hge
    · -- the leading digits decide
      apply lex_append (ih hlt (by omega))
      rw [length_fixedWidth, length_fixedWidth]
    · have heq : m / 10 = n / 10 := by omega
      rw [heq]
      exact .append_left _ (.rel (digitChar_lt (by omega) (by omega))) _

theorem fixedWidth_inj {k m n : Nat} (hm : m < 10 ^ k) (hn : n < 10 ^ k)
    (h : fixedWidth k m = fixedWidth k n) : m = n := by
  have hirrefl : ∀ l : List Char, ¬ List.Lex (· < ·) l l := fun l => irrefl_of _ l
  rcases Nat.lt_trichotomy m n with hlt | heq | hgt
  · exact absurd (h ▸ fixedWidth_lex hlt hn) (hirrefl _)
  · exact heq
  · exact absurd (h ▸ fixedWidth_lex hgt hm) (hirrefl _)

/-! ## Several numerals in a row -/

/-- Numerals of given widths, each with the separator that ends it. -/
def fields : List (Nat × Char) → List Nat → List Char
  | (k, c) :: format, n :: numbers => fixedWidth k n ++ c :: fields format numbers
  | _, _ => []

/-- The numbers have the widths of the format. -/
def Fits (format : List (Nat × Char)) (numbers : List Nat) : Prop :=
  List.Forall₂ (fun f n => n < 10 ^ f.1) format numbers

variable {format : List (Nat × Char)} {m n : List Nat} {x y : List Char}

theorem length_fields (h : Fits format m) :
    (fields format m).length = format.foldr (fun f width => f.1 + 1 + width) 0 := by
  induction h with
  | nil => rfl
  | cons _ _ ih =>
    simp only [fields, List.length_append, length_fixedWidth, List.length_cons, ih,
      List.foldr_cons]
    omega

theorem isDigit_of_mem_fixedWidth {k a : Nat} {c : Char} (h : c ∈ fixedWidth k a) :
    c.isDigit = true := by
  induction k generalizing a with
  | zero => cases h
  | succ k ih =>
    rcases List.mem_append.mp h with h | h
    · exact ih h
    · rw [List.mem_singleton.mp h]
      have hall : ∀ d < 10, (Nat.digitChar d).isDigit = true := by decide
      exact hall _ (Nat.mod_lt _ (by decide))

/-- Only digits and separators are written. -/
theorem mem_fields {c : Char} (h : c ∈ fields format m) :
    c.isDigit = true ∨ ∃ f ∈ format, c = f.2 := by
  induction format generalizing m with
  | nil => cases h
  | cons f format ih =>
    cases m with
    | nil => cases h
    | cons n m =>
      rcases List.mem_append.mp h with h | h
      · exact Or.inl (isDigit_of_mem_fixedWidth h)
      · rcases List.mem_cons.mp h with rfl | h
        · exact Or.inr ⟨f, List.mem_cons_self, rfl⟩
        · rcases ih h with h | ⟨g, hg, hc⟩
          · exact Or.inl h
          · exact Or.inr ⟨g, List.mem_cons_of_mem _ hg, hc⟩

theorem fields_lex (hm : Fits format m) (hn : Fits format n) (h : List.Lex (· < ·) m n) :
    List.Lex (· < ·) (fields format m ++ x) (fields format n ++ y) := by
  induction hm generalizing n with
  | nil =>
    cases hn
    cases h
  | cons _ _ ih =>
    cases hn with
    | cons hfits hn =>
      simp only [fields, List.append_assoc, List.cons_append]
      cases h with
      | cons h => exact .append_left _ (.cons (ih hn h)) _
      | rel h =>
        -- the first numbers differ
        apply lex_append (fixedWidth_lex h hfits)
        rw [length_fixedWidth, length_fixedWidth]

/-- **Numerals in a row compare as the lists of their numbers**, and then by what
follows. -/
theorem fields_lex_iff (hm : Fits format m) (hn : Fits format n) :
    List.Lex (· < ·) (fields format m ++ x) (fields format n ++ y) ↔
      List.Lex (· < ·) m n ∨ (m = n ∧ List.Lex (· < ·) x y) := by
  constructor
  · intro h
    by_cases hlt : List.Lex (· < ·) m n
    · exact Or.inl hlt
    · have hgt : ¬ List.Lex (· < ·) n m := fun hgt => asymm_of _ h (fields_lex hn hm hgt)
      obtain rfl : m = n := Std.Trichotomous.trichotomous (r := List.Lex (· < ·)) m n hlt hgt
      refine Or.inr ⟨rfl, ?_⟩
      by_contra hnot
      by_cases hyx : List.Lex (· < ·) y x
      · exact asymm_of _ h (hyx.append_left _ _)
      · obtain rfl := Std.Trichotomous.trichotomous (r := List.Lex (· < ·)) x y hnot hyx
        exact irrefl_of (List.Lex (· < ·)) _ h
  · rintro (h | ⟨rfl, h⟩)
    · exact fields_lex hm hn h
    · exact h.append_left _ _

theorem fields_inj (hm : Fits format m) (hn : Fits format n)
    (h : fields format m ++ x = fields format n ++ y) : m = n ∧ x = y := by
  have hirrefl : ∀ l : List Char, ¬ List.Lex (· < ·) l l := fun l => irrefl_of _ l
  have hmn : ¬ List.Lex (· < ·) m n := fun hlt =>
    hirrefl _ (h ▸ fields_lex (x := x) (y := y) hm hn hlt)
  have hnm : ¬ List.Lex (· < ·) n m := fun hlt =>
    hirrefl _ (h ▸ fields_lex (x := y) (y := x) hn hm hlt)
  obtain rfl : m = n := Std.Trichotomous.trichotomous (r := List.Lex (· < ·)) m n hmn hnm
  exact ⟨rfl, List.append_cancel_left h⟩

end FixedWidth
