import Mathlib.Data.List.Basic
import Mathlib.Logic.Function.Basic

/-! # Names and files

A file system as far as a program that opens for appending and renames can tell:
names refer to files, and a file keeps its identity, and its open handles, when
its name changes.  `Preserves` is the relation of two states of which the second
has lost nothing of the first. -/

universe u v

/-- Names, the contents of files by their numbers, and the first unused number. -/
structure FileStore (Name : Type u) (Byte : Type v) where
  names : Name → Option Nat
  content : Nat → List Byte
  next : Nat
  /-- Every named file has a number that is in use. -/
  fresh : ∀ n f, names n = some f → f < next

namespace FileStore
variable {Name : Type u} {Byte : Type v} [DecidableEq Name]

/-- The size `stat` reports, if the name exists. -/
def size? (s : FileStore Name Byte) (n : Name) : Option Nat :=
  (s.names n).map fun f => (s.content f).length

/-- POSIX `rename` of an existing name: a target that exists is replaced. -/
def rename (s : FileStore Name Byte) (old new : Name) : FileStore Name Byte where
  names n := if n = new then s.names old else if n = old then none else s.names n
  content := s.content
  next := s.next
  fresh n f h := by
    split at h
    · exact s.fresh _ f h
    · split at h
      · cases h
      · exact s.fresh _ f h

/-- `fopen` for appending: the file of that name, or a new empty one. -/
def openAppend (s : FileStore Name Byte) (n : Name) : Nat × FileStore Name Byte :=
  match s.names n with
  | some f => (f, s)
  | none => (s.next,
      { names := Function.update s.names n (some s.next)
        content := Function.update s.content s.next []
        next := s.next + 1
        fresh := by
          intro m f h
          by_cases hm : m = n
          · subst hm
            rw [Function.update_self] at h
            exact Nat.lt_succ_of_le (Nat.le_of_eq (Option.some.inj h).symm)
          · rw [Function.update_of_ne hm] at h
            exact Nat.lt_succ_of_lt (s.fresh m f h) })

/-- Appending to an open file. -/
def append (s : FileStore Name Byte) (f : Nat) (bytes : List Byte) : FileStore Name Byte :=
  { s with content := Function.update s.content f (s.content f ++ bytes) }

/-! ## Names after an operation -/

omit [DecidableEq Name] in
theorem size?_eq_some_iff {s : FileStore Name Byte} {n : Name} {k : Nat} :
    s.size? n = some k ↔ ∃ f, s.names n = some f ∧ (s.content f).length = k :=
  Option.map_eq_some_iff

omit [DecidableEq Name] in
theorem size?_eq_none_iff {s : FileStore Name Byte} {n : Name} :
    s.size? n = none ↔ s.names n = none :=
  Option.map_eq_none_iff

theorem names_rename_new (s : FileStore Name Byte) (old new : Name) :
    (s.rename old new).names new = s.names old := if_pos rfl

theorem names_rename_old {s : FileStore Name Byte} {old new : Name} (h : old ≠ new) :
    (s.rename old new).names old = none := by
  simp [rename, h]

theorem names_rename_other {s : FileStore Name Byte} {old new n : Name} (h₁ : n ≠ new)
    (h₂ : n ≠ old) : (s.rename old new).names n = s.names n := by
  simp [rename, h₁, h₂]

theorem openAppend_of_some {s : FileStore Name Byte} {n : Name} {f : Nat}
    (h : s.names n = some f) : s.openAppend n = (f, s) := by
  unfold openAppend
  rw [h]

theorem openAppend_of_none {s : FileStore Name Byte} {n : Name} (h : s.names n = none) :
    (s.openAppend n).1 = s.next ∧
      (s.openAppend n).2.names = Function.update s.names n (some s.next) ∧
      (s.openAppend n).2.content = Function.update s.content s.next [] := by
  unfold openAppend
  rw [h]
  exact ⟨rfl, rfl, rfl⟩

/-- Opening gives the name the file it returns. -/
theorem names_openAppend_self (s : FileStore Name Byte) (n : Name) :
    (s.openAppend n).2.names n = some (s.openAppend n).1 := by
  cases h : s.names n with
  | some f => rw [openAppend_of_some h]; exact h
  | none =>
    obtain ⟨h₁, h₂, -⟩ := openAppend_of_none h
    rw [h₁, h₂, Function.update_self]

theorem names_openAppend_other {s : FileStore Name Byte} {n m : Name} (h : m ≠ n) :
    (s.openAppend n).2.names m = s.names m := by
  cases hn : s.names n with
  | some f => rw [openAppend_of_some hn]
  | none => rw [(openAppend_of_none hn).2.1, Function.update_of_ne h]

/-- Opening takes no name away. -/
theorem names_openAppend_of_some {s : FileStore Name Byte} {n m : Name} {f : Nat}
    (h : s.names m = some f) : (s.openAppend n).2.names m = some f := by
  by_cases hm : m = n
  · subst hm
    rw [openAppend_of_some h]
    exact h
  · rw [names_openAppend_other hm]
    exact h

/-- Opening changes the contents of no file in use. -/
theorem content_openAppend {s : FileStore Name Byte} {n : Name} {f : Nat} (h : f < s.next) :
    (s.openAppend n).2.content f = s.content f := by
  cases hn : s.names n with
  | some g => rw [openAppend_of_some hn]
  | none => rw [(openAppend_of_none hn).2.2, Function.update_of_ne (Nat.ne_of_lt h)]

theorem content_openAppend_new {s : FileStore Name Byte} {n : Name} (h : s.names n = none) :
    (s.openAppend n).2.content (s.openAppend n).1 = [] := by
  obtain ⟨h₁, -, h₃⟩ := openAppend_of_none h
  rw [h₁, h₃, Function.update_self]

omit [DecidableEq Name] in
theorem content_append_self (s : FileStore Name Byte) (f : Nat) (bytes : List Byte) :
    (s.append f bytes).content f = s.content f ++ bytes := Function.update_self ..

omit [DecidableEq Name] in
theorem content_append_other {s : FileStore Name Byte} {f g : Nat} {bytes : List Byte}
    (h : g ≠ f) : (s.append f bytes).content g = s.content g := Function.update_of_ne h ..

omit [DecidableEq Name] in
theorem size?_of_names {s : FileStore Name Byte} {n : Name} {f : Nat} (h : s.names n = some f) :
    s.size? n = some (s.content f).length := by
  rw [size?, h, Option.map_some]

/-! ## Nothing is lost -/

/-- Every file the first state names is named by the second, with what it held as
a beginning of what it holds. -/
def Preserves (s t : FileStore Name Byte) : Prop :=
  ∀ n f, s.names n = some f → (∃ m, t.names m = some f) ∧ s.content f <+: t.content f

omit [DecidableEq Name] in
theorem Preserves.refl (s : FileStore Name Byte) : s.Preserves s :=
  fun n _ h => ⟨⟨n, h⟩, List.prefix_refl _⟩

omit [DecidableEq Name] in
theorem Preserves.trans {s t r : FileStore Name Byte} (h₁ : s.Preserves t) (h₂ : t.Preserves r) :
    s.Preserves r := by
  intro n f hn
  obtain ⟨⟨m, hm⟩, hc⟩ := h₁ n f hn
  obtain ⟨hr, hc'⟩ := h₂ m f hm
  exact ⟨hr, hc.trans hc'⟩

/-- A rename to a free name loses nothing. -/
theorem preserves_rename {s : FileStore Name Byte} {old new : Name} (h : s.names new = none) :
    s.Preserves (s.rename old new) := by
  intro n f hn
  refine ⟨?_, List.prefix_refl _⟩
  by_cases ho : n = old
  · exact ⟨new, by rw [names_rename_new, ← ho, hn]⟩
  · have hne : n ≠ new := by
      rintro rfl
      rw [h] at hn
      cases hn
    exact ⟨n, by rw [names_rename_other hne ho, hn]⟩

theorem preserves_openAppend (s : FileStore Name Byte) (n : Name) :
    s.Preserves (s.openAppend n).2 := by
  intro m f hm
  have hlt := s.fresh m f hm
  refine ⟨?_, content_openAppend hlt ▸ List.prefix_refl _⟩
  by_cases he : m = n
  · subst he
    rw [openAppend_of_some hm]
    exact ⟨m, hm⟩
  · exact ⟨m, by rw [names_openAppend_other he, hm]⟩

omit [DecidableEq Name] in
theorem preserves_append (s : FileStore Name Byte) (f : Nat) (bytes : List Byte) :
    s.Preserves (s.append f bytes) := by
  intro n g hn
  refine ⟨⟨n, hn⟩, ?_⟩
  by_cases he : g = f
  · subst he
    rw [content_append_self]
    exact List.prefix_append _ _
  · have hsame : (s.append f bytes).content g = s.content g := content_append_other he
    exact hsame ▸ List.prefix_refl _


/-! ## Files with one name -/

/-- The file has at most one name: no hard links. -/
def SoleName (s : FileStore Name Byte) (f : Nat) : Prop :=
  ∀ n m, s.names n = some f → s.names m = some f → n = m

omit [DecidableEq Name] in
theorem SoleName.append {s : FileStore Name Byte} {f g : Nat} {bytes : List Byte}
    (h : s.SoleName f) : (s.append g bytes).SoleName f := h

/-- A rename to a free name gives no file a second name. -/
theorem SoleName.rename {s : FileStore Name Byte} {old new : Name} {f : Nat} (h : s.SoleName f)
    (hfree : s.names new = none) : (s.rename old new).SoleName f := by
  -- the name a file had before the rename
  have hbefore : ∀ n, (s.rename old new).names n = some f →
      (n = new ∧ s.names old = some f) ∨ (n ≠ new ∧ n ≠ old ∧ s.names n = some f) := by
    intro n hn
    by_cases hnew : n = new
    · subst hnew
      exact Or.inl ⟨rfl, (names_rename_new s old n).symm.trans hn⟩
    · by_cases hold : n = old
      · rw [hold, names_rename_old (hold ▸ hnew)] at hn
        cases hn
      · exact Or.inr ⟨hnew, hold, (names_rename_other hnew hold).symm.trans hn⟩
  intro n m hn hm
  rcases hbefore n hn with ⟨hn₁, ho⟩ | ⟨-, hno, hn₁⟩
  · rcases hbefore m hm with ⟨hm₁, -⟩ | ⟨-, hmo, hm₁⟩
    · rw [hn₁, hm₁]
    · exact absurd (h m old hm₁ ho) hmo
  · rcases hbefore m hm with ⟨-, ho⟩ | ⟨-, -, hm₁⟩
    · exact absurd (h n old hn₁ ho) hno
    · exact h n m hn₁ hm₁

/-- Opening gives a file a name only if it makes the file. -/
theorem SoleName.openAppend {s : FileStore Name Byte} {p : Name} {f : Nat} (h : s.SoleName f) :
    (s.openAppend p).2.SoleName f := by
  cases hp : s.names p with
  | some g => rw [openAppend_of_some hp]; exact h
  | none =>
    obtain ⟨-, hnames, -⟩ := openAppend_of_none hp
    intro n m hn hm
    rw [hnames] at hn hm
    by_cases hf : f = s.next
    · -- no old name leads to the new file
      have hold : ∀ n, Function.update s.names p (some s.next) n = some f → n = p := by
        intro n hn
        by_contra hne
        rw [Function.update_of_ne hne] at hn
        exact absurd (s.fresh n f hn) (by omega)
      rw [hold n hn, hold m hm]
    · have hold : ∀ n, Function.update s.names p (some s.next) n = some f →
          s.names n = some f := by
        intro n hn
        by_cases he : n = p
        · rw [he, Function.update_self] at hn
          exact absurd (Option.some.inj hn).symm hf
        · rwa [Function.update_of_ne he] at hn
      exact h n m (hold n hn) (hold m hm)

end FileStore
