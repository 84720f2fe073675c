import MySvrKit.FileStore
import Mathlib.Data.List.Nodup

/-! # A log in several files

A log that outgrows its file goes on in a new one, and the old one is renamed to the first
free name of a list of archives.  Read in the order of that list, the archives and then the
current file give the whole log, as long as the archives are taken in order and what is
written goes to the last file there is. -/

universe u v

namespace FileStore
variable {Name : Type u} {Byte : Type v}

/-- What the files of these names hold, one after another. -/
def readAll (s : FileStore Name Byte) (ns : List Name) : List Byte :=
  ns.flatMap fun n => ((s.names n).map s.content).getD []

/-- A later name has a file only if the earlier ones do. -/
def InOrder (s : FileStore Name Byte) (ns : List Name) : Prop :=
  ns.Pairwise fun n m => s.names n = none → s.names m = none

/-- The last file there is under these names. -/
def EndsIn (s : FileStore Name Byte) (ns : List Name) (f : Nat) : Prop :=
  ∃ before n after, ns = before ++ n :: after ∧ s.names n = some f ∧
    ∀ m ∈ after, s.names m = none

/-- Files that hold `text` as a log: the archives in order, then the current file. -/
structure Segmented (s : FileStore Name Byte) (archives : List Name) (current : Name)
    (text : List Byte) : Prop where
  inOrder : s.InOrder archives
  text_eq : s.readAll (archives ++ [current]) = text

/-! ## Reading -/

section
variable {s t : FileStore Name Byte} {ns ms : List Name} {n : Name} {f : Nat}

theorem readAll_append (s : FileStore Name Byte) (ns ms : List Name) :
    s.readAll (ns ++ ms) = s.readAll ns ++ s.readAll ms := List.flatMap_append

theorem readAll_cons (s : FileStore Name Byte) (n : Name) (ns : List Name) :
    s.readAll (n :: ns) = ((s.names n).map s.content).getD [] ++ s.readAll ns := rfl

theorem readAll_cons_of_names (h : s.names n = some f) (ns : List Name) :
    s.readAll (n :: ns) = s.content f ++ s.readAll ns := by
  rw [readAll_cons, h]
  rfl

theorem readAll_cons_of_none (h : s.names n = none) (ns : List Name) :
    s.readAll (n :: ns) = s.readAll ns := by
  rw [readAll_cons, h]
  rfl

theorem readAll_of_none (h : ∀ n ∈ ns, s.names n = none) : s.readAll ns = [] := by
  induction ns with
  | nil => rfl
  | cons n ns ih =>
    rw [readAll_cons_of_none (h n List.mem_cons_self)]
    exact ih fun m hm => h m (List.mem_cons_of_mem n hm)

/-- Reading depends on the names read and on the files they have. -/
theorem readAll_congr (hnames : ∀ n ∈ ns, t.names n = s.names n)
    (hcontent : ∀ n ∈ ns, ∀ f, s.names n = some f → t.content f = s.content f) :
    t.readAll ns = s.readAll ns := by
  induction ns with
  | nil => rfl
  | cons n ns ih =>
    have hrest := ih (fun m hm => hnames m (List.mem_cons_of_mem n hm))
      fun m hm => hcontent m (List.mem_cons_of_mem n hm)
    have hname := hnames n List.mem_cons_self
    cases hn : s.names n with
    | none => rw [readAll_cons_of_none hn, readAll_cons_of_none (hname.trans hn), hrest]
    | some f =>
      rw [readAll_cons_of_names hn, readAll_cons_of_names (hname.trans hn), hrest,
        hcontent n List.mem_cons_self f hn]

theorem InOrder.congr (h : s.InOrder ns) (hnames : ∀ n ∈ ns, t.names n = s.names n) :
    t.InOrder ns := by
  refine List.Pairwise.imp_of_mem (fun hn hm hnone => ?_) h
  rw [hnames _ hn, hnames _ hm]
  exact hnone

/-- Files that are left alone hold the log they held. -/
theorem Segmented.congr {archives : List Name} {current : Name} {text : List Byte}
    (h : s.Segmented archives current text)
    (hnames : ∀ n ∈ archives ++ [current], t.names n = s.names n)
    (hcontent : ∀ n ∈ archives ++ [current], ∀ f, s.names n = some f →
      t.content f = s.content f) : t.Segmented archives current text where
  inOrder := h.inOrder.congr fun n hn => hnames n (List.mem_append_left _ hn)
  text_eq := (readAll_congr hnames hcontent).trans h.text_eq

/-- The current file, where there is one, is the last. -/
theorem endsIn_current (archives : List Name) (h : s.names n = some f) :
    s.EndsIn (archives ++ [n]) f :=
  ⟨archives, n, [], rfl, h, fun _ hm => absurd hm List.not_mem_nil⟩

theorem EndsIn.congr (h : s.EndsIn ns f) (hnames : ∀ n ∈ ns, t.names n = s.names n) :
    t.EndsIn ns f := by
  obtain ⟨before, n, after, rfl, hn, hafter⟩ := h
  have hmem : n ∈ before ++ n :: after := List.mem_append_right _ List.mem_cons_self
  refine ⟨before, n, after, rfl, (hnames n hmem).trans hn, fun m hm => ?_⟩
  rw [hnames m (List.mem_append_right _ (List.mem_cons_of_mem _ hm))]
  exact hafter m hm

theorem EndsIn.exists_name (h : s.EndsIn ns f) : ∃ n ∈ ns, s.names n = some f := by
  obtain ⟨before, n, after, rfl, hn, -⟩ := h
  exact ⟨n, List.mem_append_right _ List.mem_cons_self, hn⟩

theorem EndsIn.eq_current {archives : List Name} {g : Nat} (h : s.EndsIn (archives ++ [n]) f)
    (hn : s.names n = some g) : f = g := by
  obtain ⟨before, m, after, heq, hm, hafter⟩ := h
  cases after with
  | nil =>
    obtain ⟨-, hsame⟩ := List.append_inj' heq rfl
    rw [List.singleton_inj] at hsame
    rw [hsame, hm] at hn
    exact Option.some.inj hn
  | cons a after =>
    -- the last of the names that have no file would be the current one
    have hlast : n ∈ a :: after := by
      have hmem := congrArg List.getLast? heq
      rw [List.getLast?_append_cons, List.getLast?_append_cons, List.getLast?_singleton,
        List.getLast?_cons_cons] at hmem
      exact List.mem_of_getLast? hmem.symm
    rw [hafter n hlast] at hn
    cases hn

end

/-! ## Writing, opening and rotating -/

variable [DecidableEq Name] {s : FileStore Name Byte} {archives : List Name} {current : Name}
  {text : List Byte} {f : Nat}

omit [DecidableEq Name] in
theorem readAll_append_of_ne {ns : List Name} (h : ∀ n ∈ ns, s.names n ≠ some f)
    (bytes : List Byte) : (s.append f bytes).readAll ns = s.readAll ns := by
  refine readAll_congr (fun _ _ => rfl) fun n hn g hg => content_append_other ?_
  rintro rfl
  exact h n hn hg

omit [DecidableEq Name] in
/-- What is written to the last file is the end of what is read. -/
theorem EndsIn.readAll_append {ns : List Name} (h : s.EndsIn ns f) (hnodup : ns.Nodup)
    (hsole : s.SoleName f) (bytes : List Byte) :
    (s.append f bytes).readAll ns = s.readAll ns ++ bytes := by
  obtain ⟨before, n, after, rfl, hn, hafter⟩ := h
  obtain ⟨-, -, hdisjoint⟩ := List.nodup_append.mp hnodup
  have hbefore : ∀ m ∈ before, s.names m ≠ some f := fun m hm hname =>
    hdisjoint m hm n List.mem_cons_self (hsole m n hname hn)
  have hn' : (s.append f bytes).names n = some f := hn
  have hafter' : ∀ m ∈ after, (s.append f bytes).names m = none := hafter
  rw [FileStore.readAll_append, readAll_append_of_ne hbefore, readAll_cons_of_names hn',
    readAll_of_none hafter', content_append_self, FileStore.readAll_append,
    readAll_cons_of_names hn, readAll_of_none hafter]
  simp only [List.append_nil, List.append_assoc]

omit [DecidableEq Name] in
/-- Writing to the last file makes the log longer at its end. -/
theorem Segmented.append (h : s.Segmented archives current text)
    (hend : s.EndsIn (archives ++ [current]) f) (hnodup : (archives ++ [current]).Nodup)
    (hsole : s.SoleName f) (bytes : List Byte) :
    (s.append f bytes).Segmented archives current (text ++ bytes) where
  inOrder := h.inOrder
  text_eq := by rw [hend.readAll_append hnodup hsole, h.text_eq]

omit [DecidableEq Name] in
/-- Writing to a file that has another name leaves the log. -/
theorem Segmented.append_other (h : s.Segmented archives current text)
    (hother : ∀ n ∈ archives ++ [current], s.names n ≠ some f) (bytes : List Byte) :
    (s.append f bytes).Segmented archives current text where
  inOrder := h.inOrder
  text_eq := by rw [readAll_append_of_ne hother, h.text_eq]

/-- A file made by opening it is empty. -/
theorem readAll_openAppend (s : FileStore Name Byte) (path : Name) (ns : List Name) :
    (s.openAppend path).2.readAll ns = s.readAll ns := by
  cases hpath : s.names path with
  | some f => rw [openAppend_of_some hpath]
  | none =>
    obtain ⟨-, hnames, hcontent⟩ := openAppend_of_none hpath
    induction ns with
    | nil => rfl
    | cons n ns ih =>
      rw [readAll_cons, readAll_cons, ih]
      congr 1
      by_cases hn : n = path
      · rw [hn, hnames, hcontent, hpath, Function.update_self, Option.map_some,
          Function.update_self]
        rfl
      · rw [hnames, hcontent, Function.update_of_ne hn]
        cases hfile : s.names n with
        | none => rfl
        | some f =>
          have hne : f ≠ s.next := Nat.ne_of_lt (s.fresh n f hfile)
          rw [Option.map_some, Option.map_some, Function.update_of_ne hne]

theorem Segmented.openAppend (h : s.Segmented archives current text) {path : Name}
    (hpath : path ∉ archives) : (s.openAppend path).2.Segmented archives current text where
  inOrder := h.inOrder.congr fun _ hn =>
    names_openAppend_other (fun he => hpath (he ▸ hn))
  text_eq := (readAll_openAppend s path _).trans h.text_eq

section
variable {before after : List Name} {new : Name}

omit [DecidableEq Name] in
/-- In order, there is no file under the names behind a free one. -/
theorem InOrder.none_of_free (h : s.InOrder (before ++ new :: after)) (hfree : s.names new = none) :
    ∀ n ∈ after, s.names n = none := by
  intro n hn
  have hrest := (List.pairwise_append.mp h).2.1
  exact (List.pairwise_cons.mp hrest).1 n hn hfree

/-- **Rotation**: the current file becomes the first free archive, and nothing of the log
is lost or moved in it. -/
theorem Segmented.rotate (h : s.Segmented (before ++ new :: after) current text)
    (htaken : ∀ n ∈ before, s.names n ≠ none) (hfree : s.names new = none)
    (hcurrent : s.names current = some f)
    (hnodup : (before ++ new :: after ++ [current]).Nodup) :
    (s.rename current new).Segmented (before ++ new :: after) current text ∧
      (s.rename current new).EndsIn (before ++ new :: after ++ [current]) f := by
  obtain ⟨hnodup', -, hdisjoint⟩ := List.nodup_append.mp hnodup
  have hne : ∀ n ∈ before ++ new :: after, n ≠ current := fun n hn =>
    hdisjoint n hn current (List.mem_singleton_self _)
  have hnew : new ∈ before ++ new :: after := List.mem_append_right _ List.mem_cons_self
  have hcurrent_new : current ≠ new := (hne new hnew).symm
  obtain ⟨-, hrest, hbefore_new⟩ := List.nodup_append.mp hnodup'
  have hbefore : ∀ n ∈ before, (s.rename current new).names n = s.names n := fun n hn =>
    names_rename_other (hbefore_new n hn new List.mem_cons_self)
      (hne n (List.mem_append_left _ hn))
  have hafter_none := h.inOrder.none_of_free hfree
  have hafter : ∀ n ∈ after, (s.rename current new).names n = none := by
    intro n hn
    have hn_new : n ≠ new := fun he => (List.nodup_cons.mp hrest).1 (he ▸ hn)
    rw [names_rename_other hn_new
      (hne n (List.mem_append_right _ (List.mem_cons_of_mem _ hn)))]
    exact hafter_none n hn
  have hnew_file : (s.rename current new).names new = some f :=
    (names_rename_new s current new).trans hcurrent
  have hcurrent_none : (s.rename current new).names current = none :=
    names_rename_old hcurrent_new
  refine ⟨⟨?_, ?_⟩, before, new, after ++ [current], ?_, hnew_file, ?_⟩
  · -- the archives up to the new one have files, the ones behind it have none
    refine List.pairwise_append.mpr ⟨?_, List.pairwise_cons.mpr ⟨?_, ?_⟩, ?_⟩
    · exact (List.pairwise_append.mp h.inOrder).1.imp_of_mem fun hn hm hnone => by
        rw [hbefore _ hn, hbefore _ hm]
        exact hnone
    · intro n _ hnone
      rw [hnew_file] at hnone
      cases hnone
    · exact List.pairwise_of_forall_mem_list fun _ _ m hm _ => hafter m hm
    · intro n hn m _ hnone
      rw [hbefore n hn] at hnone
      exact absurd hnone (htaken n hn)
  · have htext := h.text_eq
    have hkept : (s.rename current new).readAll before = s.readAll before :=
      readAll_congr hbefore fun _ _ _ _ => rfl
    rw [List.append_assoc, List.cons_append, FileStore.readAll_append,
      readAll_cons_of_none hfree, FileStore.readAll_append, readAll_of_none hafter_none,
      List.nil_append, readAll_cons_of_names hcurrent] at htext
    rw [List.append_assoc, List.cons_append, FileStore.readAll_append, hkept,
      readAll_cons_of_names hnew_file, FileStore.readAll_append, readAll_of_none hafter,
      readAll_cons_of_none hcurrent_none]
    exact htext
  · simp only [List.append_assoc, List.cons_append]
  · intro n hn
    rcases List.mem_append.mp hn with hn | hn
    · exact hafter n hn
    · rw [List.mem_singleton.mp hn]
      exact hcurrent_none

end

end FileStore
