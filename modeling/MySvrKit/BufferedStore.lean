import MySvrKit.FileStore

/-! # Files that are written through buffers

What a program writes to a file stays in the buffer of its stream until the stream writes
some of it out, which it may do at any write, or is closed.  `settled` is the file system
with everything written out: every operation acts on it as on files without buffers, and
writing out does not change it. -/

universe u v

/-- A file system, and what has been written to each file and is still in a buffer. -/
structure BufferedStore (Name : Type u) (Byte : Type v) where
  disk : FileStore Name Byte
  buffered : Nat → List Byte

namespace BufferedStore
variable {Name : Type u} {Byte : Type v}

/-- The files with everything written out. -/
def settled (s : BufferedStore Name Byte) : FileStore Name Byte :=
  { s.disk with content := fun f => s.disk.content f ++ s.buffered f }

/-- The stream of a file takes the bytes, and then writes out the first `out` of what it
holds. -/
def write (s : BufferedStore Name Byte) (f : Nat) (bytes : List Byte) (out : Nat) :
    BufferedStore Name Byte where
  disk := s.disk.append f ((s.buffered f ++ bytes).take out)
  buffered := Function.update s.buffered f ((s.buffered f ++ bytes).drop out)

/-- The stream of a file writes out all it holds. -/
def flush (s : BufferedStore Name Byte) (f : Nat) : BufferedStore Name Byte where
  disk := s.disk.append f (s.buffered f)
  buffered := Function.update s.buffered f []

section
variable [DecidableEq Name]

def rename (s : BufferedStore Name Byte) (old new : Name) : BufferedStore Name Byte :=
  { s with disk := s.disk.rename old new }

/-- A file that is made has an empty buffer. -/
def openAppend (s : BufferedStore Name Byte) (n : Name) : Nat × BufferedStore Name Byte :=
  ((s.disk.openAppend n).1,
    { disk := (s.disk.openAppend n).2
      buffered :=
        if (s.disk.names n).isSome then s.buffered
        else Function.update s.buffered s.disk.next [] })

end

/-! ## The settled files -/

variable {s : BufferedStore Name Byte} {f g : Nat} {bytes : List Byte} {out : Nat}

/-- Files differ in what they hold only. -/
theorem settled_congr (s : FileStore Name Byte) {content content' : Nat → List Byte}
    (h : ∀ f, content f = content' f) : { s with content } = { s with content := content' } := by
  obtain rfl : content = content' := funext h
  rfl

/-- A write is an append to the settled files, however much of it is written out. -/
theorem settled_write (s : BufferedStore Name Byte) (f : Nat) (bytes : List Byte) (out : Nat) :
    (s.write f bytes out).settled = s.settled.append f bytes := by
  refine settled_congr s.disk fun g => ?_
  show Function.update s.disk.content f _ g ++ Function.update s.buffered f _ g =
    Function.update (fun f => s.disk.content f ++ s.buffered f) f _ g
  by_cases hg : g = f
  · rw [hg, Function.update_self, Function.update_self, Function.update_self, List.append_assoc,
      List.take_append_drop, ← List.append_assoc]
    rfl
  · rw [Function.update_of_ne hg, Function.update_of_ne hg, Function.update_of_ne hg]

theorem settled_flush (s : BufferedStore Name Byte) (f : Nat) :
    (s.flush f).settled = s.settled := by
  refine settled_congr s.disk fun g => ?_
  show Function.update s.disk.content f _ g ++ Function.update s.buffered f _ g = _
  by_cases hg : g = f
  · rw [hg, Function.update_self, Function.update_self, List.append_nil]
  · rw [Function.update_of_ne hg, Function.update_of_ne hg]

/-- With one buffer in use, the settled files are the files and what it holds. -/
theorem settled_of_sole (h : ∀ g, g ≠ f → s.buffered g = []) :
    s.settled = s.disk.append f (s.buffered f) := by
  refine settled_congr s.disk fun g => ?_
  show _ = Function.update s.disk.content f _ g
  by_cases hg : g = f
  · rw [hg, Function.update_self]
  · rw [Function.update_of_ne hg, h g hg, List.append_nil]

/-- With none in use, they are the files. -/
theorem settled_of_empty (h : ∀ f, s.buffered f = []) : s.settled = s.disk :=
  settled_congr s.disk fun f => by rw [h f, List.append_nil]

section
variable [DecidableEq Name]

theorem settled_rename (s : BufferedStore Name Byte) (old new : Name) :
    (s.rename old new).settled = s.settled.rename old new := rfl

theorem settled_openAppend (s : BufferedStore Name Byte) (n : Name) :
    s.settled.openAppend n = ((s.openAppend n).1, (s.openAppend n).2.settled) := by
  unfold settled openAppend FileStore.openAppend
  dsimp only
  cases hn : s.disk.names n with
  | some f => rfl
  | none =>
    dsimp only [Option.isSome_none]
    refine Prod.ext rfl ?_
    dsimp only
    congr 1
    funext g
    by_cases hg : g = s.disk.next
    · subst hg
      simp
    · simp [Function.update_of_ne hg]

end

/-! ## The buffers -/

theorem buffered_write_other (h : g ≠ f) : (s.write f bytes out).buffered g = s.buffered g :=
  Function.update_of_ne h ..

theorem buffered_flush_self (s : BufferedStore Name Byte) (f : Nat) :
    (s.flush f).buffered f = [] := Function.update_self ..

/-- Writing out fills no buffer, and nor does opening. -/
theorem buffered_flush_of_empty (h : s.buffered g = []) : (s.flush f).buffered g = [] := by
  by_cases hg : g = f
  · rw [hg]
    exact buffered_flush_self s f
  · exact (Function.update_of_ne hg ..).trans h

theorem buffered_openAppend_of_empty [DecidableEq Name] {n : Name} (h : s.buffered g = []) :
    (s.openAppend n).2.buffered g = [] := by
  unfold openAppend
  dsimp only
  split
  · exact h
  · by_cases hg : g = s.disk.next
    · rw [hg]
      exact Function.update_self ..
    · exact (Function.update_of_ne hg ..).trans h

end BufferedStore
