import MySvrKit.FileSegments
import MySvrKit.LogNames
import MySvrKit.LogStdio

/-! # A day's log can be read back

`RotateLogFilePathWithSize` renames a full file to the first free archive name and leaves
the handle open on it, so later lines of that process still go to the archive, and a file
of the day's own name comes back only when one is opened again.  Even so the archives in
the order of their numbers and then the day's file hold the lines of the day in the order
they were printed, up to what the open stream has not written out, over any number of
processes one after another. -/

universe u v

namespace MySvrKit

/-- The archive names of a path, as `RotateLogFilePathWithSize` tries them. -/
def archivePaths (logFilePath : Str) : List Str :=
  (List.range kLogFileMaxNum).map (archivePath logFilePath)

/-- The names a path's log has, in the order to read them. -/
def logParts (logFilePath : Str) : List Str := archivePaths logFilePath ++ [logFilePath]

/-- `LogFileMgr::~LogFileMgr`. -/
def LogFileMgr.destroy {World : Type u} {Handle : Type v} (os : Posix World Handle)
    (mgr : LogFileMgr Handle) (w : World) : World :=
  match mgr.ptrLogFile with
  | some file => os.fclose file w
  | none => w

/-! ## The names -/

section
variable {p n : Str} {d e : Day}

theorem mem_logParts :
    n ∈ logParts p ↔ (∃ i, i < kLogFileMaxNum ∧ archivePath p i = n) ∨ n = p := by
  simp only [logParts, archivePaths, List.mem_append, List.mem_map, List.mem_range,
    List.mem_singleton]

/-- The days keep their logs under different names. -/
theorem logParts_disjoint (hd : d.InCalendar) (he : e.InCalendar) (hne : d ≠ e)
    (hn : n ∈ logParts (rotateLogFilePathWithDay p d)) :
    n ∉ logParts (rotateLogFilePathWithDay p e) := by
  intro hn'
  rcases mem_logParts.mp hn with ⟨i, -, hi⟩ | hday <;>
    rcases mem_logParts.mp hn' with ⟨j, -, hj⟩ | hday'
  · exact hne (archivePath_inj hd he (hi.trans hj.symm)).1
  · exact archivePath_ne_dayPath hd he i (hi.trans hday')
  · exact archivePath_ne_dayPath he hd j (hj.trans hday)
  · exact hne (rotateLogFilePathWithDay_inj hd he (hday.symm.trans hday')).2

theorem logParts_nodup (hd : d.InCalendar) : (logParts (rotateLogFilePathWithDay p d)).Nodup := by
  refine List.nodup_append.mpr ⟨?_, List.nodup_singleton _, ?_⟩
  · exact List.Nodup.map (fun _ _ h => (archivePath_inj hd hd h).2) List.nodup_range
  · intro n hn m hm he
    obtain ⟨i, -, rfl⟩ := List.mem_map.mp hn
    exact archivePath_ne _ i ((List.mem_singleton.mp hm).symm.trans he.symm)

/-- The archive names tried before one, and behind it. -/
theorem archivePaths_split (p : Str) {i : Nat} (hi : i < kLogFileMaxNum) :
    ∃ after, archivePaths p = (List.range i).map (archivePath p) ++ archivePath p i :: after := by
  obtain ⟨r, hr⟩ : ∃ r, kLogFileMaxNum = i + (r + 1) := ⟨kLogFileMaxNum - i - 1, by omega⟩
  refine ⟨(List.range' (i + 1) r).map (archivePath p), ?_⟩
  have hrange : List.range kLogFileMaxNum = List.range i ++ i :: List.range' (i + 1) r := by
    rw [hr, List.range_eq_range', List.range_eq_range', ← List.range'_succ]
    simpa using (List.range'_append_1 (s := 0) (m := i) (n := r + 1)).symm
  rw [archivePaths, hrange, List.map_append, List.map_cons]

end

/-! ## The logs of all days -/

/-- The files hold `text d` as the log of each day `d`, and have no hard links. -/
structure HoldsDays (fs : FileStore Str Char) (logFilePath : Str) (text : Day → Str) : Prop where
  soleName : ∀ f, fs.SoleName f
  segmented : ∀ d, d.InCalendar → fs.Segmented
    (archivePaths (rotateLogFilePathWithDay logFilePath d)) (rotateLogFilePathWithDay logFilePath d)
    (text d)

/-- The file is the last of the day's log. -/
def LastOf (fs : FileStore Str Char) (logFilePath : Str) (d : Day) (f : Nat) : Prop :=
  fs.EndsIn (logParts (rotateLogFilePathWithDay logFilePath d)) f

namespace HoldsDays
variable {fs fs' : FileStore Str Char} {p : Str} {text : Day → Str} {d e : Day} {f : Nat}

/-- Opening a path that is no archive keeps the logs. -/
theorem openAppend (h : HoldsDays fs p text) {path : Str}
    (hpath : ∀ d, d.InCalendar → path ∉ archivePaths (rotateLogFilePathWithDay p d)) :
    HoldsDays (fs.openAppend path).2 p text where
  soleName f := (h.soleName f).openAppend
  segmented d hd := (h.segmented d hd).openAppend (hpath d hd)

/-- A line on the last file of a day's log is the end of that log. -/
theorem append (h : HoldsDays fs p text) (he : e.InCalendar) (hlast : LastOf fs p e f)
    (line : Str) : HoldsDays (fs.append f line) p (Function.update text e (text e ++ line)) where
  soleName g := (h.soleName g).append
  segmented d hd := by
    by_cases hde : d = e
    · rw [hde, Function.update_self]
      exact (h.segmented e he).append hlast (logParts_nodup he) (h.soleName f) line
    · rw [Function.update_of_ne hde]
      refine (h.segmented d hd).append_other (fun n hn hname => ?_) line
      obtain ⟨m, hm, hmname⟩ := hlast.exists_name
      rw [h.soleName f n m hname hmname] at hn
      exact logParts_disjoint hd he hde hn hm

/-- A size rotation keeps the logs of all days, and the last file of each. -/
theorem rotate (h : HoldsDays fs p text) (he : e.InCalendar) {before after : List Str} {new : Str}
    (hsplit : archivePaths (rotateLogFilePathWithDay p e) = before ++ new :: after)
    (htaken : ∀ n ∈ before, fs.names n ≠ none) (hfree : fs.names new = none) {g : Nat}
    (hg : fs.names (rotateLogFilePathWithDay p e) = some g) :
    HoldsDays (fs.rename (rotateLogFilePathWithDay p e) new) p text ∧
      ∀ d f, d.InCalendar → LastOf fs p d f →
        LastOf (fs.rename (rotateLogFilePathWithDay p e) new) p d f := by
  have hnodup := logParts_nodup (p := p) he
  have hrotated := h.segmented e he
  rw [logParts, hsplit] at hnodup
  rw [hsplit] at hrotated
  obtain ⟨hsegmented, hends⟩ := hrotated.rotate htaken hfree hg hnodup
  rw [← hsplit] at hsegmented hends
  have hnew : new ∈ logParts (rotateLogFilePathWithDay p e) := by
    rw [logParts, hsplit]
    exact List.mem_append_left _ (List.mem_append_right _ List.mem_cons_self)
  have hday : rotateLogFilePathWithDay p e ∈ logParts (rotateLogFilePathWithDay p e) :=
    List.mem_append_right _ (List.mem_singleton_self _)
  -- the names of another day are not touched
  have hother : ∀ {d}, d.InCalendar → d ≠ e → ∀ n ∈ logParts (rotateLogFilePathWithDay p d),
      (fs.rename (rotateLogFilePathWithDay p e) new).names n = fs.names n := by
    intro d hd hde n hn
    refine FileStore.names_rename_other ?_ ?_
    · rintro rfl
      exact logParts_disjoint hd he hde hn hnew
    · rintro rfl
      exact logParts_disjoint hd he hde hn hday
  refine ⟨⟨fun f => (h.soleName f).rename hfree, fun d hd => ?_⟩, fun d f hd hlast => ?_⟩
  · by_cases hde : d = e
    · rw [hde]
      exact hsegmented
    · exact (h.segmented d hd).congr (hother hd hde) fun _ _ _ _ => rfl
  · by_cases hde : d = e
    · rw [hde] at hlast ⊢
      rw [hlast.eq_current hg]
      exact hends
    · exact hlast.congr (hother hd hde)

end HoldsDays

/-! ## Runs -/

/-- The log of one process after another: the manager of the one that is running, its world,
and the lines printed so far, each with its day. -/
structure LogHistory where
  mgr : LogFileMgr Nat
  world : StdioWorld
  printed : List (Day × Str)

/-- What happens to it. -/
inductive LogEvent
  /-- The process ends, and the next one starts. -/
  | restart
  /-- A call of `PrintLog`, whose `fprintf` writes out so much of the buffer. -/
  | printLog (c : PrintCall) (out : Nat)

namespace LogHistory

/-- The first process starts. -/
def init (logFilePath : Str) (world : StdioWorld) : LogHistory :=
  ⟨(LogFileMgr.init stdio logFilePath world).1, (LogFileMgr.init stdio logFilePath world).2, []⟩

/-- The destructor of the one process, and `Init` in the next. -/
def restart (s : LogHistory) : LogHistory :=
  { init s.mgr.logFilePath (s.mgr.destroy stdio s.world) with printed := s.printed }

/-- The world a call meets. -/
def meets (s : LogHistory) (c : PrintCall) (out : Nat) : StdioWorld :=
  { s.world with day := c.day, renameFails := c.renameFails, out }

/-- One event. -/
def next (s : LogHistory) : LogEvent → Option LogHistory
  | .restart => some s.restart
  | .printLog c out =>
      (s.mgr.printLog stdio c.logString (s.meets c out)).map fun (ret, mgr, world) =>
        ⟨mgr, world,
          if ret = 0 then s.printed ++ [(c.day, cStr c.logString ++ ['\n'])] else s.printed⟩

/-- The histories of a log. -/
def histories (logFilePath : Str) (world : LogWorld) : TransitionSystem LogHistory LogEvent where
  init s := s = init logFilePath world.stdio
  step s e t := s.next e = some t

/-- The call is on a day of the calendar, and `rename` fails in it only if the log is at
that day already. -/
def Regular (s : LogHistory) : LogEvent → Prop
  | .restart => True
  | .printLog c _ => c.day.InCalendar ∧ (c.renameFails = true →
      s.mgr.currentLogFilePath = rotateLogFilePathWithDay s.mgr.logFilePath c.day)

/-- The lines printed on a day. -/
def linesOf (printed : List (Day × Str)) (d : Day) : Str :=
  (printed.filterMap fun line => if line.1 = d then some line.2 else none).flatten

/-- What the open stream has not written out, if it is on the log of the day. -/
def held (s : LogHistory) (d : Day) : Str :=
  if s.mgr.currentLogFilePath = rotateLogFilePathWithDay s.mgr.logFilePath d then
    (s.mgr.ptrLogFile.map s.world.files.buffered).getD []
  else
    []

/-- **The invariant**: each day's lines are the end of its log, the open file is the last
of the log that is being written, and there is text in no other buffer. -/
structure Chronicle (logFilePath : Str) (text : Day → Str) (s : LogHistory) : Prop where
  logFilePath_eq : s.mgr.logFilePath = logFilePath
  holds : HoldsDays s.world.files.settled logFilePath fun d => text d ++ linesOf s.printed d
  writes : ∀ d f, d.InCalendar →
    s.mgr.currentLogFilePath = rotateLogFilePathWithDay logFilePath d →
    s.mgr.ptrLogFile = some f → LastOf s.world.files.settled logFilePath d f
  buffers : s.mgr.BuffersOpen s.world.files
  /-- What `Init` opens is not written. -/
  idle : (∀ d, d.InCalendar → s.mgr.currentLogFilePath ≠ rotateLogFilePathWithDay logFilePath d) →
    ∀ f, s.world.files.buffered f = []

variable {logFilePath : Str} {world : LogWorld} {s t : LogHistory} {text : Day → Str} {d e : Day}

theorem linesOf_print (printed : List (Day × Str)) (line : Str) :
    linesOf (printed ++ [(e, line)]) d =
      Function.update (linesOf printed) e (linesOf printed e ++ line) d := by
  by_cases hde : d = e
  · subst hde
    rw [Function.update_self]
    simp [linesOf]
  · rw [Function.update_of_ne hde]
    have hne : ¬ e = d := fun h => hde h.symm
    simp [linesOf, hne]

/-- The configured path is no name of a log: the day and the number make it longer. -/
theorem not_mem_archivePaths (hd : d.InCalendar) :
    logFilePath ∉ archivePaths (rotateLogFilePathWithDay logFilePath d) := by
  intro h
  obtain ⟨i, -, hi⟩ := List.mem_map.mp h
  have hlength := congrArg List.length hi
  simp only [archivePath, List.length_append, List.length_singleton,
    length_rotateLogFilePathWithDay hd] at hlength
  omega

/-- `Init` opens the configured path, which is the path of no day, with every buffer empty. -/
theorem Chronicle.init {w : StdioWorld} {printed : List (Day × Str)}
    (hholds : HoldsDays w.files.settled logFilePath fun d => text d ++ linesOf printed d)
    (hempty : ∀ f, w.files.buffered f = []) :
    Chronicle logFilePath text { LogHistory.init logFilePath w with printed } := by
  have hbuffered : ∀ f, (w.files.openAppend logFilePath).2.buffered f = [] := fun f =>
    BufferedStore.buffered_openAppend_of_empty (hempty f)
  refine ⟨rfl, ?_, fun d f _ hday => ?_, fun f _ => hbuffered f, fun _ => hbuffered⟩
  · have hopened : HoldsDays (w.files.settled.openAppend logFilePath).2 logFilePath
        fun d => text d ++ linesOf printed d := hholds.openAppend fun _ => not_mem_archivePaths
    rw [BufferedStore.settled_openAppend] at hopened
    exact hopened
  · exact absurd hday.symm (rotateLogFilePathWithDay_ne logFilePath d)

theorem Chronicle.restart (hs : s.Chronicle logFilePath text) :
    s.restart.Chronicle logFilePath text := by
  obtain ⟨hsettled, hempty⟩ := hs.buffers.close
  have hinit := Chronicle.init (w := s.mgr.closeIfOpen stdio s.world) (hsettled ▸ hs.holds) hempty
  rw [← hs.logFilePath_eq] at hinit ⊢
  exact hinit

/-- After a size rotation the logs are as they were, and the open file is still the last
of its log. -/
theorem Chronicle.rotate (hs : s.Chronicle logFilePath text) (he : e.InCalendar)
    {w w' : StdioWorld} {ret : Int} (hw : w.files = s.world.files)
    (h : rotateLogFilePathWithSize stdio (rotateLogFilePathWithDay logFilePath e) w = (ret, w')) :
    HoldsDays w'.files.settled logFilePath (fun d => text d ++ linesOf s.printed d) ∧
      (∀ d f, d.InCalendar → LastOf s.world.files.settled logFilePath d f →
        LastOf w'.files.settled logFilePath d f) ∧
      w'.files.buffered = s.world.files.buffered := by
  rcases rotateLogFilePathWithSize_stdio h with
    ⟨rfl, -⟩ | ⟨-, j, f, hj, hf, hfree, hleast, rfl⟩
  · rw [hw]
    exact ⟨hs.holds, fun _ _ _ hlast => hlast, rfl⟩
  · rw [hw] at hf hfree hleast ⊢
    obtain ⟨after, hsplit⟩ := archivePaths_split (rotateLogFilePathWithDay logFilePath e) hj
    have htaken : ∀ n ∈ (List.range j).map (archivePath (rotateLogFilePathWithDay logFilePath e)),
        s.world.files.settled.names n ≠ none := by
      intro n hn
      obtain ⟨k, hk, rfl⟩ := List.mem_map.mp hn
      exact hleast k (List.mem_range.mp hk)
    obtain ⟨hholds, hlast⟩ := hs.holds.rotate he hsplit htaken hfree hf
    exact ⟨hholds, hlast, rfl⟩

/-- A line is printed at the end of its day's log. -/
theorem Chronicle.print {printed : List (Day × Str)} {w : StdioWorld} {file : Nat}
    (hholds : HoldsDays w.files.settled logFilePath fun d => text d ++ linesOf printed d)
    (he : e.InCalendar) (line : Str)
    (hlast : LastOf w.files.settled logFilePath e file)
    (hbuffers : ∀ f, f ≠ file → w.files.buffered f = []) :
    Chronicle logFilePath text
      ⟨⟨logFilePath, rotateLogFilePathWithDay logFilePath e, some file⟩,
        stdio.fprintf file line w, printed ++ [(e, line)]⟩ := by
  have hsettled : (stdio.fprintf file line w).files.settled = w.files.settled.append file line :=
    BufferedStore.settled_write ..
  have hprinted := hholds.append he hlast line
  refine ⟨rfl, ?_, fun d f hd hat hf => ?_, fun f hf => ?_, fun hnone => absurd rfl (hnone e he)⟩
  · rw [hsettled]
    refine ⟨hprinted.soleName, fun d hd => ?_⟩
    have hsegmented := hprinted.segmented d hd
    rw [linesOf_print]
    by_cases hde : d = e
    · subst hde
      rw [Function.update_self] at hsegmented ⊢
      rw [← List.append_assoc]
      exact hsegmented
    · rw [Function.update_of_ne hde] at hsegmented ⊢
      exact hsegmented
  · obtain ⟨-, rfl⟩ := rotateLogFilePathWithDay_inj he hd hat
    obtain rfl := Option.some.inj hf
    rw [hsettled]
    exact hlast
  · have hne : f ≠ file := fun h => hf (h ▸ rfl)
    exact (BufferedStore.buffered_write_other hne).trans (hbuffers f hne)

theorem Chronicle.printLog (hs : s.Chronicle logFilePath text) {c : PrintCall} {out : Nat}
    (hregular : s.Regular (.printLog c out)) {ret : Int} {mgr : LogFileMgr Nat} {w : StdioWorld}
    (h : s.mgr.printLog stdio c.logString (s.meets c out) = some (ret, mgr, w)) :
    Chronicle logFilePath text ⟨mgr, w, if ret = 0 then
      s.printed ++ [(c.day, cStr c.logString ++ ['\n'])] else s.printed⟩ := by
  obtain ⟨hday, hfails⟩ := hregular
  rw [hs.logFilePath_eq] at hfails
  have hdayPath : s.mgr.dayPath stdio (s.meets c out) =
      rotateLogFilePathWithDay logFilePath c.day :=
    congrArg (rotateLogFilePathWithDay · c.day) hs.logFilePath_eq
  have hsizeRotate : s.mgr.sizeRotate stdio (s.meets c out) = rotateLogFilePathWithSize stdio
      (rotateLogFilePathWithDay logFilePath c.day) (s.meets c out) := by
    rw [← hdayPath]
    rfl
  rcases LogFileMgr.printLog_returns stdio h with
    ⟨hret, hsize, rfl⟩ | ⟨rfl, hsize, file, w₁, hfile, rfl, rfl⟩
  · -- `rename` has failed, so the log is at that day, and nothing has changed
    rw [if_neg hret]
    rw [hsizeRotate] at hsize
    rcases rotateLogFilePathWithSize_stdio hsize with ⟨rfl, hrename⟩ | ⟨rfl, -⟩
    · have hsame : s.mgr.dayPath stdio (s.meets c out) = s.mgr.currentLogFilePath :=
        hdayPath.trans (hfails (hrename hret)).symm
      rw [hsame]
      exact ⟨hs.logFilePath_eq, hs.holds, hs.writes, hs.buffers, hs.idle⟩
    · exact absurd rfl hret
  · rw [if_pos rfl, hs.logFilePath_eq, hdayPath]
    rw [hdayPath] at hfile
    rcases hrotated : s.mgr.sizeRotate stdio (s.meets c out) with ⟨ret, w₂⟩
    rw [hrotated] at hfile
    rw [hsizeRotate] at hrotated
    obtain ⟨hholds, hlast, hbuffered⟩ := hs.rotate hday (w := s.meets c out) rfl hrotated
    have hbuffers : s.mgr.BuffersOpen w₂.files := fun f hf => by
      rw [hbuffered]
      exact hs.buffers f hf
    rcases LogFileMgr.handleFor_cases stdio stdio_fopen_isSome hfile with
      ⟨hpath, hptr, rfl⟩ | hfopen
    · -- the file that is open is the last of the day's log
      refine .print hholds hday _ (hlast c.day file hday ?_) fun f hf => hbuffers f ?_
      · exact hs.writes c.day file hday hpath hptr
      · rw [hptr]
        exact fun he => hf (Option.some.inj he).symm
    · obtain ⟨hsettled, hempty⟩ := hbuffers.close
      obtain ⟨hopened, rfl⟩ := Prod.mk.inj hfopen
      obtain rfl := Option.some.inj hopened
      have hother : ∀ d, d.InCalendar → rotateLogFilePathWithDay logFilePath c.day ∉
          archivePaths (rotateLogFilePathWithDay logFilePath d) := by
        intro d hd hmem
        obtain ⟨i, -, hi⟩ := List.mem_map.mp hmem
        exact archivePath_ne_dayPath hd hday i hi
      rw [← hsettled] at hholds
      have hkept := hholds.openAppend hother
      rw [BufferedStore.settled_openAppend] at hkept
      refine .print hkept hday _ ?_ fun f _ =>
        BufferedStore.buffered_openAppend_of_empty (hempty f)
      exact FileStore.endsIn_current _ (FileStore.names_openAppend_self _ _)

theorem Chronicle.step (hs : s.Chronicle logFilePath text) {event : LogEvent}
    (hregular : s.Regular event) (h : s.next event = some t) : t.Chronicle logFilePath text := by
  cases event with
  | restart =>
    obtain rfl := Option.some.inj h
    exact hs.restart
  | printLog c out =>
    obtain ⟨⟨ret, mgr, world⟩, hprint, rfl⟩ := Option.map_eq_some_iff.mp h
    exact hs.printLog hregular hprint

/-- What is read of a day's log, and what its open stream holds, is the log. -/
theorem Chronicle.readAll_held (hs : s.Chronicle logFilePath text) (hd : d.InCalendar) :
    s.world.files.disk.readAll (logParts (rotateLogFilePathWithDay logFilePath d)) ++ s.held d =
      s.world.files.settled.readAll (logParts (rotateLogFilePathWithDay logFilePath d)) := by
  -- without text in buffers the files are settled
  have hwritten : (∀ f, s.world.files.buffered f = []) →
      s.world.files.disk.readAll (logParts (rotateLogFilePathWithDay logFilePath d)) ++ s.held d =
        s.world.files.settled.readAll (logParts (rotateLogFilePathWithDay logFilePath d)) := by
    intro hempty
    have hheld : s.held d = [] := by
      unfold held
      split
      · cases s.mgr.ptrLogFile with
        | none => rfl
        | some f => exact hempty f
      · rfl
    rw [hheld, List.append_nil, BufferedStore.settled_of_empty hempty]
  cases hptr : s.mgr.ptrLogFile with
  | none => exact hwritten fun f => hs.buffers f (by rw [hptr]; intro h; cases h)
  | some f =>
    have hsettled : s.world.files.settled =
        s.world.files.disk.append f (s.world.files.buffered f) := by
      refine BufferedStore.settled_of_sole fun g hg => hs.buffers g ?_
      rw [hptr]
      exact fun he => hg (Option.some.inj he).symm
    have hsole : s.world.files.disk.SoleName f := hs.holds.soleName f
    by_cases hat : s.mgr.currentLogFilePath = rotateLogFilePathWithDay logFilePath d
    · have hlast : s.world.files.disk.EndsIn _ f := hs.writes d f hd hat hptr
      have hheld : s.held d = s.world.files.buffered f := by
        rw [held, if_pos (by rw [hs.logFilePath_eq]; exact hat), hptr]
        rfl
      rw [hheld, hsettled, hlast.readAll_append (logParts_nodup hd) hsole]
    · have hheld : s.held d = [] := if_neg (by rw [hs.logFilePath_eq]; exact hat)
      by_cases hday : ∃ e, e.InCalendar ∧
          s.mgr.currentLogFilePath = rotateLogFilePathWithDay logFilePath e
      · obtain ⟨e, he, hate⟩ := hday
        have hde : d ≠ e := by
          rintro rfl
          exact hat hate
        have hlast : s.world.files.disk.EndsIn _ f := hs.writes e f he hate hptr
        obtain ⟨m, hm, hmname⟩ := hlast.exists_name
        rw [hheld, hsettled, FileStore.readAll_append_of_ne, List.append_nil]
        intro n hn hname
        rw [hsole n m hname hmname] at hn
        exact logParts_disjoint hd he hde hn hm
      · exact hwritten (hs.idle fun e he hate => hday ⟨e, he, hate⟩)

/-- **A day's log can be read back.**  Over files that only the processes of the log touch,
without hard links, in which the archives of each day have been taken in order: at any
point of any number of processes one after another, the archives of a day in order, then its
file, and then what the open stream still holds of it, are what they were in the beginning
and then the lines printed on that day, in the order they were printed; and the archives are
still taken in order. -/
theorem readback (hlinks : ∀ f, world.files.SoleName f)
    (horder : ∀ d, d.InCalendar →
      world.files.InOrder (archivePaths (rotateLogFilePathWithDay logFilePath d)))
    (h : ((histories logFilePath world).restrict Regular).Reachable s) (hd : d.InCalendar) :
    s.world.files.disk.readAll (logParts (rotateLogFilePathWithDay logFilePath d)) ++ s.held d =
        world.files.readAll (logParts (rotateLogFilePathWithDay logFilePath d)) ++
          linesOf s.printed d ∧
      s.world.files.disk.InOrder (archivePaths (rotateLogFilePathWithDay logFilePath d)) := by
  have hchronicle : s.Chronicle logFilePath fun d =>
      world.files.readAll (logParts (rotateLogFilePathWithDay logFilePath d)) := by
    refine h.invariant (I := Chronicle logFilePath _) ?_ fun _ _ _ hs hstep =>
      hs.step hstep.1 hstep.2
    rintro s rfl
    have hempty : ∀ f, world.stdio.files.buffered f = [] := fun _ => rfl
    refine .init ?_ hempty
    rw [BufferedStore.settled_of_empty hempty]
    exact ⟨hlinks, fun d hd => ⟨horder d hd, (List.append_nil _).symm⟩⟩
  have hsegmented := hchronicle.holds.segmented d hd
  exact ⟨(hchronicle.readAll_held hd).trans hsegmented.text_eq, hsegmented.inOrder⟩

/-- The theorem at two processes that print a line each: the first line has been written out
by the destructor, the second is still in the buffer. -/
theorem readback_twoProcesses :
    ∃ s, (histories ['l'] (LogRun.emptyWorld ⟨2024, 1, 1⟩)).Reachable s ∧
      s.held ⟨2024, 1, 1⟩ = ['b', '\n'] ∧
      s.world.files.disk.readAll (logParts (rotateLogFilePathWithDay ['l'] ⟨2024, 1, 1⟩)) ++
        s.held ⟨2024, 1, 1⟩ = ['a', '\n', 'b', '\n'] := by
  have hday : (⟨2024, 1, 1⟩ : Day).InCalendar := by decide
  have hprints : ∀ (s : LogHistory) (line : Str),
      s.Regular (.printLog ⟨line, ⟨2024, 1, 1⟩, false⟩ 0) := fun _ _ => ⟨hday, fun h => by cases h⟩
  have h₀ : ((histories ['l'] (LogRun.emptyWorld ⟨2024, 1, 1⟩)).restrict Regular).Reachable _ :=
    .initial rfl
  have h₁ := h₀.step (l := LogEvent.printLog ⟨['a'], ⟨2024, 1, 1⟩, false⟩ 0) ⟨hprints _ _, rfl⟩
  have h₂ := h₁.step (l := LogEvent.restart) ⟨trivial, rfl⟩
  have hs := h₂.step (l := LogEvent.printLog ⟨['b'], ⟨2024, 1, 1⟩, false⟩ 0) ⟨hprints _ _, rfl⟩
  obtain ⟨htext, -⟩ := readback (fun _ _ _ h => by cases h)
    (fun _ _ => List.pairwise_of_forall fun _ _ _ => rfl) hs hday
  refine ⟨_, hs.of_restrict, rfl, htext.trans ?_⟩
  rw [FileStore.readAll_of_none fun _ _ => rfl]
  rfl

end LogHistory
end MySvrKit
