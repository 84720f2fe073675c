import MySvrKit.LogDelivery
import MySvrKit.LogNames
import Mathlib.Data.List.OfFn

/-! # The head of a log line

`Log` begins a line with the time of `GetCurrentTime`, the graph id of
`MyCallGraph::GenRandomGraphId` and the name of the level, each followed by a `|`, and
`snprintf` cuts the line at its buffer.  The head is never cut and can be read back from
the line.  Times order as texts the way they are, but for the microseconds, which `%d`
writes without leading zeros. -/

universe u v w

namespace MySvrKit

/-! ## The time -/

/-- What `gettimeofday` and `localtime` give. -/
structure Moment where
  day : Day
  hour : Nat
  minute : Nat
  second : Nat
  usec : Nat

/-- `sizeof(buffer)` in `GetCurrentTime`. -/
def kTimeBufferSize : Nat := 128

/-- `MyLog::GetCurrentTime` at that moment. -/
def getCurrentTime (m : Moment) : Str :=
  cStr ((decimal m.day.year ++ ['-'] ++ decimal2 m.day.month ++ ['-'] ++ decimal2 m.day.day ++
    [' '] ++ decimal2 m.hour ++ [':'] ++ decimal2 m.minute ++ [':'] ++ decimal2 m.second ++ ['.'] ++
    decimal m.usec).take (kTimeBufferSize - 1))

namespace Moment

/-- A moment with a four-digit year; a leap second is number 60. -/
structure InCalendar (m : Moment) : Prop where
  day : m.day.InCalendar
  hour : m.hour < 24
  minute : m.minute < 60
  second : m.second ≤ 60
  usec : m.usec < 1000000

/-- The numbers of a moment but for the microseconds. -/
def toSecond (m : Moment) : List Nat :=
  [m.day.year, m.day.month, m.day.day, m.hour, m.minute, m.second]

/-- The format they are written in. -/
def format : List (Nat × Char) := [(4, '-'), (2, '-'), (2, ' '), (2, ':'), (2, ':'), (2, '.')]

variable {m m' : Moment}

theorem InCalendar.fits (h : m.InCalendar) : FixedWidth.Fits format m.toSecond := by
  obtain ⟨⟨-, hyear, -, hmonth, -, hday⟩, hhour, hminute, hsecond, -⟩ := h
  have htwo : ∀ {n}, n < 60 + 1 → n < 10 ^ 2 := fun hn => Nat.lt_of_lt_of_le hn (by decide)
  exact .cons hyear (.cons (htwo (by omega)) (.cons (htwo (by omega)) (.cons (htwo (by omega))
    (.cons (htwo (by omega)) (.cons (htwo (by omega)) .nil)))))

theorem toSecond_usec_inj (h : m.toSecond = m'.toSecond) (husec : m.usec = m'.usec) : m = m' := by
  obtain ⟨⟨year, month, day⟩, hour, minute, second, usec⟩ := m
  obtain ⟨⟨year', month', day'⟩, hour', minute', second', usec'⟩ := m'
  simp only [toSecond, List.cons.injEq, and_true] at h
  obtain ⟨rfl, rfl, rfl, rfl, rfl, rfl⟩ := h
  obtain rfl : usec = usec' := husec
  rfl

end Moment

theorem length_decimal_le {n k : Nat} (hk : 0 < k) (h : n < 10 ^ k) : (decimal n).length ≤ k :=
  (Nat.length_toDigits_le_iff (by decide) hk).mpr h

/-- What is written of a moment are digits and the separators. -/
theorem not_mem_time {m : Moment} {c : Char} (hdigit : c.isDigit = false)
    (hc : ∀ f ∈ Moment.format, c ≠ f.2) :
    c ∉ FixedWidth.fields Moment.format m.toSecond ++ decimal m.usec := by
  intro h
  rcases List.mem_append.mp h with h | h
  · rcases FixedWidth.mem_fields h with h | ⟨f, hf, h⟩
    · rw [hdigit] at h
      cases h
    · exact hc f hf h
  · rw [isDigit_of_mem_decimal h] at hdigit
    cases hdigit

theorem cStr_of_not_mem {s : Str} (h : '\x00' ∉ s) : cStr s = s :=
  List.takeWhile_eq_self_iff.mpr fun _ hc => decide_eq_true fun he => h (he ▸ hc)

theorem length_time_le {m : Moment} (h : m.InCalendar) :
    (FixedWidth.fields Moment.format m.toSecond ++ decimal m.usec).length ≤ 26 := by
  have husec := length_decimal_le (show 0 < 6 by decide) h.usec
  rw [List.length_append, FixedWidth.length_fields h.fits]
  simp only [Moment.format, List.foldr_cons, List.foldr_nil]
  omega

/-- The buffer of `GetCurrentTime` is never full. -/
theorem getCurrentTime_eq {m : Moment} (h : m.InCalendar) :
    getCurrentTime m = FixedWidth.fields Moment.format m.toSecond ++ decimal m.usec := by
  have hyear : decimal m.day.year = fixedWidth 4 m.day.year :=
    FixedWidth.toDigits_eq h.day.1 h.day.2.1
  have htext : decimal m.day.year ++ ['-'] ++ decimal2 m.day.month ++ ['-'] ++ decimal2 m.day.day ++
      [' '] ++ decimal2 m.hour ++ [':'] ++ decimal2 m.minute ++ [':'] ++ decimal2 m.second ++
      ['.'] ++ decimal m.usec =
        FixedWidth.fields Moment.format m.toSecond ++ decimal m.usec := by
    obtain ⟨⟨-, -, -, hmonth, -, hday⟩, hhour, hminute, hsecond, -⟩ := h
    rw [hyear, decimal2_eq (by omega), decimal2_eq (by omega), decimal2_eq (by omega),
      decimal2_eq (by omega), decimal2_eq (by omega)]
    simp only [FixedWidth.fields, Moment.format, Moment.toSecond, List.append_assoc,
      List.cons_append, List.nil_append]
  have hlength : (FixedWidth.fields Moment.format m.toSecond ++ decimal m.usec).length ≤
      kTimeBufferSize - 1 := (length_time_le h).trans (by decide)
  rw [getCurrentTime, htext, List.take_of_length_le hlength]
  exact cStr_of_not_mem (not_mem_time (by decide) (by decide))

theorem not_mem_getCurrentTime {m : Moment} (h : m.InCalendar) : '|' ∉ getCurrentTime m := by
  rw [getCurrentTime_eq h]
  exact not_mem_time (by decide) (by decide)

/-- **Times are ordered as texts** the way they are, the seconds first; within a second
by the numerals of the microseconds as they stand. -/
theorem getCurrentTime_lex_iff {m m' : Moment} (h : m.InCalendar) (h' : m'.InCalendar) :
    List.Lex (· < ·) (getCurrentTime m) (getCurrentTime m') ↔
      List.Lex (· < ·) m.toSecond m'.toSecond ∨
        (m.toSecond = m'.toSecond ∧ List.Lex (· < ·) (decimal m.usec) (decimal m'.usec)) := by
  rw [getCurrentTime_eq h, getCurrentTime_eq h']
  exact FixedWidth.fields_lex_iff h.fits h'.fits

/-- Five seconds into a year. -/
def newYear : Moment := ⟨⟨2024, 1, 1⟩, 0, 0, 5, 42⟩

theorem newYear_inCalendar : newYear.InCalendar :=
  ⟨by decide, by decide, by decide, by decide, by decide⟩

/-- The theorem at two times of one second: 42 microseconds are written before 5. -/
theorem getCurrentTime_lex_iff_newYear :
    List.Lex (· < ·) (getCurrentTime newYear) (getCurrentTime { newYear with usec := 5 }) := by
  have hfive : ({ newYear with usec := 5 } : Moment).InCalendar :=
    { newYear_inCalendar with usec := by decide }
  exact (getCurrentTime_lex_iff newYear_inCalendar hfive).mpr (Or.inr ⟨rfl, by decide⟩)

theorem getCurrentTime_inj {m m' : Moment} (h : m.InCalendar) (h' : m'.InCalendar)
    (heq : getCurrentTime m = getCurrentTime m') : m = m' := by
  rw [getCurrentTime_eq h, getCurrentTime_eq h'] at heq
  obtain ⟨hsecond, husec⟩ := FixedWidth.fields_inj h.fits h'.fits heq
  exact Moment.toSecond_usec_inj hsecond (decimal_inj husec)

/-! ## The graph id -/

/-- `CHARACTERS` in `GenRandomGraphId`. -/
def characters : Str :=
  ['0', '1', '2', '3', '4', '5', '6', '7', '8', '9',
    'A', 'B', 'C', 'D', 'E', 'F', 'G', 'H', 'I', 'J', 'K', 'L', 'M',
    'N', 'O', 'P', 'Q', 'R', 'S', 'T', 'U', 'V', 'W', 'X', 'Y', 'Z',
    'a', 'b', 'c', 'd', 'e', 'f', 'g', 'h', 'i', 'j', 'k', 'l', 'm',
    'n', 'o', 'p', 'q', 'r', 's', 't', 'u', 'v', 'w', 'x', 'y', 'z']

/-- `random_string_generator`, by the indices the distribution has given. -/
def randomString (picks : List (Fin characters.length)) : Str := picks.map characters.get

/-- `MyCallGraph::GenRandomGraphId`: eight random characters and the time in
milliseconds. -/
def genRandomGraphId (picks : Fin 8 → Fin characters.length) (timestampMs : Nat) : Str :=
  randomString (List.ofFn picks) ++ decimal timestampMs

/-- A graph id as the program gives it to `Log`: none, or one that was generated at a time
that fits a `uint64_t`. -/
def IsGraphId (graphId : Str) : Prop :=
  graphId = [] ∨ ∃ picks timestampMs, timestampMs < 2 ^ 64 ∧
    graphId = genRandomGraphId picks timestampMs

theorem not_mem_genRandomGraphId {c : Char} (hdigit : c.isDigit = false) (hc : c ∉ characters)
    (picks : Fin 8 → Fin characters.length) (timestampMs : Nat) :
    c ∉ genRandomGraphId picks timestampMs := by
  intro h
  rcases List.mem_append.mp h with h | h
  · obtain ⟨i, -, rfl⟩ := List.mem_map.mp h
    exact hc (List.get_mem characters i)
  · rw [isDigit_of_mem_decimal h] at hdigit
    cases hdigit

theorem length_genRandomGraphId_le (picks : Fin 8 → Fin characters.length) {timestampMs : Nat}
    (h : timestampMs < 2 ^ 64) : (genRandomGraphId picks timestampMs).length ≤ 28 := by
  have hdecimal := length_decimal_le (show 0 < 20 by decide)
    (Nat.lt_of_lt_of_le h (show 2 ^ 64 ≤ 10 ^ 20 by decide))
  rw [genRandomGraphId, randomString, List.length_append, List.length_map, List.length_ofFn]
  omega

theorem IsGraphId.not_mem {graphId : Str} (h : IsGraphId graphId) {c : Char}
    (hdigit : c.isDigit = false) (hc : c ∉ characters) : c ∉ graphId := by
  rcases h with rfl | ⟨picks, timestampMs, -, rfl⟩
  · exact List.not_mem_nil
  · exact not_mem_genRandomGraphId hdigit hc picks timestampMs

theorem IsGraphId.length_le {graphId : Str} (h : IsGraphId graphId) : graphId.length ≤ 28 := by
  rcases h with rfl | ⟨picks, timestampMs, hms, rfl⟩
  · exact Nat.zero_le _
  · exact length_genRandomGraphId_le picks hms

/-! ## The line -/

/-- The head of a line: what `Log` writes before the message. -/
def lineHead (time graphId level : Str) : Str :=
  time ++ ['|'] ++ graphId ++ ['|'] ++ level ++ ['|']

/-- A line read back: the time, the graph id, the level, and what follows them. -/
structure Reading where
  time : Moment
  graphId : Str
  level : Str
  rest : Str

namespace Reading

/-- The line. -/
def text (r : Reading) : Str := lineHead (getCurrentTime r.time) r.graphId r.level ++ r.rest

/-- A time of the calendar, and a graph id and a level that do not hold the separator. -/
structure Proper (r : Reading) : Prop where
  time : r.time.InCalendar
  graphId : '|' ∉ r.graphId
  level : '|' ∉ r.level

/-- The first place of a separator divides a text in one way. -/
theorem split_first {c : Char} {a b x y : Str} (ha : c ∉ a) (hb : c ∉ b)
    (h : a ++ c :: x = b ++ c :: y) : a = b ∧ x = y := by
  induction a generalizing b with
  | nil =>
    cases b with
    | nil => exact ⟨rfl, (List.cons.inj h).2⟩
    | cons d b => exact absurd ((List.cons.inj h).1 ▸ List.mem_cons_self) hb
  | cons d a ih =>
    cases b with
    | nil => exact absurd ((List.cons.inj h).1 ▸ List.mem_cons_self) ha
    | cons e b =>
      obtain ⟨rfl, htail⟩ := List.cons.inj h
      obtain ⟨rfl, hxy⟩ :=
        ih (List.not_mem_of_not_mem_cons ha) (List.not_mem_of_not_mem_cons hb) htail
      exact ⟨rfl, hxy⟩

/-- **A line can be read back.** -/
theorem text_inj {r r' : Reading} (h : r.Proper) (h' : r'.Proper) (heq : r.text = r'.text) :
    r = r' := by
  obtain ⟨time, graphId, level, rest⟩ := r
  obtain ⟨time', graphId', level', rest'⟩ := r'
  have heq : getCurrentTime time ++ '|' :: (graphId ++ '|' :: (level ++ '|' :: rest)) =
      getCurrentTime time' ++ '|' :: (graphId' ++ '|' :: (level' ++ '|' :: rest')) := by
    simpa only [text, lineHead, List.append_assoc, List.cons_append, List.nil_append] using heq
  obtain ⟨htimes, heq⟩ := split_first (not_mem_getCurrentTime h.time)
    (not_mem_getCurrentTime h'.time) heq
  obtain ⟨hgraphId, heq⟩ := split_first h.graphId h'.graphId heq
  obtain ⟨hlevel, hrest⟩ := split_first h.level h'.level heq
  have htime := getCurrentTime_inj h.time h'.time htimes
  exact mk.injEq .. |>.mpr ⟨htime, hgraphId, hlevel, hrest⟩

end Reading

/-- A call whose time and graph id the program has made. -/
def LogCall.Stamped (call : LogCall) : Prop :=
  (∃ m : Moment, m.InCalendar ∧ call.currentTime = getCurrentTime m) ∧ IsGraphId call.graphId

theorem szLogLevel_proper (logLevel : Nat) :
    (szLogLevel logLevel).length ≤ 7 ∧ '|' ∉ szLogLevel logLevel ∧
      '\x00' ∉ szLogLevel logLevel ∧ '\n' ∉ szLogLevel logLevel := by
  unfold szLogLevel
  split
  · decide
  · split
    · decide
    · split <;> decide

theorem cStr_append {s t : Str} (h : '\x00' ∉ s) : cStr (s ++ t) = s ++ cStr t :=
  List.takeWhile_append_of_pos fun _ hc => decide_eq_true fun he => h (he ▸ hc)

/-- What no part of the head holds, the head does not hold. -/
theorem LogCall.Stamped.not_mem_head {call : LogCall} (h : call.Stamped) {c : Char}
    (hdigit : c.isDigit = false) (hformat : ∀ f ∈ Moment.format, c ≠ f.2) (hc : c ∉ characters)
    (hlevel : c ∉ szLogLevel call.logLevel) (hbar : c ≠ '|') :
    c ∉ lineHead call.currentTime call.graphId (szLogLevel call.logLevel) := by
  obtain ⟨⟨m, hm, htime⟩, hgraphId⟩ := h
  have htime : c ∉ call.currentTime := by
    rw [htime, getCurrentTime_eq hm]
    exact not_mem_time hdigit hformat
  simp only [lineHead, List.mem_append, List.mem_singleton, not_or]
  exact ⟨⟨⟨⟨⟨htime, hbar⟩, hgraphId.not_mem hdigit hc⟩, hbar⟩, hlevel⟩, hbar⟩

/-- **The buffer of `Log` holds the whole head**, and what is left of it is the message's. -/
theorem LogCall.Stamped.buffer_eq {call : LogCall} (h : call.Stamped) :
    call.buffer = lineHead call.currentTime call.graphId (szLogLevel call.logLevel) ++
      cStr (call.message.take (kLogBufferSize - 1 -
        (lineHead call.currentTime call.graphId (szLogLevel call.logLevel)).length)) := by
  obtain ⟨hlevel, -, hnul, -⟩ := szLogLevel_proper call.logLevel
  have hheadNul := h.not_mem_head (by decide) (by decide) (by decide) hnul (by decide)
  obtain ⟨⟨m, hm, htime⟩, hgraphId⟩ := h
  have htimeNul : '\x00' ∉ call.currentTime := by
    rw [htime, getCurrentTime_eq hm]
    exact not_mem_time (by decide) (by decide)
  have hgraphNul : '\x00' ∉ call.graphId := hgraphId.not_mem (by decide) (by decide)
  have hlength : (lineHead call.currentTime call.graphId (szLogLevel call.logLevel)).length ≤
      kLogBufferSize - 1 := by
    have htimeLength := length_time_le hm
    have hgraphLength := hgraphId.length_le
    rw [← getCurrentTime_eq hm, ← htime] at htimeLength
    simp only [lineHead, List.length_append, List.length_singleton, kLogBufferSize]
    omega
  have hbuffer : call.buffer = cStr ((lineHead call.currentTime call.graphId
      (szLogLevel call.logLevel) ++ call.message).take (kLogBufferSize - 1)) := by
    rw [LogCall.buffer, cStr_of_not_mem htimeNul, cStr_of_not_mem hgraphNul]
    rfl
  rw [hbuffer, List.take_append, List.take_of_length_le hlength, cStr_append hheadNul]

/-- A reading is of a call: it has the call's time, graph id and level and the beginning of its
message, and no line break but the message's. -/
structure Reading.IsOf (r : Reading) (call : LogCall) : Prop where
  time : getCurrentTime r.time = call.currentTime
  graphId : r.graphId = call.graphId
  level : r.level = szLogLevel call.logLevel
  rest : r.rest <+: call.message
  oneLine : '\n' ∉ call.message → '\n' ∉ r.text

/-- So the line of a call can be read. -/
theorem LogCall.Stamped.exists_reading {call : LogCall} (h : call.Stamped) :
    ∃ r : Reading, r.Proper ∧ call.buffer = r.text ∧ r.IsOf call := by
  obtain ⟨-, hbar, -, hbreak⟩ := szLogLevel_proper call.logLevel
  have hheadBreak := h.not_mem_head (by decide) (by decide) (by decide) hbreak (by decide)
  obtain ⟨rest, hrest, hbuffer⟩ : ∃ rest, rest <+: call.message ∧ call.buffer =
      lineHead call.currentTime call.graphId (szLogLevel call.logLevel) ++ rest :=
    ⟨_, (List.takeWhile_prefix _).trans (List.take_prefix _ _), h.buffer_eq⟩
  obtain ⟨⟨m, hm, htime⟩, hgraphId⟩ := h
  have hproper : Reading.Proper ⟨m, call.graphId, szLogLevel call.logLevel, rest⟩ :=
    ⟨hm, hgraphId.not_mem (by decide) (by decide), hbar⟩
  rw [htime] at hbuffer hheadBreak
  refine ⟨_, hproper, hbuffer, htime.symm, rfl, rfl, hrest, fun hmessage hmem => ?_⟩
  rcases List.mem_append.mp hmem with hhead | hmem
  · exact hheadBreak hhead
  · exact hmessage (hrest.subset hmem)

/-! ## Runs -/

namespace MyLog
variable {Thread : Type w} {World : Type u} {Handle : Type v} [DecidableEq Thread]
  {os : Posix World Handle} {logLevel : Nat} {logFilePath : Str} {world : World}
  {s : MyLog Thread World Handle}

/-- A call of `Log` has its time from `GetCurrentTime` and its graph id from
`GenRandomGraphId`. -/
def Stamps (_ : MyLog Thread World Handle) : LogAction Thread World → Prop
  | .enter _ call => call.Stamped
  | .push _ | .loopPrint | .environment _ => True

/-- A line pushed is that of a call that has been entered. -/
theorem Accounted.entered (hs : s.Accounted) {thread : Thread} {line : Str}
    (h : (thread, line) ∈ s.pushed) :
    ∃ call, (thread, call) ∈ s.entered ∧ s.logLevel ≤ call.logLevel ∧ line = call.buffer := by
  have hpush : line ∈ s.pushesOf thread :=
    List.mem_map.mpr ⟨(thread, line), List.mem_filter.mpr ⟨h, by simp⟩, rfl⟩
  have hline : line ∈ s.linesOf thread := by
    rw [hs thread]
    exact List.mem_append_left _ hpush
  obtain ⟨⟨thread', call⟩, hmem, rfl⟩ := List.mem_map.mp hline
  obtain ⟨hentered, hcond⟩ := List.mem_filter.mp hmem
  obtain ⟨rfl, hlevel⟩ := of_decide_eq_true hcond
  exact ⟨call, hentered, hlevel, rfl⟩

theorem stamped_of_entered
    (h : ((runs os logLevel logFilePath world).restrict Stamps).Reachable s) :
    ∀ e ∈ s.entered, e.2.Stamped := by
  refine h.invariant (I := fun s => ∀ e ∈ s.entered, e.2.Stamped) ?_ ?_
  · rintro s rfl e he
    cases he
  · rintro s a t hs ⟨hstamps, hstep⟩
    cases a with
    | enter thread call =>
      have hentered : t.entered = s.entered ++ [(thread, call)] := by
        have hnext : s.next os (.enter thread call) = some t := hstep
        simp only [next] at hnext
        split at hnext
        · cases hnext
        · split at hnext <;> exact Option.some.inj hnext ▸ rfl
      rw [hentered]
      intro e he
      rcases List.mem_append.mp he with he | he
      · exact hs e he
      · rw [List.mem_singleton.mp he]
        exact hstamps
    | push thread =>
      obtain ⟨line, -, rfl⟩ := Option.map_eq_some_iff.mp hstep
      exact hs
    | loopPrint =>
      obtain ⟨-, -, hentered, -⟩ := loopPrint_threads os hstep
      rw [hentered]
      exact hs
    | environment world => exact Option.some.inj hstep ▸ hs

/-- **Every printed text can be read back.**  Where `fopen` does not fail: whatever one
`fprintf` has printed has the time, the graph id, the level and the beginning of the message
of a call of `Log` at the level of the log or above, and can be read in one way only.  The
message may hold line breaks; where it holds none, neither does the text before its end. -/
theorem printed_readable (hopen : ∀ p w, (os.fopen p w).1.isSome = true)
    (h : ((runs os logLevel logFilePath world).restrict Stamps).Reachable s) {text : Str}
    (htext : text ∈ s.written) :
    ∃ r : Reading, r.Proper ∧ text = printed r.text ∧
      (∃ e ∈ s.entered, s.logLevel ≤ e.2.logLevel ∧ r.IsOf e.2) ∧
      ∀ r' : Reading, r'.Proper → text = printed r'.text → r' = r := by
  have hdelivering := delivering_of_reachable hopen h.of_restrict
  have haccounted := accounted_of_reachable h.of_restrict
  -- the text is a line pushed, and the line that of a call
  obtain ⟨line, hline, rfl⟩ := List.mem_map.mp (hdelivering.written_prefix.subset htext)
  obtain ⟨⟨thread, line'⟩, hpushed, rfl⟩ := List.mem_map.mp hline
  obtain ⟨call, hentered, hlevel, hbuffer⟩ := haccounted.entered hpushed
  obtain ⟨r, hproper, hread, hcall⟩ := (stamped_of_entered h _ hentered).exists_reading
  have htext : (thread, line').2 = r.text := hbuffer.trans hread
  rw [htext]
  refine ⟨r, hproper, rfl, ⟨(thread, call), hentered, hlevel, hcall⟩, fun r' hproper' heq => ?_⟩
  exact Reading.text_inj hproper' hproper (List.append_cancel_right heq).symm

/-- The theorem at a run that prints the line of a call at that time, with a message of two
lines. -/
theorem printed_readable_newYear :
    ∃ s : MyLog Unit LogWorld Nat, ((runs posix 1 ['l'] (LogRun.emptyWorld ⟨2024, 1, 1⟩)).restrict
        Stamps).Reachable s ∧
      ∃ text ∈ s.written, ∃ r : Reading, r.Proper ∧ text = printed r.text ∧
        ∃ e ∈ s.entered, r.IsOf e.2 ∧ e.2.message = ['m', '\n', 'n'] := by
  have hstamped : LogCall.Stamped ⟨2, getCurrentTime newYear, [], ['m', '\n', 'n']⟩ :=
    ⟨⟨newYear, newYear_inCalendar, rfl⟩, Or.inl rfl⟩
  have hrun : ((runs posix 1 ['l'] (LogRun.emptyWorld ⟨2024, 1, 1⟩)).restrict Stamps).IsRun
      (init posix 1 ['l'] (LogRun.emptyWorld ⟨2024, 1, 1⟩))
      [(.enter () ⟨2, getCurrentTime newYear, [], ['m', '\n', 'n']⟩, _), (.push (), _),
        (.loopPrint, _), (.loopPrint, _), (.loopPrint, _)] :=
    ⟨⟨hstamped, rfl⟩, ⟨trivial, rfl⟩, ⟨trivial, rfl⟩, ⟨trivial, rfl⟩, ⟨trivial, rfl⟩, trivial⟩
  obtain ⟨s, hs, hentered, text, hmem⟩ : ∃ s, ((runs posix 1 ['l']
      (LogRun.emptyWorld ⟨2024, 1, 1⟩)).restrict Stamps).Reachable s ∧
      s.entered = [((), ⟨2, getCurrentTime newYear, [], ['m', '\n', 'n']⟩)] ∧
      ∃ text, text ∈ s.written :=
    ⟨_, (TransitionSystem.Reachable.initial rfl).reaches hrun.reaches, rfl, _, List.mem_cons_self⟩
  obtain ⟨r, hproper, htext, ⟨e, he, -, hcall⟩, -⟩ := printed_readable posix_fopen_isSome hs hmem
  refine ⟨s, hs, text, hmem, r, hproper, htext, e, he, hcall, ?_⟩
  rw [hentered] at he
  rw [List.mem_singleton.mp he]

end MyLog
end MySvrKit
