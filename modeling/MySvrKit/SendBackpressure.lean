import MySvrKit.EchoIntegrity
import MySvrKit.SendArithmetic

/-! # `SendData` under back-pressure

The loop of `SendData` moves its position by what it has offered, and removes the
connection on any error of `send`.  A chunk that is taken in part is so followed by a
gap, and a full socket closes the connection.  The runs here are of one connection
with bytes to send: events with `EPOLLOUT`, and `send` taking any part of what it is
offered or refusing it with `EAGAIN`. -/

namespace MySvrKit

/-- `EPOLLOUT`. -/
def EpollEvents.onlyOut : EpollEvents := ⟨false, true, false, false, false⟩

namespace Server
variable {fd : Fd} {id : Nat} {data base : List UInt8} {s t : Server} {call : SysCall}

/-- What happens: `EPOLLOUT` events of the descriptor, and results of `send` from one
byte to what is offered, or `EAGAIN`. -/
def OnlySends (fd : Fd) (s : Server) : SysCall → Prop
  | .epollWait (.ok events) => ∀ e ∈ events, e = ⟨fd, .onlyOut⟩
  | .send (.ok ret) => 0 < ret ∧ ret ≤ s.offered
  | .send (.error errno) => errno = eagain
  | .handle | .epollCtl (.ok ()) | .close (.ok ()) | .library _ => True
  | .epollWait (.error _) | .accept4 _ | .epollCtl (.error _) | .recv _ | .close (.error _) =>
      False

/-- The runs of the server in which only that happens. -/
def sendRuns (fd : Fd) : TransitionSystem Server SysCall where
  init _ := True
  step s call t := s.OnlySends fd call ∧ s.next call = some t

/-- Between two events, the connection of the descriptor has `data` to send, and has
sent `base` before. -/
structure ReadyToSend (fd : Fd) (id : Nat) (data base : List UInt8) (s : Server) : Prop where
  pc : s.pc = .epollWait
  handler : s.handlers fd = some (.echo id)
  socket : s.sockets fd = some (.client id)
  registered : s.registered fd = some .outEt
  echo : s.echoHandlers id = ⟨true, data⟩
  sent : s.sent id = base
  length_lt : data.length < 2 ^ 32

/-- **Delivery in order**: the bytes taken are a beginning of `data`, `has_received_` is
cleared and the registration switched back only when they are all of it, and the
connection is open. -/
structure Delivers (fd : Fd) (id : Nat) (data base : List UInt8) (s : Server) : Prop where
  accepted : ∃ accepted, s.sent id = base ++ accepted ∧ accepted <+: data
  cleared : (s.echoHandlers id).hasReceived = false ∨ s.registered fd = some .inEt →
    s.sent id = base ++ data
  isOpen : s.sockets fd = some (.client id)

/-- `send` takes all it is offered. -/
def TakesOffered (s : Server) : SysCall → Prop
  | .send result => result = .ok s.offered
  | _ => True

/-! ## Where `SendData` is -/

/-- What the run does not change until the connection is closed. -/
structure Holding (fd : Fd) (id : Nat) (data : List UInt8) (s : Server) : Prop where
  handler : s.handlers fd = some (.echo id)
  socket : s.sockets fd = some (.client id)
  data_eq : (s.echoHandlers id).receivedData = data
  length_lt : data.length < 2 ^ 32

/-- A change elsewhere. -/
theorem Holding.keep (hs : s.Holding fd id data) (hhandler : t.handlers fd = s.handlers fd)
    (hsocket : t.sockets fd = s.sockets fd)
    (hdata : (t.echoHandlers id).receivedData = (s.echoHandlers id).receivedData) :
    t.Holding fd id data :=
  ⟨hhandler.trans hs.handler, hsocket.trans hs.socket, hdata.trans hs.data_eq, hs.length_lt⟩

/-- Before the first `send`, or after the last. -/
def Rests (fd : Fd) (id : Nat) (data base : List UInt8) (s : Server) : Prop :=
  ((s.echoHandlers id).hasReceived = true ∧ s.registered fd = some .outEt ∧ s.sent id = base) ∨
    ((s.echoHandlers id).hasReceived = false ∧ s.sent id = base ++ data)

/-- What holds in a run in which every `send` has taken all. -/
inductive Sending (fd : Fd) (id : Nat) (data base : List UInt8) (s : Server) : Prop
  | waiting (hpc : s.pc = .epollWait) (hs : s.Holding fd id data) (hrests : s.Rests fd id data base)
  | handling {rest} (hpc : s.pc = .event rest) (hs : s.Holding fd id data)
      (hrests : s.Rests fd id data base) (hrest : ∀ e ∈ rest, e = ⟨fd, .onlyOut⟩)
  | sending {k rest} (hpc : s.pc = .send fd id k rest) (hs : s.Holding fd id data)
      (hk : k < data.length) (hreceived : (s.echoHandlers id).hasReceived = true)
      (hregistered : s.registered fd = some .outEt) (hsent : s.sent id = base ++ data.take k)
      (hrest : ∀ e ∈ rest, e = ⟨fd, .onlyOut⟩)
  | switching {rest} (hpc : s.pc = .epollCtlMod fd .inEt rest) (hs : s.Holding fd id data)
      (hcleared : (s.echoHandlers id).hasReceived = false) (hsent : s.sent id = base ++ data)
      (hrest : ∀ e ∈ rest, e = ⟨fd, .onlyOut⟩)

/-- What holds once a `send` has taken less than it was offered: the position is ahead of
the bytes taken, or the connection is being removed. -/
inductive Behind (fd : Fd) (id : Nat) (data base : List UInt8) (s : Server) : Prop
  | sending {k rest} (hpc : s.pc = .send fd id k rest) (hs : s.Holding fd id data)
      (hk : k < data.length) (hbehind : (s.sent id).length < base.length + k)
  | removing {ret rest} (hpc : s.pc = .epollCtlDel fd ret rest)
  | closing {ret rest} (hpc : s.pc = .close fd ret rest)

theorem Rests.inOrder (hrests : s.Rests fd id data base) (hs : s.Holding fd id data) :
    s.Delivers fd id data base := by
  rcases hrests with ⟨hreceived, hregistered, hsent⟩ | ⟨-, hsent⟩
  · refine ⟨⟨[], by rw [hsent, List.append_nil], List.nil_prefix⟩, fun h => ?_, hs.socket⟩
    rw [hreceived, hregistered] at h
    rcases h with h | h
    · cases h
    · cases h
  · exact ⟨⟨data, hsent, List.prefix_refl _⟩, fun _ => hsent, hs.socket⟩

theorem Sending.inOrder (hs : s.Sending fd id data base) : s.Delivers fd id data base := by
  cases hs with
  | waiting hpc hs hrests => exact hrests.inOrder hs
  | handling hpc hs hrests hrest => exact hrests.inOrder hs
  | sending hpc hs hk hreceived hregistered hsent hrest =>
    refine ⟨⟨_, hsent, List.take_prefix _ _⟩, fun h => ?_, hs.socket⟩
    rw [hreceived, hregistered] at h
    rcases h with h | h
    · cases h
    · cases h
  | switching hpc hs hcleared hsent hrest =>
    exact Rests.inOrder (Or.inr ⟨hcleared, hsent⟩) hs

/-- What is offered at a position: below 2^32 bytes nothing wraps. -/
theorem Holding.offered (hs : s.Holding fd id data) {k : Nat} {rest : List EpollEvent}
    (hpc : s.pc = .send fd id k rest) (hk : k < data.length) :
    0 < s.offered ∧ k + s.offered ≤ data.length ∧
      s.offered = sentBufferLengthThistime (s.echoHandlers id).receivedData.length k := by
  have hoffered : s.offered =
      sentBufferLengthThistime (s.echoHandlers id).receivedData.length k := by
    simp only [Server.offered, hpc]
  have hmod : data.length % 2 ^ 32 = data.length := Nat.mod_eq_of_lt hs.length_lt
  rw [hoffered, hs.data_eq, sentBufferLengthThistime_eq (by rw [hmod]; exact hk.le), hmod,
    kOnceSendBufferSize]
  exact ⟨by omega, by omega, rfl⟩

/-- The 32-bit sum of `SendData` is the sum. -/
theorem Holding.position (hs : s.Holding fd id data) {k : Nat} {rest : List EpollEvent}
    (hpc : s.pc = .send fd id k rest) (hk : k < data.length) :
    (k + sentBufferLengthThistime (s.echoHandlers id).receivedData.length k) % 2 ^ 32 =
      k + s.offered := by
  obtain ⟨-, hle, hthistime⟩ := hs.offered hpc hk
  have hlength := hs.length_lt
  rw [← hthistime]
  exact Nat.mod_eq_of_lt (by omega)

/-- The loop of `SendData` from its test on, at a position that is in step. -/
theorem Sending.loop {k : Nat} {rest : List EpollEvent} (hs : s.Holding fd id data)
    (hk : k ≤ data.length) (hreceived : (s.echoHandlers id).hasReceived = true)
    (hregistered : s.registered fd = some .outEt) (hsent : s.sent id = base ++ data.take k)
    (hrest : ∀ e ∈ rest, e = ⟨fd, .onlyOut⟩) :
    (s.sendLoop fd id k rest).Sending fd id data base := by
  have hdata := hs.data_eq
  rcases sendLoop_cases s fd id k rest with ⟨hlt, he⟩ | ⟨hlt, he⟩ | ⟨heq, he⟩
  · rw [he]
    rw [hdata] at hlt
    exact .sending rfl (hs.keep rfl rfl rfl) hlt hreceived hregistered
      hsent hrest
  · rw [hdata] at hlt
    omega
  · rw [he]
    rw [hdata] at heq
    refine .switching rfl (hs.keep rfl rfl ?_) ?_ ?_ hrest
    · simp [setEcho]
    · simp [setEcho]
    · show s.sent id = base ++ data
      rw [hsent, heq, List.take_length]

/-- A step in which a `send` takes all it is offered. -/
theorem Sending.step (hs : s.Sending fd id data base) (hcall : s.OnlySends fd call)
    (h : s.next call = some t) (htakes : s.TakesOffered call) : t.Sending fd id data base := by
  cases hs with
  | waiting hpc hs hrests =>
    rcases next_cases h with ⟨errno, rfl, rfl⟩ | hnext
    · exact .waiting hpc (hs.keep rfl rfl rfl) hrests
    · rw [hpc] at hnext
      obtain ⟨result, rfl, rfl⟩ := hnext
      cases result with
      | error errno => exact hcall.elim
      | ok events =>
        exact .handling rfl (hs.keep rfl rfl rfl) hrests hcall
  | @handling rest hpc hs hrests hrest =>
    rcases next_cases h with ⟨errno, rfl, rfl⟩ | hnext
    · exact .handling hpc (hs.keep rfl rfl rfl) hrests hrest
    · rw [hpc] at hnext
      obtain ⟨rfl, rfl⟩ := hnext
      cases rest with
      | nil => exact .waiting rfl (hs.keep rfl rfl rfl) hrests
      | cons e rest =>
        obtain ⟨rfl, hlater⟩ := List.forall_mem_cons.mp hrest
        have hhandle : s.nextEvent (⟨fd, .onlyOut⟩ :: rest) = s.sendData fd id rest := by
          simp only [nextEvent, hs.handler]
          rfl
        rw [hhandle, sendData]
        rcases hrests with ⟨hreceived, hregistered, hsent⟩ | ⟨hcleared, hsent⟩
        · rw [hreceived]
          exact .loop hs (Nat.zero_le _) hreceived hregistered
            (by rw [hsent, List.take_zero, List.append_nil]) hlater
        · rw [hcleared]
          exact .handling rfl (hs.keep rfl rfl rfl)
            (Or.inr ⟨hcleared, hsent⟩) hlater
  | @sending k rest hpc hs hk hreceived hregistered hsent hrest =>
    rcases next_cases h with ⟨errno, rfl, rfl⟩ | hnext
    · exact .sending hpc (hs.keep rfl rfl rfl) hk hreceived
        hregistered hsent hrest
    · rw [hpc] at hnext
      obtain ⟨result, rfl, rfl⟩ := hnext
      have hall : result = .ok s.offered := htakes
      obtain ⟨hpos, hle, -⟩ := hs.offered hpc hk
      obtain ⟨m, hm⟩ : ∃ m, s.offered = m + 1 := ⟨s.offered - 1, by omega⟩
      rw [hall, hm]
      show ((s.recordSent fd _).sendLoop fd id _ rest).Sending fd id data base
      rw [hs.position hpc hk]
      refine .loop (hs.keep rfl rfl rfl) hle hreceived hregistered
        ?_ hrest
      simp only [recordSent_client hs.socket, Function.update_self]
      rw [hsent, hs.data_eq, ← hm, List.append_assoc, ← List.take_add]
  | @switching rest hpc hs hcleared hsent hrest =>
    rcases next_cases h with ⟨errno, rfl, rfl⟩ | hnext
    · exact .switching hpc (hs.keep rfl rfl rfl) hcleared hsent hrest
    · rw [hpc] at hnext
      obtain ⟨result, rfl, rfl⟩ := hnext
      cases result with
      | error errno => exact hcall.elim
      | ok u =>
        exact .handling rfl (hs.keep rfl rfl rfl)
          (Or.inr ⟨hcleared, hsent⟩) hrest

/-! ## After a `send` that did not take all -/

/-- A `send` after which the bytes taken are fewer than the position: the loop goes on
behind, or clears `has_received_` with bytes not taken. -/
theorem Holding.send_short (hs : s.Holding fd id data) {k ret : Nat} {rest : List EpollEvent}
    (hpc : s.pc = .send fd id k rest) (hk : k < data.length)
    (hshort : (s.sent id).length + (ret + 1) < base.length + (k + s.offered)) :
    (s.afterSend fd id k rest (.ok (ret + 1))).Behind fd id data base ∨
      ¬ (s.afterSend fd id k rest (.ok (ret + 1))).Delivers fd id data base := by
  have hafter : s.afterSend fd id k rest (.ok (ret + 1)) =
      (s.recordSent fd (((s.echoHandlers id).receivedData.drop k).take (ret + 1))).sendLoop fd id
        (k + s.offered) rest := by
    rw [← hs.position hpc hk]
    rfl
  rw [hafter]
  generalize hbytes : ((s.echoHandlers id).receivedData.drop k).take (ret + 1) = bytes
  have htaken : bytes.length ≤ ret + 1 := by
    rw [← hbytes]
    exact List.length_take_le _ _
  have hsent : (s.recordSent fd bytes).sent id = s.sent id ++ bytes := by
    simp only [recordSent_client hs.socket, Function.update_self]
  have hbehind : ((s.recordSent fd bytes).sent id).length < base.length + (k + s.offered) := by
    rw [hsent, List.length_append]
    omega
  have hdata : ((s.recordSent fd bytes).echoHandlers id).receivedData = data := hs.data_eq
  rcases sendLoop_cases (s.recordSent fd bytes) fd id (k + s.offered) rest with
    ⟨hlt, he⟩ | ⟨hlt, he⟩ | ⟨heq, he⟩
  · rw [he]
    rw [hdata] at hlt
    exact Or.inl (.sending rfl (hs.keep rfl rfl rfl) hlt hbehind)
  · rw [he]
    exact Or.inl (.removing rfl)
  · rw [he]
    rw [hdata] at heq
    refine Or.inr fun hd => ?_
    have hcleared := hd.cleared (Or.inl (by simp [setEcho]))
    have hlen := congrArg List.length hcleared
    rw [List.length_append, ← heq] at hlen
    exact absurd hlen (Nat.ne_of_lt hbehind)

/-- The connection falls behind with the first `send` that does not take all. -/
theorem Sending.behind (hs : s.Sending fd id data base) (hcall : s.OnlySends fd call)
    (h : s.next call = some t) (htakes : ¬ s.TakesOffered call) :
    t.Behind fd id data base ∨ ¬ t.Delivers fd id data base := by
  cases call with
  | send result =>
    cases hs with
    | @sending k rest hpc hs hk hreceived hregistered hsent hrest =>
      rcases next_cases h with ⟨errno, hcall', -⟩ | hnext
      · cases hcall'
      · rw [hpc] at hnext
        obtain ⟨result', heq, rfl⟩ := hnext
        obtain rfl := SysCall.send.inj heq
        rcases result with errno | _ | ret
        · exact Or.inl (.removing rfl)
        · exact absurd hcall.1 (Nat.lt_irrefl 0)
        · have hle : ret + 1 ≤ s.offered := hcall.2
          have hne : ret + 1 ≠ s.offered := fun he => htakes (congrArg Except.ok he)
          refine hs.send_short hpc hk ?_
          rw [hsent, List.length_append, List.length_take, Nat.min_eq_left hk.le]
          omega
    | waiting hpc hs hrests | handling hpc hs hrests hrest
    | switching hpc hs hcleared hsent hrest =>
      simp [next, hpc] at h
  | epollWait _ | handle | accept4 _ | epollCtl _ | recv _ | close _ | library _ =>
    exact absurd trivial htakes

/-- Once behind, the connection stays behind until it fails to deliver. -/
theorem Behind.step (hs : s.Behind fd id data base) (hcall : s.OnlySends fd call)
    (h : s.next call = some t) : t.Behind fd id data base ∨ ¬ t.Delivers fd id data base := by
  cases hs with
  | @sending k rest hpc hs hk hbehind =>
    rcases next_cases h with ⟨errno, rfl, rfl⟩ | hnext
    · exact Or.inl (.sending hpc (hs.keep rfl rfl rfl) hk hbehind)
    · rw [hpc] at hnext
      obtain ⟨result, rfl, rfl⟩ := hnext
      rcases result with errno | _ | ret
      · exact Or.inl (.removing rfl)
      · exact absurd hcall.1 (Nat.lt_irrefl 0)
      · have hle : ret + 1 ≤ s.offered := hcall.2
        exact hs.send_short hpc hk (by omega)
  | @removing ret rest hpc =>
    rcases next_cases h with ⟨errno, rfl, rfl⟩ | hnext
    · exact Or.inl (.removing hpc)
    · rw [hpc] at hnext
      obtain ⟨result, rfl, rfl⟩ := hnext
      cases result with
      | error errno => exact hcall.elim
      | ok u => exact Or.inl (.closing rfl)
  | @closing ret rest hpc =>
    rcases next_cases h with ⟨errno, rfl, rfl⟩ | hnext
    · exact Or.inl (.closing hpc)
    · rw [hpc] at hnext
      obtain ⟨result, rfl, rfl⟩ := hnext
      cases result with
      | error errno => exact hcall.elim
      | ok u =>
        refine Or.inr fun hd => ?_
        have hopen := hd.isOpen
        simp [afterClose, handled] at hopen

theorem Behind.not_between (hs : s.Behind fd id data base) : ¬ s.Between := by
  unfold Between
  cases hs with
  | sending hpc hs hk hbehind => rw [hpc]; exact fun h => h
  | removing hpc => rw [hpc]; exact fun h => h
  | closing hpc => rw [hpc]; exact fun h => h

/-- A run from behind to the end of a call fails to deliver somewhere. -/
theorem Behind.run {run : List (SysCall × Server)} (hs : s.Behind fd id data base)
    (h : (sendRuns fd).IsRun s run) (hend : (TransitionSystem.last s run).Between) :
    ∃ x ∈ run, ¬ x.2.Delivers fd id data base := by
  induction run generalizing s with
  | nil => exact absurd hend hs.not_between
  | cons x run ih =>
    obtain ⟨⟨hcall, hnext⟩, hrest⟩ := h
    rcases hs.step hcall hnext with hbehind | hnot
    · obtain ⟨y, hy, hnot⟩ := ih hbehind hrest hend
      exact ⟨y, List.mem_cons_of_mem _ hy, hnot⟩
    · exact ⟨x, List.mem_cons_self, hnot⟩

theorem Sending.delivers_iff {run : List (SysCall × Server)} (hs : s.Sending fd id data base)
    (h : (sendRuns fd).IsRun s run) (hend : (TransitionSystem.last s run).Between) :
    (∀ x ∈ run, x.2.Delivers fd id data base) ↔ TransitionSystem.Meets TakesOffered s run := by
  induction run generalizing s with
  | nil => simp [TransitionSystem.Meets]
  | cons x run ih =>
    obtain ⟨call, t⟩ := x
    obtain ⟨⟨hcall, hnext⟩, hrest⟩ := h
    rw [List.forall_mem_cons, TransitionSystem.Meets]
    by_cases htakes : s.TakesOffered call
    · have ht := hs.step hcall hnext htakes
      rw [ih ht hrest hend]
      exact and_congr_left' ⟨fun _ => htakes, fun _ => ht.inOrder⟩
    · refine iff_of_false (fun hall => ?_) fun hmeets => htakes hmeets.1
      rcases hs.behind hcall hnext htakes with hbehind | hnot
      · obtain ⟨y, hy, hnot⟩ := hbehind.run hrest hend
        exact hnot (hall.2 y hy)
      · exact hnot hall.1

/-- **`SendData` delivers in order under short writes and back-pressure exactly where
there are none.**  For every received data below 2^32 bytes and every run of events and
results of `send` up to the end of a call: the connection delivers in every state iff
every `send` took all it was offered. -/
theorem delivers_iff_takesOffered (hs : s.ReadyToSend fd id data base)
    {run : List (SysCall × Server)} (h : (sendRuns fd).IsRun s run)
    (hend : (TransitionSystem.last s run).Between) :
    (∀ x ∈ run, x.2.Delivers fd id data base) ↔ TransitionSystem.Meets TakesOffered s run := by
  refine Sending.delivers_iff (.waiting hs.pc ⟨hs.handler, hs.socket, ?_, hs.length_lt⟩
    (Or.inl ⟨?_, hs.registered, hs.sent⟩)) h hend
  · rw [hs.echo]
  · rw [hs.echo]

/-- A client that has sent twelve bytes, before any is sent back. -/
def twelveBytes : Option Server :=
  TransitionSystem.exec (checked fun _ _ => True) (initial 3 0)
    [.epollWait (.ok [⟨3, .onlyIn⟩]), .handle, .accept4 (.ok ⟨5, ['a'], 80⟩), .epollCtl (.ok ()),
      .handle, .epollWait (.ok [⟨5, .onlyIn⟩]), .handle,
      .recv (.ok [0, 1, 2, 3, 4, 5, 6, 7, 8, 9]), .recv (.ok [10, 11]), .epollCtl (.ok ()),
      .handle]

theorem onlySends_event (fd : Fd) (s : Server) :
    s.OnlySends fd (.epollWait (.ok [⟨fd, .onlyOut⟩])) :=
  fun _ he => List.mem_singleton.mp he

/-- The theorem at a run: both chunks are taken whole. -/
theorem delivers_iff_takesOffered_twelveBytes :
    ∃ s run, twelveBytes = some s ∧ (sendRuns 5).IsRun s run ∧
      (∀ x ∈ run, x.2.Delivers 5 0 [0, 1, 2, 3, 4, 5, 6, 7, 8, 9, 10, 11] []) ∧
      (TransitionSystem.last s run).sent 0 = [0, 1, 2, 3, 4, 5, 6, 7, 8, 9, 10, 11] := by
  have hstart : twelveBytes = some _ := rfl
  have hrun : (sendRuns 5).IsRun (twelveBytes.getD (initial 3 0))
      [(.epollWait (.ok [⟨5, .onlyOut⟩]), _), (.handle, _), (.send (.ok 10), _),
        (.send (.ok 2), _), (.epollCtl (.ok ()), _)] :=
    ⟨⟨onlySends_event 5 _, rfl⟩, ⟨trivial, rfl⟩, ⟨⟨by decide, by decide⟩, rfl⟩,
      ⟨⟨by decide, by decide⟩, rfl⟩, ⟨trivial, rfl⟩, trivial⟩
  have hready : (twelveBytes.getD (initial 3 0)).ReadyToSend 5 0
      [0, 1, 2, 3, 4, 5, 6, 7, 8, 9, 10, 11] [] := ⟨rfl, rfl, rfl, rfl, rfl, rfl, by decide⟩
  exact ⟨_, _, hstart, hrun, (delivers_iff_takesOffered hready hrun trivial).mpr
    ⟨trivial, trivial, rfl, rfl, trivial, trivial⟩, rfl⟩

/-- When the first chunk is taken in part the bytes after it are skipped, and
`has_received_` is cleared all the same; when the socket is full the connection is
closed. -/
theorem not_delivers_short_full :
    (∃ s run, twelveBytes = some s ∧ s.ReadyToSend 5 0 [0, 1, 2, 3, 4, 5, 6, 7, 8, 9, 10, 11] [] ∧
        (sendRuns 5).IsRun s run ∧
        (TransitionSystem.last s run).sent 0 = [0, 1, 2, 3, 10, 11] ∧
        ((TransitionSystem.last s run).echoHandlers 0).hasReceived = false) ∧
      ∃ s run, twelveBytes = some s ∧ s.ReadyToSend 5 0 [0, 1, 2, 3, 4, 5, 6, 7, 8, 9, 10, 11] [] ∧
        (sendRuns 5).IsRun s run ∧ (TransitionSystem.last s run).sockets 5 = none := by
  have hstart : twelveBytes = some _ := rfl
  have hready : (twelveBytes.getD (initial 3 0)).ReadyToSend 5 0
      [0, 1, 2, 3, 4, 5, 6, 7, 8, 9, 10, 11] [] := ⟨rfl, rfl, rfl, rfl, rfl, rfl, by decide⟩
  have hshort : (sendRuns 5).IsRun (twelveBytes.getD (initial 3 0))
      [(.epollWait (.ok [⟨5, .onlyOut⟩]), _), (.handle, _), (.send (.ok 4), _),
        (.send (.ok 2), _), (.epollCtl (.ok ()), _)] :=
    ⟨⟨onlySends_event 5 _, rfl⟩, ⟨trivial, rfl⟩, ⟨⟨by decide, by decide⟩, rfl⟩,
      ⟨⟨by decide, by decide⟩, rfl⟩, ⟨trivial, rfl⟩, trivial⟩
  have hfull : (sendRuns 5).IsRun (twelveBytes.getD (initial 3 0))
      [(.epollWait (.ok [⟨5, .onlyOut⟩]), _), (.handle, _), (.send (.error eagain), _),
        (.epollCtl (.ok ()), _), (.close (.ok ()), _)] :=
    ⟨⟨onlySends_event 5 _, rfl⟩, ⟨trivial, rfl⟩, ⟨rfl, rfl⟩, ⟨trivial, rfl⟩, ⟨trivial, rfl⟩,
      trivial⟩
  exact ⟨⟨_, _, hstart, hready, hshort, rfl, rfl⟩, ⟨_, _, hstart, hready, hfull, rfl⟩⟩

end Server
end MySvrKit
