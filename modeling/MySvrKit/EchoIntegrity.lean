import MySvrKit.Connection

/-! # Echo integrity

Where `epoll_ctl` and `close` work and `send` takes what it is offered, what a
connection has sent is always a beginning of what it has received, and all of it
whenever the connection is registered for input.  The invariant of one connection
(`Connection.Echoing`) says, at each point of the two loops, how the bytes held in
`received_data_` divide into sent and unsent; it carries the 32-bit position of the
send loop through lengths of 2^32 and more. -/

namespace MySvrKit

/-- `epoll_ctl` and `close` succeed. -/
def SysCall.CtlSucceeds : SysCall → Prop
  | .epollCtl (.error _) | .close (.error _) => False
  | _ => True

instance : (call : SysCall) → Decidable call.CtlSucceeds
  | .epollCtl (.error _) | .close (.error _) => isFalse id
  | .epollWait _ | .handle | .accept4 _ | .epollCtl (.ok _) | .recv _ | .send _ | .close (.ok _)
  | .library _ => isTrue trivial

/-- A `send` that does not fail takes all it is offered. -/
def Server.TakesAll (s : Server) : SysCall → Prop
  | .send (.ok ret) => ret = s.offered
  | _ => True

instance (s : Server) : (call : SysCall) → Decidable (s.TakesAll call)
  | .send (.ok _) => inferInstanceAs (Decidable (_ = _))
  | .epollWait _ | .handle | .accept4 _ | .epollCtl _ | .recv _ | .send (.error _) | .close _
  | .library _ => isTrue trivial

namespace Connection

/-- `Server.TakesAll` for one connection. -/
def TakesAll (c : Connection) (call : SysCall) : Prop :=
  ∀ sentBufferLength ret, c.phase = .send sentBufferLength → call = .send (.ok ret) →
    ret = c.offered sentBufferLength

/-- The bytes held in `received_data_` are those received and not sent. -/
def Holds (c : Connection) : Prop :=
  c.handler.hasReceived = true ∧ c.received = c.sent ++ c.handler.receivedData

/-- **The invariant of one connection.** -/
def Echoing (c : Connection) : Prop :=
  match c.phase with
  | .accepted => c.sent = c.received
  | .idle => (c.mask = some .inEt ∧ c.sent = c.received) ∨ (c.mask = some .outEt ∧ c.Holds)
  | .recv => c.Holds
  | .send sentBufferLength =>
      sentBufferLength ≤ c.handler.receivedData.length % 2 ^ 32 ∧
        ∃ earlier, c.received = earlier ++ c.handler.receivedData ∧
          c.sent = earlier ++ c.handler.receivedData.take sentBufferLength
  | .modify events =>
      (events = .inEt ∧ c.sent = c.received) ∨ (events = .outEt ∧ c.Holds)
  | .remove _ | .close _ => c.sent <+: c.received

variable {c d : Connection} {call : SysCall}

theorem Holds.sent_prefix (h : c.Holds) : c.sent <+: c.received :=
  ⟨c.handler.receivedData, h.2.symm⟩

theorem Echoing.sent_prefix (h : c.Echoing) : c.sent <+: c.received := by
  unfold Echoing at h
  split at h
  · exact h ▸ List.prefix_refl _
  · rcases h with ⟨-, h⟩ | ⟨-, h⟩
    · exact h ▸ List.prefix_refl _
    · exact h.sent_prefix
  · exact h.sent_prefix
  · obtain ⟨-, earlier, hreceived, hsent⟩ := h
    rw [hreceived, hsent]
    exact (List.prefix_append_right_inj earlier).mpr (List.take_prefix _ _)
  · rcases h with ⟨-, h⟩ | ⟨-, h⟩
    · exact h ▸ List.prefix_refl _
    · exact h.sent_prefix
  · exact h
  · exact h

/-- The send loop from a position that has not passed the length, cut to 32 bits. -/
theorem echoing_sendLoop {sentBufferLength : Nat} {earlier : List UInt8}
    (hle : sentBufferLength ≤ c.handler.receivedData.length % 2 ^ 32)
    (hreceived : c.received = earlier ++ c.handler.receivedData)
    (hsent : c.sent = earlier ++ c.handler.receivedData.take sentBufferLength) :
    (c.sendLoop sentBufferLength).Echoing := by
  have hlength : sentBufferLength ≤ c.handler.receivedData.length :=
    hle.trans (Nat.mod_le _ _)
  unfold sendLoop
  by_cases hlt : sentBufferLength < c.handler.receivedData.length
  · rw [if_pos hlt]
    exact ⟨hle, earlier, hreceived, hsent⟩
  · rw [if_neg hlt, if_neg (Nat.not_lt.mpr hlength)]
    refine Or.inl ⟨rfl, ?_⟩
    show c.sent = c.received
    rw [hsent, hreceived, List.take_of_length_le (Nat.le_of_not_lt hlt)]

/-- One `send` that takes everything moves the position by what it has sent: below
the length cut to 32 bits nothing wraps, and at it nothing is offered. -/
theorem offered_le {sentBufferLength : Nat}
    (hle : sentBufferLength ≤ c.handler.receivedData.length % 2 ^ 32) :
    sentBufferLength + c.offered sentBufferLength ≤ c.handler.receivedData.length % 2 ^ 32 := by
  have hoffered : c.offered sentBufferLength ≤
      (c.handler.receivedData.length - sentBufferLength) % 2 ^ 32 := Nat.min_le_left _ _
  omega

/-- **Every step of a connection keeps the invariant.** -/
theorem Echoing.step (h : c.Echoing) (hctl : call.CtlSucceeds) (htakes : c.TakesAll call)
    (hstep : c.Step call d) : d.Echoing := by
  cases hstep with
  | add hphase =>
    simp only [Echoing, hphase] at h
    exact Or.inl ⟨rfl, h⟩
  | addErr hphase | modifyErr hphase | delErr hphase | closeErr hphase => exact hctl.elim
  | errorEvent hphase => exact h.sent_prefix
  | recvData hphase hmask hin =>
    simp only [Echoing, hphase] at h
    -- an `EPOLLIN` event is of a connection registered for input: nothing is held
    rcases h with ⟨-, hall⟩ | ⟨hout, -⟩
    · exact ⟨rfl, by rw [List.append_nil]; exact hall.symm⟩
    · rw [hmask] at hout
      obtain rfl := Option.some.inj hout
      cases hin
  | sendData hphase hmask hout hreceived =>
    simp only [Echoing, hphase] at h
    -- and an `EPOLLOUT` event of one that holds what it has not sent
    rcases h with ⟨hin, -⟩ | ⟨-, hholds⟩
    · rw [hmask] at hin
      obtain rfl := Option.some.inj hin
      cases hout
    · exact echoing_sendLoop (Nat.zero_le _) hholds.2 (by rw [List.take_zero, List.append_nil])
  | recvZero hphase =>
    have hprefix := h.sent_prefix
    show c.sent <+: (c.chunks ++ [[]]).flatten
    rw [List.flatten_append, List.flatten_singleton, List.append_nil]
    exact hprefix
  | @recvChunk bytes hphase hne hlength =>
    simp only [Echoing, hphase] at h
    obtain ⟨hreceived, heq⟩ := h
    have hholds : (c.chunks ++ [bytes]).flatten =
        c.sent ++ (c.handler.receivedData ++ bytes) := by
      rw [List.flatten_append, List.flatten_singleton, ← List.append_assoc, ← heq]
      rfl
    by_cases hshort : bytes.length < Server.kOnceRecvBufferSize
    · simp only [hshort, if_true]
      exact Or.inr ⟨rfl, hreceived, hholds⟩
    · simp only [hshort, if_false]
      exact ⟨hreceived, hholds⟩
  | recvErr hphase hne => exact h.sent_prefix
  | sendZero hphase => exact h.sent_prefix
  | @sendBytes sentBufferLength ret hphase hret =>
    have hall : ret + 1 = c.offered sentBufferLength := htakes _ _ hphase rfl
    simp only [Echoing, hphase] at h
    obtain ⟨hle, earlier, hreceived, hsent⟩ := h
    have hnext := offered_le hle
    -- so the 32-bit sum of `SendData` is the sum
    have hnowrap : (sentBufferLength + c.offered sentBufferLength) % 2 ^ 32 =
        sentBufferLength + c.offered sentBufferLength := by
      refine Nat.mod_eq_of_lt (Nat.lt_of_le_of_lt hnext (Nat.mod_lt _ ?_))
      exact Nat.two_pow_pos 32
    rw [hnowrap, hall]
    refine echoing_sendLoop hnext hreceived ?_
    show c.sent ++ _ = _
    rw [hsent, List.append_assoc, ← List.take_add]
  | sendErr hphase => exact h.sent_prefix
  | @modify events hphase =>
    simp only [Echoing, hphase] at h
    rcases h with ⟨rfl, hall⟩ | ⟨rfl, hholds⟩
    · exact Or.inl ⟨rfl, hall⟩
    · exact Or.inr ⟨rfl, hholds⟩
  | del hphase => exact h.sent_prefix

end Connection

namespace Server
variable {listenFd fd : Fd} {id : Nat} {s : Server} {call : SysCall}

/-- What the server offers is what the connection it handles offers. -/
theorem TakesAll.connection (hs : s.Wired listenFd) (hopen : s.sockets fd = some (.client id))
    (h : s.TakesAll call) : (s.connection fd id).TakesAll call := by
  rintro sentBufferLength ret hphase rfl
  obtain ⟨id', rest, hpc⟩ := Pc.eq_of_phase hphase
  have hhandling := hs.handling
  simp only [Handling, hpc] at hhandling
  obtain rfl : id' = id := hs.tables.echo_eq hhandling.1 hopen
  simp only [TakesAll, offered, hpc] at h
  exact h

/-- The runs in which `epoll_ctl` and `close` succeed and `send` takes what it is
offered. -/
def echoRuns (listenFd : Fd) : TransitionSystem Server SysCall :=
  (runs listenFd).restrict fun s call => call.CtlSucceeds ∧ s.TakesAll call

theorem echoing (h : (echoRuns listenFd).Reachable s) (fd : Fd) (id : Nat)
    (hopen : s.sockets fd = some (.client id)) : (s.connection fd id).Echoing := by
  refine (connection_invariant (P := Connection.Echoing) rfl ?_ h).2.2 fd id hopen
  intro s call fd id b hs hopen hallows hP hstep
  exact hP.step hallows.1 (hallows.2.connection hs hopen) hstep

/-- A state between two handled events. -/
def Between (s : Server) : Prop :=
  match s.pc with
  | .epollWait | .event _ => True
  | _ => False

theorem Between.phase (h : s.Between) (fd : Fd) : s.pc.phase fd = .idle := by
  unfold Between at h
  split at h
  · rename_i hpc
    rw [hpc]
    rfl
  · rename_i hpc
    rw [hpc]
    rfl
  · cases h

/-- **Echo integrity.**  In every run, whatever the clients do and however their
events interleave: what the server has sent on a connection is a beginning of what
it has received on it, and between two events it is all of it for a connection
registered for `EPOLLIN`. -/
theorem sent_prefix_received (h : (echoRuns listenFd).Reachable s) (id : Nat) :
    s.sent id <+: (s.chunks id).flatten ∧
      ∀ fd mask, s.Between → s.sockets fd = some (.client id) → s.registered fd = some mask →
        mask.epollIn = true → s.sent id = (s.chunks id).flatten := by
  constructor
  · exact record_invariant (P := Connection.Echoing)
      (R := fun chunks sent => sent <+: chunks.flatten) (List.prefix_refl _)
      (fun _ => Connection.Echoing.sent_prefix) echoing h id
  · intro fd mask hbetween hopen hmask hin
    have hecho := echoing h fd id hopen
    simp only [Connection.Echoing, connection, hbetween.phase fd] at hecho
    rcases hecho with ⟨-, hall⟩ | ⟨hout, -⟩
    · exact hall
    · rw [hmask] at hout
      obtain rfl := Option.some.inj hout
      cases hin

/-- The theorem at a run: a client connects, sends two bytes and gets them back. -/
theorem sent_prefix_received_twoBytes :
    ∃ s, (echoRuns 3).Reachable s ∧ s.chunks 0 = [[7, 8]] ∧ s.registered 5 = some .inEt ∧
      s.sent 0 = [7, 8] := by
  have hrun : TransitionSystem.exec (checked fun s call => call.CtlSucceeds ∧ s.TakesAll call)
      (initial 3 0)
      [.epollWait (.ok [⟨3, .onlyIn⟩]), .handle, .accept4 (.ok ⟨5, ['a'], 80⟩), .epollCtl (.ok ()),
        .handle, .epollWait (.ok [⟨5, .onlyIn⟩]), .handle, .recv (.ok [7, 8]), .epollCtl (.ok ()),
        .handle, .epollWait (.ok [⟨5, ⟨false, true, false, false, false⟩⟩]), .handle,
        .send (.ok 2), .epollCtl (.ok ())] = some _ := rfl
  have hr : (echoRuns 3).Reachable _ := reachable_exec hrun
  exact ⟨_, hr, rfl, rfl, (sent_prefix_received hr 0).2 5 .inEt trivial rfl rfl rfl⟩

end Server
end MySvrKit
