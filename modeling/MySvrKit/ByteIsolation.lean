import MySvrKit.EchoIntegrity

/-! # What a connection sends it has received

No assumption on the calls: `send` may be short, and `epoll_ctl`, `close` and the rest
may fail at any time.  Bytes may then be lost, but what has been sent on a connection is
what has been received on it with parts left out: nothing of another connection,
nothing twice, nothing out of order.  A connection whose `RemoveHandler` fails stays
open with its data half sent; it is not served again, because its handler has left
`handlers_`. -/

namespace MySvrKit

namespace Connection

/-- What is held in `received_data_` has been received last, and none of it sent. -/
def HoldsUnsent (c : Connection) : Prop :=
  ∃ earlier, c.received = earlier ++ c.handler.receivedData ∧ c.sent.Sublist earlier

/-- **The invariant of a connection whose handler is in the table.** -/
def Relays (c : Connection) : Prop :=
  match c.phase with
  | .accepted | .idle | .modify _ =>
      c.sent.Sublist c.received ∧ (c.handler.hasReceived = true → c.HoldsUnsent)
  | .recv => c.HoldsUnsent
  | .send sentBufferLength =>
      sentBufferLength ≤ c.handler.receivedData.length % 2 ^ 32 ∧
        ∃ earlier, c.received = earlier ++ c.handler.receivedData ∧
          c.sent.Sublist (earlier ++ c.handler.receivedData.take sentBufferLength)
  | .remove ret | .close ret => c.sent.Sublist c.received ∧ ret ≠ some 0

variable {c d : Connection} {call : SysCall}

theorem HoldsUnsent.sublist (h : c.HoldsUnsent) : c.sent.Sublist c.received := by
  obtain ⟨earlier, hreceived, hsent⟩ := h
  rw [hreceived]
  exact hsent.trans (List.sublist_append_left _ _)

theorem Relays.sublist (h : c.Relays) : c.sent.Sublist c.received := by
  unfold Relays at h
  split at h
  case h_4 => exact h.sublist
  case h_5 =>
    obtain ⟨-, earlier, hreceived, hsent⟩ := h
    rw [hreceived]
    exact hsent.trans ((List.Sublist.refl earlier).append (List.take_sublist _ _))
  all_goals exact h.1

/-- The send loop from a position up to which what is sent is accounted for. -/
theorem relays_sendLoop {sentBufferLength : Nat} {earlier : List UInt8}
    (hle : sentBufferLength ≤ c.handler.receivedData.length % 2 ^ 32)
    (hreceived : c.received = earlier ++ c.handler.receivedData)
    (hsent : c.sent.Sublist (earlier ++ c.handler.receivedData.take sentBufferLength)) :
    (c.sendLoop sentBufferLength).Relays := by
  have hlength : sentBufferLength ≤ c.handler.receivedData.length := hle.trans (Nat.mod_le _ _)
  unfold sendLoop
  by_cases hlt : sentBufferLength < c.handler.receivedData.length
  · rw [if_pos hlt]
    exact ⟨hle, earlier, hreceived, hsent⟩
  · rw [if_neg hlt, if_neg (Nat.not_lt.mpr hlength)]
    refine ⟨?_, nofun⟩
    show c.sent.Sublist c.received
    rw [hreceived]
    rwa [List.take_of_length_le (Nat.le_of_not_lt hlt)] at hsent

/-- What one `send` has taken is a beginning of what it was offered. -/
theorem sublist_take_drop {data sent earlier : List UInt8} {sentBufferLength taken offered : Nat}
    (h : sent.Sublist (earlier ++ data.take sentBufferLength)) (htaken : taken ≤ offered) :
    (sent ++ (data.drop sentBufferLength).take taken).Sublist
      (earlier ++ data.take (sentBufferLength + offered)) := by
  rw [List.take_add, ← List.append_assoc]
  exact h.append (List.take_sublist_take_left htaken)

/-- A step of a connection keeps the invariant, but for a `RemoveHandler` that fails. -/
theorem Relays.step (h : c.Relays) (hstep : c.Step call d) :
    d.sent.Sublist d.received ∧ (d.Relays ∨ ∃ ret, ret ≠ some 0 ∧
      ((c.phase = .remove ret ∧ ∃ errno, call = .epollCtl (.error errno)) ∨
        (c.phase = .close ret ∧ ∃ errno, call = .close (.error errno)))) := by
  -- but for those two, the invariant is enough
  suffices hd : d.Relays ∨ (d.sent.Sublist d.received ∧ ∃ ret, ret ≠ some 0 ∧
      ((c.phase = .remove ret ∧ ∃ errno, call = .epollCtl (.error errno)) ∨
        (c.phase = .close ret ∧ ∃ errno, call = .close (.error errno)))) by
    rcases hd with hd | ⟨hsent, hfails⟩
    · exact ⟨hd.sublist, Or.inl hd⟩
    · exact ⟨hsent, Or.inr hfails⟩
  have hsublist := h.sublist
  cases hstep with
  | @delErr ret errno hphase =>
    simp only [Relays, hphase] at h
    exact Or.inr ⟨hsublist, ret, h.2, Or.inl ⟨hphase, errno, rfl⟩⟩
  | @closeErr ret errno hphase =>
    simp only [Relays, hphase] at h
    exact Or.inr ⟨hsublist, ret, h.2, Or.inr ⟨hphase, errno, rfl⟩⟩
  | add hphase | addErr hphase | modify hphase | modifyErr hphase =>
    simp only [Relays, hphase] at h
    exact Or.inl h
  | errorEvent hphase => exact Or.inl ⟨hsublist, nofun⟩
  | del hphase =>
    simp only [Relays, hphase] at h
    exact Or.inl h
  | recvData hphase hmask hin =>
    exact Or.inl ⟨c.received, (List.append_nil _).symm, hsublist⟩
  | sendData hphase hmask hout hreceived =>
    simp only [Relays, hphase] at h
    obtain ⟨earlier, heq, hsent⟩ := h.2 hreceived
    refine Or.inl (relays_sendLoop (Nat.zero_le _) heq ?_)
    rwa [List.take_zero, List.append_nil]
  | recvZero hphase =>
    refine Or.inl ⟨?_, by decide⟩
    show c.sent.Sublist (c.chunks ++ [[]]).flatten
    rw [List.flatten_append, List.flatten_singleton, List.append_nil]
    exact hsublist
  | @recvChunk bytes hphase hne hlength =>
    simp only [Relays, hphase] at h
    obtain ⟨earlier, heq, hsent⟩ := h
    have hholds : (c.chunks ++ [bytes]).flatten =
        earlier ++ (c.handler.receivedData ++ bytes) := by
      rw [List.flatten_append, List.flatten_singleton, ← List.append_assoc, ← heq]
      rfl
    by_cases hshort : bytes.length < Server.kOnceRecvBufferSize
    · simp only [hshort, if_true]
      refine Or.inl ⟨?_, fun _ => ⟨earlier, hholds, hsent⟩⟩
      exact HoldsUnsent.sublist ⟨earlier, hholds, hsent⟩
    · simp only [hshort, if_false]
      exact Or.inl ⟨earlier, hholds, hsent⟩
  | recvErr hphase hne => exact Or.inl ⟨hsublist, by decide⟩
  | sendZero hphase => exact Or.inl ⟨hsublist, by decide⟩
  | sendErr hphase => exact Or.inl ⟨hsublist, by decide⟩
  | @sendBytes sentBufferLength ret hphase hret =>
    simp only [Relays, hphase] at h
    obtain ⟨hle, earlier, heq, hsent⟩ := h
    have hnext := offered_le hle
    -- the position moves by what was offered, and that never passes the length
    have hnowrap : (sentBufferLength + c.offered sentBufferLength) % 2 ^ 32 =
        sentBufferLength + c.offered sentBufferLength :=
      Nat.mod_eq_of_lt (Nat.lt_of_le_of_lt hnext (Nat.mod_lt _ (Nat.two_pow_pos 32)))
    rw [hnowrap]
    exact Or.inl (relays_sendLoop hnext heq (sublist_take_drop hsent hret))

/-- A step begins or ends with a call on the connection. -/
theorem Step.busy (h : c.Step call d) : c.phase ≠ .idle ∨ d.phase ≠ .idle := by
  cases h with
  | errorEvent | recvData => exact Or.inr nofun
  | sendData =>
    refine Or.inr ?_
    unfold sendLoop
    split
    · exact nofun
    · split <;> exact nofun
  | add hphase | addErr hphase | recvZero hphase | recvChunk hphase | recvErr hphase
  | sendZero hphase | sendBytes hphase | sendErr hphase | modify hphase | modifyErr hphase
  | del hphase | delErr hphase | closeErr hphase =>
    left
    rw [hphase]
    exact nofun

end Connection

namespace Server
variable {listenFd fd : Fd} {id : Nat} {s t : Server} {call : SysCall}

/-! ## The handler of a connection -/

/-- What is being done with a connection is done by its handler, which is in the table. -/
theorem Wired.handler_of_phase (hs : s.Wired listenFd) (hopen : s.sockets fd = some (.client id))
    (hphase : s.pc.phase fd ≠ .idle) : s.handlers fd = some (.echo id) := by
  have hhandling := hs.handling
  have hecho : ∀ {fd' : Fd} {p : Phase}, (if fd' = fd then p else .idle) ≠ Phase.idle →
      (∃ id', s.handlers fd' = some (.echo id')) → s.handlers fd = some (.echo id) := by
    rintro fd' p hne ⟨id', hid'⟩
    obtain rfl : fd' = fd := by
      by_contra hfd
      exact hne (if_neg hfd)
    rw [hid', hs.tables.echo_eq hid' hopen]
  cases hpc : s.pc with
  | epollWait | event _ | accept4 _ _ | stopped _ =>
    rw [hpc] at hphase
    exact absurd rfl hphase
  | epollCtlAdd _ clientFd _ =>
    simp only [Handling, hpc] at hhandling
    exact hecho (p := .accepted) (by rwa [hpc] at hphase) hhandling.2.2
  | recv fd' id' _ =>
    simp only [Handling, hpc] at hhandling
    exact hecho (p := .recv) (by rwa [hpc] at hphase) ⟨id', hhandling.1⟩
  | send fd' id' sentBufferLength _ =>
    simp only [Handling, hpc] at hhandling
    exact hecho (p := .send sentBufferLength) (by rwa [hpc] at hphase) ⟨id', hhandling.1⟩
  | epollCtlMod fd' events _ =>
    simp only [Handling, hpc] at hhandling
    exact hecho (p := .modify events) (by rwa [hpc] at hphase) hhandling.1
  | epollCtlDel fd' ret _ =>
    simp only [Handling, hpc] at hhandling
    exact hecho (p := .remove ret) (by rwa [hpc] at hphase) hhandling.1
  | close fd' ret _ =>
    simp only [Handling, hpc] at hhandling
    exact hecho (p := .close ret) (by rwa [hpc] at hphase) hhandling.1

/-- A step gives no handler to a descriptor that was open before it. -/
theorem handlers_of_step (hk : s.Kernel call) (h : s.Step call t)
    (hopen : (s.sockets fd).isSome = true) {handler : Handler}
    (hh : t.handlers fd = some handler) : s.handlers fd = some handler := by
  have hdropped : ∀ {fd' : Fd}, Function.update s.handlers fd' none fd = some handler →
      s.handlers fd = some handler := by
    intro fd' hd
    by_cases he : fd = fd'
    · rw [he, Function.update_self] at hd
      cases hd
    · rwa [Function.update_of_ne he] at hd
  cases h with
  | @accept accepted fd' rest hpc =>
    have hne : fd ≠ accepted.clientFd := by
      rintro rfl
      have hfree : s.sockets accepted.clientFd = none := hk
      rw [hfree] at hopen
      cases hopen
    simpa [afterAccept4, Function.update_of_ne hne] using hh
  | sendData => rwa [sendLoop_handlers] at hh
  | sendBytes =>
    simp only [afterSend, sendLoop_handlers] at hh
    exact hh
  | @recvChunk bytes fd' id' rest hpc hne =>
    obtain ⟨pc, handler', -, -, he⟩ := afterRecv_eq s fd' id' rest hne
    rw [he] at hh
    exact hh
  | close => exact hdropped (by rwa [afterClose_handlers] at hh)
  | acceptErr | addErr | add | modifyErr | modify | delErr | closeErr | notSupport
  | nothingToSend =>
    have hsub := handled_sub hh
    exact hsub
  | _ => exact hh

/-- A `RemoveHandler` that fails leaves its descriptor without a handler. -/
theorem handlers_of_remove_fails (h : s.Step call t) {ret : Option Int} (hret : ret ≠ some 0)
    (hfails : (s.pc.phase fd = .remove ret ∧ ∃ errno, call = .epollCtl (.error errno)) ∨
      (s.pc.phase fd = .close ret ∧ ∃ errno, call = .close (.error errno))) :
    t.handlers fd = none := by
  rcases hfails with ⟨hphase, errno, rfl⟩ | ⟨hphase, errno, rfl⟩
  · obtain ⟨rest, hpc⟩ := Pc.eq_of_phase hphase
    cases h with
    | delErr hpc' =>
      obtain ⟨rfl, rfl, rfl⟩ := Pc.epollCtlDel.inj (hpc'.symm.trans hpc)
      rw [handled_handlers (getD_ne_zero hret), Function.update_self]
    | addErr hpc' | modifyErr hpc' => rw [hpc] at hpc'; cases hpc'
  · obtain ⟨rest, hpc⟩ := Pc.eq_of_phase hphase
    cases h with
    | closeErr hpc' =>
      obtain ⟨rfl, rfl, rfl⟩ := Pc.close.inj (hpc'.symm.trans hpc)
      rw [handled_handlers (getD_ne_zero hret), Function.update_self]

/-- A connection that steps has its handler. -/
theorem handler_of_moves (hs : s.Wired listenFd) (hk : s.Kernel call) (h : s.Step call t)
    (hbefore : s.sockets fd = some (.client id)) (hafter : t.sockets fd = some (.client id))
    (hmove : (s.connection fd id).Step call (t.connection fd id)) :
    s.handlers fd = some (.echo id) := by
  rcases hmove.busy with hphase | hphase
  · exact hs.handler_of_phase hbefore hphase
  · -- the call it makes next is its handler's, and no handler has come to it
    have ht := (hs.step hk h).handler_of_phase hafter hphase
    exact handlers_of_step hk h (by rw [hbefore]; rfl) ht

/-! ## All runs -/

/-- **The invariant of the server.** -/
structure RelaysAll (listenFd : Fd) (s : Server) : Prop where
  wired : s.Wired listenFd
  unused : s.Unused
  relays : ∀ fd id, s.sockets fd = some (.client id) → s.handlers fd = some (.echo id) →
    (s.connection fd id).Relays
  sublist : ∀ id, (s.sent id).Sublist (s.chunks id).flatten

/-- What a step makes of a connection that is open after it. -/
theorem RelaysAll.step_open (hs : s.RelaysAll listenFd) (hk : s.Kernel call) (h : s.Step call t)
    (hopen : t.sockets fd = some (.client id)) :
    (t.sent id).Sublist (t.chunks id).flatten ∧
      (t.handlers fd = some (.echo id) → (t.connection fd id).Relays) := by
  rcases step_connection hs.wired hs.unused hk h hopen with
    ⟨hbefore, heq⟩ | ⟨hbefore, hmove⟩ | ⟨-, -, heq⟩
  · have hsublist : (t.connection fd id).sent.Sublist (t.connection fd id).received :=
      heq ▸ hs.sublist id
    refine ⟨hsublist, fun hhandler => ?_⟩
    rw [heq]
    exact hs.relays fd id hbefore (handlers_of_step hk h (by rw [hbefore]; rfl) hhandler)
  · have hhandler := handler_of_moves hs.wired hk h hbefore hopen hmove
    obtain ⟨hsublist, hrelays⟩ := (hs.relays fd id hbefore hhandler).step hmove
    refine ⟨hsublist, fun hafter => ?_⟩
    rcases hrelays with hrelays | ⟨ret, hret, hfails⟩
    · exact hrelays
    · -- the handler is dropped with a `RemoveHandler` that fails
      rw [handlers_of_remove_fails h hret hfails] at hafter
      cases hafter
  · have hnew : (t.connection fd id).Relays := by
      rw [heq]
      exact ⟨List.Sublist.refl _, nofun⟩
    exact ⟨hnew.sublist, fun _ => hnew⟩

theorem RelaysAll.step (hs : s.RelaysAll listenFd) (hk : s.Kernel call) (h : s.Step call t) :
    t.RelaysAll listenFd where
  wired := hs.wired.step hk h
  unused := unused_step hs.wired hs.unused h
  relays _ _ hopen := (hs.step_open hk h hopen).2
  sublist id := by
    rcases (record_step hs.wired h).2 id with ⟨hchunks, hsent⟩ | ⟨fd, -, hopen⟩
    · rw [hchunks, hsent]
      exact hs.sublist id
    · exact (hs.step_open hk h hopen).1

theorem relaysAll (h : (runs listenFd).Reachable s) : s.RelaysAll listenFd := by
  refine h.invariant ?_ fun s call t hs hstep => hs.step hstep.1 (step_of_next hstep.2)
  rintro s ⟨errno, rfl⟩
  have hw := wired_initial listenFd errno
  refine ⟨hw, fun _ _ => ⟨rfl, rfl⟩, fun fd id hopen => ?_, fun _ => List.Sublist.refl _⟩
  exact absurd (hw.tables.client_lt fd id hopen) (Nat.not_lt_zero _)

/-- **Connections do not mix.**  In every run, whatever fails and however much of its
data a `send` takes, what the server has sent on a connection is what it has received on
that connection with parts left out. -/
theorem sent_sublist_received (h : (runs listenFd).Reachable s) (id : Nat) :
    (s.sent id).Sublist (s.chunks id).flatten :=
  (relaysAll h).sublist id

/-- The theorem at a run: `send` takes one byte of two, and the other is left out. -/
theorem sent_sublist_received_shortSend :
    ∃ s, (runs 3).Reachable s ∧ s.chunks 0 = [[7, 8]] ∧ s.sent 0 = [7] ∧
      s.registered 5 = some .inEt ∧ (s.sent 0).Sublist (s.chunks 0).flatten := by
  have hrun : TransitionSystem.exec (checked fun _ _ => True) (initial 3 0)
      [.epollWait (.ok [⟨3, .onlyIn⟩]), .handle, .accept4 (.ok ⟨5, ['a'], 80⟩), .epollCtl (.ok ()),
        .handle, .epollWait (.ok [⟨5, .onlyIn⟩]), .handle, .recv (.ok [7, 8]), .epollCtl (.ok ()),
        .handle, .epollWait (.ok [⟨5, ⟨false, true, false, false, false⟩⟩]), .handle,
        .send (.ok 1), .epollCtl (.ok ())] = some _ := rfl
  have hr : (runs 3).Reachable _ := (reachable_exec hrun).of_restrict
  exact ⟨_, hr, rfl, rfl, rfl, sent_sublist_received hr 0⟩

end Server
end MySvrKit
