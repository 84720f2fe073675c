import MySvrKit.EventLoopSteps

/-! # One connection

The server seen from one connection: a small machine of its own (`Connection`),
with the registration, the `EchoHandler` and the bytes of that connection and
nothing of the others.  Every step of the server is a step of at most one
connection and leaves the others as they are (`Server.step_connection`), so what
every step of a connection keeps holds of all connections in every run. -/

namespace MySvrKit

/-- What the server is doing with a connection: nothing, or the system call it is
about to make. -/
inductive Phase
  | accepted
  | idle
  | recv
  | send (sentBufferLength : Nat)
  | modify (events : EpollEvents)
  | remove (ret : Option Int)
  | close (ret : Option Int)

/-- One connection. -/
structure Connection where
  phase : Phase
  /-- Its registration in the epoll set. -/
  mask : Option EpollEvents
  handler : EchoHandler
  chunks : List (List UInt8)
  sent : List UInt8

namespace Connection

/-- The bytes received. -/
def received (c : Connection) : List UInt8 := c.chunks.flatten

/-- A connection that has just been accepted. -/
def new : Connection := ⟨.accepted, none, ⟨false, []⟩, [], []⟩

/-- The loop of `SendData` on this connection. -/
def sendLoop (c : Connection) (sentBufferLength : Nat) : Connection :=
  if sentBufferLength < c.handler.receivedData.length then
    { c with phase := .send sentBufferLength }
  else if sentBufferLength > c.handler.receivedData.length then
    { c with phase := .remove (some MyErrorcode.kSendErr) }
  else
    { c with handler := { c.handler with hasReceived := false }, phase := .modify .inEt }

/-- The bytes offered to `send` at a position. -/
def offered (c : Connection) (sentBufferLength : Nat) : Nat :=
  Server.sentBufferLengthThistime c.handler.receivedData.length sentBufferLength

/-- The steps of one connection. -/
inductive Step (c : Connection) : SysCall → Connection → Prop
  | add (hphase : c.phase = .accepted) :
      Step c (.epollCtl (.ok ())) { c with mask := some .inEt, phase := .idle }
  | addErr {errno} (hphase : c.phase = .accepted) :
      Step c (.epollCtl (.error errno)) { c with phase := .idle }
  | errorEvent (hphase : c.phase = .idle) : Step c .handle { c with phase := .remove none }
  | recvData {mask} (hphase : c.phase = .idle) (hmask : c.mask = some mask)
      (hin : mask.epollIn = true) :
      Step c .handle { c with handler := ⟨true, []⟩, phase := .recv }
  | sendData {mask} (hphase : c.phase = .idle) (hmask : c.mask = some mask)
      (hout : mask.epollOut = true) (hreceived : c.handler.hasReceived = true) :
      Step c .handle (c.sendLoop 0)
  | recvZero (hphase : c.phase = .recv) :
      Step c (.recv (.ok []))
        { c with chunks := c.chunks ++ [[]], phase := .remove (some MyErrorcode.kRecvZero) }
  | recvChunk {bytes} (hphase : c.phase = .recv) (hne : bytes ≠ [])
      (hlength : bytes.length ≤ Server.kOnceRecvBufferSize) :
      Step c (.recv (.ok bytes))
        { c with
          chunks := c.chunks ++ [bytes]
          handler := { c.handler with receivedData := c.handler.receivedData ++ bytes }
          phase := if bytes.length < Server.kOnceRecvBufferSize then .modify .outEt else .recv }
  | recvErr {errno} (hphase : c.phase = .recv) (hne : errno ≠ eagain) :
      Step c (.recv (.error errno)) { c with phase := .remove (some MyErrorcode.kRecvErr) }
  | sendZero {sentBufferLength} (hphase : c.phase = .send sentBufferLength) :
      Step c (.send (.ok 0)) { c with phase := .remove (some MyErrorcode.kSendZero) }
  | sendBytes {sentBufferLength ret} (hphase : c.phase = .send sentBufferLength)
      (hret : ret + 1 ≤ c.offered sentBufferLength) :
      Step c (.send (.ok (ret + 1)))
        (sendLoop
          { c with sent := c.sent ++
              (c.handler.receivedData.drop sentBufferLength).take (ret + 1) }
          ((sentBufferLength + c.offered sentBufferLength) % 2 ^ 32))
  | sendErr {sentBufferLength errno} (hphase : c.phase = .send sentBufferLength) :
      Step c (.send (.error errno)) { c with phase := .remove (some (-1)) }
  | modify {events} (hphase : c.phase = .modify events) :
      Step c (.epollCtl (.ok ())) { c with mask := some events, phase := .idle }
  | modifyErr {events errno} (hphase : c.phase = .modify events) :
      Step c (.epollCtl (.error errno)) { c with phase := .idle }
  | del {ret} (hphase : c.phase = .remove ret) :
      Step c (.epollCtl (.ok ())) { c with mask := none, phase := .close ret }
  | delErr {ret errno} (hphase : c.phase = .remove ret) :
      Step c (.epollCtl (.error errno)) { c with phase := .idle }
  | closeErr {ret errno} (hphase : c.phase = .close ret) :
      Step c (.close (.error errno)) { c with phase := .idle }

end Connection

/-- What is being done with the connection of a descriptor. -/
def Pc.phase (fd : Fd) : Pc → Phase
  | .epollCtlAdd _ clientFd _ => if clientFd = fd then .accepted else .idle
  | .recv fd' _ _ => if fd' = fd then .recv else .idle
  | .send fd' _ sentBufferLength _ => if fd' = fd then .send sentBufferLength else .idle
  | .epollCtlMod fd' events _ => if fd' = fd then .modify events else .idle
  | .epollCtlDel fd' ret _ => if fd' = fd then .remove ret else .idle
  | .close fd' ret _ => if fd' = fd then .close ret else .idle
  | .epollWait | .event _ | .accept4 _ _ | .stopped _ => .idle

/-- A descriptor in a phase is the one the program counter is about. -/
theorem Pc.eq_of_phase {fd : Fd} {pc : Pc} {phase : Phase} (h : pc.phase fd = phase) :
    match phase with
    | .accepted => ∃ listenFd rest, pc = .epollCtlAdd listenFd fd rest
    | .idle => True
    | .recv => ∃ id rest, pc = .recv fd id rest
    | .send sentBufferLength => ∃ id rest, pc = .send fd id sentBufferLength rest
    | .modify events => ∃ rest, pc = .epollCtlMod fd events rest
    | .remove ret => ∃ rest, pc = .epollCtlDel fd ret rest
    | .close ret => ∃ rest, pc = .close fd ret rest := by
  cases pc with
  | epollCtlAdd _ fd' _ | recv fd' _ _ | send fd' _ _ _ =>
    by_cases he : fd' = fd
    · obtain rfl := h.symm.trans (if_pos he)
      subst he
      exact ⟨_, _, rfl⟩
    · obtain rfl := h.symm.trans (if_neg he)
      trivial
  | epollCtlMod fd' _ _ | epollCtlDel fd' _ _ | close fd' _ _ =>
    by_cases he : fd' = fd
    · obtain rfl := h.symm.trans (if_pos he)
      subst he
      exact ⟨_, rfl⟩
    · obtain rfl := h.symm.trans (if_neg he)
      trivial
  | epollWait | event _ | accept4 _ _ | stopped _ =>
    obtain rfl := h.symm
    trivial

namespace Server

/-- The connection of number `id` on descriptor `fd`. -/
def connection (s : Server) (fd : Fd) (id : Nat) : Connection where
  phase := s.pc.phase fd
  mask := s.registered fd
  handler := s.echoHandlers id
  chunks := s.chunks id
  sent := s.sent id

variable {listenFd fd : Fd} {id : Nat} {s t : Server} {c : SysCall}

/-- Numbers not yet given away have no record. -/
def Unused (s : Server) : Prop := ∀ id, s.created ≤ id → s.chunks id = [] ∧ s.sent id = []

/-! ## The calls of `Handle` on a connection -/

theorem connection_sendLoop (s : Server) (fd : Fd) (id sentBufferLength : Nat)
    (rest : List EpollEvent) :
    (s.sendLoop fd id sentBufferLength rest).connection fd id =
      (s.connection fd id).sendLoop sentBufferLength := by
  unfold Connection.sendLoop
  rcases sendLoop_cases s fd id sentBufferLength rest with ⟨hlt, he⟩ | ⟨hlt, he⟩ | ⟨heq, he⟩
  · rw [he]
    simp [connection, hlt, Pc.phase]
  · rw [he]
    simp [connection, hlt, Nat.lt_asymm hlt, Pc.phase, removeHandler]
  · rw [he]
    simp [connection, heq, Pc.phase, setEcho]

theorem sendLoop_other (s : Server) {fd' : Fd} {id' : Nat} (hfd : fd ≠ fd') (hid : id ≠ id')
    (sentBufferLength : Nat) (rest : List EpollEvent) :
    (s.sendLoop fd' id' sentBufferLength rest).connection fd id =
      { s.connection fd id with phase := .idle } := by
  rcases sendLoop_cases s fd' id' sentBufferLength rest with ⟨-, he⟩ | ⟨-, he⟩ | ⟨-, he⟩
  all_goals rw [he]
  · simp [connection, Pc.phase, hfd.symm]
  · simp [connection, Pc.phase, hfd.symm, removeHandler]
  · simp [connection, Pc.phase, hfd.symm, setEcho, Function.update_of_ne hid]

/-! ## One step of the server -/

/-- What a step of the server is for the connection on `fd`: nothing, a step of the
connection, or its beginning. -/
inductive Moves (s : Server) (c : SysCall) (t : Server) (fd : Fd) (id : Nat) : Prop
  | stay (hopen : s.sockets fd = some (.client id))
      (heq : t.connection fd id = s.connection fd id)
  | step (hopen : s.sockets fd = some (.client id))
      (hstep : (s.connection fd id).Step c (t.connection fd id))
  | new (hclosed : s.sockets fd = none) (hid : id = s.created)
      (heq : t.connection fd id = .new)

/-- A step on the connection of `fd'`, seen from `fd`. -/
theorem Moves.of_current (hs : s.Tables listenFd) {fd' : Fd} {id' : Nat}
    (hcurrent : s.sockets fd' = some (.client id')) (hopen : s.sockets fd = some (.client id))
    (hself : (s.connection fd' id').Step c (t.connection fd' id'))
    (hother : fd ≠ fd' → id ≠ id' → t.connection fd id = s.connection fd id) :
    s.Moves c t fd id := by
  by_cases he : fd = fd'
  · subst he
    obtain rfl : id' = id := by
      rw [hcurrent] at hopen
      exact Socket.client.inj (Option.some.inj hopen)
    exact .step hopen hself
  · have hid : id ≠ id' := by
      rintro rfl
      exact he (hs.client_inj fd fd' id hopen hcurrent)
    exact .stay hopen (hother he hid)

/-- A step on the connection of `fd'` that changes only what is being done with it. -/
theorem Moves.of_pc (hs : s.Tables listenFd) {fd' : Fd} {id' : Nat} {phase : Phase}
    (hcurrent : s.sockets fd' = some (.client id')) (hopen : s.sockets fd = some (.client id))
    (ht : ∀ fd id, t.connection fd id = { s.connection fd id with phase := t.pc.phase fd })
    (hidle : ∀ fd, fd ≠ fd' → s.pc.phase fd = .idle ∧ t.pc.phase fd = .idle)
    (hphase : t.pc.phase fd' = phase)
    (hstep : (s.connection fd' id').Step c { s.connection fd' id' with phase }) :
    s.Moves c t fd id := by
  refine .of_current hs hcurrent hopen ?_ fun hne _ => ?_
  · rw [ht, hphase]
    exact hstep
  · obtain ⟨hbefore, hafter⟩ := hidle fd hne
    rw [ht, hafter, ← hbefore]
    rfl

/-- `Start` takes up an event. -/
theorem moves_handle (hs : s.Wired listenFd) (h : s.Step .handle t)
    (hopen : t.sockets fd = some (.client id)) : s.Moves .handle t fd id := by
  obtain ⟨htables, -, hpending⟩ := hs
  cases h with
  | batchDone hpc | handlerNotExist hpc hh | serverHandle hpc hh
  | nothingToSend hpc hh hout hreceived | notSupport hpc hh hin hout =>
    exact .stay hopen (by simp only [connection, hpc, Pc.phase, handled])
  | @errorEvent event rest id' hpc hh hbits =>
    have hidle : s.pc.phase event.fd = .idle := by rw [hpc]; rfl
    refine .of_pc htables (htables.echo_client _ _ hh) hopen (fun _ _ => rfl) ?_ (if_pos rfl)
      (.errorEvent hidle)
    intro fd hne
    exact ⟨by rw [hpc]; rfl, if_neg hne.symm⟩
  | @recvData event rest id' hpc hh hin =>
    obtain ⟨mask, hmask, hbits⟩ := hpending.event_registered hpc
    refine .of_current htables (htables.echo_client _ _ hh) hopen ?_ fun hne hid => ?_
    · have hidle : (s.connection event.fd id').phase = .idle := by simp [connection, hpc, Pc.phase]
      have hnew : (s.recvData event.fd id' rest).connection event.fd id' =
          { s.connection event.fd id' with handler := ⟨true, []⟩, phase := .recv } := by
        simp [connection, Server.recvData, setEcho, Pc.phase]
      exact hnew ▸ .recvData hidle hmask (hbits.1 hin)
    · simp [connection, Server.recvData, setEcho, hpc, Pc.phase, hne.symm,
        Function.update_of_ne hid]
  | @sendData event rest id' hpc hh hout hreceived =>
    obtain ⟨mask, hmask, hbits⟩ := hpending.event_registered hpc
    rw [sendLoop_sockets] at hopen
    refine .of_current htables (htables.echo_client _ _ hh) hopen ?_ fun hne hid => ?_
    · have hidle : (s.connection event.fd id').phase = .idle := by simp [connection, hpc, Pc.phase]
      rw [connection_sendLoop]
      exact .sendData hidle hmask (hbits.2 hout) hreceived
    · rw [sendLoop_other s hne hid]
      simp [connection, hpc, Pc.phase]

/-- `accept4` begins a connection. -/
theorem moves_accept4 (hs : s.Wired listenFd) (hunused : s.Unused) {result : Except Errno Accepted}
    (hk : s.Kernel (.accept4 result)) (h : s.Step (.accept4 result) t)
    (hopen : t.sockets fd = some (.client id)) : s.Moves (.accept4 result) t fd id := by
  have htables := hs.tables
  cases h with
  | acceptErr hpc => exact .stay hopen (by simp only [connection, hpc, Pc.phase, handled])
  | @accept accepted fd' rest hpc =>
    by_cases he : fd = accepted.clientFd
    · subst he
      obtain rfl : s.created = id := by simpa [afterAccept4] using hopen
      -- the number has not been in use, so there is no record of it
      obtain ⟨hchunks, hsent⟩ := hunused s.created (Nat.le_refl _)
      apply Moves.new hk rfl
      simp [connection, afterAccept4, Pc.phase, Connection.new, htables.not_registered hk, hchunks,
        hsent]
    · have hold : s.sockets fd = some (.client id) := by
        simpa [afterAccept4, Function.update_of_ne he] using hopen
      have hid : id ≠ s.created := Nat.ne_of_lt (htables.client_lt fd id hold)
      apply Moves.stay hold
      simp [connection, afterAccept4, hpc, Pc.phase, Ne.symm he, Function.update_of_ne hid]

/-- `epoll_ctl` changes a registration, or fails and changes nothing. -/
theorem moves_epollCtl (hs : s.Wired listenFd) {result : Except Errno Unit}
    (h : s.Step (.epollCtl result) t) (hopen : t.sockets fd = some (.client id)) :
    s.Moves (.epollCtl result) t fd id := by
  obtain ⟨htables, hhandling, -⟩ := hs
  cases h with
  | @addErr errno fd' clientFd rest hpc =>
    simp only [Handling, hpc] at hhandling
    obtain ⟨-, -, id', hid'⟩ := hhandling
    have haccepted : s.pc.phase clientFd = .accepted := by rw [hpc]; exact if_pos rfl
    refine .of_pc htables (htables.echo_client _ _ hid') hopen (fun _ _ => rfl) ?_ rfl
      (.addErr haccepted)
    intro fd hne
    exact ⟨by rw [hpc]; exact if_neg hne.symm, rfl⟩
  | @add fd' clientFd rest hpc =>
    simp only [Handling, hpc] at hhandling
    obtain ⟨-, -, id', hid'⟩ := hhandling
    refine .of_current htables (htables.echo_client _ _ hid') hopen ?_ fun hne _ => ?_
    · have haccepted : (s.connection clientFd id').phase = .accepted := by
        simp [connection, hpc, Pc.phase]
      have hnew : (s.afterAddHandler fd' clientFd rest (.ok ())).connection clientFd id' =
          { s.connection clientFd id' with mask := some .inEt, phase := .idle } := by
        simp [connection, afterAddHandler, handled, Pc.phase]
      exact hnew ▸ .add haccepted
    · simp [connection, afterAddHandler, handled, hpc, Pc.phase, hne.symm,
        Function.update_of_ne hne]
  | @modifyErr errno fd' events rest hpc =>
    simp only [Handling, hpc] at hhandling
    obtain ⟨⟨id', hid'⟩, -, -⟩ := hhandling
    have hmodify : s.pc.phase fd' = .modify events := by rw [hpc]; exact if_pos rfl
    refine .of_pc htables (htables.echo_client _ _ hid') hopen (fun _ _ => rfl) ?_ rfl
      (.modifyErr hmodify)
    intro fd hne
    exact ⟨by rw [hpc]; exact if_neg hne.symm, rfl⟩
  | @modify fd' events rest hpc =>
    simp only [Handling, hpc] at hhandling
    obtain ⟨⟨id', hid'⟩, -, -⟩ := hhandling
    refine .of_current htables (htables.echo_client _ _ hid') hopen ?_ fun hne _ => ?_
    · have hmodify : (s.connection fd' id').phase = .modify events := by
        simp [connection, hpc, Pc.phase]
      have hnew : (s.afterModifyHandler fd' events rest (.ok ())).connection fd' id' =
          { s.connection fd' id' with mask := some events, phase := .idle } := by
        simp [connection, afterModifyHandler, handled, Pc.phase]
      exact hnew ▸ .modify hmodify
    · simp [connection, afterModifyHandler, handled, hpc, Pc.phase, hne.symm,
        Function.update_of_ne hne]
  | @delErr errno fd' ret rest hpc =>
    simp only [Handling, hpc] at hhandling
    obtain ⟨⟨id', hid'⟩, -⟩ := hhandling
    have hremove : s.pc.phase fd' = .remove ret := by rw [hpc]; exact if_pos rfl
    refine .of_pc htables (htables.echo_client _ _ hid') hopen (fun _ _ => rfl) ?_ rfl
      (.delErr hremove)
    intro fd hne
    exact ⟨by rw [hpc]; exact if_neg hne.symm, rfl⟩
  | @del fd' ret rest hpc =>
    simp only [Handling, hpc] at hhandling
    obtain ⟨⟨id', hid'⟩, -⟩ := hhandling
    refine .of_current htables (htables.echo_client _ _ hid') hopen ?_ fun hne _ => ?_
    · have hremove : (s.connection fd' id').phase = .remove ret := by
        simp [connection, hpc, Pc.phase]
      have hnew : (s.afterEpollCtlDel fd' ret rest (.ok ())).connection fd' id' =
          { s.connection fd' id' with mask := none, phase := .close ret } := by
        simp [connection, afterEpollCtlDel, Pc.phase]
      exact hnew ▸ .del hremove
    · simp [connection, afterEpollCtlDel, hpc, Pc.phase, hne.symm, Function.update_of_ne hne]

theorem moves_recv (hs : s.Wired listenFd) {result : Except Errno (List UInt8)}
    (hk : s.Kernel (.recv result)) (h : s.Step (.recv result) t)
    (hopen : t.sockets fd = some (.client id)) : s.Moves (.recv result) t fd id := by
  obtain ⟨htables, hhandling, -⟩ := hs
  cases h with
  | recvAgain hpc => exact .stay hopen rfl
  | @recvZero fd' id' rest hpc =>
    simp only [Handling, hpc] at hhandling
    have hclient := htables.echo_client _ _ hhandling.1
    rw [recordRecv_client hclient] at hopen ⊢
    refine .of_current htables hclient hopen ?_ fun hne hid => ?_
    · have hrecv : (s.connection fd' id').phase = .recv := by simp [connection, hpc, Pc.phase]
      refine cast (congrArg _ ?_) (Connection.Step.recvZero hrecv)
      simp [connection, removeHandler, Pc.phase]
    · simp [connection, removeHandler, hpc, Pc.phase, hne.symm, Function.update_of_ne hid]
  | @recvChunk bytes fd' id' rest hpc hnil =>
    simp only [Handling, hpc] at hhandling
    have hclient := htables.echo_client _ _ hhandling.1
    have hrecv : (s.connection fd' id').phase = .recv := by simp [connection, hpc, Pc.phase]
    have hstep := Connection.Step.recvChunk hrecv hnil hk
    rcases afterRecv_chunk s fd' id' rest hnil with ⟨hshort, he⟩ | ⟨hfull, he⟩
    · rw [he, recordRecv_client hclient] at hopen ⊢
      refine .of_current htables hclient hopen ?_ fun hne hid => ?_
      · refine cast (congrArg _ ?_) hstep
        simp [connection, setEcho, Pc.phase, hshort]
      · simp [connection, setEcho, hpc, Pc.phase, hne.symm, Function.update_of_ne hid]
    · rw [he, recordRecv_client hclient] at hopen ⊢
      refine .of_current htables hclient hopen ?_ fun hne hid => ?_
      · refine cast (congrArg _ ?_) hstep
        simp [connection, setEcho, Pc.phase, hfull]
      · simp [connection, setEcho, hpc, Pc.phase, hne.symm, Function.update_of_ne hid]
  | @recvErr errno fd' id' rest hpc hnot =>
    simp only [Handling, hpc] at hhandling
    have hrecv : s.pc.phase fd' = .recv := by rw [hpc]; exact if_pos rfl
    refine .of_pc htables (htables.echo_client _ _ hhandling.1) hopen (fun _ _ => rfl) ?_
      (if_pos rfl) (.recvErr hrecv hnot)
    intro fd hne
    exact ⟨by rw [hpc]; exact if_neg hne.symm, if_neg hne.symm⟩

theorem moves_send (hs : s.Wired listenFd) {result : Except Errno Nat}
    (hk : s.Kernel (.send result)) (h : s.Step (.send result) t)
    (hopen : t.sockets fd = some (.client id)) : s.Moves (.send result) t fd id := by
  obtain ⟨htables, hhandling, -⟩ := hs
  cases h with
  | @sendZero fd' id' sentBufferLength rest hpc =>
    simp only [Handling, hpc] at hhandling
    have hsend : s.pc.phase fd' = .send sentBufferLength := by rw [hpc]; exact if_pos rfl
    refine .of_pc htables (htables.echo_client _ _ hhandling.1) hopen (fun _ _ => rfl) ?_
      (if_pos rfl) (.sendZero hsend)
    intro fd hne
    exact ⟨by rw [hpc]; exact if_neg hne.symm, if_neg hne.symm⟩
  | @sendBytes ret fd' id' sentBufferLength rest hpc =>
    simp only [Handling, hpc] at hhandling
    have hclient := htables.echo_client _ _ hhandling.1
    have hsend : (s.connection fd' id').phase = .send sentBufferLength := by
      simp [connection, hpc, Pc.phase]
    have hret : ret + 1 ≤ (s.connection fd' id').offered sentBufferLength := by
      simp only [Kernel, offered, hpc] at hk
      exact hk
    have hstep := Connection.Step.sendBytes hsend hret
    simp only [afterSend, recordSent_client hclient] at hopen ⊢
    rw [sendLoop_sockets] at hopen
    refine .of_current htables hclient hopen ?_ fun hne hid => ?_
    · rw [connection_sendLoop]
      refine cast (congrArg _ ?_) hstep
      simp [connection, hpc, Pc.phase, Connection.offered]
    · rw [sendLoop_other _ hne hid]
      simp [connection, hpc, Pc.phase, hne.symm, Function.update_of_ne hid]
  | @sendErr errno fd' id' sentBufferLength rest hpc =>
    simp only [Handling, hpc] at hhandling
    have hsend : s.pc.phase fd' = .send sentBufferLength := by rw [hpc]; exact if_pos rfl
    refine .of_pc htables (htables.echo_client _ _ hhandling.1) hopen (fun _ _ => rfl) ?_
      (if_pos rfl) (.sendErr hsend)
    intro fd hne
    exact ⟨by rw [hpc]; exact if_neg hne.symm, if_neg hne.symm⟩

theorem moves_close (hs : s.Wired listenFd) {result : Except Errno Unit}
    (h : s.Step (.close result) t) (hopen : t.sockets fd = some (.client id)) :
    s.Moves (.close result) t fd id := by
  obtain ⟨htables, hhandling, -⟩ := hs
  cases h with
  | @closeErr errno fd' ret rest hpc =>
    simp only [Handling, hpc] at hhandling
    obtain ⟨⟨id', hid'⟩, -⟩ := hhandling
    have hclose : s.pc.phase fd' = .close ret := by rw [hpc]; exact if_pos rfl
    refine .of_pc htables (htables.echo_client _ _ hid') hopen (fun _ _ => rfl) ?_ rfl
      (.closeErr hclose)
    intro fd hne
    exact ⟨by rw [hpc]; exact if_neg hne.symm, rfl⟩
  | @close fd' ret rest hpc =>
    -- the connection that is closed is not among the open ones any more
    have he : fd ≠ fd' := by
      rintro rfl
      simp [afterClose, handled] at hopen
    have hold : s.sockets fd = some (.client id) := by
      simpa [afterClose, handled, Function.update_of_ne he] using hopen
    apply Moves.stay hold
    simp [connection, afterClose, handled, hpc, Pc.phase, Ne.symm he, Function.update_of_ne he]

/-- **Every step of the server is a step of at most one connection.** -/
theorem step_connection (hs : s.Wired listenFd) (hunused : s.Unused) (hk : s.Kernel c)
    (h : s.Step c t) (hopen : t.sockets fd = some (.client id)) : s.Moves c t fd id := by
  cases c with
  | epollWait result =>
    cases h with
    | epollWaitErr hpc | epollWait hpc =>
      exact .stay hopen (by simp only [connection, hpc, Pc.phase])
  | handle => exact moves_handle hs h hopen
  | accept4 result => exact moves_accept4 hs hunused hk h hopen
  | epollCtl result => exact moves_epollCtl hs h hopen
  | recv result => exact moves_recv hs hk h hopen
  | send result => exact moves_send hs hk h hopen
  | close result => exact moves_close hs h hopen
  | library errno =>
    cases h with
    | library => exact .stay hopen rfl

/-! ## Invariants of connections -/

/-- A step writes only to the records of an open connection, which stays open. -/
theorem record_step (hs : s.Wired listenFd) (h : s.Step c t) :
    s.created ≤ t.created ∧ ∀ id, (t.chunks id = s.chunks id ∧ t.sent id = s.sent id) ∨
      ∃ fd, s.sockets fd = some (.client id) ∧ t.sockets fd = some (.client id) := by
  obtain ⟨htables, hhandling, -⟩ := hs
  cases h with
  | accept hpc => exact ⟨Nat.le_succ _, fun _ => Or.inl ⟨rfl, rfl⟩⟩
  | @sendData event rest id' hpc hh hout hreceived =>
    obtain ⟨pc, handler, -, -, he⟩ := sendLoop_eq s event.fd id' 0 rest
    rw [he]
    exact ⟨Nat.le_refl _, fun _ => Or.inl ⟨rfl, rfl⟩⟩
  | @recvZero fd id' rest hpc =>
    simp only [Handling, hpc] at hhandling
    have hclient := htables.echo_client _ _ hhandling.1
    rw [recordRecv_client hclient]
    refine ⟨Nat.le_refl _, fun id => ?_⟩
    by_cases he : id = id'
    · exact Or.inr ⟨fd, he ▸ hclient, he ▸ hclient⟩
    · exact Or.inl ⟨Function.update_of_ne he .., rfl⟩
  | @recvChunk bytes fd id' rest hpc hne =>
    simp only [Handling, hpc] at hhandling
    have hclient := htables.echo_client _ _ hhandling.1
    obtain ⟨pc, handler, -, -, heq⟩ := afterRecv_eq s fd id' rest hne
    rw [heq, recordRecv_client hclient]
    refine ⟨Nat.le_refl _, fun id => ?_⟩
    by_cases he : id = id'
    · exact Or.inr ⟨fd, he ▸ hclient, he ▸ hclient⟩
    · exact Or.inl ⟨Function.update_of_ne he .., rfl⟩
  | @sendBytes ret fd id' sentBufferLength rest hpc =>
    simp only [Handling, hpc] at hhandling
    have hclient := htables.echo_client _ _ hhandling.1
    simp only [afterSend, recordSent_client hclient]
    obtain ⟨pc, handler, -, -, heq⟩ :=
      sendLoop_eq { s with sent := Function.update s.sent id' _ } fd id' _ rest
    rw [heq]
    refine ⟨Nat.le_refl _, fun id => ?_⟩
    by_cases he : id = id'
    · exact Or.inr ⟨fd, he ▸ hclient, he ▸ hclient⟩
    · exact Or.inl ⟨rfl, Function.update_of_ne he ..⟩
  | _ => exact ⟨Nat.le_refl _, fun _ => Or.inl ⟨rfl, rfl⟩⟩

theorem unused_step (hs : s.Wired listenFd) (hunused : s.Unused) (h : s.Step c t) : t.Unused := by
  obtain ⟨hcreated, hrecord⟩ := record_step hs h
  intro id hid
  have hle : s.created ≤ id := hcreated.trans hid
  rcases hrecord id with ⟨hchunks, hsent⟩ | ⟨fd, hopen, -⟩
  · rw [hchunks, hsent]
    exact hunused id hle
  · exact absurd (hs.tables.client_lt fd id hopen) (Nat.not_lt.mpr hle)

section
variable {allows : Server → SysCall → Prop} {P : Connection → Prop}

/-- **Invariants of connections hold in every run of the server.**  `P` holds of
every open connection if it holds of a new one and every step of a connection,
under what the runs allow, keeps it. -/
theorem connection_invariant (hnew : P .new)
    (hstep : ∀ {s : Server} {c : SysCall} {fd : Fd} {id : Nat} {b : Connection},
      s.Wired listenFd → s.sockets fd = some (.client id) → allows s c →
      P (s.connection fd id) → (s.connection fd id).Step c b → P b)
    (h : ((runs listenFd).restrict allows).Reachable s) :
    s.Wired listenFd ∧ s.Unused ∧
      ∀ fd id, s.sockets fd = some (.client id) → P (s.connection fd id) := by
  -- `step_connection` needs the first two, so the induction carries them along
  refine h.invariant (I := fun s => s.Wired listenFd ∧ s.Unused ∧
    ∀ fd id, s.sockets fd = some (.client id) → P (s.connection fd id)) ?_ ?_
  · rintro s ⟨errno, rfl⟩
    refine ⟨wired_initial listenFd errno, fun _ _ => ⟨rfl, rfl⟩, fun fd id hopen => ?_⟩
    have hfd := (wired_initial listenFd errno).tables.client_lt fd id hopen
    exact absurd hfd (Nat.not_lt_zero _)
  · rintro s c t ⟨hs, hunused, hP⟩ ⟨hallows, hk, hnext⟩
    have hstep' := step_of_next hnext
    refine ⟨hs.step hk hstep', unused_step hs hunused hstep', fun fd id hopen => ?_⟩
    rcases step_connection hs hunused hk hstep' hopen with ⟨hold, heq⟩ | ⟨hold, hmove⟩ | ⟨-, -, heq⟩
    · rw [heq]
      exact hP fd id hold
    · exact hstep hs hold hallows (hP fd id hold) hmove
    · rw [heq]
      exact hnew

/-- What such an invariant says of a connection's record holds for ever, also after
the connection is closed. -/
theorem record_invariant {R : List (List UInt8) → List UInt8 → Prop} (hempty : R [] [])
    (hrecord : ∀ c, P c → R c.chunks c.sent)
    (hP : ∀ {s : Server}, ((runs listenFd).restrict allows).Reachable s →
      ∀ fd id, s.sockets fd = some (.client id) → P (s.connection fd id))
    (h : ((runs listenFd).restrict allows).Reachable s) (id : Nat) :
    R (s.chunks id) (s.sent id) := by
  suffices hall : ((runs listenFd).restrict allows).Reachable s ∧
      ∀ id, R (s.chunks id) (s.sent id) from hall.2 id
  refine h.invariant (I := fun s => ((runs listenFd).restrict allows).Reachable s ∧
    ∀ id, R (s.chunks id) (s.sent id)) ?_ ?_
  · rintro s ⟨errno, rfl⟩
    exact ⟨.initial ⟨errno, rfl⟩, fun _ => hempty⟩
  · rintro s c t ⟨hs, hR⟩ hstep
    have ht := hs.step hstep
    refine ⟨ht, fun id => ?_⟩
    have hw : s.Wired listenFd := wired hs.of_restrict
    rcases (record_step hw (step_of_next hstep.2.2)).2 id with ⟨hchunks, hsent⟩ | ⟨fd, -, hopen⟩
    · rw [hchunks, hsent]
      exact hR id
    · exact hrecord _ (hP ht fd id hopen)

end

end Server
end MySvrKit
