import MySvrKit.EventLoopSteps

/-! # Handling an event by its socket

The server with the sockets behind its descriptors, where what a call returns depends
on its own socket alone.  The handling of one event is then determined up to the
`errno` it begins with: it changes nothing of other connections (`Frame`), and does the
same from any two states with the same connection (`Agree`). -/

universe u

namespace MySvrKit

/-- What the calls on a socket return, and the socket after them.  The `errno` of a
failing call is not 0. -/
structure SocketCalls (Sock : Type u) where
  recv : Sock → Except Errno (List UInt8) × Sock
  send : List UInt8 → Sock → Except Errno Nat × Sock
  epollCtlMod : EpollEvents → Sock → Except Errno Unit × Sock
  epollCtlDel : Sock → Except Errno Unit × Sock
  close : Sock → Except Errno Unit × Sock
  recv_errno : ∀ sock errno, (recv sock).1 = .error errno → errno ≠ 0
  send_errno : ∀ bytes sock errno, (send bytes sock).1 = .error errno → errno ≠ 0
  epollCtlMod_errno : ∀ events sock errno, (epollCtlMod events sock).1 = .error errno → errno ≠ 0
  epollCtlDel_errno : ∀ sock errno, (epollCtlDel sock).1 = .error errno → errno ≠ 0
  close_errno : ∀ sock errno, (close sock).1 = .error errno → errno ≠ 0

/-- The `errno` a failing call sets. -/
def SysCall.failure : SysCall → Option Errno
  | .epollWait (.error errno) | .accept4 (.error errno) | .epollCtl (.error errno)
  | .recv (.error errno) | .send (.error errno) | .close (.error errno) => some errno
  | .epollWait (.ok _) | .accept4 (.ok _) | .epollCtl (.ok _) | .recv (.ok _) | .send (.ok _)
  | .close (.ok _) | .handle | .library _ => none

namespace SysCall
variable {errno : Errno}

theorem failure_recv {result : Except Errno (List UInt8)} :
    (SysCall.recv result).failure = some errno ↔ result = .error errno := by
  cases result <;> simp [failure]

theorem failure_send {result : Except Errno Nat} :
    (SysCall.send result).failure = some errno ↔ result = .error errno := by
  cases result <;> simp [failure]

theorem failure_epollCtl {result : Except Errno Unit} :
    (SysCall.epollCtl result).failure = some errno ↔ result = .error errno := by
  cases result <;> simp [failure]

theorem failure_close {result : Except Errno Unit} :
    (SysCall.close result).failure = some errno ↔ result = .error errno := by
  cases result <;> simp [failure]

end SysCall

/-- The server, and the sockets by their descriptors. -/
structure Config (Sock : Type u) where
  server : Server
  socks : Fd → Sock

namespace Config
variable {Sock : Type u} (calls : SocketCalls Sock)

/-- The call on a connection the server stops at, with its result, the descriptor, and
the socket after it. -/
def pending (c : Config Sock) : Option (SysCall × Fd × Sock) :=
  match c.server.pc with
  | .recv fd _ _ =>
      let answer := calls.recv (c.socks fd)
      some (.recv answer.1, fd, answer.2)
  | .send fd id sentBufferLength _ =>
      let data := (c.server.echoHandlers id).receivedData
      let answer := calls.send
        ((data.drop sentBufferLength).take
          (Server.sentBufferLengthThistime data.length sentBufferLength))
        (c.socks fd)
      some (.send answer.1, fd, answer.2)
  | .epollCtlMod fd events _ =>
      let answer := calls.epollCtlMod events (c.socks fd)
      some (.epollCtl answer.1, fd, answer.2)
  | .epollCtlDel fd _ _ =>
      let answer := calls.epollCtlDel (c.socks fd)
      some (.epollCtl answer.1, fd, answer.2)
  | .close fd _ _ =>
      let answer := calls.close (c.socks fd)
      some (.close answer.1, fd, answer.2)
  | .epollWait | .event _ | .accept4 _ _ | .epollCtlAdd _ _ _ | .stopped _ => none

/-- One step: the server takes the result of the call. -/
def drive (c : Config Sock) : Option (SysCall × Config Sock) :=
  (c.pending calls).bind fun (call, fd, sock) =>
    (c.server.next call).map fun t => (call, ⟨t, Function.update c.socks fd sock⟩)

/-- From `c`, the calls lead back to the head of the loop over the events. -/
inductive Runs : Config Sock → List SysCall → Config Sock → Prop
  | returned {c} (hpc : c.server.pc = .event []) : Runs c [] c
  | call {c d c' call rest} (hd : c.drive calls = some (call, d)) (hr : Runs d rest c') :
      Runs c (call :: rest) c'

/-- `Start` takes up the event, makes these calls, and comes back for the next. -/
def Handles (event : EpollEvent) (c : Config Sock) (made : List SysCall) (c' : Config Sock) :
    Prop :=
  ∃ s, Server.next { c.server with pc := .event [event] } .handle = some s ∧
    Runs calls ⟨s, c.socks⟩ made c'

end Config

/-! ## One connection -/

/-- The handling of an event of `fd`, the only one left, or its end. -/
def Pc.At (fd : Fd) (id : Nat) : Pc → Prop
  | .recv fd' id' rest | .send fd' id' _ rest => fd' = fd ∧ id' = id ∧ rest = []
  | .epollCtlMod fd' _ rest | .epollCtlDel fd' _ rest | .close fd' _ rest => fd' = fd ∧ rest = []
  | .event rest => rest = []
  | .epollWait | .accept4 _ _ | .epollCtlAdd _ _ _ | .stopped _ => False

namespace Server
variable {fd : Fd} {id : Nat} {rest : List EpollEvent} {s t u : Server}

/-- The server handles the connection `id`, open on `fd`, or has just done so. -/
structure Owns (fd : Fd) (id : Nat) (s : Server) : Prop where
  pc_at : s.pc.At fd id
  socket : s.pc ≠ .event [] → s.sockets fd = some (.client id)

/-- Nothing but the descriptor and its connection has changed, and there the handler is
at most dropped and the bytes recorded are at most more. -/
structure Frame (fd : Fd) (id : Nat) (s t : Server) : Prop where
  handler : t.handlers fd = s.handlers fd ∨ t.handlers fd = none
  received_prefix : s.chunks id <+: t.chunks id
  sent_prefix : s.sent id <+: t.sent id
  handlers : ∀ fd', fd' ≠ fd → t.handlers fd' = s.handlers fd'
  registered : ∀ fd', fd' ≠ fd → t.registered fd' = s.registered fd'
  sockets : ∀ fd', fd' ≠ fd → t.sockets fd' = s.sockets fd'
  echoHandlers : ∀ id', id' ≠ id → t.echoHandlers id' = s.echoHandlers id'
  chunks : ∀ id', id' ≠ id → t.chunks id' = s.chunks id'
  sent : ∀ id', id' ≠ id → t.sent id' = s.sent id'

/-- The descriptor and its connection are the same in both. -/
structure Agree (fd : Fd) (id : Nat) (s t : Server) : Prop where
  handler : s.handlers fd = t.handlers fd
  registered : s.registered fd = t.registered fd
  socket : s.sockets fd = t.sockets fd
  echo : s.echoHandlers id = t.echoHandlers id
  chunks : s.chunks id = t.chunks id
  sent : s.sent id = t.sent id

theorem Agree.symm (h : Agree fd id s t) : Agree fd id t s :=
  ⟨h.handler.symm, h.registered.symm, h.socket.symm, h.echo.symm, h.chunks.symm, h.sent.symm⟩

/-! ### What does not change -/

theorem Frame.refl (s : Server) : Frame fd id s s :=
  ⟨Or.inl rfl, List.prefix_rfl, List.prefix_rfl, fun _ _ => rfl, fun _ _ => rfl, fun _ _ => rfl,
    fun _ _ => rfl, fun _ _ => rfl, fun _ _ => rfl⟩

theorem Frame.trans (h₁ : Frame fd id s t) (h₂ : Frame fd id t u) : Frame fd id s u where
  handler := by
    rcases h₂.handler with h | h
    · rw [h]
      exact h₁.handler
    · exact Or.inr h
  received_prefix := h₁.received_prefix.trans h₂.received_prefix
  sent_prefix := h₁.sent_prefix.trans h₂.sent_prefix
  handlers fd' hne := (h₂.handlers fd' hne).trans (h₁.handlers fd' hne)
  registered fd' hne := (h₂.registered fd' hne).trans (h₁.registered fd' hne)
  sockets fd' hne := (h₂.sockets fd' hne).trans (h₁.sockets fd' hne)
  echoHandlers id' hne := (h₂.echoHandlers id' hne).trans (h₁.echoHandlers id' hne)
  chunks id' hne := (h₂.chunks id' hne).trans (h₁.chunks id' hne)
  sent id' hne := (h₂.sent id' hne).trans (h₁.sent id' hne)

/-- What is framed out is another connection, the same in both. -/
theorem Frame.agree (h : Frame fd id s t) {fd' : Fd} {id' : Nat} (hfd : fd' ≠ fd)
    (hid : id' ≠ id) : Agree fd' id' s t :=
  ⟨(h.handlers fd' hfd).symm, (h.registered fd' hfd).symm, (h.sockets fd' hfd).symm,
    (h.echoHandlers id' hid).symm, (h.chunks id' hid).symm, (h.sent id' hid).symm⟩

theorem frame_handled (s : Server) (ret : Int) (rest : List EpollEvent) :
    Frame fd id s (s.handled fd ret rest) := by
  refine ⟨?_, List.prefix_rfl, List.prefix_rfl, fun fd' hne => ?_, fun _ _ => rfl, fun _ _ => rfl,
    fun _ _ => rfl, fun _ _ => rfl, fun _ _ => rfl⟩
  · simp only [handled]
    split
    · exact Or.inr (Function.update_self ..)
    · exact Or.inl rfl
  · simp only [handled]
    split
    · exact Function.update_of_ne hne ..
    · rfl

theorem frame_setEcho (s : Server) (handler : EchoHandler) :
    Frame fd id s (s.setEcho id handler) :=
  ⟨Or.inl rfl, List.prefix_rfl, List.prefix_rfl, fun _ _ => rfl, fun _ _ => rfl, fun _ _ => rfl,
    fun _ hne => Function.update_of_ne hne .., fun _ _ => rfl, fun _ _ => rfl⟩

theorem frame_recordRecv (hs : s.sockets fd = some (.client id)) (bytes : List UInt8) :
    Frame fd id s (s.recordRecv fd bytes) := by
  rw [recordRecv_client hs]
  refine ⟨Or.inl rfl, ?_, List.prefix_rfl, fun _ _ => rfl, fun _ _ => rfl, fun _ _ => rfl,
    fun _ _ => rfl, fun id' hne => Function.update_of_ne hne .., fun _ _ => rfl⟩
  simp only [Function.update_self]
  exact List.prefix_append ..

theorem frame_recordSent (hs : s.sockets fd = some (.client id)) (bytes : List UInt8) :
    Frame fd id s (s.recordSent fd bytes) := by
  rw [recordSent_client hs]
  refine ⟨Or.inl rfl, List.prefix_rfl, ?_, fun _ _ => rfl, fun _ _ => rfl, fun _ _ => rfl,
    fun _ _ => rfl, fun _ _ => rfl, fun id' hne => Function.update_of_ne hne ..⟩
  simp only [Function.update_self]
  exact List.prefix_append ..

theorem frame_register (s : Server) (mask : Option EpollEvents) :
    Frame fd id s { s with registered := Function.update s.registered fd mask } :=
  ⟨Or.inl rfl, List.prefix_rfl, List.prefix_rfl, fun _ _ => rfl,
    fun _ hne => Function.update_of_ne hne .., fun _ _ => rfl, fun _ _ => rfl, fun _ _ => rfl,
    fun _ _ => rfl⟩

/-- Where the server stops and its `errno` belong to no connection. -/
theorem Frame.moved (h : Frame fd id s t) (pc : Pc) (errno : Errno) :
    Frame fd id s { t with pc, errno } :=
  ⟨h.handler, h.received_prefix, h.sent_prefix, h.handlers, h.registered, h.sockets,
    h.echoHandlers, h.chunks, h.sent⟩

theorem frame_sendLoop (s : Server) (sentBufferLength : Nat) (rest : List EpollEvent) :
    Frame fd id s (s.sendLoop fd id sentBufferLength rest) := by
  obtain ⟨pc, handler, -, -, he⟩ := sendLoop_eq s fd id sentBufferLength rest
  rw [he]
  exact (frame_setEcho s handler).moved ..

theorem frame_afterRecv (hs : s.sockets fd = some (.client id)) (rest : List EpollEvent)
    (result : Except Errno (List UInt8)) : Frame fd id s (s.afterRecv fd id rest result) := by
  rcases result with errno | bytes
  · by_cases he : errno = eagain
    · simp only [afterRecv, if_pos he]
      exact (Frame.refl s).moved ..
    · simp only [afterRecv, if_neg he]
      exact (Frame.refl s).moved ..
  · by_cases hne : bytes = []
    · subst hne
      exact (frame_recordRecv hs []).moved ..
    · obtain ⟨pc, handler, -, -, he⟩ := afterRecv_eq s fd id rest hne
      rw [he]
      exact ((frame_recordRecv hs bytes).trans (frame_setEcho _ handler)).moved ..

theorem frame_afterSend (hs : s.sockets fd = some (.client id)) (sentBufferLength : Nat)
    (rest : List EpollEvent) (result : Except Errno Nat) :
    Frame fd id s (s.afterSend fd id sentBufferLength rest result) := by
  rcases result with errno | _ | ret
  · exact (Frame.refl s).moved ..
  · exact (Frame.refl s).moved ..
  · exact (frame_recordSent hs _).trans (frame_sendLoop ..)

theorem frame_afterModifyHandler (s : Server) (events : EpollEvents) (rest : List EpollEvent)
    (result : Except Errno Unit) : Frame fd id s (s.afterModifyHandler fd events rest result) := by
  cases result with
  | error errno => exact ((Frame.refl s).moved s.pc errno).trans (frame_handled ..)
  | ok u => exact (frame_register s _).trans (frame_handled ..)

theorem frame_afterEpollCtlDel (s : Server) (ret : Option Int) (rest : List EpollEvent)
    (result : Except Errno Unit) : Frame fd id s (s.afterEpollCtlDel fd ret rest result) := by
  cases result with
  | error errno => exact ((Frame.refl s).moved s.pc errno).trans (frame_handled ..)
  | ok u => exact (frame_register s none).moved ..

theorem frame_afterClose (s : Server) (ret : Option Int) (rest : List EpollEvent)
    (result : Except Errno Unit) : Frame fd id s (s.afterClose fd ret rest result) := by
  cases result with
  | error errno => exact ((Frame.refl s).moved s.pc errno).trans (frame_handled ..)
  | ok u =>
    refine Frame.trans ?_ (frame_handled ..)
    exact ⟨Or.inr (Function.update_self ..), List.prefix_rfl, List.prefix_rfl,
      fun _ hne => Function.update_of_ne hne .., fun _ hne => Function.update_of_ne hne ..,
      fun _ hne => Function.update_of_ne hne .., fun _ _ => rfl, fun _ _ => rfl, fun _ _ => rfl⟩

/-! ### What depends on the connection only -/

/-- The same connection, with the server at the same call. -/
structure AgreeAtCall (fd : Fd) (id : Nat) (s t : Server) : Prop extends Agree fd id s t where
  pc : s.pc = t.pc

theorem Agree.moved (h : Agree fd id s t) (pc : Pc) (errno errno' : Errno) :
    AgreeAtCall fd id { s with pc, errno } { t with pc, errno := errno' } :=
  ⟨⟨h.handler, h.registered, h.socket, h.echo, h.chunks, h.sent⟩, rfl⟩

theorem Agree.handled (h : Agree fd id s t) (ret : Int) (rest : List EpollEvent) :
    AgreeAtCall fd id (s.handled fd ret rest) (t.handled fd ret rest) := by
  refine ⟨⟨?_, h.registered, h.socket, h.echo, h.chunks, h.sent⟩, rfl⟩
  simp only [Server.handled]
  split
  · simp only [Function.update_self]
  · exact h.handler

theorem Agree.setEcho (h : Agree fd id s t) (handler : EchoHandler) :
    Agree fd id (s.setEcho id handler) (t.setEcho id handler) :=
  ⟨h.handler, h.registered, h.socket, by simp only [Server.setEcho, Function.update_self],
    h.chunks, h.sent⟩

theorem Agree.recordRecv (h : Agree fd id s t) (hs : s.sockets fd = some (.client id))
    (bytes : List UInt8) : Agree fd id (s.recordRecv fd bytes) (t.recordRecv fd bytes) := by
  rw [recordRecv_client hs, recordRecv_client (h.socket ▸ hs)]
  exact ⟨h.handler, h.registered, h.socket, h.echo, by simp only [Function.update_self, h.chunks],
    h.sent⟩

theorem Agree.recordSent (h : Agree fd id s t) (hs : s.sockets fd = some (.client id))
    (bytes : List UInt8) : Agree fd id (s.recordSent fd bytes) (t.recordSent fd bytes) := by
  rw [recordSent_client hs, recordSent_client (h.socket ▸ hs)]
  exact ⟨h.handler, h.registered, h.socket, h.echo, h.chunks,
    by simp only [Function.update_self, h.sent]⟩

theorem Agree.register (h : Agree fd id s t) (mask : Option EpollEvents) :
    Agree fd id { s with registered := Function.update s.registered fd mask }
      { t with registered := Function.update t.registered fd mask } :=
  ⟨h.handler, by simp only [Function.update_self], h.socket, h.echo, h.chunks, h.sent⟩

theorem Agree.sendLoop (h : Agree fd id s t) (sentBufferLength : Nat)
    (rest : List EpollEvent) :
    AgreeAtCall fd id (s.sendLoop fd id sentBufferLength rest)
      (t.sendLoop fd id sentBufferLength rest) := by
  simp only [Server.sendLoop, h.echo]
  split
  · exact h.moved ..
  · split
    · exact h.moved ..
    · exact (h.setEcho _).moved ..

theorem Agree.afterRecv (h : Agree fd id s t) (hpc : s.pc = t.pc)
    (hs : s.sockets fd = some (.client id)) (rest : List EpollEvent)
    (result : Except Errno (List UInt8)) :
    AgreeAtCall fd id (s.afterRecv fd id rest result) (t.afterRecv fd id rest result) := by
  rcases result with errno | _ | ⟨b, bs⟩
  · simp only [Server.afterRecv]
    split
    · exact ⟨⟨h.handler, h.registered, h.socket, h.echo, h.chunks, h.sent⟩, hpc⟩
    · exact h.moved ..
  · exact (h.recordRecv hs []).moved ..
  · simp only [Server.afterRecv, h.echo]
    split
    · exact ((h.recordRecv hs _).setEcho _).moved ..
    · exact ((h.recordRecv hs _).setEcho _).moved ..

theorem Agree.afterSend (h : Agree fd id s t) (hs : s.sockets fd = some (.client id))
    (sentBufferLength : Nat) (rest : List EpollEvent) (result : Except Errno Nat) :
    AgreeAtCall fd id (s.afterSend fd id sentBufferLength rest result)
      (t.afterSend fd id sentBufferLength rest result) := by
  rcases result with errno | _ | ret
  · exact h.moved ..
  · exact h.moved ..
  · simp only [Server.afterSend, h.echo]
    exact (h.recordSent hs _).sendLoop ..

theorem Agree.afterModifyHandler (h : Agree fd id s t) (events : EpollEvents)
    (rest : List EpollEvent) (result : Except Errno Unit) :
    AgreeAtCall fd id (s.afterModifyHandler fd events rest result)
      (t.afterModifyHandler fd events rest result) := by
  cases result with
  | error errno => exact (h.moved s.pc errno errno).toAgree.handled ..
  | ok u => exact (h.register _).handled ..

theorem Agree.afterEpollCtlDel (h : Agree fd id s t) (ret : Option Int)
    (rest : List EpollEvent) (result : Except Errno Unit) :
    AgreeAtCall fd id (s.afterEpollCtlDel fd ret rest result)
      (t.afterEpollCtlDel fd ret rest result) := by
  cases result with
  | error errno => exact (h.moved s.pc errno errno).toAgree.handled ..
  | ok u => exact (h.register none).moved ..

theorem Agree.afterClose (h : Agree fd id s t) (ret : Option Int) (rest : List EpollEvent)
    (result : Except Errno Unit) :
    AgreeAtCall fd id (s.afterClose fd ret rest result) (t.afterClose fd ret rest result) := by
  cases result with
  | error errno => exact (h.moved s.pc errno errno).toAgree.handled ..
  | ok u =>
    refine Agree.handled ?_ ..
    exact ⟨by simp only [Function.update_self], by simp only [Function.update_self],
      by simp only [Function.update_self], h.echo, h.chunks, h.sent⟩

/-! ### Where the handling goes -/

theorem owns_sendLoop (hs : s.sockets fd = some (.client id)) (sentBufferLength : Nat) :
    Owns fd id (s.sendLoop fd id sentBufferLength []) := by
  refine ⟨?_, fun _ => (congrFun (sendLoop_sockets s fd id sentBufferLength []) fd).trans hs⟩
  rcases sendLoop_cases s fd id sentBufferLength [] with ⟨-, he⟩ | ⟨-, he⟩ | ⟨-, he⟩ <;> rw [he]
  · exact ⟨rfl, rfl, rfl⟩
  · exact ⟨rfl, rfl⟩
  · exact ⟨rfl, rfl⟩

theorem owns_handled (s : Server) (ret : Int) : Owns fd id (s.handled fd ret []) :=
  ⟨rfl, fun h => absurd rfl h⟩

theorem owns_afterRecv (hs : s.sockets fd = some (.client id)) (hpc : s.pc = .recv fd id [])
    (result : Except Errno (List UInt8)) : Owns fd id (s.afterRecv fd id [] result) := by
  rcases result with errno | bytes
  · by_cases he : errno = eagain
    · simp only [afterRecv, if_pos he]
      exact ⟨by rw [hpc]; exact ⟨rfl, rfl, rfl⟩, fun _ => hs⟩
    · simp only [afterRecv, if_neg he]
      exact ⟨⟨rfl, rfl⟩, fun _ => hs⟩
  · by_cases hne : bytes = []
    · subst hne
      exact ⟨⟨rfl, rfl⟩, fun _ => hs⟩
    · rcases afterRecv_chunk s fd id [] hne with ⟨-, he⟩ | ⟨-, he⟩ <;> rw [he]
      · exact ⟨⟨rfl, rfl⟩, fun _ => hs⟩
      · exact ⟨⟨rfl, rfl, rfl⟩, fun _ => hs⟩

theorem owns_afterSend (hs : s.sockets fd = some (.client id)) (sentBufferLength : Nat)
    (result : Except Errno Nat) : Owns fd id (s.afterSend fd id sentBufferLength [] result) := by
  rcases result with errno | _ | ret
  · exact ⟨⟨rfl, rfl⟩, fun _ => hs⟩
  · exact ⟨⟨rfl, rfl⟩, fun _ => hs⟩
  · exact owns_sendLoop (s := s.recordSent fd _) hs _

theorem owns_afterModifyHandler (s : Server) (events : EpollEvents)
    (result : Except Errno Unit) : Owns fd id (s.afterModifyHandler fd events [] result) := by
  cases result with
  | error errno => exact owns_handled ..
  | ok u => exact owns_handled ..

theorem owns_afterEpollCtlDel (hs : s.sockets fd = some (.client id)) (ret : Option Int)
    (result : Except Errno Unit) : Owns fd id (s.afterEpollCtlDel fd ret [] result) := by
  cases result with
  | error errno => exact owns_handled ..
  | ok u => exact ⟨⟨rfl, rfl⟩, fun _ => hs⟩

theorem owns_afterClose (s : Server) (ret : Option Int) (result : Except Errno Unit) :
    Owns fd id (s.afterClose fd ret [] result) := by
  cases result with
  | error errno => exact owns_handled ..
  | ok u => exact owns_handled ..

theorem sent_sendLoop (s : Server) (fd : Fd) (id sentBufferLength : Nat)
    (rest : List EpollEvent) : (s.sendLoop fd id sentBufferLength rest).sent = s.sent := by
  obtain ⟨pc, handler, -, -, he⟩ := sendLoop_eq s fd id sentBufferLength rest
  rw [he]
  rfl

/-! ### `errno` -/

@[simp] theorem errno_sendLoop (s : Server) (fd : Fd) (id sentBufferLength : Nat)
    (rest : List EpollEvent) : (s.sendLoop fd id sentBufferLength rest).errno = s.errno := by
  obtain ⟨pc, handler, -, -, he⟩ := sendLoop_eq s fd id sentBufferLength rest
  rw [he]
  rfl

theorem errno_afterRecv (s : Server) (fd : Fd) (id : Nat) (rest : List EpollEvent)
    (result : Except Errno (List UInt8)) :
    (s.afterRecv fd id rest result).errno = (SysCall.recv result).failure.getD s.errno := by
  rcases result with errno | bytes
  · by_cases he : errno = eagain
    · simp only [afterRecv, if_pos he]
      rfl
    · simp only [afterRecv, if_neg he]
      rfl
  · by_cases hne : bytes = []
    · subst hne
      rfl
    · obtain ⟨pc, handler, -, -, he⟩ := afterRecv_eq s fd id rest hne
      rw [he]
      rfl

theorem errno_afterSend (s : Server) (fd : Fd) (id sentBufferLength : Nat)
    (rest : List EpollEvent) (result : Except Errno Nat) :
    (s.afterSend fd id sentBufferLength rest result).errno =
      (SysCall.send result).failure.getD s.errno := by
  rcases result with errno | _ | ret
  · rfl
  · rfl
  · exact errno_sendLoop ..

theorem errno_afterModifyHandler (s : Server) (fd : Fd) (events : EpollEvents)
    (rest : List EpollEvent) (result : Except Errno Unit) :
    (s.afterModifyHandler fd events rest result).errno =
      (SysCall.epollCtl result).failure.getD s.errno := by
  cases result <;> rfl

theorem errno_afterEpollCtlDel (s : Server) (fd : Fd) (ret : Option Int)
    (rest : List EpollEvent) (result : Except Errno Unit) :
    (s.afterEpollCtlDel fd ret rest result).errno =
      (SysCall.epollCtl result).failure.getD s.errno := by
  cases result <;> rfl

theorem errno_afterClose (s : Server) (fd : Fd) (ret : Option Int) (rest : List EpollEvent)
    (result : Except Errno Unit) :
    (s.afterClose fd ret rest result).errno = (SysCall.close result).failure.getD s.errno := by
  cases result <;> rfl

end Server

/-! ## One step -/

namespace Config
open Server

variable {Sock : Type u} {calls : SocketCalls Sock} {fd : Fd} {id : Nat} {call : SysCall}
  {c d c' d' : Config Sock} {made made' : List SysCall}

/-- The calls on a connection, with the server and the sockets after them. -/
theorem drive_eq (c : Config Sock) :
    c.drive calls =
      match c.server.pc with
      | .recv fd id rest =>
          let answer := calls.recv (c.socks fd)
          some (.recv answer.1, ⟨c.server.afterRecv fd id rest answer.1,
            Function.update c.socks fd answer.2⟩)
      | .send fd id sentBufferLength rest =>
          let data := (c.server.echoHandlers id).receivedData
          let answer := calls.send ((data.drop sentBufferLength).take
            (sentBufferLengthThistime data.length sentBufferLength)) (c.socks fd)
          some (.send answer.1, ⟨c.server.afterSend fd id sentBufferLength rest answer.1,
            Function.update c.socks fd answer.2⟩)
      | .epollCtlMod fd events rest =>
          let answer := calls.epollCtlMod events (c.socks fd)
          some (.epollCtl answer.1, ⟨c.server.afterModifyHandler fd events rest answer.1,
            Function.update c.socks fd answer.2⟩)
      | .epollCtlDel fd ret rest =>
          let answer := calls.epollCtlDel (c.socks fd)
          some (.epollCtl answer.1, ⟨c.server.afterEpollCtlDel fd ret rest answer.1,
            Function.update c.socks fd answer.2⟩)
      | .close fd ret rest =>
          let answer := calls.close (c.socks fd)
          some (.close answer.1, ⟨c.server.afterClose fd ret rest answer.1,
            Function.update c.socks fd answer.2⟩)
      | .epollWait | .event _ | .accept4 _ _ | .epollCtlAdd _ _ _ | .stopped _ => none := by
  unfold drive pending
  cases hpc : c.server.pc <;> simp [next, hpc]

/-- The steps, by the call that is made. -/
inductive Called (calls : SocketCalls Sock) (c : Config Sock) : SysCall → Config Sock → Prop
  | recv {fd id rest} (hpc : c.server.pc = .recv fd id rest) {answer}
      (h : calls.recv (c.socks fd) = answer) :
      Called calls c (.recv answer.1)
        ⟨c.server.afterRecv fd id rest answer.1, Function.update c.socks fd answer.2⟩
  | send {fd id sentBufferLength rest} (hpc : c.server.pc = .send fd id sentBufferLength rest)
      {answer}
      (h : calls.send (((c.server.echoHandlers id).receivedData.drop sentBufferLength).take
        (sentBufferLengthThistime (c.server.echoHandlers id).receivedData.length
          sentBufferLength)) (c.socks fd) = answer) :
      Called calls c (.send answer.1)
        ⟨c.server.afterSend fd id sentBufferLength rest answer.1,
          Function.update c.socks fd answer.2⟩
  | epollCtlMod {fd events rest} (hpc : c.server.pc = .epollCtlMod fd events rest) {answer}
      (h : calls.epollCtlMod events (c.socks fd) = answer) :
      Called calls c (.epollCtl answer.1)
        ⟨c.server.afterModifyHandler fd events rest answer.1,
          Function.update c.socks fd answer.2⟩
  | epollCtlDel {fd ret rest} (hpc : c.server.pc = .epollCtlDel fd ret rest) {answer}
      (h : calls.epollCtlDel (c.socks fd) = answer) :
      Called calls c (.epollCtl answer.1)
        ⟨c.server.afterEpollCtlDel fd ret rest answer.1, Function.update c.socks fd answer.2⟩
  | close {fd ret rest} (hpc : c.server.pc = .close fd ret rest) {answer}
      (h : calls.close (c.socks fd) = answer) :
      Called calls c (.close answer.1)
        ⟨c.server.afterClose fd ret rest answer.1, Function.update c.socks fd answer.2⟩

theorem called_of_drive (h : c.drive calls = some (call, d)) : Called calls c call d := by
  rw [drive_eq] at h
  split at h
  · rename_i hpc
    obtain ⟨rfl, rfl⟩ := h
    exact .recv hpc rfl
  · rename_i hpc
    obtain ⟨rfl, rfl⟩ := h
    exact .send hpc rfl
  · rename_i hpc
    obtain ⟨rfl, rfl⟩ := h
    exact .epollCtlMod hpc rfl
  · rename_i hpc
    obtain ⟨rfl, rfl⟩ := h
    exact .epollCtlDel hpc rfl
  · rename_i hpc
    obtain ⟨rfl, rfl⟩ := h
    exact .close hpc rfl
  all_goals cases h

theorem Called.drive (h : Called calls c call d) : c.drive calls = some (call, d) := by
  rw [drive_eq]
  cases h with
  | recv hpc h | send hpc h | epollCtlMod hpc h | epollCtlDel hpc h | close hpc h =>
    simp only [hpc, h]

/-- A step stays with its connection. -/
theorem Called.frame (h : Called calls c call d) (ho : Owns fd id c.server) :
    Frame fd id c.server d.server ∧ Owns fd id d.server ∧
      ∀ fd', fd' ≠ fd → d.socks fd' = c.socks fd' := by
  obtain ⟨hat, hsocket⟩ := ho
  have hother : ∀ {sock : Sock} (fd' : Fd), fd' ≠ fd →
      Function.update c.socks fd sock fd' = c.socks fd' :=
    fun _ hne => Function.update_of_ne hne ..
  cases h with
  | recv hpc =>
    rw [hpc] at hat hsocket
    obtain ⟨rfl, rfl, rfl⟩ := hat
    have hs := hsocket (by simp)
    exact ⟨frame_afterRecv hs .., owns_afterRecv hs hpc _, hother⟩
  | send hpc =>
    rw [hpc] at hat hsocket
    obtain ⟨rfl, rfl, rfl⟩ := hat
    have hs := hsocket (by simp)
    exact ⟨frame_afterSend hs .., owns_afterSend hs .., hother⟩
  | epollCtlMod hpc =>
    rw [hpc] at hat
    obtain ⟨rfl, rfl⟩ := hat
    exact ⟨frame_afterModifyHandler .., owns_afterModifyHandler .., hother⟩
  | epollCtlDel hpc =>
    rw [hpc] at hat hsocket
    obtain ⟨rfl, rfl⟩ := hat
    exact ⟨frame_afterEpollCtlDel .., owns_afterEpollCtlDel (hsocket (by simp)) .., hother⟩
  | close hpc =>
    rw [hpc] at hat
    obtain ⟨rfl, rfl⟩ := hat
    exact ⟨frame_afterClose .., owns_afterClose .., hother⟩

/-- Where the connection is the same, so is the step. -/
theorem Called.agree (h : Called calls c call c') (ho : Owns fd id c.server)
    (hcd : AgreeAtCall fd id c.server d.server) (hsock : c.socks fd = d.socks fd) :
    ∃ d', Called calls d call d' ∧ AgreeAtCall fd id c'.server d'.server ∧
      c'.socks fd = d'.socks fd := by
  obtain ⟨hat, hsocket⟩ := ho
  have hself : ∀ {sock : Sock},
      Function.update c.socks fd sock fd = Function.update d.socks fd sock fd := by
    simp only [Function.update_self, implies_true]
  cases h with
  | recv hpc h =>
    have hdpc := hcd.pc.symm.trans hpc
    rw [hpc] at hat hsocket
    obtain ⟨rfl, rfl, rfl⟩ := hat
    exact ⟨_, .recv hdpc (hsock ▸ h), hcd.toAgree.afterRecv hcd.pc (hsocket (by simp)) .., hself⟩
  | send hpc h =>
    have hdpc := hcd.pc.symm.trans hpc
    rw [hpc] at hat hsocket
    obtain ⟨rfl, rfl, rfl⟩ := hat
    rw [hsock, hcd.echo] at h
    exact ⟨_, .send hdpc h, hcd.toAgree.afterSend (hsocket (by simp)) .., hself⟩
  | epollCtlMod hpc h =>
    have hdpc := hcd.pc.symm.trans hpc
    rw [hpc] at hat
    obtain ⟨rfl, rfl⟩ := hat
    exact ⟨_, .epollCtlMod hdpc (hsock ▸ h), hcd.toAgree.afterModifyHandler .., hself⟩
  | epollCtlDel hpc h =>
    have hdpc := hcd.pc.symm.trans hpc
    rw [hpc] at hat
    obtain ⟨rfl, rfl⟩ := hat
    exact ⟨_, .epollCtlDel hdpc (hsock ▸ h), hcd.toAgree.afterEpollCtlDel .., hself⟩
  | close hpc h =>
    have hdpc := hcd.pc.symm.trans hpc
    rw [hpc] at hat
    obtain ⟨rfl, rfl⟩ := hat
    exact ⟨_, .close hdpc (hsock ▸ h), hcd.toAgree.afterClose .., hself⟩

/-- `errno` is what the call has failed with, if it has failed. -/
theorem Called.errno_eq (h : Called calls c call d) :
    d.server.errno = call.failure.getD c.server.errno := by
  cases h with
  | recv => exact errno_afterRecv ..
  | send => exact errno_afterSend ..
  | epollCtlMod => exact errno_afterModifyHandler ..
  | epollCtlDel => exact errno_afterEpollCtlDel ..
  | close => exact errno_afterClose ..

/-- A failing call does not leave 0. -/
theorem Called.failure_ne_zero (h : Called calls c call d) {errno : Errno}
    (hfails : call.failure = some errno) : errno ≠ 0 := by
  cases h with
  | recv hpc h =>
    subst h
    exact calls.recv_errno _ _ (SysCall.failure_recv.mp hfails)
  | send hpc h =>
    subst h
    exact calls.send_errno _ _ _ (SysCall.failure_send.mp hfails)
  | epollCtlMod hpc h =>
    subst h
    exact calls.epollCtlMod_errno _ _ _ (SysCall.failure_epollCtl.mp hfails)
  | epollCtlDel hpc h =>
    subst h
    exact calls.epollCtlDel_errno _ _ (SysCall.failure_epollCtl.mp hfails)
  | close hpc h =>
    subst h
    exact calls.close_errno _ _ (SysCall.failure_close.mp hfails)

/-! ## Whole handlings -/

/-- A handling stays with its connection. -/
theorem Runs.frame (hr : Runs calls c made c') (ho : Owns fd id c.server) :
    Frame fd id c.server c'.server ∧ ∀ fd', fd' ≠ fd → c'.socks fd' = c.socks fd' := by
  induction hr with
  | returned => exact ⟨Frame.refl _, fun _ _ => rfl⟩
  | call hd _ ih =>
    obtain ⟨hframe, ho', hsocks⟩ := (called_of_drive hd).frame ho
    obtain ⟨hframe', hsocks'⟩ := ih ho'
    exact ⟨hframe.trans hframe', fun fd' hne => (hsocks' fd' hne).trans (hsocks fd' hne)⟩

theorem drive_eq_none (hpc : c.server.pc = .event []) : c.drive calls = none := by
  rw [drive_eq, hpc]

/-- Where the connection is the same, so is its handling. -/
theorem Runs.agree (hr : Runs calls c made c') (ho : Owns fd id c.server)
    (hcd : AgreeAtCall fd id c.server d.server) (hsock : c.socks fd = d.socks fd)
    (hr' : Runs calls d made' d') : made' = made ∧ Agree fd id c'.server d'.server := by
  induction hr generalizing d made' with
  | returned hpc =>
    cases hr' with
    | returned => exact ⟨rfl, hcd.toAgree⟩
    | call hd _ =>
      rw [drive_eq_none (hcd.pc ▸ hpc)] at hd
      cases hd
  | call hc _ ih =>
    obtain ⟨-, ho', -⟩ := (called_of_drive hc).frame ho
    obtain ⟨d₁, hcalled, hagree, hsock'⟩ := (called_of_drive hc).agree ho hcd hsock
    have hd₁ := hcalled.drive
    cases hr' with
    | returned hpc =>
      rw [drive_eq_none hpc] at hd₁
      cases hd₁
    | call hd hrest =>
      obtain ⟨rfl, rfl⟩ := Prod.mk.inj (Option.some.inj (hd₁.symm.trans hd))
      obtain ⟨rfl, hend⟩ := ih ho' hagree hsock' hrest
      exact ⟨rfl, hend⟩

/-- A handling leaves `errno` 0 iff it was 0 before and none of the calls has failed. -/
theorem Runs.errno_eq_zero (hr : Runs calls c made c') :
    c'.server.errno = 0 ↔ c.server.errno = 0 ∧ ∀ call ∈ made, call.failure = none := by
  induction hr with
  | returned => simp
  | @call c d c' call made hd _ ih =>
    rw [ih, (called_of_drive hd).errno_eq, List.forall_mem_cons]
    cases hfails : call.failure with
    | none => simp
    | some errno => simp [(called_of_drive hd).failure_ne_zero hfails]

end Config
end MySvrKit
