import MySvrKit.Connection
import MySvrKit.EchoIntegrity

/-! # Edge-triggered wake-ups

The server together with the kernel's side of its connections: the bytes and the
end of stream that have arrived, the send space, and epoll's ready list.  With
`EPOLLET` an event that has been reported is not reported again, so the server
depends on `epoll_ctl` putting a descriptor on the list that is ready for its new
registration.  No connection with something to do is ever forgotten
(`EpollServer.woken`). -/

namespace MySvrKit

/-- The kernel's side of a connection. -/
structure Stream where
  unread : List UInt8
  /-- The client has ended its stream. -/
  ended : Bool
  /-- There is send space. -/
  writable : Bool

namespace Stream

def readable (x : Stream) : Bool := !x.unread.isEmpty || x.ended

/-- Whether epoll would report the connection for a registration. -/
def readyFor (x : Stream) (mask : EpollEvents) : Bool :=
  (mask.epollIn && x.readable) || (mask.epollOut && x.writable)

/-- There is something to do for the server: input to read, or bytes it holds and
space for them. -/
def Needs (x : Stream) (mask : EpollEvents) (hasReceived : Bool) : Prop :=
  (mask.epollIn = true ∧ x.readable = true) ∨
    (mask.epollOut = true ∧ hasReceived = true ∧ x.writable = true)

theorem Needs.readyFor {x : Stream} {mask : EpollEvents} {hasReceived : Bool}
    (h : x.Needs mask hasReceived) : x.readyFor mask = true := by
  rcases h with ⟨hin, hreadable⟩ | ⟨hout, -, hwritable⟩
  · simp [Stream.readyFor, hin, hreadable]
  · simp [Stream.readyFor, hout, hwritable]

end Stream

/-- The server, the streams of its connections, and the ready list. -/
structure EpollServer where
  server : Server
  streams : Nat → Stream
  ready : Fd → Bool

/-- A step: a system call of the server, with the descriptors `epoll_wait` takes off
the ready list and whether `send` leaves space, or an action of a client. -/
inductive NetAction
  | call (call : SysCall) (taken : List Fd) (space : Bool)
  | arrive (id : Nat) (bytes : List UInt8)
  | finish (id : Nat)
  | drain (id : Nat)

/-- `epoll_ctl` succeeds on registered descriptors. -/
def Server.CtlOnRegistered (s : Server) : SysCall → Prop
  | .epollCtl (.error _) =>
      match s.pc with
      | .epollCtlMod fd _ _ | .epollCtlDel fd _ _ => s.registered fd = none
      | _ => True
  | _ => True

namespace EpollServer

/-- The connection open on a descriptor. -/
def connectionOf (x : EpollServer) (fd : Fd) : Option Nat :=
  match x.server.sockets fd with
  | some (.client id) => some id
  | _ => none

/-- Epoll would report this descriptor now. -/
def Ready (x : EpollServer) (fd : Fd) : Prop :=
  ∃ id mask, x.connectionOf fd = some id ∧ x.server.registered fd = some mask ∧
    (x.streams id).readyFor mask = true

/-- A stream after a call: `recv` takes bytes, `send` may use up the space. -/
def streamsAfter (x : EpollServer) (space : Bool) (call : SysCall) (id : Nat) : Stream :=
  match call, x.server.pc with
  | .recv (.ok bytes), .recv fd _ _ =>
      if x.connectionOf fd = some id then
        { x.streams id with unread := (x.streams id).unread.drop bytes.length }
      else
        x.streams id
  | .send _, .send fd _ _ _ =>
      if x.connectionOf fd = some id then
        { x.streams id with writable := (x.streams id).writable && space }
      else
        x.streams id
  | _, _ => x.streams id

/-- `epoll_ctl` puts a descriptor on the list that is ready for its new
registration. -/
def rearm (x : EpollServer) (fd : Fd) (mask : EpollEvents) : Bool :=
  x.ready fd || (x.connectionOf fd).any fun id => (x.streams id).readyFor mask

/-- The ready list after a call. -/
def readyAfter (x : EpollServer) (taken : List Fd) (call : SysCall) (fd : Fd) : Bool :=
  match call, x.server.pc with
  | .epollWait (.ok _), _ => x.ready fd && !taken.contains fd
  | .epollCtl (.ok ()), .epollCtlAdd _ clientFd _ =>
      if clientFd = fd then x.rearm fd .inEt else x.ready fd
  | .epollCtl (.ok ()), .epollCtlMod fd' events _ =>
      if fd' = fd then x.rearm fd events else x.ready fd
  | .epollCtl (.ok ()), .epollCtlDel fd' _ _ => if fd' = fd then false else x.ready fd
  | .close (.ok ()), .close fd' _ _ => if fd' = fd then false else x.ready fd
  | _, _ => x.ready fd

/-- A change of a stream puts its descriptor on the list if the registration has the
matching bit. -/
def wake (x : EpollServer) (id : Nat) (bit : EpollEvents → Bool) : Fd → Bool :=
  fun fd => x.ready fd ||
    (decide (x.connectionOf fd = some id) && (x.server.registered fd).any bit)

/-- What the network and epoll promise of a step. -/
def Allows (x : EpollServer) : NetAction → Prop
  | .call call taken _ =>
      x.server.Kernel call ∧ x.server.CtlOnRegistered call ∧
        match call with
        | .epollWait (.ok events) => ∀ fd ∈ taken, x.Ready fd → ∃ e ∈ events, e.fd = fd
        | .recv (.ok bytes) => ∀ fd handler rest id, x.server.pc = .recv fd handler rest →
            x.connectionOf fd = some id →
            bytes <+: (x.streams id).unread ∧
              (bytes = [] → (x.streams id).unread = [] ∧ (x.streams id).ended = true)
        | _ => True
  | _ => True

/-- One step. -/
def next (x : EpollServer) : NetAction → Option EpollServer
  | .call call taken space =>
      (x.server.next call).map fun server =>
        { server, streams := x.streamsAfter space call, ready := x.readyAfter taken call }
  | .arrive id bytes =>
      some { x with
        streams := Function.update x.streams id
          { x.streams id with unread := (x.streams id).unread ++ bytes }
        ready := x.wake id EpollEvents.epollIn }
  | .finish id =>
      some { x with
        streams := Function.update x.streams id { x.streams id with ended := true }
        ready := x.wake id EpollEvents.epollIn }
  | .drain id =>
      some { x with
        streams := Function.update x.streams id { x.streams id with writable := true }
        ready := x.wake id EpollEvents.epollOut }

/-- The runs of the server with its clients, from any streams. -/
def runs (listenFd : Fd) : TransitionSystem EpollServer NetAction where
  init x := (∃ errno, x.server = .initial listenFd errno) ∧ x.ready = fun _ => false
  step x a y := x.Allows a ∧ x.next a = some y

/-! ## What a step of the server leaves -/

end EpollServer

/-- The event at the head of the batch is one. -/
theorem Pc.eq_of_event {pc : Pc} {event event' : EpollEvent} {rest rest' : List EpollEvent}
    (h : pc = .event (event :: rest)) (h' : pc = .event (event' :: rest')) :
    event = event' ∧ rest = rest' :=
  List.cons.inj (Pc.event.inj (h.symm.trans h'))

/-- `SendData` does not end without a further call. -/
theorem Connection.sendLoop_phase (c : Connection) (sentBufferLength : Nat) :
    (c.sendLoop sentBufferLength).phase ≠ .idle := by
  unfold Connection.sendLoop
  split
  · nofun
  · split
    · nofun
    · nofun

namespace Server
variable {listenFd fd : Fd} {id : Nat} {s t : Server} {c : SysCall}

/-- A handler in the table was there before, unless its descriptor was not open. -/
theorem handlers_step (h : s.Step c t) (hk : s.Kernel c)
    (hopen : s.sockets fd = some (.client id)) {handler : Handler}
    (hh : t.handlers fd = some handler) : s.handlers fd = some handler := by
  cases h with
  | nothingToSend | notSupport | acceptErr | addErr | add | modifyErr | modify | delErr
  | closeErr =>
    have hsub := handled_sub hh
    exact hsub
  | @close fd' ret rest hpc =>
    have hupdate := handled_sub hh
    by_cases he : fd = fd'
    · subst he
      simp at hupdate
    · simpa [Function.update_of_ne he] using hupdate
  | @accept accepted fd' rest hpc =>
    have he : fd ≠ accepted.clientFd := by
      rintro rfl
      have hfree : s.sockets accepted.clientFd = none := hk
      rw [hfree] at hopen
      cases hopen
    simpa [afterAccept4, Function.update_of_ne he] using hh
  | sendData => rwa [sendLoop_handlers] at hh
  | @recvChunk bytes fd' id' rest hpc hne =>
    obtain ⟨pc, handler, -, -, he⟩ := afterRecv_eq s fd' id' rest hne
    rw [he] at hh
    exact hh
  | sendBytes =>
    simp only [afterSend, sendLoop_handlers] at hh
    exact hh
  | _ => exact hh

/-- The events still to handle: a new batch, the same, or one less. -/
theorem rest_step (h : s.Step c t) (hrunning : ∀ reason, t.pc ≠ .stopped reason) :
    (∃ events, c = .epollWait (.ok events) ∧ s.pc = .epollWait ∧ t.pc = .event events) ∨
      ((∀ events, c ≠ .epollWait (.ok events)) ∧ t.pc.rest = s.pc.rest) ∨
      (c = .handle ∧ ∃ event, s.pc = .event (event :: t.pc.rest)) := by
  have hloop : ∀ {u : Server} {fd : Fd} {id sentBufferLength : Nat} {rest : List EpollEvent},
      (u.sendLoop fd id sentBufferLength rest).pc.rest = rest := by
    intro u fd id sentBufferLength rest
    obtain ⟨pc, handler, hrest, -, he⟩ := sendLoop_eq u fd id sentBufferLength rest
    rw [he]
    exact hrest
  cases h with
  | epollWaitErr hpc => exact absurd rfl (hrunning .epollWaitErr)
  | handlerNotExist hpc hh => exact absurd rfl (hrunning .handlerNotExist)
  | @epollWait events hpc => exact Or.inl ⟨events, rfl, hpc, rfl⟩
  | serverHandle hpc hh | errorEvent hpc hh hbits | recvData hpc hh hin
  | nothingToSend hpc hh hout hreceived | notSupport hpc hh hin hout =>
    exact Or.inr (Or.inr ⟨rfl, _, hpc⟩)
  | sendData hpc hh hout hreceived =>
    exact Or.inr (Or.inr ⟨rfl, _, by rw [hloop]; exact hpc⟩)
  | @recvChunk bytes fd id rest hpc hne =>
    obtain ⟨pc, handler, hrest, -, he⟩ := afterRecv_eq s fd id rest hne
    rw [he, hpc]
    exact Or.inr (Or.inl ⟨nofun, hrest⟩)
  | sendBytes hpc =>
    refine Or.inr (Or.inl ⟨nofun, ?_⟩)
    rw [hpc]
    exact hloop
  | batchDone hpc | acceptErr hpc | accept hpc | addErr hpc | add hpc | modifyErr hpc | modify hpc
  | delErr hpc | del hpc | closeErr hpc | close hpc | recvZero hpc | recvErr hpc hne
  | sendZero hpc | sendErr hpc =>
    refine Or.inr (Or.inl ⟨nofun, ?_⟩)
    rw [hpc]
    rfl
  | recvAgain | library => exact Or.inr (Or.inl ⟨nofun, rfl⟩)

/-- An event of a connection that is handled without a system call, and keeps its
handler: there was nothing to send. -/
theorem nothing_of_handle {event : EpollEvent} {rest : List EpollEvent}
    (h : s.Step .handle t) (hpc : s.pc = .event (event :: rest))
    (hh : s.handlers event.fd = some (.echo id)) (hidle : t.pc.phase event.fd = .idle)
    (hh' : t.handlers event.fd = some (.echo id)) :
    (s.echoHandlers id).hasReceived = false ∧ event.events.epollOut = true := by
  cases h with
  | batchDone hpc' =>
    rw [hpc] at hpc'
    cases hpc'
  | handlerNotExist hpc' hnone =>
    obtain ⟨rfl, rfl⟩ := Pc.eq_of_event hpc hpc'
    cases hh.symm.trans hnone
  | serverHandle hpc' hserver =>
    obtain ⟨rfl, rfl⟩ := Pc.eq_of_event hpc hpc'
    cases hh.symm.trans hserver
  | errorEvent hpc' hecho hbits =>
    obtain ⟨rfl, rfl⟩ := Pc.eq_of_event hpc hpc'
    exact nomatch hidle.symm.trans (if_pos rfl)
  | recvData hpc' hecho hin =>
    obtain ⟨rfl, rfl⟩ := Pc.eq_of_event hpc hpc'
    exact nomatch hidle.symm.trans (if_pos rfl)
  | @sendData event' rest' id' hpc' hecho hout hreceived =>
    obtain ⟨rfl, rfl⟩ := Pc.eq_of_event hpc hpc'
    have hphase := congrArg Connection.phase (connection_sendLoop s event.fd id' 0 rest)
    exact absurd (hphase.symm.trans hidle) (Connection.sendLoop_phase _ _)
  | @nothingToSend event' rest' id' hpc' hecho hout hreceived =>
    obtain ⟨rfl, rfl⟩ := Pc.eq_of_event hpc hpc'
    obtain rfl : id = id' := Handler.echo.inj (Option.some.inj (hh.symm.trans hecho))
    exact ⟨hreceived, hout⟩
  | notSupport hpc' hecho hin hout =>
    obtain ⟨rfl, rfl⟩ := Pc.eq_of_event hpc hpc'
    simp [handled, MyErrorcode.kNotSupportEpollEvent] at hh'

theorem stopped_step {reason : StopReason} (hpc : s.pc = .stopped reason)
    (h : s.next c = some t) : t.pc = .stopped reason := by
  cases c with
  | library errno =>
    obtain rfl := Option.some.inj h
    exact hpc
  | epollWait _ | handle | accept4 _ | epollCtl _ | recv _ | send _ | close _ =>
    simp only [next, hpc] at h
    cases h

end Server

namespace EpollServer
variable {listenFd fd : Fd} {id : Nat} {x y : EpollServer} {c : SysCall}

/-! ## What is on the ready list -/

/-- The connection on a descriptor has something to do for the server. -/
def Needs (x : EpollServer) (fd : Fd) (id : Nat) : Prop :=
  ∃ mask, x.server.registered fd = some mask ∧
    (x.streams id).Needs mask (x.server.echoHandlers id).hasReceived

/-- The server will hear of the descriptor: it is on the ready list, or among the
events still to handle. -/
def Woken (x : EpollServer) (fd : Fd) : Prop :=
  x.ready fd = true ∨ ∃ e ∈ x.server.pc.rest, e.fd = fd

/-- **No wake-up is lost**: every connection in `handlers_` that is not being handled
and has something to do will be heard of. -/
def Waking (x : EpollServer) : Prop :=
  ∀ fd id, x.server.sockets fd = some (.client id) →
    x.server.handlers fd = some (.echo id) → x.server.pc.phase fd = .idle →
    (∀ reason, x.server.pc ≠ .stopped reason) → x.Needs fd id → x.Woken fd

theorem connectionOf_client (h : x.server.sockets fd = some (.client id)) :
    x.connectionOf fd = some id := by
  simp only [connectionOf, h]

theorem connectionOf_eq_some (h : x.connectionOf fd = some id) :
    x.server.sockets fd = some (.client id) := by
  unfold connectionOf at h
  split at h
  · rename_i hsocket
    rw [hsocket, Option.some.inj h]
  · cases h

theorem Needs.ready (h : x.Needs fd id) (hopen : x.server.sockets fd = some (.client id)) :
    x.Ready fd := by
  obtain ⟨mask, hmask, hneeds⟩ := h
  exact ⟨id, mask, connectionOf_client hopen, hmask, hneeds.readyFor⟩

/-- A descriptor the program counter is about is not idle. -/
theorem ne_of_idle (hidle : x.server.pc.phase fd = .idle) {pc : Pc} (hpc : x.server.pc = pc)
    {fd' : Fd} (hbusy : pc.phase fd' ≠ .idle) : fd' ≠ fd := by
  rintro rfl
  apply hbusy
  rw [← hpc]
  exact hidle

/-- A call on one connection leaves the streams of those not being handled. -/
theorem streamsAfter_idle (hs : x.server.Tables listenFd)
    (hopen : x.server.sockets fd = some (.client id)) (hidle : x.server.pc.phase fd = .idle)
    (space : Bool) (c : SysCall) : x.streamsAfter space c id = x.streams id := by
  have hother : ∀ {fd' : Fd}, fd' ≠ fd → x.connectionOf fd' ≠ some id := by
    intro fd' hne hid
    exact hne (hs.client_inj fd' fd id (connectionOf_eq_some hid) hopen)
  unfold streamsAfter
  split
  · rename_i hpc
    exact if_neg (hother (ne_of_idle hidle hpc (by simp [Pc.phase])))
  · rename_i hpc
    exact if_neg (hother (ne_of_idle hidle hpc (by simp [Pc.phase])))
  · rfl

/-- Only `epoll_wait` takes a descriptor off the list that is not being handled. -/
theorem readyAfter_idle (hidle : x.server.pc.phase fd = .idle)
    (hwait : ∀ events, c ≠ .epollWait (.ok events)) (taken : List Fd) :
    x.readyAfter taken c fd = x.ready fd := by
  unfold readyAfter
  split
  · exact absurd rfl (hwait _)
  · rename_i hpc
    exact if_neg (ne_of_idle hidle hpc (by simp [Pc.phase]))
  · rename_i hpc
    exact if_neg (ne_of_idle hidle hpc (by simp [Pc.phase]))
  · rename_i hpc
    exact if_neg (ne_of_idle hidle hpc (by simp [Pc.phase]))
  · rename_i hpc
    exact if_neg (ne_of_idle hidle hpc (by simp [Pc.phase]))
  · rfl

/-- `epoll_ctl` puts a descriptor on the list if there is something to do under its
new registration. -/
theorem rearm_of_needs (hopen : x.server.sockets fd = some (.client id)) {mask : EpollEvents}
    {hasReceived : Bool} (h : (x.streams id).Needs mask hasReceived) : x.rearm fd mask = true := by
  simp [rearm, connectionOf_client hopen, h.readyFor]

/-! ## No wake-up is lost -/

/-- A change of a stream: what is to do was to do before, or the registration has the
bit of the change. -/
theorem Waking.wake (h : x.Waking) {changed : Stream} {bit : EpollEvents → Bool}
    (hchange : ∀ mask hasReceived, changed.Needs mask hasReceived →
      bit mask = true ∨ (x.streams id).Needs mask hasReceived) :
    Waking { x with
      streams := Function.update x.streams id changed
      ready := x.wake id bit } := by
  intro fd id' hopen hh hidle hrunning hneeds
  have hold : x.Needs fd id' → x.wake id bit fd = true ∨ ∃ e ∈ x.server.pc.rest, e.fd = fd := by
    intro hbefore
    rcases h fd id' hopen hh hidle hrunning hbefore with hready | hbatch
    · exact Or.inl (by simp [EpollServer.wake, hready])
    · exact Or.inr hbatch
  obtain ⟨mask, hmask, hneeds⟩ := hneeds
  by_cases he : id' = id
  · subst he
    simp only [Function.update_self] at hneeds
    rcases hchange mask _ hneeds with hbit | hbefore
    · have hconnection : x.connectionOf fd = some id' := connectionOf_client hopen
      have hregistered : x.server.registered fd = some mask := hmask
      refine Or.inl ?_
      show x.wake id' bit fd = true
      simp [EpollServer.wake, hconnection, hregistered, hbit]
    · exact hold ⟨mask, hmask, hbefore⟩
  · simp only [Function.update_of_ne he] at hneeds
    exact hold ⟨mask, hmask, hneeds⟩

/-- A call of the server that is not on this connection. -/
theorem Waking.stay (h : x.Waking) {listenFd : Fd} {t : Server} {taken : List Fd} {space : Bool}
    (hs : x.server.Wired listenFd) (hallows : x.Allows (.call c taken space))
    (hnext : x.server.next c = some t) (hopen : x.server.sockets fd = some (.client id))
    (heq : t.connection fd id = x.server.connection fd id)
    (hh : t.handlers fd = some (.echo id)) (hidle : t.pc.phase fd = .idle)
    (hrunning : ∀ reason, t.pc ≠ .stopped reason)
    (hneeds : Needs ⟨t, x.streamsAfter space c, x.readyAfter taken c⟩ fd id) :
    Woken ⟨t, x.streamsAfter space c, x.readyAfter taken c⟩ fd := by
  obtain ⟨hk, -, hnetwork⟩ := hallows
  have hstep := Server.step_of_next hnext
  have hphase : x.server.pc.phase fd = .idle := (congrArg Connection.phase heq).symm.trans hidle
  have hregistered : t.registered fd = x.server.registered fd := congrArg Connection.mask heq
  have hechoHandler : t.echoHandlers id = x.server.echoHandlers id :=
    congrArg Connection.handler heq
  have hbefore : x.Needs fd id := by
    obtain ⟨mask, hmask, hneeds⟩ := hneeds
    refine ⟨mask, hregistered ▸ hmask, ?_⟩
    rw [← streamsAfter_idle hs.tables hopen hphase space c, ← hechoHandler]
    exact hneeds
  have hhandler := Server.handlers_step hstep hk hopen hh
  have hwoken : x.Woken fd := by
    refine h fd id hopen hhandler hphase (fun reason hpc => ?_) hbefore
    exact hrunning reason (Server.stopped_step hpc hnext)
  rcases Server.rest_step hstep hrunning with ⟨events, rfl, hpc, hpc'⟩ | ⟨hwait, hrest⟩ |
    ⟨rfl, event, hpc⟩
  · -- a descriptor that is taken off the list is ready, so it is in the new batch
    by_cases htaken : fd ∈ taken
    · obtain ⟨e, he, hfd⟩ := hnetwork fd htaken (hbefore.ready hopen)
      exact Or.inr ⟨e, by rw [hpc']; exact he, hfd⟩
    · rcases hwoken with hready | ⟨e, he, -⟩
      · exact Or.inl (by simp [readyAfter, hready, htaken])
      · rw [hpc] at he
        cases he
  · rcases hwoken with hready | ⟨e, he, hfd⟩
    · exact Or.inl ((readyAfter_idle hphase hwait taken).trans hready)
    · exact Or.inr ⟨e, hrest ▸ he, hfd⟩
  · rcases hwoken with hready | ⟨e, he, hfd⟩
    · exact Or.inl ((readyAfter_idle (c := .handle) hphase nofun taken).trans hready)
    · rw [hpc] at he
      rcases List.mem_cons.mp he with rfl | he
      · -- the event that has been handled without a system call had nothing to do
        subst hfd
        obtain ⟨hreceived, hout⟩ := Server.nothing_of_handle hstep hpc hhandler hidle hh
        obtain ⟨mask, hmask, hreports⟩ := hs.pending.event_registered hpc
        obtain ⟨mask', hmask', hin | ⟨-, htrue, -⟩⟩ := hbefore
        · have hne : e.fd ≠ listenFd := hs.tables.echo_ne hhandler
          obtain rfl : mask = mask' := Option.some.inj (hmask.symm.trans hmask')
          rcases (hs.tables.registered_client e.fd mask hmask hne).2 with rfl | rfl
          · exact absurd (hreports.2 hout) (by decide)
          · exact absurd hin.1 (by decide)
        · rw [hreceived] at htrue
          cases htrue
      · exact Or.inr ⟨e, he, hfd⟩

/-- A call of the server on this connection: back between two events, `epoll_ctl`
has just set its registration. -/
theorem Waking.moved {listenFd : Fd} {t : Server} {taken : List Fd} {space : Bool}
    (hs : x.server.Wired listenFd) (hctl : x.server.CtlOnRegistered c)
    (hopen : x.server.sockets fd = some (.client id))
    (hmove : (x.server.connection fd id).Step c (t.connection fd id))
    (hidle : t.pc.phase fd = .idle)
    (hneeds : Needs ⟨t, x.streamsAfter space c, x.readyAfter taken c⟩ fd id) :
    Woken ⟨t, x.streamsAfter space c, x.readyAfter taken c⟩ fd := by
  have hhandling := hs.handling
  obtain ⟨mask, hmask, hneeds⟩ := hneeds
  replace hidle : (t.connection fd id).phase = .idle := hidle
  replace hmask : (t.connection fd id).mask = some mask := hmask
  generalize t.connection fd id = d at hmove hidle hmask
  cases hmove with
  | add hphase =>
    obtain ⟨listenFd', rest, hpc⟩ := Pc.eq_of_phase hphase
    obtain rfl : .inEt = mask := Option.some.inj hmask
    refine Or.inl ?_
    simp only [readyAfter, hpc, if_true]
    exact rearm_of_needs hopen hneeds
  | @modify events hphase =>
    obtain ⟨rest, hpc⟩ := Pc.eq_of_phase hphase
    obtain rfl : events = mask := Option.some.inj hmask
    refine Or.inl ?_
    simp only [readyAfter, hpc, if_true]
    exact rearm_of_needs hopen hneeds
  | addErr hphase =>
    obtain ⟨listenFd', rest, hpc⟩ := Pc.eq_of_phase hphase
    simp only [Server.Handling, hpc] at hhandling
    have hnone : x.server.registered fd = none := hhandling.2.1
    cases hnone.symm.trans hmask
  | closeErr hphase =>
    obtain ⟨rest, hpc⟩ := Pc.eq_of_phase hphase
    simp only [Server.Handling, hpc] at hhandling
    have hnone : x.server.registered fd = none := hhandling.2
    cases hnone.symm.trans hmask
  | modifyErr hphase =>
    obtain ⟨rest, hpc⟩ := Pc.eq_of_phase hphase
    simp only [Server.CtlOnRegistered, hpc] at hctl
    cases hctl.symm.trans hmask
  | delErr hphase =>
    obtain ⟨rest, hpc⟩ := Pc.eq_of_phase hphase
    simp only [Server.CtlOnRegistered, hpc] at hctl
    cases hctl.symm.trans hmask
  | sendData hphase _ hout hreceived => exact absurd hidle (Connection.sendLoop_phase _ _)
  | sendBytes hphase hret => exact absurd hidle (Connection.sendLoop_phase _ _)
  | recvChunk hphase hne hlength =>
    simp only at hidle
    split at hidle
    · cases hidle
    · cases hidle
  | errorEvent hphase | recvData hphase _ hin | recvZero hphase | recvErr hphase hne
  | sendZero hphase | sendErr hphase | del hphase => cases hidle

/-- The invariant of the server and its network. -/
structure Awake (listenFd : Fd) (x : EpollServer) : Prop where
  wired : x.server.Wired listenFd
  unused : x.server.Unused
  waking : x.Waking

/-- **Every step keeps it.** -/
theorem Awake.step {a : NetAction} (h : x.Awake listenFd) (hallows : x.Allows a)
    (hnext : x.next a = some y) : y.Awake listenFd := by
  obtain ⟨hs, hunused, hwaking⟩ := h
  cases a with
  | arrive id bytes =>
    obtain rfl := Option.some.inj hnext
    refine ⟨hs, hunused, hwaking.wake fun mask hasReceived hneeds => ?_⟩
    rcases hneeds with ⟨hin, -⟩ | hout
    · exact Or.inl hin
    · exact Or.inr (Or.inr hout)
  | finish id =>
    obtain rfl := Option.some.inj hnext
    refine ⟨hs, hunused, hwaking.wake fun mask hasReceived hneeds => ?_⟩
    rcases hneeds with ⟨hin, -⟩ | hout
    · exact Or.inl hin
    · exact Or.inr (Or.inr hout)
  | drain id =>
    obtain rfl := Option.some.inj hnext
    refine ⟨hs, hunused, hwaking.wake fun mask hasReceived hneeds => ?_⟩
    rcases hneeds with hin | ⟨hout, -⟩
    · exact Or.inr (Or.inl hin)
    · exact Or.inl hout
  | call c taken space =>
    obtain ⟨t, ht, rfl⟩ := Option.map_eq_some_iff.mp hnext
    have hstep := Server.step_of_next ht
    refine ⟨hs.step hallows.1 hstep, Server.unused_step hs hunused hstep, ?_⟩
    intro fd id hopen hh hidle hrunning hneeds
    rcases Server.step_connection hs hunused hallows.1 hstep hopen with ⟨hold, heq⟩ |
      ⟨hold, hmove⟩ | ⟨-, -, heq⟩
    · exact hwaking.stay hs hallows ht hold heq hh hidle hrunning hneeds
    · exact Waking.moved hs hallows.2.1 hold hmove hidle hneeds
    · have hphase : t.pc.phase fd = .accepted := congrArg Connection.phase heq
      cases hphase.symm.trans hidle

theorem awake (h : (runs listenFd).Reachable x) : x.Awake listenFd := by
  refine h.invariant ?_ fun x a y hx hstep => hx.step hstep.1 hstep.2
  rintro x ⟨⟨errno, hserver⟩, -⟩
  have hwired := Server.wired_initial listenFd errno
  refine ⟨hserver ▸ hwired, ?_, ?_⟩
  · rw [hserver]
    exact fun _ _ => ⟨rfl, rfl⟩
  · intro fd id hopen
    rw [hserver] at hopen
    exact absurd (hwired.tables.client_lt fd id hopen) (Nat.not_lt_zero _)

/-- **No edge-triggered wake-up is lost.**  In every run and between any two events,
whatever the clients have done in the meantime: a connection in `handlers_` that is
registered for `EPOLLIN` and has input, or for `EPOLLOUT` and has bytes to send and
space for them, is on the ready list or among the events still to handle. -/
theorem woken (h : (runs listenFd).Reachable x) (hbetween : x.server.Between)
    (hopen : x.server.sockets fd = some (.client id))
    (hhandler : (x.server.handlers fd).isSome = true) (hneeds : x.Needs fd id) : x.Woken fd := by
  obtain ⟨hs, -, hwaking⟩ := awake h
  obtain ⟨handler, hh⟩ := Option.isSome_iff_exists.mp hhandler
  have hrunning : ∀ reason, x.server.pc ≠ .stopped reason := by
    intro reason hpc
    simp only [Server.Between, hpc] at hbetween
  cases handler with
  | server =>
    rw [hs.tables.server_listen fd hh, hs.tables.listening] at hopen
    cases hopen
  | echo id' =>
    obtain rfl : id' = id := hs.tables.echo_eq hh hopen
    exact hwaking fd id' hopen hh (hbetween.phase fd) hrunning hneeds

/-- The theorem at a run: a byte that arrives before `epoll_ctl` has registered the
connection. -/
theorem woken_before_add :
    ∃ x, (runs 3).Reachable x ∧ x.server.registered 5 = some .inEt ∧
      (x.streams 0).unread = [7] ∧ x.Woken 5 := by
  have h₀ : (runs 3).Reachable ⟨.initial 3 0, fun _ => ⟨[], false, true⟩, fun _ => false⟩ :=
    .initial ⟨⟨0, rfl⟩, rfl⟩
  have h₁ := h₀.step (l := NetAction.call (.epollWait (.ok [⟨3, .onlyIn⟩])) [] false)
    ⟨⟨by decide, trivial, nofun⟩, rfl⟩
  have h₂ := h₁.step (l := NetAction.call .handle [] false) ⟨⟨trivial, trivial, trivial⟩, rfl⟩
  have h₃ := h₂.step (l := NetAction.call (.accept4 (.ok ⟨5, ['a'], 80⟩)) [] false)
    ⟨⟨rfl, trivial, trivial⟩, rfl⟩
  have h₄ := h₃.step (l := NetAction.arrive 0 [7]) ⟨trivial, rfl⟩
  have h₅ := h₄.step (l := NetAction.call (.epollCtl (.ok ())) [] false)
    ⟨⟨rfl, trivial, trivial⟩, rfl⟩
  exact ⟨_, h₅, rfl, rfl, woken h₅ trivial rfl rfl ⟨.inEt, rfl, Or.inl ⟨rfl, rfl⟩⟩⟩

end EpollServer
end MySvrKit
