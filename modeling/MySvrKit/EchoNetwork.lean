import MySvrKit.EdgeTriggered
import MySvrKit.Refinement

/-! # The echo service

The server with its clients and the network between them: what a client writes is on its
way until the kernel of the server has it, and what the server has sent can be read by the
client.  The client may be any program.  Where `epoll_ctl` and `close` work and `send`
takes what it is offered, a client cannot tell the service from a loopback of its own
(`EchoNetwork.refines_loopback`); and when the server sleeps, everything it has been sent
has been echoed (`EchoNetwork.echoed_asleep`). -/

universe u v

/-! ## Loopbacks -/

/-- What is seen of the ends of channels. -/
inductive ChannelEvent (Key : Type u) (Byte : Type v)
  | write (k : Key) (bytes : List Byte)
  | read (k : Key) (bytes : List Byte)

/-- A loopback for each key: what is written can be read, once and in order. -/
def loopback (Key : Type u) (Byte : Type v) [DecidableEq Key] :
    TransitionSystem (Key → List Byte) (ChannelEvent Key Byte) where
  init pending := pending = fun _ => []
  step pending event pending' :=
    match event with
    | .write k bytes => pending' = Function.update pending k (pending k ++ bytes)
    | .read k bytes => pending k = bytes ++ pending' k ∧ ∀ k', k' ≠ k → pending' k' = pending k'

/-- Bytes read off the end of a channel are no longer to be read. -/
theorem drop_append_of_prefix {α : Type u} {written done more : List α}
    (h : done ++ more <+: written) :
    written.drop done.length = more ++ written.drop (done ++ more).length := by
  obtain ⟨rest, rfl⟩ := h
  rw [List.drop_left, List.append_assoc, List.drop_left]

namespace MySvrKit

/-! ## What a step of the server does to the records -/

namespace Server
variable {listenFd : Fd} {s t : Server} {c : SysCall}

/-- Nothing that has been sent is taken back. -/
theorem sent_step (hs : s.Wired listenFd) (h : s.Step c t) (id : Nat) :
    s.sent id <+: t.sent id := by
  have hhandling := hs.handling
  cases h with
  | @sendData event rest id' hpc hh hout hreceived =>
    obtain ⟨pc, handler, -, -, he⟩ := sendLoop_eq s event.fd id' 0 rest
    rw [he]
    exact List.prefix_refl _
  | @recvChunk bytes fd id' rest hpc hne =>
    obtain ⟨pc, handler, -, -, he⟩ := afterRecv_eq s fd id' rest hne
    rw [he]
    exact List.prefix_refl _
  | @sendBytes ret fd id' sentBufferLength rest hpc =>
    simp only [Handling, hpc] at hhandling
    have hclient := hs.tables.echo_client fd id' hhandling.1
    obtain ⟨pc, handler, -, -, he⟩ := sendLoop_eq (s.recordSent fd _) fd id' _ rest
    rw [afterSend, he, recordSent_client hclient]
    by_cases he : id = id'
    · rw [he]
      show _ <+: Function.update s.sent id' _ id'
      rw [Function.update_self]
      exact List.prefix_append _ _
    · have hother : ∀ bytes, Function.update s.sent id' bytes id = s.sent id := fun bytes =>
        Function.update_of_ne he ..
      exact (hother _).symm ▸ List.prefix_refl _
  | _ => exact List.prefix_refl _

/-- Only `recv` adds to what has been received, and it adds what it returns. -/
theorem chunks_step (hs : s.Wired listenFd) (h : s.Step c t) :
    ((∀ bytes, c ≠ .recv (.ok bytes)) ∧ t.chunks = s.chunks) ∨
      ∃ bytes fd id rest, c = .recv (.ok bytes) ∧ s.pc = .recv fd id rest ∧
        s.sockets fd = some (.client id) ∧
        t.chunks = Function.update s.chunks id (s.chunks id ++ [bytes]) := by
  have hhandling := hs.handling
  cases h with
  | @sendData event rest id hpc hh hout hreceived =>
    obtain ⟨pc, handler, -, -, he⟩ := sendLoop_eq s event.fd id 0 rest
    rw [he]
    exact Or.inl ⟨fun _ h => (by cases h), rfl⟩
  | @sendBytes ret fd id sentBufferLength rest hpc =>
    obtain ⟨pc, handler, -, -, he⟩ := sendLoop_eq (s.recordSent fd _) fd id _ rest
    rw [afterSend, he]
    exact Or.inl ⟨fun _ h => (by cases h), rfl⟩
  | @recvZero fd id rest hpc =>
    simp only [Handling, hpc] at hhandling
    have hclient := hs.tables.echo_client fd id hhandling.1
    refine Or.inr ⟨[], fd, id, rest, rfl, hpc, hclient, ?_⟩
    rw [recordRecv_client hclient]
    rfl
  | @recvChunk bytes fd id rest hpc hne =>
    simp only [Handling, hpc] at hhandling
    have hclient := hs.tables.echo_client fd id hhandling.1
    obtain ⟨pc, handler, -, -, he⟩ := afterRecv_eq s fd id rest hne
    refine Or.inr ⟨bytes, fd, id, rest, rfl, hpc, hclient, ?_⟩
    rw [he, recordRecv_client hclient]
    rfl
  | _ => exact Or.inl ⟨fun _ h => (by cases h), rfl⟩

end Server

namespace EpollServer
variable {listenFd : Fd} {x : EpollServer} {t : Server} {c : SysCall} {taken : List Fd}
  {space : Bool}

theorem unread_streamsAfter (h : ∀ bytes, c ≠ .recv (.ok bytes)) (id : Nat) :
    (x.streamsAfter space c id).unread = (x.streams id).unread := by
  unfold streamsAfter
  split
  · exact absurd rfl (h _)
  · split <;> rfl
  · rfl

/-- `recv` takes the bytes it returns off the stream, so what has been received and what
is unread are what has arrived. -/
theorem arrived_step (hs : x.server.Wired listenFd) (hallows : x.Allows (.call c taken space))
    (h : x.server.Step c t) (id : Nat) :
    (t.chunks id).flatten ++ (x.streamsAfter space c id).unread =
      (x.server.chunks id).flatten ++ (x.streams id).unread := by
  rcases Server.chunks_step hs h with ⟨hcall, hchunks⟩ |
    ⟨bytes, fd, id', rest, rfl, hpc, hopen, hchunks⟩
  · rw [hchunks, unread_streamsAfter hcall]
  · have hconnection := connectionOf_client hopen
    obtain ⟨unread, hunread⟩ := (hallows.2.2 fd id' rest id' hpc hconnection).1
    by_cases he : id = id'
    · rw [he, hchunks, Function.update_self, List.flatten_append, List.flatten_singleton]
      simp only [streamsAfter, hpc, hconnection, if_true]
      rw [← hunread, List.drop_left, List.append_assoc]
    · have hne : ¬ id' = id := fun h => he h.symm
      rw [hchunks, Function.update_of_ne he]
      simp only [streamsAfter, hpc, hconnection, Option.some.injEq, hne, if_false]

end EpollServer

/-! ## The network -/

/-- The server, and the clients: what each has written, what of it is still on its way,
and what it has read. -/
structure EchoNetwork where
  epoll : EpollServer
  wrote : Nat → List UInt8
  sending : Nat → List UInt8
  read : Nat → List UInt8

/-- A step of the server, of a client, or of the network between them. -/
inductive EchoAction
  | server (call : SysCall) (taken : List Fd) (space : Bool)
  | write (id : Nat) (bytes : List UInt8)
  /-- The next bytes on the way arrive. -/
  | arrive (id : Nat) (n : Nat)
  /-- The client has shut its side down, and all of it has arrived. -/
  | finish (id : Nat)
  | drain (id : Nat)
  | read (id : Nat) (n : Nat)

namespace EchoNetwork

/-- What a client can read next. -/
def readable (x : EchoNetwork) (id n : Nat) : List UInt8 :=
  ((x.epoll.server.sent id).drop (x.read id).length).take n

/-- One step. -/
def next (x : EchoNetwork) : EchoAction → Option EchoNetwork
  | .server call taken space =>
      (x.epoll.next (.call call taken space)).map fun epoll => { x with epoll }
  | .write id bytes =>
      some { x with
        wrote := Function.update x.wrote id (x.wrote id ++ bytes)
        sending := Function.update x.sending id (x.sending id ++ bytes) }
  | .arrive id n =>
      (x.epoll.next (.arrive id ((x.sending id).take n))).map fun epoll =>
        { x with epoll, sending := Function.update x.sending id ((x.sending id).drop n) }
  | .finish id =>
      if (x.sending id).isEmpty then
        (x.epoll.next (.finish id)).map fun epoll => { x with epoll }
      else
        none
  | .drain id => (x.epoll.next (.drain id)).map fun epoll => { x with epoll }
  | .read id n => some { x with read := Function.update x.read id (x.read id ++ x.readable id n) }

/-- `epoll_ctl` and `close` succeed, `send` takes what it is offered, and the kernel and
the network keep their promises. -/
def Allows (x : EchoNetwork) : EchoAction → Prop
  | .server call taken space =>
      (call.CtlSucceeds ∧ x.epoll.server.TakesAll call) ∧ x.epoll.Allows (.call call taken space)
  | _ => True

/-- What the clients see: what they write and what they read. -/
def observe (x : EchoNetwork) : EchoAction → List (ChannelEvent Nat UInt8)
  | .write id bytes => [.write id bytes]
  | .read id n => [.read id (x.readable id n)]
  | _ => []

end EchoNetwork

/-- The runs of the service, from the start of the server on. -/
def echoNetwork (listenFd : Fd) : TransitionSystem EchoNetwork EchoAction where
  init x := (EpollServer.runs listenFd).init x.epoll ∧ (∀ id, (x.epoll.streams id).unread = []) ∧
    x.wrote = (fun _ => []) ∧ x.sending = (fun _ => []) ∧ x.read = fun _ => []
  step x a y := x.Allows a ∧ x.next a = some y

namespace EchoNetwork
variable {listenFd fd : Fd} {id : Nat} {x y : EchoNetwork} {a : EchoAction}

/-! ## Where the bytes are -/

/-- **The invariant**: the server is in a state of its own runs, what a client has written
has been received, is unread or is on its way, and what it has read has been sent. -/
structure Carries (listenFd : Fd) (x : EchoNetwork) : Prop where
  epoll : (EpollServer.runs listenFd).Reachable x.epoll
  server : (Server.echoRuns listenFd).Reachable x.epoll.server
  wrote : ∀ id, (x.epoll.server.chunks id).flatten ++ (x.epoll.streams id).unread ++ x.sending id =
    x.wrote id
  read : ∀ id, x.read id <+: x.epoll.server.sent id

/-- What has been sent has been written. -/
theorem Carries.sent_prefix (h : x.Carries listenFd) (id : Nat) :
    x.epoll.server.sent id <+: x.wrote id := by
  have hsent : x.epoll.server.sent id <+: (x.epoll.server.chunks id).flatten :=
    Server.record_invariant (P := Connection.Echoing)
      (R := fun chunks sent => sent <+: chunks.flatten) (List.prefix_refl _)
      (fun _ => Connection.Echoing.sent_prefix) Server.echoing h.server id
  rw [← h.wrote id, List.append_assoc]
  exact hsent.trans (List.prefix_append _ _)

/-- What can be read next is behind what has been read. -/
theorem Carries.read_readable (h : x.Carries listenFd) (id n : Nat) :
    x.read id ++ x.readable id n <+: x.epoll.server.sent id := by
  obtain ⟨unread, hunread⟩ := h.read id
  rw [readable, ← hunread, List.drop_left]
  exact (List.prefix_append_right_inj _).mpr (List.take_prefix n unread)

theorem carries_initial (h : (echoNetwork listenFd).init x) : x.Carries listenFd := by
  obtain ⟨hepoll, hunread, hwrote, hsending, hread⟩ := h
  obtain ⟨errno, hserver⟩ := hepoll.1
  refine ⟨.initial hepoll, .initial ⟨errno, hserver⟩, fun id => ?_, fun id => ?_⟩
  · rw [hserver, hunread id, hsending, hwrote]
    rfl
  · rw [hread]
    exact List.nil_prefix

/-- A step that leaves the server and moves bytes from the way to the stream, or none. -/
theorem Carries.net (h : x.Carries listenFd) {a : NetAction}
    (hallows : x.epoll.Allows a) (hnext : x.epoll.next a = some y.epoll)
    (hserver : y.epoll.server = x.epoll.server)
    (hbytes : ∀ id, (y.epoll.streams id).unread ++ y.sending id =
      (x.epoll.streams id).unread ++ x.sending id)
    (hwrote : y.wrote = x.wrote) (hread : y.read = x.read) : y.Carries listenFd where
  epoll := h.epoll.step ⟨hallows, hnext⟩
  server := by
    rw [hserver]
    exact h.server
  wrote id := by
    rw [hserver, hwrote, List.append_assoc, hbytes id, ← List.append_assoc]
    exact h.wrote id
  read id := by
    rw [hserver, hread]
    exact h.read id

theorem Carries.step (h : x.Carries listenFd) (hallows : x.Allows a) (hnext : x.next a = some y) :
    y.Carries listenFd := by
  cases a with
  | server call taken space =>
    obtain ⟨hechoes, hnet⟩ := hallows
    obtain ⟨epoll, hepoll, rfl⟩ := Option.map_eq_some_iff.mp hnext
    obtain ⟨t, ht, rfl⟩ := Option.map_eq_some_iff.mp hepoll
    have hstep := Server.step_of_next ht
    have hwired := (EpollServer.awake h.epoll).wired
    refine ⟨h.epoll.step ⟨hnet, hepoll⟩, h.server.step ⟨hechoes, hnet.1, ht⟩, fun id => ?_,
      fun id => ?_⟩
    · rw [← h.wrote id, ← EpollServer.arrived_step hwired hnet hstep id]
    · exact (h.read id).trans (Server.sent_step hwired hstep id)
  | write id bytes =>
    obtain rfl := Option.some.inj hnext
    refine ⟨h.epoll, h.server, fun id' => ?_, h.read⟩
    have hwrote := h.wrote id'
    by_cases he : id' = id
    · subst he
      simp only [Function.update_self]
      rw [← hwrote, List.append_assoc, List.append_assoc]
      simp only [List.append_assoc]
    · simp only [Function.update_of_ne he]
      exact hwrote
  | arrive id n =>
    obtain rfl := Option.some.inj hnext
    refine h.net (a := .arrive id ((x.sending id).take n)) trivial rfl rfl (fun id' => ?_)
      rfl rfl
    by_cases he : id' = id
    · subst he
      simp only [Function.update_self, List.append_assoc, List.take_append_drop]
    · simp only [Function.update_of_ne he]
  | finish id =>
    simp only [next] at hnext
    split at hnext
    · obtain rfl := Option.some.inj hnext
      refine h.net (a := .finish id) trivial rfl rfl (fun id' => ?_) rfl rfl
      by_cases he : id' = id
      · subst he
        simp only [Function.update_self]
      · simp only [Function.update_of_ne he]
    · cases hnext
  | drain id =>
    obtain rfl := Option.some.inj hnext
    refine h.net (a := .drain id) trivial rfl rfl (fun id' => ?_) rfl rfl
    by_cases he : id' = id
    · subst he
      simp only [Function.update_self]
    · simp only [Function.update_of_ne he]
  | read id n =>
    obtain rfl := Option.some.inj hnext
    refine ⟨h.epoll, h.server, h.wrote, fun id' => ?_⟩
    by_cases he : id' = id
    · subst he
      simp only [Function.update_self]
      exact h.read_readable id' n
    · simp only [Function.update_of_ne he]
      exact h.read id'

theorem carries (h : (echoNetwork listenFd).Reachable x) : x.Carries listenFd :=
  h.invariant (fun _ => carries_initial) fun _ _ _ hx hstep => hx.step hstep.1 hstep.2

/-! ## The service is a loopback -/

/-- What a loopback holds: what has been written and not read. -/
def pending (x : EchoNetwork) (id : Nat) : List UInt8 := (x.wrote id).drop (x.read id).length

/-- What a step shows, a loopback does. -/
theorem Carries.shows (h : x.Carries listenFd) (hnext : x.next a = some y) :
    (loopback Nat UInt8).Shows (fun _ event => [event]) x.pending (x.observe a) y.pending := by
  have hsame : y.wrote = x.wrote → y.read = x.read →
      (loopback Nat UInt8).Shows (fun _ event => [event]) x.pending [] y.pending := by
    intro hwrote hread
    have hpending : y.pending = x.pending := by
      funext id
      rw [pending, pending, hwrote, hread]
    rw [hpending]
    exact .refl _
  cases a with
  | server call taken space =>
    obtain ⟨epoll, -, rfl⟩ := Option.map_eq_some_iff.mp hnext
    exact hsame rfl rfl
  | arrive id n =>
    obtain rfl := Option.some.inj hnext
    exact hsame rfl rfl
  | finish id =>
    simp only [next] at hnext
    split at hnext
    · obtain rfl := Option.some.inj hnext
      exact hsame rfl rfl
    · cases hnext
  | drain id =>
    obtain rfl := Option.some.inj hnext
    exact hsame rfl rfl
  | write id bytes =>
    obtain rfl := Option.some.inj hnext
    refine TransitionSystem.Shows.step (l := ChannelEvent.write id bytes) ?_
    have hread := (h.read id).trans (h.sent_prefix id)
    funext id'
    by_cases he : id' = id
    · subst he
      simp only [pending, Function.update_self]
      exact List.drop_append_of_le_length hread.length_le
    · simp only [pending, Function.update_of_ne he]
  | read id n =>
    obtain rfl := Option.some.inj hnext
    refine TransitionSystem.Shows.step (l := ChannelEvent.read id (x.readable id n)) ⟨?_, ?_⟩
    · have hread := (h.read_readable id n).trans (h.sent_prefix id)
      simp only [pending, Function.update_self]
      exact drop_append_of_prefix hread
    · intro id' he
      simp only [pending, Function.update_of_ne he]

/-- **The service is a loopback.**  Whatever clients can see of the service in a run of
it, over any number of connections and with any way their bytes are cut and delayed, they
can see of loopbacks of their own. -/
theorem refines_loopback (listenFd : Fd) :
    (echoNetwork listenFd).Refines observe (loopback Nat UInt8) fun _ event => [event] := by
  have hsimulation : (echoNetwork listenFd).BackwardSimulation observe (loopback Nat UInt8)
      (fun _ event => [event]) fun x pending => pending = x.pending := by
    refine ⟨fun x _ => ⟨x.pending, rfl⟩, ?_, ?_⟩
    · rintro x _ ⟨-, -, hwrote, -, hread⟩ rfl
      funext id
      rw [pending, hwrote, hread]
      rfl
    · rintro x a y _ hx ⟨-, hnext⟩ rfl
      exact ⟨x.pending, rfl, (carries hx).shows hnext⟩
  exact hsimulation.refines

/-! ## A server that sleeps -/

/-- What a sleeping server has been sent is echoed, and nothing is left to do for it. -/
theorem Carries.asleep (h : x.Carries listenFd)
    (hwaits : x.epoll.server.pc = .epollWait) (hasleep : x.epoll.ready fd = false)
    (hopen : x.epoll.server.sockets fd = some (.client id))
    (hhandler : x.epoll.server.handlers fd = some (.echo id))
    (hspace : (x.epoll.streams id).writable = true) :
    x.epoll.server.sent id ++ x.sending id = x.wrote id ∧
      (x.epoll.streams id).unread = [] ∧ (x.epoll.streams id).ended = false := by
  have hidle : x.epoll.server.pc.phase fd = .idle := by
    rw [hwaits]
    rfl
  -- nothing is to be done for the connection, or the server would have been told
  have hnothing : ¬ x.epoll.Needs fd id := by
    intro hneeds
    have hrunning : ∀ reason, x.epoll.server.pc ≠ .stopped reason := by
      intro reason hstopped
      rw [hwaits] at hstopped
      cases hstopped
    have hwaking := (EpollServer.awake h.epoll).waking
    have hwoken := hwaking fd id hopen hhandler hidle hrunning hneeds
    rcases hwoken with hready | ⟨event, hevent, -⟩
    · rw [hasleep] at hready
      cases hready
    · rw [hwaits] at hevent
      cases hevent
  have hecho := Server.echoing h.server fd id hopen
  simp only [Connection.Echoing, Server.connection, hidle] at hecho
  rcases hecho with ⟨hmask, hall⟩ | ⟨hmask, hholds⟩
  · have hreadable : (x.epoll.streams id).readable = false := by
      rw [Bool.eq_false_iff]
      exact fun hreadable => hnothing ⟨.inEt, hmask, Or.inl ⟨rfl, hreadable⟩⟩
    simp only [Stream.readable, Bool.or_eq_false_iff, Bool.not_eq_false', List.isEmpty_iff]
      at hreadable
    obtain ⟨hunread, hended⟩ := hreadable
    refine ⟨?_, hunread, hended⟩
    have hwrote := h.wrote id
    rw [hunread, List.append_nil] at hwrote
    rw [← hwrote]
    exact congrArg (· ++ x.sending id) hall
  · -- held bytes and space to send them are something to do
    exact absurd ⟨.outEt, hmask, Or.inr ⟨rfl, hholds.1, hspace⟩⟩ hnothing

/-- **A server that sleeps has echoed everything.**  Where `epoll_wait` blocks, all that
has come from a client whose handler is in the table, and that has space for its answer,
has been read and sent back, so that what it has written is what it can read and what is on
its way; and the client has not shut its side down. -/
theorem echoed_asleep (h : (echoNetwork listenFd).Reachable x)
    (hwaits : x.epoll.server.pc = .epollWait) (hasleep : x.epoll.ready fd = false)
    (hopen : x.epoll.server.sockets fd = some (.client id))
    (hhandler : x.epoll.server.handlers fd = some (.echo id))
    (hspace : (x.epoll.streams id).writable = true) :
    x.epoll.server.sent id ++ x.sending id = x.wrote id ∧
      (x.epoll.streams id).unread = [] ∧ (x.epoll.streams id).ended = false :=
  (carries h).asleep hwaits hasleep hopen hhandler hspace

/-- The start: no client has written, and all of them have space. -/
def start : EchoNetwork :=
  ⟨⟨.initial 3 0, fun _ => ⟨[], false, true⟩, fun _ => false⟩, fun _ => [], fun _ => [],
    fun _ => []⟩

/-- What `epoll_wait` takes off the ready list it reports. -/
theorem taken_one (event : EpollEvent) (fd : Fd) (hfd : fd ∈ [event.fd]) :
    ∃ e ∈ [event], e.fd = fd :=
  ⟨event, List.mem_cons_self, (List.mem_singleton.mp hfd).symm⟩

/-- `recv` may return all there is, if anything. -/
theorem recv_unread {bytes : List UInt8} {handler : Nat} {rest : List EpollEvent}
    (hpc : x.epoll.server.pc = .recv fd handler rest) (hid : x.epoll.connectionOf fd = some id)
    (hunread : (x.epoll.streams id).unread = bytes) (hne : bytes ≠ []) (fd' : Fd) (handler' : Nat)
    (rest' : List EpollEvent) (id' : Nat) (hpc' : x.epoll.server.pc = .recv fd' handler' rest')
    (hid' : x.epoll.connectionOf fd' = some id') :
    bytes <+: (x.epoll.streams id').unread ∧
      (bytes = [] → (x.epoll.streams id').unread = [] ∧ (x.epoll.streams id').ended = true) := by
  obtain ⟨rfl, -, -⟩ := Pc.recv.inj (hpc.symm.trans hpc')
  obtain rfl := Option.some.inj (hid.symm.trans hid')
  exact ⟨hunread ▸ List.prefix_refl _, fun h => absurd h hne⟩

/-- The theorem at a run: two bytes come, one is still on its way, and the two are sent
back. -/
theorem echoed_asleep_twoBytes :
    ∃ x, (echoNetwork 3).Reachable x ∧ x.epoll.server.pc = .epollWait ∧
      x.wrote 0 = [7, 8, 9] ∧ x.sending 0 = [9] ∧ x.epoll.server.sent 0 ++ [9] = [7, 8, 9] := by
  have hrun : (echoNetwork 3).IsRun start
      [(.server (.epollWait (.ok [⟨3, .onlyIn⟩])) [3] true, _), (.server .handle [] true, _),
        (.server (.accept4 (.ok ⟨5, ['a'], 80⟩)) [] true, _),
        (.server (.epollCtl (.ok ())) [] true, _), (.server .handle [] true, _),
        (.write 0 [7, 8, 9], _), (.arrive 0 2, _),
        (.server (.epollWait (.ok [⟨5, .onlyIn⟩])) [5] true, _), (.server .handle [] true, _),
        (.server (.recv (.ok [7, 8])) [] true, _), (.server (.epollCtl (.ok ())) [] true, _),
        (.server .handle [] true, _),
        (.server (.epollWait (.ok [⟨5, ⟨false, true, false, false, false⟩⟩])) [5] true, _),
        (.server .handle [] true, _), (.server (.send (.ok 2)) [] true, _),
        (.server (.epollCtl (.ok ())) [] true, _), (.server .handle [] true, _)] :=
    ⟨⟨⟨⟨trivial, trivial⟩, by decide, trivial, fun fd hfd _ => taken_one _ fd hfd⟩, rfl⟩,
      ⟨⟨⟨trivial, trivial⟩, trivial, trivial, trivial⟩, rfl⟩,
      ⟨⟨⟨trivial, trivial⟩, rfl, trivial, trivial⟩, rfl⟩,
      ⟨⟨⟨trivial, trivial⟩, rfl, trivial, trivial⟩, rfl⟩,
      ⟨⟨⟨trivial, trivial⟩, trivial, trivial, trivial⟩, rfl⟩, ⟨trivial, rfl⟩, ⟨trivial, rfl⟩,
      ⟨⟨⟨trivial, trivial⟩, by decide, trivial, fun fd hfd _ => taken_one _ fd hfd⟩, rfl⟩,
      ⟨⟨⟨trivial, trivial⟩, trivial, trivial, trivial⟩, rfl⟩,
      ⟨⟨⟨trivial, trivial⟩, by decide, trivial, recv_unread rfl rfl rfl (by decide)⟩, rfl⟩,
      ⟨⟨⟨trivial, trivial⟩, rfl, trivial, trivial⟩, rfl⟩,
      ⟨⟨⟨trivial, trivial⟩, trivial, trivial, trivial⟩, rfl⟩,
      ⟨⟨⟨trivial, trivial⟩, by decide, trivial, fun fd hfd _ => taken_one _ fd hfd⟩, rfl⟩,
      ⟨⟨⟨trivial, trivial⟩, trivial, trivial, trivial⟩, rfl⟩,
      ⟨⟨⟨trivial, rfl⟩, by decide, trivial, trivial⟩, rfl⟩,
      ⟨⟨⟨trivial, trivial⟩, rfl, trivial, trivial⟩, rfl⟩,
      ⟨⟨⟨trivial, trivial⟩, trivial, trivial, trivial⟩, rfl⟩, trivial⟩
  have hinit : (echoNetwork 3).init start := ⟨⟨⟨0, rfl⟩, rfl⟩, fun _ => rfl, rfl, rfl, rfl⟩
  have hx := (TransitionSystem.Reachable.initial hinit).reaches hrun.reaches
  exact ⟨_, hx, rfl, rfl, rfl, (@echoed_asleep 3 5 0 _ hx rfl rfl rfl rfl rfl).1⟩

end EchoNetwork
end MySvrKit
