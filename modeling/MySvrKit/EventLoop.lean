import MySvrKit.LogPaths
import MySvrKit.Transition
import Mathlib.Algebra.Group.Nat.Defs
import Mathlib.Logic.Function.Basic

/-! # The event loop

`mysvrkit/server.cpp`: `IOLoop` with `ServerHandler` and `EchoHandler`, from the
point where `ServerHandler::Init` has returned 0.  The server is a machine that
stops at each system call (`Pc`); the label of a step carries what the call
returns.  Between two calls the code runs as in the source.  Descriptors, the epoll
set and the sockets belong to the kernel, whose promises are `Kernel`. -/

namespace MySvrKit

abbrev Fd := Nat

abbrev Errno := Nat

/-- `EAGAIN`, and `EWOULDBLOCK`, which is the same number. -/
def eagain : Errno := 11

namespace MyErrorcode

def kNotSupportEpollEvent : Int := -1

def kSendZero : Int := -2

def kRecvZero : Int := -3

def kRecvErr : Int := -5

def kSendErr : Int := -6

end MyErrorcode

/-- The bits of `epoll_event::events`. -/
structure EpollEvents where
  epollIn : Bool
  epollOut : Bool
  epollErr : Bool
  epollHup : Bool
  epollEt : Bool
  deriving DecidableEq

namespace EpollEvents

/-- `EPOLLIN`. -/
def onlyIn : EpollEvents := ⟨true, false, false, false, false⟩

/-- `EPOLLIN | EPOLLET`. -/
def inEt : EpollEvents := ⟨true, false, false, false, true⟩

/-- `EPOLLOUT | EPOLLET`. -/
def outEt : EpollEvents := ⟨false, true, false, false, true⟩

/-- What epoll may report for a registration: its `EPOLLIN` and `EPOLLOUT` bits, and
`EPOLLERR` and `EPOLLHUP` in any case. -/
def Reports (mask events : EpollEvents) : Prop :=
  (events.epollIn = true → mask.epollIn = true) ∧ (events.epollOut = true → mask.epollOut = true)

instance (mask events : EpollEvents) : Decidable (mask.Reports events) :=
  inferInstanceAs (Decidable (_ ∧ _))

end EpollEvents

/-- `struct epoll_event`. -/
structure EpollEvent where
  fd : Fd
  events : EpollEvents

/-- The members of `EchoHandler`. -/
structure EchoHandler where
  hasReceived : Bool
  receivedData : List UInt8

/-- A `Handler *`: the `ServerHandler`, or an `EchoHandler` by the number of its
creation. -/
inductive Handler
  | server
  | echo (id : Nat)
  deriving DecidableEq

/-- What an open descriptor refers to: the listening socket, or the connection of
that number; connections are numbered as they are accepted. -/
inductive Socket
  | listen
  | client (id : Nat)
  deriving DecidableEq

/-- The `const char *` that `inet_ntoa` returns: always its one static buffer. -/
inductive InetNtoaPtr
  | staticBuffer

/-- Why `IOLoop::Start` has returned. -/
inductive StopReason
  | epollWaitErr
  | handlerNotExist
  deriving DecidableEq

/-- Where `Start` is: before a system call, or at the head of the loop over a batch
of events.  `rest` are the events of the batch still to handle; `ret` in a
`RemoveHandler` is the value its caller returns, or `none` where that is what
`RemoveHandler` returns. -/
inductive Pc
  | epollWait
  | event (rest : List EpollEvent)
  | accept4 (fd : Fd) (rest : List EpollEvent)
  | epollCtlAdd (fd clientFd : Fd) (rest : List EpollEvent)
  | recv (fd : Fd) (id : Nat) (rest : List EpollEvent)
  | send (fd : Fd) (id : Nat) (sentBufferLength : Nat) (rest : List EpollEvent)
  | epollCtlMod (fd : Fd) (events : EpollEvents) (rest : List EpollEvent)
  | epollCtlDel (fd : Fd) (ret : Option Int) (rest : List EpollEvent)
  | close (fd : Fd) (ret : Option Int) (rest : List EpollEvent)
  | stopped (reason : StopReason)

/-- What `accept4` fills in and returns. -/
structure Accepted where
  clientFd : Fd
  /-- The address as `inet_ntoa` writes it. -/
  clientAddr : Str
  clientPort : Nat

/-- A step: a system call with its result, `Start` taking up the next event, or a
library call between two steps (the logging) that leaves a new `errno`. -/
inductive SysCall
  | epollWait (result : Except Errno (List EpollEvent))
  | handle
  | accept4 (result : Except Errno Accepted)
  | epollCtl (result : Except Errno Unit)
  | recv (result : Except Errno (List UInt8))
  | send (result : Except Errno Nat)
  | close (result : Except Errno Unit)
  | library (errno : Errno)

/-- The server process, the kernel objects it uses, and a record of what each
connection has received and sent. -/
structure Server where
  pc : Pc
  errno : Errno
  /-- `IOLoop::handlers_`. -/
  handlers : Fd → Option Handler
  /-- The `EchoHandler` objects. -/
  echoHandlers : Nat → EchoHandler
  /-- How many of them have been created. -/
  created : Nat
  deleted : List Handler
  /-- `ServerHandler::fd_to_clientaddr_map_`. -/
  fdToClientaddrMap : Fd → Option (InetNtoaPtr × Nat)
  inetNtoaBuffer : Str
  sockets : Fd → Option Socket
  /-- The epoll set. -/
  registered : Fd → Option EpollEvents
  /-- What `recv` has returned on each connection, without its failures. -/
  chunks : Nat → List (List UInt8)
  /-- The bytes `send` has taken on each connection. -/
  sent : Nat → List UInt8

namespace Server

/-! ## `IOLoop` -/

/-- `Start` when `Handle` has returned. -/
def handled (s : Server) (fd : Fd) (ret : Int) (rest : List EpollEvent) : Server :=
  { s with
    handlers := if ret ≠ 0 then Function.update s.handlers fd none else s.handlers
    pc := .event rest }

/-- `Start` after `epoll_wait`. -/
def afterEpollWait (s : Server) : Except Errno (List EpollEvent) → Server
  | .error errno => { s with errno, pc := .stopped .epollWaitErr }
  | .ok events => { s with pc := .event events }

/-- `ModifyHandler` after `epoll_ctl`; its callers drop what it returns and return
0. -/
def afterModifyHandler (s : Server) (fd : Fd) (events : EpollEvents) (rest : List EpollEvent) :
    Except Errno Unit → Server
  | .error errno => handled { s with errno } fd 0 rest
  | .ok () =>
      handled { s with registered := Function.update s.registered fd (some events) } fd 0 rest

/-- `RemoveHandler` up to its first system call. -/
def removeHandler (s : Server) (fd : Fd) (ret : Option Int) (rest : List EpollEvent) : Server :=
  { s with pc := .epollCtlDel fd ret rest }

/-- `RemoveHandler` after `epoll_ctl`. -/
def afterEpollCtlDel (s : Server) (fd : Fd) (ret : Option Int) (rest : List EpollEvent) :
    Except Errno Unit → Server
  | .error errno => handled { s with errno } fd (ret.getD (-1)) rest
  | .ok () =>
      -- still open and still in `handlers_` until `close` has returned
      { s with registered := Function.update s.registered fd none, pc := .close fd ret rest }

/-- `RemoveHandler` after `close`.  A `close` that fails leaves the descriptor open: an
assumption on the kernel. -/
def afterClose (s : Server) (fd : Fd) (ret : Option Int) (rest : List EpollEvent) :
    Except Errno Unit → Server
  | .error errno => handled { s with errno } fd (ret.getD (-1)) rest
  | .ok () =>
      handled
        { s with
          sockets := Function.update s.sockets fd none
          registered := Function.update s.registered fd none
          handlers := Function.update s.handlers fd none
          deleted := s.deleted ++ (s.handlers fd).toList }
        fd (ret.getD 0) rest

/-- `AddHandler` after `epoll_ctl`; `ServerHandler::Handle` drops what it returns and
returns 0. -/
def afterAddHandler (s : Server) (fd clientFd : Fd) (rest : List EpollEvent) :
    Except Errno Unit → Server
  | .error errno => handled { s with errno } fd 0 rest
  | .ok () =>
      handled { s with registered := Function.update s.registered clientFd (some .inEt) } fd 0 rest

/-! ## `EchoHandler` -/

def setEcho (s : Server) (id : Nat) (handler : EchoHandler) : Server :=
  { s with echoHandlers := Function.update s.echoHandlers id handler }

def kOnceSendBufferSize : Nat := 10

def kOnceRecvBufferSize : Nat := 10

/-- `sent_buffer_length_thistime`, with its cast to 32 bits. -/
def sentBufferLengthThistime (length sentBufferLength : Nat) : Nat :=
  min ((length - sentBufferLength) % 2 ^ 32) kOnceSendBufferSize

/-- The loop of `SendData` from its test on, and what follows it. -/
def sendLoop (s : Server) (fd : Fd) (id : Nat) (sentBufferLength : Nat) (rest : List EpollEvent) :
    Server :=
  let handler := s.echoHandlers id
  if sentBufferLength < handler.receivedData.length then
    { s with pc := .send fd id sentBufferLength rest }
  else if sentBufferLength > handler.receivedData.length then
    s.removeHandler fd (some MyErrorcode.kSendErr) rest
  else
    { s.setEcho id { handler with hasReceived := false } with pc := .epollCtlMod fd .inEt rest }

/-- `SendData`. -/
def sendData (s : Server) (fd : Fd) (id : Nat) (rest : List EpollEvent) : Server :=
  if !(s.echoHandlers id).hasReceived then
    s.handled fd 0 rest
  else
    s.sendLoop fd id 0 rest

/-- The connection of an open descriptor gets a record of the bytes taken. -/
def recordSent (s : Server) (fd : Fd) (bytes : List UInt8) : Server :=
  { s with
    sent :=
      match s.sockets fd with
      | some (.client id) => Function.update s.sent id (s.sent id ++ bytes)
      | _ => s.sent }

/-- `SendData` after `send`: the position moves by what was offered, whatever was
taken. -/
def afterSend (s : Server) (fd : Fd) (id : Nat) (sentBufferLength : Nat)
    (rest : List EpollEvent) : Except Errno Nat → Server
  | .error errno => { s with errno }.removeHandler fd (some (-1)) rest
  | .ok 0 => s.removeHandler fd (some MyErrorcode.kSendZero) rest
  | .ok (ret + 1) =>
      let data := (s.echoHandlers id).receivedData
      let thistime := sentBufferLengthThistime data.length sentBufferLength
      -- a `uint32_t` sum
      (s.recordSent fd ((data.drop sentBufferLength).take (ret + 1))).sendLoop fd id
        ((sentBufferLength + thistime) % 2 ^ 32) rest

/-- `RecvData` up to its first `recv`. -/
def recvData (s : Server) (fd : Fd) (id : Nat) (rest : List EpollEvent) : Server :=
  { s.setEcho id ⟨true, []⟩ with pc := .recv fd id rest }

/-- The connection of an open descriptor gets a record of what `recv` returned. -/
def recordRecv (s : Server) (fd : Fd) (bytes : List UInt8) : Server :=
  { s with
    chunks :=
      match s.sockets fd with
      | some (.client id) => Function.update s.chunks id (s.chunks id ++ [bytes])
      | _ => s.chunks }

/-- `RecvData` after `recv`. -/
def afterRecv (s : Server) (fd : Fd) (id : Nat) (rest : List EpollEvent) :
    Except Errno (List UInt8) → Server
  | .ok [] => (s.recordRecv fd []).removeHandler fd (some MyErrorcode.kRecvZero) rest
  | .ok (b :: bs) =>
      let handler := s.echoHandlers id
      let s := (s.recordRecv fd (b :: bs)).setEcho id
        { handler with receivedData := handler.receivedData ++ (b :: bs) }
      if (b :: bs).length < kOnceRecvBufferSize then
        { s with pc := .epollCtlMod fd .outEt rest }
      else
        { s with pc := .recv fd id rest }
  | .error errno =>
      -- `continue`: the next call is `recv` again
      if errno = eagain then { s with errno }
      else { s with errno }.removeHandler fd (some MyErrorcode.kRecvErr) rest

/-- `EchoHandler::Handle`. -/
def echoHandle (s : Server) (id : Nat) (event : EpollEvent) (rest : List EpollEvent) : Server :=
  -- `errno` is what the last failing call has left, of whatever descriptor
  if event.events.epollIn && event.events.epollErr && s.errno ≠ 0 then
    s.removeHandler event.fd none rest
  else if event.events.epollIn then
    s.recvData event.fd id rest
  else if event.events.epollOut && event.events.epollErr && s.errno ≠ 0 then
    s.removeHandler event.fd none rest
  else if event.events.epollOut then
    s.sendData event.fd id rest
  else
    s.handled event.fd MyErrorcode.kNotSupportEpollEvent rest

/-! ## `ServerHandler` -/

/-- `ServerHandler::Handle` after `accept4`, up to the `epoll_ctl` of
`AddHandler`. -/
def afterAccept4 (s : Server) (fd : Fd) (rest : List EpollEvent) :
    Except Errno Accepted → Server
  | .error errno => handled { s with errno } fd (-1) rest
  | .ok accepted =>
      { s with
        sockets := Function.update s.sockets accepted.clientFd (some (.client s.created))
        inetNtoaBuffer := accepted.clientAddr
        fdToClientaddrMap := Function.update s.fdToClientaddrMap accepted.clientFd
          (some (.staticBuffer, accepted.clientPort))
        echoHandlers := Function.update s.echoHandlers s.created ⟨false, []⟩
        created := s.created + 1
        -- `AddHandler` stores the handler before it calls `epoll_ctl`
        handlers := Function.update s.handlers accepted.clientFd (some (.echo s.created))
        pc := .epollCtlAdd fd accepted.clientFd rest }

/-! ## `IOLoop::Start` -/

/-- `Start` at the head of its loop over the events of a batch. -/
def nextEvent (s : Server) : List EpollEvent → Server
  | [] => { s with pc := .epollWait }
  | event :: rest =>
      match s.handlers event.fd with
      | none => { s with pc := .stopped .handlerNotExist }
      | some .server => { s with pc := .accept4 event.fd rest }
      | some (.echo id) => s.echoHandle id event rest

/-- One step. -/
def next (s : Server) : SysCall → Option Server
  | .epollWait result =>
      match s.pc with
      | .epollWait => some (s.afterEpollWait result)
      | _ => none
  | .handle =>
      match s.pc with
      | .event rest => some (s.nextEvent rest)
      | _ => none
  | .accept4 result =>
      match s.pc with
      | .accept4 fd rest => some (s.afterAccept4 fd rest result)
      | _ => none
  | .epollCtl result =>
      match s.pc with
      | .epollCtlAdd fd clientFd rest => some (s.afterAddHandler fd clientFd rest result)
      | .epollCtlMod fd events rest => some (s.afterModifyHandler fd events rest result)
      | .epollCtlDel fd ret rest => some (s.afterEpollCtlDel fd ret rest result)
      | _ => none
  | .recv result =>
      match s.pc with
      | .recv fd id rest => some (s.afterRecv fd id rest result)
      | _ => none
  | .send result =>
      match s.pc with
      | .send fd id sentBufferLength rest => some (s.afterSend fd id sentBufferLength rest result)
      | _ => none
  | .close result =>
      match s.pc with
      | .close fd ret rest => some (s.afterClose fd ret rest result)
      | _ => none
  | .library errno => some { s with errno }

/-! ## The kernel -/

/-- `MAX_EVENTS` in `Start`. -/
def maxEvents : Nat := 10000

/-- The bytes the server is offering to `send`. -/
def offered (s : Server) : Nat :=
  match s.pc with
  | .send _ id sentBufferLength _ =>
      sentBufferLengthThistime (s.echoHandlers id).receivedData.length sentBufferLength
  | _ => 0

/-- What the kernel promises of a call's result.  A failure may come at any time. -/
def Kernel (s : Server) : SysCall → Prop
  | .epollWait (.ok events) =>
      events.length ≤ maxEvents ∧ (events.map EpollEvent.fd).Nodup ∧
        ∀ e ∈ events, ∃ mask, s.registered e.fd = some mask ∧ mask.Reports e.events
  | .accept4 (.ok accepted) => s.sockets accepted.clientFd = none
  | .epollCtl (.ok ()) =>
      match s.pc with
      | .epollCtlAdd _ clientFd _ => s.registered clientFd = none
      | .epollCtlMod fd _ _ | .epollCtlDel fd _ _ => (s.registered fd).isSome = true
      | _ => True
  | .recv (.ok bytes) => bytes.length ≤ kOnceRecvBufferSize
  | .send (.ok ret) => ret ≤ s.offered
  | _ => True

instance (s : Server) (e : EpollEvent) :
    Decidable (∃ mask, s.registered e.fd = some mask ∧ mask.Reports e.events) :=
  match s.registered e.fd with
  | none => isFalse fun ⟨_, hmask, _⟩ => nomatch hmask
  | some mask => decidable_of_iff (mask.Reports e.events)
      ⟨fun hr => ⟨mask, rfl, hr⟩, fun ⟨_, hm, hr⟩ => Option.some.inj hm ▸ hr⟩

instance (s : Server) : (c : SysCall) → Decidable (s.Kernel c)
  | .epollWait (.ok _) => inferInstanceAs (Decidable (_ ∧ _ ∧ _))
  | .accept4 (.ok accepted) => inferInstanceAs (Decidable (s.sockets accepted.clientFd = none))
  | .epollCtl (.ok ()) => by
      unfold Kernel
      exact match s.pc with
        | .epollCtlAdd _ clientFd _ => inferInstanceAs (Decidable (s.registered clientFd = none))
        | .epollCtlMod fd _ _ | .epollCtlDel fd _ _ =>
            inferInstanceAs (Decidable ((s.registered fd).isSome = true))
        | .epollWait | .event _ | .accept4 _ _ | .recv _ _ _ | .send _ _ _ _ | .close _ _ _
        | .stopped _ => isTrue trivial
  | .recv (.ok _) | .send (.ok _) => inferInstanceAs (Decidable (_ ≤ _))
  | .epollWait (.error _) | .handle | .accept4 (.error _) | .epollCtl (.error _)
  | .recv (.error _) | .send (.error _) | .close _ | .library _ => isTrue trivial

/-- The server when `ServerHandler::Init` has returned 0. -/
def initial (listenFd : Fd) (errno : Errno) : Server where
  pc := .epollWait
  errno := errno
  handlers := Function.update (fun _ => none) listenFd (some .server)
  echoHandlers := fun _ => ⟨false, []⟩
  created := 0
  deleted := []
  fdToClientaddrMap := fun _ => none
  inetNtoaBuffer := []
  sockets := Function.update (fun _ => none) listenFd (some .listen)
  registered := Function.update (fun _ => none) listenFd (some .onlyIn)
  chunks := fun _ => []
  sent := fun _ => []

/-- The runs of the server. -/
def runs (listenFd : Fd) : TransitionSystem Server SysCall where
  init s := ∃ errno, s = initial listenFd errno
  step s c t := s.Kernel c ∧ s.next c = some t

/-- One step, if the kernel and `allows` allow it. -/
def checked (allows : Server → SysCall → Prop) [∀ s c, Decidable (allows s c)] (s : Server)
    (c : SysCall) : Option Server :=
  if allows s c ∧ s.Kernel c then s.next c else none

theorem reachable_exec {allows : Server → SysCall → Prop} [∀ s c, Decidable (allows s c)]
    {listenFd : Fd} {errno : Errno} {calls : List SysCall} {t : Server}
    (h : TransitionSystem.exec (checked allows) (initial listenFd errno) calls = some t) :
    ((runs listenFd).restrict allows).Reachable t := by
  refine TransitionSystem.Reachable.exec ?_ (.initial ⟨errno, rfl⟩) h
  intro s c t hc
  unfold checked at hc
  split at hc
  · rename_i hallowed
    exact ⟨hallowed.1, hallowed.2, hc⟩
  · cases hc

end Server
end MySvrKit
