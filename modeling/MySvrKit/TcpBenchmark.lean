import MySvrKit.EventLoop
import MySvrKit.StepCounts

/-! # The benchmark client

`benchmark/tcp_benchmark.cpp`: `start_conn` makes the connections, and `main` writes one
request on each, reads once and closes it, until `num_of_succ_conn` is 0.  The count goes
down only where `close_conn` has succeeded, and not at all for an `EPOLLHUP` that comes
alone. -/

namespace MySvrKit

/-- Where the client is: in `start_conn` at its `i`-th connection, before `epoll_wait`, at
the head of the loop over a batch, or before a system call of an event.  `counted` is
whether the caller of `close_conn` counts the connection down. -/
inductive BenchmarkPc
  | socket (i : Nat)
  | connect (i : Nat) (fd : Fd)
  | addFd (i : Nat) (fd : Fd)
  | closeUnadded (i : Nat) (fd : Fd)
  | epollWait
  | event (rest : List EpollEvent)
  | recv (fd : Fd) (rest : List EpollEvent)
  | send (fd : Fd) (buffer : List UInt8) (rest : List EpollEvent)
  | epollCtlMod (fd : Fd) (rest : List EpollEvent)
  | epollCtlDel (fd : Fd) (counted : Bool) (rest : List EpollEvent)
  | close (fd : Fd) (counted : Bool) (rest : List EpollEvent)
  | returned

namespace BenchmarkPc

/-- Which connection `start_conn` is at. -/
def index : BenchmarkPc → Option Nat
  | .socket i | .connect i _ | .addFd i _ | .closeUnadded i _ => some i
  | _ => none

/-- The socket that is open and not, or no longer, registered. -/
def loose : BenchmarkPc → Option Fd
  | .connect _ fd | .addFd _ fd | .closeUnadded _ fd | .close fd _ _ => some fd
  | _ => none

/-- The connection that the call is about. -/
def current : BenchmarkPc → Option Fd
  | .recv fd _ | .send fd _ _ | .epollCtlMod fd _ | .epollCtlDel fd _ _ | .close fd _ _ => some fd
  | _ => none

/-- The events of the batch still to handle. -/
def rest : BenchmarkPc → List EpollEvent
  | .event rest | .recv _ rest | .send _ _ rest | .epollCtlMod _ rest | .epollCtlDel _ _ rest
  | .close _ _ rest => rest
  | _ => []

/-- Whether a deregistered connection is still to be counted down. -/
def owed : BenchmarkPc → Nat
  | .close _ counted _ => counted.toNat
  | _ => 0

end BenchmarkPc

/-- A system call with its result, or the next event of the batch. -/
inductive BenchmarkCall
  | socket (result : Except Errno Fd)
  | connect (result : Except Errno Unit)
  | epollCtl (result : Except Errno Unit)
  | close (result : Except Errno Unit)
  | epollWait (result : Except Errno (List EpollEvent))
  | handle
  | recv (result : Except Errno (List UInt8))
  | send (result : Except Errno Nat)

/-- The client and the kernel objects it uses, and what it has sent. -/
structure TcpBenchmark where
  pc : BenchmarkPc
  numOfSuccConn : Nat
  opened : Fd → Bool
  /-- Its epoll set. -/
  registered : Fd → Option EpollEvents
  /-- The bytes `send` has taken on each descriptor. -/
  sent : Fd → List UInt8

namespace TcpBenchmark

/-- `request`. -/
def request : List UInt8 := [112]

/-- What `add_fd` registers for. -/
def outEvents : EpollEvents := ⟨false, true, true, true, true⟩

/-- And what `main` does once the request is written. -/
def inEvents : EpollEvents := ⟨true, false, true, true, true⟩

/-- The head of the loop of `main`. -/
def whileConn (b : TcpBenchmark) : TcpBenchmark :=
  { b with pc := if b.numOfSuccConn > 0 then .epollWait else .returned }

/-- The head of the loop of `start_conn`. -/
def startConn (b : TcpBenchmark) (num i : Nat) : TcpBenchmark :=
  if i < num then { b with pc := .socket i } else b.whileConn

/-- `add_fd` has returned; both sums are of a `uint32_t`. -/
def afterAddFd (b : TcpBenchmark) (num i : Nat) (fd : Fd) : Except Errno Unit → TcpBenchmark
  | .error _ => { b with pc := .closeUnadded i fd }
  | .ok () =>
      { b with
        registered := Function.update b.registered fd (some outEvents)
        numOfSuccConn := (b.numOfSuccConn + 1) % 2 ^ 32 }.startConn num (i + 1)

/-- `close_conn` up to its first call. -/
def closeConn (b : TcpBenchmark) (fd : Fd) (counted : Bool) (rest : List EpollEvent) :
    TcpBenchmark :=
  { b with pc := .epollCtlDel fd counted rest }

def afterEpollCtlDel (b : TcpBenchmark) (fd : Fd) (counted : Bool) (rest : List EpollEvent) :
    Except Errno Unit → TcpBenchmark
  | .error _ => { b with pc := .event rest }
  | .ok () =>
      { b with
        registered := Function.update b.registered fd none
        pc := .close fd counted rest }

/-- `num_of_succ_conn -= close_conn(epoll_fd, sockfd) >= 0 ? 1 : 0`, or `close_conn` alone.
As in the server, a `close` that fails leaves the descriptor open. -/
def afterClose (b : TcpBenchmark) (fd : Fd) (counted : Bool) (rest : List EpollEvent) :
    Except Errno Unit → TcpBenchmark
  | .error _ => { b with pc := .event rest }
  | .ok () =>
      { b with
        opened := Function.update b.opened fd false
        numOfSuccConn :=
          if counted then (b.numOfSuccConn + (2 ^ 32 - 1)) % 2 ^ 32 else b.numOfSuccConn
        pc := .event rest }

/-- `write_nbytes` after `send`. -/
def afterSend (b : TcpBenchmark) (fd : Fd) (buffer : List UInt8) (rest : List EpollEvent) :
    Except Errno Nat → TcpBenchmark
  | .error _ | .ok 0 => b.closeConn fd true rest
  | .ok (n + 1) =>
      let b := { b with sent := Function.update b.sent fd (b.sent fd ++ buffer.take (n + 1)) }
      -- `len` is what is left of the buffer
      if (buffer.drop (n + 1)).isEmpty then { b with pc := .epollCtlMod fd rest }
      else { b with pc := .send fd (buffer.drop (n + 1)) rest }

/-- An event of the batch, or the end of it. -/
def nextEvent (b : TcpBenchmark) : List EpollEvent → TcpBenchmark
  | [] => b.whileConn
  | event :: rest =>
      if event.events.epollIn then { b with pc := .recv event.fd rest }
      else if event.events.epollOut then { b with pc := .send event.fd request rest }
      else if event.events.epollHup then b.closeConn event.fd false rest
      else { b with pc := .event rest }

/-- One step; `num` is the third argument of `main`. -/
def next (num : Nat) (b : TcpBenchmark) : BenchmarkCall → Option TcpBenchmark
  | .socket result =>
      match b.pc with
      | .socket i => some <|
          match result with
          | .error _ => b.startConn num (i + 1)
          | .ok fd => { b with opened := Function.update b.opened fd true, pc := .connect i fd }
      | _ => none
  | .connect result =>
      match b.pc with
      | .connect i fd => some <|
          match result with
          -- the socket stays open
          | .error _ => b.startConn num (i + 1)
          | .ok () => { b with pc := .addFd i fd }
      | _ => none
  | .epollCtl result =>
      match b.pc with
      | .addFd i fd => some (b.afterAddFd num i fd result)
      | .epollCtlMod fd rest => some <|
          match result with
          | .error _ => { b with pc := .event rest }
          | .ok () =>
              { b with
                registered := Function.update b.registered fd (some inEvents)
                pc := .event rest }
      | .epollCtlDel fd counted rest => some (b.afterEpollCtlDel fd counted rest result)
      | _ => none
  | .close result =>
      match b.pc with
      | .closeUnadded i fd => some <|
          match result with
          | .error _ => b.startConn num (i + 1)
          | .ok () => { b with opened := Function.update b.opened fd false }.startConn num (i + 1)
      | .close fd counted rest => some (b.afterClose fd counted rest result)
      | _ => none
  | .epollWait result =>
      match b.pc with
      | .epollWait => some <|
          match result with
          -- -1 is no number of events
          | .error _ => { b with pc := .event [] }
          | .ok events => { b with pc := .event events }
      | _ => none
  | .handle =>
      match b.pc with
      | .event rest => some (b.nextEvent rest)
      | _ => none
  | .recv _ =>
      match b.pc with
      -- both branches close the connection and count it down
      | .recv fd rest => some (b.closeConn fd true rest)
      | _ => none
  | .send result =>
      match b.pc with
      | .send fd buffer rest => some (b.afterSend fd buffer rest result)
      | _ => none

/-- What the kernel promises of a call's result. -/
def Kernel (b : TcpBenchmark) : BenchmarkCall → Prop
  | .socket (.ok fd) => b.opened fd = false
  | .epollCtl (.ok ()) =>
      match b.pc with
      | .addFd _ fd => b.registered fd = none
      | .epollCtlMod fd _ | .epollCtlDel fd _ _ => (b.registered fd).isSome = true
      | _ => True
  | .epollWait (.ok events) =>
      events.length ≤ 10000 ∧ (events.map EpollEvent.fd).Nodup ∧
        ∀ e ∈ events, ∃ mask, b.registered e.fd = some mask ∧ mask.Reports e.events
  | .recv (.ok bytes) => bytes.length ≤ 2048
  | .send (.ok n) => ∀ fd buffer rest, b.pc = .send fd buffer rest → n ≤ buffer.length
  | _ => True

/-- Before `start_conn`. -/
def initial : TcpBenchmark := ⟨.socket 0, 0, fun _ => false, fun _ => none, fun _ => []⟩

/-- The runs of the client, for `num` connections. -/
def runs (num : Nat) : TransitionSystem TcpBenchmark BenchmarkCall where
  init b := b = initial.startConn num 0
  step b call b' := b.Kernel call ∧ b.next num call = some b'

variable {num : Nat} {b b' : TcpBenchmark} {call : BenchmarkCall}

/-- `epoll_wait` may report what one connection is registered for. -/
theorem kernel_epollWait_one {fd : Fd} {mask events : EpollEvents}
    (hmask : b.registered fd = some mask) (hreports : mask.Reports events) :
    b.Kernel (.epollWait (.ok [⟨fd, events⟩])) := by
  refine ⟨Nat.le_of_ble_eq_true rfl, List.nodup_singleton fd, fun e he => ?_⟩
  rw [List.mem_singleton.mp he]
  exact ⟨mask, hmask, hreports⟩

/-- And `send` take no more than it is offered. -/
theorem kernel_send {fd n : Nat} {buffer : List UInt8} {rest : List EpollEvent}
    (hpc : b.pc = .send fd buffer rest) (hn : n ≤ buffer.length) : b.Kernel (.send (.ok n)) := by
  intro fd' buffer' rest' h
  obtain ⟨-, rfl, -⟩ := BenchmarkPc.send.inj (hpc.symm.trans h)
  exact hn

/-- The steps of the client, by branches of the source. -/
inductive Step (num : Nat) (b : TcpBenchmark) : BenchmarkCall → TcpBenchmark → Prop
  | socketErr {errno i} (hpc : b.pc = .socket i) :
      Step num b (.socket (.error errno)) (b.startConn num (i + 1))
  | socket {fd i} (hpc : b.pc = .socket i) :
      Step num b (.socket (.ok fd))
        { b with opened := Function.update b.opened fd true, pc := .connect i fd }
  | connectErr {errno i fd} (hpc : b.pc = .connect i fd) :
      Step num b (.connect (.error errno)) (b.startConn num (i + 1))
  | connect {i fd} (hpc : b.pc = .connect i fd) :
      Step num b (.connect (.ok ())) { b with pc := .addFd i fd }
  | addErr {errno i fd} (hpc : b.pc = .addFd i fd) :
      Step num b (.epollCtl (.error errno)) { b with pc := .closeUnadded i fd }
  | add {i fd} (hpc : b.pc = .addFd i fd) :
      Step num b (.epollCtl (.ok ())) (b.afterAddFd num i fd (.ok ()))
  | closeUnaddedErr {errno i fd} (hpc : b.pc = .closeUnadded i fd) :
      Step num b (.close (.error errno)) (b.startConn num (i + 1))
  | closeUnadded {i fd} (hpc : b.pc = .closeUnadded i fd) :
      Step num b (.close (.ok ()))
        ({ b with opened := Function.update b.opened fd false }.startConn num (i + 1))
  | epollWaitErr {errno} (hpc : b.pc = .epollWait) :
      Step num b (.epollWait (.error errno)) { b with pc := .event [] }
  | epollWait {events} (hpc : b.pc = .epollWait) :
      Step num b (.epollWait (.ok events)) { b with pc := .event events }
  | batchDone (hpc : b.pc = .event []) : Step num b .handle b.whileConn
  | readable {event rest} (hpc : b.pc = .event (event :: rest))
      (hin : event.events.epollIn = true) :
      Step num b .handle { b with pc := .recv event.fd rest }
  | writable {event rest} (hpc : b.pc = .event (event :: rest))
      (hout : event.events.epollOut = true) :
      Step num b .handle { b with pc := .send event.fd request rest }
  | hangUp {event rest} (hpc : b.pc = .event (event :: rest))
      (hhup : event.events.epollHup = true) :
      Step num b .handle (b.closeConn event.fd false rest)
  | otherEvent {event rest} (hpc : b.pc = .event (event :: rest)) :
      Step num b .handle { b with pc := .event rest }
  | recv {result fd rest} (hpc : b.pc = .recv fd rest) :
      Step num b (.recv result) (b.closeConn fd true rest)
  | sendErr {errno fd buffer rest} (hpc : b.pc = .send fd buffer rest) :
      Step num b (.send (.error errno)) (b.closeConn fd true rest)
  | sendZero {fd buffer rest} (hpc : b.pc = .send fd buffer rest) :
      Step num b (.send (.ok 0)) (b.closeConn fd true rest)
  | sendDone {n fd buffer rest} (hpc : b.pc = .send fd buffer rest)
      (hall : buffer.drop (n + 1) = []) :
      Step num b (.send (.ok (n + 1)))
        { b with
          sent := Function.update b.sent fd (b.sent fd ++ buffer.take (n + 1))
          pc := .epollCtlMod fd rest }
  | sendMore {n fd buffer rest} (hpc : b.pc = .send fd buffer rest) :
      Step num b (.send (.ok (n + 1)))
        { b with
          sent := Function.update b.sent fd (b.sent fd ++ buffer.take (n + 1))
          pc := .send fd (buffer.drop (n + 1)) rest }
  | modifyErr {errno fd rest} (hpc : b.pc = .epollCtlMod fd rest) :
      Step num b (.epollCtl (.error errno)) { b with pc := .event rest }
  | modify {fd rest} (hpc : b.pc = .epollCtlMod fd rest) :
      Step num b (.epollCtl (.ok ()))
        { b with registered := Function.update b.registered fd (some inEvents), pc := .event rest }
  | delErr {errno fd counted rest} (hpc : b.pc = .epollCtlDel fd counted rest) :
      Step num b (.epollCtl (.error errno)) { b with pc := .event rest }
  | del {fd counted rest} (hpc : b.pc = .epollCtlDel fd counted rest) :
      Step num b (.epollCtl (.ok ())) (b.afterEpollCtlDel fd counted rest (.ok ()))
  | closeErr {errno fd counted rest} (hpc : b.pc = .close fd counted rest) :
      Step num b (.close (.error errno)) { b with pc := .event rest }
  | close {fd counted rest} (hpc : b.pc = .close fd counted rest) :
      Step num b (.close (.ok ())) (b.afterClose fd counted rest (.ok ()))

theorem step_of_next (h : b.next num call = some b') : b.Step num call b' := by
  cases call with
  | socket result =>
    simp only [next] at h
    split at h
    · rename_i hpc
      obtain rfl := Option.some.inj h
      cases result with
      | error errno => exact .socketErr hpc
      | ok fd => exact .socket hpc
    · cases h
  | connect result =>
    simp only [next] at h
    split at h
    · rename_i hpc
      obtain rfl := Option.some.inj h
      cases result with
      | error errno => exact .connectErr hpc
      | ok u => exact .connect hpc
    · cases h
  | epollCtl result =>
    simp only [next] at h
    split at h
    · rename_i hpc
      obtain rfl := Option.some.inj h
      cases result with
      | error errno => exact .addErr hpc
      | ok u => exact .add hpc
    · rename_i hpc
      obtain rfl := Option.some.inj h
      cases result with
      | error errno => exact .modifyErr hpc
      | ok u => exact .modify hpc
    · rename_i hpc
      obtain rfl := Option.some.inj h
      cases result with
      | error errno => exact .delErr hpc
      | ok u => exact .del hpc
    · cases h
  | close result =>
    simp only [next] at h
    split at h
    · rename_i hpc
      obtain rfl := Option.some.inj h
      cases result with
      | error errno => exact .closeUnaddedErr hpc
      | ok u => exact .closeUnadded hpc
    · rename_i hpc
      obtain rfl := Option.some.inj h
      cases result with
      | error errno => exact .closeErr hpc
      | ok u => exact .close hpc
    · cases h
  | epollWait result =>
    simp only [next] at h
    split at h
    · rename_i hpc
      obtain rfl := Option.some.inj h
      cases result with
      | error errno => exact .epollWaitErr hpc
      | ok events => exact .epollWait hpc
    · cases h
  | handle =>
    simp only [next] at h
    split at h
    · rename_i rest hpc
      obtain rfl := Option.some.inj h
      cases rest with
      | nil => exact .batchDone hpc
      | cons event rest =>
        simp only [nextEvent]
        split
        · rename_i hin
          exact .readable hpc hin
        · split
          · rename_i hout
            exact .writable hpc hout
          · split
            · rename_i hhup
              exact .hangUp hpc hhup
            · exact .otherEvent hpc
    · cases h
  | recv result =>
    simp only [next] at h
    split at h
    · rename_i hpc
      obtain rfl := Option.some.inj h
      exact .recv hpc
    · cases h
  | send result =>
    simp only [next] at h
    split at h
    · rename_i hpc
      obtain rfl := Option.some.inj h
      rcases result with errno | _ | n
      · exact .sendErr hpc
      · exact .sendZero hpc
      · simp only [afterSend]
        split
        · rename_i hall
          exact .sendDone hpc (List.isEmpty_iff.mp hall)
        · exact .sendMore hpc
    · cases h

/-! ## What is open, what is registered and what is counted -/

/-- The members of the epoll set. -/
def conns (b : TcpBenchmark) : Set Fd := {fd | (b.registered fd).isSome = true}

/-- The open sockets. -/
def opens (b : TcpBenchmark) : Set Fd := {fd | b.opened fd = true}

/-- What holds of the client between any two calls. -/
structure Sound (num : Nat) (b : TcpBenchmark) : Prop where
  finite : b.conns.Finite
  /-- What is registered, and what is about to be counted down, has been counted. -/
  held : b.conns.ncard + b.pc.owed ≤ b.numOfSuccConn
  bound : b.numOfSuccConn ≤ num
  index : ∀ i, b.pc.index = some i → b.numOfSuccConn ≤ i ∧ i < num
  opened : ∀ fd, fd ∈ b.conns → fd ∈ b.opens
  loose : ∀ fd, b.pc.loose = some fd → fd ∈ b.opens ∧ fd ∉ b.conns
  returned : b.pc = .returned → b.numOfSuccConn = 0

theorem conns_register {fd : Fd} {mask : EpollEvents}
    (h : b'.registered = Function.update b.registered fd (some mask)) :
    b'.conns = insert fd b.conns := by
  ext fd'
  simp only [conns, h, Set.mem_insert_iff, Set.mem_ofPred_eq]
  by_cases he : fd' = fd
  · simp [he]
  · simp [he]

theorem conns_unregister {fd : Fd} (h : b'.registered = Function.update b.registered fd none) :
    b'.conns = b.conns \ {fd} := by
  ext fd'
  simp only [conns, h, Set.mem_sdiff, Set.mem_singleton_iff, Set.mem_ofPred_eq]
  by_cases he : fd' = fd
  · simp [he]
  · simp [he]

theorem opens_open {fd : Fd} (h : b'.opened = Function.update b.opened fd true) :
    b'.opens = insert fd b.opens := by
  ext fd'
  simp only [opens, h, Set.mem_insert_iff, Set.mem_ofPred_eq]
  by_cases he : fd' = fd
  · simp [he]
  · simp [he]

theorem opens_close {fd : Fd} (h : b'.opened = Function.update b.opened fd false) :
    b'.opens = b.opens \ {fd} := by
  ext fd'
  simp only [opens, h, Set.mem_sdiff, Set.mem_singleton_iff, Set.mem_ofPred_eq]
  by_cases he : fd' = fd
  · simp [he]
  · simp [he]

/-- `startConn` moves only the place. -/
theorem startConn_eq (b : TcpBenchmark) (num i : Nat) :
    (i < num ∧ b.startConn num i = { b with pc := .socket i }) ∨
      (num ≤ i ∧ b.startConn num i = b.whileConn) := by
  by_cases hi : i < num
  · exact Or.inl ⟨hi, if_pos hi⟩
  · exact Or.inr ⟨Nat.le_of_not_lt hi, if_neg hi⟩

/-- And `whileConn`: the loop of `main` ends where nothing is counted. -/
theorem whileConn_eq (b : TcpBenchmark) :
    (0 < b.numOfSuccConn ∧ b.whileConn = { b with pc := .epollWait }) ∨
      (b.numOfSuccConn = 0 ∧ b.whileConn = { b with pc := .returned }) := by
  by_cases hn : 0 < b.numOfSuccConn
  · exact Or.inl ⟨hn, by rw [whileConn, if_pos hn]⟩
  · exact Or.inr ⟨Nat.eq_zero_of_not_pos hn, by rw [whileConn, if_neg hn]⟩

/-- What holds of the client wherever no connection is owed. -/
structure Settled (num : Nat) (b : TcpBenchmark) : Prop where
  finite : b.conns.Finite
  held : b.conns.ncard ≤ b.numOfSuccConn
  bound : b.numOfSuccConn ≤ num
  opened : ∀ fd, fd ∈ b.conns → fd ∈ b.opens

theorem Sound.settled (hb : b.Sound num) : b.Settled num :=
  ⟨hb.finite, Nat.le_of_add_right_le hb.held, hb.bound, hb.opened⟩

/-- A place of the loop of `main`. -/
theorem Settled.idle (hb : b.Settled num) {pc : BenchmarkPc} (howed : pc.owed = 0)
    (hindex : pc.index = none) (hloose : pc.loose = none) (hpc : pc ≠ .returned) :
    { b with pc }.Sound num where
  finite := hb.finite
  held := by
    rw [howed]
    exact hb.held
  bound := hb.bound
  index i h := by
    rw [hindex] at h
    cases h
  opened := hb.opened
  loose fd h := by
    rw [hloose] at h
    cases h
  returned h := absurd h hpc

/-- A place of `start_conn` that has a socket in hand. -/
theorem Settled.setup (hb : b.Settled num) {pc : BenchmarkPc} {i : Nat} {fd : Fd}
    (howed : pc.owed = 0) (hindex : pc.index = some i) (hloose : pc.loose = some fd)
    (hi : b.numOfSuccConn ≤ i ∧ i < num) (hfd : fd ∈ b.opens ∧ fd ∉ b.conns) :
    { b with pc }.Sound num where
  finite := hb.finite
  held := by
    rw [howed]
    exact hb.held
  bound := hb.bound
  index j h := by
    obtain rfl := Option.some.inj (hindex.symm.trans h)
    exact hi
  opened := hb.opened
  loose fd' h := by
    obtain rfl := Option.some.inj (hloose.symm.trans h)
    exact hfd
  returned h := by
    rw [show pc = .returned from h] at hindex
    cases hindex

theorem Settled.whileConn (hb : b.Settled num) : b.whileConn.Sound num := by
  rcases b.whileConn_eq with ⟨-, he⟩ | ⟨hzero, he⟩
  · rw [he]
    exact hb.idle rfl rfl rfl (by intro h; cases h)
  · rw [he]
    exact ⟨hb.finite, hb.held, hb.bound, (by intro i h; cases h), hb.opened,
      (by intro fd h; cases h), fun _ => hzero⟩

theorem Settled.startConn (hb : b.Settled num) {i : Nat} (hi : b.numOfSuccConn ≤ i) :
    (b.startConn num i).Sound num := by
  rcases b.startConn_eq num i with ⟨hlt, he⟩ | ⟨-, he⟩
  · rw [he]
    refine ⟨hb.finite, hb.held, hb.bound, ?_, hb.opened, (by intro fd h; cases h),
      (by intro h; cases h)⟩
    intro j h
    obtain rfl := Option.some.inj h
    exact ⟨hi, hlt⟩
  · rw [he]
    exact hb.whileConn

/-- A socket opened. -/
theorem Settled.open (hb : b.Settled num) (fd : Fd) :
    { b with opened := Function.update b.opened fd true }.Settled num where
  finite := hb.finite
  held := hb.held
  bound := hb.bound
  opened fd' hfd := by
    rw [opens_open rfl]
    exact Set.mem_insert_of_mem fd (hb.opened fd' hfd)

/-- A socket closed that is not registered. -/
theorem Settled.close (hb : b.Settled num) {fd : Fd} (hfd : fd ∉ b.conns) :
    { b with opened := Function.update b.opened fd false }.Settled num where
  finite := hb.finite
  held := hb.held
  bound := hb.bound
  opened fd' hfd' := by
    rw [opens_close rfl]
    exact ⟨hb.opened fd' hfd', fun he => hfd (he ▸ hfd')⟩

/-- A socket registered, and counted. -/
theorem Settled.register (hb : b.Settled num) {fd : Fd} (mask : EpollEvents)
    (hopen : fd ∈ b.opens) (hlt : b.numOfSuccConn < num) :
    { b with
      registered := Function.update b.registered fd (some mask)
      numOfSuccConn := b.numOfSuccConn + 1 }.Settled num where
  finite := by
    rw [conns_register rfl]
    exact hb.finite.insert fd
  held := by
    rw [conns_register rfl]
    exact (Set.ncard_insert_le fd b.conns).trans (Nat.add_le_add_right hb.held 1)
  bound := hlt
  opened fd' hfd := by
    rw [conns_register rfl] at hfd
    rcases hfd with rfl | hfd
    · exact hopen
    · exact hb.opened fd' hfd

/-- Bytes sent. -/
theorem Settled.send (hb : b.Settled num) (sent : Fd → List UInt8) :
    { b with sent }.Settled num :=
  ⟨hb.finite, hb.held, hb.bound, hb.opened⟩

/-- A registration modified. -/
theorem Settled.modify (hb : b.Settled num) {fd : Fd} (mask : EpollEvents) (hfd : fd ∈ b.conns) :
    { b with registered := Function.update b.registered fd (some mask) }.Settled num := by
  have hsame : { b with registered := Function.update b.registered fd (some mask) }.conns =
      b.conns := by
    rw [conns_register rfl]
    exact Set.insert_eq_of_mem hfd
  refine ⟨?_, ?_, hb.bound, ?_⟩
  · rw [hsame]
    exact hb.finite
  · rw [hsame]
    exact hb.held
  · rw [hsame]
    exact hb.opened

theorem Sound.step (hb : b.Sound num) (hnum : num < 2 ^ 32) (hk : b.Kernel call)
    (h : b.Step num call b') : b'.Sound num := by
  have hsettled := hb.settled
  have hindex := hb.index
  have hloose := hb.loose
  have hbound := hb.bound
  have hidle : ∀ {pc : BenchmarkPc}, pc.owed = 0 → pc.index = none → pc.loose = none →
      pc ≠ .returned → { b with pc }.Sound num := hsettled.idle
  have hplace : ∀ rest, (BenchmarkPc.event rest) ≠ .returned := fun _ h => by cases h
  cases h with
  | @socketErr errno i hpc | @connectErr errno i fd hpc | @closeUnaddedErr errno i fd hpc =>
    exact hsettled.startConn (Nat.le_succ_of_le (hindex i (by rw [hpc]; rfl)).1)
  | @socket fd i hpc =>
    have hclosed : b.opened fd = false := hk
    have hnew : fd ∉ b.conns := fun hmem =>
      Bool.false_ne_true (hclosed.symm.trans (hb.opened fd hmem))
    refine (hsettled.open fd).setup rfl rfl rfl (hindex i (by rw [hpc]; rfl)) ⟨?_, hnew⟩
    exact Function.update_self ..
  | @connect i fd hpc | @addErr errno i fd hpc =>
    exact hsettled.setup rfl rfl rfl (hindex i (by rw [hpc]; rfl)) (hloose fd (by rw [hpc]; rfl))
  | @add i fd hpc =>
    obtain ⟨hi, hlt⟩ := hindex i (by rw [hpc]; rfl)
    obtain ⟨hopen, -⟩ := hloose fd (by rw [hpc]; rfl)
    have hsum : (b.numOfSuccConn + 1) % 2 ^ 32 = b.numOfSuccConn + 1 :=
      Nat.mod_eq_of_lt (by omega)
    simp only [afterAddFd, hsum]
    exact (hsettled.register outEvents hopen (by omega)).startConn (Nat.succ_le_succ hi)
  | @closeUnadded i fd hpc =>
    obtain ⟨-, hnot⟩ := hloose fd (by rw [hpc]; rfl)
    exact (hsettled.close hnot).startConn (Nat.le_succ_of_le (hindex i (by rw [hpc]; rfl)).1)
  | batchDone hpc => exact hsettled.whileConn
  | @modify fd rest hpc =>
    have hmem : fd ∈ b.conns := by
      simp only [Kernel, hpc] at hk
      exact hk
    exact (hsettled.modify inEvents hmem).idle rfl rfl rfl (hplace rest)
  | @del fd counted rest hpc =>
    have hmem : fd ∈ b.conns := by
      simp only [Kernel, hpc] at hk
      exact hk
    have hconns : (b.afterEpollCtlDel fd counted rest (.ok ())).conns = b.conns \ {fd} :=
      conns_unregister rfl
    have hcard := Set.ncard_sdiff_singleton_add_one hmem hb.finite
    have hheld := hb.held
    have howed : counted.toNat ≤ 1 := Bool.toNat_le counted
    refine ⟨?_, ?_, hbound, (by intro i h; cases h), ?_, ?_, (by intro h; cases h)⟩
    · rw [hconns]
      exact hb.finite.sdiff
    · rw [hconns]
      show (b.conns \ {fd}).ncard + counted.toNat ≤ b.numOfSuccConn
      omega
    · intro fd' hfd
      rw [hconns] at hfd
      exact hb.opened fd' hfd.1
    · intro fd' h
      obtain rfl := Option.some.inj h
      rw [hconns]
      exact ⟨hb.opened fd hmem, fun hfd => hfd.2 rfl⟩
  | @close fd counted rest hpc =>
    obtain ⟨-, hnot⟩ := hloose fd (by rw [hpc]; rfl)
    have hheld := hb.held
    simp only [hpc, BenchmarkPc.owed] at hheld
    have hafter : { b with opened := Function.update b.opened fd false, pc := .event rest }.Sound
        num := (hsettled.close hnot).idle rfl rfl rfl (hplace rest)
    cases counted with
    | false => exact hafter
    | true =>
      have hless : (b.numOfSuccConn + (2 ^ 32 - 1)) % 2 ^ 32 = b.numOfSuccConn - 1 := by
        simp only [Bool.toNat_true] at hheld
        omega
      simp only [afterClose, if_true, hless]
      refine ⟨hafter.finite, ?_, ?_, (by intro i h; cases h), hafter.opened,
        (by intro fd h; cases h), (by intro h; cases h)⟩
      · show b.conns.ncard + 0 ≤ b.numOfSuccConn - 1
        simp only [Bool.toNat_true] at hheld
        omega
      · show b.numOfSuccConn - 1 ≤ num
        omega
  | @sendDone n fd buffer rest hpc hall =>
    have hsent := hsettled.send (Function.update b.sent fd (b.sent fd ++ buffer.take (n + 1)))
    exact hsent.idle rfl rfl rfl (by intro h; cases h)
  | @sendMore n fd buffer rest hpc =>
    have hsent := hsettled.send (Function.update b.sent fd (b.sent fd ++ buffer.take (n + 1)))
    exact hsent.idle rfl rfl rfl (by intro h; cases h)
  | _ => exact hidle rfl rfl rfl (by intro h; cases h)

/-! ## Every connection is accounted for -/

/-- `add_fd` has succeeded. -/
def added (b : TcpBenchmark) (call : BenchmarkCall) : Bool :=
  match call, b.pc with
  | .epollCtl (.ok ()), .addFd _ _ => true
  | _, _ => false

/-- `close_conn` has succeeded, and its caller counts. -/
def countedDown (b : TcpBenchmark) (call : BenchmarkCall) : Bool :=
  match call, b.pc with
  | .close (.ok ()), .close _ true _ => true
  | _, _ => false

/-- A connection has been taken out of the epoll set that will never be counted down: after
an `EPOLLHUP` alone, or because its `close` has failed. -/
def lost (b : TcpBenchmark) (call : BenchmarkCall) : Bool :=
  match call, b.pc with
  | .epollCtl (.ok ()), .epollCtlDel _ false _ => true
  | .close (.error _), .close _ true _ => true
  | _, _ => false

def made (_ : TcpBenchmark) : BenchmarkCall → Bool
  | .socket (.ok _) => true
  | _ => false

def closed (_ : TcpBenchmark) : BenchmarkCall → Bool
  | .close (.ok ()) => true
  | _ => false

/-- What a step does to the counter, and to what it counts. -/
structure Changes (b : TcpBenchmark) (call : BenchmarkCall) (b' : TcpBenchmark) : Prop where
  num : b'.numOfSuccConn + (b.countedDown call).toNat = b.numOfSuccConn + (b.added call).toNat
  held : b'.conns.ncard + b'.pc.owed + (b.countedDown call).toNat + (b.lost call).toNat =
    b.conns.ncard + b.pc.owed + (b.added call).toNat

/-- A step that neither counts nor takes out of the epoll set. -/
theorem Changes.same (hnum : b'.numOfSuccConn = b.numOfSuccConn) (hconns : b'.conns = b.conns)
    (howed : b'.pc.owed = b.pc.owed) (hadded : b.added call = false)
    (hcounted : b.countedDown call = false) (hlost : b.lost call = false) : Changes b call b' := by
  constructor
  · rw [hnum, hadded, hcounted]
  · rw [hconns, howed, hadded, hcounted, hlost]
    rfl

theorem startConn_same (b : TcpBenchmark) (num i : Nat) :
    (b.startConn num i).conns = b.conns ∧ (b.startConn num i).opens = b.opens ∧
      (b.startConn num i).numOfSuccConn = b.numOfSuccConn ∧
      (b.startConn num i).sent = b.sent ∧ (b.startConn num i).pc.owed = 0 := by
  rcases b.startConn_eq num i with ⟨-, he⟩ | ⟨-, he⟩
  · rw [he]
    exact ⟨rfl, rfl, rfl, rfl, rfl⟩
  · rcases b.whileConn_eq with ⟨-, he'⟩ | ⟨-, he'⟩
    · rw [he, he']
      exact ⟨rfl, rfl, rfl, rfl, rfl⟩
    · rw [he, he']
      exact ⟨rfl, rfl, rfl, rfl, rfl⟩

theorem whileConn_owed (b : TcpBenchmark) : b.whileConn.pc.owed = 0 := by
  rcases b.whileConn_eq with ⟨-, he⟩ | ⟨-, he⟩
  · rw [he]
    rfl
  · rw [he]
    rfl

theorem changes (hb : b.Sound num) (hnum : num < 2 ^ 32) (hk : b.Kernel call)
    (h : b.Step num call b') : Changes b call b' := by
  have hbound := hb.bound
  cases h with
  | @socketErr errno i hpc | @connectErr errno i fd hpc | @closeUnaddedErr errno i fd hpc =>
    obtain ⟨hconns, -, hcount, -, howed⟩ := b.startConn_same num (i + 1)
    refine .same hcount hconns ?_ ?_ ?_ ?_
    · rw [howed, hpc]
      rfl
    all_goals simp only [added, countedDown, lost, hpc]
  | @closeUnadded i fd hpc =>
    obtain ⟨hconns, -, hcount, -, howed⟩ := startConn_same
      { b with opened := Function.update b.opened fd false } num (i + 1)
    refine .same hcount hconns ?_ ?_ ?_ ?_
    · rw [howed, hpc]
      rfl
    all_goals simp only [added, countedDown, lost, hpc]
  | @add i fd hpc =>
    obtain ⟨hi, hlt⟩ := hb.index i (by rw [hpc]; rfl)
    obtain ⟨-, hnot⟩ := hb.loose fd (by rw [hpc]; rfl)
    have hsum : (b.numOfSuccConn + 1) % 2 ^ 32 = b.numOfSuccConn + 1 :=
      Nat.mod_eq_of_lt (by omega)
    obtain ⟨hconns, -, hcount, -, howed⟩ := startConn_same
      { b with
        registered := Function.update b.registered fd (some outEvents)
        numOfSuccConn := (b.numOfSuccConn + 1) % 2 ^ 32 } num (i + 1)
    have hadded : b.added (.epollCtl (.ok ())) = true := by simp only [added, hpc]
    have hcounted : b.countedDown (.epollCtl (.ok ())) = false := rfl
    have hlost : b.lost (.epollCtl (.ok ())) = false := by simp only [lost, hpc]
    have hcard := Set.ncard_insert_of_notMem hnot hb.finite
    constructor
    · rw [hadded, hcounted, afterAddFd, hcount]
      show (b.numOfSuccConn + 1) % 2 ^ 32 + 0 = b.numOfSuccConn + 1
      rw [hsum]
    · rw [hadded, hcounted, hlost, afterAddFd, hconns, howed, conns_register rfl, hcard, hpc]
      rfl
  | batchDone hpc =>
    refine .same rfl rfl ?_ ?_ ?_ ?_
    · rw [whileConn_owed, hpc]
      rfl
    all_goals rfl
  | @modify fd rest hpc =>
    have hmem : fd ∈ b.conns := by
      simp only [Kernel, hpc] at hk
      exact hk
    refine .same rfl ?_ (by rw [hpc]; rfl) ?_ ?_ ?_
    · rw [conns_register rfl]
      exact Set.insert_eq_of_mem hmem
    all_goals simp only [added, countedDown, lost, hpc]
  | @del fd counted rest hpc =>
    have hmem : fd ∈ b.conns := by
      simp only [Kernel, hpc] at hk
      exact hk
    have hcard := Set.ncard_sdiff_singleton_add_one hmem hb.finite
    have hadded : b.added (.epollCtl (.ok ())) = false := by simp only [added, hpc]
    have hcounted : b.countedDown (.epollCtl (.ok ())) = false := rfl
    have hconns : (b.afterEpollCtlDel fd counted rest (.ok ())).conns = b.conns \ {fd} :=
      conns_unregister rfl
    constructor
    · rw [hadded, hcounted]
      rfl
    · rw [hadded, hcounted, hconns, hpc]
      cases counted with
      | false =>
        have hlost : b.lost (.epollCtl (.ok ())) = true := by simp only [lost, hpc]
        rw [hlost]
        exact hcard
      | true =>
        have hlost : b.lost (.epollCtl (.ok ())) = false := by simp only [lost, hpc]
        rw [hlost]
        exact hcard
  | @closeErr errno fd counted rest hpc =>
    have hadded : b.added (.close (.error errno)) = false := rfl
    have hcounted : b.countedDown (.close (.error errno)) = false := rfl
    constructor
    · rw [hadded, hcounted]
    · rw [hadded, hcounted, hpc]
      cases counted with
      | false =>
        have hlost : b.lost (.close (.error errno)) = false := by simp only [lost, hpc]
        rw [hlost]
        rfl
      | true =>
        have hlost : b.lost (.close (.error errno)) = true := by simp only [lost, hpc]
        rw [hlost]
        rfl
  | @close fd counted rest hpc =>
    have hheld := hb.held
    have hadded : b.added (.close (.ok ())) = false := rfl
    have hlost : b.lost (.close (.ok ())) = false := rfl
    rw [hpc] at hheld
    cases counted with
    | false =>
      have hcounted : b.countedDown (.close (.ok ())) = false := by simp only [countedDown, hpc]
      refine .same rfl rfl ?_ hadded hcounted hlost
      rw [hpc]
      rfl
    | true =>
      have hcounted : b.countedDown (.close (.ok ())) = true := by simp only [countedDown, hpc]
      have hless : (b.afterClose fd true rest (.ok ())).numOfSuccConn =
          (b.numOfSuccConn + (2 ^ 32 - 1)) % 2 ^ 32 := by simp only [afterClose, if_true]
      constructor
      · rw [hadded, hcounted, hless]
        simp only [BenchmarkPc.owed, Bool.toNat_true, Bool.toNat_false] at hheld ⊢
        omega
      · rw [hadded, hcounted, hlost, hpc]
        rfl
  | socket hpc | connect hpc | addErr hpc | epollWaitErr hpc | epollWait hpc | readable hpc
  | writable hpc | hangUp hpc | otherEvent hpc | recv hpc | sendErr hpc | sendZero hpc
  | sendDone hpc | sendMore hpc | modifyErr hpc | delErr hpc =>
    exact .same rfl rfl (by rw [hpc]; rfl) rfl rfl rfl

/-- What a step does to the open sockets. -/
theorem opens_step (hb : b.Sound num) (hk : b.Kernel call) (h : b.Step num call b') :
    (b.made call = true ∧ b.closed call = false ∧
        ∃ fd, fd ∉ b.opens ∧ b'.opens = insert fd b.opens) ∨
      (b.made call = false ∧ b.closed call = true ∧
        ∃ fd, fd ∈ b.opens ∧ b'.opens = b.opens \ {fd}) ∨
      (b.made call = false ∧ b.closed call = false ∧ b'.opens = b.opens) := by
  cases h with
  | @socket fd i hpc =>
    refine Or.inl ⟨rfl, rfl, fd, ?_, opens_open rfl⟩
    intro hopen
    have hclosed : b.opened fd = false := hk
    exact Bool.false_ne_true (hclosed.symm.trans hopen)
  | @closeUnadded i fd hpc =>
    obtain ⟨hopen, -⟩ := hb.loose fd (by rw [hpc]; rfl)
    obtain ⟨-, hopens, -⟩ := startConn_same
      { b with opened := Function.update b.opened fd false } num (i + 1)
    exact Or.inr (Or.inl ⟨rfl, rfl, fd, hopen, hopens.trans (opens_close rfl)⟩)
  | @close fd counted rest hpc =>
    obtain ⟨hopen, -⟩ := hb.loose fd (by rw [hpc]; rfl)
    exact Or.inr (Or.inl ⟨rfl, rfl, fd, hopen, opens_close rfl⟩)
  | @socketErr errno i hpc | @connectErr errno i fd hpc | @closeUnaddedErr errno i fd hpc =>
    exact Or.inr (Or.inr ⟨rfl, rfl, (b.startConn_same num (i + 1)).2.1⟩)
  | @add i fd hpc =>
    exact Or.inr (Or.inr ⟨rfl, rfl, (startConn_same _ num (i + 1)).2.1⟩)
  | _ => exact Or.inr (Or.inr ⟨rfl, rfl, rfl⟩)

open TransitionSystem

theorem conns_initial : initial.conns = ∅ := by
  ext fd
  simp [initial, conns]

theorem opens_initial : initial.opens = ∅ := by
  ext fd
  simp [initial, opens]

theorem sound_initial (num : Nat) : (initial.startConn num 0).Sound num := by
  have hsettled : initial.Settled num := by
    refine ⟨?_, ?_, Nat.zero_le num, ?_⟩
    · rw [conns_initial]
      exact Set.finite_empty
    · rw [conns_initial, Set.ncard_empty]
      exact Nat.zero_le _
    · rw [conns_initial]
      exact fun fd h => absurd h (Set.notMem_empty fd)
  exact hsettled.startConn (Nat.le_refl 0)

/-- What is counted beyond what is registered or owed. -/
noncomputable def unheld (b : TcpBenchmark) : Nat := b.numOfSuccConn - (b.conns.ncard + b.pc.owed)

/-- What a run of the client adds up to. -/
structure Accounted (num : Nat) (run : List (BenchmarkCall × TcpBenchmark))
    (b : TcpBenchmark) : Prop where
  counted : b.numOfSuccConn + count countedDown (initial.startConn num 0) run =
    count added (initial.startConn num 0) run
  /-- What is counted and not registered is lost, or owed by the call at hand. -/
  held : b.numOfSuccConn = b.conns.ncard + b.pc.owed + count lost (initial.startConn num 0) run
  opened : b.opens.ncard + count closed (initial.startConn num 0) run =
    count made (initial.startConn num 0) run
  /-- `main` returns only where nothing is registered and nothing has ever been lost. -/
  returned : b.pc = .returned →
    b.conns = ∅ ∧ count lost (initial.startConn num 0) run = 0

/-- **The client's counter.**  In every run, whatever fails, `num_of_succ_conn` is the
number of registered connections and of those lost: taken out of the epoll set after an
`EPOLLHUP` alone, or with a `close` that failed.  So it never wraps, and once a connection
is lost `main` does not return. -/
theorem conns_accounted (hnum : num < 2 ^ 32) {run : List (BenchmarkCall × TcpBenchmark)}
    (h : (runs num).IsRun (initial.startConn num 0) run) :
    Accounted num run (last (initial.startConn num 0) run) := by
  have hstart := sound_initial num
  have hkeep : ∀ b call b', b.Sound num → (runs num).step b call b' → b'.Sound num :=
    fun b call b' hb hstep => hb.step hnum hstep.1 (step_of_next hstep.2)
  have hlast := h.keeps hkeep hstart
  have hchanges : ∀ b call b', b.Sound num → (runs num).step b call b' → Changes b call b' :=
    fun b call b' hb hstep => changes hb hnum hstep.1 (step_of_next hstep.2)
  obtain ⟨hconns, hopen, hzero, -, howed⟩ := initial.startConn_same num 0
  have hcounted := IsRun.balance hkeep (fun b call b' hb hstep => (hchanges b call b' hb hstep).num)
    hstart h
  have hunheld : (last (initial.startConn num 0) run).unheld =
      (initial.startConn num 0).unheld + count lost (initial.startConn num 0) run := by
    refine IsRun.tally hkeep (fun b call b' hb hstep => ?_) hstart h
    have hnumber := (hchanges b call b' hb hstep).num
    have hheld := (hchanges b call b' hb hstep).held
    have hbefore := hb.held
    have hafter := (hkeep b call b' hb hstep).held
    simp only [unheld]
    omega
  have hopened : (last (initial.startConn num 0) run).opens.ncard +
      count closed (initial.startConn num 0) run =
        (initial.startConn num 0).opens.ncard + count made (initial.startConn num 0) run := by
    refine IsRun.ncard_balance hkeep (fun b call b' hb hstep hmade => ?_)
      (fun b call b' hb hstep hclosed => ?_) (fun b call b' hb hstep hmade hclosed => ?_)
      hstart ?_ h
    · rcases opens_step hb hstep.1 (step_of_next hstep.2) with
        ⟨-, hclosed, hnew⟩ | ⟨hnot, -⟩ | ⟨hnot, -⟩
      · exact ⟨hclosed, hnew⟩
      · exact absurd (hmade.symm.trans hnot) (by decide)
      · exact absurd (hmade.symm.trans hnot) (by decide)
    · rcases opens_step hb hstep.1 (step_of_next hstep.2) with
        ⟨-, hnot, -⟩ | ⟨hmade, -, hgone⟩ | ⟨-, hnot, -⟩
      · exact absurd (hclosed.symm.trans hnot) (by decide)
      · exact ⟨hmade, hgone⟩
      · exact absurd (hclosed.symm.trans hnot) (by decide)
    · rcases opens_step hb hstep.1 (step_of_next hstep.2) with
        ⟨hnot, -⟩ | ⟨-, hnot, -⟩ | ⟨-, -, hsame⟩
      · exact absurd (hnot.symm.trans hmade) (by decide)
      · exact absurd (hnot.symm.trans hclosed) (by decide)
      · exact hsame
    · rw [hopen, opens_initial]
      exact Set.finite_empty
  have hheld := hlast.held
  simp only [unheld, hzero, hconns, howed, conns_initial, Set.ncard_empty] at hunheld
  rw [hzero] at hcounted
  rw [hopen, opens_initial, Set.ncard_empty] at hopened
  refine ⟨hcounted.trans (Nat.zero_add _), ?_, hopened.trans (Nat.zero_add _), fun hpc => ?_⟩
  · have hnone : initial.numOfSuccConn = 0 := rfl
    omega
  · have hnone := hlast.returned hpc
    have hempty : (last (initial.startConn num 0) run).conns.ncard = 0 := by omega
    refine ⟨(Set.ncard_eq_zero hlast.finite).mp hempty, ?_⟩
    have hnone : initial.numOfSuccConn = 0 := rfl
    omega

/-- The theorem at a run: one connection, lost to an `EPOLLHUP` alone; the client waits for
ever on an empty epoll set. -/
theorem conns_accounted_hangUp :
    ∃ b run, (runs 1).IsRun (initial.startConn 1 0) run ∧ last (initial.startConn 1 0) run = b ∧
      b.pc = .epollWait ∧ b.numOfSuccConn = 1 ∧ b.conns.ncard = 0 := by
  let b : TcpBenchmark := ⟨.epollWait, 1,
    Function.update (Function.update (fun _ => false) 4 true) 4 false,
    Function.update (Function.update (fun _ => none) 4 (some outEvents)) 4 none, fun _ => []⟩
  have hrun : (runs 1).IsRun (initial.startConn 1 0)
      [(.socket (.ok 4), _), (.connect (.ok ()), _), (.epollCtl (.ok ()), _),
        (.epollWait (.ok [⟨4, ⟨false, false, false, true, false⟩⟩]), _), (.handle, _),
        (.epollCtl (.ok ()), _), (.close (.ok ()), _), (.handle, b)] :=
    ⟨⟨rfl, rfl⟩, ⟨trivial, rfl⟩, ⟨rfl, rfl⟩, ⟨kernel_epollWait_one rfl (by decide), rfl⟩,
      ⟨trivial, rfl⟩, ⟨rfl, rfl⟩, ⟨trivial, rfl⟩, ⟨trivial, rfl⟩, trivial⟩
  have haccounted := conns_accounted (by decide) hrun
  have hheld : 1 = b.conns.ncard + 0 + 1 := haccounted.held
  exact ⟨b, _, hrun, rfl, rfl, rfl, by omega⟩

/-! ## One request on each connection -/

/-- `epoll_ctl` fails only in `add_fd`. -/
def Modifies (b : TcpBenchmark) (call : BenchmarkCall) : Prop :=
  ∀ errno, call = .epollCtl (.error errno) → ∃ i fd, b.pc = .addFd i fd

/-- What is sent on a connection that no call is about. -/
def Kept (b : TcpBenchmark) (fd : Fd) (mask : EpollEvents) : Prop :=
  (mask = outEvents ∧ b.sent fd = []) ∨ (mask = inEvents ∧ b.sent fd = request)

/-- And on the one a call is about. -/
def AtCall (b : TcpBenchmark) : Prop :=
  match b.pc with
  | .recv fd _ | .epollCtlMod fd _ => b.sent fd = request
  | .send fd buffer _ => b.sent fd ++ buffer = request
  | .close fd _ _ => b.registered fd = none
  | _ => True

/-- The requests, between any two calls. -/
structure Requesting (b : TcpBenchmark) : Prop where
  setup : b.pc.index.isSome = true → ∀ fd, b.sent fd = []
  once : ∀ fd, b.sent fd <+: request
  kept : ∀ fd mask, b.registered fd = some mask → b.pc.current ≠ some fd → b.Kept fd mask
  call : b.AtCall
  nodup : (b.pc.rest.map EpollEvent.fd).Nodup
  pending : ∀ e ∈ b.pc.rest, b.pc.current ≠ some e.fd ∧
    ∃ mask, b.registered e.fd = some mask ∧ mask.Reports e.events

/-- A place outside the batches. -/
theorem Requesting.outside (hb : b.Requesting) {pc : BenchmarkPc} (hrest : pc.rest = [])
    (hcurrent : b.pc.current = none) (hcall : { b with pc }.AtCall)
    (hsetup : pc.index.isSome = true → ∀ fd, b.sent fd = []) : { b with pc }.Requesting where
  setup := hsetup
  once := hb.once
  kept fd mask h _ := hb.kept fd mask h (by rw [hcurrent]; intro h; cases h)
  call := hcall
  nodup := by
    rw [hrest]
    exact List.nodup_nil
  pending e he := by
    rw [hrest] at he
    cases he

theorem Requesting.whileConn (hb : b.Requesting) (hcurrent : b.pc.current = none) :
    b.whileConn.Requesting := by
  rcases b.whileConn_eq with ⟨-, he⟩ | ⟨-, he⟩
  · rw [he]
    exact hb.outside rfl hcurrent trivial (by intro h; cases h)
  · rw [he]
    exact hb.outside rfl hcurrent trivial (by intro h; cases h)

theorem Requesting.startConn (hb : b.Requesting) (num i : Nat) (hcurrent : b.pc.current = none)
    (hsent : ∀ fd, b.sent fd = []) : (b.startConn num i).Requesting := by
  rcases b.startConn_eq num i with ⟨-, he⟩ | ⟨-, he⟩
  · rw [he]
    exact hb.outside rfl hcurrent trivial fun _ => hsent
  · rw [he]
    exact hb.whileConn hcurrent

/-- The next event is taken up, with a call about its connection if any. -/
theorem Requesting.take (hb : b.Requesting) {event : EpollEvent} {rest : List EpollEvent}
    (hpc : b.pc = .event (event :: rest)) {pc : BenchmarkPc} (hrest : pc.rest = rest)
    (hcurrent : ∀ fd, pc.current = some fd → fd = event.fd) (hindex : pc.index = none)
    (hcall : { b with pc }.AtCall) : { b with pc }.Requesting where
  setup h := by
    rw [hindex] at h
    cases h
  once := hb.once
  kept fd mask h _ := hb.kept fd mask h (by rw [hpc]; intro h; cases h)
  call := hcall
  nodup := by
    have hnodup := hb.nodup
    rw [hpc] at hnodup
    rw [hrest]
    exact (List.nodup_cons.mp hnodup).2
  pending e he := by
    have hnodup := hb.nodup
    rw [hpc] at hnodup
    rw [hrest] at he
    refine ⟨fun hsame => ?_, (hb.pending e (by rw [hpc]; exact List.mem_cons_of_mem _ he)).2⟩
    have hfd := hcurrent e.fd hsame
    exact (List.nodup_cons.mp hnodup).1 (hfd ▸ List.mem_map_of_mem he)

/-- The event handled is over, or goes on with another call about the same connection. -/
theorem Requesting.continue (hb : b.Requesting) {fd : Fd} (hfd : b.pc.current = some fd)
    (hrest : b'.pc.rest = b.pc.rest) (hcurrent : b'.pc.current = none ∨ b'.pc.current = some fd)
    (hindex : b'.pc.index = none) (hsent : ∀ fd', fd' ≠ fd → b'.sent fd' = b.sent fd')
    (hregistered : ∀ fd', fd' ≠ fd → b'.registered fd' = b.registered fd')
    (honce : b'.sent fd <+: request)
    (hkept : ∀ mask, b'.registered fd = some mask → b'.pc.current ≠ some fd → b'.Kept fd mask)
    (hcall : b'.AtCall) : b'.Requesting where
  setup h := by
    rw [hindex] at h
    cases h
  once fd' := by
    by_cases he : fd' = fd
    · rw [he]
      exact honce
    · rw [hsent fd' he]
      exact hb.once fd'
  kept fd' mask hmask hother := by
    by_cases he : fd' = fd
    · rw [he] at hmask hother ⊢
      exact hkept mask hmask hother
    · rw [hregistered fd' he] at hmask
      have hkeeps := hb.kept fd' mask hmask (by rw [hfd]; intro h; cases h; exact he rfl)
      simp only [Kept, hsent fd' he]
      exact hkeeps
  call := hcall
  nodup := by
    rw [hrest]
    exact hb.nodup
  pending e he := by
    rw [hrest] at he
    obtain ⟨hother, mask, hmask, hreports⟩ := hb.pending e he
    have hne : e.fd ≠ fd := by
      intro h
      rw [hfd, h] at hother
      exact hother rfl
    refine ⟨?_, mask, ?_, hreports⟩
    · rcases hcurrent with h | h
      · rw [h]
        intro h
        cases h
      · rw [h]
        intro h
        cases h
        exact hne rfl
    · rw [hregistered e.fd hne]
      exact hmask

/-- What is sent on the connection of an event, by what the event says. -/
theorem Requesting.event (hb : b.Requesting) {event : EpollEvent} {rest : List EpollEvent}
    (hpc : b.pc = .event (event :: rest)) :
    (event.events.epollIn = true → b.sent event.fd = request) ∧
      (event.events.epollOut = true → b.sent event.fd = []) := by
  obtain ⟨-, mask, hmask, hreports⟩ := hb.pending event (by rw [hpc]; exact List.mem_cons_self)
  have hkept := hb.kept event.fd mask hmask (by rw [hpc]; intro h; cases h)
  rcases hkept with ⟨rfl, hsent⟩ | ⟨rfl, hsent⟩
  · exact ⟨fun hin => absurd (hreports.1 hin) (by decide), fun _ => hsent⟩
  · exact ⟨fun _ => hsent, fun hout => absurd (hreports.2 hout) (by decide)⟩

/-- Nothing here is about the open sockets. -/
theorem Requesting.reopen (hb : b.Requesting) (opened : Fd → Bool) :
    { b with opened }.Requesting :=
  ⟨hb.setup, hb.once, hb.kept, hb.call, hb.nodup, hb.pending⟩

theorem requesting_initial (num : Nat) : (initial.startConn num 0).Requesting := by
  have hinitial : initial.Requesting :=
    ⟨fun _ _ => rfl, fun _ => List.nil_prefix, (by intro fd mask h; cases h), trivial,
      List.nodup_nil, (by intro e he; cases he)⟩
  exact hinitial.startConn num 0 rfl fun _ => rfl

theorem Requesting.step (hb : b.Requesting) (hmodifies : b.Modifies call) (hk : b.Kernel call)
    (h : b.Step num call b') : b'.Requesting := by
  have hcall := hb.call
  cases h with
  | @socketErr errno i hpc | @connectErr errno i fd hpc | @closeUnaddedErr errno i fd hpc =>
    exact hb.startConn num (i + 1) (by rw [hpc]; rfl) (hb.setup (by rw [hpc]; rfl))
  | @socket fd i hpc =>
    have hsetup := hb.setup (by rw [hpc]; rfl)
    have hopened := hb.reopen (Function.update b.opened fd true)
    exact hopened.outside rfl (by rw [hpc]; rfl) trivial fun _ => hsetup
  | @connect i fd hpc | @addErr errno i fd hpc =>
    exact hb.outside rfl (by rw [hpc]; rfl) trivial fun _ => hb.setup (by rw [hpc]; rfl)
  | @add i fd hpc =>
    have hsetup := hb.setup (by rw [hpc]; rfl)
    have hadded : { b with
        registered := Function.update b.registered fd (some outEvents)
        numOfSuccConn := (b.numOfSuccConn + 1) % 2 ^ 32 }.Requesting := by
      refine ⟨hb.setup, hb.once, fun fd' mask hmask hother => ?_, ?_, hb.nodup, fun e he => ?_⟩
      · change Function.update b.registered fd (some outEvents) fd' = some mask at hmask
        by_cases hsame : fd' = fd
        · rw [hsame, Function.update_self] at hmask
          exact Or.inl ⟨(Option.some.inj hmask).symm, hsetup fd'⟩
        · rw [Function.update_of_ne hsame] at hmask
          exact hb.kept fd' mask hmask hother
      · simp only [AtCall, hpc]
      · rw [show BenchmarkPc.rest _ = [] by rw [hpc]; rfl] at he
        cases he
    exact hadded.startConn num (i + 1) (by rw [hpc]; rfl) hsetup
  | @closeUnadded i fd hpc =>
    have hsetup := hb.setup (by rw [hpc]; rfl)
    exact (hb.reopen _).startConn num (i + 1) (by rw [hpc]; rfl) hsetup
  | epollWaitErr hpc => exact hb.outside rfl (by rw [hpc]; rfl) trivial (by intro h; cases h)
  | @epollWait events hpc =>
    obtain ⟨-, hnodup, hreports⟩ := hk
    refine ⟨(by intro h; cases h), hb.once, fun fd mask h _ => ?_, trivial, hnodup, fun e he => ?_⟩
    · exact hb.kept fd mask h (by rw [hpc]; intro h; cases h)
    · exact ⟨(by intro h; cases h), hreports e he⟩
  | batchDone hpc => exact hb.whileConn (by rw [hpc]; rfl)
  | readable hpc hin =>
    exact hb.take hpc rfl (fun fd h => (Option.some.inj h).symm) rfl ((hb.event hpc).1 hin)
  | writable hpc hout =>
    refine hb.take hpc rfl (fun fd h => (Option.some.inj h).symm) rfl ?_
    simp only [AtCall, (hb.event hpc).2 hout]
    rfl
  | hangUp hpc hhup => exact hb.take hpc rfl (fun fd h => (Option.some.inj h).symm) rfl trivial
  | otherEvent hpc => exact hb.take hpc rfl (by intro fd h; cases h) rfl trivial
  | @recv result fd rest hpc | @sendErr errno fd buffer rest hpc | @sendZero fd buffer rest hpc =>
    exact hb.continue (by rw [hpc]; rfl) (by rw [hpc]; rfl) (Or.inr rfl) rfl (fun _ _ => rfl)
      (fun _ _ => rfl) (hb.once fd) (fun _ _ h => absurd rfl h) trivial
  | @sendDone n fd buffer rest hpc hall =>
    simp only [AtCall, hpc] at hcall
    have htaken : buffer.take (n + 1) = buffer := by
      have hsplit := List.take_append_drop (n + 1) buffer
      rwa [hall, List.append_nil] at hsplit
    have hsent : Function.update b.sent fd (b.sent fd ++ buffer.take (n + 1)) fd = request := by
      rw [Function.update_self, htaken, hcall]
    refine hb.continue (by rw [hpc]; rfl) (by rw [hpc]; rfl) (Or.inr rfl) rfl
      (fun fd' he => Function.update_of_ne he ..) (fun _ _ => rfl) ?_
      (fun _ _ h => absurd rfl h) hsent
    exact hsent ▸ List.prefix_refl _
  | @sendMore n fd buffer rest hpc =>
    simp only [AtCall, hpc] at hcall
    have hsent : Function.update b.sent fd (b.sent fd ++ buffer.take (n + 1)) fd ++
        buffer.drop (n + 1) = request := by
      rw [Function.update_self, List.append_assoc, List.take_append_drop, hcall]
    exact hb.continue (by rw [hpc]; rfl) (by rw [hpc]; rfl) (Or.inr rfl) rfl
      (fun fd' he => Function.update_of_ne he ..) (fun _ _ => rfl) ⟨_, hsent⟩
      (fun _ _ h => absurd rfl h) hsent
  | modifyErr hpc | delErr hpc =>
    obtain ⟨i, fd', hadd⟩ := hmodifies _ rfl
    rw [hpc] at hadd
    cases hadd
  | @modify fd rest hpc =>
    simp only [AtCall, hpc] at hcall
    refine hb.continue (by rw [hpc]; rfl) (by rw [hpc]; rfl) (Or.inl rfl) rfl (fun _ _ => rfl)
      (fun fd' he => Function.update_of_ne he ..) (hb.once fd) (fun mask hmask _ => ?_) trivial
    change Function.update b.registered fd (some inEvents) fd = some mask at hmask
    rw [Function.update_self] at hmask
    exact Or.inr ⟨(Option.some.inj hmask).symm, hcall⟩
  | @del fd counted rest hpc =>
    exact hb.continue (by rw [hpc]; rfl) (by rw [hpc]; rfl) (Or.inr rfl) rfl (fun _ _ => rfl)
      (fun fd' he => Function.update_of_ne he ..) (hb.once fd) (fun _ _ h => absurd rfl h)
      (Function.update_self ..)
  | @closeErr errno fd counted rest hpc | @close fd counted rest hpc =>
    simp only [AtCall, hpc] at hcall
    refine hb.continue (by rw [hpc]; rfl) (by rw [hpc]; rfl) (Or.inl rfl) rfl (fun _ _ => rfl)
      (fun _ _ => rfl) (hb.once fd) (fun mask hmask _ => ?_) trivial
    have hnone : none = some mask := hcall.symm.trans hmask
    cases hnone

/-- **Each connection carries the request once.**  Where `epoll_ctl` fails only in
`add_fd`, what is sent on a descriptor is never more than one request, however short `send`
is; the client reads only where the whole of it has been sent, and what it offers to `send`
is what is missing. -/
theorem requested_once {run : List (BenchmarkCall × TcpBenchmark)}
    (h : ((runs num).restrict Modifies).IsRun (initial.startConn num 0) run)
    (hlast : last (initial.startConn num 0) run = b) :
    (∀ fd, b.sent fd <+: request) ∧
      (∀ fd rest, b.pc = .recv fd rest → b.sent fd = request) ∧
      (∀ fd buffer rest, b.pc = .send fd buffer rest → b.sent fd ++ buffer = request) := by
  have hb : b.Requesting := hlast ▸ h.keeps
    (fun _ _ _ hb hstep => hb.step hstep.1 hstep.2.1 (step_of_next hstep.2.2))
    (requesting_initial num)
  have hcall := hb.call
  refine ⟨hb.once, fun fd rest hpc => ?_, fun fd buffer rest hpc => ?_⟩
  · simp only [AtCall, hpc] at hcall
    exact hcall
  · simp only [AtCall, hpc] at hcall
    exact hcall

/-- The theorem at a run: one connection, written on and then readable. -/
theorem requested_once_oneConn :
    ∃ b run, ((runs 1).restrict Modifies).IsRun (initial.startConn 1 0) run ∧
      last (initial.startConn 1 0) run = b ∧ b.pc = .recv 4 [] ∧ b.sent 4 = request := by
  have hallowed : ∀ (b : TcpBenchmark) (call : BenchmarkCall),
      (∀ errno, call ≠ .epollCtl (.error errno)) → b.Modifies call :=
    fun b call h errno he => absurd he (h errno)
  have hrun : ((runs 1).restrict Modifies).IsRun (initial.startConn 1 0)
      [(.socket (.ok 4), _), (.connect (.ok ()), _), (.epollCtl (.ok ()), _),
        (.epollWait (.ok [⟨4, ⟨false, true, false, false, false⟩⟩]), _), (.handle, _),
        (.send (.ok 1), _), (.epollCtl (.ok ()), _), (.handle, _),
        (.epollWait (.ok [⟨4, ⟨true, false, false, false, false⟩⟩]), _), (.handle, _)] :=
    ⟨⟨hallowed _ _ (by intro _ h; cases h), rfl, rfl⟩,
      ⟨hallowed _ _ (by intro _ h; cases h), trivial, rfl⟩,
      ⟨hallowed _ _ (by intro _ h; cases h), rfl, rfl⟩,
      ⟨hallowed _ _ (by intro _ h; cases h), kernel_epollWait_one rfl (by decide), rfl⟩,
      ⟨hallowed _ _ (by intro _ h; cases h), trivial, rfl⟩,
      ⟨hallowed _ _ (by intro _ h; cases h), kernel_send rfl (by decide), rfl⟩,
      ⟨hallowed _ _ (by intro _ h; cases h), rfl, rfl⟩,
      ⟨hallowed _ _ (by intro _ h; cases h), trivial, rfl⟩,
      ⟨hallowed _ _ (by intro _ h; cases h), kernel_epollWait_one rfl (by decide), rfl⟩,
      ⟨hallowed _ _ (by intro _ h; cases h), trivial, rfl⟩, trivial⟩
  have hrequested := requested_once hrun rfl
  exact ⟨_, _, hrun, rfl, rfl, hrequested.2.1 4 [] rfl⟩

end TcpBenchmark
end MySvrKit
