import MySvrKit.EchoNetwork
import MySvrKit.TcpBenchmark

/-! # The benchmark against the server

The benchmark client is one of the programs the clients of the service may be.  Its
`connect`s that succeed make the connections in their order, its `send` writes to one and
its `recv` reads from it, and everything else the service does on its own. -/

namespace MySvrKit

/-- The client and the service. -/
structure EchoBenchmark where
  client : TcpBenchmark
  service : EchoNetwork
  /-- The connection of each of the client's descriptors. -/
  connOf : Fd → Nat
  /-- How many `connect`s have succeeded. -/
  connected : Nat

/-- A call of the client, or a step of the service that is no client's. -/
inductive BenchAction
  | client (call : BenchmarkCall)
  | service (action : EchoAction)

/-- No client has written or read. -/
def EchoAction.internal : EchoAction → Bool
  | .write _ _ | .read _ _ => false
  | _ => true

namespace EchoBenchmark

/-- One step; what the client's call does to its connection, the service sees. -/
def next (num : Nat) (x : EchoBenchmark) : BenchAction → Option EchoBenchmark
  | .client call =>
      (x.client.next num call).bind fun client =>
        match x.client.pc, call with
        | .connect _ fd, .connect (.ok ()) =>
            some { x with
              client
              connOf := Function.update x.connOf fd x.connected
              connected := x.connected + 1 }
        | .send fd buffer _, .send (.ok n) =>
            (x.service.next (.write (x.connOf fd) (buffer.take n))).map fun service =>
              { x with client, service }
        | .recv fd _, .recv (.ok bytes) =>
            (x.service.next (.read (x.connOf fd) bytes.length)).map fun service =>
              { x with client, service }
        | _, _ => some { x with client }
  | .service action => (x.service.next action).map fun service => { x with service }

/-- The kernels keep their promises, `epoll_ctl` fails only in `add_fd`, and `recv` returns
what there is to read. -/
def Allows (x : EchoBenchmark) : BenchAction → Prop
  | .client call =>
      x.client.Kernel call ∧ x.client.Modifies call ∧
        ∀ fd rest bytes, x.client.pc = .recv fd rest → call = .recv (.ok bytes) →
          bytes = x.service.readable (x.connOf fd) bytes.length
  | .service action => action.internal = true ∧ x.service.Allows action

end EchoBenchmark

/-- The runs of the benchmark, for `num` connections. -/
def echoBenchmark (num : Nat) (listenFd : Fd) : TransitionSystem EchoBenchmark BenchAction where
  init x := x.client = TcpBenchmark.initial.startConn num 0 ∧
    (echoNetwork listenFd).init x.service ∧ x.connected = 0
  step x action y := x.Allows action ∧ x.next num action = some y

/-- The connection in `close_conn`. -/
def BenchmarkPc.closing : BenchmarkPc → Option Fd
  | .epollCtlDel fd _ _ | .close fd _ _ => some fd
  | _ => none

namespace TcpBenchmark
variable {num : Nat} {b b' : TcpBenchmark} {call : BenchmarkCall} {fd : Fd}

/-- The descriptor is that of a connection. -/
def Links (b : TcpBenchmark) (fd : Fd) : Prop :=
  (b.registered fd).isSome = true ∨ b.pc.current = some fd ∨ ∃ i, b.pc = .addFd i fd

/-- Outside the calls about one, a descriptor is that of a connection if it is registered. -/
theorem links_of_place {pc : BenchmarkPc} (hlinks : { b with pc }.Links fd)
    (hcurrent : pc.current = none) (hadd : ∀ i fd', pc ≠ .addFd i fd') : fd ∈ b.conns := by
  rcases hlinks with hregistered | hfd | ⟨i, hpc⟩
  · exact hregistered
  · exact absurd (hcurrent.symm.trans hfd) (by intro h; cases h)
  · exact absurd hpc (hadd i fd)

theorem links_whileConn (hlinks : b.whileConn.Links fd) : fd ∈ b.conns := by
  rcases b.whileConn_eq with ⟨-, he⟩ | ⟨-, he⟩
  · rw [he] at hlinks
    exact links_of_place hlinks rfl (by intro _ _ h; cases h)
  · rw [he] at hlinks
    exact links_of_place hlinks rfl (by intro _ _ h; cases h)

theorem links_startConn {i : Nat} (hlinks : (b.startConn num i).Links fd) : fd ∈ b.conns := by
  rcases b.startConn_eq num i with ⟨-, he⟩ | ⟨-, he⟩
  · rw [he] at hlinks
    exact links_of_place hlinks rfl (by intro _ _ h; cases h)
  · rw [he] at hlinks
    exact links_whileConn hlinks

/-- A descriptor becomes that of a connection by `connect` only. -/
theorem links_step (hb : b.Requesting) (h : b.Step num call b') (hlinks : b'.Links fd) :
    b.Links fd ∨ ∃ i, b.pc = .connect i fd ∧ call = .connect (.ok ()) := by
  have hevent : ∀ {event rest}, b.pc = .event (event :: rest) → some event.fd = some fd →
      b.Links fd := by
    intro event rest hpc hfd
    obtain ⟨-, mask, hmask, -⟩ := hb.pending event (by rw [hpc]; exact List.mem_cons_self)
    rw [Option.some.inj hfd] at hmask
    exact Or.inl (by rw [hmask]; rfl)
  cases h with
  | socketErr hpc | connectErr hpc | closeUnaddedErr hpc | closeUnadded hpc =>
    have hmem := links_startConn hlinks
    exact Or.inl (Or.inl hmem)
  | @add i fd' hpc =>
    have hmem := links_startConn hlinks
    rw [conns_register rfl] at hmem
    rcases hmem with rfl | hmem
    · exact Or.inl (Or.inr (Or.inr ⟨i, hpc⟩))
    · exact Or.inl (Or.inl hmem)
  | batchDone hpc => exact Or.inl (Or.inl (links_whileConn hlinks))
  | @connect i fd' hpc =>
    rcases hlinks with hregistered | hcurrent | ⟨j, hadd⟩
    · exact Or.inl (Or.inl hregistered)
    · cases hcurrent
    · cases hadd
      exact Or.inr ⟨i, hpc, rfl⟩
  | readable hpc | writable hpc | hangUp hpc =>
    rcases hlinks with hregistered | hcurrent | ⟨j, hadd⟩
    · exact Or.inl (Or.inl hregistered)
    · exact Or.inl (hevent hpc hcurrent)
    · cases hadd
  | @recv result fd' rest hpc | @sendErr errno fd' buffer rest hpc | @sendZero fd' buffer rest hpc
  | @sendDone n fd' buffer rest hpc | @sendMore n fd' buffer rest hpc =>
    rcases hlinks with hregistered | hcurrent | ⟨j, hadd⟩
    · exact Or.inl (Or.inl hregistered)
    · exact Or.inl (Or.inr (Or.inl (by rw [hpc]; exact hcurrent)))
    · cases hadd
  | @modify fd' rest hpc =>
    rcases hlinks with hregistered | hcurrent | ⟨j, hadd⟩
    · by_cases he : fd = fd'
      · exact Or.inl (Or.inr (Or.inl (by rw [hpc, he]; rfl)))
      · have hsame : (Function.update b.registered fd' (some inEvents) fd).isSome = true :=
          hregistered
        rw [Function.update_of_ne he] at hsame
        exact Or.inl (Or.inl hsame)
    · cases hcurrent
    · cases hadd
  | @del fd' counted rest hpc =>
    rcases hlinks with hregistered | hcurrent | ⟨j, hadd⟩
    · by_cases he : fd = fd'
      · exact Or.inl (Or.inr (Or.inl (by rw [hpc, he]; rfl)))
      · have hsame : (Function.update b.registered fd' none fd).isSome = true := hregistered
        rw [Function.update_of_ne he] at hsame
        exact Or.inl (Or.inl hsame)
    · exact Or.inl (Or.inr (Or.inl (by rw [hpc]; exact hcurrent)))
    · cases hadd
  | _ =>
    rcases hlinks with hregistered | hcurrent | ⟨j, hadd⟩
    · exact Or.inl (Or.inl hregistered)
    · cases hcurrent
    · cases hadd

/-- What is being closed, by `epoll_ctl` and then `close`, is closed before anything else. -/
theorem closing_step (hb : b.Requesting) (hmodifies : b.Modifies call) (h : b.Step num call b')
    (hlinks : b'.Links fd) (hclosing : b.pc.closing = some fd) : b'.pc.closing = some fd := by
  cases h with
  | delErr hpc =>
    obtain ⟨i, fd', hadd⟩ := hmodifies _ rfl
    rw [hpc] at hadd
    cases hadd
  | del hpc =>
    rw [hpc] at hclosing
    exact hclosing
  | @closeErr errno fd' counted rest hpc | @close fd' counted rest hpc =>
    have hnone := hb.call
    simp only [AtCall, hpc] at hnone
    rw [hpc] at hclosing
    obtain rfl := Option.some.inj hclosing
    rcases hlinks with hregistered | hcurrent | ⟨i, hadd⟩
    · have hsome : (b.registered fd').isSome = true := hregistered
      rw [hnone] at hsome
      cases hsome
    · cases hcurrent
    · cases hadd
  | _ hpc =>
    rw [hpc] at hclosing
    cases hclosing

/-- `main` closes what it has read. -/
theorem closing_recv {result : Except Errno (List UInt8)} {rest : List EpollEvent}
    (h : b.Step num (.recv result) b') (hpc : b.pc = .recv fd rest) :
    b'.pc.closing = some fd := by
  cases h with
  | recv hpc' =>
    obtain ⟨rfl, rfl⟩ := BenchmarkPc.recv.inj (hpc.symm.trans hpc')
    rfl

/-- What `send` has taken is sent on its connection. -/
theorem sent_send {n : Nat} {buffer : List UInt8} {rest : List EpollEvent}
    (h : b.Step num (.send (.ok n)) b') (hpc : b.pc = .send fd buffer rest) :
    b'.sent fd = b.sent fd ++ buffer.take n ∧ ∀ fd', fd' ≠ fd → b'.sent fd' = b.sent fd' := by
  cases h with
  | sendZero hpc' => exact ⟨(List.append_nil _).symm, fun _ _ => rfl⟩
  | sendDone hpc' hall =>
    obtain ⟨rfl, rfl, rfl⟩ := BenchmarkPc.send.inj (hpc.symm.trans hpc')
    exact ⟨Function.update_self .., fun fd' he => Function.update_of_ne he ..⟩
  | sendMore hpc' =>
    obtain ⟨rfl, rfl, rfl⟩ := BenchmarkPc.send.inj (hpc.symm.trans hpc')
    exact ⟨Function.update_self .., fun fd' he => Function.update_of_ne he ..⟩

/-- Nothing else is. -/
theorem sent_other (h : b.Step num call b') (allows_plain : ∀ n, call ≠ .send (.ok n)) :
    b'.sent = b.sent := by
  cases h with
  | @socketErr errno i hpc | @connectErr errno i fd hpc | @closeUnaddedErr errno i fd hpc =>
    exact (b.startConn_same num (i + 1)).2.2.2.1
  | @add i fd hpc | @closeUnadded i fd hpc => exact (startConn_same _ num (i + 1)).2.2.2.1
  | batchDone hpc =>
    rcases b.whileConn_eq with ⟨-, he⟩ | ⟨-, he⟩
    · rw [he]
    · rw [he]
  | sendDone hpc hall | sendMore hpc => exact absurd rfl (allows_plain _)
  | _ => rfl

end TcpBenchmark

/-- What clients have written and read is as it was. -/
theorem EchoNetwork.same_of_internal {x y : EchoNetwork} {action : EchoAction}
    (hinternal : action.internal = true) (h : x.next action = some y) :
    y.wrote = x.wrote ∧ y.read = x.read := by
  cases action with
  | write id bytes | read id n => cases hinternal
  | server call taken space =>
    obtain ⟨epoll, -, rfl⟩ := Option.map_eq_some_iff.mp h
    exact ⟨rfl, rfl⟩
  | arrive id n | drain id =>
    obtain rfl := Option.some.inj h
    exact ⟨rfl, rfl⟩
  | finish id =>
    simp only [EchoNetwork.next] at h
    split at h
    · obtain rfl := Option.some.inj h
      exact ⟨rfl, rfl⟩
    · cases h

namespace EchoBenchmark
variable {num : Nat} {listenFd fd : Fd} {x y : EchoBenchmark} {action : BenchAction}
  {call : BenchmarkCall}

/-- What a call of the client is for the service. -/
theorem client_cases (h : x.next num (.client call) = some y) :
    x.client.next num call = some y.client ∧
      ((∃ i fd, x.client.pc = .connect i fd ∧ call = .connect (.ok ()) ∧
          y.service = x.service ∧ y.connOf = Function.update x.connOf fd x.connected ∧
          y.connected = x.connected + 1) ∨
        (∃ fd buffer rest n, x.client.pc = .send fd buffer rest ∧ call = .send (.ok n) ∧
          x.service.next (.write (x.connOf fd) (buffer.take n)) = some y.service ∧
          y.connOf = x.connOf ∧ y.connected = x.connected) ∨
        (∃ fd rest bytes, x.client.pc = .recv fd rest ∧ call = .recv (.ok bytes) ∧
          x.service.next (.read (x.connOf fd) bytes.length) = some y.service ∧
          y.connOf = x.connOf ∧ y.connected = x.connected) ∨
        ((∀ i fd, x.client.pc = .connect i fd → call ≠ .connect (.ok ())) ∧
          (∀ n, call ≠ .send (.ok n)) ∧ y.service = x.service ∧ y.connOf = x.connOf ∧
          y.connected = x.connected)) := by
  obtain ⟨client, hclient, h⟩ := Option.bind_eq_some_iff.mp h
  split at h
  · rename_i i fd hpc _
    obtain rfl := Option.some.inj h
    exact ⟨hclient, Or.inl ⟨i, fd, hpc, rfl, rfl, rfl, rfl⟩⟩
  · rename_i fd buffer rest n hpc _
    obtain ⟨service, hservice, rfl⟩ := Option.map_eq_some_iff.mp h
    exact ⟨hclient, Or.inr (Or.inl ⟨fd, buffer, rest, n, hpc, rfl, hservice, rfl, rfl⟩)⟩
  · rename_i fd rest bytes hpc _
    obtain ⟨service, hservice, rfl⟩ := Option.map_eq_some_iff.mp h
    exact ⟨hclient, Or.inr (Or.inr (Or.inl ⟨fd, rest, bytes, hpc, rfl, hservice, rfl, rfl⟩))⟩
  · rename_i hconnect hsend hrecv _
    obtain rfl := Option.some.inj h
    refine ⟨hclient, Or.inr (Or.inr (Or.inr ⟨fun i fd hpc he => hconnect i fd hpc he, ?_, rfl,
      rfl, rfl⟩))⟩
    rintro n rfl
    -- `send` has returned at a `send`
    have hstep := TcpBenchmark.step_of_next hclient
    cases hstep with
    | sendZero hpc | sendDone hpc hall | sendMore hpc => exact hsend _ _ _ _ hpc rfl

/-- What holds of the client and the service together: each connection of the client is one
of the service, which has been written what the client has sent and, until the client closes
it, has not been read. -/
structure Joined (listenFd : Fd) (x : EchoBenchmark) : Prop where
  carries : x.service.Carries listenFd
  requesting : x.client.Requesting
  linked : ∀ fd, x.client.Links fd →
    x.connOf fd < x.connected ∧ x.service.wrote (x.connOf fd) = x.client.sent fd
  unread : ∀ fd, x.client.Links fd → x.client.pc.closing ≠ some fd →
    x.service.read (x.connOf fd) = []
  distinct : ∀ fd fd', x.client.Links fd → x.client.Links fd' → x.connOf fd = x.connOf fd' →
    fd = fd'
  fresh : ∀ id, x.connected ≤ id → x.service.wrote id = []

/-- A connection that has not been made has not been read. -/
theorem Joined.read_fresh (hx : x.Joined listenFd) {id : Nat} (hid : x.connected ≤ id) :
    x.service.read id = [] := by
  have hread := (hx.carries.read id).trans (hx.carries.sent_prefix id)
  rw [hx.fresh id hid] at hread
  exact List.prefix_nil.mp hread

/-- A call that changes nothing of the connections. -/
theorem Joined.keep (hx : x.Joined listenFd) (hcarries : y.service.Carries listenFd)
    (hrequesting : y.client.Requesting)
    (hsame : y.service.wrote = x.service.wrote ∧ y.service.read = x.service.read)
    (hsent : y.client.sent = x.client.sent)
    (hlinks : ∀ fd, y.client.Links fd → x.client.Links fd)
    (hclosing : ∀ fd, y.client.Links fd → x.client.pc.closing = some fd →
      y.client.pc.closing = some fd)
    (hconnOf : y.connOf = x.connOf) (hconnected : y.connected = x.connected) :
    y.Joined listenFd where
  carries := hcarries
  requesting := hrequesting
  linked fd hfd := by
    rw [hconnOf, hconnected, hsame.1, hsent]
    exact hx.linked fd (hlinks fd hfd)
  unread fd hfd hopen := by
    rw [hconnOf, hsame.2]
    exact hx.unread fd (hlinks fd hfd) fun h => hopen (hclosing fd hfd h)
  distinct fd fd' hfd hfd' h := by
    rw [hconnOf] at h
    exact hx.distinct fd fd' (hlinks fd hfd) (hlinks fd' hfd') h
  fresh id hid := by
    rw [hsame.1]
    exact hx.fresh id (hconnected ▸ hid)

theorem joined_initial (h : (echoBenchmark num listenFd).init x) : x.Joined listenFd := by
  obtain ⟨hclient, hservice, hconnected⟩ := h
  have hnone : ∀ fd, ¬ x.client.Links fd := by
    intro fd hlinks
    rw [hclient] at hlinks
    have hmem := TcpBenchmark.links_startConn hlinks
    rw [TcpBenchmark.conns_initial] at hmem
    exact hmem
  refine ⟨EchoNetwork.carries_initial hservice, ?_, fun fd h => absurd h (hnone fd),
    fun fd h => absurd h (hnone fd), fun fd _ h => absurd h (hnone fd), fun id _ => ?_⟩
  · rw [hclient]
    exact TcpBenchmark.requesting_initial num
  · rw [hservice.2.2.1]

/-- `connect` makes the next connection. -/
theorem Joined.connect (hx : x.Joined listenFd) {i : Nat} (hpc : x.client.pc = .connect i fd)
    (hstep : x.client.Step num (.connect (.ok ())) y.client)
    (hrequesting : y.client.Requesting) (hservice : y.service = x.service)
    (hconnOf : y.connOf = Function.update x.connOf fd x.connected)
    (hconnected : y.connected = x.connected + 1) : y.Joined listenFd := by
  have hsent := TcpBenchmark.sent_other hstep (by intro _ h; cases h)
  have hempty := hx.requesting.setup (by rw [hpc]; rfl) fd
  have hnew : y.connOf fd = x.connected := by
    rw [hconnOf]
    exact Function.update_self ..
  have hold : ∀ fd', y.client.Links fd' → fd' ≠ fd →
      x.client.Links fd' ∧ y.connOf fd' = x.connOf fd' ∧ x.connOf fd' < x.connected := by
    intro fd' hfd' hne
    have hlinks : x.client.Links fd' := by
      rcases TcpBenchmark.links_step hx.requesting hstep hfd' with hfd' | ⟨j, hpc', -⟩
      · exact hfd'
      · cases hpc.symm.trans hpc'
        exact absurd rfl hne
    rw [hconnOf]
    exact ⟨hlinks, Function.update_of_ne hne .., (hx.linked fd' hlinks).1⟩
  refine ⟨hservice ▸ hx.carries, hrequesting, fun fd' hfd' => ?_, fun fd' hfd' hopen => ?_,
    fun fd₁ fd₂ h₁ h₂ he => ?_, fun id hid => ?_⟩
  · by_cases hne : fd' = fd
    · rw [hne, hnew, hconnected, hservice, hsent, hempty]
      exact ⟨Nat.lt_succ_self _, hx.fresh _ (Nat.le_refl _)⟩
    · obtain ⟨hlinks, hsame, hlt⟩ := hold fd' hfd' hne
      rw [hsame, hconnected, hservice, hsent]
      exact ⟨Nat.lt_succ_of_lt hlt, (hx.linked fd' hlinks).2⟩
  · by_cases hne : fd' = fd
    · rw [hne, hnew, hservice]
      exact hx.read_fresh (Nat.le_refl _)
    · obtain ⟨hlinks, hsame, -⟩ := hold fd' hfd' hne
      rw [hsame, hservice]
      exact hx.unread fd' hlinks (by rw [hpc]; intro h; cases h)
  · by_cases h₁' : fd₁ = fd
    · by_cases h₂' : fd₂ = fd
      · rw [h₁', h₂']
      · obtain ⟨-, hsame, hlt⟩ := hold fd₂ h₂ h₂'
        rw [h₁', hnew, hsame] at he
        omega
    · obtain ⟨hlinks₁, hsame, hlt⟩ := hold fd₁ h₁ h₁'
      by_cases h₂' : fd₂ = fd
      · rw [h₂', hnew, hsame] at he
        omega
      · obtain ⟨hlinks₂, hsame₂, -⟩ := hold fd₂ h₂ h₂'
        rw [hsame, hsame₂] at he
        exact hx.distinct fd₁ fd₂ hlinks₁ hlinks₂ he
  · rw [hservice]
    exact hx.fresh id (by omega)

/-- What `send` takes is written on the connection of its descriptor. -/
theorem Joined.send (hx : x.Joined listenFd) {buffer : List UInt8} {rest : List EpollEvent}
    {n : Nat} (hpc : x.client.pc = .send fd buffer rest)
    (hstep : x.client.Step num (.send (.ok n)) y.client) (hrequesting : y.client.Requesting)
    (hservice : x.service.next (.write (x.connOf fd) (buffer.take n)) = some y.service)
    (hconnOf : y.connOf = x.connOf) (hconnected : y.connected = x.connected) :
    y.Joined listenFd := by
  obtain ⟨hsent, hothers⟩ := TcpBenchmark.sent_send hstep hpc
  have hwrote : y.service.wrote = Function.update x.service.wrote (x.connOf fd)
      (x.service.wrote (x.connOf fd) ++ buffer.take n) := by
    rw [← Option.some.inj hservice]
  have hread : y.service.read = x.service.read := by
    rw [← Option.some.inj hservice]
  have hlinks : ∀ fd', y.client.Links fd' → x.client.Links fd' := by
    intro fd' hfd'
    rcases TcpBenchmark.links_step hx.requesting hstep hfd' with hfd' | ⟨j, -, hcall⟩
    · exact hfd'
    · cases hcall
  have hfd : x.client.Links fd := Or.inr (Or.inl (by rw [hpc]; rfl))
  obtain ⟨hlt, hbytes⟩ := hx.linked fd hfd
  refine ⟨hx.carries.step (a := .write (x.connOf fd) (buffer.take n)) trivial hservice,
    hrequesting, fun fd' hfd' => ?_, fun fd' hfd' _ => ?_, fun fd₁ fd₂ h₁ h₂ he => ?_,
    fun id hid => ?_⟩
  · obtain ⟨hlt', hbytes'⟩ := hx.linked fd' (hlinks fd' hfd')
    rw [hconnOf, hconnected, hwrote]
    by_cases hne : fd' = fd
    · rw [hne, Function.update_self, hsent, hbytes]
      exact ⟨hlt, rfl⟩
    · have hdiffer : x.connOf fd' ≠ x.connOf fd := fun he =>
        hne (hx.distinct fd' fd (hlinks fd' hfd') hfd he)
      rw [Function.update_of_ne hdiffer, hothers fd' hne]
      exact ⟨hlt', hbytes'⟩
  · rw [hconnOf, hread]
    exact hx.unread fd' (hlinks fd' hfd') (by rw [hpc]; intro h; cases h)
  · rw [hconnOf] at he
    exact hx.distinct fd₁ fd₂ (hlinks fd₁ h₁) (hlinks fd₂ h₂) he
  · rw [hconnected] at hid
    rw [hwrote, Function.update_of_ne (by omega)]
    exact hx.fresh id hid

/-- `recv` reads the connection of its descriptor, which is then closed. -/
theorem Joined.recv (hx : x.Joined listenFd) {rest : List EpollEvent} {bytes : List UInt8}
    (hpc : x.client.pc = .recv fd rest) (hstep : x.client.Step num (.recv (.ok bytes)) y.client)
    (hrequesting : y.client.Requesting)
    (hservice : x.service.next (.read (x.connOf fd) bytes.length) = some y.service)
    (hconnOf : y.connOf = x.connOf) (hconnected : y.connected = x.connected) :
    y.Joined listenFd := by
  have hsent := TcpBenchmark.sent_other hstep (by intro _ h; cases h)
  have hwrote : y.service.wrote = x.service.wrote := by
    rw [← Option.some.inj hservice]
  have hread : ∀ id, id ≠ x.connOf fd → y.service.read id = x.service.read id := by
    intro id hne
    rw [← Option.some.inj hservice]
    exact Function.update_of_ne hne ..
  have hlinks : ∀ fd', y.client.Links fd' → x.client.Links fd' := by
    intro fd' hfd'
    rcases TcpBenchmark.links_step hx.requesting hstep hfd' with hfd' | ⟨j, -, hcall⟩
    · exact hfd'
    · cases hcall
  have hfd : x.client.Links fd := Or.inr (Or.inl (by rw [hpc]; rfl))
  have hclosing := TcpBenchmark.closing_recv hstep hpc
  refine ⟨hx.carries.step (a := .read (x.connOf fd) bytes.length) trivial hservice, hrequesting,
    fun fd' hfd' => ?_, fun fd' hfd' hopen => ?_, fun fd₁ fd₂ h₁ h₂ he => ?_, fun id hid => ?_⟩
  · rw [hconnOf, hconnected, hwrote, hsent]
    exact hx.linked fd' (hlinks fd' hfd')
  · have hne : fd' ≠ fd := by
      rintro rfl
      exact hopen hclosing
    have hdiffer : x.connOf fd' ≠ x.connOf fd := fun he =>
      hne (hx.distinct fd' fd (hlinks fd' hfd') hfd he)
    rw [hconnOf, hread _ hdiffer]
    exact hx.unread fd' (hlinks fd' hfd') (by rw [hpc]; intro h; cases h)
  · rw [hconnOf] at he
    exact hx.distinct fd₁ fd₂ (hlinks fd₁ h₁) (hlinks fd₂ h₂) he
  · rw [hwrote]
    exact hx.fresh id (hconnected ▸ hid)

theorem Joined.step (hx : x.Joined listenFd) (h : (echoBenchmark num listenFd).step x action y) :
    y.Joined listenFd := by
  obtain ⟨hallows, hnext⟩ := h
  cases action with
  | service action =>
    obtain ⟨hinternal, hservice⟩ := hallows
    obtain ⟨service, hstep, rfl⟩ := Option.map_eq_some_iff.mp hnext
    have hsame := EchoNetwork.same_of_internal hinternal hstep
    exact hx.keep (hx.carries.step hservice hstep) hx.requesting hsame rfl (fun _ => id)
      (fun _ _ => id) rfl rfl
  | client call =>
    obtain ⟨hkernel, hmodifies, -⟩ := hallows
    obtain ⟨hclient, hcases⟩ := client_cases hnext
    have hstep := TcpBenchmark.step_of_next hclient
    have hrequesting := hx.requesting.step hmodifies hkernel hstep
    rcases hcases with ⟨i, fd, hpc, rfl, hservice, hconnOf, hconnected⟩ |
      ⟨fd, buffer, rest, n, hpc, rfl, hservice, hconnOf, hconnected⟩ |
      ⟨fd, rest, bytes, hpc, rfl, hservice, hconnOf, hconnected⟩ |
      ⟨hconnect, hsend, hservice, hconnOf, hconnected⟩
    · exact hx.connect hpc hstep hrequesting hservice hconnOf hconnected
    · exact hx.send hpc hstep hrequesting hservice hconnOf hconnected
    · exact hx.recv hpc hstep hrequesting hservice hconnOf hconnected
    · have hlinks : ∀ fd, y.client.Links fd → x.client.Links fd := by
        intro fd hfd
        rcases TcpBenchmark.links_step hx.requesting hstep hfd with hfd | ⟨i, hpc, hcall⟩
        · exact hfd
        · exact absurd hcall (hconnect i fd hpc)
      exact hx.keep (hservice ▸ hx.carries) hrequesting (by rw [hservice]; exact ⟨rfl, rfl⟩)
        (TcpBenchmark.sent_other hstep hsend) hlinks
        (fun fd hfd => TcpBenchmark.closing_step hx.requesting hmodifies hstep hfd) hconnOf
        hconnected

theorem joined (h : (echoBenchmark num listenFd).Reachable x) : x.Joined listenFd :=
  h.invariant (fun _ => joined_initial) fun _ _ _ hx hstep => hx.step hstep

/-! ## One connection -/

/-- The client, its request sent. -/
def waiting : TcpBenchmark where
  pc := .epollWait
  numOfSuccConn := 1
  opened := Function.update (fun _ => false) 4 true
  registered := Function.update (Function.update (fun _ => none) 4 (some TcpBenchmark.outEvents)) 4
    (some TcpBenchmark.inEvents)
  sent := Function.update (fun _ => []) 4 TcpBenchmark.request

/-- It with a service. -/
def waitingOn (service : EchoNetwork) : EchoBenchmark :=
  ⟨waiting, service, Function.update (fun _ => 0) 4 0, 1⟩

/-- No failure of `epoll_ctl`, and nothing read. -/
def plain : BenchmarkCall → Bool
  | .epollCtl (.error _) | .recv (.ok _) => false
  | _ => true

/-- Such a call needs the client's kernel only. -/
theorem allows_plain (hkernel : x.client.Kernel call) (hplain : plain call = true) :
    x.Allows (.client call) := by
  refine ⟨hkernel, fun errno he => ?_, fun _ _ bytes _ he => ?_⟩
  · rw [he] at hplain
    cases hplain
  · rw [he] at hplain
    cases hplain

/-- It gets there, with the server asleep and nothing on the way. -/
theorem reaches_waiting :
    ∃ service : EchoNetwork, (echoBenchmark 1 3).Reachable (waitingOn service) ∧
      service.epoll.server.pc = .epollWait ∧ service.epoll.ready 5 = false ∧
      service.epoll.server.sockets 5 = some (.client 0) ∧
      service.epoll.server.handlers 5 = some (.echo 0) ∧
      (service.epoll.streams 0).writable = true ∧ service.sending 0 = [] ∧
      service.readable 0 1 = [112] := by
  have hnet : ∀ {x : EchoBenchmark} {call : SysCall} {taken : List Fd} {space : Bool},
      call.CtlSucceeds → x.service.epoll.server.TakesAll call →
      x.service.epoll.Allows (.call call taken space) →
      x.Allows (.service (.server call taken space)) :=
    fun hctl htakes hallows => ⟨rfl, ⟨hctl, htakes⟩, hallows⟩
  have hrun : (echoBenchmark 1 3).IsRun
      ⟨TcpBenchmark.initial.startConn 1 0, .start, fun _ => 0, 0⟩
      [(.client (.socket (.ok 4)), _), (.client (.connect (.ok ())), _),
        (.client (.epollCtl (.ok ())), _),
        (.client (.epollWait (.ok [⟨4, ⟨false, true, false, false, false⟩⟩])), _),
        (.client .handle, _), (.client (.send (.ok 1)), _), (.client (.epollCtl (.ok ())), _),
        (.client .handle, _),
        (.service (.server (.epollWait (.ok [⟨3, .onlyIn⟩])) [3] true), _),
        (.service (.server .handle [] true), _),
        (.service (.server (.accept4 (.ok ⟨5, ['a'], 80⟩)) [] true), _),
        (.service (.server (.epollCtl (.ok ())) [] true), _),
        (.service (.server .handle [] true), _), (.service (.arrive 0 1), _),
        (.service (.server (.epollWait (.ok [⟨5, .onlyIn⟩])) [5] true), _),
        (.service (.server .handle [] true), _),
        (.service (.server (.recv (.ok [112])) [] true), _),
        (.service (.server (.epollCtl (.ok ())) [] true), _),
        (.service (.server .handle [] true), _),
        (.service (.server (.epollWait (.ok [⟨5, ⟨false, true, false, false, false⟩⟩])) [5] true),
          _),
        (.service (.server .handle [] true), _), (.service (.server (.send (.ok 1)) [] true), _),
        (.service (.server (.epollCtl (.ok ())) [] true), _),
        (.service (.server .handle [] true), _)] :=
    ⟨⟨allows_plain rfl rfl, rfl⟩,
      ⟨allows_plain trivial rfl, rfl⟩,
      ⟨allows_plain rfl rfl, rfl⟩,
      ⟨allows_plain (TcpBenchmark.kernel_epollWait_one rfl (by decide)) rfl, rfl⟩,
      ⟨allows_plain trivial rfl, rfl⟩,
      ⟨allows_plain (TcpBenchmark.kernel_send rfl (by decide)) rfl, rfl⟩,
      ⟨allows_plain rfl rfl, rfl⟩,
      ⟨allows_plain trivial rfl, rfl⟩,
      ⟨hnet trivial trivial ⟨by decide, trivial,
        fun fd hfd _ => EchoNetwork.taken_one _ fd hfd⟩, rfl⟩,
      ⟨hnet trivial trivial ⟨trivial, trivial, trivial⟩, rfl⟩,
      ⟨hnet trivial trivial ⟨rfl, trivial, trivial⟩, rfl⟩,
      ⟨hnet trivial trivial ⟨rfl, trivial, trivial⟩, rfl⟩,
      ⟨hnet trivial trivial ⟨trivial, trivial, trivial⟩, rfl⟩, ⟨⟨rfl, trivial⟩, rfl⟩,
      ⟨hnet trivial trivial ⟨by decide, trivial,
        fun fd hfd _ => EchoNetwork.taken_one _ fd hfd⟩, rfl⟩,
      ⟨hnet trivial trivial ⟨trivial, trivial, trivial⟩, rfl⟩,
      ⟨hnet trivial trivial ⟨by decide, trivial,
        EchoNetwork.recv_unread rfl rfl rfl (by decide)⟩, rfl⟩,
      ⟨hnet trivial trivial ⟨rfl, trivial, trivial⟩, rfl⟩,
      ⟨hnet trivial trivial ⟨trivial, trivial, trivial⟩, rfl⟩,
      ⟨hnet trivial trivial ⟨by decide, trivial,
        fun fd hfd _ => EchoNetwork.taken_one _ fd hfd⟩, rfl⟩,
      ⟨hnet trivial trivial ⟨trivial, trivial, trivial⟩, rfl⟩,
      ⟨hnet trivial rfl ⟨by decide, trivial, trivial⟩, rfl⟩,
      ⟨hnet trivial trivial ⟨rfl, trivial, trivial⟩, rfl⟩,
      ⟨hnet trivial trivial ⟨trivial, trivial, trivial⟩, rfl⟩, trivial⟩
  have hinit : (echoBenchmark 1 3).init
      ⟨TcpBenchmark.initial.startConn 1 0, .start, fun _ => 0, 0⟩ :=
    ⟨rfl, ⟨⟨⟨0, rfl⟩, rfl⟩, fun _ => rfl, rfl, rfl, rfl⟩, rfl⟩
  have hx := (TransitionSystem.Reachable.initial hinit).reaches hrun.reaches
  exact ⟨_, hx, rfl, rfl, rfl, rfl, rfl, rfl, rfl⟩

/-! ## Its answers -/

/-- **The answer is the request.**  What `recv` returns to the benchmark on a descriptor is
the beginning of the request it has sent there, all of it, and no other connection's: nothing
of the answer has been read before, and no other descriptor has the connection. -/
theorem answered (h : (echoBenchmark num listenFd).Reachable x) {rest : List EpollEvent}
    {bytes : List UInt8} (hpc : x.client.pc = .recv fd rest)
    (hstep : (echoBenchmark num listenFd).step x (.client (.recv (.ok bytes))) y) :
    x.client.sent fd = TcpBenchmark.request ∧ bytes <+: TcpBenchmark.request ∧
      ∀ fd', x.client.Links fd' → x.connOf fd' = x.connOf fd → fd' = fd := by
  have hx := joined h
  have hfd : x.client.Links fd := Or.inr (Or.inl (by rw [hpc]; rfl))
  have hsent : x.client.sent fd = TcpBenchmark.request := by
    have hcall := hx.requesting.call
    simp only [TcpBenchmark.AtCall, hpc] at hcall
    exact hcall
  refine ⟨hsent, ?_, fun fd' hfd' he => hx.distinct fd' fd hfd' hfd he⟩
  have hbytes : bytes = x.service.readable (x.connOf fd) bytes.length :=
    hstep.1.2.2 fd rest bytes hpc rfl
  have hunread := hx.unread fd hfd (by rw [hpc]; intro h; cases h)
  have hread := (hx.carries.read_readable (x.connOf fd) bytes.length).trans
    (hx.carries.sent_prefix (x.connOf fd))
  rw [hunread, List.nil_append, ← hbytes, (hx.linked fd hfd).2, hsent] at hread
  exact hread

/-- The theorem at a run: one connection, whose request has been sent back. -/
theorem answered_oneConn :
    ∃ x y, (echoBenchmark 1 3).Reachable x ∧
      (echoBenchmark 1 3).step x (.client (.recv (.ok [112]))) y ∧
      x.client.sent 4 = TcpBenchmark.request := by
  obtain ⟨service, hwaiting, -, -, -, -, -, -, hreadable⟩ := reaches_waiting
  have hrun : (echoBenchmark 1 3).IsRun (waitingOn service)
      [(.client (.epollWait (.ok [⟨4, ⟨true, false, false, false, false⟩⟩])), _),
        (.client .handle, _)] :=
    ⟨⟨allows_plain (TcpBenchmark.kernel_epollWait_one rfl (by decide)) rfl, rfl⟩,
      ⟨allows_plain trivial rfl, rfl⟩, trivial⟩
  let x : EchoBenchmark := { waitingOn service with client := { waiting with pc := .recv 4 [] } }
  have hx : (echoBenchmark 1 3).Reachable x := hwaiting.reaches hrun.reaches
  have hrecv : x.Allows (.client (.recv (.ok [112]))) := by
    refine ⟨Nat.le_of_ble_eq_true rfl, fun errno h => (by cases h), ?_⟩
    intro fd rest bytes hpc h
    obtain ⟨rfl, rfl⟩ := BenchmarkPc.recv.inj (show BenchmarkPc.recv 4 [] = .recv fd rest from hpc)
    obtain rfl := Except.ok.inj (BenchmarkCall.recv.inj h)
    exact hreadable.symm
  have hstep : (echoBenchmark 1 3).step x (.client (.recv (.ok [112]))) _ := ⟨hrecv, rfl⟩
  exact ⟨x, _, hx, hstep, (answered hx rfl hstep).1⟩

end EchoBenchmark
end MySvrKit
