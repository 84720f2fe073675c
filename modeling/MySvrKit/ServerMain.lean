import MySvrKit.HandlerOwnership
import MySvrKit.StepCounts

/-! # From `main` to its end

What `main` does around `Start`: `IOLoop::Init`, `ServerHandler::Init`, and `~IOLoop` when
the process exits.  Any of the calls may fail, and then `main` returns what the call has
returned.  The runs of the server start where `ServerHandler::Init` has returned 0: the
calls of `main` lead there. -/

namespace MySvrKit

/-- Where `main` is: before a system call of `IOLoop::Init`, `ServerHandler::Init` or
`AddHandler`, in `Start`, or in `~IOLoop` with what `main` has returned; `undefined` where
`~IOLoop` comes to delete the `ServerHandler`, which `new` has not made. -/
inductive MainPc
  | epollCreate1
  | fcntlGet
  | fcntlSet (flags : Nat)
  | socket
  | bind (fd : Fd)
  | listen (fd : Fd)
  | epollCtlAdd (fd : Fd)
  | start
  | destroy (ret : Int)
  | close (ret : Int)
  | exited (ret : Int)
  | undefined (ret : Int)

/-- A step of `main`: a system call with its result, a step of `Start`, the return of
`Start`, or the loop of `~IOLoop` in an order of `handlers_`. -/
inductive MainCall
  | epollCreate1 (result : Except Errno Fd)
  | fcntlGet (result : Except Errno Nat)
  | fcntlSet (result : Except Errno Unit)
  | socket (result : Except Errno Fd)
  | bind (result : Except Errno Unit)
  | listen (result : Except Errno Unit)
  | epollCtl (result : Except Errno Unit)
  | start (call : SysCall)
  | leave
  | destroy (order : List Fd)
  | close (result : Except Errno Unit)

structure ServerMain where
  pc : MainPc
  /-- `IOLoop::epfd_`; the `IOLoop` is static, and so it is 0 at first. -/
  epfd : Fd
  server : Server
  /-- What `~IOLoop` has passed to `close`. -/
  closed : List Fd

namespace Server

/-- Before the first call: no handler, no descriptor, no connection. -/
def blank (errno : Errno) : Server where
  pc := .epollWait
  errno := errno
  handlers := fun _ => none
  echoHandlers := fun _ => ⟨false, []⟩
  created := 0
  deleted := []
  fdToClientaddrMap := fun _ => none
  inetNtoaBuffer := []
  sockets := fun _ => none
  registered := fun _ => none
  chunks := fun _ => []
  sent := fun _ => []

/-- `socket` has returned the descriptor. -/
def socket (s : Server) (fd : Fd) : Server :=
  { s with sockets := Function.update s.sockets fd (some .listen) }

/-- `AddHandler` of the `ServerHandler`, up to `epoll_ctl`. -/
def addServerHandler (s : Server) (fd : Fd) : Server :=
  { s with handlers := Function.update s.handlers fd (some .server) }

/-- And after it. -/
def addedServerHandler (s : Server) (fd : Fd) : Server :=
  { s with registered := Function.update s.registered fd (some .onlyIn) }

end Server

namespace ServerMain

/-- `O_NONBLOCK`. -/
def oNonblock : Nat := 2048

/-- `if (ret < 0) return ret;` in the `Init` functions and in `main`; what follows where
the call has not failed. -/
def orReturn {α : Type} (m : ServerMain) (result : Except Errno α) (next : α → ServerMain) :
    ServerMain :=
  match result with
  | .error errno => { m with server := { m.server with errno }, pc := .destroy (-1) }
  | .ok a => next a

/-- One step. -/
def next (m : ServerMain) : MainCall → Option ServerMain
  | .epollCreate1 result =>
      match m.pc with
      | .epollCreate1 => some (m.orReturn result fun fd => { m with epfd := fd, pc := .fcntlGet })
      | _ => none
  | .fcntlGet result =>
      match m.pc with
      | .fcntlGet =>
          some (m.orReturn result fun flags => { m with pc := .fcntlSet (flags ||| oNonblock) })
      | _ => none
  | .fcntlSet result =>
      match m.pc with
      | .fcntlSet _ => some (m.orReturn result fun _ => { m with pc := .socket })
      | _ => none
  | .socket result =>
      match m.pc with
      | .socket =>
          some (m.orReturn result fun fd => { m with server := m.server.socket fd, pc := .bind fd })
      | _ => none
  | .bind result =>
      match m.pc with
      | .bind fd => some (m.orReturn result fun _ => { m with pc := .listen fd })
      | _ => none
  | .listen result =>
      match m.pc with
      | .listen fd =>
          some (m.orReturn result fun _ =>
            { m with server := m.server.addServerHandler fd, pc := .epollCtlAdd fd })
      | _ => none
  | .epollCtl result =>
      match m.pc with
      | .epollCtlAdd fd =>
          some (m.orReturn result fun _ =>
            { m with server := m.server.addedServerHandler fd, pc := .start })
      | _ => none
  | .start call =>
      match m.pc with
      | .start => (m.server.next call).map fun server => { m with server }
      | _ => none
  | .leave =>
      match m.pc, m.server.pc with
      -- `main` returns 0 whatever has ended `Start`
      | .start, .stopped _ => some { m with pc := .destroy 0 }
      | _, _ => none
  | .destroy order =>
      match m.pc with
      | .destroy ret =>
          -- the `ServerHandler` is a local of `main`, and gone by now
          if order.any fun fd => m.server.handlers fd == some .server then
            some { m with pc := .undefined ret }
          else
            some { m with server := m.server.destroy order, pc := .close ret }
      | _ => none
  | .close _ =>
      match m.pc with
      | .close ret => some { m with closed := m.closed ++ [m.epfd], pc := .exited ret }
      | _ => none

/-- What the kernel promises of a call's result, and of the order of `handlers_`. -/
def Kernel (m : ServerMain) : MainCall → Prop
  | .socket (.ok fd) => fd ≠ m.epfd
  | .start call =>
      m.server.Kernel call ∧ ∀ accepted, call = .accept4 (.ok accepted) → accepted.clientFd ≠ m.epfd
  | .destroy order => m.server.Iterates order
  | _ => True

/-- The runs of the process. -/
def runs : TransitionSystem ServerMain MainCall where
  init m := ∃ errno, m = ⟨.epollCreate1, 0, .blank errno, []⟩
  step m call m' := m.Kernel call ∧ m.next call = some m'

end ServerMain

open TransitionSystem

namespace Server
variable {listenFd epfd : Fd} {s t : Server} {call : SysCall}

/-! ## `Start` and the descriptors of `main` -/

theorem handled_of_ne {fd fd' : Fd} (hne : fd' ≠ fd) (ret : Int) (rest : List EpollEvent) :
    (s.handled fd ret rest).handlers fd' = s.handlers fd' := by
  simp only [handled]
  split
  · exact Function.update_of_ne hne ..
  · rfl

/-- **The `ServerHandler` in a step of `Start`**: a failed `accept4` takes it out of
`handlers_`, nothing else does, and nothing deletes it. -/
theorem serverHandler_step (hs : s.Wired listenFd) (hk : s.Kernel call) (h : s.Step call t) :
    (t.handlers listenFd = some .server ↔
        s.handlers listenFd = some .server ∧ ∀ errno, call ≠ .accept4 (.error errno)) ∧
      (.server ∈ t.deleted ↔ .server ∈ s.deleted) := by
  have hhandling := hs.handling
  have hkeep : t.handlers listenFd = s.handlers listenFd →
      (.server ∈ t.deleted ↔ .server ∈ s.deleted) → (∀ errno, call ≠ .accept4 (.error errno)) →
      (t.handlers listenFd = some .server ↔
          s.handlers listenFd = some .server ∧ ∀ errno, call ≠ .accept4 (.error errno)) ∧
        (.server ∈ t.deleted ↔ .server ∈ s.deleted) := fun hhandlers hdeleted hcall =>
    ⟨by rw [hhandlers, and_iff_left hcall], hdeleted⟩
  cases h with
  | @acceptErr errno fd rest hpc =>
    simp only [Handling, hpc] at hhandling
    subst hhandling
    refine ⟨iff_of_false ?_ fun h => h.2 errno rfl, Iff.rfl⟩
    rw [handled_handlers (by decide) rest, Function.update_self]
    intro h
    cases h
  | @accept accepted fd rest hpc =>
    have hfree : s.sockets accepted.clientFd = none := hk
    have hne : listenFd ≠ accepted.clientFd := by
      rintro rfl
      rw [hs.tables.listening] at hfree
      cases hfree
    exact hkeep (Function.update_of_ne hne ..) Iff.rfl (by intro _ h; cases h)
  | @notSupport event rest id hpc hh hin hout =>
    exact hkeep (handled_of_ne (hs.tables.echo_ne hh).symm _ rest) Iff.rfl (by intro _ h; cases h)
  | @delErr errno fd ret rest hpc =>
    simp only [Handling, hpc] at hhandling
    obtain ⟨⟨id, hh⟩, -⟩ := hhandling
    exact hkeep (handled_of_ne (hs.tables.echo_ne hh).symm _ rest) Iff.rfl (by intro _ h; cases h)
  | @closeErr errno fd ret rest hpc =>
    simp only [Handling, hpc] at hhandling
    obtain ⟨⟨id, hh⟩, -⟩ := hhandling
    exact hkeep (handled_of_ne (hs.tables.echo_ne hh).symm _ rest) Iff.rfl (by intro _ h; cases h)
  | @close fd ret rest hpc =>
    simp only [Handling, hpc] at hhandling
    obtain ⟨⟨id, hh⟩, -⟩ := hhandling
    refine hkeep ?_ ?_ (by intro _ h; cases h)
    · rw [afterClose_handlers]
      exact Function.update_of_ne (hs.tables.echo_ne hh).symm ..
    · show .server ∈ s.deleted ++ (s.handlers fd).toList ↔ _
      simp [hh]
  | @sendData event rest id hpc hh hout hreceived =>
    obtain ⟨hhandlers, hdeleted, -, -⟩ := sendLoop_owning s event.fd id 0 rest
    exact hkeep (congrFun hhandlers _) (by rw [hdeleted]) (by intro _ h; cases h)
  | @sendBytes ret fd id sentBufferLength rest hpc =>
    obtain ⟨hhandlers, hdeleted, -, -⟩ := sendLoop_owning (s.recordSent fd _) fd id _ rest
    refine hkeep (congrFun hhandlers _) ?_ (by intro _ h; cases h)
    show .server ∈ (sendLoop ..).deleted ↔ _
    rw [hdeleted]
    rfl
  | @recvChunk bytes fd id rest hpc hne =>
    obtain ⟨pc, handler, -, -, he⟩ := afterRecv_eq s fd id rest hne
    rw [he] at hkeep ⊢
    exact hkeep rfl Iff.rfl (by intro _ h; cases h)
  | _ => exact hkeep rfl Iff.rfl (by intro _ h; cases h)

/-- There is no other `ServerHandler`. -/
theorem exists_server_iff (h : (runs listenFd).Reachable s) :
    (∃ fd, s.handlers fd = some .server) ↔ s.handlers listenFd = some .server := by
  refine ⟨?_, fun h => ⟨listenFd, h⟩⟩
  rintro ⟨fd, hfd⟩
  rwa [(wired h).tables.server_listen fd hfd] at hfd

/-- A descriptor that `accept4` does not return stays out of the server's hands. -/
theorem unshared_step (h : s.Step call t) (hfree : s.sockets epfd = none)
    (hnew : ∀ accepted, call = .accept4 (.ok accepted) → accepted.clientFd ≠ epfd) :
    t.sockets epfd = none := by
  cases h with
  | @accept accepted fd rest hpc =>
    exact (Function.update_of_ne (hnew accepted rfl).symm ..).trans hfree
  | @close fd ret rest hpc =>
    show Function.update s.sockets fd none epfd = none
    by_cases he : epfd = fd
    · rw [he, Function.update_self]
    · rw [Function.update_of_ne he, hfree]
  | sendData hpc hh hout hreceived => rw [sendLoop_sockets, hfree]
  | sendBytes hpc =>
    show (sendLoop ..).sockets epfd = none
    rw [sendLoop_sockets]
    exact hfree
  | @recvChunk bytes fd id rest hpc hne =>
    obtain ⟨pc, handler, -, -, he⟩ := afterRecv_eq s fd id rest hne
    rw [he]
    exact hfree
  | _ => exact hfree

end Server

/-! ## The steps of `main` -/

namespace MainCall

/-- A call of `main`'s set-up that has failed. -/
def failed : MainCall → Bool
  | .epollCreate1 (.error _) | .fcntlGet (.error _) | .fcntlSet (.error _) | .socket (.error _)
  | .bind (.error _) | .listen (.error _) | .epollCtl (.error _) => true
  | _ => false

/-- One that sets `epfd_`, enters `Start` or is made in it. -/
def marks : MainCall → Bool
  | .epollCreate1 (.ok _) | .epollCtl (.ok ()) | .start _ => true
  | _ => false

theorem marks_of_failed {call : MainCall} (h : call.failed = true) : call.marks = false := by
  unfold failed at h
  split at h
  · rfl
  · rfl
  · rfl
  · rfl
  · rfl
  · rfl
  · rfl
  · cases h

end MainCall

namespace MainPc

/-- Before `Start`. -/
def setup : MainPc → Bool
  | .epollCreate1 | .fcntlGet | .fcntlSet _ | .socket | .bind _ | .listen _ | .epollCtlAdd _ => true
  | .start | .destroy _ | .close _ | .exited _ | .undefined _ => false

/-- What `main` has returned. -/
def ret : MainPc → Option Int
  | .destroy ret | .close ret | .exited ret | .undefined ret => some ret
  | _ => none

/-- `Start` has been entered. -/
def Entered (pc : MainPc) : Prop := pc.setup = false ∧ pc.ret ≠ some (-1)

/-- The loop of `~IOLoop` has run, or come to the `ServerHandler`. -/
def destroyed : MainPc → Bool
  | .close _ | .exited _ | .undefined _ => true
  | _ => false

theorem destroyed_of_setup {pc : MainPc} (h : pc.setup = true) : pc.destroyed = false := by
  cases pc with
  | close ret | exited ret | undefined ret => cases h
  | _ => rfl

/-- What `~IOLoop` has closed. -/
def closed (pc : MainPc) (epfd : Fd) : List Fd :=
  match pc with
  | .exited _ => [epfd]
  | _ => []

theorem closed_of_setup {pc : MainPc} {epfd : Fd} (h : pc.setup = true) :
    pc.closed epfd = [] := by
  cases pc with
  | exited ret => cases h
  | _ => rfl

end MainPc

namespace ServerMain
variable {m m' : ServerMain} {call : MainCall} {run : List (MainCall × ServerMain)}

/-- The steps of `main`, by branches of the source. -/
inductive Step (m : ServerMain) : MainCall → ServerMain → Prop
  | fails {call errno} (hpc : m.pc.setup = true) (hcall : call.failed = true) :
      Step m call { m with server := { m.server with errno }, pc := .destroy (-1) }
  | epollCreate1 {fd} (hpc : m.pc = .epollCreate1) :
      Step m (.epollCreate1 (.ok fd)) { m with epfd := fd, pc := .fcntlGet }
  | fcntlGet {flags} (hpc : m.pc = .fcntlGet) :
      Step m (.fcntlGet (.ok flags)) { m with pc := .fcntlSet (flags ||| oNonblock) }
  | fcntlSet {flags} (hpc : m.pc = .fcntlSet flags) :
      Step m (.fcntlSet (.ok ())) { m with pc := .socket }
  | socket {fd} (hpc : m.pc = .socket) :
      Step m (.socket (.ok fd)) { m with server := m.server.socket fd, pc := .bind fd }
  | bind {fd} (hpc : m.pc = .bind fd) : Step m (.bind (.ok ())) { m with pc := .listen fd }
  | listen {fd} (hpc : m.pc = .listen fd) :
      Step m (.listen (.ok ()))
        { m with server := m.server.addServerHandler fd, pc := .epollCtlAdd fd }
  | epollCtl {fd} (hpc : m.pc = .epollCtlAdd fd) :
      Step m (.epollCtl (.ok ())) { m with server := m.server.addedServerHandler fd, pc := .start }
  | start {call server} (hpc : m.pc = .start) (hnext : m.server.next call = some server) :
      Step m (.start call) { m with server }
  | leave {reason} (hpc : m.pc = .start) (hstopped : m.server.pc = .stopped reason) :
      Step m .leave { m with pc := .destroy 0 }
  | destroy {ret order} (hpc : m.pc = .destroy ret)
      (hecho : ∀ fd ∈ order, m.server.handlers fd ≠ some .server) :
      Step m (.destroy order) { m with server := m.server.destroy order, pc := .close ret }
  | deleteLocal {ret order fd} (hpc : m.pc = .destroy ret) (hfd : fd ∈ order)
      (hserver : m.server.handlers fd = some .server) :
      Step m (.destroy order) { m with pc := .undefined ret }
  | close {ret result} (hpc : m.pc = .close ret) :
      Step m (.close result) { m with closed := m.closed ++ [m.epfd], pc := .exited ret }

theorem step_of_next (h : m.next call = some m') : m.Step call m' := by
  cases call with
  | epollCreate1 result | fcntlGet result | fcntlSet result | socket result | bind result
  | listen result | epollCtl result =>
    simp only [next] at h
    split at h
    · rename_i hpc
      obtain rfl := Option.some.inj h
      cases result with
      | error errno => exact .fails (by rw [hpc]; rfl) rfl
      | ok value => constructor; exact hpc
    · cases h
  | start call =>
    simp only [next] at h
    split at h
    · rename_i hpc
      obtain ⟨server, hnext, rfl⟩ := Option.map_eq_some_iff.mp h
      exact .start hpc hnext
    · cases h
  | leave =>
    simp only [next] at h
    split at h
    · rename_i hpc hstopped
      obtain rfl := Option.some.inj h
      exact .leave hpc hstopped
    · cases h
  | destroy order =>
    simp only [next] at h
    split at h
    · rename_i hpc
      split at h
      · rename_i hany
        obtain rfl := Option.some.inj h
        obtain ⟨fd, hfd, hserver⟩ := List.any_eq_true.mp hany
        exact .deleteLocal hpc hfd (beq_iff_eq.mp hserver)
      · rename_i hnone
        obtain rfl := Option.some.inj h
        refine .destroy hpc fun fd hfd hserver => hnone ?_
        exact List.any_eq_true.mpr ⟨fd, hfd, beq_iff_eq.mpr hserver⟩
    · cases h
  | close result =>
    simp only [next] at h
    split at h
    · rename_i hpc
      obtain rfl := Option.some.inj h
      exact .close hpc
    · cases h

/-! ## What `main` returns -/

/-- `epfd_`, and how far `main` has come. -/
structure Tracked (run : List (MainCall × ServerMain)) (m : ServerMain) : Prop where
  epfd : ∀ fd, Occurs (.epollCreate1 (.ok fd)) run → m.epfd = fd
  unset : (∀ fd, ¬ Occurs (.epollCreate1 (.ok fd)) run) → m.epfd = 0
  first : m.pc = .epollCreate1 → ∀ fd, ¬ Occurs (.epollCreate1 (.ok fd)) run
  entered : Occurs (.epollCtl (.ok ())) run ↔ m.pc.Entered
  started : ∀ call, Occurs (.start call) run → Occurs (.epollCtl (.ok ())) run
  ret : ∀ ret, m.pc.ret = some ret → ret = 0 ∨ ret = -1
  closed : m.closed = m.pc.closed m.epfd

/-- A step that is none of those `Tracked` speaks of. -/
theorem Tracked.keep (h : Tracked run m) (hcall : call.marks = false) (hepfd : m'.epfd = m.epfd)
    (hfirst : m'.pc ≠ .epollCreate1) (hentered : m'.pc.Entered ↔ m.pc.Entered)
    (hret : ∀ ret, m'.pc.ret = some ret → ret = 0 ∨ ret = -1)
    (hclosed : m'.closed = m'.pc.closed m'.epfd) : Tracked (run ++ [(call, m')]) m' := by
  have hsame : ∀ {noted : MainCall}, noted.marks = true →
      (Occurs noted (run ++ [(call, m')]) ↔ Occurs noted run) := by
    intro noted hnoted
    refine occurs_concat.trans (or_iff_left ?_)
    rintro rfl
    rw [hcall] at hnoted
    cases hnoted
  have hcreate : ∀ fd, Occurs (.epollCreate1 (.ok fd)) (run ++ [(call, m')]) ↔
      Occurs (.epollCreate1 (.ok fd)) run := fun fd => hsame rfl
  refine ⟨fun fd hfd => ?_, fun hnever => ?_, fun h => absurd h hfirst, ?_, ?_, hret, hclosed⟩
  · exact hepfd.trans (h.epfd fd ((hcreate fd).mp hfd))
  · exact hepfd.trans (h.unset fun fd hfd => hnever fd ((hcreate fd).mpr hfd))
  · exact (hsame rfl).trans (h.entered.trans hentered.symm)
  · exact fun c hc => (hsame rfl).mpr (h.started c ((hsame rfl).mp hc))

theorem Tracked.step (h : Tracked run m) (hstep : m.Step call m') :
    Tracked (run ++ [(call, m')]) m' := by
  have hnone : ∀ {ret : Int}, none = some ret → ret = 0 ∨ ret = -1 := fun h => by cases h
  cases hstep with
  | @fails call errno hpc hcall =>
    refine h.keep (MainCall.marks_of_failed hcall) rfl (fun h => by cases h) ?_ ?_ ?_
    · refine iff_of_false (fun h => h.2 rfl) fun h => ?_
      rw [h.1] at hpc
      cases hpc
    · exact fun ret h => Or.inr (Option.some.inj h).symm
    · exact h.closed.trans (MainPc.closed_of_setup hpc)
  | @epollCreate1 fd hpc =>
    have hfirst := h.first hpc
    constructor
    · intro fd' hfd
      rcases occurs_concat.mp hfd with hfd | hfd
      · exact absurd hfd (hfirst fd')
      · cases hfd
        rfl
    · exact fun hnever => absurd (occurs_concat.mpr (Or.inr rfl)) (hnever fd)
    · exact fun h => by cases h
    · have hentered := h.entered
      rw [hpc] at hentered
      rw [occurs_concat, or_iff_left (by intro h; cases h)]
      exact hentered
    · intro call hcall
      rw [occurs_concat, or_iff_left (by intro h; cases h)] at hcall ⊢
      exact h.started call hcall
    · exact fun _ => hnone
    · exact h.closed.trans (by rw [hpc]; rfl)
  | fcntlGet hpc | fcntlSet hpc | socket hpc | bind hpc | listen hpc =>
    refine h.keep rfl rfl (fun h => by cases h) ?_ (fun _ => hnone) (h.closed.trans ?_)
    · rw [hpc]
      rfl
    · rw [hpc]
      rfl
  | @epollCtl fd hpc =>
    have hmade : Occurs (.epollCtl (.ok ())) (run ++ [(.epollCtl (.ok ()),
        { m with server := m.server.addedServerHandler fd, pc := .start })]) :=
      occurs_concat.mpr (Or.inr rfl)
    constructor
    · intro fd' hfd
      rw [occurs_concat, or_iff_left (by intro h; cases h)] at hfd
      exact h.epfd fd' hfd
    · intro hnever
      refine h.unset fun fd' hfd => hnever fd' (occurs_concat.mpr (Or.inl hfd))
    · exact fun h => by cases h
    · exact iff_of_true hmade ⟨rfl, by intro h; cases h⟩
    · exact fun _ _ => hmade
    · exact fun _ => hnone
    · exact h.closed.trans (by rw [hpc]; rfl)
  | @start call server hpc hnext =>
    have hmade : Occurs (.epollCtl (.ok ())) run :=
      h.entered.mpr (by rw [hpc]; exact ⟨rfl, by intro h; cases h⟩)
    constructor
    · intro fd' hfd
      rw [occurs_concat, or_iff_left (by intro h; cases h)] at hfd
      exact h.epfd fd' hfd
    · intro hnever
      refine h.unset fun fd' hfd => hnever fd' (occurs_concat.mpr (Or.inl hfd))
    · exact fun h => by rw [hpc] at h; cases h
    · exact iff_of_true (occurs_concat.mpr (Or.inl hmade)) (h.entered.mp hmade)
    · exact fun _ _ => occurs_concat.mpr (Or.inl hmade)
    · exact h.ret
    · exact h.closed
  | leave hpc hstopped =>
    refine h.keep rfl rfl (fun h => by cases h) ?_ ?_ (h.closed.trans (by rw [hpc]; rfl))
    · rw [hpc]
      exact iff_of_true ⟨rfl, (by intro h; cases h)⟩ ⟨rfl, (by intro h; cases h)⟩
    · exact fun ret h => Or.inl (Option.some.inj h).symm
  | destroy hpc | deleteLocal hpc =>
    refine h.keep rfl rfl (fun h => by cases h) (by rw [hpc]; rfl) ?_
      (h.closed.trans (by rw [hpc]; rfl))
    intro ret hret
    exact h.ret ret (by rw [hpc]; exact hret)
  | close hpc =>
    refine h.keep rfl rfl (fun h => by cases h) (by rw [hpc]; rfl) ?_ ?_
    · intro ret hret
      exact h.ret ret (by rw [hpc]; exact hret)
    · show m.closed ++ [m.epfd] = [m.epfd]
      rw [h.closed, hpc]
      rfl

/-! ## The server from `socket` to `~IOLoop` -/

/-- The server in each part of `main`. -/
def Phase (run : List (MainCall × ServerMain)) (m : ServerMain) : Prop :=
  match m.pc with
  | .epollCreate1 | .fcntlGet | .fcntlSet _ | .socket => ∃ errno, m.server = .blank errno
  | .bind fd | .listen fd =>
      Occurs (.socket (.ok fd)) run ∧ ∃ errno, m.server = (Server.blank errno).socket fd
  | .epollCtlAdd fd =>
      Occurs (.socket (.ok fd)) run ∧
        ∃ errno, m.server = ((Server.blank errno).socket fd).addServerHandler fd
  | .start => ∃ fd, Occurs (.socket (.ok fd)) run ∧ (Server.runs fd).Reachable m.server
  | .destroy _ | .close _ | .exited _ | .undefined _ => True

/-- The descriptors of `main` are its own. -/
structure Serving (run : List (MainCall × ServerMain)) (m : ServerMain) : Prop where
  phase : m.Phase run
  unshared : m.server.sockets m.epfd = none
  listening : ∀ fd, Occurs (.socket (.ok fd)) run → m.server.sockets fd = some .listen

/-- A step that opens no descriptor. -/
theorem Serving.keep (h : Serving run m) (hcall : ∀ fd, call ≠ .socket (.ok fd))
    (hepfd : m'.epfd = m.epfd) (hsockets : m'.server.sockets = m.server.sockets)
    (hphase : m'.Phase (run ++ [(call, m')])) : Serving (run ++ [(call, m')]) m' where
  phase := hphase
  unshared := by rw [hsockets, hepfd, h.unshared]
  listening fd hfd := by
    rw [hsockets]
    exact h.listening fd ((occurs_concat.mp hfd).resolve_right fun he => hcall fd he.symm)

theorem Serving.step (h : Serving run m) (hk : m.Kernel call) (hstep : m.Step call m') :
    Serving (run ++ [(call, m')]) m' := by
  have hphase := h.phase
  have hmade : ∀ {noted : MainCall} {c : MainCall} {t : ServerMain}, Occurs noted run →
      Occurs noted (run ++ [(c, t)]) := fun h => occurs_concat.mpr (Or.inl h)
  cases hstep with
  | @fails call errno hpc hcall =>
    refine h.keep ?_ rfl rfl trivial
    rintro fd rfl
    cases hcall
  | @epollCreate1 fd hpc =>
    simp only [Phase, hpc] at hphase
    obtain ⟨errno, hserver⟩ := hphase
    constructor
    · exact ⟨errno, hserver⟩
    · show m.server.sockets fd = none
      rw [hserver]
      rfl
    · intro fd' hfd
      exact h.listening fd' ((occurs_concat.mp hfd).resolve_right (by intro h; cases h))
  | fcntlGet hpc | fcntlSet hpc =>
    simp only [Phase, hpc] at hphase
    exact h.keep (by intro _ h; cases h) rfl rfl hphase
  | @socket fd hpc =>
    simp only [Phase, hpc] at hphase
    obtain ⟨errno, hserver⟩ := hphase
    constructor
    · exact ⟨occurs_concat.mpr (Or.inr rfl), errno, by rw [hserver]⟩
    · have hne : m.epfd ≠ fd := Ne.symm hk
      exact (Function.update_of_ne hne ..).trans h.unshared
    · intro fd' hfd
      by_cases he : fd' = fd
      · rw [he]
        exact Function.update_self ..
      · have hbefore := (occurs_concat.mp hfd).resolve_right fun h => he (by cases h; rfl)
        exact (Function.update_of_ne he ..).trans (h.listening fd' hbefore)
  | @bind fd hpc =>
    simp only [Phase, hpc] at hphase
    exact h.keep (by intro _ h; cases h) rfl rfl ⟨hmade hphase.1, hphase.2⟩
  | @listen fd hpc =>
    simp only [Phase, hpc] at hphase
    obtain ⟨hsocket, errno, hserver⟩ := hphase
    exact h.keep (by intro _ h; cases h) rfl rfl ⟨hmade hsocket, errno, by rw [hserver]⟩
  | @epollCtl fd hpc =>
    simp only [Phase, hpc] at hphase
    obtain ⟨hsocket, errno, hserver⟩ := hphase
    refine h.keep (by intro _ h; cases h) rfl rfl ⟨fd, hmade hsocket, ?_⟩
    -- the calls have led to where the runs of the server begin
    have hinitial : m.server.addedServerHandler fd = Server.initial fd errno := by
      rw [hserver]
      rfl
    exact hinitial ▸ Reachable.initial ⟨errno, rfl⟩
  | @start call server hpc hnext =>
    simp only [Phase, hpc] at hphase
    obtain ⟨listenFd, hsocket, hreach⟩ := hphase
    have ht : (Server.runs listenFd).Reachable server := hreach.step (l := call) ⟨hk.1, hnext⟩
    constructor
    · simp only [Phase, hpc]
      exact ⟨listenFd, hmade hsocket, ht⟩
    · exact Server.unshared_step (Server.step_of_next hnext) h.unshared hk.2
    · intro fd hfd
      have hbefore := (occurs_concat.mp hfd).resolve_right (by intro h; cases h)
      have hlisten := (Server.wired hreach).tables.listen_only fd (h.listening fd hbefore)
      rw [hlisten]
      exact (Server.wired ht).tables.listening
  | leave hpc hstopped => exact h.keep (by intro _ h; cases h) rfl rfl trivial
  | destroy hpc | deleteLocal hpc => exact h.keep (by intro _ h; cases h) rfl rfl trivial
  | close hpc => exact h.keep (by intro _ h; cases h) rfl rfl trivial

/-- `AddHandler` has stored the `ServerHandler`, and no `accept4` has failed. -/
def Stored (run : List (MainCall × ServerMain)) : Prop :=
  Occurs (.listen (.ok ())) run ∧ ∀ errno, ¬ Occurs (.start (.accept4 (.error errno))) run

theorem stored_concat (hlisten : call ≠ .listen (.ok ()))
    (haccept : ∀ errno, call ≠ .start (.accept4 (.error errno))) :
    Stored (run ++ [(call, m)]) ↔ Stored run := by
  have hother : ∀ errno, Occurs (.start (.accept4 (.error errno))) (run ++ [(call, m)]) ↔
      Occurs (.start (.accept4 (.error errno))) run := fun errno =>
    occurs_concat.trans (or_iff_left (haccept errno).symm)
  refine and_congr (occurs_concat.trans (or_iff_left hlisten.symm)) ?_
  exact forall_congr' fun errno => not_congr (hother errno)

/-- The `ServerHandler` is in `handlers_` exactly as long as it is `Stored`, `~IOLoop` comes
to delete it then, and nothing has deleted it. -/
def Held (run : List (MainCall × ServerMain)) (m : ServerMain) : Prop :=
  .server ∉ m.server.deleted ∧
    match m.pc with
    | .close _ | .exited _ => ¬ Stored run
    | .undefined _ => Stored run
    | _ => (∃ fd, m.server.handlers fd = some .server) ↔ Stored run

theorem held_iff (hpc : m.pc.destroyed = false) : Held run m ↔ .server ∉ m.server.deleted ∧
    ((∃ fd, m.server.handlers fd = some .server) ↔ Stored run) := by
  cases hpc' : m.pc with
  | close ret | exited ret | undefined ret =>
    rw [hpc'] at hpc
    cases hpc
  | _ => simp only [Held, hpc']

/-- A step that leaves `handlers_`. -/
theorem Held.keep (h : Held run m) (hpc : m.pc.destroyed = false)
    (hpc' : m'.pc.destroyed = false) (hhandlers : m'.server.handlers = m.server.handlers)
    (hdeleted : m'.server.deleted = m.server.deleted) (hlisten : call ≠ .listen (.ok ()))
    (haccept : ∀ errno, call ≠ .start (.accept4 (.error errno))) :
    Held (run ++ [(call, m')]) m' := by
  rw [held_iff hpc] at h
  rw [held_iff hpc', hhandlers, hdeleted, stored_concat hlisten haccept]
  exact h

theorem Held.step (h : Held run m) (htracked : Tracked run m) (hserving : Serving run m)
    (hk : m.Kernel call) (hstep : m.Step call m') : Held (run ++ [(call, m')]) m' := by
  cases hstep with
  | @fails call errno hpc hcall =>
    refine h.keep (MainPc.destroyed_of_setup hpc) rfl rfl rfl ?_ ?_
    · rintro rfl
      cases hcall
    · rintro errno rfl
      cases hcall
  | epollCreate1 hpc | fcntlGet hpc | fcntlSet hpc | socket hpc | bind hpc | epollCtl hpc
  | leave hpc =>
    exact h.keep (by rw [hpc]; rfl) rfl rfl rfl (by intro h; cases h) (by intro _ h; cases h)
  | @listen fd hpc =>
    rw [held_iff (by rw [hpc]; rfl)] at h
    refine (held_iff rfl).mpr ⟨h.1, iff_of_true ⟨fd, Function.update_self ..⟩ ?_⟩
    refine ⟨occurs_concat.mpr (Or.inr rfl), fun errno haccept => ?_⟩
    -- `Start` has not been entered
    have hbefore := (occurs_concat.mp haccept).resolve_right (by intro h; cases h)
    have hentered := htracked.entered.mp (htracked.started _ hbefore)
    rw [hpc] at hentered
    cases hentered.1
  | @start call server hpc hnext =>
    have hphase := hserving.phase
    simp only [Phase, hpc] at hphase
    obtain ⟨listenFd, -, hreach⟩ := hphase
    have ht : (Server.runs listenFd).Reachable server := hreach.step (l := call) ⟨hk.1, hnext⟩
    obtain ⟨hhandler, hdeleted⟩ :=
      Server.serverHandler_step (Server.wired hreach) hk.1 (Server.step_of_next hnext)
    rw [held_iff (by rw [hpc]; rfl)] at h
    rw [held_iff (by show m.pc.destroyed = false; rw [hpc]; rfl)]
    refine ⟨fun hmem => h.1 (hdeleted.mp hmem), ?_⟩
    rw [Server.exists_server_iff ht, hhandler, ← Server.exists_server_iff hreach, h.2]
    constructor
    · rintro ⟨⟨hlisten, hnone⟩, hcall⟩
      refine ⟨occurs_concat.mpr (Or.inl hlisten), fun errno haccept => ?_⟩
      rcases occurs_concat.mp haccept with haccept | he
      · exact hnone errno haccept
      · exact hcall errno (MainCall.start.inj he).symm
    · rintro ⟨hlisten, hnone⟩
      refine ⟨⟨(occurs_concat.mp hlisten).resolve_right (by intro h; cases h), ?_⟩, ?_⟩
      · exact fun errno haccept => hnone errno (occurs_concat.mpr (Or.inl haccept))
      · rintro errno rfl
        exact hnone errno (occurs_concat.mpr (Or.inr rfl))
  | @destroy ret order hpc hecho =>
    rw [held_iff (by rw [hpc]; rfl)] at h
    obtain ⟨hdeleted, hstored⟩ := h
    constructor
    · show .server ∉ m.server.deleted ++ order.filterMap m.server.handlers
      rw [List.mem_append, or_iff_right hdeleted, List.mem_filterMap]
      rintro ⟨fd, hfd, hserver⟩
      exact hecho fd hfd hserver
    · show ¬ Stored (run ++ [_])
      rw [stored_concat (by intro h; cases h) (by intro _ h; cases h), ← hstored]
      rintro ⟨fd, hserver⟩
      -- the loop comes to every handler
      exact hecho fd ((hk.2 fd).mpr (by rw [hserver]; rfl)) hserver
  | @deleteLocal ret order fd hpc hfd hserver =>
    rw [held_iff (by rw [hpc]; rfl)] at h
    refine ⟨h.1, ?_⟩
    show Stored (run ++ [_])
    rw [stored_concat (by intro h; cases h) (by intro _ h; cases h), ← h.2]
    exact ⟨fd, hserver⟩
  | close hpc =>
    simp only [Held, hpc] at h
    refine ⟨h.1, ?_⟩
    show ¬ Stored (run ++ [_])
    rw [stored_concat (by intro h; cases h) (by intro _ h; cases h)]
    exact h.2

/-! ## Every run of the process -/

end ServerMain
end MySvrKit
