import MySvrKit.EventLoopSteps

/-! # Registration that fails half-way

`AddHandler`, `RemoveHandler` and `ServerHandler::Handle` each change two or three
tables with a system call between them, and none undoes what it has done when the
call fails.  Here each is one function of the results of its calls; the event loop
runs it call by call. -/

namespace MySvrKit

namespace IOLoop

/-- `IOLoop::AddHandler`: what it returns and leaves, by the result of
`epoll_ctl`. -/
def addHandler (s : Server) (fd : Fd) (handler : Handler) (events : EpollEvents)
    (add : Except Errno Unit) : Int × Server :=
  let s := { s with handlers := Function.update s.handlers fd (some handler) }
  match add with
  | .error errno => (-1, { s with errno })
  | .ok () => (0, { s with registered := Function.update s.registered fd (some events) })

/-- `IOLoop::RemoveHandler`, by the results of `epoll_ctl` and `close`. -/
def removeHandler (s : Server) (fd : Fd) (del close : Except Errno Unit) : Int × Server :=
  match del with
  | .error errno => (-1, { s with errno })
  | .ok () =>
      let s := { s with registered := Function.update s.registered fd none }
      match close with
      | .error errno => (-1, { s with errno })
      | .ok () =>
          (0, { s with
            sockets := Function.update s.sockets fd none
            handlers := Function.update s.handlers fd none
            deleted := s.deleted ++ (s.handlers fd).toList })

end IOLoop

/-- `ServerHandler::Handle`, by the results of `accept4` and `epoll_ctl`.  It drops
what `AddHandler` returns. -/
def ServerHandler.handle (s : Server) (accept : Except Errno Accepted)
    (add : Except Errno Unit) : Int × Server :=
  match accept with
  | .error errno => (-1, { s with errno })
  | .ok accepted =>
      let clientHandler := s.created
      let s := { s with
        sockets := Function.update s.sockets accepted.clientFd (some (.client clientHandler))
        inetNtoaBuffer := accepted.clientAddr
        fdToClientaddrMap := Function.update s.fdToClientaddrMap accepted.clientFd
          (some (.staticBuffer, accepted.clientPort))
        echoHandlers := Function.update s.echoHandlers clientHandler ⟨false, []⟩
        created := clientHandler + 1 }
      (0, (IOLoop.addHandler s accepted.clientFd (.echo clientHandler) .inEt add).2)

namespace Server
variable {s : Server} {fd : Fd} {rest : List EpollEvent}

/-! ## As the event loop runs them -/

theorem exec_removeHandler {ret : Option Int} (hpc : s.pc = .epollCtlDel fd ret rest)
    (del close : Except Errno Unit) :
    TransitionSystem.exec next s
        (match del with
          | .error _ => [.epollCtl del]
          | .ok () => [.epollCtl del, .close close]) =
      some ((IOLoop.removeHandler s fd del close).2.handled fd
        (ret.getD (IOLoop.removeHandler s fd del close).1) rest) := by
  cases del with
  | error errno =>
    simp only [TransitionSystem.exec, next, hpc, Option.bind_some]
    rfl
  | ok u =>
    simp only [TransitionSystem.exec, next, hpc, Option.bind_some, afterEpollCtlDel]
    cases close with
    | error errno => rfl
    | ok u =>
      -- `close` takes the descriptor out of the epoll set once more
      simp only [afterClose, Function.update_idem]
      rfl

theorem exec_serverHandle (hpc : s.pc = .accept4 fd rest) (accept : Except Errno Accepted)
    (add : Except Errno Unit) :
    TransitionSystem.exec next s
        (match accept with
          | .error _ => [.accept4 accept]
          | .ok _ => [.accept4 accept, .epollCtl add]) =
      some ((ServerHandler.handle s accept add).2.handled fd
        (ServerHandler.handle s accept add).1 rest) := by
  cases accept with
  | error errno =>
    simp only [TransitionSystem.exec, next, hpc, Option.bind_some]
    rfl
  | ok accepted =>
    simp only [TransitionSystem.exec, next, hpc, Option.bind_some, afterAccept4]
    cases add with
    | error errno => rfl
    | ok u => rfl

/-! ## What a failure leaves behind -/

theorem addHandler_atomic_iff (s : Server) (fd : Fd) (handler : Handler) (events : EpollEvents)
    (add : Except Errno Unit) :
    ((IOLoop.addHandler s fd handler events add).1 ≠ 0 →
        (IOLoop.addHandler s fd handler events add).2.handlers = s.handlers ∧
          (IOLoop.addHandler s fd handler events add).2.registered = s.registered) ↔
      add = .ok () ∨ s.handlers fd = some handler := by
  cases add with
  | ok u => exact iff_of_true (fun h => absurd rfl h) (Or.inl rfl)
  | error errno =>
    constructor
    · intro h
      obtain ⟨hhandlers, -⟩ := h (show (-1 : Int) ≠ 0 by decide)
      right
      rw [← hhandlers]
      exact Function.update_self ..
    · rintro (h | h) _
      · cases h
      · exact ⟨Function.update_eq_self_iff.mpr h.symm, rfl⟩

theorem removeHandler_atomic_iff (s : Server) (fd : Fd) (del close : Except Errno Unit) :
    ((IOLoop.removeHandler s fd del close).1 ≠ 0 →
        (IOLoop.removeHandler s fd del close).2.registered = s.registered ∧
          (IOLoop.removeHandler s fd del close).2.handlers = s.handlers ∧
          (IOLoop.removeHandler s fd del close).2.sockets = s.sockets) ↔
      del ≠ .ok () ∨ close = .ok () ∨ s.registered fd = none := by
  cases del with
  | error errno => exact iff_of_true (fun _ => ⟨rfl, rfl, rfl⟩) (Or.inl (by intro h; cases h))
  | ok u =>
    cases close with
    | ok u => exact iff_of_true (fun h => absurd rfl h) (Or.inr (Or.inl rfl))
    | error errno =>
      constructor
      · intro h
        obtain ⟨hregistered, -⟩ := h (show (-1 : Int) ≠ 0 by decide)
        right
        right
        rw [← hregistered]
        exact Function.update_self ..
      · rintro (h | h | h) _
        · exact absurd rfl h
        · cases h
        · exact ⟨Function.update_eq_self_iff.mpr h.symm, rfl, rfl⟩

theorem serverHandle_atomic_iff (s : Server) (accepted : Accepted) (add : Except Errno Unit) :
    (add ≠ .ok () →
        (ServerHandler.handle s (.ok accepted) add).2.sockets accepted.clientFd = none ∧
          (ServerHandler.handle s (.ok accepted) add).2.handlers accepted.clientFd = none ∧
          (ServerHandler.handle s (.ok accepted) add).2.fdToClientaddrMap accepted.clientFd =
            none) ↔
      add = .ok () := by
  cases add with
  | ok u => exact iff_of_true (fun h => absurd rfl h) rfl
  | error errno =>
    refine iff_of_false (fun h => ?_) (by intro h; cases h)
    -- the descriptor is still open
    obtain ⟨hclosed, -, -⟩ := h (by intro h; cases h)
    simp [ServerHandler.handle, IOLoop.addHandler] at hclosed

/-- **Registration is atomic on failure exactly where nothing was done before the call
that failed.**  In every state of the tables: `AddHandler` has stored the handler
before `epoll_ctl`, `RemoveHandler` has left the epoll set before `close`, and
`ServerHandler::Handle` undoes nothing. -/
theorem registration_atomic_iff (s : Server) :
    (∀ fd handler events add,
      ((IOLoop.addHandler s fd handler events add).1 ≠ 0 →
          (IOLoop.addHandler s fd handler events add).2.handlers = s.handlers ∧
            (IOLoop.addHandler s fd handler events add).2.registered = s.registered) ↔
        add = .ok () ∨ s.handlers fd = some handler) ∧
    (∀ fd del close,
      ((IOLoop.removeHandler s fd del close).1 ≠ 0 →
          (IOLoop.removeHandler s fd del close).2.registered = s.registered ∧
            (IOLoop.removeHandler s fd del close).2.handlers = s.handlers ∧
            (IOLoop.removeHandler s fd del close).2.sockets = s.sockets) ↔
        del ≠ .ok () ∨ close = .ok () ∨ s.registered fd = none) ∧
    ∀ accepted add,
      (add ≠ .ok () →
          (ServerHandler.handle s (.ok accepted) add).2.sockets accepted.clientFd = none ∧
            (ServerHandler.handle s (.ok accepted) add).2.handlers accepted.clientFd = none ∧
            (ServerHandler.handle s (.ok accepted) add).2.fdToClientaddrMap accepted.clientFd =
              none) ↔
        add = .ok () :=
  ⟨addHandler_atomic_iff s, removeHandler_atomic_iff s, serverHandle_atomic_iff s⟩

/-- When a client cannot be registered, `AddHandler` keeps its handler and
`ServerHandler::Handle` its descriptor; when a client cannot be closed, it is open and
not in the epoll set. -/
theorem registration_not_atomic :
    ((IOLoop.addHandler (initial 3 0) 5 (.echo 0) .inEt (.error 12)).1 ≠ 0 ∧
        (IOLoop.addHandler (initial 3 0) 5 (.echo 0) .inEt (.error 12)).2.handlers 5 =
          some (.echo 0)) ∧
      ((ServerHandler.handle (initial 3 0) (.ok ⟨5, ['a'], 80⟩) (.error 12)).2.sockets 5 =
          some (.client 0) ∧
        (ServerHandler.handle (initial 3 0) (.ok ⟨5, ['a'], 80⟩) (.error 12)).2.handlers 5 =
          some (.echo 0)) ∧
      (IOLoop.removeHandler (ServerHandler.handle (initial 3 0) (.ok ⟨5, ['a'], 80⟩) (.ok ())).2 5
          (.ok ()) (.error 5)).1 ≠ 0 ∧
        (IOLoop.removeHandler (ServerHandler.handle (initial 3 0) (.ok ⟨5, ['a'], 80⟩)
          (.ok ())).2 5 (.ok ()) (.error 5)).2.registered 5 = none := by
  refine ⟨⟨by decide, rfl⟩, ⟨rfl, rfl⟩, by decide, rfl⟩

end Server
end MySvrKit
