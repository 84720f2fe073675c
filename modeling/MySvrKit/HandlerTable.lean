import MySvrKit.EchoIntegrity

/-! # The handler table

`handlers_`, the epoll set and the open descriptors are three tables that `Start`,
`AddHandler`, `RemoveHandler` and the two `Handle` methods keep in step.  `Start`
takes a nonzero result to mean that the descriptor is gone, but two results leave it
open and registered: that of `EchoHandler::Handle` for an event without `EPOLLIN`
and `EPOLLOUT`, and that of `ServerHandler::Handle` when `accept4` fails.  The tables
agree in a run exactly as long as neither happens. -/

namespace MySvrKit

/-- A descriptor that is open and not in the epoll set: one about to be registered,
or about to be closed. -/
def Pc.unregistered : Pc → Option Fd
  | .epollCtlAdd _ clientFd _ => some clientFd
  | .close fd _ _ => some fd
  | .epollWait | .event _ | .accept4 _ _ | .recv _ _ _ | .send _ _ _ _ | .epollCtlMod _ _ _
  | .epollCtlDel _ _ _ | .stopped _ => none

namespace Server
variable {listenFd fd : Fd} {s t : Server} {call : SysCall}

/-- The open descriptors, the epoll set and `handlers_` have the same members. -/
def TablesAgree (s : Server) : Prop :=
  ∀ fd, (s.sockets fd).isSome = (s.registered fd).isSome ∧
    (s.registered fd).isSome = (s.handlers fd).isSome

/-- **The event-loop table property**: the tables agree between two events, the
listening descriptor is served, and `Start` has not found an event without a
handler. -/
structure InStep (listenFd : Fd) (s : Server) : Prop where
  agree : s.Between → s.TablesAgree
  served : s.handlers listenFd = some .server
  running : s.pc ≠ .stopped .handlerNotExist

/-- The step is neither of the two that drop a handler of an open descriptor. -/
def Covered (s : Server) : SysCall → Prop
  | .accept4 (.error _) => False
  | .handle => ∀ event rest id, s.pc = .event (event :: rest) →
      s.handlers event.fd = some (.echo id) →
      event.events.epollIn = true ∨ event.events.epollOut = true
  | _ => True

/-- What every covered step keeps. -/
structure Served (listenFd : Fd) (s : Server) : Prop where
  wired : s.Wired listenFd
  registered : ∀ fd, (s.sockets fd).isSome = true → s.pc.unregistered ≠ some fd →
    (s.registered fd).isSome = true
  handlers : ∀ fd, (s.sockets fd).isSome = true → (s.handlers fd).isSome = true
  running : s.pc ≠ .stopped .handlerNotExist

theorem Tables.open_of_registered (hs : s.Tables listenFd) (h : (s.registered fd).isSome = true) :
    (s.sockets fd).isSome = true := by
  cases hsocket : s.sockets fd with
  | some _ => rfl
  | none =>
    rw [hs.not_registered hsocket] at h
    cases h

theorem Tables.open_of_handler (hs : s.Tables listenFd) (h : (s.handlers fd).isSome = true) :
    (s.sockets fd).isSome = true := by
  obtain ⟨handler, hh⟩ := Option.isSome_iff_exists.mp h
  cases handler with
  | server =>
    rw [hs.server_listen fd hh, hs.listening]
    rfl
  | echo id =>
    rw [hs.echo_client fd id hh]
    rfl

theorem Between.unregistered (h : s.Between) : s.pc.unregistered = none := by
  unfold Between at h
  split at h
  · rename_i hpc
    rw [hpc]
    rfl
  · rename_i hpc
    rw [hpc]
    rfl
  · cases h

theorem Served.inStep (hs : s.Served listenFd) : s.InStep listenFd where
  agree hbetween fd := by
    have hreg : (s.sockets fd).isSome = true → (s.registered fd).isSome = true :=
      fun h => hs.registered fd h (by rw [hbetween.unregistered]; nofun)
    refine ⟨Bool.eq_iff_iff.mpr ⟨hreg, hs.wired.tables.open_of_registered⟩,
      Bool.eq_iff_iff.mpr ⟨?_, ?_⟩⟩
    · exact fun h => hs.handlers fd (hs.wired.tables.open_of_registered h)
    · exact fun h => hreg (hs.wired.tables.open_of_handler h)
  served := by
    have hsome := hs.handlers listenFd (by rw [hs.wired.tables.listening]; rfl)
    obtain ⟨handler, hh⟩ := Option.isSome_iff_exists.mp hsome
    cases handler with
    | server => exact hh
    | echo id => exact absurd rfl (hs.wired.tables.echo_ne hh)
  running := hs.running

theorem served_initial (listenFd : Fd) (errno : Errno) :
    (initial listenFd errno).Served listenFd := by
  have hfd : ∀ {fd}, ((initial listenFd errno).sockets fd).isSome = true → fd = listenFd := by
    intro fd h
    by_cases he : fd = listenFd
    · exact he
    · simp [initial, Function.update_of_ne he] at h
  refine ⟨wired_initial listenFd errno, ?_, ?_, nofun⟩
  · intro fd h _
    rw [hfd h]
    simp [initial]
  · intro fd h
    rw [hfd h]
    simp [initial]

/-- A step that leaves the three tables. -/
theorem Served.of_same (hs : s.Served listenFd) (ht : t.Wired listenFd)
    (hsockets : t.sockets = s.sockets) (hregistered : t.registered = s.registered)
    (hhandlers : t.handlers = s.handlers) (hpc : s.pc.unregistered = none)
    (hrunning : t.pc ≠ .stopped .handlerNotExist) : t.Served listenFd where
  wired := ht
  registered fd h _ := by
    rw [hregistered]
    exact hs.registered fd (hsockets ▸ h) (by rw [hpc]; nofun)
  handlers fd h := by
    rw [hhandlers]
    exact hs.handlers fd (hsockets ▸ h)
  running := hrunning

/-- A state with an event in hand is not stopped. -/
theorem running_of_current {pc : Pc} (h : pc.current = some fd) (reason : StopReason) :
    pc ≠ .stopped reason := by
  rintro rfl
  cases h

theorem Served.step (hs : s.Served listenFd) (hctl : call.CtlSucceeds) (hcovered : s.Covered call)
    (hk : s.Kernel call) (h : s.Step call t) : t.Served listenFd := by
  have ht := hs.wired.step hk h
  cases h with
  | addErr hpc | modifyErr hpc | delErr hpc | closeErr hpc => exact hctl.elim
  | acceptErr hpc => exact hcovered.elim
  | notSupport hpc hh hin hout =>
    rcases hcovered _ _ _ hpc hh with h | h
    · rw [hin] at h
      cases h
    · rw [hout] at h
      cases h
  | @handlerNotExist event rest hpc hh =>
    -- a pending event is of a registered, so an open, so a handled descriptor
    have hopen := hs.wired.tables.open_of_registered (hs.wired.pending.event_isSome hpc)
    have hsome := hs.handlers event.fd hopen
    rw [hh] at hsome
    cases hsome
  | epollWaitErr hpc | epollWait hpc | batchDone hpc | serverHandle hpc hh
  | errorEvent hpc hh hbits | recvData hpc hh hin | nothingToSend hpc hh hout hreceived
  | recvZero hpc | recvErr hpc hne | sendZero hpc | sendErr hpc =>
    exact hs.of_same ht rfl rfl rfl (by rw [hpc]; rfl) (by intro h; cases h)
  | recvAgain hpc | library => exact ⟨ht, hs.registered, hs.handlers, hs.running⟩
  | @sendData event rest id hpc hh hout hreceived =>
    obtain ⟨pc, handler, -, hcurrent, he⟩ := sendLoop_eq s event.fd id 0 rest
    rw [he] at ht ⊢
    exact hs.of_same ht rfl rfl rfl (by rw [hpc]; rfl) (running_of_current hcurrent _)
  | @recvChunk bytes fd id rest hpc hne =>
    obtain ⟨pc, handler, -, hcurrent, he⟩ := afterRecv_eq s fd id rest hne
    rw [he] at ht ⊢
    exact hs.of_same ht rfl rfl rfl (by rw [hpc]; rfl) (running_of_current hcurrent _)
  | @sendBytes ret fd id sentBufferLength rest hpc =>
    simp only [afterSend] at ht ⊢
    obtain ⟨pc, handler, -, hcurrent, he⟩ := sendLoop_eq (s.recordSent fd _) fd id _ rest
    rw [he] at ht ⊢
    exact hs.of_same ht rfl rfl rfl (by rw [hpc]; rfl) (running_of_current hcurrent _)
  | @accept accepted fd rest hpc =>
    refine ⟨ht, fun fd' h hne => ?_, fun fd' h => ?_, by intro h; cases h⟩
    · have he : fd' ≠ accepted.clientFd := fun he => hne (he ▸ rfl)
      have hold : (s.sockets fd').isSome = true := by
        simpa [afterAccept4, Function.update_of_ne he] using h
      exact hs.registered fd' hold (by rw [hpc]; intro h; cases h)
    · by_cases he : fd' = accepted.clientFd
      · subst he
        simp [afterAccept4]
      · have hold : (s.sockets fd').isSome = true := by
          simpa [afterAccept4, Function.update_of_ne he] using h
        simpa [afterAccept4, Function.update_of_ne he] using hs.handlers fd' hold
  | @add fd clientFd rest hpc =>
    refine ⟨ht, fun fd' h _ => ?_, hs.handlers, by intro h; cases h⟩
    by_cases he : fd' = clientFd
    · subst he
      simp [afterAddHandler, handled]
    · have hreg := hs.registered fd' h (by rw [hpc]; exact fun heq => he (Option.some.inj heq).symm)
      simpa [afterAddHandler, handled, Function.update_of_ne he] using hreg
  | @modify fd events rest hpc =>
    refine ⟨ht, fun fd' h _ => ?_, hs.handlers, by intro h; cases h⟩
    by_cases he : fd' = fd
    · subst he
      simp [afterModifyHandler, handled]
    · have hreg := hs.registered fd' h (by rw [hpc]; intro h; cases h)
      simpa [afterModifyHandler, handled, Function.update_of_ne he] using hreg
  | @del fd ret rest hpc =>
    refine ⟨ht, fun fd' h hne => ?_, hs.handlers, by intro h; cases h⟩
    have he : fd' ≠ fd := fun he => hne (he ▸ rfl)
    have hreg := hs.registered fd' h (by rw [hpc]; intro h; cases h)
    simpa [afterEpollCtlDel, Function.update_of_ne he] using hreg
  | @close fd ret rest hpc =>
    -- all three tables lose the descriptor in this step
    have hother : ∀ fd', ((s.afterClose fd ret rest (.ok ())).sockets fd').isSome = true →
        fd' ≠ fd ∧ (s.sockets fd').isSome = true := by
      intro fd' h
      by_cases he : fd' = fd
      · subst he
        simp [afterClose, handled] at h
      · exact ⟨he, by simpa [afterClose, handled, Function.update_of_ne he] using h⟩
    refine ⟨ht, fun fd' h _ => ?_, fun fd' h => ?_, by intro h; cases h⟩
    · obtain ⟨he, hold⟩ := hother fd' h
      have hreg := hs.registered fd' hold
        (by rw [hpc]; exact fun heq => he (Option.some.inj heq).symm)
      simpa [afterClose, handled, Function.update_of_ne he] using hreg
    · obtain ⟨he, hold⟩ := hother fd' h
      have hhandler := hs.handlers fd' hold
      simp only [afterClose, handled]
      split
      · simpa [Function.update_of_ne he] using hhandler
      · simpa [Function.update_of_ne he] using hhandler

/-- A step that is not covered drops a handler of an open descriptor. -/
theorem Served.not_inStep (hs : s.Served listenFd) (h : s.next call = some t)
    (hcovered : ¬ s.Covered call) : ¬ t.InStep listenFd := by
  intro ht
  cases call with
  | accept4 result =>
    cases result with
    | ok accepted => exact hcovered trivial
    | error errno =>
      cases step_of_next h with
      | @acceptErr _ fd rest hpc =>
        have hfd : fd = listenFd := by
          have hhandling := hs.wired.handling
          simpa [Handling, hpc] using hhandling
        -- the handler dropped is the `ServerHandler`
        have hserved := ht.served
        simp [handled, hfd] at hserved
  | handle =>
    simp only [Covered, not_forall, not_or] at hcovered
    obtain ⟨event, rest, id, hpc, hh, hin, hout⟩ := hcovered
    have hlone : t = s.handled event.fd MyErrorcode.kNotSupportEpollEvent rest := by
      simp only [next, hpc, nextEvent, hh, echoHandle, hin, hout, Bool.false_eq_true, if_false,
        Bool.false_and, Option.some.injEq] at h
      exact h.symm
    subst hlone
    -- the handler is gone, the descriptor is still open
    have hagree := ht.agree trivial event.fd
    have hopen : (s.sockets event.fd).isSome = true := by
      rw [hs.wired.tables.echo_client event.fd id hh]
      rfl
    have hclosed : (s.sockets event.fd).isSome = false := by
      have hnone : ((s.handled event.fd MyErrorcode.kNotSupportEpollEvent rest).handlers
          event.fd).isSome = false := by
        simp [handled, MyErrorcode.kNotSupportEpollEvent]
      exact (hagree.1.trans hagree.2).trans hnone
    rw [hopen] at hclosed
    cases hclosed
  | epollWait _ | epollCtl _ | recv _ | send _ | close _ | library _ => exact hcovered trivial

/-- The runs in which `epoll_ctl` and `close` succeed. -/
def ctlRuns (listenFd : Fd) : TransitionSystem Server SysCall :=
  (runs listenFd).restrict fun _ call => call.CtlSucceeds

/-- **The tables agree after every step of a run, if and only if no `accept4` of the
run fails and every client event of it has `EPOLLIN` or `EPOLLOUT`.** -/
theorem inStep_iff_covered {errno : Errno} {run : List (SysCall × Server)}
    (h : (ctlRuns listenFd).IsRun (initial listenFd errno) run) :
    (∀ x ∈ run, x.2.InStep listenFd) ↔
      TransitionSystem.Meets Covered (initial listenFd errno) run := by
  refine TransitionSystem.IsRun.forall_iff_meets (I := Served listenFd) ?_ ?_ ?_
    (served_initial listenFd errno) h
  · exact fun s call t hs hstep hcovered =>
      hs.step hstep.1 hcovered hstep.2.1 (step_of_next hstep.2.2)
  · exact fun s hs => hs.inStep
  · exact fun s call t hs hstep hnot => hs.not_inStep hstep.2.2 hnot

/-- The theorem at a run: a first connection is accepted. -/
theorem inStep_iff_covered_accept :
    ∃ run, (ctlRuns 3).IsRun (initial 3 0) run ∧
      (TransitionSystem.last (initial 3 0) run).created = 1 ∧ ∀ x ∈ run, x.2.InStep 3 := by
  have hrun : (ctlRuns 3).IsRun (initial 3 0) [(.epollWait (.ok [⟨3, .onlyIn⟩]), _), (.handle, _),
      (.accept4 (.ok ⟨5, ['a'], 80⟩), _)] :=
    ⟨⟨trivial, by decide, rfl⟩, ⟨trivial, trivial, rfl⟩, ⟨trivial, rfl, rfl⟩, trivial⟩
  refine ⟨_, hrun, rfl, (inStep_iff_covered hrun).mpr ⟨trivial, ?_, trivial, trivial⟩⟩
  intro event rest id hpc _
  cases hpc
  exact Or.inl rfl

/-- A failed `accept4` stops the server at the next connection, and a lone
`EPOLLERR` leaves a registered connection without a handler. -/
theorem not_inStep_accept_lone :
    (∃ s, (ctlRuns 3).Reachable s ∧ s.pc = .stopped .handlerNotExist) ∧
      ∃ s, (ctlRuns 3).Reachable s ∧ s.Between ∧ s.sockets 5 = some (.client 0) ∧
        s.registered 5 = some .inEt ∧ s.handlers 5 = none := by
  have haccept : TransitionSystem.exec (checked fun _ call => call.CtlSucceeds) (initial 3 0)
      [.epollWait (.ok [⟨3, .onlyIn⟩]), .handle, .accept4 (.error 24), .handle,
        .epollWait (.ok [⟨3, .onlyIn⟩]), .handle] = some _ := rfl
  have hlone : TransitionSystem.exec (checked fun _ call => call.CtlSucceeds) (initial 3 0)
      [.epollWait (.ok [⟨3, .onlyIn⟩]), .handle, .accept4 (.ok ⟨5, ['a'], 80⟩), .epollCtl (.ok ()),
        .handle, .epollWait (.ok [⟨5, ⟨false, false, true, false, false⟩⟩]), .handle] =
      some _ := rfl
  exact ⟨⟨_, reachable_exec haccept, rfl⟩, ⟨_, reachable_exec hlone, trivial, rfl, rfl, rfl⟩⟩

end Server
end MySvrKit
