import MySvrKit.HandlerTable
import Mathlib.Data.List.Nodup

/-! # Who deletes a handler

`RemoveHandler` deletes the handler it takes out of `handlers_`, `Start`'s `erase`
does not, and `~IOLoop` deletes whatever is still in `handlers_`, the `ServerHandler`
that `main` holds as a local included.  The process is the server followed, when
`Start` has returned, by the end of `main` and the destructor of the static
`IOLoop`. -/

namespace MySvrKit

/-- The server process: the server, and whether `~IOLoop` has run. -/
structure Process where
  server : Server
  exited : Bool

/-- A step of the process: one of the server, or the way from the return of `Start`
to the end of `~IOLoop`, with the order in which `handlers_` is iterated. -/
inductive ProcessAction
  | call (call : SysCall)
  | exit (order : List Fd)

namespace Server

/-- `~IOLoop`. -/
def destroy (s : Server) (order : List Fd) : Server :=
  { s with deleted := s.deleted ++ order.filterMap s.handlers, handlers := fun _ => none }

/-- The list is an order of the keys of `handlers_`. -/
def Iterates (s : Server) (order : List Fd) : Prop :=
  order.Nodup ∧ ∀ fd, fd ∈ order ↔ (s.handlers fd).isSome = true

/-- **Handler ownership**: nothing is deleted twice, only `EchoHandler`s that
`ServerHandler::Handle` has created are deleted, and each of those that is not in
`handlers_` is. -/
structure Owned (s : Server) : Prop where
  nodup : s.deleted.Nodup
  echo : ∀ h ∈ s.deleted, ∃ id, id < s.created ∧ h = .echo id
  collected : ∀ id, id < s.created → (∀ fd, s.handlers fd ≠ some (.echo id)) →
    .echo id ∈ s.deleted

end Server

namespace Process

/-- The process from the return of `ServerHandler::Init` on. -/
def runs (listenFd : Fd) : TransitionSystem Process ProcessAction where
  init p := ∃ errno, p = ⟨Server.initial listenFd errno, false⟩
  step p action q := p.exited = false ∧
    match action with
    | .call call =>
        p.server.Kernel call ∧ p.server.next call = some q.server ∧ q.exited = false
    | .exit order =>
        (∃ reason, p.server.pc = .stopped reason) ∧ p.server.Iterates order ∧
          q.server = p.server.destroy order ∧ q.exited = true

/-- An event has just been handled, or `Start` has returned, or `~IOLoop` has run. -/
def Settled (p : Process) : Prop :=
  p.exited = true ∨ p.server.Between ∨ ∃ reason, p.server.pc = .stopped reason

/-- Handler ownership, after each handled event and at the end. -/
def OwnsHandlers (p : Process) : Prop := p.Settled → p.server.Owned

/-- The step takes no handler out of `handlers_` without deleting it, and deletes no
`ServerHandler`. -/
def Disposes (p : Process) : ProcessAction → Prop
  | .call .handle => ∀ event rest id, p.server.pc = .event (event :: rest) →
      p.server.handlers event.fd = some (.echo id) →
      event.events.epollIn = true ∨ event.events.epollOut = true
  | .call (.epollCtl (.error _)) => ∀ fd ret rest, p.server.pc ≠ .epollCtlDel fd ret rest
  | .call (.close (.error _)) => False
  | .exit _ => ∀ fd, p.server.handlers fd ≠ some .server
  | _ => True

end Process

/-! ## The server -/

/-- What `RemoveHandler`'s caller returns, if it is not what `RemoveHandler` returns,
is not 0. -/
def Pc.ReturnsError : Pc → Prop
  | .epollCtlDel _ ret _ | .close _ ret _ => ret ≠ some 0
  | .epollWait | .event _ | .accept4 _ _ | .epollCtlAdd _ _ _ | .recv _ _ _ | .send _ _ _ _
  | .epollCtlMod _ _ _ | .stopped _ => True

namespace Server
variable {listenFd fd : Fd} {s t : Server} {call : SysCall}

/-- What every step that disposes of its handlers keeps. -/
structure Owning (listenFd : Fd) (s : Server) : Prop where
  wired : s.Wired listenFd
  owned : s.Owned
  live : ∀ fd id, s.handlers fd = some (.echo id) → .echo id ∉ s.deleted
  returns : s.pc.ReturnsError

theorem owning_initial (listenFd : Fd) (errno : Errno) :
    (initial listenFd errno).Owning listenFd where
  wired := wired_initial listenFd errno
  owned := ⟨List.nodup_nil, fun _ hh => absurd hh List.not_mem_nil,
    fun id hid => absurd hid (Nat.not_lt_zero id)⟩
  live _ _ _ := List.not_mem_nil
  returns := trivial

/-- A step that leaves the handlers. -/
theorem Owning.of_same (hs : s.Owning listenFd) (ht : t.Wired listenFd)
    (hhandlers : t.handlers = s.handlers) (hdeleted : t.deleted = s.deleted)
    (hcreated : t.created = s.created) (hret : t.pc.ReturnsError) : t.Owning listenFd where
  wired := ht
  owned := by
    constructor
    · rw [hdeleted]
      exact hs.owned.nodup
    · rw [hdeleted, hcreated]
      exact hs.owned.echo
    · rw [hdeleted, hcreated, hhandlers]
      exact hs.owned.collected
  live := by
    rw [hhandlers, hdeleted]
    exact hs.live
  returns := hret

/-- An entry that is not an `EchoHandler`'s may go. -/
theorem Owning.of_drop (hs : s.Owning listenFd) (ht : t.Wired listenFd)
    (hhandlers : t.handlers = Function.update s.handlers fd none)
    (hfd : ∀ id, s.handlers fd ≠ some (.echo id)) (hdeleted : t.deleted = s.deleted)
    (hcreated : t.created = s.created) (hret : t.pc.ReturnsError) : t.Owning listenFd where
  wired := ht
  owned := by
    constructor
    · rw [hdeleted]
      exact hs.owned.nodup
    · rw [hdeleted, hcreated]
      exact hs.owned.echo
    · rw [hdeleted, hcreated, hhandlers]
      refine fun id hid hnone => hs.owned.collected id hid fun fd' hh => ?_
      by_cases he : fd' = fd
      · exact hfd id (he ▸ hh)
      · exact hnone fd' (by rw [Function.update_of_ne he]; exact hh)
  live := by
    rw [hhandlers, hdeleted]
    intro fd' id hh
    by_cases he : fd' = fd
    · simp [he] at hh
    · rw [Function.update_of_ne he] at hh
      exact hs.live fd' id hh
  returns := hret

/-- `ServerHandler::Handle` creates a handler and puts it into `handlers_`. -/
theorem Owning.accept (hs : s.Owning listenFd) (ht : t.Wired listenFd)
    (hfree : s.sockets fd = none)
    (hhandlers : t.handlers = Function.update s.handlers fd (some (.echo s.created)))
    (hdeleted : t.deleted = s.deleted) (hcreated : t.created = s.created + 1)
    (hret : t.pc.ReturnsError) : t.Owning listenFd where
  wired := ht
  owned := by
    constructor
    · rw [hdeleted]
      exact hs.owned.nodup
    · rw [hdeleted, hcreated]
      intro h hh
      obtain ⟨id, hid, he⟩ := hs.owned.echo h hh
      exact ⟨id, Nat.lt_succ_of_lt hid, he⟩
    · rw [hdeleted, hcreated, hhandlers]
      intro id hid hnone
      have hne : id ≠ s.created := by
        rintro rfl
        exact hnone fd (Function.update_self ..)
      refine hs.owned.collected id (by omega) fun fd' hh => ?_
      by_cases he : fd' = fd
      · -- a closed descriptor has no handler
        have hopen := hs.wired.tables.echo_client fd' id hh
        rw [he, hfree] at hopen
        cases hopen
      · exact hnone fd' (by rw [Function.update_of_ne he]; exact hh)
  live := by
    rw [hhandlers, hdeleted]
    intro fd' id hh
    by_cases he : fd' = fd
    · subst he
      obtain rfl : s.created = id := by simpa using hh
      intro hmem
      obtain ⟨id, hid, heq⟩ := hs.owned.echo _ hmem
      exact absurd hid (by rw [← Handler.echo.inj heq]; exact Nat.lt_irrefl _)
    · rw [Function.update_of_ne he] at hh
      exact hs.live fd' id hh
  returns := hret

/-- `RemoveHandler` takes a handler out of `handlers_` and deletes it. -/
theorem Owning.close (hs : s.Owning listenFd) (ht : t.Wired listenFd) {id : Nat}
    (hh : s.handlers fd = some (.echo id))
    (hhandlers : t.handlers = Function.update s.handlers fd none)
    (hdeleted : t.deleted = s.deleted ++ [.echo id]) (hcreated : t.created = s.created)
    (hret : t.pc.ReturnsError) : t.Owning listenFd where
  wired := ht
  owned := by
    constructor
    · rw [hdeleted]
      refine List.nodup_append.mpr ⟨hs.owned.nodup, List.nodup_singleton _, ?_⟩
      intro h hmem h' hmem' he
      rw [he, List.mem_singleton.mp hmem'] at hmem
      exact hs.live fd id hh hmem
    · rw [hdeleted, hcreated]
      intro h hmem
      rcases List.mem_append.mp hmem with hmem | hmem
      · exact hs.owned.echo h hmem
      · have hlt := hs.wired.tables.client_lt fd id (hs.wired.tables.echo_client fd id hh)
        exact ⟨id, hlt, List.mem_singleton.mp hmem⟩
    · rw [hdeleted, hcreated, hhandlers]
      intro id' hid hnone
      by_cases heq : id' = id
      · rw [heq]
        exact List.mem_append_right _ (List.mem_singleton_self _)
      · refine List.mem_append_left _ (hs.owned.collected id' hid fun fd' hh' => ?_)
        have he : fd' ≠ fd := by
          rintro rfl
          rw [hh] at hh'
          exact heq (Handler.echo.inj (Option.some.inj hh')).symm
        exact hnone fd' (by rw [Function.update_of_ne he]; exact hh')
  live := by
    rw [hhandlers, hdeleted]
    intro fd' id' hh'
    by_cases he : fd' = fd
    · simp [he] at hh'
    · rw [Function.update_of_ne he] at hh'
      intro hmem
      rcases List.mem_append.mp hmem with hmem | hmem
      · exact hs.live fd' id' hh' hmem
      · -- one number is in `handlers_` under one descriptor
        have heq : id' = id := Handler.echo.inj (List.mem_singleton.mp hmem)
        subst heq
        exact he (hs.wired.tables.client_inj fd' fd id'
          (hs.wired.tables.echo_client fd' id' hh') (hs.wired.tables.echo_client fd id' hh))
  returns := hret

/-- An `EchoHandler` taken out of `handlers_` and not deleted is lost. -/
theorem Owning.not_owned (hs : s.Owning listenFd) {id : Nat}
    (hh : s.handlers fd = some (.echo id))
    (hhandlers : t.handlers = Function.update s.handlers fd none)
    (hdeleted : t.deleted = s.deleted) (hcreated : t.created = s.created) : ¬ t.Owned := by
  intro ht
  have hclient := hs.wired.tables.echo_client fd id hh
  have hlt := hs.wired.tables.client_lt fd id hclient
  have hmem := ht.collected id (hcreated ▸ hlt) (by
    rw [hhandlers]
    intro fd' hh'
    by_cases he : fd' = fd
    · simp [he] at hh'
    · rw [Function.update_of_ne he] at hh'
      exact he (hs.wired.tables.client_inj fd' fd id
        (hs.wired.tables.echo_client fd' id hh') hclient))
  rw [hdeleted] at hmem
  exact hs.live fd id hh hmem

/-- The loop of `SendData` touches no handler. -/
theorem sendLoop_owning (s : Server) (fd : Fd) (id sentBufferLength : Nat)
    (rest : List EpollEvent) :
    (s.sendLoop fd id sentBufferLength rest).handlers = s.handlers ∧
      (s.sendLoop fd id sentBufferLength rest).deleted = s.deleted ∧
      (s.sendLoop fd id sentBufferLength rest).created = s.created ∧
      (s.sendLoop fd id sentBufferLength rest).pc.ReturnsError := by
  rcases sendLoop_cases s fd id sentBufferLength rest with ⟨-, he⟩ | ⟨-, he⟩ | ⟨-, he⟩
  · rw [he]
    exact ⟨rfl, rfl, rfl, trivial⟩
  · rw [he]
    refine ⟨rfl, rfl, rfl, ?_⟩
    show some MyErrorcode.kSendErr ≠ some 0
    decide
  · rw [he]
    exact ⟨rfl, rfl, rfl, trivial⟩

theorem Owning.step (hs : s.Owning listenFd)
    (hdisposes : Process.Disposes ⟨s, false⟩ (.call call)) (hk : s.Kernel call)
    (h : s.Step call t) : t.Owning listenFd := by
  have ht := hs.wired.step hk h
  have hhandling := hs.wired.handling
  cases h with
  | delErr hpc => exact absurd hpc (hdisposes _ _ _)
  | closeErr hpc => exact hdisposes.elim
  | notSupport hpc hh hin hout =>
    rcases hdisposes _ _ _ hpc hh with h | h
    · rw [hin] at h
      cases h
    · rw [hout] at h
      cases h
  | epollWaitErr hpc | epollWait hpc | batchDone hpc | handlerNotExist hpc hh
  | serverHandle hpc hh | recvData hpc hh hin | nothingToSend hpc hh hout hreceived
  | addErr hpc | add hpc | modifyErr hpc | modify hpc =>
    exact hs.of_same ht rfl rfl rfl trivial
  | errorEvent hpc hh hbits => exact hs.of_same ht rfl rfl rfl (by intro h; cases h)
  | recvZero hpc | recvErr hpc hne | sendZero hpc | sendErr hpc =>
    refine hs.of_same ht rfl rfl rfl ?_
    show some _ ≠ some 0
    decide
  | @sendData event rest id hpc hh hout hreceived =>
    obtain ⟨hhandlers, hdeleted, hcreated, hret⟩ := sendLoop_owning s event.fd id 0 rest
    exact hs.of_same ht hhandlers hdeleted hcreated hret
  | @recvChunk bytes fd id rest hpc hne =>
    rcases afterRecv_chunk s fd id rest hne with ⟨-, he⟩ | ⟨-, he⟩
    · rw [he] at ht ⊢
      exact hs.of_same ht rfl rfl rfl trivial
    · rw [he] at ht ⊢
      exact hs.of_same ht rfl rfl rfl trivial
  | @sendBytes ret fd id sentBufferLength rest hpc =>
    obtain ⟨hhandlers, hdeleted, hcreated, hret⟩ := sendLoop_owning
      (s.recordSent fd _) fd id _ rest
    exact hs.of_same ht hhandlers hdeleted hcreated hret
  | recvAgain hpc | library => exact hs.of_same ht rfl rfl rfl hs.returns
  | @acceptErr errno fd rest hpc =>
    simp only [Handling, hpc] at hhandling
    refine hs.of_drop ht (handled_handlers (by decide) rest) ?_ rfl rfl trivial
    intro id hh
    exact hs.wired.tables.echo_ne hh hhandling
  | accept hpc => exact hs.accept ht hk rfl rfl rfl trivial
  | del hpc =>
    have hret := hs.returns
    rw [hpc] at hret
    exact hs.of_same ht rfl rfl rfl hret
  | @close fd ret rest hpc =>
    simp only [Handling, hpc] at hhandling
    obtain ⟨⟨id, hh⟩, -⟩ := hhandling
    refine hs.close ht hh (afterClose_handlers ret rest) ?_ rfl trivial
    show s.deleted ++ (s.handlers fd).toList = _
    rw [hh]
    rfl

/-- A step that does not dispose of a handler loses it. -/
theorem Owning.not_owned_of_next (hs : s.Owning listenFd)
    (hnot : ¬ Process.Disposes ⟨s, false⟩ (.call call)) (h : s.next call = some t) :
    t.Between ∧ ¬ t.Owned := by
  have hhandling := hs.wired.handling
  cases call with
  | handle =>
    simp only [Process.Disposes, not_forall, not_or] at hnot
    obtain ⟨event, rest, id, hpc, hh, hin, hout⟩ := hnot
    have hlone : t = s.handled event.fd MyErrorcode.kNotSupportEpollEvent rest := by
      simp only [next, hpc, nextEvent, hh, echoHandle, hin, hout, Bool.false_eq_true, if_false,
        Bool.false_and, Option.some.injEq] at h
      exact h.symm
    subst hlone
    exact ⟨trivial, hs.not_owned hh (handled_handlers (by decide) rest) rfl rfl⟩
  | epollCtl result =>
    cases result with
    | ok u => exact absurd trivial hnot
    | error errno =>
      simp only [Process.Disposes, not_forall, not_not] at hnot
      obtain ⟨fd, ret, rest, hpc⟩ := hnot
      simp only [Handling, hpc] at hhandling
      obtain ⟨⟨id, hh⟩, -⟩ := hhandling
      have hret := hs.returns
      rw [hpc] at hret
      simp only [next, hpc, Option.some.injEq] at h
      subst h
      exact ⟨trivial, hs.not_owned hh (handled_handlers (getD_ne_zero hret) rest) rfl rfl⟩
  | close result =>
    cases result with
    | ok u => exact absurd trivial hnot
    | error errno =>
      cases step_of_next h with
      | @closeErr _ fd ret rest hpc =>
        simp only [Handling, hpc] at hhandling
        obtain ⟨⟨id, hh⟩, -⟩ := hhandling
        have hret := hs.returns
        rw [hpc] at hret
        exact ⟨trivial, hs.not_owned hh (handled_handlers (getD_ne_zero hret) rest) rfl rfl⟩
  | epollWait _ | accept4 _ | recv _ | send _ | library _ => exact absurd trivial hnot

/-! ## The end of the process -/

/-- `~IOLoop` deletes every handler that is left, once. -/
theorem Owning.destroy (hs : s.Owning listenFd) {order : List Fd} (horder : s.Iterates order)
    (hserver : ∀ fd, s.handlers fd ≠ some .server) : (s.destroy order).Owned := by
  -- what is deleted is what `handlers_` holds
  have hmem : ∀ {h}, h ∈ order.filterMap s.handlers → ∃ fd id, s.handlers fd = some (.echo id) ∧
      h = .echo id := by
    intro h hh
    obtain ⟨fd, -, hfd⟩ := List.mem_filterMap.mp hh
    cases h with
    | server => exact absurd hfd (hserver fd)
    | echo id => exact ⟨fd, id, hfd, rfl⟩
  constructor
  · refine List.nodup_append.mpr ⟨hs.owned.nodup, ?_, ?_⟩
    · refine List.Nodup.filterMap (fun fd fd' h hfd hfd' => ?_) horder.1
      cases h with
      | server => exact absurd hfd (hserver fd)
      | echo id =>
        exact hs.wired.tables.client_inj fd fd' id (hs.wired.tables.echo_client fd id hfd)
          (hs.wired.tables.echo_client fd' id hfd')
    · intro h hh h' hh' he
      obtain ⟨fd, id, hfd, rfl⟩ := hmem hh'
      rw [he] at hh
      exact hs.live fd id hfd hh
  · intro h hh
    rcases List.mem_append.mp hh with hh | hh
    · exact hs.owned.echo h hh
    · obtain ⟨fd, id, hfd, rfl⟩ := hmem hh
      exact ⟨id, hs.wired.tables.client_lt fd id (hs.wired.tables.echo_client fd id hfd), rfl⟩
  · intro id hid _
    by_cases hleft : ∃ fd, s.handlers fd = some (.echo id)
    · obtain ⟨fd, hfd⟩ := hleft
      refine List.mem_append_right _ (List.mem_filterMap.mpr ⟨fd, ?_, hfd⟩)
      rw [horder.2, hfd]
      rfl
    · exact List.mem_append_left _ (hs.owned.collected id hid fun fd hfd => hleft ⟨fd, hfd⟩)

end Server

namespace Process
variable {listenFd : Fd} {p q : Process} {action : ProcessAction}

/-- The process goes through the states of the server. -/
theorem reachable_call {s : Server} (h : (Server.runs listenFd).Reachable s) :
    (runs listenFd).Reachable ⟨s, false⟩ := by
  refine h.invariant (I := fun s => (runs listenFd).Reachable ⟨s, false⟩) ?_ ?_
  · rintro s ⟨errno, rfl⟩
    exact TransitionSystem.Reachable.initial ⟨errno, rfl⟩
  · exact fun s call t hs hstep => hs.step (l := .call call) ⟨rfl, hstep.1, hstep.2, rfl⟩

/-- What the steps that dispose of their handlers keep: once `~IOLoop` has run there
is no further step. -/
def Owning (listenFd : Fd) (p : Process) : Prop :=
  p.server.Owned ∧ (p.exited = false → p.server.Owning listenFd)

theorem Owning.step (hp : p.Owning listenFd) (h : (runs listenFd).step p action q)
    (hdisposes : p.Disposes action) : q.Owning listenFd := by
  obtain ⟨hrunning, h⟩ := h
  have hs := hp.2 hrunning
  cases action with
  | call call =>
    obtain ⟨hk, hnext, -⟩ := h
    have ht := hs.step hdisposes hk (Server.step_of_next hnext)
    exact ⟨ht.owned, fun _ => ht⟩
  | exit order =>
    obtain ⟨-, horder, hserver, hexited⟩ := h
    refine ⟨?_, fun hq => ?_⟩
    · rw [hserver]
      exact hs.destroy horder hdisposes
    · rw [hexited] at hq
      cases hq

theorem Owning.not_owned (hp : p.Owning listenFd) (h : (runs listenFd).step p action q)
    (hnot : ¬ p.Disposes action) : q.Settled ∧ ¬ q.server.Owned := by
  obtain ⟨hrunning, h⟩ := h
  have hs := hp.2 hrunning
  cases action with
  | call call =>
    obtain ⟨hk, hnext, -⟩ := h
    obtain ⟨hbetween, hlost⟩ := hs.not_owned_of_next hnot hnext
    exact ⟨Or.inr (Or.inl hbetween), hlost⟩
  | exit order =>
    obtain ⟨-, horder, hserver, hexited⟩ := h
    simp only [Disposes, not_forall, not_not] at hnot
    obtain ⟨fd, hfd⟩ := hnot
    refine ⟨Or.inl hexited, fun hq => ?_⟩
    -- the `ServerHandler` is among the deleted
    have hmem : Handler.server ∈ q.server.deleted := by
      rw [hserver]
      refine List.mem_append_right _ (List.mem_filterMap.mpr ⟨fd, ?_, hfd⟩)
      rw [horder.2, hfd]
      rfl
    obtain ⟨id, -, he⟩ := hq.echo _ hmem
    cases he

/-- **Handlers are owned in every run exactly as long as each step disposes of what it
takes out of `handlers_`**: no client event lacks both `EPOLLIN` and `EPOLLOUT`, no
call of `RemoveHandler` fails, and at the end a failed `accept4` has already taken the
`ServerHandler` out. -/
theorem owned_iff_disposes {errno : Errno} {run : List (ProcessAction × Process)}
    (h : (runs listenFd).IsRun ⟨Server.initial listenFd errno, false⟩ run) :
    (∀ x ∈ run, x.2.OwnsHandlers) ↔
      TransitionSystem.Meets Disposes ⟨Server.initial listenFd errno, false⟩ run := by
  have hinit := Server.owning_initial listenFd errno
  refine TransitionSystem.IsRun.forall_iff_meets (I := Owning listenFd) ?_ ?_ ?_
    ⟨hinit.owned, fun _ => hinit⟩ h
  · exact fun p action q hp hstep hdisposes => hp.step hstep hdisposes
  · exact fun p hp _ => hp.1
  · intro p action q hp hstep hnot hgood
    obtain ⟨hsettled, hlost⟩ := hp.not_owned hstep hnot
    exact hlost (hgood hsettled)

/-- The theorem at a run: one client comes and goes, another stays; `accept4` fails, and the
next client ends the server. -/
theorem owned_iff_disposes_twoClients :
    ∃ run : List (ProcessAction × Process),
      (runs 3).IsRun ⟨Server.initial 3 0, false⟩ run ∧
      (∃ x ∈ run, x.2.exited = true ∧ x.2.server.created = 2 ∧
        x.2.server.deleted = [.echo 0, .echo 1]) ∧
      ∀ x ∈ run, x.2.OwnsHandlers := by
  -- what is left in `handlers_` is the second client's
  have hkeys : ∀ fd, fd ∈ [6] ↔ ((Function.update (Function.update (Function.update
      (Function.update (Function.update (Function.update (fun _ => none) 3 (some Handler.server)) 5
        (some (.echo 0))) 5 none) 5 none) 6 (some (.echo 1))) 3 none :
          Fd → Option Handler) fd).isSome = true := by
    intro fd
    by_cases h6 : fd = 6
    · subst h6
      exact iff_of_true (List.mem_singleton_self 6) rfl
    · refine iff_of_false (fun hmem => h6 (List.mem_singleton.mp hmem)) ?_
      by_cases h3 : fd = 3
      · subst h3
        decide
      · by_cases h5 : fd = 5
        · subst h5
          decide
        · simp only [Function.update_of_ne h3, Function.update_of_ne h5, Function.update_of_ne h6]
          decide
  have hrun : (runs 3).IsRun ⟨Server.initial 3 0, false⟩
      [(.call (.epollWait (.ok [⟨3, .onlyIn⟩])), ⟨_, false⟩), (.call .handle, ⟨_, false⟩),
        (.call (.accept4 (.ok ⟨5, ['a'], 80⟩)), ⟨_, false⟩),
        (.call (.epollCtl (.ok ())), ⟨_, false⟩), (.call .handle, ⟨_, false⟩),
        (.call (.epollWait (.ok [⟨5, .onlyIn⟩])), ⟨_, false⟩), (.call .handle, ⟨_, false⟩),
        (.call (.recv (.ok [])), ⟨_, false⟩), (.call (.epollCtl (.ok ())), ⟨_, false⟩),
        (.call (.close (.ok ())), ⟨_, false⟩), (.call .handle, ⟨_, false⟩),
        (.call (.epollWait (.ok [⟨3, .onlyIn⟩])), ⟨_, false⟩), (.call .handle, ⟨_, false⟩),
        (.call (.accept4 (.ok ⟨6, ['b'], 81⟩)), ⟨_, false⟩),
        (.call (.epollCtl (.ok ())), ⟨_, false⟩), (.call .handle, ⟨_, false⟩),
        (.call (.epollWait (.ok [⟨3, .onlyIn⟩])), ⟨_, false⟩), (.call .handle, ⟨_, false⟩),
        (.call (.accept4 (.error 24)), ⟨_, false⟩), (.call .handle, ⟨_, false⟩),
        (.call (.epollWait (.ok [⟨3, .onlyIn⟩])), ⟨_, false⟩), (.call .handle, ⟨_, false⟩),
        (.exit [6], ⟨_, true⟩)] :=
    ⟨⟨rfl, by decide, rfl, rfl⟩, ⟨rfl, trivial, rfl, rfl⟩, ⟨rfl, rfl, rfl, rfl⟩,
      ⟨rfl, rfl, rfl, rfl⟩, ⟨rfl, trivial, rfl, rfl⟩, ⟨rfl, by decide, rfl, rfl⟩,
      ⟨rfl, trivial, rfl, rfl⟩, ⟨rfl, by decide, rfl, rfl⟩, ⟨rfl, rfl, rfl, rfl⟩,
      ⟨rfl, trivial, rfl, rfl⟩, ⟨rfl, trivial, rfl, rfl⟩, ⟨rfl, by decide, rfl, rfl⟩,
      ⟨rfl, trivial, rfl, rfl⟩, ⟨rfl, rfl, rfl, rfl⟩, ⟨rfl, rfl, rfl, rfl⟩,
      ⟨rfl, trivial, rfl, rfl⟩, ⟨rfl, by decide, rfl, rfl⟩, ⟨rfl, trivial, rfl, rfl⟩,
      ⟨rfl, trivial, rfl, rfl⟩, ⟨rfl, trivial, rfl, rfl⟩, ⟨rfl, by decide, rfl, rfl⟩,
      ⟨rfl, trivial, rfl, rfl⟩, ⟨rfl, ⟨_, rfl⟩, ⟨List.nodup_singleton 6, hkeys⟩, rfl, rfl⟩, trivial⟩
  refine ⟨_, hrun, ⟨_, List.getLast_mem (List.cons_ne_nil _ _), rfl, rfl, rfl⟩,
    (owned_iff_disposes hrun).mpr ⟨trivial, ?first, trivial, trivial, ?idle₁, trivial, ?client,
      trivial, trivial, trivial, ?idle₂, trivial, ?second, trivial, trivial, ?idle₃, trivial,
      ?third, trivial, ?idle₄, trivial, ?fourth, ?exits, trivial⟩⟩
  case exits =>
    intro fd hserver
    have hmem := (hkeys fd).mpr (Option.isSome_iff_exists.mpr ⟨_, hserver⟩)
    obtain rfl := List.mem_singleton.mp hmem
    cases hserver
  -- the events are all `EPOLLIN`
  case first | client | second | third | fourth =>
    intro event rest id hpc _
    cases hpc
    exact Or.inl rfl
  case idle₁ | idle₂ | idle₃ | idle₄ =>
    intro event rest id hpc _
    cases hpc

/-- When `epoll_wait` fails, `~IOLoop` deletes the `ServerHandler` of `main`; and a lone
`EPOLLERR` loses an `EchoHandler`. -/
theorem not_owned_epollWait_lone :
    (∃ p, (runs 3).Reachable p ∧ p.exited = true ∧ p.server.deleted = [.server]) ∧
      ∃ p, (runs 3).Reachable p ∧ p.server.Between ∧ p.server.created = 1 ∧
        p.server.handlers 5 = none ∧ p.server.deleted = [] := by
  have hkeys : ∀ fd, fd ∈ [3] ↔ ((Server.initial 3 0).handlers fd).isSome = true := by
    intro fd
    by_cases he : fd = 3
    · subst he
      exact iff_of_true (List.mem_singleton_self 3) rfl
    · refine iff_of_false (fun hmem => he (List.mem_singleton.mp hmem)) ?_
      simp [Server.initial, Function.update_of_ne he]
  have hstart : (runs 3).Reachable ⟨Server.initial 3 0, false⟩ :=
    TransitionSystem.Reachable.initial ⟨0, rfl⟩
  constructor
  · have hstop : (runs 3).Reachable ⟨_, false⟩ :=
      hstart.step (l := .call (.epollWait (.error 4))) ⟨rfl, trivial, rfl, rfl⟩
    have hexit : (runs 3).Reachable ⟨_, true⟩ :=
      hstop.step (l := .exit [3]) ⟨rfl, ⟨_, rfl⟩, ⟨List.nodup_singleton 3, hkeys⟩, rfl, rfl⟩
    exact ⟨_, hexit, rfl, rfl⟩
  · have hcalls : TransitionSystem.exec (Server.checked fun _ _ => True) (Server.initial 3 0)
        [.epollWait (.ok [⟨3, .onlyIn⟩]), .handle, .accept4 (.ok ⟨5, ['a'], 80⟩),
          .epollCtl (.ok ()), .handle, .epollWait (.ok [⟨5, ⟨false, false, true, false, false⟩⟩]),
          .handle] = some _ := rfl
    exact ⟨_, reachable_call (Server.reachable_exec hcalls).of_restrict, trivial, rfl, rfl, rfl⟩

end Process
end MySvrKit
