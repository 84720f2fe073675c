import MySvrKit.HandlerOwnership
import MySvrKit.StepCounts

/-! # What becomes of the connections

No assumption on the calls.  A connection that `accept4` has returned is served until one
of three things happens, and each is final: its `EPOLL_CTL_ADD` fails, and it stays in
`handlers_` without ever getting an event (*deaf*); its handler is dropped while its
socket stays open (*lost*); or `RemoveHandler` closes the socket and deletes the handler
(*closed*).  How many connections there are of each kind is how many steps of the run
were of the kind that makes them. -/

namespace MySvrKit

/-- The descriptor of the client that a call is about. -/
def Pc.client : Pc → Option Fd
  | .epollCtlAdd _ fd _ | .recv fd _ _ | .send fd _ _ _ | .epollCtlMod fd _ _ | .epollCtlDel fd _ _
  | .close fd _ _ => some fd
  | .epollWait | .event _ | .accept4 _ _ | .stopped _ => none

/-- A descriptor is idle but for the one that a call is about. -/
theorem Pc.phase_of_client {fd : Fd} {pc : Pc} (h : pc.client ≠ some fd) :
    pc.phase fd = .idle := by
  cases pc with
  | epollWait | event _ | accept4 _ _ | stopped _ => rfl
  | epollCtlAdd _ fd' _ | recv fd' _ _ | send fd' _ _ _ | epollCtlMod fd' _ _ | epollCtlDel fd' _ _
  | close fd' _ _ => exact if_neg fun he => h (congrArg some he)

theorem Pc.busy_of_client {fd : Fd} {pc : Pc} (h : pc.client = some fd) :
    pc.phase fd ≠ .idle := by
  cases pc with
  | epollWait | event _ | accept4 _ _ | stopped _ => cases h
  | epollCtlAdd _ fd' _ | recv fd' _ _ | send fd' _ _ _ | epollCtlMod fd' _ _ | epollCtlDel fd' _ _
  | close fd' _ _ =>
    obtain rfl := Option.some.inj h
    simp only [Pc.phase, if_true]
    intro h
    cases h

/-- What has become of a connection. -/
inductive Fate
  | served
  | deaf
  | lost
  | closed
  deriving DecidableEq

/-- What a step may do to a connection. -/
inductive Turn
  | accept
  | refuse
  | lose
  | close
  deriving DecidableEq

namespace Server

/-- What a step does to a connection, if anything. -/
def turn (s : Server) : SysCall → Option Turn
  | .accept4 (.ok _) => some .accept
  | .epollCtl (.error _) =>
      match s.pc with
      | .epollCtlAdd _ _ _ => some .refuse
      | .epollCtlDel _ _ _ => some .lose
      | _ => none
  | .close (.ok ()) => some .close
  | .close (.error _) => some .lose
  | .handle =>
      match s.pc with
      | .event (event :: _) =>
          match s.handlers event.fd with
          | some (.echo _) =>
              -- `EPOLLERR` or `EPOLLHUP` alone
              if !event.events.epollIn && !event.events.epollOut then some .lose else none
          | _ => none
      | _ => none
  | _ => none

/-- A descriptor that is not in the epoll set, with no call on it under way. -/
def Deaf (s : Server) (fd : Fd) : Prop := s.registered fd = none ∧ s.pc.phase fd = .idle

/-- The connections of a fate. -/
def fated (s : Server) : Fate → Set Nat
  | .served => {id | ∃ fd, s.handlers fd = some (.echo id) ∧ ¬ s.Deaf fd}
  | .deaf => {id | ∃ fd, s.handlers fd = some (.echo id) ∧ s.Deaf fd}
  | .lost => {id | ∃ fd, s.sockets fd = some (.client id) ∧ s.handlers fd = none}
  | .closed => {id | id < s.created ∧ ∀ fd, s.sockets fd ≠ some (.client id)}

variable {listenFd fd : Fd} {id : Nat} {s t : Server} {call : SysCall}

theorem mem_deaf : id ∈ s.fated .deaf ↔ ∃ fd, s.handlers fd = some (.echo id) ∧ s.Deaf fd :=
  Iff.rfl

theorem mem_lost :
    id ∈ s.fated .lost ↔ ∃ fd, s.sockets fd = some (.client id) ∧ s.handlers fd = none :=
  Iff.rfl

theorem mem_closed :
    id ∈ s.fated .closed ↔ id < s.created ∧ ∀ fd, s.sockets fd ≠ some (.client id) :=
  Iff.rfl

/-! ## Every connection has one fate -/

theorem fated_lt (hs : s.Tables listenFd) {fate : Fate} (h : id ∈ s.fated fate) :
    id < s.created := by
  cases fate with
  | served | deaf =>
    obtain ⟨fd, hh, -⟩ := h
    exact hs.client_lt fd id (hs.echo_client fd id hh)
  | lost =>
    obtain ⟨fd, hopen, -⟩ := h
    exact hs.client_lt fd id hopen
  | closed => exact h.1

theorem exists_fate (hs : s.Tables listenFd) (hid : id < s.created) :
    ∃ fate, id ∈ s.fated fate := by
  by_cases hopen : ∃ fd, s.sockets fd = some (.client id)
  · obtain ⟨fd, hfd⟩ := hopen
    cases hh : s.handlers fd with
    | none => exact ⟨.lost, fd, hfd, hh⟩
    | some handler =>
      cases handler with
      | server =>
        -- the `ServerHandler` is that of the listening socket
        have hlisten := hs.listening
        rw [← hs.server_listen fd hh, hfd] at hlisten
        cases hlisten
      | echo id' =>
        obtain rfl := hs.echo_eq hh hfd
        by_cases hdeaf : s.Deaf fd
        · exact ⟨.deaf, fd, hh, hdeaf⟩
        · exact ⟨.served, fd, hh, hdeaf⟩
  · exact ⟨.closed, hid, fun fd hfd => hopen ⟨fd, hfd⟩⟩

/-- A handler in the table, and the descriptor it is found under. -/
theorem Tables.handler_unique (hs : s.Tables listenFd) {fd' : Fd}
    (hh : s.handlers fd = some (.echo id)) (hopen : s.sockets fd' = some (.client id)) :
    fd' = fd :=
  hs.client_inj fd' fd id hopen (hs.echo_client fd id hh)

theorem fate_unique (hs : s.Tables listenFd) {fate fate' : Fate} (h : id ∈ s.fated fate)
    (h' : id ∈ s.fated fate') : fate = fate' := by
  -- a connection in `handlers_` is open, and not without handler
  have hhandler : ∀ {fd}, s.handlers fd = some (.echo id) → id ∉ s.fated .lost ∧
      id ∉ s.fated .closed := by
    intro fd hh
    have hopen := hs.echo_client fd id hh
    refine ⟨?_, fun hclosed => hclosed.2 fd hopen⟩
    rintro ⟨fd', hopen', hnone⟩
    rw [hs.handler_unique hh hopen', hh] at hnone
    cases hnone
  have hdeaf : id ∈ s.fated .served → id ∉ s.fated .deaf := by
    rintro ⟨fd, hh, hnot⟩ ⟨fd', hh', hdeaf⟩
    rw [hs.handler_unique hh (hs.echo_client fd' id hh')] at hdeaf
    exact hnot hdeaf
  have hlost : id ∈ s.fated .lost → id ∉ s.fated .closed := by
    rintro ⟨fd, hopen, -⟩ hclosed
    exact hclosed.2 fd hopen
  cases fate with
  | served =>
    have ⟨fd, hh, _⟩ := h
    cases fate' with
    | served => rfl
    | deaf => exact absurd h' (hdeaf h)
    | lost => exact absurd h' (hhandler hh).1
    | closed => exact absurd h' (hhandler hh).2
  | deaf =>
    have ⟨fd, hh, _⟩ := h
    cases fate' with
    | served => exact absurd h (hdeaf h')
    | deaf => rfl
    | lost => exact absurd h' (hhandler hh).1
    | closed => exact absurd h' (hhandler hh).2
  | lost =>
    cases fate' with
    | served | deaf =>
      obtain ⟨fd, hh, -⟩ := h'
      exact absurd h (hhandler hh).1
    | lost => rfl
    | closed => exact absurd h' (hlost h)
  | closed =>
    cases fate' with
    | served | deaf =>
      obtain ⟨fd, hh, -⟩ := h'
      exact absurd h (hhandler hh).2
    | lost => exact absurd h (hlost h')
    | closed => rfl

/-! ## One step -/

/-- A descriptor that neither the call made nor the next is about. -/
theorem deaf_of_others (hs : s.pc.client ≠ some fd) (ht : t.pc.client ≠ some fd)
    (hregistered : t.registered fd = s.registered fd) : t.Deaf fd ↔ s.Deaf fd := by
  simp only [Deaf, hregistered, Pc.phase_of_client hs, Pc.phase_of_client ht]

theorem not_deaf_of_registered (h : (s.registered fd).isSome = true) : ¬ s.Deaf fd := by
  rintro ⟨hnone, -⟩
  rw [hnone] at h
  cases h

theorem not_deaf_of_client (h : s.pc.client = some fd) : ¬ s.Deaf fd := by
  rintro ⟨-, hidle⟩
  exact Pc.busy_of_client h hidle

/-- A step, by what it does to a connection. -/
inductive Turns (s : Server) : Option Turn → Server → Prop
  | keep {t : Server} (hsockets : t.sockets = s.sockets)
      (hhandlers : ∀ fd id, s.sockets fd = some (.client id) → t.handlers fd = s.handlers fd)
      (hcreated : t.created = s.created) (hdeleted : t.deleted = s.deleted)
      (hdeaf : ∀ fd id, s.handlers fd = some (.echo id) → (t.Deaf fd ↔ s.Deaf fd)) :
      Turns s none t
  | accept {t : Server} {fd : Fd} (hfree : s.sockets fd = none)
      (hsockets : t.sockets = Function.update s.sockets fd (some (.client s.created)))
      (hhandlers : t.handlers = Function.update s.handlers fd (some (.echo s.created)))
      (hcreated : t.created = s.created + 1) (hdeleted : t.deleted = s.deleted)
      (hnew : ¬ t.Deaf fd) (hdeaf : ∀ fd', fd' ≠ fd → (t.Deaf fd' ↔ s.Deaf fd')) :
      Turns s (some .accept) t
  | refuse {t : Server} {fd : Fd} {id : Nat} (hh : s.handlers fd = some (.echo id))
      (hbefore : ¬ s.Deaf fd)
      (hsockets : t.sockets = s.sockets) (hhandlers : t.handlers = s.handlers)
      (hcreated : t.created = s.created) (hdeleted : t.deleted = s.deleted) (hafter : t.Deaf fd)
      (hdeaf : ∀ fd', fd' ≠ fd → (t.Deaf fd' ↔ s.Deaf fd')) : Turns s (some .refuse) t
  | lose {t : Server} {fd : Fd} {id : Nat} (hh : s.handlers fd = some (.echo id))
      (hbefore : ¬ s.Deaf fd)
      (hsockets : t.sockets = s.sockets)
      (hhandlers : t.handlers = Function.update s.handlers fd none)
      (hcreated : t.created = s.created) (hdeleted : t.deleted = s.deleted)
      (hdeaf : ∀ fd', fd' ≠ fd → (t.Deaf fd' ↔ s.Deaf fd')) : Turns s (some .lose) t
  | close {t : Server} {fd : Fd} {id : Nat} (hh : s.handlers fd = some (.echo id))
      (hbefore : ¬ s.Deaf fd)
      (hsockets : t.sockets = Function.update s.sockets fd none)
      (hhandlers : t.handlers = Function.update s.handlers fd none)
      (hcreated : t.created = s.created) (hdeleted : t.deleted = s.deleted ++ [.echo id])
      (hdeaf : ∀ fd', fd' ≠ fd → (t.Deaf fd' ↔ s.Deaf fd')) : Turns s (some .close) t

/-- A step on a client that stays as it is: not deaf before and not deaf after. -/
theorem Turns.of_client (hsockets : t.sockets = s.sockets) (hhandlers : t.handlers = s.handlers)
    (hcreated : t.created = s.created) (hdeleted : t.deleted = s.deleted)
    (hbefore : ¬ s.Deaf fd) (hafter : ¬ t.Deaf fd)
    (hdeaf : ∀ fd', fd' ≠ fd → (t.Deaf fd' ↔ s.Deaf fd')) : s.Turns none t := by
  refine .keep hsockets (fun _ _ _ => congrFun hhandlers _) hcreated hdeleted fun fd' _ _ => ?_
  by_cases he : fd' = fd
  · rw [he]
    exact iff_of_false hafter hbefore
  · exact hdeaf fd' he

/-- One that leaves the registrations, with no call on a client under way. -/
theorem Turns.of_idle (hsockets : t.sockets = s.sockets) (hhandlers : t.handlers = s.handlers)
    (hcreated : t.created = s.created) (hdeleted : t.deleted = s.deleted)
    (hregistered : t.registered = s.registered) (hs : s.pc.client = none)
    (ht : t.pc.client = none) : s.Turns none t := by
  refine .keep hsockets (fun _ _ _ => congrFun hhandlers _) hcreated hdeleted fun fd' _ _ => ?_
  refine deaf_of_others ?_ ?_ (congrFun hregistered fd')
  · rw [hs]
    nofun
  · rw [ht]
    nofun

/-- The places a call on one client leads to, seen from the others. -/
theorem deaf_iff_of_ne (hs : ∀ fd', s.pc.client = some fd' → fd' = fd)
    (ht : ∀ fd', t.pc.client = some fd' → fd' = fd)
    (hregistered : ∀ fd', fd' ≠ fd → t.registered fd' = s.registered fd') :
    ∀ fd', fd' ≠ fd → (t.Deaf fd' ↔ s.Deaf fd') := fun fd' hne =>
  deaf_of_others (fun h => hne (hs fd' h)) (fun h => hne (ht fd' h)) (hregistered fd' hne)

/-- `RemoveHandler` returns what is not 0 to `Start` when it fails. -/
theorem returnsError_step (hs : s.pc.ReturnsError) (h : s.Step call t) :
    t.pc.ReturnsError := by
  cases h with
  | errorEvent hpc hh hbits => exact nofun
  | recvZero hpc | recvErr hpc hne | sendZero hpc | sendErr hpc =>
    show some _ ≠ some 0
    decide
  | @sendData event rest id hpc hh hout hreceived => exact (sendLoop_owning ..).2.2.2
  | sendBytes hpc => exact (sendLoop_owning ..).2.2.2
  | @recvChunk bytes fd id rest hpc hne =>
    rcases afterRecv_chunk s fd id rest hne with ⟨-, he⟩ | ⟨-, he⟩
    · rw [he]
      trivial
    · rw [he]
      trivial
  | del hpc =>
    rw [hpc] at hs
    exact hs
  | recvAgain hpc | library => exact hs
  | _ => trivial

/-- A `RemoveHandler` that fails, and an event of neither kind, lose a connection. -/
theorem Turns.of_handled (errno : Errno) {ret : Int}
    {rest : List EpollEvent} (hh : s.handlers fd = some (.echo id)) (hret : ret ≠ 0)
    (hbefore : ¬ s.Deaf fd) (hclient : ∀ fd', s.pc.client = some fd' → fd' = fd) :
    s.Turns (some .lose) (handled { s with errno } fd ret rest) :=
  .lose hh hbefore rfl (if_pos hret) rfl rfl
    (deaf_iff_of_ne hclient nofun fun _ _ => rfl)

/-- What is done with a registered client leaves it served as long as it stays
registered. -/
theorem Turns.of_registered (hsome : (s.registered fd).isSome = true)
    (hregistered : t.registered = s.registered) (hsockets : t.sockets = s.sockets)
    (hhandlers : t.handlers = s.handlers) (hcreated : t.created = s.created)
    (hdeleted : t.deleted = s.deleted) (hs : ∀ fd', s.pc.client = some fd' → fd' = fd)
    (ht : ∀ fd', t.pc.client = some fd' → fd' = fd) : s.Turns none t :=
  .of_client hsockets hhandlers hcreated hdeleted (not_deaf_of_registered hsome)
    (not_deaf_of_registered (hregistered ▸ hsome))
    (deaf_iff_of_ne hs ht fun _ _ => congrFun hregistered _)

/-- So it is with the loop of `SendData`. -/
theorem Turns.of_sendLoop {sentBufferLength : Nat} {rest : List EpollEvent}
    (hsome : (t.registered fd).isSome = true) (hregistered : t.registered = s.registered)
    (hsockets : t.sockets = s.sockets) (hhandlers : t.handlers = s.handlers)
    (hcreated : t.created = s.created) (hdeleted : t.deleted = s.deleted)
    (hs : ∀ fd', s.pc.client = some fd' → fd' = fd) :
    s.Turns none (t.sendLoop fd id sentBufferLength rest) := by
  have hfd : ∀ {fd'}, some fd = some fd' → fd' = fd := fun h => (Option.some.inj h).symm
  rw [hregistered] at hsome
  rcases sendLoop_cases t fd id sentBufferLength rest with ⟨-, he⟩ | ⟨-, he⟩ | ⟨-, he⟩
  all_goals
    rw [he]
    exact .of_registered hsome hregistered hsockets hhandlers hcreated hdeleted hs fun _ => hfd

/-- What a step does to a connection is what `turn` says. -/
theorem turns_of_step (hs : s.Wired listenFd) (hret : s.pc.ReturnsError) (hk : s.Kernel call)
    (h : s.Step call t) : s.Turns (s.turn call) t := by
  have hhandling := hs.handling
  have hnone : ∀ {fd fd' : Fd}, none = some fd' → fd' = fd := fun h => by cases h
  have hclient : ∀ {fd pc}, s.pc = pc → pc.client = some fd →
      ∀ fd', s.pc.client = some fd' → fd' = fd :=
    fun hpc h fd' h' => Option.some.inj ((hpc ▸ h').symm.trans h)
  have hidle : ∀ {pc}, s.pc = pc → pc.client = none → ∀ fd fd', s.pc.client = some fd' → fd' = fd :=
    fun hpc h fd fd' h' => hnone (h.symm.trans (hpc ▸ h'))
  have hfd : ∀ {fd fd' : Fd}, some fd = some fd' → fd' = fd := fun h => (Option.some.inj h).symm
  cases h with
  | epollWaitErr hpc | epollWait hpc =>
    exact .of_idle rfl rfl rfl rfl rfl (by rw [hpc]; rfl) rfl
  | batchDone hpc =>
    simp only [turn, hpc]
    exact .of_idle rfl rfl rfl rfl rfl (by rw [hpc]; rfl) rfl
  | handlerNotExist hpc hh | serverHandle hpc hh =>
    simp only [turn, hpc, hh]
    exact .of_idle rfl rfl rfl rfl rfl (by rw [hpc]; rfl) rfl
  | nothingToSend hpc hh hout hreceived =>
    simp only [turn, hpc, hh, hout, Bool.not_true, Bool.and_false, Bool.false_eq_true, if_false]
    exact .of_idle rfl rfl rfl rfl rfl (by rw [hpc]; rfl) rfl
  | @errorEvent event rest id hpc hh hbits =>
    have hturn : s.turn .handle = none := by
      rcases hbits with hin | hout
      · simp [turn, hpc, hh, hin]
      · simp [turn, hpc, hh, hout]
    rw [hturn]
    exact .of_registered (hs.pending.event_isSome hpc) rfl rfl rfl rfl rfl (hidle hpc rfl event.fd)
      fun _ => hfd
  | @recvData event rest id hpc hh hin =>
    simp only [turn, hpc, hh, hin, Bool.not_true, Bool.false_and, Bool.false_eq_true, if_false]
    exact .of_registered (hs.pending.event_isSome hpc) rfl rfl rfl rfl rfl (hidle hpc rfl event.fd)
      fun _ => hfd
  | @sendData event rest id hpc hh hout hreceived =>
    simp only [turn, hpc, hh, hout, Bool.not_true, Bool.and_false, Bool.false_eq_true, if_false]
    exact .of_sendLoop (hs.pending.event_isSome hpc) rfl rfl rfl rfl rfl (hidle hpc rfl event.fd)
  | @notSupport event rest id hpc hh hin hout =>
    simp only [turn, hpc, hh, hin, hout, Bool.not_false, Bool.and_true, if_true]
    exact .of_handled s.errno hh (by decide)
      (not_deaf_of_registered (hs.pending.event_isSome hpc)) (hidle hpc rfl event.fd)
  | @acceptErr errno fd rest hpc =>
    simp only [Handling, hpc] at hhandling
    refine .keep rfl (fun fd' id' hopen => ?_) rfl rfl fun fd' _ _ => ?_
    · -- it is the listening socket's handler that is dropped
      have hne : fd' ≠ fd := by
        rintro rfl
        rw [hhandling, hs.tables.listening] at hopen
        cases hopen
      rw [handled_handlers (by decide) rest]
      exact Function.update_of_ne hne ..
    · refine deaf_of_others ?_ (fun h => by cases h) rfl
      rw [hpc]
      intro h
      cases h
  | @accept accepted fd rest hpc =>
    have hfree : s.sockets accepted.clientFd = none := hk
    refine .accept hfree rfl rfl rfl rfl ?_ ?_
    · exact not_deaf_of_client rfl
    · exact deaf_iff_of_ne (hidle hpc rfl _) (fun _ => hfd) fun _ _ => rfl
  | @addErr errno fd clientFd rest hpc =>
    simp only [Handling, hpc] at hhandling
    obtain ⟨-, hunregistered, id, hh⟩ := hhandling
    simp only [turn, hpc]
    exact .refuse hh (not_deaf_of_client (by rw [hpc]; rfl)) rfl rfl rfl rfl ⟨hunregistered, rfl⟩
      (deaf_iff_of_ne (hclient hpc rfl) (fun _ => hnone) fun _ _ => rfl)
  | @add fd clientFd rest hpc =>
    refine .of_client rfl rfl rfl rfl (not_deaf_of_client (by rw [hpc]; rfl))
      (not_deaf_of_registered ?_)
      (deaf_iff_of_ne (hclient hpc rfl) (fun _ => hnone) fun _ hne => Function.update_of_ne hne ..)
    simp [afterAddHandler, handled]
  | @modifyErr errno fd events rest hpc =>
    simp only [Handling, hpc] at hhandling
    simp only [turn, hpc]
    exact .of_registered hhandling.2.1 rfl rfl rfl rfl rfl (hclient hpc rfl) (fun _ => hnone)
  | @modify fd events rest hpc =>
    simp only [Handling, hpc] at hhandling
    refine .of_client rfl rfl rfl rfl (not_deaf_of_registered hhandling.2.1)
      (not_deaf_of_registered ?_)
      (deaf_iff_of_ne (hclient hpc rfl) (fun _ => hnone) fun _ hne => Function.update_of_ne hne ..)
    simp [afterModifyHandler, handled]
  | @delErr errno fd ret rest hpc =>
    simp only [Handling, hpc] at hhandling
    rw [hpc] at hret
    obtain ⟨⟨id, hh⟩, hsome⟩ := hhandling
    simp only [turn, hpc]
    exact .of_handled errno hh (getD_ne_zero hret) (not_deaf_of_registered hsome) (hclient hpc rfl)
  | @del fd ret rest hpc =>
    simp only [Handling, hpc] at hhandling
    refine .of_client rfl rfl rfl rfl (not_deaf_of_registered hhandling.2)
      (not_deaf_of_client rfl)
      (deaf_iff_of_ne (hclient hpc rfl) (fun _ => hfd) fun _ hne => Function.update_of_ne hne ..)
  | @closeErr errno fd ret rest hpc =>
    simp only [Handling, hpc] at hhandling
    obtain ⟨⟨id, hh⟩, -⟩ := hhandling
    rw [hpc] at hret
    exact .of_handled errno hh (getD_ne_zero hret) (not_deaf_of_client (by rw [hpc]; rfl))
      (hclient hpc rfl)
  | @close fd ret rest hpc =>
    simp only [Handling, hpc] at hhandling
    obtain ⟨⟨id, hh⟩, -⟩ := hhandling
    refine .close hh (not_deaf_of_client (by rw [hpc]; rfl)) rfl (afterClose_handlers ret rest)
      rfl ?_ (deaf_iff_of_ne (hclient hpc rfl) (fun _ => hnone)
        fun _ hne => Function.update_of_ne hne ..)
    show s.deleted ++ (s.handlers fd).toList = _
    rw [hh]
    rfl
  | @recvZero fd id rest hpc =>
    simp only [Handling, hpc] at hhandling
    exact .of_registered hhandling.2 rfl rfl rfl rfl rfl (hclient hpc rfl) fun _ => hfd
  | @recvChunk bytes fd id rest hpc hne =>
    simp only [Handling, hpc] at hhandling
    rcases afterRecv_chunk s fd id rest hne with ⟨-, he⟩ | ⟨-, he⟩
    all_goals
      rw [he]
      exact .of_registered hhandling.2 rfl rfl rfl rfl rfl (hclient hpc rfl) fun _ => hfd
  | recvAgain hpc | library =>
    exact .keep rfl (fun _ _ _ => rfl) rfl rfl fun _ _ _ => Iff.rfl
  | @recvErr errno fd id rest hpc hne | @sendErr errno fd id sentBufferLength rest hpc
  | @sendZero fd id sentBufferLength rest hpc =>
    simp only [Handling, hpc] at hhandling
    exact .of_registered hhandling.2 rfl rfl rfl rfl rfl (hclient hpc rfl) fun _ => hfd
  | @sendBytes ret fd id sentBufferLength rest hpc =>
    simp only [Handling, hpc] at hhandling
    exact .of_sendLoop (t := s.recordSent fd _) hhandling.2 rfl rfl rfl rfl rfl (hclient hpc rfl)

/-! ## The fates after a step -/

/-- `RemoveHandler` closes a connection and deletes its handler. -/
theorem Turns.closes (hs : s.Tables listenFd) (h : s.Turns (some .close) t) :
    ∃ id, id ∉ s.fated .closed ∧ t.deleted = s.deleted ++ [.echo id] ∧
      t.fated .closed = insert id (s.fated .closed) := by
  cases h with
  | @close _ fd id hh hbefore hsockets hhandlers hcreated hdeleted hdeaf =>
    have hopen := hs.echo_client fd id hh
    refine ⟨id, fun hclosed => hclosed.2 fd hopen, hdeleted, Set.ext fun id' => ?_⟩
    rw [Set.mem_insert_iff, mem_closed, mem_closed, hsockets, hcreated]
    constructor
    · rintro ⟨hlt, hnone⟩
      refine or_iff_not_imp_left.mpr fun hne => ⟨hlt, fun fd' hopen' => ?_⟩
      by_cases he : fd' = fd
      · rw [he, hopen] at hopen'
        exact hne (Socket.client.inj (Option.some.inj hopen')).symm
      · exact hnone fd' (by rwa [Function.update_of_ne he])
    · have hdiffer : ∀ {fd'}, Function.update s.sockets fd none fd' = some (.client id') →
          s.sockets fd' = some (.client id') ∧ fd' ≠ fd := by
        intro fd' hfd'
        by_cases he : fd' = fd
        · rw [he, Function.update_self] at hfd'
          cases hfd'
        · rw [Function.update_of_ne he] at hfd'
          exact ⟨hfd', he⟩
      rintro (rfl | ⟨hlt, hnone⟩)
      · refine ⟨hs.client_lt fd _ hopen, fun fd' hfd' => ?_⟩
        obtain ⟨hopen', hne⟩ := hdiffer hfd'
        exact hne (hs.client_inj fd' fd _ hopen' hopen)
      · exact ⟨hlt, fun fd' hfd' => hnone fd' (hdiffer hfd').1⟩

theorem Turns.keeps_closed {turn : Option Turn} (h : s.Turns turn t)
    (hne : turn ≠ some .close) :
    t.deleted = s.deleted ∧ t.fated .closed = s.fated .closed := by
  cases h with
  | keep hsockets hhandlers hcreated hdeleted | refuse _ _ hsockets hhandlers hcreated hdeleted
  | lose _ _ hsockets hhandlers hcreated hdeleted =>
    exact ⟨hdeleted, by simp only [fated, hsockets, hcreated]⟩
  | close => exact absurd rfl hne
  | @accept _ fd hfree hsockets hhandlers hcreated hdeleted hnew hdeaf =>
    refine ⟨hdeleted, Set.ext fun id => ?_⟩
    rw [mem_closed, mem_closed, hsockets, hcreated]
    constructor
    · rintro ⟨hlt, hnone⟩
      have hid : id ≠ s.created := by
        rintro rfl
        exact hnone fd (Function.update_self ..)
      refine ⟨by omega, fun fd' hopen => hnone fd' ?_⟩
      have he : fd' ≠ fd := by
        rintro rfl
        rw [hfree] at hopen
        cases hopen
      rwa [Function.update_of_ne he]
    · rintro ⟨hlt, hnone⟩
      refine ⟨Nat.lt_succ_of_lt hlt, fun fd' hopen => ?_⟩
      by_cases he : fd' = fd
      · rw [he, Function.update_self] at hopen
        have hid := Socket.client.inj (Option.some.inj hopen)
        omega
      · rw [Function.update_of_ne he] at hopen
        exact hnone fd' hopen

/-- A connection whose handler is dropped is lost. -/
theorem Turns.loses (hs : s.Tables listenFd) (h : s.Turns (some .lose) t) :
    ∃ id, id ∉ s.fated .lost ∧ t.fated .lost = insert id (s.fated .lost) := by
  cases h with
  | @lose _ fd id hh hbefore hsockets hhandlers hcreated hdeleted hdeaf =>
    have hopen := hs.echo_client fd id hh
    refine ⟨id, ?_, Set.ext fun id' => ?_⟩
    · rintro ⟨fd', hopen', hnone⟩
      rw [hs.handler_unique hh hopen', hh] at hnone
      cases hnone
    · rw [Set.mem_insert_iff, mem_lost, mem_lost, hsockets, hhandlers]
      constructor
      · rintro ⟨fd', hopen', hnone⟩
        by_cases he : fd' = fd
        · rw [he, hopen] at hopen'
          exact Or.inl (Socket.client.inj (Option.some.inj hopen')).symm
        · rw [Function.update_of_ne he] at hnone
          exact Or.inr ⟨fd', hopen', hnone⟩
      · rintro (rfl | ⟨fd', hopen', hnone⟩)
        · exact ⟨fd, hopen, Function.update_self ..⟩
        · refine ⟨fd', hopen', ?_⟩
          by_cases he : fd' = fd
          · rw [he, Function.update_self]
          · rwa [Function.update_of_ne he]

theorem Turns.keeps_lost {turn : Option Turn} (h : s.Turns turn t)
    (hne : turn ≠ some .lose) : t.fated .lost = s.fated .lost := by
  cases h with
  | keep hsockets hhandlers =>
    refine Set.ext fun id => exists_congr fun fd => ?_
    rw [hsockets]
    exact and_congr_right fun hopen => by rw [hhandlers fd id hopen]
  | refuse _ _ hsockets hhandlers => simp only [fated, hsockets, hhandlers]
  | lose => exact absurd rfl hne
  | @accept _ fd hfree hsockets hhandlers hcreated hdeleted hnew hdeaf =>
    refine Set.ext fun id => exists_congr fun fd' => ?_
    rw [hsockets, hhandlers]
    by_cases he : fd' = fd
    · -- not open before, and with its handler after
      simp only [he, Function.update_self, hfree]
      exact iff_of_false (fun h => nomatch h.2) (fun h => nomatch h.1)
    · rw [Function.update_of_ne he, Function.update_of_ne he]
  | @close _ fd id hh hbefore hsockets hhandlers hcreated hdeleted hdeaf =>
    refine Set.ext fun id' => exists_congr fun fd' => ?_
    rw [hsockets, hhandlers]
    by_cases he : fd' = fd
    · -- with its handler before, and not open after
      simp only [he, Function.update_self, hh]
      exact iff_of_false (fun h => nomatch h.1) (fun h => nomatch h.2)
    · rw [Function.update_of_ne he, Function.update_of_ne he]

/-- A connection whose registration fails is deaf. -/
theorem Turns.refuses (hs : s.Tables listenFd) (h : s.Turns (some .refuse) t) :
    ∃ id, id ∉ s.fated .deaf ∧ t.fated .deaf = insert id (s.fated .deaf) := by
  cases h with
  | @refuse _ fd id hh hbefore hsockets hhandlers hcreated hdeleted hafter hdeaf =>
    refine ⟨id, ?_, Set.ext fun id' => ?_⟩
    · rintro ⟨fd', hh', hdeaf'⟩
      rw [hs.handler_unique hh (hs.echo_client fd' id hh')] at hdeaf'
      exact hbefore hdeaf'
    · rw [Set.mem_insert_iff, mem_deaf, mem_deaf, hhandlers]
      constructor
      · rintro ⟨fd', hh', hdeaf'⟩
        by_cases he : fd' = fd
        · rw [he, hh] at hh'
          exact Or.inl (Handler.echo.inj (Option.some.inj hh')).symm
        · exact Or.inr ⟨fd', hh', (hdeaf fd' he).mp hdeaf'⟩
      · rintro (rfl | ⟨fd', hh', hdeaf'⟩)
        · exact ⟨fd, hh, hafter⟩
        · refine ⟨fd', hh', (hdeaf fd' ?_).mpr hdeaf'⟩
          rintro rfl
          exact hbefore hdeaf'

theorem Turns.keeps_deaf (hs : s.Tables listenFd) (ht : t.Tables listenFd) {turn : Option Turn}
    (h : s.Turns turn t) (hne : turn ≠ some .refuse) : t.fated .deaf = s.fated .deaf := by
  cases h with
  | keep hsockets hhandlers hcreated hdeleted hdeaf =>
    -- a handler in the table, before or after, is that of an open client
    have hsame : ∀ fd id, t.handlers fd = some (.echo id) ↔ s.handlers fd = some (.echo id) := by
      intro fd id
      constructor
      · intro hh
        have hopen := ht.echo_client fd id hh
        rw [hsockets] at hopen
        rwa [hhandlers fd id hopen] at hh
      · intro hh
        rwa [hhandlers fd id (hs.echo_client fd id hh)]
    refine Set.ext fun id => exists_congr fun fd => ?_
    rw [hsame]
    exact and_congr_right fun hh => hdeaf fd id hh
  | refuse => exact absurd rfl hne
  | @accept _ fd hfree hsockets hhandlers hcreated hdeleted hnew hdeaf =>
    refine Set.ext fun id => exists_congr fun fd' => ?_
    rw [hhandlers]
    by_cases he : fd' = fd
    · have hnone : s.handlers fd ≠ some (.echo id) := by
        intro hh
        have hopen := hs.echo_client fd id hh
        rw [hfree] at hopen
        cases hopen
      rw [he]
      exact iff_of_false (fun h => hnew h.2) (fun h => hnone h.1)
    · rw [Function.update_of_ne he, hdeaf fd' he]
  | @lose _ fd id hh hbefore hsockets hhandlers hcreated hdeleted hdeaf
  | @close _ fd id hh hbefore hsockets hhandlers hcreated hdeleted hdeaf =>
    refine Set.ext fun id' => exists_congr fun fd' => ?_
    rw [hhandlers]
    by_cases he : fd' = fd
    · rw [he, Function.update_self]
      exact iff_of_false (fun h => nomatch h.1) (fun h => hbefore h.2)
    · rw [Function.update_of_ne he, hdeaf fd' he]

/-! ## Runs -/

/-- What every step keeps: a handler is deleted when its connection is closed, and
once. -/
structure Disposed (listenFd : Fd) (s : Server) : Prop where
  wired : s.Wired listenFd
  returns : s.pc.ReturnsError
  nodup : s.deleted.Nodup
  echo : ∀ h ∈ s.deleted, ∃ id, h = .echo id
  closed : ∀ id, .echo id ∈ s.deleted ↔ id ∈ s.fated .closed

theorem disposed_initial (listenFd : Fd) (errno : Errno) :
    (initial listenFd errno).Disposed listenFd where
  wired := wired_initial listenFd errno
  returns := trivial
  nodup := List.nodup_nil
  echo _ hh := absurd hh List.not_mem_nil
  closed _ := iff_of_false List.not_mem_nil fun h => absurd h.1 (Nat.not_lt_zero _)

theorem Disposed.turns (hs : s.Disposed listenFd) (h : (runs listenFd).step s call t) :
    s.Turns (s.turn call) t :=
  turns_of_step hs.wired hs.returns h.1 (step_of_next h.2)

theorem Disposed.step (hs : s.Disposed listenFd) (h : (runs listenFd).step s call t) :
    t.Disposed listenFd := by
  have hwired := hs.wired.step h.1 (step_of_next h.2)
  have hreturns := returnsError_step hs.returns (step_of_next h.2)
  have hturns := hs.turns h
  by_cases hclose : s.turn call = some .close
  · rw [hclose] at hturns
    obtain ⟨id, hnew, hdeleted, hclosed⟩ := hturns.closes hs.wired.tables
    refine ⟨hwired, hreturns, ?_, ?_, ?_⟩
    · rw [hdeleted]
      refine List.nodup_append.mpr ⟨hs.nodup, List.nodup_singleton _, fun h hmem h' hmem' he => ?_⟩
      rw [he, List.mem_singleton.mp hmem'] at hmem
      exact hnew ((hs.closed id).mp hmem)
    · rw [hdeleted]
      intro h hmem
      rcases List.mem_append.mp hmem with hmem | hmem
      · exact hs.echo h hmem
      · exact ⟨id, List.mem_singleton.mp hmem⟩
    · intro id'
      rw [hdeleted, hclosed, List.mem_append, List.mem_singleton, Set.mem_insert_iff, hs.closed,
        Handler.echo.injEq]
      exact or_comm
  · obtain ⟨hdeleted, hclosed⟩ := hturns.keeps_closed hclose
    refine ⟨hwired, hreturns, ?_, ?_, ?_⟩
    · rw [hdeleted]
      exact hs.nodup
    · rw [hdeleted]
      exact hs.echo
    · rw [hdeleted, hclosed]
      exact hs.closed

theorem Turns.created {turn : Option Turn} (h : s.Turns turn t) :
    t.created = s.created + (decide (turn = some .accept)).toNat := by
  cases h with
  | keep _ _ hcreated | refuse _ _ _ _ hcreated | lose _ _ _ _ hcreated
  | close _ _ _ _ hcreated | accept _ _ _ hcreated => exact hcreated

/-- The steps of a run that do something to a connection. -/
def turnsOf (turn : Turn) (s : Server) (call : SysCall) : Bool := s.turn call = some turn

theorem turnsOf_eq_true {turn : Turn} (h : turnsOf turn s call = true) :
    s.turn call = some turn := of_decide_eq_true h

theorem turnsOf_eq_false {turn : Turn} (h : turnsOf turn s call = false) :
    s.turn call ≠ some turn := of_decide_eq_false h

/-- A fate other than to be served is final. -/
theorem fated_final (hs : (runs listenFd).Reachable s) (h : (runs listenFd).Reaches s t)
    {fate : Fate} (hne : fate ≠ .served) : s.fated fate ⊆ t.fated fate := by
  refine h.relates (R := fun s t => s.fated fate ⊆ t.fated fate) hs (fun s => Set.Subset.rfl)
    (fun _ _ _ h₁ h₂ => h₁.trans h₂) fun s call t hs hstep => ?_
  have hdisposed := hs.invariant
    (fun s hinit => by obtain ⟨errno, rfl⟩ := hinit; exact disposed_initial listenFd errno)
    fun _ _ _ hs hstep => Disposed.step hs hstep
  have hturns := hdisposed.turns hstep
  have htables := hdisposed.wired.tables
  cases fate with
  | served => exact absurd rfl hne
  | deaf =>
    by_cases hturn : s.turn call = some .refuse
    · obtain ⟨id, -, he⟩ := Turns.refuses htables (hturn ▸ hturns)
      exact he ▸ Set.subset_insert _ _
    · exact (hturns.keeps_deaf htables (hdisposed.step hstep).wired.tables hturn).ge
  | lost =>
    by_cases hturn : s.turn call = some .lose
    · obtain ⟨id, -, he⟩ := Turns.loses htables (hturn ▸ hturns)
      exact he ▸ Set.subset_insert _ _
    · exact (hturns.keeps_lost hturn).ge
  | closed =>
    by_cases hturn : s.turn call = some .close
    · obtain ⟨id, -, -, he⟩ := Turns.closes htables (hturn ▸ hturns)
      exact he ▸ Set.subset_insert _ _
    · exact (hturns.keeps_closed hturn).2.ge

/-- The connections of a run that starts in `s` and has led to `t`. -/
structure Accounted (s : Server) (run : List (SysCall × Server)) (t : Server) : Prop where
  /-- Every connection accepted has one fate. -/
  accepted : t.created = TransitionSystem.count (turnsOf .accept) s run
  fate : ∀ id, id < t.created → ∃! fate, id ∈ t.fated fate
  /-- As many are deaf as registrations have failed. -/
  deaf : (t.fated .deaf).ncard = TransitionSystem.count (turnsOf .refuse) s run
  /-- As many are lost as `RemoveHandler`s have failed and events have had neither
  `EPOLLIN` nor `EPOLLOUT`. -/
  lost : (t.fated .lost).ncard = TransitionSystem.count (turnsOf .lose) s run
  /-- As many are closed as calls of `close` have succeeded. -/
  closed : (t.fated .closed).ncard = TransitionSystem.count (turnsOf .close) s run
  /-- The handlers deleted are those of the closed, each once. -/
  nodup : t.deleted.Nodup
  deleted : ∀ handler, handler ∈ t.deleted ↔ ∃ id ∈ t.fated .closed, handler = .echo id

/-- **Every connection is accounted for**, in every run of the server; and whatever comes
after it, the deaf stay deaf, the lost lost and the closed closed. -/
theorem connections_accounted {errno : Errno} {run : List (SysCall × Server)}
    (h : (runs listenFd).IsRun (initial listenFd errno) run) :
    Accounted (initial listenFd errno) run
        (TransitionSystem.last (initial listenFd errno) run) ∧
      ∀ t fate, (runs listenFd).Reaches (TransitionSystem.last (initial listenFd errno) run) t →
        fate ≠ .served →
          (TransitionSystem.last (initial listenFd errno) run).fated fate ⊆ t.fated fate := by
  have hinit : (runs listenFd).Reachable (initial listenFd errno) := .initial ⟨errno, rfl⟩
  refine ⟨?_, fun t fate hlater hne => fated_final (hinit.reaches h.reaches) hlater hne⟩
  have hkeep : ∀ s call t, Disposed listenFd s → (runs listenFd).step s call t →
      Disposed listenFd t := fun _ _ _ hs hstep => hs.step hstep
  have hstart := disposed_initial listenFd errno
  have hlast := h.keeps hkeep hstart
  -- at the start no number has been given away
  have hempty : ∀ fate, (initial listenFd errno).fated fate = ∅ := fun fate =>
    Set.eq_empty_of_forall_notMem fun id hid =>
      absurd (fated_lt hstart.wired.tables hid) (Nat.not_lt_zero id)
  have hcount : ∀ {fate turn}, (∀ s call t, Disposed listenFd s → (runs listenFd).step s call t →
        turnsOf turn s call = true →
          ∃ id, id ∉ s.fated fate ∧ t.fated fate = insert id (s.fated fate)) →
      (∀ s call t, Disposed listenFd s → (runs listenFd).step s call t →
        turnsOf turn s call = false → t.fated fate = s.fated fate) →
      ((TransitionSystem.last (initial listenFd errno) run).fated fate).ncard =
        TransitionSystem.count (turnsOf turn) (initial listenFd errno) run := by
    intro fate turn hgrows hstays
    have hncard := TransitionSystem.IsRun.ncard hkeep hgrows hstays hstart
      (hempty fate ▸ Set.finite_empty) h
    rwa [hempty, Set.ncard_empty, Nat.zero_add] at hncard
  constructor
  · have htally := TransitionSystem.IsRun.tally hkeep
      (fun s call t hs hstep => (hs.turns hstep).created) hstart h
    exact htally.trans (Nat.zero_add _)
  · intro id hid
    obtain ⟨fate, hfate⟩ := exists_fate hlast.wired.tables hid
    exact ⟨fate, hfate, fun _ h' => fate_unique hlast.wired.tables h' hfate⟩
  · refine hcount (fun s call t hs hstep hturn => ?_) fun s call t hs hstep hturn => ?_
    · exact Turns.refuses hs.wired.tables (turnsOf_eq_true hturn ▸ hs.turns hstep)
    · exact (hs.turns hstep).keeps_deaf hs.wired.tables (hs.step hstep).wired.tables
        (turnsOf_eq_false hturn)
  · refine hcount (fun s call t hs hstep hturn => ?_) fun s call t hs hstep hturn => ?_
    · exact Turns.loses hs.wired.tables (turnsOf_eq_true hturn ▸ hs.turns hstep)
    · exact (hs.turns hstep).keeps_lost (turnsOf_eq_false hturn)
  · refine hcount (fun s call t hs hstep hturn => ?_) fun s call t hs hstep hturn => ?_
    · obtain ⟨id, hnew, -, he⟩ :=
        Turns.closes hs.wired.tables (turnsOf_eq_true hturn ▸ hs.turns hstep)
      exact ⟨id, hnew, he⟩
    · exact ((hs.turns hstep).keeps_closed (turnsOf_eq_false hturn)).2
  · exact hlast.nodup
  · intro handler
    constructor
    · intro hmem
      obtain ⟨id, rfl⟩ := hlast.echo handler hmem
      exact ⟨id, (hlast.closed id).mp hmem, rfl⟩
    · rintro ⟨id, hid, rfl⟩
      exact (hlast.closed id).mpr hid

/-- The theorem at a run: a first client is lost to a lone `EPOLLHUP`, and the
registration of a second fails. -/
theorem connections_accounted_twoClients :
    ∃ t, (runs 3).Reachable t ∧ t.created = 2 ∧ (t.fated .lost).ncard = 1 ∧
      (t.fated .deaf).ncard = 1 ∧ (t.fated .closed).ncard = 0 := by
  have hrun : (runs 3).IsRun (initial 3 0)
      [(.epollWait (.ok [⟨3, .onlyIn⟩]), _), (.handle, _), (.accept4 (.ok ⟨5, ['a'], 80⟩), _),
        (.epollCtl (.ok ()), _), (.handle, _),
        (.epollWait (.ok [⟨5, ⟨false, false, false, true, false⟩⟩]), _), (.handle, _), (.handle, _),
        (.epollWait (.ok [⟨3, .onlyIn⟩]), _), (.handle, _), (.accept4 (.ok ⟨6, ['b'], 81⟩), _),
        (.epollCtl (.error 28), _)] :=
    ⟨⟨by decide, rfl⟩, ⟨trivial, rfl⟩, ⟨rfl, rfl⟩, ⟨rfl, rfl⟩, ⟨trivial, rfl⟩, ⟨by decide, rfl⟩,
      ⟨trivial, rfl⟩, ⟨trivial, rfl⟩, ⟨by decide, rfl⟩, ⟨trivial, rfl⟩, ⟨rfl, rfl⟩, ⟨trivial, rfl⟩,
      trivial⟩
  obtain ⟨haccounted, -⟩ := connections_accounted hrun
  have hinit : (runs 3).Reachable (initial 3 0) := .initial ⟨0, rfl⟩
  have hr := hinit.reaches hrun.reaches
  exact ⟨_, hr, haccounted.accepted, haccounted.lost, haccounted.deaf, haccounted.closed⟩

end Server
end MySvrKit
