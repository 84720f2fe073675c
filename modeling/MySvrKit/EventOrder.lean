import MySvrKit.HandlingOutcome

/-! # The order of the events of a batch

Two connections share the process's `errno`: `EchoHandler::Handle` removes a connection
at an event with `EPOLLERR` only if `errno` is not 0, and what is there may be what a
call on the other connection has left. -/

universe u

namespace MySvrKit

/-- `EPOLLIN | EPOLLERR`. -/
def EpollEvents.inErr : EpollEvents := ⟨true, false, true, false, false⟩

namespace Server
variable {fd : Fd} {id : Nat} {rest : List EpollEvent} {event : EpollEvent} {s t : Server}

/-- What can be seen of the server between two events: the registrations, the keys of
`handlers_`, the data of the connections that survive, and the bytes received and sent. -/
structure SameOutcome (s t : Server) : Prop where
  registered : ∀ fd, s.registered fd = t.registered fd
  keys : ∀ fd, (s.handlers fd).isSome = (t.handlers fd).isSome
  echo : ∀ fd id, s.handlers fd = some (.echo id) → s.echoHandlers id = t.echoHandlers id
  received : ∀ id, (s.chunks id).flatten = (t.chunks id).flatten
  sent : ∀ id, s.sent id = t.sent id

/-- The same of one descriptor and its connection. -/
structure SameAt (fd : Fd) (id : Nat) (s t : Server) : Prop where
  registered : s.registered fd = t.registered fd
  keys : (s.handlers fd).isSome = (t.handlers fd).isSome
  echo : s.handlers fd = some (.echo id) → t.handlers fd = some (.echo id) →
    s.echoHandlers id = t.echoHandlers id
  received : (s.chunks id).flatten = (t.chunks id).flatten
  sent : s.sent id = t.sent id

theorem Agree.sameAt (h : Agree fd id s t) : SameAt fd id s t :=
  ⟨h.registered, congrArg _ h.handler, fun _ _ => h.echo, congrArg _ h.chunks, h.sent⟩

theorem SameAt.symm (h : SameAt fd id s t) : SameAt fd id t s :=
  ⟨h.registered.symm, h.keys.symm, fun ht hs => (h.echo hs ht).symm, h.received.symm, h.sent.symm⟩

theorem sameAt_comm : SameAt fd id s t ↔ SameAt fd id t s :=
  ⟨SameAt.symm, SameAt.symm⟩

/-- `SameAt` looks only at the connection. -/
theorem SameAt.of_agree {s' : Server} (h : SameAt fd id s t) (hs : Agree fd id s s') :
    SameAt fd id s' t where
  registered := hs.registered ▸ h.registered
  keys := hs.handler ▸ h.keys
  echo hs' ht := hs.echo.symm.trans (h.echo (hs.handler.trans hs') ht)
  received := hs.chunks ▸ h.received
  sent := hs.sent ▸ h.sent

theorem Agree.sameAt_iff {s' : Server} (hs : Agree fd id s s') :
    SameAt fd id s t ↔ SameAt fd id s' t :=
  ⟨fun h => h.of_agree hs, fun h => h.of_agree hs.symm⟩

/-- The connection of an event that is pending. -/
structure Connected (fd : Fd) (id : Nat) (s : Server) : Prop where
  handler : s.handlers fd = some (.echo id)
  socket : s.sockets fd = some (.client id)
  registered : (s.registered fd).isSome = true

theorem Wired.connected {listenFd : Fd} {batch : List EpollEvent} (hs : s.Wired listenFd)
    (hpc : s.pc = .event batch) (hmem : event ∈ batch)
    (hh : s.handlers event.fd = some (.echo id)) : Connected event.fd id s := by
  refine ⟨hh, hs.tables.echo_client _ _ hh, ?_⟩
  obtain ⟨-, mask, hmask, -⟩ := hs.pending.registered event (by rw [hpc]; exact hmem)
  rw [hmask]
  rfl

/-! ## Two connections -/

theorem SameOutcome.sameAt (h : SameOutcome s t) (fd : Fd) (id : Nat) : SameAt fd id s t :=
  ⟨h.registered fd, h.keys fd, fun hs _ => h.echo fd id hs, h.received id, h.sent id⟩

/-- Handlers are at most dropped. -/
theorem Frame.kept (h : Frame fd id s t) {fd' : Fd} {handler : Handler}
    (ht : t.handlers fd' = some handler) : s.handlers fd' = some handler := by
  by_cases hfd : fd' = fd
  · subst hfd
    rcases h.handler with heq | hnone
    · exact heq ▸ ht
    · rw [hnone] at ht
      cases ht
  · exact (h.handlers fd' hfd) ▸ ht

/-- A handler number that survives belongs to its own connection. -/
theorem SameAt.echo_eq {listenFd : Fd} {u : Server} (h : SameAt fd id t u)
    (hs : s.Tables listenFd) (hc : Connected fd id s)
    (ht : ∀ {fd' handler}, t.handlers fd' = some handler → s.handlers fd' = some handler)
    (hu : ∀ {fd' handler}, u.handlers fd' = some handler → s.handlers fd' = some handler)
    {fd' : Fd} (hecho : t.handlers fd' = some (.echo id)) :
    t.echoHandlers id = u.echoHandlers id := by
  have hfd : fd' = fd := hs.client_inj fd' fd id (hs.echo_client _ _ (ht hecho)) hc.socket
  subst hfd
  have hkeys := h.keys
  rw [hecho, Option.isSome_some] at hkeys
  obtain ⟨handler, hhandler⟩ := Option.isSome_iff_exists.mp hkeys.symm
  have hsame : handler = .echo id := Option.some.inj ((hu hhandler).symm.trans hc.handler)
  exact h.echo hecho (hsame ▸ hhandler)

/-- Two events in either order can make a difference only at their two connections. -/
theorem sameOutcome_iff_sameAt {listenFd fd₁ fd₂ : Fd} {id₁ id₂ : Nat}
    {s₁ s₁₂ s₂ s₂₁ : Server} (hs : s.Tables listenFd) (hc₁ : Connected fd₁ id₁ s)
    (hc₂ : Connected fd₂ id₂ s) (h₁ : Frame fd₁ id₁ s s₁) (h₁₂ : Frame fd₂ id₂ s₁ s₁₂)
    (h₂ : Frame fd₂ id₂ s s₂) (h₂₁ : Frame fd₁ id₁ s₂ s₂₁) :
    SameOutcome s₁₂ s₂₁ ↔ SameAt fd₁ id₁ s₁₂ s₂₁ ∧ SameAt fd₂ id₂ s₁₂ s₂₁ := by
  have hfd : ∀ fd, fd ≠ fd₁ → fd ≠ fd₂ →
      s₁₂.registered fd = s₂₁.registered fd ∧ s₁₂.handlers fd = s₂₁.handlers fd := by
    intro fd hne₁ hne₂
    exact ⟨by rw [h₁₂.registered fd hne₂, h₁.registered fd hne₁, h₂₁.registered fd hne₁,
        h₂.registered fd hne₂],
      by rw [h₁₂.handlers fd hne₂, h₁.handlers fd hne₁, h₂₁.handlers fd hne₁,
        h₂.handlers fd hne₂]⟩
  have hid : ∀ id, id ≠ id₁ → id ≠ id₂ → s₁₂.echoHandlers id = s₂₁.echoHandlers id ∧
      s₁₂.chunks id = s₂₁.chunks id ∧ s₁₂.sent id = s₂₁.sent id := by
    intro id hne₁ hne₂
    exact ⟨by rw [h₁₂.echoHandlers id hne₂, h₁.echoHandlers id hne₁, h₂₁.echoHandlers id hne₁,
        h₂.echoHandlers id hne₂],
      by rw [h₁₂.chunks id hne₂, h₁.chunks id hne₁, h₂₁.chunks id hne₁, h₂.chunks id hne₂],
      by rw [h₁₂.sent id hne₂, h₁.sent id hne₁, h₂₁.sent id hne₁, h₂.sent id hne₂]⟩
  constructor
  · exact fun h => ⟨h.sameAt fd₁ id₁, h.sameAt fd₂ id₂⟩
  · rintro ⟨hat₁, hat₂⟩
    refine ⟨fun fd => ?_, fun fd => ?_, fun fd id hecho => ?_, fun id => ?_, fun id => ?_⟩
    · by_cases he₁ : fd = fd₁
      · exact he₁ ▸ hat₁.registered
      · by_cases he₂ : fd = fd₂
        · exact he₂ ▸ hat₂.registered
        · exact (hfd fd he₁ he₂).1
    · by_cases he₁ : fd = fd₁
      · exact he₁ ▸ hat₁.keys
      · by_cases he₂ : fd = fd₂
        · exact he₂ ▸ hat₂.keys
        · exact congrArg _ (hfd fd he₁ he₂).2
    · by_cases he₁ : id = id₁
      · subst he₁
        exact hat₁.echo_eq hs hc₁ (fun ht => h₁.kept (h₁₂.kept ht))
          (fun hu => h₂.kept (h₂₁.kept hu)) hecho
      · by_cases he₂ : id = id₂
        · subst he₂
          exact hat₂.echo_eq hs hc₂ (fun ht => h₁.kept (h₁₂.kept ht))
            (fun hu => h₂.kept (h₂₁.kept hu)) hecho
        · exact (hid id he₁ he₂).1
    · by_cases he₁ : id = id₁
      · exact he₁ ▸ hat₁.received
      · by_cases he₂ : id = id₂
        · exact he₂ ▸ hat₂.received
        · exact congrArg _ (hid id he₁ he₂).2.1
    · by_cases he₁ : id = id₁
      · exact he₁ ▸ hat₁.sent
      · by_cases he₂ : id = id₂
        · exact he₂ ▸ hat₂.sent
        · exact (hid id he₁ he₂).2.2

end Server

namespace Config
open Server

variable {Sock : Type u} (calls : SocketCalls Sock)

/-- The event closes the connection so, and the `epoll_ctl` of `RemoveHandler` then
succeeds if it does now. -/
def ClosesAtOnce (c : Config Sock) (id : Nat) (event : EpollEvent) : Prop :=
  ∃ sock', ClosesWith calls c id event sock' ∧
    ((calls.epollCtlDel sock').1 = .ok () ↔ (calls.epollCtlDel (c.socks event.fd)).1 = .ok ())

/-- The event of this connection does not depend on the calls `others` having been made
before it: `Handle` does not look at `errno`, or none of them fails, or the connection is
closed at once anyway. -/
def Undisturbed (c : Config Sock) (id : Nat) (event : EpollEvent) (others : List SysCall) :
    Prop :=
  event.events.TestsErrno →
    (∀ call ∈ others, call.failure = none) ∨ ClosesAtOnce calls c id event

variable {calls} {fd : Fd} {id : Nat} {event : EpollEvent} {c d c' d' : Config Sock}
  {made made' : List SysCall}

/-! ## One connection after another -/

/-- Between handling by bits and removing there is no difference iff the bits close the
connection at once. -/
theorem sameAt_iff_closesAtOnce {s t : Server}
    (houtcome : (∃ sock, (∀ sock', ClosesWith calls c id event sock' ↔ sock' = sock) ∧
        Removed event.fd id (calls.epollCtlDel sock).1 c.server s) ∨
      ((∀ sock', ¬ ClosesWith calls c id event sock') ∧ Lasts event.fd id c.server s))
    (hremoved : Removed event.fd id (calls.epollCtlDel (c.socks event.fd)).1 c.server t)
    (hreg : (c.server.registered event.fd).isSome = true) :
    SameAt event.fd id s t ↔ ClosesAtOnce calls c id event := by
  rcases houtcome with ⟨sock, hcloses, hs⟩ | ⟨hcloses, hlasts⟩
  · have hreg' : s.registered event.fd = t.registered event.fd ↔
        ((calls.epollCtlDel sock).1 = .ok () ↔
          (calls.epollCtlDel (c.socks event.fd)).1 = .ok ()) := by
      obtain ⟨mask, hmask⟩ := Option.isSome_iff_exists.mp hreg
      rw [hs.registered, hremoved.registered, hmask]
      cases (calls.epollCtlDel sock).1 <;> cases (calls.epollCtlDel (c.socks event.fd)).1 <;> simp
    simp only [ClosesAtOnce, hcloses, exists_eq_left]
    constructor
    · exact fun h => hreg'.mp h.registered
    · intro h
      refine ⟨hreg'.mpr h, by rw [hs.handler, hremoved.handler], fun hecho => ?_,
        hs.received.trans hremoved.received.symm, hs.sent.trans hremoved.sent.symm⟩
      rw [hs.handler] at hecho
      cases hecho
  · constructor
    · intro h
      exfalso
      rcases hlasts with hhandler | hreceived | hsent
      · have hkeys := h.keys
        rw [hremoved.handler, Option.isSome_none, Option.isSome_eq_false_iff,
          Option.isNone_iff_eq_none] at hkeys
        exact hhandler hkeys
      · exact hreceived (h.received.trans hremoved.received)
      · exact hsent (h.sent.trans hremoved.sent)
    · rintro ⟨sock', h, -⟩
      exact absurd h (hcloses sock')

/-- One event from two states that differ in nothing but `errno` for it. -/
theorem Handles.sameAt_iff (h : Handles calls event c made c')
    (h' : Handles calls event d made' d') (hc : Connected event.fd id c.server)
    (hcd : Agree event.fd id c.server d.server) (hsock : c.socks event.fd = d.socks event.fd)
    (herrno : d.server.errno = 0 → c.server.errno = 0) :
    SameAt event.fd id c'.server d'.server ↔
      (c.server.errno = 0 → event.events.TestsErrno →
        d.server.errno = 0 ∨ ClosesAtOnce calls c id event) := by
  by_cases hdiffers : event.events.TestsErrno ∧ c.server.errno = 0 ∧ d.server.errno ≠ 0
  · obtain ⟨htests, hzero, hne⟩ := hdiffers
    have hremoved := (h'.removed (hcd.handler ▸ hc.handler) hne htests).of_start
      hcd.registered.symm (congrArg _ hcd.chunks.symm) hcd.sent.symm
    rw [← hsock] at hremoved
    rw [sameAt_iff_closesAtOnce (h.outcome hc.handler hc.socket hzero htests) hremoved
      hc.registered]
    simp [htests, hzero, hne]
  · have hagree := h.agree h' hc.handler hc.socket hcd hsock fun htests =>
      ⟨fun hzero => by_contra fun hne => hdiffers ⟨htests, hzero, hne⟩, herrno⟩
    refine iff_of_true hagree.sameAt fun hzero htests => Or.inl ?_
    exact by_contra fun hne => hdiffers ⟨htests, hzero, hne⟩

/-- **Two events of a batch in either order**: from a reachable state, with both orders
returning, the outcome is the same iff `errno` is already set, or neither event is disturbed
by the calls made for the other one.  `made₁` and `made₂` are the calls made for an event
that is handled first. -/
theorem sameOutcome_iff_undisturbed {listenFd : Fd} {c c₁ c₁₂ c₂ c₂₁ : Config Sock}
    {batch : List EpollEvent} {event₁ event₂ : EpollEvent} {id₁ id₂ : Nat}
    {made₁ made₂ made₁' made₂' : List SysCall}
    (hreach : (Server.runs listenFd).Reachable c.server) (hpc : c.server.pc = .event batch)
    (hmem₁ : event₁ ∈ batch) (hmem₂ : event₂ ∈ batch) (hne : event₁.fd ≠ event₂.fd)
    (hh₁ : c.server.handlers event₁.fd = some (.echo id₁))
    (hh₂ : c.server.handlers event₂.fd = some (.echo id₂))
    (h₁ : Handles calls event₁ c made₁ c₁) (h₁₂ : Handles calls event₂ c₁ made₂' c₁₂)
    (h₂ : Handles calls event₂ c made₂ c₂) (h₂₁ : Handles calls event₁ c₂ made₁' c₂₁) :
    SameOutcome c₁₂.server c₂₁.server ↔
      c.server.errno ≠ 0 ∨
        (Undisturbed calls c id₁ event₁ made₂ ∧ Undisturbed calls c id₂ event₂ made₁) := by
  have hw := Server.wired hreach
  have hc₁ := hw.connected hpc hmem₁ hh₁
  have hc₂ := hw.connected hpc hmem₂ hh₂
  have hid : id₁ ≠ id₂ := by
    rintro rfl
    exact hne (hw.tables.client_inj _ _ _ hc₁.socket hc₂.socket)
  -- each event first, and each event second
  obtain ⟨hf₁, hsocks₁⟩ := h₁.frame hh₁ hc₁.socket
  obtain ⟨hf₂, hsocks₂⟩ := h₂.frame hh₂ hc₂.socket
  have hagree₁ := hf₂.agree hne hid
  have hagree₂ := hf₁.agree hne.symm hid.symm
  obtain ⟨hf₁₂, -⟩ := h₁₂.frame (hagree₂.handler ▸ hh₂) (hagree₂.socket ▸ hc₂.socket)
  obtain ⟨hf₂₁, -⟩ := h₂₁.frame (hagree₁.handler ▸ hh₁) (hagree₁.socket ▸ hc₁.socket)
  have hzero₁ := h₁.errno_eq_zero hh₁
  have hzero₂ := h₂.errno_eq_zero hh₂
  have hiff₁ := h₁.sameAt_iff h₂₁ hc₁ hagree₁ (hsocks₂ _ hne).symm fun h => (hzero₂.mp h).1
  have hiff₂ := h₂.sameAt_iff h₁₂ hc₂ hagree₂ (hsocks₁ _ hne.symm).symm fun h => (hzero₁.mp h).1
  -- what comes second does not touch the first
  have hat₁ : SameAt event₁.fd id₁ c₁₂.server c₂₁.server ↔
      SameAt event₁.fd id₁ c₁.server c₂₁.server := (hf₁₂.agree hne hid).symm.sameAt_iff
  have hat₂ : SameAt event₂.fd id₂ c₁₂.server c₂₁.server ↔
      SameAt event₂.fd id₂ c₂.server c₁₂.server :=
    sameAt_comm.trans (hf₂₁.agree hne.symm hid.symm).symm.sameAt_iff
  rw [sameOutcome_iff_sameAt hw.tables hc₁ hc₂ hf₁ hf₁₂ hf₂ hf₂₁, hat₁, hat₂, hiff₁, hiff₂, hzero₁,
    hzero₂]
  unfold Undisturbed
  by_cases hzero : c.server.errno = 0 <;> simp [hzero]

/-- Sockets with a byte waiting, or a reset connection. -/
def resetCalls : SocketCalls Bool where
  recv waiting := if waiting then (.ok [7], false) else (.error 104, false)
  send bytes waiting := (.ok bytes.length, waiting)
  epollCtlMod _ waiting := (.ok (), waiting)
  epollCtlDel waiting := (.ok (), waiting)
  close waiting := (.ok (), waiting)
  recv_errno waiting errno h := by
    cases waiting with
    | true => cases h
    | false =>
      obtain rfl := Except.error.inj h
      decide
  send_errno _ _ _ h := by cases h
  epollCtlMod_errno _ _ _ h := by cases h
  epollCtlDel_errno _ _ h := by cases h
  close_errno _ _ h := by cases h

/-- The server when two clients are connected and an event of each is reported. -/
def twoClients (events₁ events₂ : EpollEvents) : Server :=
  { initial 3 0 with
    pc := .event [⟨5, events₁⟩, ⟨6, events₂⟩]
    handlers :=
      Function.update (Function.update (initial 3 0).handlers 5 (some (.echo 0))) 6
        (some (.echo 1))
    created := 2
    echoHandlers :=
      Function.update (Function.update (initial 3 0).echoHandlers 0 ⟨false, []⟩) 1 ⟨false, []⟩
    fdToClientaddrMap :=
      Function.update (Function.update (initial 3 0).fdToClientaddrMap 5
        (some (.staticBuffer, 80))) 6 (some (.staticBuffer, 81))
    inetNtoaBuffer := ['a']
    sockets :=
      Function.update (Function.update (initial 3 0).sockets 5 (some (.client 0))) 6
        (some (.client 1))
    registered :=
      Function.update (Function.update (initial 3 0).registered 5 (some .inEt)) 6
        (some .inEt) }

theorem reachable_twoClients : (Server.runs 3).Reachable (twoClients .onlyIn .inErr) := by
  have hcalls : TransitionSystem.exec (checked fun _ _ => True) (initial 3 0)
      [.epollWait (.ok [⟨3, .onlyIn⟩]), .handle, .accept4 (.ok ⟨5, ['a'], 80⟩), .epollCtl (.ok ()),
        .handle, .epollWait (.ok [⟨3, .onlyIn⟩]), .handle, .accept4 (.ok ⟨6, ['a'], 81⟩),
        .epollCtl (.ok ()), .handle, .epollWait (.ok [⟨5, .onlyIn⟩, ⟨6, .inErr⟩])] =
      some (twoClients .onlyIn .inErr) := rfl
  exact (Server.reachable_exec hcalls).of_restrict

/-- The theorem at two clients with a byte each, one event with `EPOLLERR`. -/
theorem sameOutcome_iff_undisturbed_twoBytes :
    ∃ c₁ c₁₂ c₂ c₂₁ : Config Bool, ∃ made₁ made₂ made₁' made₂',
      Handles resetCalls ⟨5, .onlyIn⟩ ⟨twoClients .onlyIn .inErr, fun _ => true⟩ made₁ c₁ ∧
        Handles resetCalls ⟨6, .inErr⟩ c₁ made₂' c₁₂ ∧
          Handles resetCalls ⟨6, .inErr⟩ ⟨twoClients .onlyIn .inErr, fun _ => true⟩ made₂ c₂ ∧
            Handles resetCalls ⟨5, .onlyIn⟩ c₂ made₁' c₂₁ ∧
              SameOutcome c₁₂.server c₂₁.server := by
  -- both calls made for the first client succeed
  obtain ⟨c₁, c₁₂, c₂, c₂₁, made₁, made₂, made₁', made₂', h₁, h₁₂, h₂, h₂₁, hmade⟩ :
      ∃ c₁ c₁₂ c₂ c₂₁ : Config Bool, ∃ made₁ made₂ made₁' made₂',
        Handles resetCalls ⟨5, .onlyIn⟩ ⟨twoClients .onlyIn .inErr, fun _ => true⟩ made₁ c₁ ∧
          Handles resetCalls ⟨6, .inErr⟩ c₁ made₂' c₁₂ ∧
            Handles resetCalls ⟨6, .inErr⟩ ⟨twoClients .onlyIn .inErr, fun _ => true⟩ made₂ c₂ ∧
              Handles resetCalls ⟨5, .onlyIn⟩ c₂ made₁' c₂₁ ∧
                made₁ = [.recv (.ok [7]), .epollCtl (.ok ())] :=
    ⟨_, _, _, _, _, _, _, _, ⟨_, rfl, .call rfl (.call rfl (.returned rfl))⟩,
      ⟨_, rfl, .call rfl (.call rfl (.returned rfl))⟩,
      ⟨_, rfl, .call rfl (.call rfl (.returned rfl))⟩,
      ⟨_, rfl, .call rfl (.call rfl (.returned rfl))⟩, rfl⟩
  refine ⟨c₁, c₁₂, c₂, c₂₁, made₁, made₂, made₁', made₂', h₁, h₁₂, h₂, h₂₁,
    (sameOutcome_iff_undisturbed reachable_twoClients rfl List.mem_cons_self
      (List.mem_cons_of_mem _ List.mem_cons_self) (by decide) rfl rfl h₁ h₁₂ h₂ h₂₁).mpr
      (Or.inr ⟨?_, ?_⟩)⟩
  · rintro ⟨herr, -⟩
    cases herr
  · intro _
    rw [hmade]
    exact Or.inl (List.forall_mem_cons.mpr
      ⟨rfl, List.forall_mem_cons.mpr ⟨rfl, List.forall_mem_nil _⟩⟩)

/-- Of two clients, the first reset: its failing `recv` has the second removed, which has
a byte waiting and is served if its event comes first. -/
theorem not_sameOutcome_reset :
    ∃ c c₁ c₁₂ c₂ c₂₁ : Config Bool, ∃ made₁ made₂ made₁' made₂',
      (Server.runs 3).Reachable c.server ∧
        c.server.pc = .event [⟨5, .onlyIn⟩, ⟨6, .inErr⟩] ∧
          c.server.handlers 5 = some (.echo 0) ∧ c.server.handlers 6 = some (.echo 1) ∧
            Handles resetCalls ⟨5, .onlyIn⟩ c made₁ c₁ ∧
              Handles resetCalls ⟨6, .inErr⟩ c₁ made₂' c₁₂ ∧
                Handles resetCalls ⟨6, .inErr⟩ c made₂ c₂ ∧
                  Handles resetCalls ⟨5, .onlyIn⟩ c₂ made₁' c₂₁ ∧
                    ¬ SameOutcome c₁₂.server c₂₁.server := by
  refine ⟨⟨twoClients .onlyIn .inErr, fun fd => fd == 6⟩, _, _, _, _, _, _, _, _,
    reachable_twoClients, rfl, rfl, rfl,
    ⟨_, rfl, .call rfl (.call rfl (.call rfl (.returned rfl)))⟩,
    ⟨_, rfl, .call rfl (.call rfl (.returned rfl))⟩,
    ⟨_, rfl, .call rfl (.call rfl (.returned rfl))⟩,
    ⟨_, rfl, .call rfl (.call rfl (.call rfl (.returned rfl)))⟩, ?_⟩
  intro h
  cases (show false = true from h.keys 6)

end Config
end MySvrKit
