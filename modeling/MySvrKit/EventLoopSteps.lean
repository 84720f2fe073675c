import MySvrKit.EventLoop

/-! # The steps of the event loop

What one step of the server does, by the branch of the source that runs (`Step`),
and the invariant that ties the handler table, the epoll set and the descriptors
together in every run, whatever the calls return (`Wired`). -/

namespace MySvrKit
namespace Server

/-- The steps of the server, by branches of the source. -/
inductive Step (s : Server) : SysCall → Server → Prop
  | epollWaitErr {errno} (hpc : s.pc = .epollWait) :
      Step s (.epollWait (.error errno)) { s with errno, pc := .stopped .epollWaitErr }
  | epollWait {events} (hpc : s.pc = .epollWait) :
      Step s (.epollWait (.ok events)) { s with pc := .event events }
  | batchDone (hpc : s.pc = .event []) : Step s .handle { s with pc := .epollWait }
  | handlerNotExist {event rest} (hpc : s.pc = .event (event :: rest))
      (hh : s.handlers event.fd = none) :
      Step s .handle { s with pc := .stopped .handlerNotExist }
  | serverHandle {event rest} (hpc : s.pc = .event (event :: rest))
      (hh : s.handlers event.fd = some .server) :
      Step s .handle { s with pc := .accept4 event.fd rest }
  | errorEvent {event rest id} (hpc : s.pc = .event (event :: rest))
      (hh : s.handlers event.fd = some (.echo id))
      (hbits : event.events.epollIn = true ∨ event.events.epollOut = true) :
      Step s .handle (s.removeHandler event.fd none rest)
  | recvData {event rest id} (hpc : s.pc = .event (event :: rest))
      (hh : s.handlers event.fd = some (.echo id)) (hin : event.events.epollIn = true) :
      Step s .handle (s.recvData event.fd id rest)
  | nothingToSend {event rest id} (hpc : s.pc = .event (event :: rest))
      (hh : s.handlers event.fd = some (.echo id)) (hout : event.events.epollOut = true)
      (hreceived : (s.echoHandlers id).hasReceived = false) :
      Step s .handle (s.handled event.fd 0 rest)
  | sendData {event rest id} (hpc : s.pc = .event (event :: rest))
      (hh : s.handlers event.fd = some (.echo id)) (hout : event.events.epollOut = true)
      (hreceived : (s.echoHandlers id).hasReceived = true) :
      Step s .handle (s.sendLoop event.fd id 0 rest)
  | notSupport {event rest id} (hpc : s.pc = .event (event :: rest))
      (hh : s.handlers event.fd = some (.echo id)) (hin : event.events.epollIn = false)
      (hout : event.events.epollOut = false) :
      Step s .handle (s.handled event.fd MyErrorcode.kNotSupportEpollEvent rest)
  | acceptErr {errno fd rest} (hpc : s.pc = .accept4 fd rest) :
      Step s (.accept4 (.error errno)) (handled { s with errno } fd (-1) rest)
  | accept {accepted fd rest} (hpc : s.pc = .accept4 fd rest) :
      Step s (.accept4 (.ok accepted)) (s.afterAccept4 fd rest (.ok accepted))
  | addErr {errno fd clientFd rest} (hpc : s.pc = .epollCtlAdd fd clientFd rest) :
      Step s (.epollCtl (.error errno)) (handled { s with errno } fd 0 rest)
  | add {fd clientFd rest} (hpc : s.pc = .epollCtlAdd fd clientFd rest) :
      Step s (.epollCtl (.ok ())) (s.afterAddHandler fd clientFd rest (.ok ()))
  | modifyErr {errno fd events rest} (hpc : s.pc = .epollCtlMod fd events rest) :
      Step s (.epollCtl (.error errno)) (handled { s with errno } fd 0 rest)
  | modify {fd events rest} (hpc : s.pc = .epollCtlMod fd events rest) :
      Step s (.epollCtl (.ok ())) (s.afterModifyHandler fd events rest (.ok ()))
  | delErr {errno fd ret rest} (hpc : s.pc = .epollCtlDel fd ret rest) :
      Step s (.epollCtl (.error errno)) (handled { s with errno } fd (ret.getD (-1)) rest)
  | del {fd ret rest} (hpc : s.pc = .epollCtlDel fd ret rest) :
      Step s (.epollCtl (.ok ())) (s.afterEpollCtlDel fd ret rest (.ok ()))
  | closeErr {errno fd ret rest} (hpc : s.pc = .close fd ret rest) :
      Step s (.close (.error errno)) (handled { s with errno } fd (ret.getD (-1)) rest)
  | close {fd ret rest} (hpc : s.pc = .close fd ret rest) :
      Step s (.close (.ok ())) (s.afterClose fd ret rest (.ok ()))
  | recvZero {fd id rest} (hpc : s.pc = .recv fd id rest) :
      Step s (.recv (.ok []))
        ((s.recordRecv fd []).removeHandler fd (some MyErrorcode.kRecvZero) rest)
  | recvChunk {bytes fd id rest} (hpc : s.pc = .recv fd id rest) (hne : bytes ≠ []) :
      Step s (.recv (.ok bytes)) (s.afterRecv fd id rest (.ok bytes))
  | recvAgain {fd id rest} (hpc : s.pc = .recv fd id rest) :
      Step s (.recv (.error eagain)) { s with errno := eagain }
  | recvErr {errno fd id rest} (hpc : s.pc = .recv fd id rest) (hne : errno ≠ eagain) :
      Step s (.recv (.error errno))
        ({ s with errno }.removeHandler fd (some MyErrorcode.kRecvErr) rest)
  | sendZero {fd id sentBufferLength rest} (hpc : s.pc = .send fd id sentBufferLength rest) :
      Step s (.send (.ok 0)) (s.removeHandler fd (some MyErrorcode.kSendZero) rest)
  | sendBytes {ret fd id sentBufferLength rest}
      (hpc : s.pc = .send fd id sentBufferLength rest) :
      Step s (.send (.ok (ret + 1))) (s.afterSend fd id sentBufferLength rest (.ok (ret + 1)))
  | sendErr {errno fd id sentBufferLength rest}
      (hpc : s.pc = .send fd id sentBufferLength rest) :
      Step s (.send (.error errno)) ({ s with errno }.removeHandler fd (some (-1)) rest)
  | library {errno} : Step s (.library errno) { s with errno }

theorem step_echoHandle {s : Server} {event : EpollEvent} {rest : List EpollEvent} {id : Nat}
    (hpc : s.pc = .event (event :: rest)) (hh : s.handlers event.fd = some (.echo id)) :
    s.Step .handle (s.echoHandle id event rest) := by
  unfold echoHandle
  split
  · rename_i hbits
    simp only [Bool.and_eq_true] at hbits
    exact .errorEvent hpc hh (Or.inl hbits.1.1)
  · split
    · rename_i hin
      exact .recvData hpc hh hin
    · rename_i hin
      split
      · rename_i hbits
        simp only [Bool.and_eq_true] at hbits
        exact .errorEvent hpc hh (Or.inr hbits.1.1)
      · split
        · rename_i hout
          unfold Server.sendData
          split
          · rename_i hreceived
            exact .nothingToSend hpc hh hout (by simpa using hreceived)
          · rename_i hreceived
            exact .sendData hpc hh hout (by simpa using hreceived)
        · rename_i hout
          exact .notSupport hpc hh (by simpa using hin) (by simpa using hout)

theorem step_of_next {s t : Server} {c : SysCall} (h : s.next c = some t) : s.Step c t := by
  cases c with
  | epollWait result =>
    simp only [next] at h
    split at h
    · rename_i hpc
      obtain rfl := Option.some.inj h
      cases result with
      | error errno => exact .epollWaitErr hpc
      | ok events => exact .epollWait hpc
    · cases h
  | handle =>
    simp only [next] at h
    split at h
    · rename_i rest hpc
      obtain rfl := Option.some.inj h
      cases rest with
      | nil => exact .batchDone hpc
      | cons event rest =>
        simp only [nextEvent]
        split
        · rename_i hh
          exact .handlerNotExist hpc hh
        · rename_i hh
          exact .serverHandle hpc hh
        · rename_i id hh
          exact step_echoHandle hpc hh
    · cases h
  | accept4 result =>
    simp only [next] at h
    split at h
    · rename_i hpc
      obtain rfl := Option.some.inj h
      cases result with
      | error errno => exact .acceptErr hpc
      | ok accepted => exact .accept hpc
    · cases h
  | epollCtl result =>
    simp only [next] at h
    split at h
    · rename_i hpc
      obtain rfl := Option.some.inj h
      cases result with
      | error errno => exact .addErr hpc
      | ok u => exact .add hpc
    · rename_i hpc
      obtain rfl := Option.some.inj h
      cases result with
      | error errno => exact .modifyErr hpc
      | ok u => exact .modify hpc
    · rename_i hpc
      obtain rfl := Option.some.inj h
      cases result with
      | error errno => exact .delErr hpc
      | ok u => exact .del hpc
    · cases h
  | recv result =>
    simp only [next] at h
    split at h
    · rename_i hpc
      obtain rfl := Option.some.inj h
      rcases result with errno | _ | ⟨b, bs⟩
      · by_cases he : errno = eagain
        · subst he
          exact .recvAgain hpc
        · simp only [afterRecv, he, if_false]
          exact .recvErr hpc he
      · exact .recvZero hpc
      · exact .recvChunk hpc (List.cons_ne_nil b bs)
    · cases h
  | send result =>
    simp only [next] at h
    split at h
    · rename_i hpc
      obtain rfl := Option.some.inj h
      rcases result with errno | _ | ret
      · exact .sendErr hpc
      · exact .sendZero hpc
      · exact .sendBytes hpc
    · cases h
  | close result =>
    simp only [next] at h
    split at h
    · rename_i hpc
      obtain rfl := Option.some.inj h
      cases result with
      | error errno => exact .closeErr hpc
      | ok u => exact .close hpc
    · cases h
  | library errno =>
    obtain rfl := Option.some.inj h
    exact .library

/-- The call a state is at, and the state after it; `errno` may change at any point. -/
theorem next_cases {s t : Server} {c : SysCall} (h : s.next c = some t) :
    (∃ errno, c = .library errno ∧ t = { s with errno }) ∨
      match s.pc with
      | .epollWait => ∃ result, c = .epollWait result ∧ t = s.afterEpollWait result
      | .event rest => c = .handle ∧ t = s.nextEvent rest
      | .accept4 fd rest => ∃ result, c = .accept4 result ∧ t = s.afterAccept4 fd rest result
      | .epollCtlAdd fd clientFd rest =>
          ∃ result, c = .epollCtl result ∧ t = s.afterAddHandler fd clientFd rest result
      | .recv fd id rest => ∃ result, c = .recv result ∧ t = s.afterRecv fd id rest result
      | .send fd id sentBufferLength rest =>
          ∃ result, c = .send result ∧ t = s.afterSend fd id sentBufferLength rest result
      | .epollCtlMod fd events rest =>
          ∃ result, c = .epollCtl result ∧ t = s.afterModifyHandler fd events rest result
      | .epollCtlDel fd ret rest =>
          ∃ result, c = .epollCtl result ∧ t = s.afterEpollCtlDel fd ret rest result
      | .close fd ret rest => ∃ result, c = .close result ∧ t = s.afterClose fd ret rest result
      | .stopped _ => False := by
  cases c with
  | library errno => exact Or.inl ⟨errno, rfl, (Option.some.inj h).symm⟩
  | handle | epollWait result | accept4 result | epollCtl result | recv result | send result
  | close result =>
    right
    cases hpc : s.pc <;> simp_all [next]

end Server

/-! ## Tables and control -/

namespace Pc

/-- The events of the batch still to handle. -/
def rest : Pc → List EpollEvent
  | .event rest | .accept4 _ rest | .epollCtlAdd _ _ rest | .recv _ _ rest | .send _ _ _ rest
  | .epollCtlMod _ _ rest | .epollCtlDel _ _ rest | .close _ _ rest => rest
  | .epollWait | .stopped _ => []

/-- The descriptor whose event is being handled. -/
def current : Pc → Option Fd
  | .accept4 fd _ | .epollCtlAdd fd _ _ | .recv fd _ _ | .send fd _ _ _ | .epollCtlMod fd _ _
  | .epollCtlDel fd _ _ | .close fd _ _ => some fd
  | .epollWait | .event _ | .stopped _ => none

end Pc

namespace Server

/-- What the handler table, the epoll set and the descriptors have to do with each
other in every state: a handler in the table is the one of the socket it is
registered for, and connections have their own numbers. -/
structure Tables (listenFd : Fd) (s : Server) : Prop where
  listening : s.sockets listenFd = some .listen
  listen_registered : s.registered listenFd = some .onlyIn
  listen_only : ∀ fd, s.sockets fd = some .listen → fd = listenFd
  client_lt : ∀ fd id, s.sockets fd = some (.client id) → id < s.created
  client_inj : ∀ fd fd' id, s.sockets fd = some (.client id) →
    s.sockets fd' = some (.client id) → fd = fd'
  registered_client : ∀ fd mask, s.registered fd = some mask → fd ≠ listenFd →
    (∃ id, s.sockets fd = some (.client id)) ∧ (mask = .inEt ∨ mask = .outEt)
  server_listen : ∀ fd, s.handlers fd = some .server → fd = listenFd
  echo_client : ∀ fd id, s.handlers fd = some (.echo id) → s.sockets fd = some (.client id)

/-- What holds of the descriptor being handled. -/
def Handling (listenFd : Fd) (s : Server) : Prop :=
  match s.pc with
  | .accept4 fd _ => fd = listenFd
  | .epollCtlAdd fd clientFd _ =>
      fd = listenFd ∧ s.registered clientFd = none ∧ ∃ id, s.handlers clientFd = some (.echo id)
  | .recv fd id _ | .send fd id _ _ =>
      s.handlers fd = some (.echo id) ∧ (s.registered fd).isSome = true
  | .epollCtlMod fd events _ =>
      (∃ id, s.handlers fd = some (.echo id)) ∧ (s.registered fd).isSome = true ∧
        (events = .inEt ∨ events = .outEt)
  | .epollCtlDel fd _ _ =>
      (∃ id, s.handlers fd = some (.echo id)) ∧ (s.registered fd).isSome = true
  | .close fd _ _ => (∃ id, s.handlers fd = some (.echo id)) ∧ s.registered fd = none
  | .epollWait | .event _ | .stopped _ => True

/-- The events still to handle are of different registered descriptors, not the one
being handled, and have bits their registration allows. -/
structure Pending (s : Server) : Prop where
  nodup : (s.pc.rest.map EpollEvent.fd).Nodup
  registered : ∀ e ∈ s.pc.rest, s.pc.current ≠ some e.fd ∧
    ∃ mask, s.registered e.fd = some mask ∧ mask.Reports e.events

/-- The invariant of the server, whatever the calls return. -/
structure Wired (listenFd : Fd) (s : Server) : Prop where
  tables : s.Tables listenFd
  handling : s.Handling listenFd
  pending : s.Pending

variable {listenFd fd : Fd} {s t : Server}

theorem Tables.echo_ne (hs : s.Tables listenFd) {id : Nat}
    (h : s.handlers fd = some (.echo id)) : fd ≠ listenFd := by
  rintro rfl
  have hc := hs.echo_client fd id h
  rw [hs.listening] at hc
  cases hc

/-- The handler in the table is that of the connection open on the descriptor. -/
theorem Tables.echo_eq (hs : s.Tables listenFd) {id id' : Nat}
    (hh : s.handlers fd = some (.echo id')) (hopen : s.sockets fd = some (.client id)) :
    id' = id := by
  have hclient := hs.echo_client fd id' hh
  rw [hopen] at hclient
  exact (Socket.client.inj (Option.some.inj hclient)).symm

/-- A descriptor that is not open is not registered. -/
theorem Tables.not_registered (hs : s.Tables listenFd) (h : s.sockets fd = none) :
    s.registered fd = none := by
  have hne : fd ≠ listenFd := by
    rintro rfl
    rw [hs.listening] at h
    cases h
  cases hmask : s.registered fd with
  | none => rfl
  | some mask =>
    obtain ⟨⟨id, hid⟩, -⟩ := hs.registered_client fd mask hmask hne
    rw [h] at hid
    cases hid

/-- A step that leaves the kernel objects and at most drops handlers. -/
theorem Tables.of_sub (hs : s.Tables listenFd) (hsockets : t.sockets = s.sockets)
    (hregistered : t.registered = s.registered) (hcreated : t.created = s.created)
    (hhandlers : ∀ fd h, t.handlers fd = some h → s.handlers fd = some h) :
    t.Tables listenFd where
  listening := hsockets ▸ hs.listening
  listen_registered := hregistered ▸ hs.listen_registered
  listen_only := hsockets ▸ hs.listen_only
  client_lt := by rw [hsockets, hcreated]; exact hs.client_lt
  client_inj := hsockets ▸ hs.client_inj
  registered_client := by rw [hsockets, hregistered]; exact hs.registered_client
  server_listen fd h := hs.server_listen fd (hhandlers fd _ h)
  echo_client fd id h := hsockets ▸ hs.echo_client fd id (hhandlers fd _ h)

/-- `Start` at most drops the handler of the descriptor that was handled. -/
theorem handled_sub {ret : Int} {rest : List EpollEvent} {fd' : Fd} {handler : Handler}
    (h : (s.handled fd ret rest).handlers fd' = some handler) : s.handlers fd' = some handler := by
  simp only [Server.handled] at h
  split at h
  · by_cases he : fd' = fd
    · subst he
      simp at h
    · rwa [Function.update_of_ne he] at h
  · exact h

theorem Tables.handled (hs : s.Tables listenFd) (fd : Fd) (ret : Int) (rest : List EpollEvent) :
    (s.handled fd ret rest).Tables listenFd :=
  hs.of_sub rfl rfl rfl fun _ _ => handled_sub

/-- `epoll_ctl` registers a connection, or changes its registration. -/
theorem Tables.register (hs : s.Tables listenFd) {id : Nat} {mask : EpollEvents}
    (hsocket : s.sockets fd = some (.client id)) (hmask : mask = .inEt ∨ mask = .outEt) :
    Tables listenFd { s with registered := Function.update s.registered fd (some mask) } := by
  have hne : fd ≠ listenFd := by
    rintro rfl
    rw [hs.listening] at hsocket
    cases hsocket
  refine ⟨hs.listening, ?_, hs.listen_only, hs.client_lt, hs.client_inj, ?_, hs.server_listen,
    hs.echo_client⟩
  · show Function.update s.registered fd (some mask) listenFd = some .onlyIn
    rw [Function.update_of_ne hne.symm]
    exact hs.listen_registered
  · intro fd' mask' h hne'
    by_cases he : fd' = fd
    · subst he
      obtain rfl : mask = mask' := by simpa using h
      exact ⟨⟨id, hsocket⟩, hmask⟩
    · exact hs.registered_client fd' mask' (by simpa [Function.update_of_ne he] using h) hne'

theorem Tables.unregister (hs : s.Tables listenFd) (hne : fd ≠ listenFd) :
    Tables listenFd { s with registered := Function.update s.registered fd none } := by
  refine ⟨hs.listening, ?_, hs.listen_only, hs.client_lt, hs.client_inj, ?_, hs.server_listen,
    hs.echo_client⟩
  · show Function.update s.registered fd none listenFd = some .onlyIn
    rw [Function.update_of_ne hne.symm]
    exact hs.listen_registered
  · intro fd' mask h hne'
    by_cases he : fd' = fd
    · subst he
      simp at h
    · exact hs.registered_client fd' mask (by simpa [Function.update_of_ne he] using h) hne'

/-- `close` of a connection, and its handler and registration with it. -/
theorem Tables.close (hs : s.Tables listenFd) (hne : fd ≠ listenFd) :
    Tables listenFd { s with
      sockets := Function.update s.sockets fd none
      registered := Function.update s.registered fd none
      handlers := Function.update s.handlers fd none } := by
  have hother : ∀ {α : Type} {f : Fd → Option α} {fd' : Fd} {x : α},
      Function.update f fd none fd' = some x → fd' ≠ fd ∧ f fd' = some x := by
    intro α f fd' x h
    by_cases he : fd' = fd
    · subst he
      simp at h
    · exact ⟨he, by rwa [Function.update_of_ne he] at h⟩
  have hkept : ∀ {α : Type} {f : Fd → Option α} {fd' : Fd} {x : α}, fd' ≠ fd → f fd' = some x →
      Function.update f fd none fd' = some x :=
    fun he h => (Function.update_of_ne he ..).trans h
  refine ⟨hkept hne.symm hs.listening, hkept hne.symm hs.listen_registered,
    fun fd' h => hs.listen_only fd' (hother h).2, fun fd' id h => hs.client_lt fd' id (hother h).2,
    fun fd₁ fd₂ id h₁ h₂ => hs.client_inj fd₁ fd₂ id (hother h₁).2 (hother h₂).2, ?_,
    fun fd' h => hs.server_listen fd' (hother h).2, ?_⟩
  · intro fd' mask h hne'
    obtain ⟨he, hold⟩ := hother h
    obtain ⟨⟨id, hid⟩, hmask⟩ := hs.registered_client fd' mask hold hne'
    exact ⟨⟨id, hkept he hid⟩, hmask⟩
  · intro fd' id h
    obtain ⟨he, hold⟩ := hother h
    exact hkept he (hs.echo_client fd' id hold)

/-- An accepted connection: a number and a descriptor not in use. -/
theorem Tables.accept (hs : s.Tables listenFd) (hfree : s.sockets fd = none) :
    Tables listenFd { s with
      sockets := Function.update s.sockets fd (some (.client s.created))
      created := s.created + 1
      handlers := Function.update s.handlers fd (some (.echo s.created)) } := by
  have hne : fd ≠ listenFd := by
    rintro rfl
    rw [hs.listening] at hfree
    cases hfree
  have hother : ∀ {fd' : Fd}, fd' ≠ fd →
      Function.update s.sockets fd (some (.client s.created)) fd' = s.sockets fd' :=
    fun he => Function.update_of_ne he ..
  refine ⟨?_, hs.listen_registered, ?_, ?_, ?_, ?_, ?_, ?_⟩
  · exact (hother hne.symm).trans hs.listening
  · intro fd' h
    by_cases he : fd' = fd
    · subst he
      simp at h
    · exact hs.listen_only fd' ((hother he).symm.trans h)
  · intro fd' id h
    by_cases he : fd' = fd
    · subst he
      obtain rfl : s.created = id := by simpa using h
      exact Nat.lt_succ_self _
    · exact Nat.lt_succ_of_lt (hs.client_lt fd' id ((hother he).symm.trans h))
  · intro fd₁ fd₂ id h₁ h₂
    by_cases he₁ : fd₁ = fd <;> by_cases he₂ : fd₂ = fd
    · rw [he₁, he₂]
    · -- a number in use is below the new one
      subst he₁
      obtain rfl : s.created = id := by simpa using h₁
      exact absurd (hs.client_lt fd₂ _ ((hother he₂).symm.trans h₂)) (Nat.lt_irrefl _)
    · subst he₂
      obtain rfl : s.created = id := by simpa using h₂
      exact absurd (hs.client_lt fd₁ _ ((hother he₁).symm.trans h₁)) (Nat.lt_irrefl _)
    · exact hs.client_inj fd₁ fd₂ id ((hother he₁).symm.trans h₁) ((hother he₂).symm.trans h₂)
  · intro fd' mask h hne'
    obtain ⟨⟨id, hid⟩, hmask⟩ := hs.registered_client fd' mask h hne'
    have he : fd' ≠ fd := by
      rintro rfl
      rw [hfree] at hid
      cases hid
    exact ⟨⟨id, (hother he).trans hid⟩, hmask⟩
  · intro fd' h
    by_cases he : fd' = fd
    · subst he
      simp at h
    · exact hs.server_listen fd' (by simpa [Function.update_of_ne he] using h)
  · intro fd' id h
    by_cases he : fd' = fd
    · subst he
      obtain rfl : s.created = id := by simpa using h
      simp
    · exact (hother he).trans
        (hs.echo_client fd' id (by simpa [Function.update_of_ne he] using h))

/-! ## The invariant -/

theorem sendLoop_cases (s : Server) (fd : Fd) (id sentBufferLength : Nat)
    (rest : List EpollEvent) :
    (sentBufferLength < (s.echoHandlers id).receivedData.length ∧
        s.sendLoop fd id sentBufferLength rest =
          { s with pc := .send fd id sentBufferLength rest }) ∨
      ((s.echoHandlers id).receivedData.length < sentBufferLength ∧
        s.sendLoop fd id sentBufferLength rest =
          s.removeHandler fd (some MyErrorcode.kSendErr) rest) ∨
      (sentBufferLength = (s.echoHandlers id).receivedData.length ∧
        s.sendLoop fd id sentBufferLength rest =
          { s.setEcho id { s.echoHandlers id with hasReceived := false } with
            pc := .epollCtlMod fd .inEt rest }) := by
  rcases Nat.lt_trichotomy sentBufferLength (s.echoHandlers id).receivedData.length with h | h | h
  · exact Or.inl ⟨h, by simp [sendLoop, h]⟩
  · exact Or.inr (Or.inr ⟨h, by simp [sendLoop, h]⟩)
  · exact Or.inr (Or.inl ⟨h, by simp [sendLoop, h, Nat.lt_asymm h]⟩)

/-- What follows bytes received: a short read ends the loop. -/
theorem afterRecv_chunk (s : Server) (fd : Fd) (id : Nat) (rest : List EpollEvent)
    {bytes : List UInt8} (hne : bytes ≠ []) :
    (bytes.length < kOnceRecvBufferSize ∧
        s.afterRecv fd id rest (.ok bytes) =
          { (s.recordRecv fd bytes).setEcho id { s.echoHandlers id with
              receivedData := (s.echoHandlers id).receivedData ++ bytes } with
            pc := .epollCtlMod fd .outEt rest }) ∨
      (¬ bytes.length < kOnceRecvBufferSize ∧
        s.afterRecv fd id rest (.ok bytes) =
          { (s.recordRecv fd bytes).setEcho id { s.echoHandlers id with
              receivedData := (s.echoHandlers id).receivedData ++ bytes } with
            pc := .recv fd id rest }) := by
  obtain ⟨b, bs, rfl⟩ := List.exists_cons_of_ne_nil hne
  by_cases hshort : (b :: bs).length < kOnceRecvBufferSize
  · exact Or.inl ⟨hshort, if_pos hshort⟩
  · exact Or.inr ⟨hshort, if_neg hshort⟩

/-- Whatever the loop of `SendData` does next, it has moved only the place and the
handler's own members. -/
theorem sendLoop_eq (s : Server) (fd : Fd) (id sentBufferLength : Nat)
    (rest : List EpollEvent) :
    ∃ pc handler, pc.rest = rest ∧ pc.current = some fd ∧
      s.sendLoop fd id sentBufferLength rest = { s.setEcho id handler with pc } := by
  have hsame : s.setEcho id (s.echoHandlers id) = s := by
    simp only [setEcho, Function.update_eq_self]
  rcases sendLoop_cases s fd id sentBufferLength rest with ⟨-, he⟩ | ⟨-, he⟩ | ⟨-, he⟩
  · refine ⟨_, s.echoHandlers id, ?_, ?_, by rw [he, hsame]⟩
    · rfl
    · rfl
  · refine ⟨_, s.echoHandlers id, ?_, ?_, by rw [he, hsame, removeHandler]⟩
    · rfl
    · rfl
  · exact ⟨_, _, rfl, rfl, he⟩

/-- And so `RecvData` after bytes received. -/
theorem afterRecv_eq (s : Server) (fd : Fd) (id : Nat) (rest : List EpollEvent)
    {bytes : List UInt8} (hne : bytes ≠ []) :
    ∃ pc handler, pc.rest = rest ∧ pc.current = some fd ∧
      s.afterRecv fd id rest (.ok bytes) =
        { (s.recordRecv fd bytes).setEcho id handler with pc } := by
  rcases afterRecv_chunk s fd id rest hne with ⟨-, he⟩ | ⟨-, he⟩
  · exact ⟨_, _, rfl, rfl, he⟩
  · exact ⟨_, _, rfl, rfl, he⟩

theorem sendLoop_handlers (s : Server) (fd : Fd) (id sentBufferLength : Nat)
    (rest : List EpollEvent) :
    (s.sendLoop fd id sentBufferLength rest).handlers = s.handlers := by
  obtain ⟨pc, handler, -, -, he⟩ := sendLoop_eq s fd id sentBufferLength rest
  rw [he]
  rfl

/-- `Start` after an error. -/
theorem handled_handlers {ret : Int} (hret : ret ≠ 0) (rest : List EpollEvent) :
    (s.handled fd ret rest).handlers = Function.update s.handlers fd none := if_pos hret

/-- The entry that `RemoveHandler` has erased `Start` may erase again. -/
theorem afterClose_handlers (ret : Option Int) (rest : List EpollEvent) :
    (s.afterClose fd ret rest (.ok ())).handlers = Function.update s.handlers fd none := by
  simp only [afterClose, handled]
  split
  · exact Function.update_idem ..
  · rfl

theorem getD_ne_zero {ret : Option Int} (h : ret ≠ some 0) : ret.getD (-1) ≠ 0 := by
  cases ret with
  | none => decide
  | some ret =>
    intro he
    exact h (congrArg some he)

theorem sendLoop_sockets (s : Server) (fd : Fd) (id sentBufferLength : Nat)
    (rest : List EpollEvent) : (s.sendLoop fd id sentBufferLength rest).sockets = s.sockets := by
  obtain ⟨pc, handler, -, -, he⟩ := sendLoop_eq s fd id sentBufferLength rest
  rw [he]
  rfl

theorem recordRecv_client {id : Nat} (h : s.sockets fd = some (.client id))
    (bytes : List UInt8) :
    s.recordRecv fd bytes =
      { s with chunks := Function.update s.chunks id (s.chunks id ++ [bytes]) } := by
  simp only [recordRecv, h]

theorem recordSent_client {id : Nat} (h : s.sockets fd = some (.client id))
    (bytes : List UInt8) :
    s.recordSent fd bytes =
      { s with sent := Function.update s.sent id (s.sent id ++ bytes) } := by
  simp only [recordSent, h]

/-- The event taken up is of a registered descriptor. -/
theorem Pending.event_registered (hs : s.Pending) {event : EpollEvent} {rest : List EpollEvent}
    (hpc : s.pc = .event (event :: rest)) :
    ∃ mask, s.registered event.fd = some mask ∧ mask.Reports event.events :=
  (hs.registered event (by rw [hpc]; exact List.mem_cons_self)).2

theorem Pending.event_isSome (hs : s.Pending) {event : EpollEvent} {rest : List EpollEvent}
    (hpc : s.pc = .event (event :: rest)) : (s.registered event.fd).isSome = true := by
  obtain ⟨mask, hmask, -⟩ := hs.event_registered hpc
  rw [hmask]
  rfl

/-- While an event is handled, or after it, the others are still pending. -/
theorem Pending.advance (hs : s.Pending) {event : EpollEvent} {rest : List EpollEvent}
    (hpc : s.pc = .event (event :: rest)) (hrest : t.pc.rest = rest)
    (hcurrent : t.pc.current = none ∨ t.pc.current = some event.fd)
    (hregistered : t.registered = s.registered) : t.Pending := by
  obtain ⟨hnodup, hreg⟩ := hs
  simp only [hpc, Pc.rest, List.map_cons, List.nodup_cons, List.mem_cons, forall_eq_or_imp]
    at hnodup hreg
  refine ⟨hrest ▸ hnodup.2, fun e he => ?_⟩
  rw [hrest] at he
  rw [hregistered]
  refine ⟨?_, (hreg.2 e he).2⟩
  rcases hcurrent with h | h
  · rw [h]
    nofun
  · rw [h]
    intro heq
    exact hnodup.1 (Option.some.inj heq ▸ List.mem_map_of_mem he)

/-- While a descriptor is handled the other registrations stay. -/
theorem Pending.keep (hs : s.Pending) (hrest : t.pc.rest = s.pc.rest)
    (hcurrent : t.pc.current = none ∨ t.pc.current = s.pc.current)
    (hregistered : ∀ fd, s.pc.current ≠ some fd → (s.registered fd).isSome = true →
      t.registered fd = s.registered fd) : t.Pending := by
  refine ⟨hrest ▸ hs.nodup, fun e he => ?_⟩
  rw [hrest] at he
  obtain ⟨hne, mask, hmask, hbits⟩ := hs.registered e he
  refine ⟨?_, mask, ?_, hbits⟩
  · rcases hcurrent with h | h
    · rw [h]
      nofun
    · rwa [h]
  · rw [hregistered e.fd hne (by rw [hmask]; rfl), hmask]

/-- So they do when the call in progress changes the registration of its own. -/
theorem Pending.update (hs : s.Pending) (hfd : s.pc.current = some fd)
    (hrest : t.pc.rest = s.pc.rest) (hcurrent : t.pc.current = none ∨ t.pc.current = s.pc.current)
    {mask : Option EpollEvents} (hregistered : t.registered = Function.update s.registered fd mask) :
    t.Pending := by
  refine hs.keep hrest hcurrent fun fd' hne _ => ?_
  rw [hregistered]
  refine Function.update_of_ne ?_ ..
  rintro rfl
  exact hne hfd

/-- The send loop keeps the invariant: it goes on with `send`, or to one of the two
calls that end it. -/
theorem Tables.wired_sendLoop (hs : s.Tables listenFd) {id sentBufferLength : Nat}
    {rest : List EpollEvent} (hh : s.handlers fd = some (.echo id))
    (hsome : (s.registered fd).isSome = true)
    (hpending : ∀ {u : Server}, u.pc.rest = rest → u.pc.current = some fd →
      u.registered = s.registered → u.Pending) :
    (s.sendLoop fd id sentBufferLength rest).Wired listenFd := by
  have hsame : ∀ {u : Server}, u.sockets = s.sockets → u.registered = s.registered →
      u.created = s.created → u.handlers = s.handlers → u.Tables listenFd :=
    fun h₁ h₂ h₃ h₄ => hs.of_sub h₁ h₂ h₃ fun _ _ h => h₄ ▸ h
  rcases sendLoop_cases s fd id sentBufferLength rest with ⟨-, he⟩ | ⟨-, he⟩ | ⟨-, he⟩
  · rw [he]
    exact ⟨hsame rfl rfl rfl rfl, ⟨hh, hsome⟩, hpending rfl rfl rfl⟩
  · rw [he]
    exact ⟨hsame rfl rfl rfl rfl, ⟨⟨id, hh⟩, hsome⟩, hpending rfl rfl rfl⟩
  · rw [he]
    exact ⟨hsame rfl rfl rfl rfl, ⟨⟨id, hh⟩, hsome, Or.inl rfl⟩, hpending rfl rfl rfl⟩

theorem wired_initial (listenFd : Fd) (errno : Errno) :
    (initial listenFd errno).Wired listenFd where
  tables := by
    have hother : ∀ {α : Type} {a : α} {fd : Fd} {x : α},
        Function.update (fun _ => none) listenFd (some a) fd = some x → fd = listenFd ∧ a = x := by
      intro α a fd x h
      by_cases he : fd = listenFd
      · subst he
        exact ⟨rfl, by simpa using h⟩
      · simp [Function.update_of_ne he] at h
    have hself : ∀ {α : Type} {a : α}, Function.update (fun _ => none) listenFd (some a) listenFd =
        some a := Function.update_self ..
    refine ⟨hself, hself, fun fd h => (hother h).1, ?_, ?_, ?_, fun fd h => (hother h).1, ?_⟩
    · exact fun fd id h => nomatch (hother h).2
    · exact fun fd _ id h => nomatch (hother h).2
    · exact fun fd mask h hne => absurd (hother h).1 hne
    · exact fun fd id h => nomatch (hother h).2
  handling := trivial
  pending := ⟨List.nodup_nil, nofun⟩

theorem Wired.step (hs : s.Wired listenFd) {c : SysCall} (hk : s.Kernel c) (h : s.Step c t) :
    t.Wired listenFd := by
  obtain ⟨htables, hhandling, hpending⟩ := hs
  have hsame : ∀ {u : Server}, u.sockets = s.sockets → u.registered = s.registered →
      u.created = s.created → u.handlers = s.handlers → u.Tables listenFd :=
    fun h₁ h₂ h₃ h₄ => htables.of_sub h₁ h₂ h₃ fun _ _ hh => h₄ ▸ hh
  have herrno : ∀ errno, Tables listenFd { s with errno } := fun _ => hsame rfl rfl rfl rfl
  cases h with
  | epollWaitErr hpc => exact ⟨hsame rfl rfl rfl rfl, trivial, ⟨List.nodup_nil, nofun⟩⟩
  | epollWait hpc =>
    exact ⟨hsame rfl rfl rfl rfl, trivial, ⟨hk.2.1, fun e he => ⟨nofun, hk.2.2 e he⟩⟩⟩
  | batchDone hpc => exact ⟨hsame rfl rfl rfl rfl, trivial, ⟨List.nodup_nil, nofun⟩⟩
  | handlerNotExist hpc hh => exact ⟨hsame rfl rfl rfl rfl, trivial, ⟨List.nodup_nil, nofun⟩⟩
  | serverHandle hpc hh =>
    exact ⟨hsame rfl rfl rfl rfl, htables.server_listen _ hh,
      hpending.advance hpc rfl (Or.inr rfl) rfl⟩
  | errorEvent hpc hh hbits =>
    exact ⟨hsame rfl rfl rfl rfl, ⟨⟨_, hh⟩, hpending.event_isSome hpc⟩,
      hpending.advance hpc rfl (Or.inr rfl) rfl⟩
  | recvData hpc hh hin =>
    exact ⟨hsame rfl rfl rfl rfl, ⟨hh, hpending.event_isSome hpc⟩,
      hpending.advance hpc rfl (Or.inr rfl) rfl⟩
  | nothingToSend hpc hh hout hreceived =>
    exact ⟨htables.handled .., trivial, hpending.advance hpc rfl (Or.inl rfl) rfl⟩
  | @sendData event rest id hpc hh hout hreceived =>
    exact htables.wired_sendLoop hh (hpending.event_isSome hpc)
      fun hrest hcurrent hreg => hpending.advance hpc hrest (Or.inr hcurrent) hreg
  | notSupport hpc hh hin hout =>
    exact ⟨htables.handled .., trivial, hpending.advance hpc rfl (Or.inl rfl) rfl⟩
  | acceptErr hpc =>
    exact ⟨(herrno _).handled .., trivial,
      hpending.keep (by rw [hpc]; rfl) (Or.inl rfl) fun _ _ _ => rfl⟩
  | @accept accepted fd rest hpc =>
    have hfd : fd = listenFd := by simpa [Handling, hpc] using hhandling
    -- the descriptor and the number are new, so the pending events are of others
    have haccepted := htables.accept (show s.sockets accepted.clientFd = none from hk)
    exact ⟨haccepted.of_sub rfl rfl rfl fun _ _ h => h,
      ⟨hfd, htables.not_registered hk, s.created, Function.update_self ..⟩,
      hpending.keep (by rw [hpc]; rfl) (Or.inr (by rw [hpc]; rfl)) fun _ _ _ => rfl⟩
  | addErr hpc =>
    exact ⟨(herrno _).handled .., trivial,
      hpending.keep (by rw [hpc]; rfl) (Or.inl rfl) fun _ _ _ => rfl⟩
  | @add fd clientFd rest hpc =>
    simp only [Handling, hpc] at hhandling
    obtain ⟨-, hfree, id, hid⟩ := hhandling
    refine ⟨(htables.register (htables.echo_client _ _ hid) (Or.inl rfl)).handled .., trivial,
      hpending.keep (by rw [hpc]; rfl) (Or.inl rfl) fun fd' _ hreg => ?_⟩
    refine Function.update_of_ne ?_ ..
    rintro rfl
    rw [hfree] at hreg
    cases hreg
  | modifyErr hpc =>
    exact ⟨(herrno _).handled .., trivial,
      hpending.keep (by rw [hpc]; rfl) (Or.inl rfl) fun _ _ _ => rfl⟩
  | @modify fd events rest hpc =>
    simp only [Handling, hpc] at hhandling
    obtain ⟨⟨id, hid⟩, -, hmask⟩ := hhandling
    exact ⟨(htables.register (htables.echo_client _ _ hid) hmask).handled .., trivial,
      hpending.update (by rw [hpc]; rfl) (by rw [hpc]; rfl) (Or.inl rfl) rfl⟩
  | delErr hpc =>
    exact ⟨(herrno _).handled .., trivial,
      hpending.keep (by rw [hpc]; rfl) (Or.inl rfl) fun _ _ _ => rfl⟩
  | @del fd ret rest hpc =>
    simp only [Handling, hpc] at hhandling
    obtain ⟨⟨id, hid⟩, -⟩ := hhandling
    exact ⟨(htables.unregister (htables.echo_ne hid)).of_sub rfl rfl rfl fun _ _ h => h,
      ⟨⟨id, hid⟩, Function.update_self ..⟩,
      hpending.update (by rw [hpc]; rfl) (by rw [hpc]; rfl) (Or.inr (by rw [hpc]; rfl)) rfl⟩
  | closeErr hpc =>
    exact ⟨(herrno _).handled .., trivial,
      hpending.keep (by rw [hpc]; rfl) (Or.inl rfl) fun _ _ _ => rfl⟩
  | @close fd ret rest hpc =>
    simp only [Handling, hpc] at hhandling
    obtain ⟨⟨id, hid⟩, -⟩ := hhandling
    have hclosed := (htables.close (htables.echo_ne hid)).handled fd (ret.getD 0) rest
    exact ⟨hclosed.of_sub rfl rfl rfl fun _ _ h => h, trivial,
      hpending.update (by rw [hpc]; rfl) (by rw [hpc]; rfl) (Or.inl rfl) rfl⟩
  | recvZero hpc =>
    simp only [Handling, hpc] at hhandling
    exact ⟨hsame rfl rfl rfl rfl, ⟨⟨_, hhandling.1⟩, hhandling.2⟩,
      hpending.keep (by rw [hpc]; rfl) (Or.inr (by rw [hpc]; rfl)) fun _ _ _ => rfl⟩
  | @recvChunk bytes fd id rest hpc hne =>
    simp only [Handling, hpc] at hhandling
    rcases afterRecv_chunk s fd id rest hne with ⟨-, he⟩ | ⟨-, he⟩
    · rw [he]
      exact ⟨hsame rfl rfl rfl rfl, ⟨⟨id, hhandling.1⟩, hhandling.2, Or.inr rfl⟩,
        hpending.keep (by rw [hpc]; rfl) (Or.inr (by rw [hpc]; rfl)) fun _ _ _ => rfl⟩
    · rw [he]
      exact ⟨hsame rfl rfl rfl rfl, hhandling,
        hpending.keep (by rw [hpc]) (Or.inr (by rw [hpc])) fun _ _ _ => rfl⟩
  | recvAgain hpc => exact ⟨herrno _, hhandling, ⟨hpending.nodup, hpending.registered⟩⟩
  | recvErr hpc hne =>
    simp only [Handling, hpc] at hhandling
    exact ⟨hsame rfl rfl rfl rfl, ⟨⟨_, hhandling.1⟩, hhandling.2⟩,
      hpending.keep (by rw [hpc]; rfl) (Or.inr (by rw [hpc]; rfl)) fun _ _ _ => rfl⟩
  | sendZero hpc =>
    simp only [Handling, hpc] at hhandling
    exact ⟨hsame rfl rfl rfl rfl, ⟨⟨_, hhandling.1⟩, hhandling.2⟩,
      hpending.keep (by rw [hpc]; rfl) (Or.inr (by rw [hpc]; rfl)) fun _ _ _ => rfl⟩
  | @sendBytes ret fd id sentBufferLength rest hpc =>
    simp only [Handling, hpc] at hhandling
    refine Tables.wired_sendLoop (s := s.recordSent fd _) (hsame rfl rfl rfl rfl) hhandling.1
      hhandling.2 fun {u} hrest hcurrent hreg => ?_
    have hcurrent' : u.pc.current = s.pc.current := hcurrent.trans (by rw [hpc]; rfl)
    exact hpending.keep (hrest.trans (by rw [hpc]; rfl)) (Or.inr hcurrent')
      fun _ _ _ => congrFun hreg _
  | sendErr hpc =>
    simp only [Handling, hpc] at hhandling
    exact ⟨hsame rfl rfl rfl rfl, ⟨⟨_, hhandling.1⟩, hhandling.2⟩,
      hpending.keep (by rw [hpc]; rfl) (Or.inr (by rw [hpc]; rfl)) fun _ _ _ => rfl⟩
  | library => exact ⟨hsame rfl rfl rfl rfl, hhandling, ⟨hpending.nodup, hpending.registered⟩⟩

theorem wired {c : Server} (h : (runs listenFd).Reachable c) : c.Wired listenFd := by
  refine h.invariant ?_ fun s c t hs hstep => hs.step hstep.1 (step_of_next hstep.2)
  rintro s ⟨errno, rfl⟩
  exact wired_initial listenFd errno

end Server
end MySvrKit
