import MySvrKit.SocketDriver

/-! # How the handling of an event ends

`EchoHandler::Handle` looks at `errno` at an event with `EPOLLERR`, and removes the
connection if it is not 0.  Any other event is handled by its bits: the connection is
then closed before anything is received or sent, or something is, or the handler
stays. -/

universe u

namespace MySvrKit

/-- At such an event `Handle` looks at `errno`. -/
def EpollEvents.TestsErrno (events : EpollEvents) : Prop :=
  events.epollErr = true ∧ (events.epollIn = true ∨ events.epollOut = true)

namespace Server
variable {fd : Fd} {id : Nat} {rest : List EpollEvent} {event : EpollEvent} {s t : Server}

/-! ## `EchoHandler::Handle` -/

/-- `Handle` past its tests of `errno`. -/
def handleByEvents (s : Server) (id : Nat) (event : EpollEvent) (rest : List EpollEvent) :
    Server :=
  if event.events.epollIn then s.recvData event.fd id rest
  else if event.events.epollOut then s.sendData event.fd id rest
  else s.handled event.fd MyErrorcode.kNotSupportEpollEvent rest

theorem echoHandle_of_errno (htests : event.events.TestsErrno) (hne : s.errno ≠ 0) :
    s.echoHandle id event rest = s.removeHandler event.fd none rest := by
  obtain ⟨herr, hbits⟩ := htests
  unfold echoHandle
  by_cases hin : event.events.epollIn = true
  · simp [hin, herr, hne]
  · have hout : event.events.epollOut = true := hbits.resolve_left hin
    simp [hin, hout, herr, hne]

theorem echoHandle_of_not (h : ¬ (event.events.TestsErrno ∧ s.errno ≠ 0)) :
    s.echoHandle id event rest = s.handleByEvents id event rest := by
  have hremove : ∀ bit : Bool, (bit = true → event.events.epollIn = true ∨
      event.events.epollOut = true) → (bit && event.events.epollErr && s.errno ≠ 0) = false := by
    intro bit hbit
    by_contra hc
    simp only [Bool.not_eq_false, Bool.and_eq_true, decide_eq_true_eq] at hc
    exact h ⟨⟨hc.1.2, hbit hc.1.1⟩, hc.2⟩
  unfold echoHandle handleByEvents
  rw [hremove _ Or.inl, hremove _ Or.inr]
  rfl

theorem frame_sendData (s : Server) (rest : List EpollEvent) :
    Frame fd id s (s.sendData fd id rest) := by
  unfold sendData
  split
  · exact frame_handled ..
  · exact frame_sendLoop ..

theorem Agree.sendData (h : Agree fd id s t) (rest : List EpollEvent) :
    AgreeAtCall fd id (s.sendData fd id rest) (t.sendData fd id rest) := by
  simp only [Server.sendData, h.echo]
  split
  · exact h.handled ..
  · exact h.sendLoop ..

theorem frame_handleByEvents (s : Server) (event : EpollEvent) (rest : List EpollEvent) :
    Frame event.fd id s (s.handleByEvents id event rest) := by
  unfold handleByEvents
  split
  · exact (frame_setEcho s _).moved ..
  · split
    · exact frame_sendData ..
    · exact frame_handled ..

theorem Agree.handleByEvents (h : Agree event.fd id s t) (rest : List EpollEvent) :
    AgreeAtCall event.fd id (s.handleByEvents id event rest) (t.handleByEvents id event rest) := by
  unfold Server.handleByEvents
  split
  · exact (h.setEcho _).moved ..
  · split
    · exact h.sendData ..
    · exact h.handled ..

theorem owns_handleByEvents (hs : s.sockets event.fd = some (.client id)) :
    Owns event.fd id (s.handleByEvents id event []) := by
  unfold handleByEvents
  split
  · exact ⟨⟨rfl, rfl, rfl⟩, fun _ => hs⟩
  · split
    · unfold sendData
      split
      · exact owns_handled ..
      · exact owns_sendLoop hs 0
    · exact owns_handled ..

theorem errno_handleByEvents (s : Server) (event : EpollEvent) :
    (s.handleByEvents id event rest).errno = s.errno := by
  unfold handleByEvents
  split
  · rfl
  · split
    · unfold sendData
      split
      · rfl
      · exact errno_sendLoop ..
    · rfl

theorem frame_echoHandle (s : Server) (event : EpollEvent) (rest : List EpollEvent) :
    Frame event.fd id s (s.echoHandle id event rest) := by
  by_cases h : event.events.TestsErrno ∧ s.errno ≠ 0
  · rw [echoHandle_of_errno h.1 h.2]
    exact (Frame.refl s).moved ..
  · rw [echoHandle_of_not h]
    exact frame_handleByEvents ..

theorem owns_echoHandle (hs : s.sockets event.fd = some (.client id)) :
    Owns event.fd id (s.echoHandle id event []) := by
  by_cases h : event.events.TestsErrno ∧ s.errno ≠ 0
  · rw [echoHandle_of_errno h.1 h.2]
    exact ⟨⟨rfl, rfl⟩, fun _ => hs⟩
  · rw [echoHandle_of_not h]
    exact owns_handleByEvents hs

theorem errno_echoHandle (s : Server) (event : EpollEvent) :
    (s.echoHandle id event rest).errno = s.errno := by
  by_cases h : event.events.TestsErrno ∧ s.errno ≠ 0
  · rw [echoHandle_of_errno h.1 h.2]
    rfl
  · rw [echoHandle_of_not h]
    exact errno_handleByEvents ..

/-- The handling depends on the connection, and on whether `errno` is 0 where it looks. -/
theorem Agree.echoHandle (h : Agree event.fd id s t)
    (herrno : event.events.TestsErrno → (s.errno = 0 ↔ t.errno = 0)) (rest : List EpollEvent) :
    AgreeAtCall event.fd id (s.echoHandle id event rest) (t.echoHandle id event rest) := by
  by_cases hremove : event.events.TestsErrno ∧ s.errno ≠ 0
  · have hne : t.errno ≠ 0 := mt (herrno hremove.1).mpr hremove.2
    rw [echoHandle_of_errno hremove.1 hremove.2, echoHandle_of_errno hremove.1 hne]
    exact h.moved ..
  · have ht : ¬ (event.events.TestsErrno ∧ t.errno ≠ 0) :=
      fun ht => hremove ⟨ht.1, mt (herrno ht.1).mp ht.2⟩
    rw [echoHandle_of_not hremove, echoHandle_of_not ht]
    exact h.handleByEvents ..

/-- `RemoveHandler` has run, `epoll_ctl` with this result: the handler is gone, and nothing
was received or sent. -/
structure Removed (fd : Fd) (id : Nat) (result : Except Errno Unit) (s t : Server) : Prop where
  handler : t.handlers fd = none
  registered : t.registered fd =
    match result with
    | .ok () => none
    | .error _ => s.registered fd
  received : (t.chunks id).flatten = (s.chunks id).flatten
  sent : t.sent id = s.sent id

theorem Removed.of_start {result : Except Errno Unit} {s₀ : Server} (h : Removed fd id result s t)
    (hreg : s.registered fd = s₀.registered fd)
    (hreceived : (s.chunks id).flatten = (s₀.chunks id).flatten) (hsent : s.sent id = s₀.sent id) :
    Removed fd id result s₀ t :=
  ⟨h.handler, hreg ▸ h.registered, h.received.trans hreceived, h.sent.trans hsent⟩

/-- Some byte was received or sent, or the handler stays. -/
def Lasts (fd : Fd) (id : Nat) (s t : Server) : Prop :=
  t.handlers fd ≠ none ∨ (t.chunks id).flatten ≠ (s.chunks id).flatten ∨ t.sent id ≠ s.sent id

theorem handled_none {s : Server} {ret : Int} (hret : ret ≠ 0) (rest : List EpollEvent) :
    (s.handled fd ret rest).handlers fd = none := by
  rw [handled_handlers hret, Function.update_self]

theorem pc_afterClose (s : Server) (fd : Fd) (ret : Option Int) (result : Except Errno Unit) :
    (s.afterClose fd ret [] result).pc = .event [] := by
  cases result <;> rfl

theorem removed_afterClose (fd : Fd) (id : Nat) (s : Server) {ret : Option Int}
    (hret : ret ≠ some 0) (hreg : s.registered fd = none) (result : Except Errno Unit) :
    Removed fd id (.ok ()) s (s.afterClose fd ret [] result) := by
  cases result with
  | error errno => exact ⟨handled_none (getD_ne_zero hret) [], hreg, rfl, rfl⟩
  | ok u =>
    refine ⟨?_, Function.update_self .., rfl, rfl⟩
    rw [afterClose_handlers, Function.update_self]

/-- What was received stays received. -/
theorem lasts_of_chunk {s t : Server} {bytes : List UInt8} (hne : bytes ≠ [])
    (h : s.chunks id ++ [bytes] <+: t.chunks id) : Lasts fd id s t := by
  obtain ⟨more, hmore⟩ := h
  refine Or.inr (Or.inl fun heq => ?_)
  rw [← hmore, List.flatten_append, List.flatten_append, List.flatten_singleton,
    List.append_assoc] at heq
  have hnil := List.append_right_eq_self.mp heq
  exact hne (List.append_eq_nil_iff.mp hnil).1

/-- What was sent stays sent. -/
theorem lasts_of_sent {s t : Server} {bytes : List UInt8} (hne : bytes ≠ [])
    (h : s.sent id ++ bytes <+: t.sent id) : Lasts fd id s t := by
  obtain ⟨more, hmore⟩ := h
  refine Or.inr (Or.inr fun heq => ?_)
  rw [← hmore, List.append_assoc] at heq
  exact hne (List.append_eq_nil_iff.mp (List.append_right_eq_self.mp heq)).1

end Server

namespace Config
open Server

variable {Sock : Type u} (calls : SocketCalls Sock)

/-- `recv` receives nothing: after `EAGAIN` any number of times it returns 0 or another
error, and leaves `sock'`. -/
inductive EndsStream : Sock → Sock → Prop
  | again {sock sock'} (h : (calls.recv sock).1 = .error eagain)
      (hrest : EndsStream (calls.recv sock).2 sock') : EndsStream sock sock'
  | recvZero {sock} (h : (calls.recv sock).1 = .ok []) : EndsStream sock (calls.recv sock).2
  | recvErr {sock errno} (h : (calls.recv sock).1 = .error errno) (hne : errno ≠ eagain) :
      EndsStream sock (calls.recv sock).2

/-- There is something to send, and the first `send` returns 0 or an error and leaves
`sock'`. -/
def RefusesFirst (handler : EchoHandler) (sock sock' : Sock) : Prop :=
  let data := handler.receivedData
  let answer := calls.send (data.take (sentBufferLengthThistime data.length 0)) sock
  handler.hasReceived = true ∧ data ≠ [] ∧ answer.2 = sock' ∧
    (answer.1 = .ok 0 ∨ ∃ errno, answer.1 = .error errno)

/-- The event, handled by its bits, closes the connection before anything is received or
sent, with the socket left in `sock'`. -/
def ClosesWith (c : Config Sock) (id : Nat) (event : EpollEvent) (sock' : Sock) : Prop :=
  if event.events.epollIn then EndsStream calls (c.socks event.fd) sock'
  else RefusesFirst calls (c.server.echoHandlers id) (c.socks event.fd) sock'

variable {calls} {fd : Fd} {id : Nat} {event : EpollEvent} {c d c' d' : Config Sock}
  {made made' : List SysCall}

/-! ## One event -/

/-- `Handle` has made its first steps. -/
def taken (c : Config Sock) (id : Nat) (event : EpollEvent) : Config Sock :=
  ⟨Server.echoHandle { c.server with pc := .event [event] } id event [], c.socks⟩

theorem Handles.runs (h : Handles calls event c made c')
    (hh : c.server.handlers event.fd = some (.echo id)) :
    Runs calls (c.taken id event) made c' := by
  obtain ⟨s, hs, hr⟩ := h
  simp only [next, nextEvent, hh, Option.some.injEq] at hs
  subst hs
  exact hr

theorem frame_taken (c : Config Sock) (id : Nat) (event : EpollEvent) :
    Frame event.fd id c.server (c.taken id event).server :=
  ((Frame.refl c.server).moved (.event [event]) c.server.errno).trans (frame_echoHandle ..)

theorem Handles.frame (h : Handles calls event c made c')
    (hh : c.server.handlers event.fd = some (.echo id))
    (hs : c.server.sockets event.fd = some (.client id)) :
    Frame event.fd id c.server c'.server ∧ ∀ fd', fd' ≠ event.fd → c'.socks fd' = c.socks fd' := by
  obtain ⟨hframe, hsocks⟩ := (h.runs hh).frame (owns_echoHandle hs)
  exact ⟨(frame_taken c id event).trans hframe, hsocks⟩

theorem Handles.errno_eq_zero (h : Handles calls event c made c')
    (hh : c.server.handlers event.fd = some (.echo id)) :
    c'.server.errno = 0 ↔ c.server.errno = 0 ∧ ∀ call ∈ made, call.failure = none := by
  rw [(h.runs hh).errno_eq_zero]
  show (Server.echoHandle _ id event []).errno = 0 ∧ _ ↔ _
  rw [errno_echoHandle]

/-- From the same connection, with `errno` the same where it matters, the handling ends
in the same. -/
theorem Handles.agree (h : Handles calls event c made c') (h' : Handles calls event d made' d')
    (hh : c.server.handlers event.fd = some (.echo id))
    (hs : c.server.sockets event.fd = some (.client id))
    (hcd : Agree event.fd id c.server d.server) (hsock : c.socks event.fd = d.socks event.fd)
    (herrno : event.events.TestsErrno → (c.server.errno = 0 ↔ d.server.errno = 0)) :
    Agree event.fd id c'.server d'.server := by
  have htaken : AgreeAtCall event.fd id (c.taken id event).server (d.taken id event).server :=
    Agree.echoHandle (hcd.moved (.event [event]) c.server.errno d.server.errno).toAgree herrno []
  exact ((h.runs hh).agree (owns_echoHandle hs) htaken hsock (h'.runs (hcd.handler ▸ hh))).2

/-! ## How a handling can end -/

theorem Runs.eq_of_returned (hr : Runs calls c made c') (hpc : c.server.pc = .event []) :
    c' = c := by
  cases hr with
  | returned => rfl
  | call hd _ =>
    rw [drive_eq_none hpc] at hd
    cases hd

/-- From its first call, `RemoveHandler` ends with the handler gone. -/
theorem Runs.removed (id : Nat) {ret : Option Int} (hr : Runs calls c made c')
    (hpc : c.server.pc = .epollCtlDel fd ret []) (hret : ret ≠ some 0) :
    Removed fd id (calls.epollCtlDel (c.socks fd)).1 c.server c'.server := by
  cases hr with
  | returned hpc' =>
    rw [hpc] at hpc'
    cases hpc'
  | call hd hr =>
    simp only [drive_eq, hpc] at hd
    obtain ⟨rfl, rfl⟩ := hd
    cases hdel : (calls.epollCtlDel (c.socks fd)).1 with
    | error errno =>
      rw [hdel] at hr
      obtain rfl := hr.eq_of_returned rfl
      exact ⟨handled_none (getD_ne_zero hret) [], rfl, rfl, rfl⟩
    | ok u =>
      rw [hdel] at hr
      cases hr with
      | returned hpc' => cases hpc'
      | call hd hr =>
        obtain ⟨rfl, rfl⟩ := Prod.mk.inj (Option.some.inj ((drive_eq _).symm.trans hd))
        obtain rfl := hr.eq_of_returned (pc_afterClose ..)
        have hclose := removed_afterClose fd id (c.server.afterEpollCtlDel fd ret [] (.ok ())) hret
          (Function.update_self ..)
        exact ⟨(hclose _).handler, (hclose _).registered, (hclose _).received, (hclose _).sent⟩

/-- The same after a call on the socket. -/
theorem Runs.removed_after (id : Nat) {t : Server} {socks : Fd → Sock} {sock : Sock}
    {ret : Option Int} (hr : Runs calls ⟨t, Function.update socks fd sock⟩ made c')
    (hpc : t.pc = .epollCtlDel fd ret []) (hret : ret ≠ some 0) :
    Removed fd id (calls.epollCtlDel sock).1 t c'.server := by
  have hsock : Function.update socks fd sock fd = sock := Function.update_self ..
  rw [← hsock]
  exact hr.removed id hpc hret

theorem endsStream_iff (sock : Sock) {sock' : Sock} :
    EndsStream calls sock sock' ↔
      match (calls.recv sock).1 with
      | .ok [] => sock' = (calls.recv sock).2
      | .ok (_ :: _) => False
      | .error errno =>
          if errno = eagain then EndsStream calls (calls.recv sock).2 sock'
          else sock' = (calls.recv sock).2 := by
  constructor
  · intro h
    cases h with
    | again h hrest => simpa [h] using hrest
    | recvZero h => simp [h]
    | recvErr h hne => simp [h, hne]
  · intro h
    split at h
    · rename_i hzero
      subst h
      exact .recvZero hzero
    · cases h
    · rename_i errno herr
      split at h
      · rename_i hagain
        subst hagain
        exact .again herr h
      · rename_i hne
        subst h
        exact .recvErr herr hne

/-- The loop of `RecvData` ends the stream, or receives a byte. -/
theorem Runs.recv_outcome (hr : Runs calls c made c') (hpc : c.server.pc = .recv fd id [])
    (hs : c.server.sockets fd = some (.client id)) :
    (∃ sock, (∀ sock', EndsStream calls (c.socks fd) sock' ↔ sock' = sock) ∧
        Removed fd id (calls.epollCtlDel sock).1 c.server c'.server) ∨
      ((∀ sock', ¬ EndsStream calls (c.socks fd) sock') ∧ Lasts fd id c.server c'.server) := by
  induction hr with
  | returned hpc' =>
    rw [hpc] at hpc'
    cases hpc'
  | @call c d c' call made hd hr ih =>
    obtain ⟨-, howns, -⟩ :=
      (called_of_drive hd).frame ⟨by rw [hpc]; exact ⟨rfl, rfl, rfl⟩, fun _ => hs⟩
    have hframe := (hr.frame howns).1
    simp only [drive_eq, hpc] at hd
    obtain ⟨rfl, rfl⟩ := hd
    have hself : Function.update c.socks fd (calls.recv (c.socks fd)).2 fd =
      (calls.recv (c.socks fd)).2 := Function.update_self ..
    simp only [endsStream_iff (c.socks fd)]
    rcases hrecv : (calls.recv (c.socks fd)).1 with errno | bytes
    · by_cases he : errno = eagain
      · -- `continue`
        simp only [hrecv, afterRecv, if_pos he, hself] at ih
        simp only [if_pos he]
        rcases ih hpc hs with ⟨sock, hends, hremoved⟩ | ⟨hends, hlasts⟩
        · exact Or.inl ⟨sock, hends, hremoved.of_start rfl rfl rfl⟩
        · exact Or.inr ⟨hends, hlasts⟩
      · simp only [hrecv, afterRecv, if_neg he] at hr
        simp only [if_neg he]
        refine Or.inl ⟨_, fun _ => Iff.rfl, ?_⟩
        exact (hr.removed_after id rfl (by decide)).of_start rfl rfl rfl
    · by_cases hne : bytes = []
      · subst hne
        simp only [hrecv, afterRecv] at hr
        refine Or.inl ⟨_, fun _ => Iff.rfl, ?_⟩
        refine (hr.removed_after id rfl (by decide)).of_start rfl ?_ rfl
        show ((c.server.recordRecv fd []).chunks id).flatten = _
        simp [recordRecv_client hs]
      · refine Or.inr ⟨?_, lasts_of_chunk hne ?_⟩
        · obtain ⟨b, bs, rfl⟩ := List.exists_cons_of_ne_nil hne
          exact fun _ h => h
        · have hchunks : (c.server.afterRecv fd id [] (.ok bytes)).chunks id =
              c.server.chunks id ++ [bytes] := by
            obtain ⟨pc, handler, -, -, he⟩ := afterRecv_eq c.server fd id [] hne
            rw [he]
            show (c.server.recordRecv fd bytes).chunks id = _
            simp only [recordRecv_client hs, Function.update_self]
          rw [← hchunks, ← hrecv]
          exact hframe.received_prefix

/-- The first `send` refuses, or a byte is sent. -/
theorem Runs.send_outcome (hr : Runs calls c made c') (hpc : c.server.pc = .send fd id 0 [])
    (hs : c.server.sockets fd = some (.client id))
    (hreceived : (c.server.echoHandlers id).hasReceived = true)
    (hdata : (c.server.echoHandlers id).receivedData ≠ []) :
    (∃ sock, (∀ sock', RefusesFirst calls (c.server.echoHandlers id) (c.socks fd) sock' ↔
          sock' = sock) ∧
        Removed fd id (calls.epollCtlDel sock).1 c.server c'.server) ∨
      ((∀ sock', ¬ RefusesFirst calls (c.server.echoHandlers id) (c.socks fd) sock') ∧
        Lasts fd id c.server c'.server) := by
  cases hr with
  | returned hpc' =>
    rw [hpc] at hpc'
    cases hpc'
  | call hd hr =>
    obtain ⟨-, howns, -⟩ :=
      (called_of_drive hd).frame ⟨by rw [hpc]; exact ⟨rfl, rfl, rfl⟩, fun _ => hs⟩
    have hframe := (hr.frame howns).1
    simp only [drive_eq, hpc, List.drop_zero] at hd
    obtain ⟨rfl, rfl⟩ := hd
    generalize hanswer : calls.send _ (c.socks fd) = answer at hr hframe
    have hrefuses : ∀ sock', RefusesFirst calls (c.server.echoHandlers id) (c.socks fd) sock' ↔
        answer.2 = sock' ∧ (answer.1 = .ok 0 ∨ ∃ errno, answer.1 = .error errno) := by
      intro sock'
      unfold RefusesFirst
      simp only [hanswer, hreceived, hdata, ne_eq, not_false_eq_true, true_and]
    simp only [hrefuses]
    obtain ⟨result, sock⟩ := answer
    rcases result with errno | _ | ret
    · refine Or.inl ⟨sock, fun _ => by simp [eq_comm], ?_⟩
      exact (hr.removed_after id rfl (by decide)).of_start rfl rfl rfl
    · refine Or.inl ⟨sock, fun _ => by simp [eq_comm], ?_⟩
      exact (hr.removed_after id rfl (by decide)).of_start rfl rfl rfl
    · have hsent : (c.server.afterSend fd id 0 [] (.ok (ret + 1))).sent id =
          c.server.sent id ++ (c.server.echoHandlers id).receivedData.take (ret + 1) := by
        simp only [afterSend, List.drop_zero, sent_sendLoop, recordSent_client hs,
          Function.update_self]
      have hne : (c.server.echoHandlers id).receivedData.take (ret + 1) ≠ [] := by
        simpa using hdata
      refine Or.inr ⟨fun _ => by simp, lasts_of_sent hne ?_⟩
      rw [← hsent]
      exact hframe.sent_prefix

/-- Changing the registration leaves the handler. -/
theorem Runs.modify_outcome {events : EpollEvents} (hr : Runs calls c made c')
    (hpc : c.server.pc = .epollCtlMod fd events []) :
    c'.server.handlers fd = c.server.handlers fd := by
  cases hr with
  | returned => rfl
  | call hd hr =>
    simp only [drive_eq, hpc] at hd
    obtain ⟨rfl, rfl⟩ := hd
    cases hmod : (calls.epollCtlMod events (c.socks fd)).1 with
    | error errno =>
      rw [hmod] at hr
      obtain rfl := hr.eq_of_returned rfl
      rfl
    | ok u =>
      rw [hmod] at hr
      obtain rfl := hr.eq_of_returned rfl
      rfl

/-- An event that `errno` does not stop closes the connection, or the connection lasts. -/
theorem Handles.outcome (h : Handles calls event c made c')
    (hh : c.server.handlers event.fd = some (.echo id))
    (hs : c.server.sockets event.fd = some (.client id)) (herrno : c.server.errno = 0)
    (htests : event.events.TestsErrno) :
    (∃ sock, (∀ sock', ClosesWith calls c id event sock' ↔ sock' = sock) ∧
        Removed event.fd id (calls.epollCtlDel sock).1 c.server c'.server) ∨
      ((∀ sock', ¬ ClosesWith calls c id event sock') ∧
        Lasts event.fd id c.server c'.server) := by
  have htaken : c.taken id event =
      ⟨handleByEvents { c.server with pc := .event [event] } id event [], c.socks⟩ :=
    congrArg (Config.mk · c.socks) (echoHandle_of_not fun hremove => hremove.2 herrno)
  have hr := htaken ▸ h.runs hh
  unfold ClosesWith
  by_cases hin : event.events.epollIn = true
  · simp only [handleByEvents, if_pos hin] at hr
    simp only [if_pos hin]
    rcases hr.recv_outcome rfl hs with ⟨sock, hends, hremoved⟩ | hlasts
    · exact Or.inl ⟨sock, hends, hremoved.of_start rfl rfl rfl⟩
    · exact Or.inr hlasts
  · have hout : event.events.epollOut = true := htests.2.resolve_left hin
    simp only [handleByEvents, if_neg hin, if_pos hout, sendData] at hr
    simp only [if_neg hin]
    by_cases hreceived : (c.server.echoHandlers id).hasReceived = true
    · simp only [hreceived] at hr
      by_cases hdata : (c.server.echoHandlers id).receivedData = []
      · -- nothing to send, but `has_received_` is set
        refine Or.inr ⟨fun _ hrefuses => hrefuses.2.1 hdata, Or.inl ?_⟩
        rcases sendLoop_cases { c.server with pc := .event [event] } event.fd id 0 [] with
          ⟨hlt, -⟩ | ⟨hgt, -⟩ | ⟨-, he⟩
        · simp [hdata] at hlt
        · exact absurd hgt (Nat.not_lt_zero _)
        · rw [he] at hr
          have hkept : c'.server.handlers event.fd = c.server.handlers event.fd :=
            hr.modify_outcome rfl
          rw [hkept, hh]
          intro hnone
          cases hnone
      · rcases sendLoop_cases { c.server with pc := .event [event] } event.fd id 0 [] with
          ⟨-, he⟩ | ⟨hgt, -⟩ | ⟨heq, -⟩
        · rw [he] at hr
          rcases hr.send_outcome rfl hs hreceived hdata with ⟨sock, hrefuses, hremoved⟩ | hlasts
          · exact Or.inl ⟨sock, hrefuses, hremoved.of_start rfl rfl rfl⟩
          · exact Or.inr hlasts
        · exact absurd hgt (Nat.not_lt_zero _)
        · exact absurd (List.length_eq_zero_iff.mp heq.symm) hdata
    · refine Or.inr ⟨fun _ hrefuses => hreceived hrefuses.1, Or.inl ?_⟩
      simp only [hreceived] at hr
      obtain rfl := hr.eq_of_returned rfl
      show c.server.handlers event.fd ≠ none
      rw [hh]
      intro hnone
      cases hnone

/-- An event that `errno` stops removes the connection. -/
theorem Handles.removed (h : Handles calls event c made c')
    (hh : c.server.handlers event.fd = some (.echo id)) (herrno : c.server.errno ≠ 0)
    (htests : event.events.TestsErrno) :
    Removed event.fd id (calls.epollCtlDel (c.socks event.fd)).1 c.server c'.server := by
  have htaken : c.taken id event =
      ⟨removeHandler { c.server with pc := .event [event] } event.fd none [], c.socks⟩ :=
    congrArg (Config.mk · c.socks) (echoHandle_of_errno htests herrno)
  have hr := htaken ▸ h.runs hh
  exact (hr.removed id rfl (by decide)).of_start rfl rfl rfl

end Config
end MySvrKit
