import MySvrKit.EventLoopSteps

/-! # The client address map

`ServerHandler::Handle` stores the pointer `inet_ntoa` returns, which is to one
static buffer, and nothing ever erases an entry of `fd_to_clientaddr_map_`.  So the
map, read through its pointers, says of every client the address of the last one,
and keeps the clients that have gone.  The address each connection really came from
is recorded beside the server. -/

namespace MySvrKit

namespace Server

/-- What a stored pointer points to. -/
def readAddr (s : Server) : InetNtoaPtr → Str
  | .staticBuffer => s.inetNtoaBuffer

/-- The entry of `fd_to_clientaddr_map_`, read through its pointer. -/
def clientAddress (s : Server) (fd : Fd) : Option (Str × Nat) :=
  (s.fdToClientaddrMap fd).map fun entry => (s.readAddr entry.1, entry.2)

end Server

/-- The server, with the address and port of each connection by its number. -/
structure PeerRecord where
  server : Server
  peers : Nat → Option (Str × Nat)

namespace PeerRecord

/-- The address and port that the client open on a descriptor connected from. -/
def peer (r : PeerRecord) (fd : Fd) : Option (Str × Nat) :=
  match r.server.sockets fd with
  | some (.client id) => r.peers id
  | _ => none

/-- The record after a step of the server. -/
def note (r : PeerRecord) : SysCall → Nat → Option (Str × Nat)
  | .accept4 (.ok accepted) =>
      Function.update r.peers r.server.created (some (accepted.clientAddr, accepted.clientPort))
  | _ => r.peers

/-- The runs of the server, with the record. -/
def runs (listenFd : Fd) : TransitionSystem PeerRecord SysCall where
  init r := ∃ errno, r = ⟨Server.initial listenFd errno, fun _ => none⟩
  step r call r' := r.server.Kernel call ∧ r.server.next call = some r'.server ∧
    r'.peers = r.note call

/-- **The client address map**: its entries are those of the open clients, with the
address and port of each. -/
def MapsClients (r : PeerRecord) : Prop := ∀ fd, r.server.clientAddress fd = r.peer fd

/-- The step closes no client, and accepts one only from the address in the buffer,
unless no client is open. -/
def OneHost (r : PeerRecord) : SysCall → Prop
  | .accept4 (.ok accepted) => ∀ fd id, r.server.sockets fd = some (.client id) →
      accepted.clientAddr = r.server.inetNtoaBuffer
  | .close (.ok ()) => False
  | _ => True

end PeerRecord

namespace Server
variable {listenFd fd : Fd} {s t : Server} {call : SysCall}

/-- The two states agree on clients and their addresses. -/
structure SameClients (s t : Server) : Prop where
  sockets : t.sockets = s.sockets
  map : t.fdToClientaddrMap = s.fdToClientaddrMap
  buffer : t.inetNtoaBuffer = s.inetNtoaBuffer
  created : t.created = s.created

theorem sameClients_sendLoop (s : Server) (fd : Fd) (id sentBufferLength : Nat)
    (rest : List EpollEvent) : s.SameClients (s.sendLoop fd id sentBufferLength rest) := by
  obtain ⟨pc, handler, -, -, he⟩ := sendLoop_eq s fd id sentBufferLength rest
  rw [he]
  exact ⟨rfl, rfl, rfl, rfl⟩

/-- Only an `accept4` and a `close` that succeed change the clients. -/
theorem Step.sameClients (h : s.Step call t) (haccept : ∀ accepted, call ≠ .accept4 (.ok accepted))
    (hclose : call ≠ .close (.ok ())) : s.SameClients t := by
  cases h with
  | accept hpc => exact absurd rfl (haccept _)
  | close hpc => exact absurd rfl hclose
  | sendData hpc hh hout hreceived => exact sameClients_sendLoop ..
  | @sendBytes ret fd id sentBufferLength rest hpc =>
    obtain ⟨hsockets, hmap, hbuffer, hcreated⟩ :=
      sameClients_sendLoop (s.recordSent fd _) fd id _ rest
    exact ⟨hsockets, hmap, hbuffer, hcreated⟩
  | @recvChunk bytes fd id rest hpc hne =>
    obtain ⟨pc, handler, -, -, he⟩ := afterRecv_eq s fd id rest hne
    rw [he]
    exact ⟨rfl, rfl, rfl, rfl⟩
  | _ => exact ⟨rfl, rfl, rfl, rfl⟩

end Server

namespace PeerRecord
variable {listenFd fd : Fd} {r r' : PeerRecord} {call : SysCall}

/-- What the steps of clients of one host keep. -/
structure Kept (listenFd : Fd) (r : PeerRecord) : Prop where
  wired : r.server.Wired listenFd
  recorded : ∀ id, id < r.server.created → (r.peers id).isSome = true
  maps : r.MapsClients

theorem kept_initial (listenFd : Fd) (errno : Errno) :
    Kept listenFd ⟨Server.initial listenFd errno, fun _ => none⟩ where
  wired := Server.wired_initial listenFd errno
  recorded id hid := absurd hid (Nat.not_lt_zero id)
  maps fd := by
    show none = peer _ fd
    unfold peer
    split
    · rfl
    · rfl

/-- An open client has an entry, with the address in the buffer. -/
theorem Kept.entry (hr : r.Kept listenFd) {id : Nat}
    (hopen : r.server.sockets fd = some (.client id)) :
    ∃ entry : InetNtoaPtr × Nat, r.server.fdToClientaddrMap fd = some entry ∧
      r.peers id = some (r.server.inetNtoaBuffer, entry.2) := by
  have hmap := hr.maps fd
  simp only [peer, hopen] at hmap
  obtain ⟨address, haddress⟩ := Option.isSome_iff_exists.mp
    (hr.recorded id (hr.wired.tables.client_lt fd id hopen))
  rw [haddress] at hmap ⊢
  obtain ⟨entry, hentry, hread⟩ := Option.map_eq_some_iff.mp hmap
  exact ⟨entry, hentry, congrArg some hread.symm⟩

theorem peer_of_sockets (h : r'.server.sockets fd = r.server.sockets fd)
    (hpeers : ∀ id, r.server.sockets fd = some (.client id) → r'.peers id = r.peers id) :
    r'.peer fd = r.peer fd := by
  unfold peer
  rw [h]
  split
  · rename_i id hopen
    exact hpeers id hopen
  · rfl

/-- After an `accept4` every entry has the new address. -/
theorem clientAddress_accept {accepted : Accepted} {fd fd' : Fd} {rest : List EpollEvent}
    (hne : fd' ≠ accepted.clientFd) :
    (r.server.afterAccept4 fd rest (.ok accepted)).clientAddress fd' =
      (r.server.fdToClientaddrMap fd').map fun entry => (accepted.clientAddr, entry.2) := by
  unfold Server.clientAddress Server.afterAccept4
  simp only [Function.update_of_ne hne]
  rfl

theorem Kept.accept (hr : r.Kept listenFd) {accepted : Accepted} {fd : Fd}
    {rest : List EpollEvent}
    (hserver : r'.server = r.server.afterAccept4 fd rest (.ok accepted))
    (hpeers : r'.peers = r.note (.accept4 (.ok accepted)))
    (hwired : r'.server.Wired listenFd)
    (hhost : r.OneHost (.accept4 (.ok accepted))) : r'.Kept listenFd := by
  have hold : ∀ id, id < r.server.created → r'.peers id = r.peers id := by
    intro id hid
    rw [hpeers]
    exact Function.update_of_ne (Nat.ne_of_lt hid) ..
  refine ⟨hwired, fun id hid => ?_, fun fd' => ?_⟩
  · have hlt : id < r.server.created + 1 := by
      rw [hserver] at hid
      exact hid
    by_cases hnew : id = r.server.created
    · rw [hpeers, hnew]
      simp [note]
    · rw [hold id (by omega)]
      exact hr.recorded id (by omega)
  · by_cases he : fd' = accepted.clientFd
    · subst he
      simp [peer, hserver, hpeers, note, Server.afterAccept4, Server.clientAddress,
        Server.readAddr]
    · have hsockets : r'.server.sockets fd' = r.server.sockets fd' := by
        rw [hserver]
        exact Function.update_of_ne he ..
      have hpeer : r'.peer fd' = r.peer fd' := peer_of_sockets hsockets fun id hopen =>
        hold id (hr.wired.tables.client_lt fd' id hopen)
      rw [hpeer, ← hr.maps fd', hserver, clientAddress_accept he]
      cases hmap : r.server.fdToClientaddrMap fd' with
      | none => simp [Server.clientAddress, hmap]
      | some entry =>
        -- an entry is of an open client, so the new address is the old one
        have hopen : ∃ id, r.server.sockets fd' = some (.client id) := by
          have hmaps := hr.maps fd'
          unfold peer at hmaps
          split at hmaps
          · exact ⟨_, ‹_›⟩
          · simp [Server.clientAddress, hmap] at hmaps
        obtain ⟨id, hopen⟩ := hopen
        have hsame : accepted.clientAddr = r.server.inetNtoaBuffer := hhost fd' id hopen
        simp [Server.clientAddress, hmap, Server.readAddr, hsame]

theorem Kept.step (hr : r.Kept listenFd) (h : (runs listenFd).step r call r')
    (hhost : r.OneHost call) : r'.Kept listenFd := by
  obtain ⟨hk, hnext, hpeers⟩ := h
  have hstep := Server.step_of_next hnext
  have hwired := hr.wired.step hk hstep
  by_cases haccept : ∃ accepted, call = .accept4 (.ok accepted)
  · obtain ⟨accepted, rfl⟩ := haccept
    cases hpc : r.server.pc with
    | accept4 fd rest =>
      simp only [Server.next, hpc, Option.some.injEq] at hnext
      exact hr.accept hnext.symm hpeers hwired hhost
    | _ =>
      simp only [Server.next, hpc] at hnext
      cases hnext
  · have hclose : call ≠ .close (.ok ()) := by
      rintro rfl
      exact hhost
    obtain ⟨hsockets, hmap, hbuffer, hcreated⟩ :=
      hstep.sameClients (fun accepted he => haccept ⟨accepted, he⟩) hclose
    have hsame : r'.peers = r.peers := by
      rw [hpeers]
      unfold note
      split
      · exact absurd ⟨_, rfl⟩ haccept
      · rfl
    refine ⟨hwired, fun id hid => ?_, fun fd => ?_⟩
    · rw [hsame]
      exact hr.recorded id (hcreated ▸ hid)
    · rw [peer_of_sockets (congrFun hsockets fd) fun id _ => congrFun hsame id, ← hr.maps fd]
      unfold Server.clientAddress Server.readAddr
      rw [hmap, hbuffer]

/-- A client that is closed keeps its entry, and a client of another host changes the
address in the entries of all others. -/
theorem Kept.not_mapsClients (hr : r.Kept listenFd) (h : (runs listenFd).step r call r')
    (hhost : ¬ r.OneHost call) : ¬ r'.MapsClients := by
  obtain ⟨server', peers'⟩ := r'
  obtain ⟨hk, hnext, hpeers⟩ := h
  have hhandling := hr.wired.handling
  intro hmaps
  cases Server.step_of_next hnext with
  | @accept accepted fd rest hpc =>
    simp only [OneHost, not_forall] at hhost
    obtain ⟨fd', id, hopen, hother⟩ := hhost
    have hne : fd' ≠ accepted.clientFd := by
      rintro rfl
      rw [show r.server.sockets accepted.clientFd = none from hk] at hopen
      cases hopen
    obtain ⟨entry, hentry, haddress⟩ := hr.entry hopen
    have hpeer : peer ⟨r.server.afterAccept4 fd rest (.ok accepted), peers'⟩ fd' = r.peer fd' := by
      refine peer_of_sockets (Function.update_of_ne hne ..) fun id' hopen' => ?_
      have hlt := hr.wired.tables.client_lt fd' id' hopen'
      rw [show peers' = _ from hpeers]
      exact Function.update_of_ne (Nat.ne_of_lt hlt) ..
    have hmap : (r.server.afterAccept4 fd rest (.ok accepted)).clientAddress fd' = r.peer fd' :=
      (hmaps fd').trans hpeer
    rw [clientAddress_accept hne, hentry] at hmap
    simp only [peer, hopen, haddress, Option.map_some, Option.some.injEq, Prod.mk.injEq] at hmap
    exact hother hmap.1
  | @close fd ret rest hpc =>
    simp only [Server.Handling, hpc] at hhandling
    obtain ⟨⟨id, hh⟩, -⟩ := hhandling
    obtain ⟨entry, hentry, -⟩ := hr.entry (hr.wired.tables.echo_client fd id hh)
    have hmap := hmaps fd
    simp [Server.clientAddress, peer, hentry] at hmap
  | _ => exact hhost trivial

/-- **The client address map is right in every state of a run if and only if no client
of the run is closed and each is accepted from the address of those open then.** -/
theorem mapsClients_iff_oneHost {errno : Errno} {run : List (SysCall × PeerRecord)}
    (h : (runs listenFd).IsRun ⟨Server.initial listenFd errno, fun _ => none⟩ run) :
    (∀ x ∈ run, x.2.MapsClients) ↔
      TransitionSystem.Meets OneHost ⟨Server.initial listenFd errno, fun _ => none⟩ run := by
  refine TransitionSystem.IsRun.forall_iff_meets (I := Kept listenFd) ?_ ?_ ?_
    (kept_initial listenFd errno) h
  · exact fun r call r' hr hstep hhost => hr.step hstep hhost
  · exact fun r hr => hr.maps
  · exact fun r call r' hr hstep hnot => hr.not_mapsClients hstep hnot

/-- One step, if the kernel allows it. -/
def next (r : PeerRecord) (call : SysCall) : Option PeerRecord :=
  if r.server.Kernel call then (r.server.next call).map fun server => ⟨server, r.note call⟩
  else none

theorem reachable_exec {errno : Errno} {calls : List SysCall}
    (h : TransitionSystem.exec next ⟨Server.initial listenFd errno, fun _ => none⟩ calls =
      some r) : (runs listenFd).Reachable r := by
  refine TransitionSystem.Reachable.exec ?_ (.initial ⟨errno, rfl⟩) h
  intro r call r' hnext
  unfold next at hnext
  split at hnext
  · rename_i hk
    obtain ⟨server, hserver, rfl⟩ := Option.map_eq_some_iff.mp hnext
    exact ⟨hk, hserver, rfl⟩
  · cases hnext

/-- The theorem at a run: two clients of one host. -/
theorem mapsClients_iff_oneHost_twoClients :
    ∃ run, (runs 3).IsRun ⟨Server.initial 3 0, fun _ => none⟩ run ∧
      (∃ x ∈ run, x.2.server.created = 2) ∧ ∀ x ∈ run, x.2.MapsClients := by
  have hrun : (runs 3).IsRun ⟨Server.initial 3 0, fun _ => none⟩
      [(.epollWait (.ok [⟨3, .onlyIn⟩]), ⟨_, _⟩), (.handle, ⟨_, _⟩),
        (.accept4 (.ok ⟨5, ['a'], 80⟩), ⟨_, _⟩), (.epollCtl (.ok ()), ⟨_, _⟩), (.handle, ⟨_, _⟩),
        (.epollWait (.ok [⟨3, .onlyIn⟩]), ⟨_, _⟩), (.handle, ⟨_, _⟩),
        (.accept4 (.ok ⟨6, ['a'], 81⟩), ⟨_, _⟩)] :=
    ⟨⟨by decide, rfl, rfl⟩, ⟨trivial, rfl, rfl⟩, ⟨rfl, rfl, rfl⟩, ⟨rfl, rfl, rfl⟩,
      ⟨trivial, rfl, rfl⟩, ⟨by decide, rfl, rfl⟩, ⟨trivial, rfl, rfl⟩, ⟨rfl, rfl, rfl⟩, trivial⟩
  refine ⟨_, hrun, ⟨_, List.getLast_mem (List.cons_ne_nil _ _), rfl⟩,
    (mapsClients_iff_oneHost hrun).mpr
      ⟨trivial, trivial, ?_, trivial, trivial, trivial, trivial, fun _ _ _ => rfl, trivial⟩⟩
  -- no client is open yet
  intro fd id hopen
  by_cases he : fd = 3
  · subst he
    cases hopen
  · have hnone : (Server.initial 3 0).sockets fd = none := by
      simp [Server.initial, Function.update_of_ne he]
    cases hnone.symm.trans hopen

/-- A second client of another host changes the address in the entry of the first, and a
client that has gone keeps its entry. -/
theorem not_mapsClients_twoHosts :
    (∃ r, (runs 3).Reachable r ∧ r.peer 5 = some (['a'], 80) ∧
        r.server.clientAddress 5 = some (['b'], 80)) ∧
      ∃ r, (runs 3).Reachable r ∧ r.peer 5 = none ∧
        r.server.clientAddress 5 = some (['a'], 80) := by
  have hhosts : TransitionSystem.exec next ⟨Server.initial 3 0, fun _ => none⟩
      [.epollWait (.ok [⟨3, .onlyIn⟩]), .handle, .accept4 (.ok ⟨5, ['a'], 80⟩), .epollCtl (.ok ()),
        .handle, .epollWait (.ok [⟨3, .onlyIn⟩]), .handle, .accept4 (.ok ⟨6, ['b'], 81⟩)] =
      some _ := rfl
  have hclosed : TransitionSystem.exec next ⟨Server.initial 3 0, fun _ => none⟩
      [.epollWait (.ok [⟨3, .onlyIn⟩]), .handle, .accept4 (.ok ⟨5, ['a'], 80⟩), .epollCtl (.ok ()),
        .handle, .epollWait (.ok [⟨5, .onlyIn⟩]), .handle, .recv (.ok []), .epollCtl (.ok ()),
        .close (.ok ())] = some _ := rfl
  exact ⟨⟨_, reachable_exec hhosts, rfl, rfl⟩, ⟨_, reachable_exec hclosed, rfl, rfl⟩⟩

end PeerRecord
end MySvrKit
