import MySvrKit.EchoIntegrity

/-! # End of stream

What is lost when `recv` returns 0.  `RecvData` reads on after a chunk of the full
buffer size, and on a 0 it removes the connection at once: the bytes of the call so
far are still in `received_data_` then.  So the end of a stream loses bytes exactly
when the last chunk before it filled the buffer. -/

namespace MySvrKit

/-- No call fails, but for `recv` with `EAGAIN`. -/
def SysCall.OnlyAgainFails : SysCall → Prop
  | .accept4 (.error _) | .epollCtl (.error _) | .send (.error _) | .close (.error _) => False
  | .recv (.error errno) => errno = eagain
  | _ => True

instance : (call : SysCall) → Decidable call.OnlyAgainFails
  | .accept4 (.error _) | .epollCtl (.error _) | .send (.error _) | .close (.error _) =>
      isFalse id
  | .recv (.error errno) => inferInstanceAs (Decidable (errno = eagain))
  | .epollWait _ | .handle | .accept4 (.ok _) | .epollCtl (.ok _) | .recv (.ok _)
  | .send (.ok _) | .close (.ok _) | .library _ => isTrue trivial

theorem SysCall.OnlyAgainFails.ctlSucceeds : ∀ {call : SysCall}, call.OnlyAgainFails →
    call.CtlSucceeds
  | .epollCtl (.error _), h | .close (.error _), h => h
  | .epollWait _, _ | .handle, _ | .accept4 _, _ | .epollCtl (.ok _), _ | .recv _, _
  | .send _, _ | .close (.ok _), _ | .library _, _ => trivial

/-- The last of these chunks filled the receive buffer. -/
def EndsOnFullChunk (chunks : List (List UInt8)) : Prop :=
  ∃ earlier last, chunks = earlier ++ [last] ∧ last.length = Server.kOnceRecvBufferSize

theorem endsOnFullChunk_append {chunks : List (List UInt8)} {last : List UInt8} :
    EndsOnFullChunk (chunks ++ [last]) ↔ last.length = Server.kOnceRecvBufferSize := by
  refine ⟨?_, fun h => ⟨chunks, last, rfl, h⟩⟩
  rintro ⟨earlier, last', heq, h⟩
  obtain ⟨-, hlast⟩ := List.append_inj' heq rfl
  rwa [List.singleton_inj.mp hlast]

theorem not_endsOnFullChunk_nil : ¬ EndsOnFullChunk [] := by
  rintro ⟨earlier, last, heq, -⟩
  exact List.append_ne_nil_of_right_ne_nil earlier (List.cons_ne_nil last []) heq.symm

namespace Connection
variable {c d : Connection} {call : SysCall}

/-- **The invariant of the end of a stream**: only inside `RecvData` can the last
chunk be a full one, and it is when bytes of that call are held. -/
def Ending (c : Connection) : Prop :=
  match c.phase with
  | .recv => EndsOnFullChunk c.chunks ↔ c.handler.receivedData ≠ []
  | .remove ret | .close ret =>
      ret = some MyErrorcode.kRecvZero → ∃ earlier, c.chunks = earlier ++ [[]] ∧
        (c.sent = c.received ↔ ¬ EndsOnFullChunk earlier)
  | .accepted | .idle | .send _ | .modify _ => ¬ EndsOnFullChunk c.chunks

theorem ending_sendLoop (h : ¬ EndsOnFullChunk c.chunks) (sentBufferLength : Nat) :
    (c.sendLoop sentBufferLength).Ending := by
  unfold sendLoop
  split
  · exact h
  · split
    · exact fun hret => absurd hret (by decide)
    · exact h

theorem Ending.step (h : c.Ending) (hecho : c.Echoing) (hcall : call.OnlyAgainFails)
    (hstep : c.Step call d) : d.Ending := by
  cases hstep with
  | add hphase =>
    simp only [Ending, hphase] at h
    exact h
  | addErr hphase | modifyErr hphase | delErr hphase | closeErr hphase => exact hcall.elim
  | errorEvent hphase => exact fun hret => nomatch hret
  | recvData hphase hmask hin =>
    simp only [Ending, hphase] at h
    exact iff_of_false h (not_not_intro rfl)
  | sendData hphase hmask hout hreceived =>
    simp only [Ending, hphase] at h
    exact ending_sendLoop h 0
  | recvZero hphase =>
    simp only [Ending, hphase] at h
    simp only [Echoing, hphase] at hecho
    -- what this call has received before the 0 is held and will never be sent
    have hreceived : (c.chunks ++ [[]]).flatten = c.sent ++ c.handler.receivedData := by
      rw [List.flatten_append, List.flatten_singleton, List.append_nil]
      exact hecho.2
    refine fun _ => ⟨c.chunks, rfl, ?_⟩
    show c.sent = (c.chunks ++ [[]]).flatten ↔ _
    rw [hreceived, h, not_not]
    exact List.self_eq_append_right
  | @recvChunk bytes hphase hne hlength =>
    by_cases hshort : bytes.length < Server.kOnceRecvBufferSize
    · simp only [hshort, if_true]
      show ¬ EndsOnFullChunk (c.chunks ++ [bytes])
      rw [endsOnFullChunk_append]
      exact Nat.ne_of_lt hshort
    · simp only [hshort, if_false]
      have hfull : bytes.length = Server.kOnceRecvBufferSize :=
        Nat.le_antisymm hlength (Nat.le_of_not_lt hshort)
      exact iff_of_true (endsOnFullChunk_append.mpr hfull)
        (List.append_ne_nil_of_right_ne_nil _ hne)
  | recvErr hphase hne => exact fun hret => absurd hret (by decide)
  | sendZero hphase => exact fun hret => absurd hret (by decide)
  | sendBytes hphase hret =>
    simp only [Ending, hphase] at h
    apply ending_sendLoop
    exact h
  | sendErr hphase => exact fun hret => absurd hret (by decide)
  | modify hphase =>
    simp only [Ending, hphase] at h
    exact h
  | del hphase =>
    simp only [Ending, hphase] at h
    exact h

end Connection

namespace Server
variable {listenFd fd : Fd} {id : Nat} {s : Server}

/-- The runs in which no call fails but `recv` with `EAGAIN`, and `send` takes what
it is offered. -/
def quietRuns (listenFd : Fd) : TransitionSystem Server SysCall :=
  (runs listenFd).restrict fun s call => call.OnlyAgainFails ∧ s.TakesAll call

theorem ending (h : (quietRuns listenFd).Reachable s) (fd : Fd) (id : Nat)
    (hopen : s.sockets fd = some (.client id)) : (s.connection fd id).Ending := by
  have hnew : Connection.new.Echoing ∧ Connection.new.Ending := ⟨rfl, not_endsOnFullChunk_nil⟩
  refine ((connection_invariant (P := fun c => c.Echoing ∧ c.Ending) hnew ?_ h).2.2 fd id hopen).2
  intro s call fd id b hs hopen hallows hP hstep
  exact ⟨hP.1.step hallows.1.ctlSucceeds (hallows.2.connection hs hopen) hstep,
    hP.2.step hP.1 hallows.1 hstep⟩

/-- **Nothing received is dropped at the end of a stream, if and only if the last
chunk before it did not fill the buffer.**  The state is the one in which `recv` has
returned 0 and `RemoveHandler` is about to take the connection away. -/
theorem sent_all_iff {rest : List EpollEvent} (h : (quietRuns listenFd).Reachable s)
    (hopen : s.sockets fd = some (.client id))
    (hpc : s.pc = .epollCtlDel fd (some MyErrorcode.kRecvZero) rest) :
    ∃ earlier, s.chunks id = earlier ++ [[]] ∧
      (s.sent id = (s.chunks id).flatten ↔ ¬ EndsOnFullChunk earlier) := by
  have hend := ending h fd id hopen
  simp only [Connection.Ending, connection, hpc, Pc.phase, if_true] at hend
  exact hend trivial

/-- The theorem at a run: two bytes and, once they are sent back, the end. -/
theorem sent_all_iff_twoBytes :
    ∃ s earlier, (quietRuns 3).Reachable s ∧
      s.pc = .epollCtlDel 5 (some MyErrorcode.kRecvZero) [] ∧
      s.chunks 0 = earlier ++ [[]] ∧ s.sent 0 = [7, 8] ∧
      (s.sent 0 = (s.chunks 0).flatten ↔ ¬ EndsOnFullChunk earlier) := by
  have hrun : TransitionSystem.exec (checked fun s call => call.OnlyAgainFails ∧ s.TakesAll call)
      (initial 3 0)
      [.epollWait (.ok [⟨3, .onlyIn⟩]), .handle, .accept4 (.ok ⟨5, ['a'], 80⟩), .epollCtl (.ok ()),
        .handle, .epollWait (.ok [⟨5, .onlyIn⟩]), .handle, .recv (.ok [7, 8]), .epollCtl (.ok ()),
        .handle, .epollWait (.ok [⟨5, ⟨false, true, false, false, false⟩⟩]), .handle,
        .send (.ok 2), .epollCtl (.ok ()), .handle, .epollWait (.ok [⟨5, .onlyIn⟩]), .handle,
        .recv (.ok [])] = some _ := rfl
  have hr : (quietRuns 3).Reachable _ := reachable_exec hrun
  obtain ⟨earlier, hchunks, hiff⟩ := @sent_all_iff 3 5 0 _ _ hr rfl rfl
  exact ⟨_, earlier, hr, rfl, hchunks, rfl, hiff⟩

/-- A client that sends exactly ten bytes and ends its stream gets none back. -/
theorem not_sent_tenBytes :
    ∃ s, (quietRuns 3).Reachable s ∧ s.sockets 5 = some (.client 0) ∧
      s.pc = .epollCtlDel 5 (some MyErrorcode.kRecvZero) [] ∧
      s.sent 0 = [] ∧ (s.chunks 0).flatten = [0, 1, 2, 3, 4, 5, 6, 7, 8, 9] := by
  have hrun : TransitionSystem.exec (checked fun s call => call.OnlyAgainFails ∧ s.TakesAll call)
      (initial 3 0)
      [.epollWait (.ok [⟨3, .onlyIn⟩]), .handle, .accept4 (.ok ⟨5, ['a'], 80⟩), .epollCtl (.ok ()),
        .handle, .epollWait (.ok [⟨5, .onlyIn⟩]), .handle,
        .recv (.ok [0, 1, 2, 3, 4, 5, 6, 7, 8, 9]), .recv (.ok [])] = some _ := rfl
  exact ⟨_, reachable_exec hrun, rfl, rfl, rfl, rfl⟩

end Server
end MySvrKit
