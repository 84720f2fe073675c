import MySvrKit.EventLoopSteps

/-! # When `RecvData` returns

The loop of `RecvData` ends at a chunk shorter than its buffer, and goes on at
`EAGAIN`.  So a client that sends what fills the buffer each time, or nothing, and
then stays silent keeps the server in the loop for ever. -/

namespace MySvrKit

namespace Server
variable {fd : Fd} {id : Nat} {rest : List EpollEvent} {chunks : List (List UInt8)} {s t : Server}

/-- What the `n`-th `recv` returns when the bytes waiting are cut into `chunks` and then
nothing comes. -/
def recvResult (chunks : List (List UInt8)) (n : Nat) : Except Errno (List UInt8) :=
  match chunks[n]? with
  | some bytes => .ok bytes
  | none => .error eagain

/-- The first `n` calls of `recv`. -/
def recvCalls (chunks : List (List UInt8)) (n : Nat) : List SysCall :=
  (List.range n).map fun i => .recv (recvResult chunks i)

/-- **`RecvData` drains and returns**: after some number of `recv`s it makes no more and
`Handle` returns, with what they have returned in `received_data_`, and with the
descriptor switched to `EPOLLOUT` if that is anything. -/
def DrainsAndReturns (fd : Fd) (id : Nat) (rest : List EpollEvent) (chunks : List (List UInt8))
    (s : Server) : Prop :=
  ∃ n calls t, (∀ call ∈ calls, ∀ result, call ≠ .recv result) ∧
    TransitionSystem.exec next s (.handle :: recvCalls chunks n ++ calls) = some t ∧
    t.pc = .event rest ∧ (t.echoHandlers id).receivedData = (chunks.take n).flatten ∧
    ((chunks.take n).flatten ≠ [] → t.registered fd = some .outEt)

theorem recvCalls_succ (chunks : List (List UInt8)) (n : Nat) :
    recvCalls chunks (n + 1) = recvCalls chunks n ++ [.recv (recvResult chunks n)] := by
  rw [recvCalls, List.range_succ, List.map_append]
  rfl

/-- As long as no chunk is short the loop goes on. -/
theorem exec_recvCalls (hpc : s.pc = .recv fd id rest) (n : Nat)
    (hfull : ∀ i, i < n → ∀ bytes, chunks[i]? = some bytes →
      bytes.length = kOnceRecvBufferSize) :
    ∃ t, TransitionSystem.exec next s (recvCalls chunks n) = some t ∧
      t.pc = .recv fd id rest ∧
      (t.echoHandlers id).receivedData =
        (s.echoHandlers id).receivedData ++ (chunks.take n).flatten := by
  induction n with
  | zero => exact ⟨s, rfl, hpc, by simp⟩
  | succ n ih =>
    obtain ⟨t, hexec, htpc, hdata⟩ := ih fun i hi => hfull i (by omega)
    have hnext : t.next (.recv (recvResult chunks n)) =
        some (t.afterRecv fd id rest (recvResult chunks n)) := by
      simp only [next, htpc]
    rw [recvCalls_succ, TransitionSystem.exec_append, hexec]
    simp only [Option.bind_some, TransitionSystem.exec, hnext]
    refine ⟨_, rfl, ?_⟩
    unfold recvResult
    rw [List.take_add_one, List.flatten_append]
    cases hbytes : chunks[n]? with
    | none =>
      -- `EAGAIN`: `continue`
      refine ⟨htpc, ?_⟩
      rw [Option.toList_none, List.flatten_nil, List.append_nil]
      exact hdata
    | some bytes =>
      have hlength := hfull n (by omega) bytes hbytes
      have hne : bytes ≠ [] := by
        rintro rfl
        cases hlength
      rcases afterRecv_chunk t fd id rest hne with ⟨hshort, -⟩ | ⟨-, he⟩
      · omega
      · rw [he]
        refine ⟨rfl, ?_⟩
        simp only [setEcho, Function.update_self, Option.toList_some, List.flatten_singleton]
        rw [hdata, List.append_assoc]

/-- Without a `recv` the loop does not go on. -/
theorem pc_exec_of_not_recv {calls : List SysCall} (hpc : s.pc = .recv fd id rest)
    (hcalls : ∀ call ∈ calls, ∀ result, call ≠ .recv result)
    (h : TransitionSystem.exec next s calls = some t) : t.pc = .recv fd id rest := by
  induction calls generalizing s with
  | nil =>
    obtain rfl := Option.some.inj h
    exact hpc
  | cons call calls ih =>
    obtain ⟨u, hu, ht⟩ := Option.bind_eq_some_iff.mp h
    obtain ⟨hcall, hcalls⟩ := List.forall_mem_cons.mp hcalls
    rcases next_cases hu with ⟨errno, -, rfl⟩ | hnext
    · exact ih (s := { s with errno }) hpc hcalls ht
    · rw [hpc] at hnext
      obtain ⟨result, heq, -⟩ := hnext
      exact absurd heq (hcall result)

/-- The chunks up to the first short one. -/
theorem exists_first_short
    (h : ∃ bytes : List UInt8, bytes ∈ chunks ∧ bytes.length < kOnceRecvBufferSize)
    (hle : ∀ bytes : List UInt8, bytes ∈ chunks → bytes.length ≤ kOnceRecvBufferSize) :
    ∃ (n : Nat) (bytes : List UInt8), chunks[n]? = some bytes ∧
      bytes.length < kOnceRecvBufferSize ∧
      ∀ i, i < n → ∀ bytes : List UInt8, chunks[i]? = some bytes →
        bytes.length = kOnceRecvBufferSize := by
  induction chunks with
  | nil =>
    obtain ⟨bytes, hmem, -⟩ := h
    cases hmem
  | cons first chunks ih =>
    obtain ⟨hfirst, hle⟩ := List.forall_mem_cons.mp hle
    by_cases hshort : first.length < kOnceRecvBufferSize
    · exact ⟨0, first, rfl, hshort, fun i hi => absurd hi (Nat.not_lt_zero i)⟩
    · have hlater : ∃ bytes : List UInt8, bytes ∈ chunks ∧
          bytes.length < kOnceRecvBufferSize := by
        obtain ⟨bytes, hmem, hlt⟩ := h
        rcases List.mem_cons.mp hmem with rfl | hmem
        · exact absurd hlt hshort
        · exact ⟨bytes, hmem, hlt⟩
      obtain ⟨n, bytes, hn, hlt, hbefore⟩ := ih hlater hle
      refine ⟨n + 1, bytes, hn, hlt, fun i hi bytes' hi' => ?_⟩
      cases i with
      | zero =>
        obtain rfl := Option.some.inj hi'
        omega
      | succ i => exact hbefore i (by omega) bytes' hi'

/-- The event that `Handle` gives to `RecvData`. -/
theorem next_recvData {event : EpollEvent} (hpc : s.pc = .event (event :: rest))
    (hh : s.handlers event.fd = some (.echo id)) (hin : event.events.epollIn = true)
    (herr : event.events.epollErr = true → s.errno = 0) :
    s.next .handle = some (s.recvData event.fd id rest) := by
  have hrecv : s.echoHandle id event rest = s.recvData event.fd id rest := by
    unfold echoHandle
    rw [if_neg, if_pos hin]
    cases hbit : event.events.epollErr with
    | false => simp
    | true => simp [herr hbit]
  simp only [next, hpc, nextEvent, hh, hrecv]

/-- `RecvData`, as long as no chunk is short. -/
theorem exec_recvData (hhandle : s.next .handle = some (s.recvData fd id rest)) (n : Nat)
    (hfull : ∀ i, i < n → ∀ bytes, chunks[i]? = some bytes →
      bytes.length = kOnceRecvBufferSize) :
    ∃ t, TransitionSystem.exec next s (.handle :: recvCalls chunks n) = some t ∧
      t.pc = .recv fd id rest ∧ (t.echoHandlers id).receivedData = (chunks.take n).flatten := by
  obtain ⟨t, ht, hpc, hdata⟩ := exec_recvCalls (s := s.recvData fd id rest) rfl n hfull
  refine ⟨t, ?_, hpc, ?_⟩
  · rw [TransitionSystem.exec, hhandle]
    exact ht
  · rw [hdata]
    simp [recvData, setEcho]

/-- Where every chunk fills the buffer, `RecvData` does not return. -/
theorem not_drainsAndReturns (hhandle : s.next .handle = some (s.recvData fd id rest))
    (hfull : ∀ bytes : List UInt8, bytes ∈ chunks → bytes.length = kOnceRecvBufferSize) :
    ¬ s.DrainsAndReturns fd id rest chunks := by
  rintro ⟨n, calls, t, hcalls, hexec, htpc, -, -⟩
  obtain ⟨u, hu, hupc, -⟩ := exec_recvData hhandle n
    fun i _ bytes hbytes => hfull bytes (List.mem_of_getElem? hbytes)
  rw [TransitionSystem.exec_append, hu, Option.bind_some] at hexec
  -- still before `recv`
  have hstuck := pc_exec_of_not_recv hupc hcalls hexec
  rw [htpc] at hstuck
  cases hstuck

/-- The first short chunk ends the loop, with the bytes up to it received. -/
theorem drainsAndReturns_of_short (hhandle : s.next .handle = some (s.recvData fd id rest))
    {n : Nat} {bytes : List UInt8} (hn : chunks[n]? = some bytes) (hne : bytes ≠ [])
    (hlt : bytes.length < kOnceRecvBufferSize)
    (hfull : ∀ i, i < n → ∀ bytes, chunks[i]? = some bytes →
      bytes.length = kOnceRecvBufferSize) :
    s.DrainsAndReturns fd id rest chunks := by
  obtain ⟨u, hu, hupc, hdata⟩ := exec_recvData hhandle n hfull
  obtain ⟨v, hv, hvpc, hvdata⟩ : ∃ v, u.next (.recv (recvResult chunks n)) = some v ∧
      v.pc = .epollCtlMod fd .outEt rest ∧
      (v.echoHandlers id).receivedData = (u.echoHandlers id).receivedData ++ bytes := by
    refine ⟨u.afterRecv fd id rest (.ok bytes), ?_, ?_⟩
    · simp only [next, hupc, recvResult, hn]
    · rcases afterRecv_chunk u fd id rest hne with ⟨-, he⟩ | ⟨hnot, -⟩
      · rw [he]
        exact ⟨rfl, by simp [setEcho]⟩
      · exact absurd hlt hnot
  have hswitch : v.next (.epollCtl (.ok ())) =
      some (v.afterModifyHandler fd .outEt rest (.ok ())) := by
    simp only [next, hvpc]
  refine ⟨n + 1, [.epollCtl (.ok ())], v.afterModifyHandler fd .outEt rest (.ok ()), ?_, ?_, rfl,
    ?_, fun _ => Function.update_self ..⟩
  · intro call hcall result
    rw [List.mem_singleton.mp hcall]
    intro h
    cases h
  · rw [recvCalls_succ, ← List.cons_append, List.append_assoc, TransitionSystem.exec_append, hu,
      Option.bind_some, List.singleton_append, TransitionSystem.exec, hv, Option.bind_some,
      TransitionSystem.exec, hswitch]
    rfl
  · show (v.echoHandlers id).receivedData = _
    rw [hvdata, hdata, List.take_add_one, hn, List.flatten_append, Option.toList_some,
      List.flatten_singleton]

/-- **`RecvData` drains and returns exactly where some chunk does not fill its
buffer.**  For every cut of the waiting bytes into results of `recv`, from any state in
which `Handle` calls `RecvData`. -/
theorem drainsAndReturns_iff {event : EpollEvent} (hpc : s.pc = .event (event :: rest))
    (hh : s.handlers event.fd = some (.echo id)) (hin : event.events.epollIn = true)
    (herr : event.events.epollErr = true → s.errno = 0)
    (hchunks : ∀ bytes : List UInt8, bytes ∈ chunks →
      0 < bytes.length ∧ bytes.length ≤ kOnceRecvBufferSize) :
    s.DrainsAndReturns event.fd id rest chunks ↔
      ∃ bytes : List UInt8, bytes ∈ chunks ∧ bytes.length < kOnceRecvBufferSize := by
  have hhandle := next_recvData hpc hh hin herr
  constructor
  · intro h
    by_contra hall
    refine not_drainsAndReturns hhandle (fun bytes hmem => ?_) h
    exact Nat.le_antisymm (hchunks bytes hmem).2
      (Nat.le_of_not_lt fun hlt => hall ⟨bytes, hmem, hlt⟩)
  · intro hshort
    obtain ⟨n, bytes, hn, hlt, hfull⟩ := exists_first_short hshort fun b hb => (hchunks b hb).2
    have hne : bytes ≠ [] := by
      rintro rfl
      exact absurd (hchunks _ (List.mem_of_getElem? hn)).1 (Nat.lt_irrefl 0)
    exact drainsAndReturns_of_short hhandle hn hne hlt hfull

/-- The theorem at a client that sends two bytes. -/
theorem drainsAndReturns_twoBytes :
    ∃ s, (runs 3).Reachable s ∧ s.DrainsAndReturns 5 0 [] [[7, 8]] := by
  have hcalls : TransitionSystem.exec (checked fun _ _ => True) (initial 3 0)
      [.epollWait (.ok [⟨3, .onlyIn⟩]), .handle, .accept4 (.ok ⟨5, ['a'], 80⟩), .epollCtl (.ok ()),
        .handle, .epollWait (.ok [⟨5, .onlyIn⟩])] = some _ := rfl
  refine ⟨_, (reachable_exec hcalls).of_restrict, ?_⟩
  show DrainsAndReturns (EpollEvent.fd ⟨5, .onlyIn⟩) 0 [] [[7, 8]] _
  refine (drainsAndReturns_iff rfl rfl rfl ?_ (by decide)).mpr
    ⟨[7, 8], List.mem_singleton_self _, by decide⟩
  intro herr
  cases herr

/-- A client that sends ten bytes and is then silent keeps the server in `RecvData`. -/
theorem not_drainsAndReturns_tenBytes :
    ∃ s, (runs 3).Reachable s ∧ s.pc = .event [⟨5, .onlyIn⟩] ∧
      ¬ s.DrainsAndReturns 5 0 [] [[0, 1, 2, 3, 4, 5, 6, 7, 8, 9]] ∧
      ∀ n, ∃ t, TransitionSystem.exec next s
        (.handle :: recvCalls [[0, 1, 2, 3, 4, 5, 6, 7, 8, 9]] n) = some t ∧
          t.pc = .recv 5 0 [] := by
  have hcalls : TransitionSystem.exec (checked fun _ _ => True) (initial 3 0)
      [.epollWait (.ok [⟨3, .onlyIn⟩]), .handle, .accept4 (.ok ⟨5, ['a'], 80⟩), .epollCtl (.ok ()),
        .handle, .epollWait (.ok [⟨5, .onlyIn⟩])] = some _ := rfl
  have hfull : ∀ bytes : List UInt8, bytes ∈ [[0, 1, 2, 3, 4, 5, 6, 7, 8, 9]] →
      bytes.length = kOnceRecvBufferSize := by
    intro bytes hmem
    rw [List.mem_singleton.mp hmem]
    rfl
  have hloops : ∀ s : Server, s.next .handle = some (s.recvData 5 0 []) →
      ¬ s.DrainsAndReturns 5 0 [] [[0, 1, 2, 3, 4, 5, 6, 7, 8, 9]] ∧
      ∀ n, ∃ t, TransitionSystem.exec next s
        (.handle :: recvCalls [[0, 1, 2, 3, 4, 5, 6, 7, 8, 9]] n) = some t ∧
          t.pc = .recv 5 0 [] := by
    intro s hhandle
    refine ⟨not_drainsAndReturns hhandle hfull, fun n => ?_⟩
    obtain ⟨t, hexec, hpc, -⟩ := exec_recvData hhandle n
      fun i _ bytes hbytes => hfull bytes (List.mem_of_getElem? hbytes)
    exact ⟨t, hexec, hpc⟩
  exact ⟨_, (reachable_exec hcalls).of_restrict, rfl, hloops _ rfl⟩

end Server
end MySvrKit
