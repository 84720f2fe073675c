import MySvrKit.EventLoopSteps

/-! # The arithmetic of the loop of `SendData`

The loop counts with 32 bits what it has offered, and cuts what is left to 32 bits before
it takes the minimum.  So for any length of the received data the position runs up to the
length modulo 2^32 and not beyond.  Below 2^32 bytes that is the end of the data; from
there on the loop gets to a point where it offers nothing, and no result of `send` keeps
it going. -/

namespace MySvrKit

namespace Server
variable {fd : Fd} {id : Nat} {rest : List EpollEvent} {length k : Nat} {s t u v : Server}
  {results : Nat → Except Errno Nat} {result : Except Errno Nat}

/-- The first `n` calls of `send`. -/
def sendCalls (results : Nat → Except Errno Nat) (n : Nat) : List SysCall :=
  (List.range n).map fun i => .send (results i)

/-- No `send` takes more than it is offered. -/
def TakesAtMost (results : Nat → Except Errno Nat) (s : Server) : Prop :=
  ∀ n t fd id k rest ret, TransitionSystem.exec next s (sendCalls results n) = some t →
    t.pc = .send fd id k rest → results n = .ok ret → ret ≤ t.offered

/-- What a turn of the loop at position `k` comes to, with a counter that does not wrap:
`offered` bytes from `k` on are offered, and with a positive result the position moves by
as much, to the end of the data or to the next turn. -/
inductive SendTurn (fd : Fd) (id : Nat) (rest : List EpollEvent) (length k offered : Nat) :
    Except Errno Nat → Pc → Prop
  | again {ret} (hlt : k + offered < length) :
      SendTurn fd id rest length k offered (.ok (ret + 1)) (.send fd id (k + offered) rest)
  | sentAll {ret} (heq : k + offered = length) :
      SendTurn fd id rest length k offered (.ok (ret + 1)) (.epollCtlMod fd .inEt rest)
  | zero :
      SendTurn fd id rest length k offered (.ok 0)
        (.epollCtlDel fd (some MyErrorcode.kSendZero) rest)
  | error {errno} :
      SendTurn fd id rest length k offered (.error errno) (.epollCtlDel fd (some (-1)) rest)

/-- The loop has ended at position `k`, after `n` of the `results`: at the end of the data,
or because the last of them was 0 or an error. -/
inductive LoopEnded (fd : Fd) (rest : List EpollEvent) (length k n : Nat)
    (results : Nat → Except Errno Nat) (s : Server) : Prop
  | sentAll (hpc : s.pc = .epollCtlMod fd .inEt rest) (hall : k = length)
  | zero {m} (hpc : s.pc = .epollCtlDel fd (some MyErrorcode.kSendZero) rest) (hn : n = m + 1)
      (hlast : results m = .ok 0)
  | error {m errno} (hpc : s.pc = .epollCtlDel fd (some (-1)) rest) (hn : n = m + 1)
      (hlast : results m = .error errno)

/-- **A `send` in range**: at position `k` the bytes offered are bytes of the received data,
the 32-bit sum is the sum, and the turn is a `SendTurn`. -/
structure SendsInRange (fd : Fd) (id : Nat) (rest : List EpollEvent) (length k : Nat)
    (result : Except Errno Nat) (s t : Server) : Prop where
  pc : s.pc = .send fd id k rest
  inside : k + s.offered ≤ length
  noWrap : k + s.offered < 2 ^ 32
  step : s.next (.send result) = some t
  turn : SendTurn fd id rest length k s.offered result t.pc

/-- **The loop ends, in range all along**: from position `k` on, `positions` are where its
sends begin, each as far behind the one before as that has offered; every send is in range;
after `n` of the `results` the loop has ended, at the end of the data or by an early return;
and no state has the branch `sent_length > received_length` taken. -/
structure LoopEnds (fd : Fd) (id : Nat) (rest : List EpollEvent) (length k n : Nat)
    (results : Nat → Except Errno Nat) (positions : Nat → Nat) (s : Server) : Prop where
  start : positions 0 = k
  inRange : ∀ i < n, ∃ t u, TransitionSystem.exec next s (sendCalls results i) = some t ∧
    SendsInRange fd id rest length (positions i) (results i) t u ∧
    positions (i + 1) = positions i + t.offered
  ended : ∃ t, TransitionSystem.exec next s (sendCalls results n) = some t ∧
    t.LoopEnded fd rest length (positions n) n results
  noSendErr : ∀ i t, TransitionSystem.exec next s (sendCalls results i) = some t →
    t.pc ≠ .epollCtlDel fd (some MyErrorcode.kSendErr) rest

/-- The invariant of the loop: the position is at most the length modulo 2^32. -/
structure Looping (fd : Fd) (id : Nat) (rest : List EpollEvent) (length k : Nat) (s : Server) :
    Prop where
  pc : s.pc = .send fd id k rest
  data : (s.echoHandlers id).receivedData.length = length
  lt : k < length
  le_mod : k ≤ length % 2 ^ 32

/-! ## One turn -/

/-- What is offered, as long as the position is at most the length modulo 2^32. -/
theorem sentBufferLengthThistime_eq (hk : k ≤ length % 2 ^ 32) :
    sentBufferLengthThistime length k = min (length % 2 ^ 32 - k) kOnceSendBufferSize := by
  have hmod : (length - k) % 2 ^ 32 = length % 2 ^ 32 - k := by omega
  rw [sentBufferLengthThistime, hmod]

theorem Looping.offered_eq (h : s.Looping fd id rest length k) :
    s.offered = min (length % 2 ^ 32 - k) kOnceSendBufferSize := by
  rw [← sentBufferLengthThistime_eq h.le_mod, ← h.data]
  simp only [offered, h.pc]

/-- The bounds of a turn: the position moves towards the length modulo 2^32. -/
theorem Looping.bounds (h : s.Looping fd id rest length k) :
    k + s.offered ≤ length % 2 ^ 32 ∧ k + s.offered ≤ length ∧ k + s.offered < 2 ^ 32 := by
  have hoffered := h.offered_eq
  have hle := h.le_mod
  have hmod := Nat.mod_le length (2 ^ 32)
  have hmod' := Nat.mod_lt length (by decide : 0 < 2 ^ 32)
  omega

/-- With a positive result the loop is at its test again, at the sum. -/
theorem Looping.afterSend_ok (h : s.Looping fd id rest length k) (ret : Nat) :
    s.afterSend fd id k rest (.ok (ret + 1)) =
      (s.recordSent fd (((s.echoHandlers id).receivedData.drop k).take (ret + 1))).sendLoop fd id
        (k + s.offered) rest := by
  have hthistime : sentBufferLengthThistime (s.echoHandlers id).receivedData.length k =
      s.offered := by
    simp only [offered, h.pc]
  have hsum : (k + s.offered) % 2 ^ 32 = k + s.offered := Nat.mod_eq_of_lt h.bounds.2.2
  rw [← hsum, ← hthistime]
  rfl

/-- A turn is in range, and where the loop goes on, its invariant holds further on. -/
theorem Looping.turn (h : s.Looping fd id rest length k)
    (htakes : ∀ ret, result = .ok ret → ret ≤ s.offered) :
    ∃ t, SendsInRange fd id rest length k result s t ∧
      ∀ k', t.pc = .send fd id k' rest →
        t.Looping fd id rest length (k + s.offered) ∧ 0 < s.offered := by
  obtain ⟨hmod, hinside, hnoWrap⟩ := h.bounds
  have hnext : s.next (.send result) = some (s.afterSend fd id k rest result) := by
    simp only [next, h.pc]
  rcases result with errno | _ | ret
  · exact ⟨_, ⟨h.pc, hinside, hnoWrap, hnext, .error⟩, fun _ hpc => by cases hpc⟩
  · exact ⟨_, ⟨h.pc, hinside, hnoWrap, hnext, .zero⟩, fun _ hpc => by cases hpc⟩
  · have hpos : 0 < s.offered := Nat.lt_of_lt_of_le ret.succ_pos (htakes _ rfl)
    rw [h.afterSend_ok] at hnext
    generalize ((s.echoHandlers id).receivedData.drop k).take (ret + 1) = bytes at hnext
    have hdata : ((s.recordSent fd bytes).echoHandlers id).receivedData.length = length := h.data
    rcases sendLoop_cases (s.recordSent fd bytes) fd id (k + s.offered) rest with
      ⟨hlt, he⟩ | ⟨hgt, -⟩ | ⟨heq, he⟩
    · rw [hdata] at hlt
      rw [he] at hnext
      exact ⟨_, ⟨h.pc, hinside, hnoWrap, hnext, .again hlt⟩,
        fun _ _ => ⟨⟨rfl, hdata, hlt, hmod⟩, hpos⟩⟩
    · -- the branch of the error
      omega
    · rw [hdata] at heq
      rw [he] at hnext
      exact ⟨_, ⟨h.pc, hinside, hnoWrap, hnext, .sentAll heq⟩, fun _ hpc => by cases hpc⟩

/-! ## The loop -/

theorem sendCalls_succ (results : Nat → Except Errno Nat) (n : Nat) :
    sendCalls results (n + 1) = .send (results 0) :: sendCalls (fun i => results (i + 1)) n := by
  rw [sendCalls, List.range_succ_eq_map, List.map_cons, List.map_map]
  rfl

theorem exec_sendCalls_succ (hnext : s.next (.send (results 0)) = some t) (n : Nat) :
    TransitionSystem.exec next s (sendCalls results (n + 1)) =
      TransitionSystem.exec next t (sendCalls (fun i => results (i + 1)) n) := by
  rw [sendCalls_succ, TransitionSystem.exec, hnext, Option.bind_some]

/-- An ended loop makes no further `send`, and has not ended with `kSendErr`. -/
theorem LoopEnded.noSendErr {n : Nat} (h : s.LoopEnded fd rest length k n results) (i : Nat)
    (results' : Nat → Except Errno Nat)
    (ht : TransitionSystem.exec next s (sendCalls results' i) = some t) :
    t.pc ≠ .epollCtlDel fd (some MyErrorcode.kSendErr) rest := by
  cases i with
  | zero =>
    obtain rfl := Option.some.inj ht
    cases h with
    | sentAll hpc => simp [hpc]
    | zero hpc => simp [hpc, MyErrorcode.kSendZero, MyErrorcode.kSendErr]
    | error hpc => simp [hpc, MyErrorcode.kSendErr]
  | succ i =>
    rw [sendCalls_succ, TransitionSystem.exec] at ht
    cases h with
    | sentAll hpc => simp [next, hpc] at ht
    | zero hpc => simp [next, hpc] at ht
    | error hpc => simp [next, hpc] at ht

/-- Counted with the send before. -/
theorem LoopEnded.succ {n : Nat}
    (h : s.LoopEnded fd rest length k n fun i => results (i + 1)) :
    s.LoopEnded fd rest length k (n + 1) results := by
  cases h with
  | sentAll hpc hall => exact .sentAll hpc hall
  | zero hpc hn hlast => exact .zero hpc (congrArg (· + 1) hn) hlast
  | error hpc hn hlast => exact .error hpc (congrArg (· + 1) hn) hlast

/-- `k`, and then the positions of a loop. -/
def behind (k : Nat) (positions : Nat → Nat) : Nat → Nat
  | 0 => k
  | i + 1 => positions i

/-- At the end of the data nothing is sent. -/
theorem LoopEnds.nil (hended : s.LoopEnded fd rest length k 0 results) :
    s.LoopEnds fd id rest length k 0 results fun _ => k where
  start := rfl
  inRange i hi := absurd hi (Nat.not_lt_zero i)
  ended := ⟨s, rfl, hended⟩
  noSendErr i _ := hended.noSendErr i results

/-- The last send, which has given 0 or an error. -/
theorem LoopEnds.last (h : s.Looping fd id rest length k)
    (hsend : SendsInRange fd id rest length k (results 0) s t)
    (hended : t.LoopEnded fd rest length (k + s.offered) 1 results) :
    s.LoopEnds fd id rest length k 1 results (behind k fun _ => k + s.offered) where
  start := rfl
  inRange i hi := by
    obtain rfl : i = 0 := by omega
    exact ⟨s, t, rfl, hsend, rfl⟩
  ended := by
    rw [exec_sendCalls_succ hsend.step]
    exact ⟨t, rfl, hended⟩
  noSendErr i u hu := by
    cases i with
    | zero =>
      obtain rfl := Option.some.inj hu
      rw [h.pc]
      nofun
    | succ i =>
      rw [exec_sendCalls_succ hsend.step] at hu
      exact hended.noSendErr i _ hu

/-- A turn before the loop's end. -/
theorem LoopEnds.cons {n : Nat} {positions : Nat → Nat} (h : s.Looping fd id rest length k)
    (hsend : SendsInRange fd id rest length k (results 0) s t)
    (ht : t.LoopEnds fd id rest length (k + s.offered) n (fun i => results (i + 1)) positions) :
    s.LoopEnds fd id rest length k (n + 1) results (behind k positions) where
  start := rfl
  inRange i hi := by
    cases i with
    | zero => exact ⟨s, t, rfl, hsend, ht.start⟩
    | succ i =>
      rw [exec_sendCalls_succ hsend.step]
      exact ht.inRange i (Nat.lt_of_succ_lt_succ hi)
  ended := by
    obtain ⟨u, hu, hended⟩ := ht.ended
    rw [exec_sendCalls_succ hsend.step]
    exact ⟨u, hu, hended.succ⟩
  noSendErr i u hu := by
    cases i with
    | zero =>
      obtain rfl := Option.some.inj hu
      rw [h.pc]
      nofun
    | succ i =>
      rw [exec_sendCalls_succ hsend.step] at hu
      exact ht.noSendErr i u hu

/-- **The loop ends**: each turn that goes on takes the position nearer to the length modulo
2^32, by the size of a chunk or all the way. -/
theorem Looping.ends (h : s.Looping fd id rest length k) (htakes : s.TakesAtMost results) :
    ∃ n positions, n ≤ (length % 2 ^ 32 - k + 9) / 10 + 1 ∧
      s.LoopEnds fd id rest length k n results positions := by
  -- the distance left is the measure
  induction hd : length % 2 ^ 32 - k using Nat.strong_induction_on generalizing s k results with
  | h d ih =>
    obtain ⟨t, hsend, hgoesOn⟩ :=
      h.turn fun ret hret => htakes 0 s fd id k rest ret rfl h.pc hret
    have hturn := hsend.turn
    generalize hresult : results 0 = given at hturn
    generalize hpc : t.pc = pc at hturn
    cases hturn with
    | zero => exact ⟨1, _, by omega, .last h hsend (.zero hpc rfl hresult)⟩
    | error => exact ⟨1, _, by omega, .last h hsend (.error hpc rfl hresult)⟩
    | sentAll heq =>
      exact ⟨1, _, by omega, .cons h hsend (.nil (.sentAll hpc heq))⟩
    | again hlt =>
      obtain ⟨hlooping, hpos⟩ := hgoesOn _ hpc
      have hoffered := h.offered_eq
      have hle := hlooping.le_mod
      have hlater : t.TakesAtMost fun i => results (i + 1) := by
        intro n u fd' id' k' rest' ret hu
        rw [← exec_sendCalls_succ hsend.step] at hu
        exact htakes (n + 1) u fd' id' k' rest' ret hu
      obtain ⟨n, positions, hn, hends⟩ := ih _ (by omega) hlooping hlater rfl
      refine ⟨n + 1, _, ?_, .cons h hsend hends⟩
      unfold kOnceSendBufferSize at hoffered
      omega

/-- **The arithmetic of `SendData` is sound for every length.**  Whatever `send` gives, as
long as it is no more than it was offered: from position 0 the loop ends, at the end of the
data or by a return on 0 or an error; every range offered is one of the received data, the
32-bit position never wraps, and `sent_length > received_length` is never true. -/
theorem sendData_loopEnds (hreceived : (s.echoHandlers id).hasReceived = true)
    (hlength : (s.echoHandlers id).receivedData.length = length)
    (htakes : (s.sendData fd id rest).TakesAtMost results) :
    ∃ n positions, n ≤ (length % 2 ^ 32 + 9) / 10 + 1 ∧
      (s.sendData fd id rest).LoopEnds fd id rest length 0 n results positions := by
  have hloop : s.sendData fd id rest = s.sendLoop fd id 0 rest := by
    simp [sendData, hreceived]
  rw [hloop] at htakes ⊢
  rcases sendLoop_cases s fd id 0 rest with ⟨hlt, he⟩ | ⟨hgt, -⟩ | ⟨heq, he⟩
  · rw [he] at htakes ⊢
    rw [hlength] at hlt
    have hstart : Looping fd id rest length 0 { s with pc := .send fd id 0 rest } :=
      ⟨rfl, hlength, hlt, Nat.zero_le _⟩
    exact hstart.ends htakes
  · exact absurd hgt (Nat.not_lt_zero _)
  · rw [he]
    exact ⟨0, _, Nat.zero_le _, .nil (.sentAll rfl (heq.trans hlength))⟩

/-- A chunk taken in part, the rest of the data whole, and then nothing more. -/
def twoSends : Nat → Except Errno Nat
  | 0 => .ok 4
  | 1 => .ok 2
  | _ => .error eagain

/-- The theorem at twelve bytes of data. -/
theorem sendData_loopEnds_twelveBytes :
    ∃ n positions, n ≤ 3 ∧
      (((initial 3 0).setEcho 0 ⟨true, [0, 1, 2, 3, 4, 5, 6, 7, 8, 9, 10, 11]⟩).sendData 5 0
        []).LoopEnds 5 0 [] 12 0 n twoSends positions := by
  suffices htakes : TakesAtMost twoSends (sendData
      ((initial 3 0).setEcho 0 ⟨true, [0, 1, 2, 3, 4, 5, 6, 7, 8, 9, 10, 11]⟩) 5 0 []) from
    sendData_loopEnds rfl rfl htakes
  rintro (_ | _ | n) t fd id k rest ret ht - hret
  · obtain rfl := Option.some.inj ht
    obtain rfl := Except.ok.inj hret
    decide
  · obtain rfl := Option.some.inj ht
    obtain rfl := Except.ok.inj hret
    decide
  · cases hret

end Server
end MySvrKit
