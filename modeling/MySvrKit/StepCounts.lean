import MySvrKit.Transition
import Mathlib.Data.Set.Card

/-! # Counting the steps of a run

A quantity that some steps of a run raise by one, some lower by one and all others leave
is given by how many of the run's steps are of each kind; and so is how many elements a
set has to which some steps add one and from which some take one. -/

universe u v w

namespace TransitionSystem
variable {State : Type u} {Label : Type v} {S : TransitionSystem State Label}

/-- How many steps of a run are of a kind. -/
def count (kind : State → Label → Bool) : State → List (Label × State) → Nat
  | _, [] => 0
  | s, (l, t) :: run => (kind s l).toNat + count kind t run

/-- The run has a step with that label. -/
def Occurs (l : Label) (run : List (Label × State)) : Prop := ∃ s, (l, s) ∈ run

@[simp] theorem occurs_concat {l l' : Label} {s : State} {run : List (Label × State)} :
    Occurs l (run ++ [(l', s)]) ↔ Occurs l run ∨ l = l' := by
  simp only [Occurs, List.mem_append, List.mem_singleton, Prod.mk.injEq, exists_or,
    exists_and_left, exists_eq, and_true]

section
variable {kind credit debit : State → Label → Bool} {I : State → Prop}

theorem count_never (s : State) (run : List (Label × State)) :
    count (fun _ _ => false) s run = 0 := by
  induction run generalizing s with
  | nil => rfl
  | cons x run ih => exact (Nat.zero_add _).trans (ih x.2)

/-- What the steps keep holds of the state a run ends in. -/
theorem IsRun.keeps (keep : ∀ s l t, I s → S.step s l t → I t) {run : List (Label × State)} :
    ∀ {s : State}, I s → S.IsRun s run → I (last s run) := by
  induction run with
  | nil => exact fun hs _ => hs
  | cons x run ih =>
    intro s hs hrun
    exact ih (keep _ _ _ hs hrun.1) hrun.2

/-- **The balance of a run.** -/
theorem IsRun.balance {value : State → Nat} (keep : ∀ s l t, I s → S.step s l t → I t)
    (change : ∀ s l t, I s → S.step s l t →
      value t + (debit s l).toNat = value s + (credit s l).toNat)
    {run : List (Label × State)} : ∀ {s : State}, I s → S.IsRun s run →
      value (last s run) + count debit s run = value s + count credit s run := by
  induction run with
  | nil => exact fun _ _ => rfl
  | cons x run ih =>
    obtain ⟨l, t⟩ := x
    intro s hs hrun
    obtain ⟨hstep, hrest⟩ := hrun
    have hchange := change s l t hs hstep
    have hrest := ih (keep s l t hs hstep) hrest
    simp only [last, count]
    omega

/-- A quantity that steps of one kind raise and the others leave. -/
theorem IsRun.tally {value : State → Nat} (keep : ∀ s l t, I s → S.step s l t → I t)
    (change : ∀ s l t, I s → S.step s l t → value t = value s + (kind s l).toNat)
    {run : List (Label × State)} {s : State} (hs : I s) (h : S.IsRun s run) :
    value (last s run) = value s + count kind s run := by
  have hbalance : value (last s run) + count (fun _ _ => false) s run =
      value s + count kind s run := IsRun.balance keep change hs h
  rwa [count_never] at hbalance

/-- **A set that gains an element at the steps of one kind and loses one at those of
another.** -/
theorem IsRun.ncard_balance {α : Type w} {members : State → Set α}
    (keep : ∀ s l t, I s → S.step s l t → I t)
    (gains : ∀ s l t, I s → S.step s l t → credit s l = true →
      debit s l = false ∧ ∃ a, a ∉ members s ∧ members t = insert a (members s))
    (loses : ∀ s l t, I s → S.step s l t → debit s l = true →
      credit s l = false ∧ ∃ a, a ∈ members s ∧ members t = members s \ {a})
    (stays : ∀ s l t, I s → S.step s l t → credit s l = false → debit s l = false →
      members t = members s)
    {s : State} (hs : I s) (hfinite : (members s).Finite) {run : List (Label × State)}
    (h : S.IsRun s run) :
    (members (last s run)).ncard + count debit s run = (members s).ncard + count credit s run := by
  have hstep : ∀ s l t, (I s ∧ (members s).Finite) → S.step s l t → (members t).Finite ∧
      (members t).ncard + (debit s l).toNat = (members s).ncard + (credit s l).toNat := by
    rintro s l t ⟨hs, hfinite⟩ hstep
    cases hcredit : credit s l with
    | true =>
      obtain ⟨hdebit, a, hnew, ht⟩ := gains s l t hs hstep hcredit
      rw [ht, hdebit, Set.ncard_insert_of_notMem hnew hfinite]
      exact ⟨hfinite.insert a, rfl⟩
    | false =>
      cases hdebit : debit s l with
      | true =>
        obtain ⟨-, a, hmem, ht⟩ := loses s l t hs hstep hdebit
        rw [ht]
        exact ⟨hfinite.sdiff, Set.ncard_sdiff_singleton_add_one hmem hfinite⟩
      | false =>
        rw [stays s l t hs hstep hcredit hdebit]
        exact ⟨hfinite, rfl⟩
  have hkeep : ∀ s l t, (I s ∧ (members s).Finite) → S.step s l t → I t ∧ (members t).Finite :=
    fun s l t hs h => ⟨keep s l t hs.1 h, (hstep s l t hs h).1⟩
  have hbalance := IsRun.balance hkeep (fun s l t hs h => (hstep s l t hs h).2) ⟨hs, hfinite⟩ h
  exact hbalance

/-- **A set that grows by one element at the steps of a kind** has grown by as many as the
run has such steps. -/
theorem IsRun.ncard {α : Type w} {members : State → Set α}
    (keep : ∀ s l t, I s → S.step s l t → I t)
    (grows : ∀ s l t, I s → S.step s l t → kind s l = true →
      ∃ a, a ∉ members s ∧ members t = insert a (members s))
    (stays : ∀ s l t, I s → S.step s l t → kind s l = false → members t = members s)
    {s : State} (hs : I s) (hfinite : (members s).Finite) {run : List (Label × State)}
    (h : S.IsRun s run) :
    (members (last s run)).ncard = (members s).ncard + count kind s run := by
  have hbalance : (members (last s run)).ncard + count (fun _ _ => false) s run =
      (members s).ncard + count kind s run :=
    IsRun.ncard_balance keep (fun s l t hs hstep hkind => ⟨rfl, grows s l t hs hstep hkind⟩)
      (fun _ _ _ _ _ h => by cases h) (fun s l t hs hstep hkind _ => stays s l t hs hstep hkind)
      hs hfinite h
  rwa [count_never] at hbalance

end

end TransitionSystem
