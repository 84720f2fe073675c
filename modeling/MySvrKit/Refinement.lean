import MySvrKit.Transition

/-! # Refinement of transition systems

Two systems are compared by what an observer sees of their runs.  `S` refines `A`
if whatever can be seen of `S` can be seen of `A`.  The proof rule is backward
simulation: what a step of `S` has led to is explained from behind, so that a
choice of `A` may depend on what `S` does later. -/

universe u v w u' v'

namespace TransitionSystem
variable {State : Type u} {Label : Type v} {Obs : Type w}

/-- What is seen of a run, a step showing `observe s l`. -/
def trace (observe : State → Label → List Obs) : State → List (Label × State) → List Obs
  | _, [] => []
  | s, (l, t) :: run => observe s l ++ trace observe t run

variable (S : TransitionSystem State Label) (observe : State → Label → List Obs)

/-- Some run from `s` to `t` shows `seen`. -/
def Shows (s : State) (seen : List Obs) (t : State) : Prop :=
  ∃ run, S.IsRun s run ∧ trace observe s run = seen ∧ last s run = t

/-- Some run from the start shows `seen`. -/
def Exhibits (seen : List Obs) : Prop := ∃ s t, S.init s ∧ S.Shows observe s seen t

variable {S observe}

theorem IsRun.append {s : State} {run run' : List (Label × State)} (h : S.IsRun s run)
    (h' : S.IsRun (last s run) run') : S.IsRun s (run ++ run') := by
  induction run generalizing s with
  | nil => exact h'
  | cons x run ih => exact ⟨h.1, ih h.2 h'⟩

theorem last_append (s : State) (run run' : List (Label × State)) :
    last s (run ++ run') = last (last s run) run' := by
  induction run generalizing s with
  | nil => rfl
  | cons x run ih => exact ih x.2

theorem trace_append (s : State) (run run' : List (Label × State)) :
    trace observe s (run ++ run') = trace observe s run ++ trace observe (last s run) run' := by
  induction run generalizing s with
  | nil => rfl
  | cons x run ih => simp only [List.cons_append, trace, last, ih, List.append_assoc]

theorem Shows.refl (s : State) : S.Shows observe s [] s := ⟨[], trivial, rfl, rfl⟩

theorem Shows.step {s t : State} {l : Label} (h : S.step s l t) :
    S.Shows observe s (observe s l) t :=
  ⟨[(l, t)], ⟨h, trivial⟩, List.append_nil _, rfl⟩

theorem Shows.trans {s t u : State} {seen seen' : List Obs} (h : S.Shows observe s seen t)
    (h' : S.Shows observe t seen' u) : S.Shows observe s (seen ++ seen') u := by
  obtain ⟨run, hrun, rfl, rfl⟩ := h
  obtain ⟨run', hrun', rfl, rfl⟩ := h'
  exact ⟨run ++ run', hrun.append hrun', trace_append s run run', last_append s run run'⟩

/-! ## Backward simulation -/

section
variable {State' : Type u'} {Label' : Type v'}

variable (S observe) in
/-- Whatever can be seen of `S` can be seen of `A`. -/
def Refines (A : TransitionSystem State' Label') (observe' : State' → Label' → List Obs) : Prop :=
  ∀ seen, S.Exhibits observe seen → A.Exhibits observe' seen

variable (S observe) in
/-- A backward simulation: every state `A` may be in after a step of `S` is one `A` can
have come to from a state it may be in before, showing the same. -/
structure BackwardSimulation (A : TransitionSystem State' Label')
    (observe' : State' → Label' → List Obs) (R : State → State' → Prop) : Prop where
  total : ∀ s, S.Reachable s → ∃ a, R s a
  init : ∀ s a, S.init s → R s a → A.init a
  step : ∀ s l t b, S.Reachable s → S.step s l t → R t b →
    ∃ a, R s a ∧ A.Shows observe' a (observe s l) b

variable {A : TransitionSystem State' Label'} {observe' : State' → Label' → List Obs}
  {R : State → State' → Prop}

/-- A run of `S` from a reachable state, explained from its end. -/
theorem BackwardSimulation.run (h : S.BackwardSimulation observe A observe' R) {s : State}
    {run : List (Label × State)} (hs : S.Reachable s) (hrun : S.IsRun s run) {b : State'}
    (hb : R (last s run) b) : ∃ a, R s a ∧ A.Shows observe' a (trace observe s run) b := by
  induction run generalizing s with
  | nil => exact ⟨b, hb, Shows.refl b⟩
  | cons x run ih =>
    obtain ⟨l, t⟩ := x
    obtain ⟨c, hc, hshows⟩ := ih (hs.step hrun.1) hrun.2 hb
    obtain ⟨a, ha, hstep⟩ := h.step s l t c hs hrun.1 hc
    exact ⟨a, ha, hstep.trans hshows⟩

/-- **Backward simulation proves refinement.** -/
theorem BackwardSimulation.refines (h : S.BackwardSimulation observe A observe' R) :
    S.Refines observe A observe' := by
  rintro seen ⟨s, t, hs, run, hrun, rfl, rfl⟩
  have hreachable := Reachable.initial hs
  obtain ⟨b, hb⟩ := h.total _ (hreachable.reaches hrun.reaches)
  obtain ⟨a, ha, hshows⟩ := h.run hreachable hrun hb
  exact ⟨a, b, h.init s a hs ha, hshows⟩

end
end TransitionSystem
