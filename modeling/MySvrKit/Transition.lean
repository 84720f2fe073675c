import Mathlib.Logic.Relation

/-! # Labelled transition systems

What the run-level results of this development need of a transition system:
reachability and its induction, relations that hold between any two points of a
run, runs all of whose steps meet a condition, and runs given by a step
function.  Nothing here knows what the states are. -/

universe u v

/-- A labelled transition system: where a run may start, and its steps. -/
structure TransitionSystem (State : Type u) (Label : Type v) where
  /-- The states a run may start in. -/
  init : State → Prop
  /-- `step s l t`: from `s`, the action `l` may lead to `t`. -/
  step : State → Label → State → Prop

namespace TransitionSystem
variable {State : Type u} {Label : Type v} (S : TransitionSystem State Label)

/-- One step, whatever its label. -/
def Next (s t : State) : Prop := ∃ l, S.step s l t

/-- `t` is a later point of some run through `s`. -/
def Reaches : State → State → Prop := Relation.ReflTransGen S.Next

/-- `s` occurs in some run. -/
def Reachable (s : State) : Prop := ∃ s₀, S.init s₀ ∧ S.Reaches s₀ s

variable {S}

theorem Reaches.refl (s : State) : S.Reaches s s := Relation.ReflTransGen.refl

theorem Reaches.tail {s t u : State} {l : Label} (h : S.Reaches s t) (hs : S.step t l u) :
    S.Reaches s u :=
  Relation.ReflTransGen.tail h ⟨l, hs⟩

theorem Reachable.initial {s : State} (h : S.init s) : S.Reachable s :=
  ⟨s, h, Reaches.refl s⟩

theorem Reachable.step {s t : State} {l : Label} (h : S.Reachable s) (hs : S.step s l t) :
    S.Reachable t := by
  obtain ⟨s₀, h₀, hr⟩ := h
  exact ⟨s₀, h₀, hr.tail hs⟩

theorem Reachable.reaches {s t : State} (h : S.Reachable s) (hr : S.Reaches s t) :
    S.Reachable t := by
  obtain ⟨s₀, h₀, h⟩ := h
  exact ⟨s₀, h₀, Relation.ReflTransGen.trans h hr⟩

/-- **The induction over runs**: what holds at the start and is kept by every
step holds in every state reached. -/
theorem Reachable.invariant {I : State → Prop} {s : State} (h : S.Reachable s)
    (init : ∀ s, S.init s → I s) (step : ∀ s l t, I s → S.step s l t → I t) : I s := by
  obtain ⟨s₀, h₀, hr⟩ := h
  induction hr with
  | refl => exact init s₀ h₀
  | tail _ hs ih =>
    obtain ⟨l, hl⟩ := hs
    exact step _ l _ ih hl

/-- A reflexive and transitive relation that every step from a reachable state
satisfies holds between any two points of a run. -/
theorem Reaches.relates {R : State → State → Prop} {s t : State} (hs : S.Reachable s)
    (h : S.Reaches s t) (refl : ∀ a, R a a) (trans : ∀ a b c, R a b → R b c → R a c)
    (step : ∀ a l b, S.Reachable a → S.step a l b → R a b) : R s t := by
  induction h with
  | refl => exact refl s
  | tail hr hn ih =>
    obtain ⟨l, hl⟩ := hn
    exact trans _ _ _ ih (step _ l _ (hs.reaches hr) hl)

/-! ## Runs whose steps all meet a condition -/

variable (S) in
/-- The runs of `S` all of whose steps meet `cond`. -/
def restrict (cond : State → Label → Prop) : TransitionSystem State Label where
  init := S.init
  step s l t := cond s l ∧ S.step s l t

theorem Reachable.of_restrict {cond : State → Label → Prop} {s : State}
    (h : (S.restrict cond).Reachable s) : S.Reachable s :=
  h.invariant (fun _ h₀ => Reachable.initial h₀) fun _ _ _ hr hs => hr.step hs.2

/-! ## Runs as sequences -/

variable (S) in
/-- `IsRun s run`: from `s`, the labels of `run` in order lead through the states
of `run`. -/
def IsRun : State → List (Label × State) → Prop
  | _, [] => True
  | s, (l, t) :: run => S.step s l t ∧ IsRun t run

/-- The state a run ends in. -/
def last : State → List (Label × State) → State
  | s, [] => s
  | _, (_, t) :: run => last t run

theorem IsRun.reaches {s : State} {run : List (Label × State)} (h : S.IsRun s run) :
    S.Reaches s (last s run) := by
  induction run generalizing s with
  | nil => exact Reaches.refl s
  | cons x run ih => exact Relation.ReflTransGen.head ⟨x.1, h.1⟩ (ih h.2)

/-- Every step of the run meets `cond`. -/
def Meets (cond : State → Label → Prop) : State → List (Label × State) → Prop
  | _, [] => True
  | s, (l, t) :: run => cond s l ∧ Meets cond t run

/-- **Exactness over runs.**  Where a step from a good state, under the invariant
the good steps keep, ends in a good state iff it meets `cond`, a whole run stays
in good states iff all its steps meet `cond`. -/
theorem IsRun.forall_iff_meets {cond : State → Label → Prop} {I good : State → Prop}
    (keep : ∀ s l t, I s → S.step s l t → cond s l → I t)
    (sound : ∀ s, I s → good s)
    (exact_step : ∀ s l t, I s → S.step s l t → ¬ cond s l → ¬ good t)
    {run : List (Label × State)} : ∀ {s : State}, I s → S.IsRun s run →
      ((∀ x ∈ run, good x.2) ↔ Meets cond s run) := by
  induction run with
  | nil => intro s _ _; simp [Meets]
  | cons x run ih =>
    obtain ⟨l, t⟩ := x
    intro s hs hrun
    obtain ⟨hstep, hrest⟩ := hrun
    simp only [List.forall_mem_cons, Meets]
    by_cases hc : cond s l
    · have ht := keep s l t hs hstep hc
      rw [ih ht hrest]
      exact and_congr_left' ⟨fun _ => hc, fun _ => sound t ht⟩
    · have hbad := exact_step s l t hs hstep hc
      exact ⟨fun h => absurd h.1 hbad, fun h => absurd h.1 hc⟩

theorem IsRun.along_from {I : List (Label × State) → State → Prop}
    (step : ∀ before s l t, I before s → S.step s l t → I (before ++ [(l, t)]) t)
    {run : List (Label × State)} : ∀ {s : State} (before : List (Label × State)), I before s →
      S.IsRun s run → I (before ++ run) (last s run) := by
  induction run with
  | nil =>
    intro s before hs _
    rwa [List.append_nil]
  | cons x run ih =>
    obtain ⟨l, t⟩ := x
    intro s before hs hrun
    obtain ⟨hstep, hrest⟩ := hrun
    have ht := ih (before ++ [(l, t)]) (step before s l t hs hstep) hrest
    rwa [List.append_assoc] at ht

/-- **The induction along a run**: what the steps keep of the run so far and the state it
has led to holds of the whole run and its last state. -/
theorem IsRun.along {I : List (Label × State) → State → Prop} {s : State}
    {run : List (Label × State)} (h : S.IsRun s run) (start : I [] s)
    (step : ∀ before s l t, I before s → S.step s l t → I (before ++ [(l, t)]) t) :
    I run (last s run) :=
  IsRun.along_from step [] start h

/-! ## Systems given by a step function -/

/-- The states a list of actions leads through under a partial step function. -/
def exec (step : State → Label → Option State) : State → List Label → Option State
  | s, [] => some s
  | s, l :: ls => (step s l).bind fun t => exec step t ls

theorem exec_append (step : State → Label → Option State) (s : State) (as bs : List Label) :
    exec step s (as ++ bs) = (exec step s as).bind fun t => exec step t bs := by
  induction as generalizing s with
  | nil => rfl
  | cons a as ih =>
    simp only [List.cons_append, exec]
    cases step s a with
    | none => rfl
    | some t => exact ih t

/-- Executing allowed actions one after another is a run. -/
theorem Reachable.exec {step : State → Label → Option State}
    (hS : ∀ s l t, step s l = some t → S.step s l t) {ls : List Label} {s t : State}
    (hr : S.Reachable s) (h : exec step s ls = some t) : S.Reachable t := by
  induction ls generalizing s with
  | nil => exact Option.some.inj h ▸ hr
  | cons l ls ih =>
    obtain ⟨u, hu, ht⟩ := Option.bind_eq_some_iff.mp h
    exact ih (hr.step (hS s l u hu)) ht

end TransitionSystem
