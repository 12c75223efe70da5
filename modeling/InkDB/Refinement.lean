import InkDB.Machine

/-!
Refinement between step systems. A step of the concrete system either shows
nothing or shows what a step of the abstract system shows; the histories that
others can see are then the same.
-/

set_option autoImplicit false

namespace InkDB

section Histories
variable {α ε η : Type}

/-- What can be seen of a run: each action with its label, through a view. -/
def history (view : α → ε → Option η) (as : List α) (es : List ε) : List η :=
  (as.zip es).filterMap (fun x => view x.1 x.2)

@[simp] theorem history_nil (view : α → ε → Option η) : history view [] [] = [] := rfl

theorem history_cons (view : α → ε → Option η) (a : α) (as : List α) (e : ε) (es : List ε) :
    history view (a :: as) (e :: es) = (view a e).toList ++ history view as es := by
  cases h : view a e with
  | none => simp [history,h]
  | some x => simp [history,h]

/-- A view of the labels alone. -/
theorem history_labels {view : ε → Option η} {as : List α} {es : List ε}
    (h : as.length = es.length) : history (fun _ e => view e) as es = es.filterMap view := by
  induction as generalizing es with
  | nil =>
    cases es with
    | nil => rfl
    | cons e es => cases h
  | cons a as ih =>
    cases es with
    | nil => cases h
    | cons e es =>
      rw [history_cons,ih (Nat.succ.inj h)]
      cases hv : view e with
      | none => simp [hv]
      | some x => simp [hv]

end Histories

theorem runSteps_length {σ α ε : Type} {step : σ → α → Option (ε × σ)} {as : List α}
    {es : List ε} {s s' : σ} (h : runSteps step as s = some (es,s')) :
    as.length = es.length := by
  induction as generalizing s es with
  | nil =>
    cases h
    rfl
  | cons a as ih =>
    obtain ⟨e,t,es',-,hrun,rfl⟩ := runSteps_cons h
    exact congrArg (·+1) (ih hrun)

section Simulation
variable {σ τ α β ε η : Type} {step : σ → α → Option (ε × σ)} {step' : τ → β → Option (η × τ)}
  {view : α → ε → Option η}

/-- A step, seen from the abstract system: hidden, or one step there with the
same label. -/
def Matched (step' : τ → β → Option (η × τ)) (R : σ → τ → Prop) (seen : Option η) (s' : σ)
    (t : τ) : Prop :=
  (seen = none ∧ R s' t) ∨ ∃ c x t', seen = some x ∧ step' t c = some (x,t') ∧ R s' t'

/-- Forward simulation with hidden steps: the history of a run is the trace of a
run of the abstract system. -/
theorem runSteps_refines {R : σ → τ → Prop}
    (h : ∀ s a e s' t, R s t → step s a = some (e,s') → Matched step' R (view a e) s' t)
    {as : List α} {es : List ε} {s s' : σ} {t : τ} (hr : R s t)
    (hrun : runSteps step as s = some (es,s')) :
    ∃ cs t', runSteps step' cs t = some (history view as es,t') ∧ R s' t' := by
  induction as generalizing s t es with
  | nil =>
    cases hrun
    exact ⟨[],t,rfl,hr⟩
  | cons a as ih =>
    obtain ⟨e,s₁,es',hstep,hrest,rfl⟩ := runSteps_cons hrun
    rw [history_cons]
    rcases h s a e s₁ t hr hstep with ⟨hview,hr₁⟩ | ⟨c,x,t₁,hview,hstep',hr₁⟩
    · obtain ⟨cs,t',hrun',hr'⟩ := ih hr₁ hrest
      rw [hview]
      exact ⟨cs,t',hrun',hr'⟩
    · obtain ⟨cs,t',hrun',hr'⟩ := ih hr₁ hrest
      refine ⟨c :: cs,t',?_,hr'⟩
      rw [hview]
      simp only [runSteps,hstep',Option.bind_eq_bind,Option.bind_some,hrun']
      rfl

end Simulation

end InkDB
