import Mathlib

/-!
Interleavings. Threads with private locations step one at a time over a shared
state, each step leaving a label in the trace; a schedule says which thread acts
next and how.
-/

set_option autoImplicit false

namespace InkDB

section Runs
variable {σ α ε : Type}

/-- The labels of a schedule and the state it ends in, if every step of it is
possible. -/
def runSteps (step : σ → α → Option (ε × σ)) : List α → σ → Option (List ε × σ)
  | [], s => some ([],s)
  | a :: as, s => do
      let (e,s) ← step s a
      let (es,s) ← runSteps step as s
      pure (e :: es,s)

theorem runSteps_cons {step : σ → α → Option (ε × σ)} {a : α} {as : List α} {s s' : σ}
    {es : List ε} (h : runSteps step (a :: as) s = some (es,s')) :
    ∃ e t es', step s a = some (e,t) ∧ runSteps step as t = some (es',s') ∧ es = e :: es' := by
  simp only [runSteps,Option.bind_eq_bind,Option.bind_eq_some_iff] at h
  obtain ⟨⟨e,t⟩,hstep,⟨es',t'⟩,hrun,heq⟩ := h
  cases heq
  exact ⟨e,t,es',hstep,hrun,rfl⟩

theorem runSteps_append {step : σ → α → Option (ε × σ)} {as as' : List α} {es es' : List ε}
    {s t u : σ} (h : runSteps step as s = some (es,t)) (h' : runSteps step as' t = some (es',u)) :
    runSteps step (as ++ as') s = some (es ++ es',u) := by
  induction as generalizing s es with
  | nil =>
    cases h
    exact h'
  | cons a as ih =>
    obtain ⟨e,s₁,es₁,hstep,hrun,rfl⟩ := runSteps_cons h
    simp only [List.cons_append,runSteps,hstep,Option.bind_eq_bind,Option.bind_some,ih hrun]
    rfl

theorem runSteps_label {step : σ → α → Option (ε × σ)} {as : List α} {es : List ε} {s s' : σ}
    (h : runSteps step as s = some (es,s')) {a : α} (ha : a ∈ as) :
    ∃ e ∈ es, ∃ t t', step t a = some (e,t') := by
  induction as generalizing s es with
  | nil => cases ha
  | cons a' as ih =>
    obtain ⟨e,t,es',hstep,hrun,rfl⟩ := runSteps_cons h
    rcases List.mem_cons.mp ha with rfl | ha
    · exact ⟨e,by simp,s,t,hstep⟩
    · obtain ⟨e',he',hrest⟩ := ih hrun ha
      exact ⟨e',List.mem_cons_of_mem _ he',hrest⟩

theorem runSteps_split {step : σ → α → Option (ε × σ)} {as : List α} {pre post : List ε} {e : ε}
    {s s' : σ} (h : runSteps step as s = some (pre ++ e :: post,s')) :
    ∃ as₁ a as₂ s₁ s₂, as = as₁ ++ a :: as₂ ∧ runSteps step as₁ s = some (pre,s₁) ∧
      step s₁ a = some (e,s₂) ∧ runSteps step as₂ s₂ = some (post,s') := by
  induction pre generalizing as s with
  | nil =>
    cases as with
    | nil => cases h
    | cons a as =>
      obtain ⟨e',t,es',hstep,hrun,heq⟩ := runSteps_cons h
      cases heq
      exact ⟨[],a,as,s,t,rfl,rfl,hstep,hrun⟩
  | cons x pre ih =>
    cases as with
    | nil => cases h
    | cons a as =>
      obtain ⟨e',t,es',hstep,hrun,heq⟩ := runSteps_cons h
      cases heq
      obtain ⟨as₁,a',as₂,s₁,s₂,rfl,h₁,h₂,h₃⟩ := ih hrun
      refine ⟨a :: as₁,a',as₂,s₁,s₂,rfl,?_,h₂,h₃⟩
      simp only [runSteps,hstep,Option.bind_eq_bind,Option.bind_some,h₁]
      rfl

/-- A relation between trace and state that every step extends holds after
every run. -/
theorem runSteps_invariant {step : σ → α → Option (ε × σ)} (I : List ε → σ → Prop)
    (hstep : ∀ tr s a e s', I tr s → step s a = some (e,s') → I (tr ++ [e]) s')
    {as : List α} {tr es : List ε} {s s' : σ} (hi : I tr s)
    (hrun : runSteps step as s = some (es,s')) : I (tr ++ es) s' := by
  induction as generalizing tr es s with
  | nil =>
    cases hrun
    rwa [List.append_nil]
  | cons a as ih =>
    obtain ⟨e,t,es',h,hrest,rfl⟩ := runSteps_cons hrun
    have hnext := ih (hstep tr s a e t hi h) hrest
    rwa [List.append_assoc] at hnext

theorem runSteps_reaches {step : σ → α → Option (ε × σ)} (I : List ε → σ → Prop)
    {as : List α} {es : List ε} {s s' : σ} (hrun : runSteps step as s = some (es,s'))
    (hinit : I [] s)
    (hstep : ∀ tr s a e s', I tr s → step s a = some (e,s') → I (tr ++ [e]) s') : I es s' := by
  have h := runSteps_invariant I hstep hinit hrun
  rwa [List.nil_append] at h

theorem runSteps_keeps {step : σ → α → Option (ε × σ)} (I : List ε → σ → Prop)
    {as : List α} {es : List ε} {s s' : σ} (hrun : runSteps step as s = some (es,s'))
    (hinit : I [] s)
    (hstep : ∀ a ∈ as, ∀ tr s e s', I tr s → step s a = some (e,s') → I (tr ++ [e]) s') :
    I es s' := by
  suffices h : ∀ tr, I tr s → I (tr ++ es) s' by
    simpa using h [] hinit
  clear hinit
  induction as generalizing es s with
  | nil =>
    cases hrun
    intro tr hi
    rwa [List.append_nil]
  | cons a as ih =>
    obtain ⟨e,t,es',h,hrest,rfl⟩ := runSteps_cons hrun
    intro tr hi
    have hnext := ih hrest (fun a' ha' => hstep a' (List.mem_cons_of_mem _ ha')) (tr ++ [e])
      (hstep a (by simp) tr s e t hi h)
    rwa [List.append_assoc] at hnext

end Runs

structure Threads (Tid L G : Type) where
  shared : G
  loc : Tid → L

namespace Threads
variable {Tid L G α ε : Type} [DecidableEq Tid]

def step (move : α → L → G → Option (ε × L × G)) (s : Threads Tid L G) (a : Tid × α) :
    Option ((Tid × ε) × Threads Tid L G) :=
  (move a.2 (s.loc a.1) s.shared).map
    (fun r => ((a.1,r.1),⟨r.2.2,Function.update s.loc a.1 r.2.1⟩))

theorem step_some {move : α → L → G → Option (ε × L × G)} {s s' : Threads Tid L G} {a : Tid × α}
    {x : Tid × ε} (h : step move s a = some (x,s')) :
    ∃ e l g, move a.2 (s.loc a.1) s.shared = some (e,l,g) ∧ x = (a.1,e) ∧
      s' = ⟨g,Function.update s.loc a.1 l⟩ := by
  simp only [step,Option.map_eq_some_iff] at h
  obtain ⟨⟨e,l,g⟩,hmove,heq⟩ := h
  cases heq
  exact ⟨e,l,g,hmove,rfl,rfl⟩

/-- A schedule of one thread, run on its location and the shared state alone. -/
def soloRun (move : α → L → G → Option (ε × L × G)) : List α → L → G → Option (List ε × L × G)
  | [], l, g => some ([],l,g)
  | a :: as, l, g => do
      let (e,l,g) ← move a l g
      let (es,l,g) ← soloRun move as l g
      pure (e :: es,l,g)

theorem runSteps_solo {move : α → L → G → Option (ε × L × G)} {s : Threads Tid L G} {t : Tid}
    {as : List α} {es : List ε} {l : L} {g : G}
    (h : soloRun move as (s.loc t) s.shared = some (es,l,g)) :
    runSteps (step move) (as.map (fun a => (t,a))) s =
      some (es.map (fun e => (t,e)),⟨g,Function.update s.loc t l⟩) := by
  induction as generalizing s es with
  | nil =>
    cases h
    simp [runSteps]
  | cons a as ih =>
    simp only [soloRun,Option.bind_eq_bind,Option.bind_eq_some_iff] at h
    obtain ⟨⟨e,l₁,g₁⟩,hmove,⟨es',l₂,g₂⟩,hrest,heq⟩ := h
    cases heq
    have hnext := @ih ⟨g₁,Function.update s.loc t l₁⟩ es' (by simpa using hrest)
    simp only [List.map_cons,runSteps,step,hmove,Option.map_some,Option.bind_eq_bind,
      Option.bind_some]
    rw [hnext]
    simp

end Threads

end InkDB
