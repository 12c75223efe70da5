import InkDB.Exec

/-!
Ways to reason about a program without running it: what a computation notes down
before undefined behaviour or without it, triples that rule undefined behaviour
out, and views of the state through which a program is another program.
-/

set_option autoImplicit false

namespace InkDB

/-! Undefined behaviour -/

/-- A value or a panic. -/
def Exec.Defined {α : Type} (x : Exec α) : Prop := x ≠ .error .undefinedBehaviour

section Defined
variable {α β : Type}

theorem Exec.defined_ok (a : α) : Exec.Defined (.ok a) := by
  intro h
  cases h

theorem Exec.defined_panic (x : Panic) : Exec.Defined (.error (.panic x) : Exec α) := by
  intro h
  cases h

theorem Exec.Defined.bind {x : Exec α} (hx : x.Defined) {f : α → Exec β}
    (hf : ∀ a, x = .ok a → Exec.Defined (f a)) : Exec.Defined (x >>= f) := by
  cases x with
  | error e =>
    intro h
    cases h
    exact hx rfl
  | ok a => exact hf a rfl

theorem Exec.Defined.map {x : Exec α} (hx : x.Defined) (f : α → β) :
    Exec.Defined (x.map f) := by
  cases x with
  | error e =>
    intro h
    cases h
    exact hx rfl
  | ok a => exact Exec.defined_ok _

theorem assert_defined (c : Prop) [Decidable c] : (assert c).Defined := by
  unfold assert
  split
  · exact Exec.defined_ok ()
  · exact Exec.defined_panic _

theorem debugAssert_defined (b : Build) (c : Prop) [Decidable c] : (debugAssert b c).Defined := by
  cases b with
  | debug => exact assert_defined c
  | release => exact Exec.defined_ok ()

theorem debugAssert_release (c : Prop) [Decidable c] : debugAssert .release c = .ok () := rfl

theorem usizeSub_defined (b : Build) (x y : Nat) : (usizeSub b x y).Defined := by
  unfold usizeSub
  split
  · exact Exec.defined_ok _
  · cases b with
    | debug => exact Exec.defined_panic _
    | release => exact Exec.defined_ok _

end Defined

/-! Notes -/

namespace Logged
section Safe
variable {ν α β : Type} {P : ν → Prop} {m : Logged ν α}

/-- What is noted meets `P`, and the computation is not undefined. -/
def Safe (P : ν → Prop) (m : Logged ν α) : Prop := (∀ v ∈ m.notes, P v) ∧ m.result.Defined

theorem safe_pure (a : α) : Safe P (pure a) := ⟨List.forall_mem_nil P,Exec.defined_ok a⟩

theorem safe_lift_iff (x : Exec α) : Safe P (lift x) ↔ x.Defined :=
  and_iff_right (List.forall_mem_nil P)

theorem safe_bind_iff {a : α} (h : m.result = .ok a) (f : α → Logged ν β) :
    Safe P (m >>= f) ↔ (∀ v ∈ m.notes, P v) ∧ Safe P (f a) := by
  rw [Safe,bind_ok h,List.forall_mem_append,and_assoc]
  rfl

theorem safe_bind_error_iff {x : Fault} (h : m.result = .error x) (f : α → Logged ν β) :
    Safe P (m >>= f) ↔ (∀ v ∈ m.notes, P v) ∧ Exec.Defined (.error x : Exec β) := by
  rw [Safe,bind_error h]

theorem safe_bind_panic {x : Panic} (h : m.result = .error (.panic x)) (hnotes : m.notes = [])
    (f : α → Logged ν β) : Safe P (m >>= f) := by
  rw [safe_bind_error_iff h,hnotes]
  exact ⟨List.forall_mem_nil P,Exec.defined_panic x⟩

theorem not_safe_bind_undefined (h : m.result = .error .undefinedBehaviour)
    (f : α → Logged ν β) : ¬ Safe P (m >>= f) := by
  rw [safe_bind_error_iff h]
  exact fun hsafe => hsafe.2 rfl

theorem safe_bind_pure_iff (g : α → β) : Safe P (m >>= fun a => pure (g a)) ↔ Safe P m := by
  cases hm : m.result with
  | error x =>
    rw [safe_bind_error_iff hm,Safe,hm]
    exact and_congr_right fun _ => ⟨fun h hx => h (by cases hx; rfl),
      fun h hx => h (by cases hx; rfl)⟩
  | ok a =>
    have hdef : m.result.Defined := hm ▸ Exec.defined_ok a
    rw [safe_bind_iff hm]
    exact and_congr_right fun _ => iff_of_true (safe_pure _) hdef

end Safe
end Logged

namespace Prog

/-! Triples -/

section Triples
variable {σ ε α β : Type} {b : Build} {P Q R : σ → Prop}

/-- From a state in `P` a call has no undefined behaviour, and when it returns it
leaves a state in `Q`. -/
def Sound (b : Build) (P : σ → Prop) (m : Prog σ ε α) (Q : σ → Prop) : Prop :=
  ∀ s, P s → (m.run b s).Defined ∧ ∀ r s', m.run b s = .ok (r,s') → Q s'

theorem sound_pure (h : ∀ s, P s → Q s) (a : α) : Sound b P (pure a : Prog σ ε α) Q :=
  fun s hs => ⟨Exec.defined_ok _,fun r s' hrun => ensures_pure h a s r s' hs hrun⟩

theorem sound_err (h : ∀ s, P s → Q s) (e : ε) : Sound b P (err e : Prog σ ε α) Q :=
  fun s hs => ⟨Exec.defined_ok _,fun r s' hrun => ensures_err h e s r s' hs hrun⟩

theorem sound_modify {g : σ → σ} (h : ∀ s, P s → Q (g s)) :
    Sound b P (modify g : Prog σ ε Unit) Q :=
  fun s hs => ⟨Exec.defined_ok _,fun r s' hrun => ensures_modify h s r s' hs hrun⟩

theorem Sound.mono {m : Prog σ ε α} (h : Sound b P m Q) (hR : ∀ s, R s → P s) :
    Sound b R m Q := fun s hs => h s (hR s hs)

theorem sound_of {φ : Prop} {m : Prog σ ε α} (hφ : ∀ s, P s → φ) (h : φ → Sound b P m Q) :
    Sound b P m Q := fun s hs => h (hφ s hs) s hs

theorem sound_bind {m : Prog σ ε α} {f : α → Prog σ ε β} (hm : Sound b P m R)
    (herr : ∀ s, R s → Q s) (hf : ∀ a, Sound b R (f a) Q) : Sound b P (m >>= f) Q := by
  intro s hs
  obtain ⟨hdef,hpost⟩ := hm s hs
  rw [run_bind]
  rcases hrun : m.run b s with x | ⟨e | a,s₁⟩
  · rw [hrun] at hdef
    refine ⟨?_,fun r s' h => by cases h⟩
    intro h
    cases h
    exact hdef rfl
  · refine ⟨Exec.defined_ok _,fun r s' h => ?_⟩
    cases h
    exact herr _ (hpost _ _ hrun)
  · exact hf a s₁ (hpost _ _ hrun)

theorem sound_reads_bind {g : σ → α} {f : α → Prog σ ε β}
    (h : ∀ v, Sound b (fun s => P s ∧ g s = v) (f v) Q) : Sound b P (reads g >>= f) Q :=
  fun s hs => h (g s) s ⟨hs,rfl⟩

theorem sound_call_bind {x : Build → Exec α} {f : α → Prog σ ε β} (hx : (x b).Defined)
    (h : ∀ a, x b = .ok a → Sound b P (f a) Q) : Sound b P (call x >>= f) Q := by
  intro s hs
  cases hr : x b with
  | error e =>
    rw [call_bind_fault hr]
    refine ⟨?_,fun r s' h => by cases h⟩
    intro h
    cases h
    exact hx hr
  | ok a =>
    rw [call_bind hr]
    exact h a hr s hs

theorem sound_poke_bind {g : σ → Exec σ} {f : Unit → Prog σ ε β}
    (hg : ∀ s, P s → ∃ s', g s = .ok s' ∧ R s') (hf : Sound b R (f ()) Q) :
    Sound b P (poke g >>= f) Q := by
  intro s hs
  obtain ⟨s₁,h₁,hR⟩ := hg s hs
  rw [poke_bind h₁]
  exact hf s₁ hR

theorem sound_runAll {ι : Type} {I : σ → Prop} {exec : ι → Prog σ ε α} {b : Build}
    (h : ∀ i, Sound b I (exec i) I) (ops : List ι) {s : σ} (hs : I s) :
    (runAll (ops.map exec) b s).Defined := by
  induction ops generalizing s with
  | nil => exact Exec.defined_ok _
  | cons i ops ih =>
    obtain ⟨hdef,hpost⟩ := h i s hs
    refine hdef.bind fun r hr => (ih (hpost r.1 r.2 hr)).bind fun _ _ => Exec.defined_ok _

end Triples

/-! Faults -/

section Faults
variable {σ ε α β : Type} {b : Build} {s : σ} {x : Fault}

theorem poke_bind_fault {g : σ → Exec σ} (h : g s = .error x) (f : Unit → Prog σ ε β) :
    (poke g >>= f).run b s = .error x := by
  apply bind_fault
  simp only [poke,h]
  rfl

theorem runAll_fault {m : Prog σ ε α} (h : m.run b s = .error x) (ms : List (Prog σ ε α)) :
    runAll (m :: ms) b s = .error x := by
  simp only [runAll,h]
  rfl

theorem runAll_fault_later {m : Prog σ ε α} {ms : List (Prog σ ε α)} {r : Except ε α} {s' : σ}
    (h : m.run b s = .ok (r,s')) (hms : runAll ms b s' = .error x) :
    runAll (m :: ms) b s = .error x := by
  simp only [runAll,h,Exec.ok_bind,hms]
  rfl

end Faults

/-! Views -/

section Projections
variable {σ τ ε α β ι : Type} {f : σ → τ}

/-- Seen through `f`, a program on `σ` is a program on `τ`: the same faults, the
same answers and the same changes. -/
def Mirrors (f : σ → τ) (m : Prog σ ε α) (m' : Prog τ ε α) : Prop :=
  ∀ b s, (m.run b s).map (fun r => (r.1,f r.2)) = m'.run b (f s)

theorem mirrors_pure (a : α) : Mirrors f (pure a : Prog σ ε α) (pure a) := fun _ _ => rfl

theorem mirrors_err (e : ε) : Mirrors f (err e : Prog σ ε α) (err e) := fun _ _ => rfl

theorem mirrors_modify {g : σ → σ} {g' : τ → τ} (h : ∀ s, f (g s) = g' (f s)) :
    Mirrors f (modify g : Prog σ ε Unit) (modify g') := by
  intro b s
  show Except.ok (_,f (g s)) = .ok (_,g' (f s))
  rw [h]

theorem mirrors_reads_bind {g : σ → α} {g' : τ → α} (hg : ∀ s, g s = g' (f s))
    {k : α → Prog σ ε β} {k' : α → Prog τ ε β} (h : ∀ a, Mirrors f (k a) (k' a)) :
    Mirrors f (reads g >>= k) (reads g' >>= k') := by
  intro b s
  rw [reads_bind,reads_bind,← hg s]
  exact h (g s) b s

theorem mirrors_call_bind (x : Build → Exec α) {k : α → Prog σ ε β} {k' : α → Prog τ ε β}
    (h : ∀ a, Mirrors f (k a) (k' a)) : Mirrors f (call x >>= k) (call x >>= k') := by
  intro b s
  cases hx : x b with
  | error e =>
    rw [call_bind_fault hx,call_bind_fault hx]
    rfl
  | ok a =>
    rw [call_bind hx,call_bind hx]
    exact h a b s

theorem mirrors_bind {m : Prog σ ε α} {m' : Prog τ ε α} (hm : Mirrors f m m')
    {k : α → Prog σ ε β} {k' : α → Prog τ ε β} (h : ∀ a, Mirrors f (k a) (k' a)) :
    Mirrors f (m >>= k) (m' >>= k') := by
  intro b s
  have hs := hm b s
  rw [run_bind,run_bind,← hs]
  rcases m.run b s with x | ⟨e | a,s₁⟩
  · rfl
  · rfl
  · exact h a b s₁

theorem mirrors_ite {c : Prop} [Decidable c] {m n : Prog σ ε α} {m' n' : Prog τ ε α}
    (hm : Mirrors f m m') (hn : Mirrors f n n') :
    Mirrors f (if c then m else n) (if c then m' else n') := by
  split
  · exact hm
  · exact hn

theorem runAll_mirrors {exec : ι → Prog σ ε α} {spec : ι → Prog τ ε α}
    (h : ∀ i, Mirrors f (exec i) (spec i)) (ops : List ι) (b : Build) (s : σ) :
    (runAll (ops.map exec) b s).map (fun r => (r.1,f r.2)) =
      runAll (ops.map spec) b (f s) := by
  induction ops generalizing s with
  | nil => rfl
  | cons i ops ih =>
    have hs := h i b s
    simp only [List.map_cons,runAll]
    rw [← hs]
    rcases (exec i).run b s with x | ⟨r,s₁⟩
    · rfl
    · have hrest := ih s₁
      simp only [Except.map,Exec.ok_bind]
      rw [← hrest]
      rcases runAll (ops.map exec) b s₁ with x | ⟨rs,s₂⟩
      · rfl
      · rfl

end Projections

end Prog

end InkDB
