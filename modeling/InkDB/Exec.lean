import Mathlib

/-!
Outcomes of Rust code and programs over a mutable state. A call ends with a
value, with a panic, or in undefined behaviour; a `Result` is a value like any
other, so an `Err` keeps the state that the call left behind.
-/

set_option autoImplicit false

namespace InkDB

/-- The cargo profile decides debug assertions and arithmetic overflow checks. -/
inductive Build where
  | debug | release
  deriving DecidableEq, Repr

inductive Panic where
  | assertion | overflow | sliceIndex
  deriving DecidableEq, Repr

inductive Fault where
  | panic : Panic → Fault
  | undefinedBehaviour : Fault
  deriving DecidableEq, Repr

abbrev Exec := Except Fault

def assert (c : Prop) [Decidable c] : Exec Unit :=
  if c then pure () else throw (.panic .assertion)

def debugAssert (b : Build) (c : Prop) [Decidable c] : Exec Unit :=
  match b with
  | .debug => assert c
  | .release => pure ()

/-- `x - y` on a 64-bit `usize`. -/
def usizeSub (b : Build) (x y : Nat) : Exec Nat :=
  if y ≤ x then pure (x-y) else
    match b with
    | .debug => throw (.panic .overflow)
    | .release => pure (x+2^64-y)

theorem assert_of {c : Prop} [Decidable c] (h : c) : assert c = .ok () := if_pos h

theorem assert_of_not {c : Prop} [Decidable c] (h : ¬ c) :
    assert c = .error (.panic .assertion) := if_neg h

theorem debugAssert_of (b : Build) {c : Prop} [Decidable c] (h : c) :
    debugAssert b c = .ok () := by
  cases b with
  | debug => exact assert_of h
  | release => rfl

theorem usizeSub_of_le (b : Build) {x y : Nat} (h : y ≤ x) :
    usizeSub b x y = .ok (x-y) := if_pos h

theorem usizeSub_of_lt (b : Build) {x y : Nat} (h : x < y) :
    usizeSub b x y =
      match b with
      | .debug => .error (.panic .overflow)
      | .release => .ok (x+2^64-y) := if_neg (Nat.not_le.mpr h)

@[simp] theorem Exec.ok_bind {α β : Type} (a : α) (f : α → Exec β) :
    (Except.ok a >>= f : Exec β) = f a := rfl

@[simp] theorem Exec.error_bind {α β : Type} (x : Fault) (f : α → Exec β) :
    (Except.error x >>= f : Exec β) = .error x := rfl

@[simp] theorem Exec.pure_eq {α : Type} (a : α) : (pure a : Exec α) = .ok a := rfl

theorem Exec.bind_eq_ok {α β : Type} {x : Exec α} {f : α → Exec β} {r : β} :
    x >>= f = .ok r ↔ ∃ a, x = .ok a ∧ f a = .ok r := by
  cases x with
  | error e =>
    refine ⟨fun h => ?_,fun h => ?_⟩
    · cases h
    · obtain ⟨a,ha,-⟩ := h
      cases ha
  | ok a =>
    refine ⟨fun h => ⟨a,rfl,h⟩,fun h => ?_⟩
    obtain ⟨a',ha,h⟩ := h
    cases ha
    exact h

/-- Two computations that look alike through a view continue alike when the rest
only uses the view. -/
theorem Exec.bind_congr_map {α β γ : Type} {x y : Exec α} {f : α → γ} (h : x.map f = y.map f)
    (rest : γ → Exec β) : (x >>= fun a => rest (f a)) = (y >>= fun a => rest (f a)) := by
  cases x with
  | error e =>
    cases y with
    | error e' => cases h; rfl
    | ok a' => cases h
  | ok a =>
    cases y with
    | error e' => cases h
    | ok a' => exact congrArg rest (Except.ok.inj h)

/-- The first answer of a loop body over a list. -/
def firstSome {α β : Type} (body : α → Exec (Option β)) : List α → Exec (Option β)
  | [] => pure none
  | a :: as => do
      match ← body a with
      | some r => pure (some r)
      | none => firstSome body as

theorem firstSome_ok {α β γ : Type} {body : α → Exec (Option β)} {g : γ → Option β}
    {as : List α} {cs : List γ} (h : List.Forall₂ (fun a c => body a = .ok (g c)) as cs) :
    firstSome body as = .ok (cs.findSome? g) := by
  induction h with
  | nil => rfl
  | @cons a c as cs hac _ ih =>
    rw [firstSome,hac,Exec.ok_bind,List.findSome?_cons]
    cases hg : g c with
    | none => exact ih
    | some r => rfl

theorem firstSome_congr {α β : Type} {body body' : α → Exec (Option β)} {as : List α}
    (h : ∀ a ∈ as, body a = body' a) : firstSome body as = firstSome body' as := by
  induction as with
  | nil => rfl
  | cons a as ih =>
    rw [firstSome,firstSome,h a (by simp),ih (fun x hx => h x (by simp [hx]))]

theorem mapM_ok {α β : Type} {f : α → Exec β} {as : List α} {bs : List β}
    (h : List.Forall₂ (fun a b => f a = .ok b) as bs) : as.mapM f = .ok bs := by
  induction h with
  | nil => rfl
  | @cons a b as bs hab _ ih =>
    rw [List.mapM_cons,hab,Exec.ok_bind,ih]
    rfl

/-- A computation that notes things down on its way. What was noted before a
fault stays. -/
structure Logged (ν α : Type) where
  notes : List ν
  result : Exec α

namespace Logged
variable {ν α β : Type}

instance : Monad (Logged ν) where
  pure a := ⟨[],.ok a⟩
  bind m f :=
    match m.result with
    | .error x => ⟨m.notes,.error x⟩
    | .ok a => ⟨m.notes ++ (f a).notes,(f a).result⟩

def lift (x : Exec α) : Logged ν α := ⟨[],x⟩

def note (v : ν) : Logged ν Unit := ⟨[v],.ok ()⟩

@[simp] theorem result_lift (x : Exec α) : (lift x : Logged ν α).result = x := rfl

theorem result_bind (m : Logged ν α) (f : α → Logged ν β) :
    (m >>= f).result = m.result >>= fun a => (f a).result := by
  show (match m.result with
    | .error x => (⟨m.notes,.error x⟩ : Logged ν β)
    | .ok a => ⟨m.notes ++ (f a).notes,(f a).result⟩).result = _
  cases m.result with
  | error x => rfl
  | ok a => rfl

theorem bind_ok {m : Logged ν α} {a : α} (h : m.result = .ok a) (f : α → Logged ν β) :
    m >>= f = ⟨m.notes ++ (f a).notes,(f a).result⟩ := by
  show (match m.result with
    | .error x => (⟨m.notes,.error x⟩ : Logged ν β)
    | .ok a => ⟨m.notes ++ (f a).notes,(f a).result⟩) = _
  rw [h]

theorem bind_error {m : Logged ν α} {x : Fault} (h : m.result = .error x)
    (f : α → Logged ν β) : m >>= f = ⟨m.notes,.error x⟩ := by
  show (match m.result with
    | .error x => (⟨m.notes,.error x⟩ : Logged ν β)
    | .ok a => ⟨m.notes ++ (f a).notes,(f a).result⟩) = _
  rw [h]

theorem lift_bind {x : Exec α} {a : α} (h : x = .ok a) (f : α → Logged ν β) :
    lift x >>= f = f a := by
  rw [bind_ok (m := lift x) h]
  rfl

theorem lift_bind_error {x : Exec α} {e : Fault} (h : x = .error e) (f : α → Logged ν β) :
    lift x >>= f = ⟨[],.error e⟩ := bind_error h f

end Logged

/-- A method on `&mut self` whose state is `σ` and whose error type is `ε`. -/
structure Prog (σ ε α : Type) where
  run : Build → σ → Exec (Except ε α × σ)

namespace Prog

section Rules
variable {σ ε α β : Type}

instance : Monad (Prog σ ε) where
  pure a := ⟨fun _ s => .ok (.ok a,s)⟩
  bind m f := ⟨fun b s =>
    match m.run b s with
    | .error x => .error x
    | .ok (.error e,s') => .ok (.error e,s')
    | .ok (.ok a,s') => (f a).run b s'⟩

/-- `return Err(e)`. -/
def err (e : ε) : Prog σ ε α := ⟨fun _ s => .ok (.error e,s)⟩

def get : Prog σ ε σ := ⟨fun _ s => .ok (.ok s,s)⟩

def reads (f : σ → α) : Prog σ ε α := ⟨fun _ s => .ok (.ok (f s),s)⟩

def modify (f : σ → σ) : Prog σ ε Unit := ⟨fun _ s => .ok (.ok (),f s)⟩

/-- An outcome computed without touching the state. -/
def call (x : Build → Exec α) : Prog σ ε α := ⟨fun b s => (x b).map (fun a => (.ok a,s))⟩

/-- A write through a raw pointer into the state. -/
def poke (f : σ → Exec σ) : Prog σ ε Unit := ⟨fun _ s => (f s).map (fun s' => (.ok (),s'))⟩

/-- The `?` operator across error types, through `From`. -/
def mapErr {ε' : Type} (f : ε → ε') (m : Prog σ ε α) : Prog σ ε' α :=
  ⟨fun b s => (m.run b s).map (fun r => (r.1.mapError f,r.2))⟩

@[simp] theorem run_pure (a : α) (b : Build) (s : σ) :
    (pure a : Prog σ ε α).run b s = .ok (.ok a,s) := rfl

@[simp] theorem run_err (e : ε) (b : Build) (s : σ) :
    (err e : Prog σ ε α).run b s = .ok (.error e,s) := rfl

theorem run_bind (m : Prog σ ε α) (f : α → Prog σ ε β) (b : Build) (s : σ) :
    (m >>= f).run b s =
      match m.run b s with
      | .error x => .error x
      | .ok (.error e,s') => .ok (.error e,s')
      | .ok (.ok a,s') => (f a).run b s' := rfl

theorem bind_ok {m : Prog σ ε α} {b : Build} {s s' : σ} {a : α}
    (h : m.run b s = .ok (.ok a,s')) (f : α → Prog σ ε β) :
    (m >>= f).run b s = (f a).run b s' := by
  rw [run_bind,h]

theorem bind_err {m : Prog σ ε α} {b : Build} {s s' : σ} {e : ε}
    (h : m.run b s = .ok (.error e,s')) (f : α → Prog σ ε β) :
    (m >>= f).run b s = .ok (.error e,s') := by
  rw [run_bind,h]

theorem bind_fault {m : Prog σ ε α} {b : Build} {s : σ} {x : Fault} (h : m.run b s = .error x)
    (f : α → Prog σ ε β) : (m >>= f).run b s = .error x := by
  rw [run_bind,h]

@[simp] theorem get_bind (f : σ → Prog σ ε β) (b : Build) (s : σ) :
    (get >>= f).run b s = (f s).run b s := rfl

@[simp] theorem reads_bind (g : σ → α) (f : α → Prog σ ε β) (b : Build) (s : σ) :
    (reads g >>= f).run b s = (f (g s)).run b s := rfl

@[simp] theorem modify_bind (g : σ → σ) (f : Unit → Prog σ ε β) (b : Build) (s : σ) :
    (modify g >>= f).run b s = (f ()).run b (g s) := rfl

@[simp] theorem run_modify (g : σ → σ) (b : Build) (s : σ) :
    (modify g : Prog σ ε Unit).run b s = .ok (.ok (),g s) := rfl

theorem call_bind {x : Build → Exec α} {b : Build} {a : α} (h : x b = .ok a)
    (f : α → Prog σ ε β) (s : σ) : (call x >>= f).run b s = (f a).run b s := by
  apply bind_ok
  simp only [call,h]
  rfl

theorem call_bind_fault {x : Build → Exec α} {b : Build} {e : Fault} (h : x b = .error e)
    (f : α → Prog σ ε β) (s : σ) : (call x >>= f).run b s = .error e := by
  apply bind_fault
  simp only [call,h]
  rfl

/-- When the sequence returns, so did the call. -/
theorem call_bind_eq_ok {x : Build → Exec α} {f : α → Prog σ ε β} {b : Build} {s s' : σ}
    {r : Except ε β} (h : (call x >>= f).run b s = .ok (r,s')) :
    ∃ a, x b = .ok a ∧ (f a).run b s = .ok (r,s') := by
  cases hx : x b with
  | error e =>
    rw [call_bind_fault hx] at h
    cases h
  | ok a =>
    rw [call_bind hx] at h
    exact ⟨a,rfl,h⟩

theorem poke_bind {g : σ → Exec σ} {s s' : σ} (h : g s = .ok s')
    (f : Unit → Prog σ ε β) (b : Build) : (poke g >>= f).run b s = (f ()).run b s' := by
  apply bind_ok
  simp only [poke,h]
  rfl

theorem run_mapErr {ε' : Type} (f : ε → ε') {m : Prog σ ε α} {b : Build} {s s' : σ}
    {r : Except ε α} (h : m.run b s = .ok (r,s')) :
    (m.mapErr f).run b s = .ok (r.mapError f,s') := by
  simp only [mapErr,h]
  rfl

end Rules

section Postconditions
variable {σ ε α β : Type} {b : Build} {P Q R : σ → Prop}

/-- When a call returns from a state in `P`, with whatever answer, it leaves a
state in `Q`. -/
def Ensures (b : Build) (P : σ → Prop) (m : Prog σ ε α) (Q : σ → Prop) : Prop :=
  ∀ s r s', P s → m.run b s = .ok (r,s') → Q s'

theorem ensures_pure (h : ∀ s, P s → Q s) (a : α) : Ensures b P (pure a : Prog σ ε α) Q := by
  intro s r s' hs hrun
  cases hrun
  exact h s hs

theorem ensures_err (h : ∀ s, P s → Q s) (e : ε) : Ensures b P (err e : Prog σ ε α) Q := by
  intro s r s' hs hrun
  cases hrun
  exact h s hs

theorem ensures_modify {g : σ → σ} (h : ∀ s, P s → Q (g s)) :
    Ensures b P (modify g : Prog σ ε Unit) Q := by
  intro s r s' hs hrun
  cases hrun
  exact h s hs

theorem ensures_mapErr {ε' : Type} {m : Prog σ ε α} (h : Ensures b P m Q) (f : ε → ε') :
    Ensures b P (m.mapErr f) Q := by
  intro s r s' hs hrun
  cases hm : m.run b s with
  | error x =>
    simp only [mapErr,hm] at hrun
    cases hrun
  | ok rs =>
    simp only [mapErr,hm] at hrun
    cases hrun
    exact h s rs.1 rs.2 hs hm

theorem Ensures.mono {m : Prog σ ε α} (h : Ensures b P m Q) (hR : ∀ s, R s → P s) :
    Ensures b R m Q := fun s r s' hs hrun => h s r s' (hR s hs) hrun

/-- What a precondition says of no state in particular. -/
theorem ensures_of {φ : Prop} {m : Prog σ ε α} (hφ : ∀ s, P s → φ) (h : φ → Ensures b P m Q) :
    Ensures b P m Q := fun s r s' hs hrun => h (hφ s hs) s r s' hs hrun

/-- An error of the first call ends the second. -/
theorem ensures_bind {m : Prog σ ε α} {f : α → Prog σ ε β} (hm : Ensures b P m R)
    (herr : ∀ s, R s → Q s) (hf : ∀ a, Ensures b R (f a) Q) : Ensures b P (m >>= f) Q := by
  intro s r s' hs hrun
  cases h : m.run b s with
  | error x =>
    rw [bind_fault h] at hrun
    cases hrun
  | ok rs =>
    obtain ⟨r₁,s₁⟩ := rs
    have hR := hm s r₁ s₁ hs h
    cases r₁ with
    | error e =>
      rw [bind_err h] at hrun
      cases hrun
      exact herr _ hR
    | ok a =>
      rw [bind_ok h] at hrun
      exact hf a s₁ r s' hR hrun

theorem ensures_reads_bind {g : σ → α} {f : α → Prog σ ε β}
    (h : ∀ v, Ensures b (fun s => P s ∧ g s = v) (f v) Q) : Ensures b P (reads g >>= f) Q :=
  fun s r s' hs hrun => h (g s) s r s' ⟨hs,rfl⟩ hrun

theorem ensures_call_bind {x : Build → Exec α} {f : α → Prog σ ε β}
    (h : ∀ a, x b = .ok a → Ensures b P (f a) Q) : Ensures b P (call x >>= f) Q := by
  intro s r s' hs hrun
  obtain ⟨a,hx,hrun⟩ := call_bind_eq_ok hrun
  exact h a hx s r s' hs hrun

theorem ensures_poke_bind {g : σ → Exec σ} {f : Unit → Prog σ ε β}
    (hg : ∀ s s', P s → g s = .ok s' → R s') (hf : Ensures b R (f ()) Q) :
    Ensures b P (poke g >>= f) Q := by
  intro s r s' hs hrun
  cases hx : g s with
  | error e =>
    have hpoke : (poke g : Prog σ ε Unit).run b s = .error e := by
      simp only [poke,hx]
      rfl
    rw [bind_fault hpoke] at hrun
    cases hrun
  | ok s₁ =>
    rw [poke_bind hx] at hrun
    exact hf s₁ r s' (hg s s₁ hs hx) hrun

end Postconditions

section Runs
variable {σ ε α ι τ ρ : Type}

/-- A sequence of calls. An `Err` is recorded and the next call is made; a
fault ends the run. -/
def runAll : List (Prog σ ε α) → Build → σ → Exec (List (Except ε α) × σ)
  | [], _, s => .ok ([],s)
  | m :: ms, b, s => do
      let (r,s) ← m.run b s
      let (rs,s) ← runAll ms b s
      pure (r :: rs,s)

theorem runAll_cons {m : Prog σ ε α} {ms : List (Prog σ ε α)} {b : Build} {s s' : σ}
    {rs : List (Except ε α)} (h : runAll (m :: ms) b s = .ok (rs,s')) :
    ∃ r s₁ rs', m.run b s = .ok (r,s₁) ∧ runAll ms b s₁ = .ok (rs',s') ∧ rs = r :: rs' := by
  rw [runAll,Exec.bind_eq_ok] at h
  obtain ⟨⟨r,s₁⟩,hm,h⟩ := h
  rw [Exec.bind_eq_ok] at h
  obtain ⟨⟨rs',s₂⟩,hms,h⟩ := h
  cases h
  exact ⟨r,s₁,rs',hm,hms,rfl⟩

/-- What every call of a run keeps, the run keeps. -/
theorem runAll_invariant {I : σ → Prop} {exec : ι → Prog σ ε α} {b : Build}
    (h : ∀ i, Ensures b I (exec i) I) {ops : List ι} {s s' : σ} {rs : List (Except ε α)}
    (hs : I s) (hrun : runAll (ops.map exec) b s = .ok (rs,s')) : I s' := by
  induction ops generalizing s rs with
  | nil =>
    cases hrun
    exact hs
  | cons i ops ih =>
    obtain ⟨r,s₁,rs',hop,hrest,-⟩ := runAll_cons hrun
    exact ih (h i s r s₁ hs hop) hrest

/-- The same sequence on an abstract machine that cannot fault. -/
def trace (step : ι → τ → ρ × τ) : List ι → τ → List ρ × τ
  | [], t => ([],t)
  | i :: is, t =>
      let next := trace step is (step i t).2
      ((step i t).1 :: next.1,next.2)

/-- What a step of the abstract machine computes of its state and its answer,
a whole run computes by folding over the answers. -/
theorem trace_foldl {κ : Type} (step : ι → τ → ρ × τ) (view : τ → κ) (f : κ → ι × ρ → κ)
    (h : ∀ i t, view (step i t).2 = f (view t) (i,(step i t).1)) (is : List ι) (t : τ) :
    view (trace step is t).2 = (is.zip (trace step is t).1).foldl f (view t) := by
  induction is generalizing t with
  | nil => rfl
  | cons i is ih =>
    simp only [trace,List.zip_cons_cons,List.foldl_cons]
    rw [ih,h]

/-- The same for a part of the state that the answers do not matter to. -/
theorem trace_view {κ : Type} (step : ι → τ → ρ × τ) (view : τ → κ) (f : κ → ι → κ)
    (is : List ι) (h : ∀ i ∈ is, ∀ t, view (step i t).2 = f (view t) i) (t : τ) :
    view (trace step is t).2 = is.foldl f (view t) := by
  induction is generalizing t with
  | nil => rfl
  | cons i is ih =>
    simp only [trace,List.foldl_cons]
    rw [ih (fun j hj => h j (by simp [hj])),h i (by simp)]

/-- A part of a folded state, folded on its own. -/
theorem foldl_view {κ : Type} (view : τ → κ) (step : τ → ι → τ) (f : κ → ι → κ) (is : List ι)
    (h : ∀ i ∈ is, ∀ t, view (step t i) = f (view t) i) (t : τ) :
    view (is.foldl step t) = is.foldl f (view t) := by
  induction is generalizing t with
  | nil => rfl
  | cons i is ih =>
    simp only [List.foldl_cons]
    rw [ih (fun j hj => h j (by simp [hj])),h i (by simp)]

/-- Forward simulation: when every call answers as the abstract step does and
keeps the relation, so does every run. -/
theorem runAll_simulates (R : σ → τ → Prop) (exec : ι → Prog σ ε α)
    (step : ι → τ → Except ε α × τ) (b : Build) (ops : List ι)
    (h : ∀ i ∈ ops, ∀ s t, R s t →
      ∃ s', (exec i).run b s = .ok ((step i t).1,s') ∧ R s' (step i t).2)
    (s : σ) (t : τ) (hr : R s t) :
    ∃ s', runAll (ops.map exec) b s = .ok ((trace step ops t).1,s') ∧
      R s' (trace step ops t).2 := by
  induction ops generalizing s t with
  | nil => exact ⟨s,rfl,hr⟩
  | cons i is ih =>
    obtain ⟨s₁,h₁,hr₁⟩ := h i (by simp) s t hr
    obtain ⟨s₂,h₂,hr₂⟩ := ih (fun j hj => h j (by simp [hj])) s₁ (step i t).2 hr₁
    refine ⟨s₂,?_,hr₂⟩
    simp only [List.map_cons,runAll,h₁,Exec.ok_bind,h₂,trace]
    rfl

end Runs

end Prog

end InkDB
