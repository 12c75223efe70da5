import InkDB.Exec
import InkDB.Refinement

/-!
A value behind a reader-writer lock that a panic poisons. Readers look at the
value, a writer changes it call by call. What readers see, and what writers have
done when they let go, is what they would have seen and done one after another.
-/

set_option autoImplicit false

namespace InkDB

structure RwLock (G : Type) where
  value : G
  readers : Nat
  writer : Bool
  poisoned : Bool

/-- Where a thread stands; a writer with the calls it has made under its guard. -/
inductive RwLoc (ι ρ : Type) where
  | outside
  | reading
  | writing (calls : List (ι × ρ))
  | panicked

inductive RwAction (ι : Type) where
  | read
  | write
  | observe
  | apply (op : ι)
  | drop

inductive RwEvent (G ι ρ : Type) where
  | acquired
  | refused
  | observed (value : G)
  | applied (op : ι) (answer : ρ)
  | faulted (op : ι)
  | released
  | committed (calls : List (ι × ρ))

section Moves
variable {G ι ρ : Type}

/-- A guard that cannot be had yet makes a thread wait. A poisoned lock is
refused. A call that panics poisons it and leaves the value half changed, as
`left` has it. A run ends before undefined behaviour. -/
def rwMove (exec : ι → G → Exec (ρ × G)) (left : ι → G → G) : RwAction ι → RwLoc ι ρ →
    RwLock G → Option (RwEvent G ι ρ × RwLoc ι ρ × RwLock G)
  | .read, .outside, l =>
      if l.writer then none
      else if l.poisoned then some (.refused,.panicked,l)
      else some (.acquired,.reading,{ l with readers := l.readers+1 })
  | .write, .outside, l =>
      if l.writer || l.readers != 0 then none
      else if l.poisoned then some (.refused,.panicked,l)
      else some (.acquired,.writing [],{ l with writer := true })
  | .observe, .reading, l => some (.observed l.value,.reading,l)
  | .apply op, .writing calls, l =>
      match exec op l.value with
      | .error .undefinedBehaviour => none
      | .error (.panic _) =>
          some (.faulted op,.panicked,
            { l with value := left op l.value, writer := false, poisoned := true })
      | .ok (answer,value) =>
          some (.applied op answer,.writing (calls ++ [(op,answer)]),{ l with value := value })
  | .drop, .reading, l => some (.released,.outside,{ l with readers := l.readers-1 })
  | .drop, .writing calls, l => some (.committed calls,.outside,{ l with writer := false })
  | _, _, _ => none

inductive RwMove (exec : ι → G → Exec (ρ × G)) (left : ι → G → G) : RwAction ι → RwLoc ι ρ →
    RwLock G → RwEvent G ι ρ → RwLoc ι ρ → RwLock G → Prop where
  | read {l : RwLock G} (hw : l.writer = false) (hp : l.poisoned = false) :
      RwMove exec left .read .outside l .acquired .reading { l with readers := l.readers+1 }
  | write {l : RwLock G} (hw : l.writer = false) (hr : l.readers = 0) (hp : l.poisoned = false) :
      RwMove exec left .write .outside l .acquired (.writing []) { l with writer := true }
  | refuse {l : RwLock G} {a : RwAction ι} (hw : l.writer = false) (hp : l.poisoned = true) :
      RwMove exec left a .outside l .refused .panicked l
  | observe {l : RwLock G} : RwMove exec left .observe .reading l (.observed l.value) .reading l
  | fault {l : RwLock G} {op : ι} {calls : List (ι × ρ)} {x : Panic}
      (he : exec op l.value = .error (.panic x)) :
      RwMove exec left (.apply op) (.writing calls) l (.faulted op) .panicked
        { l with value := left op l.value, writer := false, poisoned := true }
  | apply {l : RwLock G} {op : ι} {calls : List (ι × ρ)} {answer : ρ} {value : G}
      (he : exec op l.value = .ok (answer,value)) :
      RwMove exec left (.apply op) (.writing calls) l (.applied op answer)
        (.writing (calls ++ [(op,answer)])) { l with value := value }
  | release {l : RwLock G} :
      RwMove exec left .drop .reading l .released .outside { l with readers := l.readers-1 }
  | commit {l : RwLock G} {calls : List (ι × ρ)} :
      RwMove exec left .drop (.writing calls) l (.committed calls) .outside
        { l with writer := false }

variable {exec : ι → G → Exec (ρ × G)} {left : ι → G → G}

theorem rwMove_cases {a : RwAction ι} {loc loc' : RwLoc ι ρ} {l l' : RwLock G}
    {e : RwEvent G ι ρ} (h : rwMove exec left a loc l = some (e,loc',l')) :
    RwMove exec left a loc l e loc' l' := by
  unfold rwMove at h
  split at h
  · split at h
    · cases h
    · rename_i hw
      rw [Bool.not_eq_true] at hw
      split at h
      · cases h
        exact .refuse hw ‹_›
      · rename_i hp
        cases h
        exact .read hw (by simpa using hp)
  · split at h
    · cases h
    · rename_i hw
      simp only [Bool.or_eq_true,bne_iff_ne,ne_eq,not_or,Bool.not_eq_true,not_not] at hw
      split at h
      · cases h
        exact .refuse hw.1 ‹_›
      · rename_i hp
        cases h
        exact .write hw.1 hw.2 (by simpa using hp)
  · cases h
    exact .observe
  · split at h
    · cases h
    · cases h
      exact .fault ‹_›
    · cases h
      exact .apply ‹_›
  · cases h
    exact .release
  · cases h
    exact .commit
  · cases h

end Moves

/-! One access at a time -/

inductive SerialAction (ι : Type) where
  | observe
  | access (ops : List ι)

inductive SerialEvent (G ι ρ : Type) where
  | observed (value : G)
  | committed (calls : List (ι × ρ))

section Serial
variable {Tid G ι ρ : Type}

def serialStep (exec : ι → G → Exec (ρ × G)) (g : G) (a : Tid × SerialAction ι) :
    Option ((Tid × SerialEvent G ι ρ) × G) :=
  match a.2 with
  | .observe => some ((a.1,.observed g),g)
  | .access ops => (runSteps (fun g op => (exec op g).toOption) ops g).map
      (fun r => ((a.1,.committed (ops.zip r.1)),r.2))

/-- What of a step on the lock others learn of the value. -/
def RwEvent.shown : RwEvent G ι ρ → Option (SerialEvent G ι ρ)
  | .observed value => some (.observed value)
  | .committed calls => some (.committed calls)
  | _ => none

end Serial

/-! The simulation -/

def Did {G ι ρ : Type} (exec : ι → G → Exec (ρ × G)) (g : G) (calls : List (ι × ρ)) (v : G) :
    Prop :=
  runSteps (fun g op => (exec op g).toOption) (calls.map Prod.fst) g =
    some (calls.map Prod.snd,v)

inductive RwMode (Tid ι ρ : Type) where
  | shared (readers : Finset Tid)
  | held (t : Tid) (calls : List (ι × ρ))
  | broken

def RwLoc.Away {ι ρ : Type} : RwLoc ι ρ → Prop
  | .outside | .panicked => True
  | _ => False

/-- The lock in a mode, where finished accesses have left the value `g`. -/
def RwInv {Tid G ι ρ : Type} (exec : ι → G → Exec (ρ × G)) (s : Threads Tid (RwLoc ι ρ) (RwLock G))
    (g : G) : RwMode Tid ι ρ → Prop
  | .shared readers => s.shared = ⟨g,readers.card,false,false⟩ ∧
      ∀ t, (t ∈ readers → s.loc t = .reading) ∧ (t ∉ readers → (s.loc t).Away)
  | .held t calls => (∃ v, s.shared = ⟨v,0,true,false⟩ ∧ Did exec g calls v) ∧
      s.loc t = .writing calls ∧ ∀ u, u ≠ t → (s.loc u).Away
  | .broken => (∃ v, s.shared = ⟨v,0,false,true⟩) ∧ ∀ t, (s.loc t).Away

def Guards {Tid G ι ρ : Type} (exec : ι → G → Exec (ρ × G))
    (s : Threads Tid (RwLoc ι ρ) (RwLock G)) (g : G) : Prop := ∃ mode, RwInv exec s g mode

section Steps
variable {Tid G ι ρ : Type} {exec : ι → G → Exec (ρ × G)} {left : ι → G → G}
  {s : Threads Tid (RwLoc ι ρ) (RwLock G)} {g : G} {t : Tid} {mode : RwMode Tid ι ρ}
  {calls : List (ι × ρ)}

theorem RwInv.of_reading (hi : RwInv exec s g mode) (ht : s.loc t = .reading) :
    ∃ readers, mode = .shared readers ∧ t ∈ readers := by
  cases mode with
  | shared readers =>
    refine ⟨readers,rfl,?_⟩
    by_contra hmem
    have haway := (hi.2 t).2 hmem
    rw [ht] at haway
    exact haway
  | held u calls =>
    by_cases hu : t = u
    · subst hu
      rw [hi.2.1] at ht
      cases ht
    · have haway := hi.2.2 t hu
      rw [ht] at haway
      exact haway.elim
  | broken =>
    have haway := hi.2 t
    rw [ht] at haway
    exact haway.elim

theorem RwInv.of_writing (hi : RwInv exec s g mode) (ht : s.loc t = .writing calls) :
    mode = .held t calls := by
  cases mode with
  | shared readers =>
    by_cases hmem : t ∈ readers
    · rw [(hi.2 t).1 hmem] at ht
      cases ht
    · have haway := (hi.2 t).2 hmem
      rw [ht] at haway
      exact haway.elim
  | held u calls' =>
    by_cases hu : t = u
    · subst hu
      rw [hi.2.1] at ht
      cases ht
      rfl
    · have haway := hi.2.2 t hu
      rw [ht] at haway
      exact haway.elim
  | broken =>
    have haway := hi.2 t
    rw [ht] at haway
    exact haway.elim

theorem Did.nil (exec : ι → G → Exec (ρ × G)) (g : G) : Did exec g [] g := rfl

theorem Did.snoc {v v' : G} {op : ι} {answer : ρ} (h : Did exec g calls v)
    (he : exec op v = .ok (answer,v')) : Did exec g (calls ++ [(op,answer)]) v' := by
  have hone : runSteps (fun g op => (exec op g).toOption) [op] v = some ([answer],v') := by
    simp only [runSteps,he,Except.toOption,Option.bind_eq_bind,Option.bind_some]
    rfl
  simpa [Did] using runSteps_append h hone

theorem Did.cons {c : ι × ρ} {v : G} (h : Did exec g (c :: calls) v) :
    ∃ g', exec c.1 g = .ok (c.2,g') ∧ Did exec g' calls v := by
  obtain ⟨answer,g',answers,hstep,hrun,heq⟩ := runSteps_cons h
  cases heq
  cases hc : exec c.1 g with
  | error x =>
    simp only [hc] at hstep
    cases hstep
  | ok r =>
    simp only [hc] at hstep
    cases hstep
    exact ⟨g',rfl,hrun⟩

theorem zip_calls (calls : List (ι × ρ)) :
    (calls.map Prod.fst).zip (calls.map Prod.snd) = calls := by
  induction calls with
  | nil => rfl
  | cons c calls ih => simp [ih]

variable [DecidableEq Tid]

theorem away_update {loc' : RwLoc ι ρ} (h : ∀ u, u ≠ t → (s.loc u).Away) (hl : loc'.Away)
    (u : Tid) : (Function.update s.loc t loc' u).Away := by
  by_cases hu : u = t
  · subst hu
    simpa using hl
  · simpa [hu] using h u hu

theorem RwInv.refuse (hi : RwInv exec s g mode) (hp : s.shared.poisoned = true) :
    RwInv exec ⟨s.shared,Function.update s.loc t .panicked⟩ g .broken := by
  cases mode with
  | shared readers =>
    rw [hi.1] at hp
    cases hp
  | held u calls =>
    obtain ⟨v,hv,-⟩ := hi.1
    rw [hv] at hp
    cases hp
  | broken => exact ⟨hi.1,away_update (fun u _ => hi.2 u) trivial⟩

theorem RwInv.read (hi : RwInv exec s g mode) (ht : s.loc t = .outside)
    (hw : s.shared.writer = false) (hp : s.shared.poisoned = false) :
    ∃ mode', RwInv exec ⟨{ s.shared with readers := s.shared.readers+1 },
      Function.update s.loc t .reading⟩ g mode' := by
  cases mode with
  | shared readers =>
    have hnew : t ∉ readers := by
      intro hmem
      rw [(hi.2 t).1 hmem] at ht
      cases ht
    refine ⟨.shared (insert t readers),?_,?_⟩
    · rw [hi.1,Finset.card_insert_of_notMem hnew]
    · intro u
      by_cases hu : u = t
      · subst hu
        simp
      · simpa [hu] using hi.2 u
  | held u calls =>
    obtain ⟨v,hv,-⟩ := hi.1
    rw [hv] at hw
    cases hw
  | broken =>
    obtain ⟨v,hv⟩ := hi.1
    rw [hv] at hp
    cases hp

theorem RwInv.write (hi : RwInv exec s g mode) (hw : s.shared.writer = false)
    (hr : s.shared.readers = 0) (hp : s.shared.poisoned = false) :
    RwInv exec ⟨{ s.shared with writer := true },Function.update s.loc t (.writing [])⟩ g
      (.held t []) := by
  cases mode with
  | shared readers =>
    rw [hi.1] at hr
    obtain rfl : readers = ∅ := Finset.card_eq_zero.mp hr
    refine ⟨⟨g,by rw [hi.1]; rfl,Did.nil exec g⟩,by simp,?_⟩
    intro u hu
    simpa [hu] using (hi.2 u).2 (by simp)
  | held u calls =>
    obtain ⟨v,hv,-⟩ := hi.1
    rw [hv] at hw
    cases hw
  | broken =>
    obtain ⟨v,hv⟩ := hi.1
    rw [hv] at hp
    cases hp

theorem RwInv.release {readers : Finset Tid} (hi : RwInv exec s g (.shared readers))
    (ht : t ∈ readers) :
    RwInv exec ⟨{ s.shared with readers := s.shared.readers-1 },
      Function.update s.loc t .outside⟩ g (.shared (readers.erase t)) := by
  refine ⟨?_,?_⟩
  · rw [hi.1,Finset.card_erase_of_mem ht]
  · intro u
    by_cases hu : u = t
    · subst hu
      simp [RwLoc.Away]
    · simpa [hu] using hi.2 u

theorem RwInv.apply (hi : RwInv exec s g (.held t calls)) {op : ι} {answer : ρ} {value : G}
    (he : exec op s.shared.value = .ok (answer,value)) :
    RwInv exec ⟨{ s.shared with value := value },
      Function.update s.loc t (.writing (calls ++ [(op,answer)]))⟩ g
      (.held t (calls ++ [(op,answer)])) := by
  obtain ⟨⟨v,hv,hdid⟩,-,hothers⟩ := hi
  rw [hv] at he
  refine ⟨⟨value,by rw [hv],hdid.snoc he⟩,by simp,?_⟩
  intro u hu
  simpa [hu] using hothers u hu

theorem RwInv.fault (hi : RwInv exec s g (.held t calls)) (value : G) :
    RwInv exec ⟨{ s.shared with value := value, writer := false, poisoned := true },
      Function.update s.loc t .panicked⟩ g .broken := by
  obtain ⟨⟨v,hv,-⟩,-,hothers⟩ := hi
  exact ⟨⟨value,by rw [hv]⟩,away_update hothers trivial⟩

theorem RwInv.commit (hi : RwInv exec s g (.held t calls)) :
    ∃ v, Did exec g calls v ∧
      RwInv exec ⟨{ s.shared with writer := false },Function.update s.loc t .outside⟩ v
        (.shared ∅) := by
  obtain ⟨⟨v,hv,hdid⟩,-,hothers⟩ := hi
  have haway : (RwLoc.outside : RwLoc ι ρ).Away := trivial
  refine ⟨v,hdid,by rw [hv]; rfl,?_⟩
  intro u
  exact ⟨fun h => absurd h (by simp),fun _ => away_update hothers haway u⟩

theorem RwInv.step (hi : RwInv exec s g mode) {a : RwAction ι} {e : RwEvent G ι ρ}
    {loc' : RwLoc ι ρ} {l' : RwLock G} (h : RwMove exec left a (s.loc t) s.shared e loc' l') :
    Matched (serialStep exec) (Guards exec)
      (e.shown.map (fun x => (t,x))) ⟨l',Function.update s.loc t loc'⟩ g := by
  generalize hloc : s.loc t = loc at h
  generalize hl : s.shared = l at h
  cases h with
  | read hw hp =>
    subst hl
    exact .inl ⟨rfl,hi.read hloc hw hp⟩
  | write hw hr hp =>
    subst hl
    exact .inl ⟨rfl,_,hi.write hw hr hp⟩
  | refuse hw hp =>
    subst hl
    exact .inl ⟨rfl,_,hi.refuse hp⟩
  | observe =>
    subst hl
    obtain ⟨readers,rfl,-⟩ := hi.of_reading hloc
    refine .inr ⟨(t,.observe),(t,.observed g),g,?_,rfl,?_⟩
    · rw [hi.1]
      rfl
    · rw [← hloc,Function.update_eq_self]
      exact ⟨_,hi⟩
  | fault he =>
    subst hl
    obtain rfl := hi.of_writing hloc
    exact .inl ⟨rfl,_,hi.fault _⟩
  | apply he =>
    subst hl
    obtain rfl := hi.of_writing hloc
    exact .inl ⟨rfl,_,hi.apply he⟩
  | release =>
    subst hl
    obtain ⟨readers,rfl,ht⟩ := hi.of_reading hloc
    exact .inl ⟨rfl,_,hi.release ht⟩
  | @commit _ calls =>
    subst hl
    obtain rfl := hi.of_writing hloc
    obtain ⟨v,hdid,hi'⟩ := hi.commit
    refine .inr ⟨(t,.access (calls.map Prod.fst)),(t,.committed calls),v,rfl,?_,_,hi'⟩
    simp only [serialStep,show runSteps _ _ g = _ from hdid,Option.map_some,zip_calls]

theorem Guards.matched (hg : Guards exec s g) {a : Tid × RwAction ι}
    {x : Tid × RwEvent G ι ρ} {s' : Threads Tid (RwLoc ι ρ) (RwLock G)}
    (h : Threads.step (rwMove exec left) s a = some (x,s')) :
    Matched (serialStep exec) (Guards exec)
      (x.2.shown.map (fun e => (x.1,e))) s' g := by
  obtain ⟨mode,hi⟩ := hg
  obtain ⟨e,loc',l',hmove,rfl,rfl⟩ := Threads.step_some h
  exact hi.step (rwMove_cases hmove)

end Steps

section Runs
variable {Tid G ι ρ : Type}

def RwLock.system (g : G) : Threads Tid (RwLoc ι ρ) (RwLock G) :=
  ⟨⟨g,0,false,false⟩,fun _ => .outside⟩

/-- The calls of the accesses that are finished, in the order they were. -/
def committedCalls (tr : List (Tid × RwEvent G ι ρ)) : List (ι × ρ) :=
  tr.flatMap (fun x => match x.2 with | .committed calls => calls | _ => [])

/-- The calls that have gone through, of unfinished accesses too. -/
def appliedCalls (tr : List (Tid × RwEvent G ι ρ)) : List (ι × ρ) :=
  tr.flatMap (fun x => match x.2 with | .applied op answer => [(op,answer)] | _ => [])

def serialCalls (tr : List (Tid × SerialEvent G ι ρ)) : List (ι × ρ) :=
  tr.flatMap (fun x => match x.2 with | .committed calls => calls | _ => [])

def shownTrace (tr : List (Tid × RwEvent G ι ρ)) : List (Tid × SerialEvent G ι ρ) :=
  tr.filterMap (fun x => x.2.shown.map (fun e => (x.1,e)))

variable {exec : ι → G → Exec (ρ × G)} {left : ι → G → G} {g g' v : G}

theorem Did.trans {calls calls' : List (ι × ρ)} (h : Did exec g calls g')
    (h' : Did exec g' calls' v) : Did exec g (calls ++ calls') v := by
  simpa [Did] using runSteps_append h h'

theorem serialStep_did {a : Tid × SerialAction ι} {x : Tid × SerialEvent G ι ρ}
    (h : serialStep exec g a = some (x,g')) : Did exec g (serialCalls [x]) g' := by
  unfold serialStep at h
  split at h
  · cases h
    exact Did.nil exec g
  · rename_i ops _
    rw [Option.map_eq_some_iff] at h
    obtain ⟨⟨answers,v⟩,hrun,heq⟩ := h
    cases heq
    have hlen := runSteps_length hrun
    simpa [Did,serialCalls,List.map_fst_zip,List.map_snd_zip,hlen] using hrun

theorem serial_did {schedule : List (Tid × SerialAction ι)}
    {tr : List (Tid × SerialEvent G ι ρ)}
    (h : runSteps (serialStep exec) schedule g = some (tr,g')) :
    Did exec g (serialCalls tr) g' := by
  apply runSteps_reaches (fun tr v => Did exec g (serialCalls tr) v) h (Did.nil exec g)
  intro tr u a x v hu hstep
  have hnext := hu.trans (serialStep_did hstep)
  simpa [serialCalls] using hnext

theorem serialCalls_shown (tr : List (Tid × RwEvent G ι ρ)) :
    serialCalls (shownTrace tr) = committedCalls tr := by
  induction tr with
  | nil => rfl
  | cons x tr ih =>
    obtain ⟨t,e⟩ := x
    cases e with
    | observed v => simpa [shownTrace,serialCalls,committedCalls,RwEvent.shown] using ih
    | committed calls => simpa [shownTrace,serialCalls,committedCalls,RwEvent.shown] using ih
    | acquired | refused | applied _ _ | faulted _ | released =>
      simpa [shownTrace,serialCalls,committedCalls,RwEvent.shown] using ih

variable [DecidableEq Tid]

omit [DecidableEq Tid] in
theorem RwLock.system_guards (g : G) :
    Guards exec (RwLock.system g : Threads Tid (RwLoc ι ρ) (RwLock G)) g :=
  ⟨.shared ∅,rfl,fun t => ⟨fun ht => absurd ht (by simp),fun _ => trivial⟩⟩

theorem rw_serializes {schedule : List (Tid × RwAction ι)} {tr : List (Tid × RwEvent G ι ρ)}
    {s : Threads Tid (RwLoc ι ρ) (RwLock G)}
    (h : runSteps (Threads.step (rwMove exec left)) schedule (RwLock.system g) = some (tr,s)) :
    ∃ schedule' g', runSteps (serialStep exec) schedule' g = some (shownTrace tr,g') := by
  obtain ⟨schedule',g',hrun,-⟩ := runSteps_refines (fun _ _ _ _ _ hs hstep => hs.matched hstep)
    (RwLock.system_guards g) h
  refine ⟨schedule',g',?_⟩
  rw [hrun,history_labels (runSteps_length h)]
  rfl

/-- A reader sees what the finished accesses have left, and nothing of an
unfinished one. -/
theorem rw_observed {schedule : List (Tid × RwAction ι)} {pre post : List (Tid × RwEvent G ι ρ)}
    {t : Tid} {s : Threads Tid (RwLoc ι ρ) (RwLock G)}
    (h : runSteps (Threads.step (rwMove exec left)) schedule (RwLock.system g) =
      some (pre ++ (t,.observed v) :: post,s)) : Did exec g (committedCalls pre) v := by
  obtain ⟨schedule',g',hrun⟩ := rw_serializes h
  have hshown : shownTrace (pre ++ (t,RwEvent.observed v) :: post) =
      shownTrace pre ++ (t,.observed v) :: shownTrace post := by
    simp [shownTrace,RwEvent.shown]
  rw [hshown] at hrun
  obtain ⟨as₁,a,as₂,g₁,g₂,rfl,hpre,hstep,-⟩ := runSteps_split hrun
  have hdid := serial_did hpre
  rw [serialCalls_shown] at hdid
  unfold serialStep at hstep
  split at hstep
  · cases hstep
    exact hdid
  · rw [Option.map_eq_some_iff] at hstep
    obtain ⟨r,-,heq⟩ := hstep
    cases heq

omit [DecidableEq Tid] in
theorem RwMove.calls {P : ι → Prop} {a : RwAction ι} {loc loc' : RwLoc ι ρ} {l l' : RwLock G}
    {e : RwEvent G ι ρ} (h : RwMove exec left a loc l e loc' l') (t : Tid)
    (hop : ∀ op, a = .apply op → P op)
    (hloc : ∀ calls, loc = .writing calls → ∀ c ∈ calls, P c.1) :
    (∀ c ∈ committedCalls [(t,e)], P c.1) ∧
      ∀ calls, loc' = .writing calls → ∀ c ∈ calls, P c.1 := by
  cases h with
  | @apply _ op calls answer value he =>
    refine ⟨by simp [committedCalls],?_⟩
    intro calls' heq c hc
    cases heq
    rcases List.mem_append.mp hc with hc | hc
    · exact hloc calls rfl c hc
    · rw [List.mem_singleton.mp hc]
      exact hop op rfl
  | @commit _ calls => exact ⟨by simpa [committedCalls] using hloc calls rfl,by simp⟩
  | read | write | refuse | observe | fault | release => exact ⟨by simp [committedCalls],by simp⟩

theorem rw_calls {P : ι → Prop} {schedule : List (Tid × RwAction ι)}
    (hP : ∀ a ∈ schedule, ∀ op, a.2 = .apply op → P op) {tr : List (Tid × RwEvent G ι ρ)}
    {s : Threads Tid (RwLoc ι ρ) (RwLock G)}
    (h : runSteps (Threads.step (rwMove exec left)) schedule (RwLock.system g) = some (tr,s)) :
    ∀ c ∈ committedCalls tr, P c.1 := by
  have hkeeps := runSteps_keeps (fun tr (s : Threads Tid (RwLoc ι ρ) (RwLock G)) =>
    (∀ c ∈ committedCalls tr, P c.1) ∧
      ∀ t calls, s.loc t = .writing calls → ∀ c ∈ calls, P c.1) h
    ⟨by simp [committedCalls],by simp [RwLock.system]⟩ ?_
  · exact hkeeps.1
  · rintro a ha tr s x s' ⟨htr,hloc⟩ hstep
    obtain ⟨e,loc',l',hmove,rfl,rfl⟩ := Threads.step_some hstep
    obtain ⟨hcommit,hwriting⟩ := (rwMove_cases hmove).calls a.1 (hP a ha) (hloc a.1)
    constructor
    · intro c hc
      simp only [committedCalls,List.flatMap_append,List.mem_append] at hc
      rcases hc with hc | hc
      · exact htr c hc
      · exact hcommit c hc
    · intro u calls hu
      change Function.update s.loc a.1 loc' u = .writing calls at hu
      by_cases hua : u = a.1
      · subst hua
        rw [Function.update_self] at hu
        exact hwriting calls hu
      · rw [Function.update_of_ne hua] at hu
        exact hloc u calls hu

theorem RwInv.step_broken {s s' : Threads Tid (RwLoc ι ρ) (RwLock G)} (hi : RwInv exec s g .broken)
    {a : Tid × RwAction ι} {x : Tid × RwEvent G ι ρ}
    (h : Threads.step (rwMove exec left) s a = some (x,s')) :
    x.2 = .refused ∧ RwInv exec s' g .broken := by
  obtain ⟨e,loc',l',hmove,rfl,rfl⟩ := Threads.step_some h
  obtain ⟨⟨v,hv⟩,haway⟩ := hi
  have hloc := haway a.1
  have hmove := rwMove_cases hmove
  generalize a.2 = action at hmove
  generalize s.loc a.1 = loc at hmove hloc
  generalize hl : s.shared = l at hmove
  have hlv : l = ⟨v,0,false,true⟩ := hl.symm.trans hv
  cases hmove with
  | read _ hp | write _ _ hp =>
    rw [hlv] at hp
    cases hp
  | refuse _ _ => exact ⟨rfl,⟨v,hlv⟩,away_update (fun u _ => haway u) trivial⟩
  | observe | fault | apply | release | commit => exact hloc.elim

/-- After a panic under the write guard nobody gets a guard again. -/
theorem rw_poisoned {schedule : List (Tid × RwAction ι)} {pre post : List (Tid × RwEvent G ι ρ)}
    {t : Tid} {op : ι} {s : Threads Tid (RwLoc ι ρ) (RwLock G)}
    (h : runSteps (Threads.step (rwMove exec left)) schedule (RwLock.system g) =
      some (pre ++ (t,.faulted op) :: post,s)) : ∀ x ∈ post, x.2 = .refused := by
  obtain ⟨as₁,a,as₂,s₁,s₂,-,hpre,hstep,hpost⟩ := runSteps_split h
  obtain ⟨-,g₁,-,mode,hi⟩ := runSteps_refines (fun _ _ _ _ _ hs hstep => hs.matched hstep)
    (RwLock.system_guards g) hpre
  have hbroken : RwInv exec s₂ g₁ .broken := by
    obtain ⟨e,loc',l',hmove,heq,rfl⟩ := Threads.step_some hstep
    cases heq
    have hmove := rwMove_cases hmove
    generalize a.2 = action at hmove
    generalize hloc : s₁.loc a.1 = loc at hmove
    generalize hl : s₁.shared = l at hmove
    cases hmove with
    | fault he =>
      subst hl
      obtain rfl := hi.of_writing hloc
      exact hi.fault _
  have hkeeps := runSteps_reaches (fun tr s => (∀ x ∈ tr, x.2 = .refused) ∧
    RwInv exec s g₁ .broken) hpost ⟨by simp,hbroken⟩ ?_
  · exact hkeeps.1
  · rintro tr s a x s' ⟨htr,hi⟩ hstep
    obtain ⟨hx,hi'⟩ := hi.step_broken hstep
    refine ⟨fun y hy => ?_,hi'⟩
    rcases List.mem_append.mp hy with hy | hy
    · exact htr y hy
    · rw [List.mem_singleton.mp hy]
      exact hx

def RwEvent.Panics : RwEvent G ι ρ → Prop
  | .refused | .faulted _ => True
  | _ => False

/-- Calls that keep a property of the value do not panic on it. -/
def Safe (exec : ι → G → Exec (ρ × G)) (P : ι → Prop) (J : G → Prop) : Prop :=
  ∀ op v, P op → J v → ∃ answer v', exec op v = .ok (answer,v') ∧ J v'

omit [DecidableEq Tid] in
theorem RwMove.safe {P : ι → Prop} {J : G → Prop} (hsafe : Safe exec P J) {a : RwAction ι}
    {loc loc' : RwLoc ι ρ} {l l' : RwLock G} {e : RwEvent G ι ρ}
    (h : RwMove exec left a loc l e loc' l') (hop : ∀ op, a = .apply op → P op) (hJ : J l.value)
    (hp : l.poisoned = false) : J l'.value ∧ l'.poisoned = false ∧ ¬ e.Panics := by
  cases h with
  | refuse _ hpoisoned =>
    rw [hp] at hpoisoned
    cases hpoisoned
  | @fault _ op _ _ he =>
    obtain ⟨answer,v,hok,-⟩ := hsafe op l.value (hop op rfl) hJ
    rw [hok] at he
    cases he
  | @apply _ op _ answer value he =>
    obtain ⟨answer',v,hok,hv⟩ := hsafe op l.value (hop op rfl) hJ
    rw [hok] at he
    cases he
    exact ⟨hv,hp,id⟩
  | read | write | observe | release | commit => exact ⟨hJ,hp,id⟩

theorem rw_safe {P : ι → Prop} {J : G → Prop} (hsafe : Safe exec P J) (hJ : J g)
    {schedule : List (Tid × RwAction ι)} (hP : ∀ a ∈ schedule, ∀ op, a.2 = .apply op → P op)
    {tr : List (Tid × RwEvent G ι ρ)} {s : Threads Tid (RwLoc ι ρ) (RwLock G)}
    (h : runSteps (Threads.step (rwMove exec left)) schedule (RwLock.system g) = some (tr,s)) :
    ∀ x ∈ tr, ¬ x.2.Panics := by
  have hkeeps := runSteps_keeps (fun tr (s : Threads Tid (RwLoc ι ρ) (RwLock G)) =>
    (∀ x ∈ tr, ¬ x.2.Panics) ∧ J s.shared.value ∧ s.shared.poisoned = false) h
    ⟨by simp,hJ,rfl⟩ ?_
  · exact hkeeps.1
  · rintro a ha tr s x s' ⟨htr,hJ,hp⟩ hstep
    obtain ⟨e,loc',l',hmove,rfl,rfl⟩ := Threads.step_some hstep
    obtain ⟨hJ',hp',he⟩ := (rwMove_cases hmove).safe hsafe (hP a ha) hJ hp
    refine ⟨fun x hx => ?_,hJ',hp'⟩
    rcases List.mem_append.mp hx with hx | hx
    · exact htr x hx
    · rw [List.mem_singleton.mp hx]
      exact he

end Runs

end InkDB
