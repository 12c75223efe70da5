import InkDB.LatchSafety

/-!
`peek` reads the state byte and then the data, without holding the latch. What
a pair so read has to do with the pairs the latch really went through.
-/

set_option autoImplicit false

namespace InkDB

section Moves
variable {T : Type} {b : Build} {pc pc' : Pc T} {l l' : PageTableLatch T}
  {e : Event T}

def Event.ofPeek : Event T → Bool
  | .peekObserved _ => true
  | .peeked _ _ => true
  | _ => false

def Pc.peeking : Pc T → Bool
  | .peekData _ => true
  | _ => false

structure PeekMove (pc : Pc T) (l : PageTableLatch T) (e : Event T) (pc' : Pc T) : Prop where
  clone : ∀ st d, e = .peeked st d → pc = .peekData st ∧ d = l.data
  state : ∀ st, e = .peekObserved st → st = l.state
  opened : ∀ st, pc' = .peekData st → e = .peekObserved st

theorem PeekMove.other (he : e.ofPeek = false) (hpc : pc'.peeking = false) :
    PeekMove pc l e pc' := by
  refine ⟨fun st d h => ?_,fun st h => ?_,fun st h => ?_⟩
  · subst h
    cases he
  · subst h
    cases he
  · subst h
    cases hpc

theorem LatchStep.peek (h : LatchStep b pc l e pc' l') : PeekMove pc l e pc' := by
  cases h with
  | peekState =>
    refine ⟨fun st d he => ?_,fun st he => ?_,fun st hpc => ?_⟩
    · cases he
    · cases he
      rfl
    · cases hpc
      rfl
  | peekData =>
    refine ⟨fun st d he => ?_,fun st he => ?_,fun st hpc => ?_⟩
    · cases he
      exact ⟨rfl,rfl⟩
    · cases he
    · cases hpc
  | callLoad | callPeek | findInMemory | findOnDisk | findLoading | reject | read | win | lose
  | fail | finish | write | publish | overflow | wait => exact .other rfl rfl

end Moves

section Runs
variable {Tid T : Type} [DecidableEq Tid] {b : Build} {d₀ : T} {schedule : List (Tid × Action T)}
  {tr : LatchTrace Tid T} {s : LatchSystem Tid T}

def LatchMoment (b : Build) (d₀ : T) (schedule : List (Tid × Action T)) (l : PageTableLatch T) :
    Prop :=
  ∃ as₁ as₂ tr₁ s₁, schedule = as₁ ++ as₂ ∧
    (LatchSystem.new d₀ : LatchSystem Tid T).run b as₁ = some (tr₁,s₁) ∧ s₁.shared = l

/-- A peek that saw `PT_ON_DISK` clones the data after another value was written. -/
def TornPeek (d₀ : T) (tr : LatchTrace Tid T) : Prop :=
  ∃ pre mid post t d u v,
    tr = pre ++ (t,.peekObserved ptOnDisk) :: (mid ++ (t,.peeked ptOnDisk d) :: post) ∧
      (∀ e, (t,e) ∉ mid) ∧ (u,.wrote v) ∈ mid ∧ v ≠ d₀

structure Snapshots (b : Build) (d₀ : T) (schedule : List (Tid × Action T))
    (tr : LatchTrace Tid T) : Prop where
  actual : ∀ t st d, (t,.peeked st d) ∈ tr → LatchMoment b d₀ schedule ⟨st,d⟩
  onDisk : ∀ t d, (t,.peeked ptOnDisk d) ∈ tr → d = d₀
  inMemory : ∀ t d, (t,.peeked ptInMemory d) ∈ tr → published tr = some d

def Opened (t : Tid) (st : UInt8) (tr : LatchTrace Tid T) : Prop :=
  ∃ pre mid, tr = pre ++ (t,.peekObserved st) :: mid ∧ ∀ e, (t,e) ∉ mid

theorem peek_opened (h : (LatchSystem.new d₀ : LatchSystem Tid T).run b schedule = some (tr,s))
    (t : Tid) : ∀ st, s.loc t = .peekData st → Opened t st tr := by
  have hinit : ∀ st, (LatchSystem.new d₀ : LatchSystem Tid T).loc t = .peekData st →
      Opened t st ([] : LatchTrace Tid T) := by
    intro st hloc
    cases hloc
  apply runSteps_reaches (fun tr s => ∀ st, s.loc t = .peekData st → Opened t st tr) h hinit
  intro tr s a x s' hi hstep st hloc
  obtain ⟨e,pc',l',hmove,rfl,rfl⟩ := Threads.step_some hstep
  by_cases hu : a.1 = t
  · subst hu
    obtain rfl := (latchMove_cases hmove).peek.opened st (by simpa using hloc)
    exact ⟨tr,[],rfl,by simp⟩
  · obtain ⟨pre,mid,rfl,hmid⟩ := hi st (by simpa [Function.update_of_ne (Ne.symm hu)] using hloc)
    refine ⟨pre,mid ++ [(a.1,e)],by simp,fun e' hmem => ?_⟩
    rcases mem_snoc.mp hmem with hmem | ⟨heq,-⟩
    · exact hmid e' hmem
    · exact hu heq.symm

theorem latch_split {pre post : LatchTrace Tid T} {t : Tid} {e : Event T}
    (h : (LatchSystem.new d₀ : LatchSystem Tid T).run b schedule =
      some (pre ++ (t,e) :: post,s)) :
    ∃ as₁ s₁ ph act pc' l',
      (LatchSystem.new d₀ : LatchSystem Tid T).run b as₁ = some (pre,s₁) ∧
      LatchInv d₀ pre s₁ ph ∧
      latchMove b act (s₁.loc t) s₁.shared = some (e,pc',l') ∧
      LatchMoment b d₀ schedule s₁.shared ∧ LatchMoment b d₀ schedule l' := by
  obtain ⟨as₁,a,as₂,s₁,s₂,rfl,hpre,hstep,-⟩ := runSteps_split h
  obtain ⟨ph,hi⟩ := latch_run hpre
  have hafter : (LatchSystem.new d₀ : LatchSystem Tid T).run b (as₁ ++ [a]) =
      some (pre ++ [(t,e)],s₂) := by
    apply runSteps_append hpre
    simp only [runSteps,hstep,Option.bind_eq_bind,Option.bind_some]
    rfl
  have hm₁ : LatchMoment b d₀ (as₁ ++ a :: as₂) s₁.shared := ⟨as₁,_,_,s₁,rfl,hpre,rfl⟩
  have hm₂ : LatchMoment b d₀ (as₁ ++ a :: as₂) s₂.shared :=
    ⟨as₁ ++ [a],as₂,_,s₂,by simp,hafter,rfl⟩
  obtain ⟨e',pc',l',hmove,hx,rfl⟩ := Threads.step_some hstep
  cases hx
  exact ⟨as₁,s₁,ph,a.2,pc',l',hpre,hi,hmove,hm₁,hm₂⟩

end Runs

section Published
variable {Tid T : Type} {d₀ : T} {tr : LatchTrace Tid T} {s : LatchSystem Tid T}
  {ph : Phase Tid T}

theorem wrote_of_published {v : T} (h : published tr = some v) : ∃ u, (u,.wrote v) ∈ tr := by
  obtain ⟨⟨u,e⟩,hmem,he⟩ := List.mem_filterMap.mp (List.mem_of_mem_head? h)
  simp only [Event.written] at he
  split at he
  · cases he
    exact ⟨u,hmem⟩
  · cases he

theorem LatchInv.published_of_wrote (hi : LatchInv d₀ tr s ph) {u : Tid} {v : T}
    (hmem : (u,.wrote v) ∈ tr) : published tr = some v := by
  have hv : v ∈ tr.filterMap (fun x => x.2.written) := List.mem_filterMap.mpr ⟨_,hmem,rfl⟩
  rw [hi.written] at hv
  rw [published,hi.written]
  cases ph <;> simp_all [Phase.written]

theorem LatchInv.state_phase (hi : LatchInv d₀ tr s ph) :
    (s.shared.state = ptOnDisk ∧ published tr = none) ∨ s.shared.state = ptLoading ∨
      (s.shared.state = ptInMemory ∧ ∃ v, published tr = some v) := by
  rw [published,hi.written,hi.latch]
  cases ph with
  | onDisk => exact .inl ⟨rfl,rfl⟩
  | working _ | writing _ _ | publishing _ _ | abandoned => exact .inr (.inl rfl)
  | inMemory v => exact .inr (.inr ⟨rfl,v,rfl⟩)

theorem LatchInv.wrote_latch (hi : LatchInv d₀ tr s ph) {t : Tid} {v : T} {pc' : Pc T}
    {l' : PageTableLatch T} (h : LatchMove (s.loc t) s.shared (.wrote v) pc' l') :
    l' = ⟨ptLoading,v⟩ := by
  have hself := hi.allowed t
  have hlatch := hi.latch
  generalize s.loc t = pc at h hself
  generalize s.shared = l at h hlatch
  cases h with
  | quiet he => exact he.elim
  | write =>
    obtain rfl : ph = .writing t v := hself
    rw [hlatch]
    rfl

end Published

section Windows
variable {Tid T : Type} [DecidableEq Tid] {b : Build} {d₀ : T} {schedule : List (Tid × Action T)}
  {tr : LatchTrace Tid T} {s : LatchSystem Tid T}

theorem wrote_moment (h : (LatchSystem.new d₀ : LatchSystem Tid T).run b schedule = some (tr,s))
    {u : Tid} {v : T} (hmem : (u,.wrote v) ∈ tr) : LatchMoment b d₀ schedule ⟨ptLoading,v⟩ := by
  obtain ⟨pre,post,rfl⟩ := List.append_of_mem hmem
  obtain ⟨as₁,s₁,ph,act,pc',l',-,hi,hmove,-,hm⟩ := latch_split h
  rw [hi.wrote_latch (latchMove_cases hmove).move] at hm
  exact hm

/-- The window of a peek: from the read of the state, at a moment when the latch
held the state `st`, to the clone of the data. -/
structure PeekWindow (b : Build) (d₀ : T) (schedule : List (Tid × Action T))
    (t : Tid) (st : UInt8) (d : T) (pre mid : LatchTrace Tid T) : Prop where
  sole : ∀ e, (t,e) ∉ mid
  opening : LatchMoment b d₀ schedule ⟨st,(published pre).getD d₀⟩
  cloned : d = (published (pre ++ (t,.peekObserved st) :: mid)).getD d₀
  phase : (st = ptOnDisk ∧ published pre = none) ∨ st = ptLoading ∨
    (st = ptInMemory ∧ ∃ v, published pre = some v)
  wrote : ∀ u v, (u,.wrote v) ∈ mid → published (pre ++ (t,.peekObserved st) :: mid) = some v

theorem peek_window {before after : LatchTrace Tid T} {t : Tid} {st : UInt8} {d : T}
    (h : (LatchSystem.new d₀ : LatchSystem Tid T).run b schedule =
      some (before ++ (t,.peeked st d) :: after,s)) :
    ∃ pre mid, before = pre ++ (t,.peekObserved st) :: mid ∧
      PeekWindow b d₀ schedule t st d pre mid := by
  obtain ⟨as₁,s₁,ph₁,act,pc',l',hrun₁,hi₁,hmove₁,-,-⟩ := latch_split h
  obtain ⟨hpc,hdata⟩ := (latchMove_cases hmove₁).peek.clone st d rfl
  obtain ⟨pre,mid,rfl,hsole⟩ := peek_opened hrun₁ t st hpc
  rw [List.append_assoc] at h
  obtain ⟨-,s₀,ph₀,act₀,pc₀,l₀,-,hi₀,hmove₀,hm₀,-⟩ := latch_split h
  obtain rfl := (latchMove_cases hmove₀).peek.state st rfl
  refine ⟨pre,mid,rfl,hsole,?_,?_,hi₀.state_phase,?_⟩
  · rw [← hi₀.data_eq]
    exact hm₀
  · rw [hdata,hi₁.data_eq]
  · intro u v hmem
    exact hi₁.published_of_wrote (List.mem_append_right _ (List.mem_cons_of_mem _ hmem))

/-- Either nothing new was written inside the window, or the one write was. -/
theorem PeekWindow.cases {t : Tid} {st : UInt8} {d : T} {pre mid : LatchTrace Tid T}
    (hw : PeekWindow b d₀ schedule t st d pre mid) :
    d = (published pre).getD d₀ ∨ published pre = none ∧ ∃ u, (u,.wrote d) ∈ mid := by
  have hmid : published ((t,.peekObserved st) :: mid) = published mid := rfl
  have hd := hw.cloned
  rw [published_append,hmid] at hd
  cases hpre : published pre with
  | some v =>
    left
    rw [hd,hpre]
    rfl
  | none =>
    rw [hpre,Option.none_or] at hd
    cases hnew : published mid with
    | none =>
      left
      rw [hd,hnew]
    | some v =>
      rw [hnew,Option.getD_some] at hd
      subst hd
      exact .inr ⟨rfl,wrote_of_published hnew⟩

theorem PeekWindow.onDisk {t : Tid} {d : T} {pre mid after : LatchTrace Tid T}
    (hw : PeekWindow b d₀ schedule t ptOnDisk d pre mid)
    (htr : tr = (pre ++ (t,.peekObserved ptOnDisk) :: mid) ++ (t,.peeked ptOnDisk d) :: after)
    (hno : ¬ TornPeek d₀ tr) : published pre = none ∧ d = d₀ := by
  have hpre : published pre = none := by
    rcases hw.phase with ⟨-,hpre⟩ | hst | ⟨hst,-⟩
    · exact hpre
    · cases hst
    · cases hst
  refine ⟨hpre,?_⟩
  rcases hw.cases with hd | ⟨-,u,hmem⟩
  · rw [hd,hpre]
    rfl
  · by_contra hne
    exact hno ⟨pre,mid,after,t,d,u,d,by rw [htr,List.append_assoc]; rfl,hw.sole,hmem,hne⟩

theorem snapshots_of_not_torn
    (h : (LatchSystem.new d₀ : LatchSystem Tid T).run b schedule = some (tr,s))
    (hno : ¬ TornPeek d₀ tr) : Snapshots b d₀ schedule tr where
  actual t st d hmem := by
    obtain ⟨before,after,rfl⟩ := List.append_of_mem hmem
    obtain ⟨pre,mid,rfl,hw⟩ := peek_window h
    rcases hw.cases with hd | ⟨hpre,u,hwrote⟩
    · rw [hd]
      exact hw.opening
    · rcases hw.phase with ⟨rfl,-⟩ | rfl | ⟨-,v,hv⟩
      · -- the value written is the one the latch was made with
        have hopen := hw.opening
        rw [hpre] at hopen
        rw [(hw.onDisk rfl hno).2]
        exact hopen
      · exact wrote_moment h (List.mem_append_left _
          (List.mem_append_right _ (List.mem_cons_of_mem _ hwrote)))
      · rw [hpre] at hv
        cases hv
  onDisk t d hmem := by
    obtain ⟨before,after,rfl⟩ := List.append_of_mem hmem
    obtain ⟨pre,mid,rfl,hw⟩ := peek_window h
    exact (hw.onDisk rfl hno).2
  inMemory t d hmem := by
    obtain ⟨before,after,rfl⟩ := List.append_of_mem hmem
    obtain ⟨pre,mid,rfl,hw⟩ := peek_window h
    rcases hw.phase with ⟨hst,-⟩ | hst | ⟨-,v,hv⟩
    · cases hst
    · cases hst
    · have hd := hw.cloned
      rw [published_append,hv] at hd
      rw [published_append,published_append,hv,hd]
      rfl

end Windows

theorem peek_snapshots_iff {Tid T : Type} [DecidableEq Tid] (b : Build) (d₀ : T)
    (schedule : List (Tid × Action T)) (tr : LatchTrace Tid T) (s : LatchSystem Tid T)
    (h : (LatchSystem.new d₀ : LatchSystem Tid T).run b schedule = some (tr,s)) :
    Snapshots b d₀ schedule tr ↔ ¬ TornPeek d₀ tr := by
  refine ⟨?_,snapshots_of_not_torn h⟩
  rintro hsnap ⟨pre,mid,post,t,d,u,v,rfl,-,hwrote,hne⟩
  have hd : d = d₀ := hsnap.onDisk t d (by simp)
  rw [← List.cons_append,← List.append_assoc] at h
  obtain ⟨as₁,s₁,ph,act,pc',l',-,hi,hmove,-,-⟩ := latch_split h
  obtain ⟨-,hdata⟩ := (latchMove_cases hmove).peek.clone ptOnDisk d rfl
  rw [hi.data_eq,hi.published_of_wrote (List.mem_append_right _ (List.mem_cons_of_mem _ hwrote)),
    Option.getD_some] at hdata
  exact hne (hdata.symm.trans hd)

/-- A peek that reads the state, a whole load but for its last step, and then
the rest of the peek. -/
def tornSchedule : List (Bool × Action Nat) :=
  [(true,.peek),(true,.advance),(false,.load (fun d => .ok (d+7))),(false,.advance),
    (false,.advance),(false,.advance),(false,.advance),(true,.advance)]

def tornTrace : LatchTrace Bool Nat :=
  [(true,.called),(true,.peekObserved 0),(false,.called),(false,.observed 0),
    (false,.exchanged true),(false,.worked 0 (.ok 7)),(false,.wrote 7),(true,.peeked 0 7)]

theorem peek_returns_torn_pair :
    ¬ ∀ (Tid T : Type) [DecidableEq Tid] (b : Build) (d₀ : T) (schedule : List (Tid × Action T))
      (tr : LatchTrace Tid T) (s : LatchSystem Tid T),
      (LatchSystem.new d₀ : LatchSystem Tid T).run b schedule = some (tr,s) →
        Snapshots b d₀ schedule tr := by
  intro hall
  have hsnap := hall Bool Nat .debug 0 tornSchedule tornTrace _ rfl
  have hseven : 7 = 0 := hsnap.onDisk true 7 (by simp [tornTrace])
  cases hseven

def overtakenSchedule : List (Bool × Action Nat) :=
  [(true,.peek),(false,.load .ok),(false,.advance),(true,.advance),(false,.advance),
    (true,.advance)]

theorem peek_during_load :
    ∃ s, (LatchSystem.new 0 : LatchSystem Bool Nat).run .debug overtakenSchedule =
        some ([(true,.called),(false,.called),(false,.observed 0),(true,.peekObserved 0),
          (false,.exchanged true),(true,.peeked 0 0)],s) ∧
      Snapshots .debug 0 overtakenSchedule [(true,.called),(false,.called),(false,.observed 0),
        (true,.peekObserved 0),(false,.exchanged true),(true,.peeked 0 0)] := by
  refine ⟨_,rfl,(peek_snapshots_iff .debug 0 overtakenSchedule _ _ rfl).mpr ?_⟩
  rintro ⟨pre,mid,post,t,d,u,v,htr,-,hmem,-⟩
  have hwrote : (u,Event.wrote v) ∈ pre ++ (t,.peekObserved ptOnDisk) ::
      (mid ++ (t,.peeked ptOnDisk d) :: post) := by simp [hmem]
  rw [← htr] at hwrote
  simp at hwrote

end InkDB
