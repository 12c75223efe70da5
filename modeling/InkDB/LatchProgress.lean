import InkDB.LatchSafety

/-!
How a run of the latch goes on: what the state byte can still become, what a
failed load means for every later caller, which data accesses can meet, and how
far a caller is from its answer.
-/

set_option autoImplicit false

namespace InkDB

abbrev ptInvalid : UInt8 := 3

section Readers
variable {T : Type}

/-- `PageTableLatch::state`. -/
def PageTableLatch.readState (l : PageTableLatch T) : UInt8 :=
  if l.state = ptInMemory then ptInMemory
  else if l.state = ptLoading then ptLoading
  else if l.state = ptOnDisk then ptOnDisk
  else ptInvalid

def PageTableLatch.currentState (l : PageTableLatch T) : UInt8 := l.state

end Readers

section Later
variable {Tid T : Type} [DecidableEq Tid] {b : Build} {d₀ : T} {tr tr' : LatchTrace Tid T}
  {s s' : LatchSystem Tid T} {ph : Phase Tid T} {schedule : List (Tid × Action T)}

theorem StateMove.le {st st' : UInt8} (h : StateMove st st') : st ≤ st' := by
  rcases h with rfl | ⟨rfl,rfl⟩ | ⟨rfl,rfl⟩
  · exact UInt8.le_refl _
  · decide
  · decide

theorem LatchInv.run (hi : LatchInv d₀ tr s ph) (h : s.run b schedule = some (tr',s')) :
    ∃ ph', LatchInv d₀ (tr ++ tr') s' ph' := by
  apply runSteps_invariant (fun tr s => ∃ ph, LatchInv d₀ tr s ph) _ ⟨ph,hi⟩ h
  rintro tr s a x s' ⟨ph,hi⟩ hstep
  exact (latchInv_step hi hstep).2

theorem LatchInv.state_le (hi : LatchInv d₀ tr s ph) (h : s.run b schedule = some (tr',s')) :
    s.shared.state ≤ s'.shared.state := by
  have hinv := runSteps_invariant
    (fun tr u => (∃ ph, LatchInv d₀ tr u ph) ∧ s.shared.state ≤ u.shared.state) ?_
    ⟨⟨ph,hi⟩,UInt8.le_refl _⟩ h
  · exact hinv.2
  · rintro tr u a x u' ⟨⟨ph,hi⟩,hle⟩ hstep
    obtain ⟨hmove,hi'⟩ := latchInv_step hi hstep
    exact ⟨hi',UInt8.le_trans hle hmove.le⟩

omit [DecidableEq Tid] in
theorem Phase.readState_latch (d₀ : T) (ph : Phase Tid T) :
    (ph.latch d₀).readState = (ph.latch d₀).currentState ∧
      (ph.latch d₀).currentState ≠ ptInvalid := by
  cases ph with
  | onDisk | working _ | writing _ _ | publishing _ _ | abandoned | inMemory _ =>
    exact ⟨rfl,by simp [PageTableLatch.currentState,latch,ptOnDisk,ptLoading,ptInMemory,ptInvalid]⟩

theorem LatchInv.frozen (hi : LatchInv d₀ tr s ph) (h : s.run b schedule = some (tr',s'))
    (hm : s.shared.state = ptInMemory) : s'.shared = s.shared := by
  have hle := hi.state_le h
  obtain ⟨ph',hi'⟩ := hi.run h
  have hm' : s'.shared.state = ptInMemory := by
    rw [hm,hi'.latch] at hle
    rw [hi'.latch]
    rcases ph'.state_known d₀ with hk | hk | hk
    · exact hk
    · rw [hk] at hle
      exact absurd hle (by decide)
    · rw [hk] at hle
      exact absurd hle (by decide)
  have hpub : ∃ v, published tr = some v := by
    rw [hi.latch] at hm
    obtain ⟨v,rfl⟩ := Phase.inMemory_of_state hm
    exact ⟨v,by rw [published,hi.written]; rfl⟩
  obtain ⟨v,hv⟩ := hpub
  have hdata : s'.shared.data = s.shared.data := by
    rw [hi'.data_eq,hi.data_eq,published_append,hv]
    rfl
  cases hl : s.shared with
  | mk st d =>
    cases hl' : s'.shared with
    | mk st' d' =>
      rw [hl] at hm hdata
      rw [hl'] at hm' hdata
      rw [show st' = st from hm'.trans hm.symm,show d' = d from hdata]

omit [DecidableEq Tid] in
theorem LatchInv.silent (hi : LatchInv d₀ tr s .abandoned) {t : Tid} {e : Event T} {pc' : Pc T}
    {l' : PageTableLatch T} (h : LatchStep b (s.loc t) s.shared e pc' l') :
    e.returned = none := by
  have hself := hi.allowed t
  have hlatch := hi.latch
  generalize s.loc t = pc at h hself
  generalize s.shared = l at h hlatch
  cases h with
  | read =>
    obtain ⟨v,hv⟩ := hself
    cases hv
  | fail =>
    cases hself
  | publish =>
    cases hself
  | reject hm hd hl =>
    rw [hlatch] at hl
    exact absurd rfl hl
  | callLoad | callPeek | findInMemory | findOnDisk | findLoading | win | lose | finish | write
  | overflow | wait | peekState | peekData => rfl

end Later

/-- The state byte only goes forward, `state` and `current_state` agree on it at
every moment, and from `PT_IN_MEMORY` on nothing changes any more. -/
theorem latch_state_monotone {Tid T : Type} [DecidableEq Tid] (b : Build) (d₀ : T)
    (schedule schedule' : List (Tid × Action T)) (tr tr' : LatchTrace Tid T)
    (s s' : LatchSystem Tid T)
    (h : (LatchSystem.new d₀ : LatchSystem Tid T).run b schedule = some (tr,s))
    (h' : s.run b schedule' = some (tr',s')) :
    s.shared.readState = s.shared.currentState ∧ s.shared.readState ≠ ptInvalid ∧
      s.shared.currentState ≤ s'.shared.currentState ∧
      (s.shared.currentState = ptInMemory → s'.shared = s.shared) := by
  obtain ⟨ph,hi⟩ := latch_run h
  obtain ⟨hread,hvalid⟩ := Phase.readState_latch d₀ ph
  rw [← hi.latch] at hread hvalid
  refine ⟨hread,hread ▸ hvalid,hi.state_le h',hi.frozen h'⟩

theorem latch_state_monotone_waiting :
    ∃ tr s tr' s', (LatchSystem.new 0 : LatchSystem Bool Nat).run .debug
        (waitingSchedule.take 5) = some (tr,s) ∧
      s.run .debug (waitingSchedule.drop 5) = some (tr',s') ∧ s.shared.readState = ptLoading ∧
      s.shared.currentState ≤ s'.shared.currentState := by
  have hmono := @latch_state_monotone Bool Nat _ .debug 0 (waitingSchedule.take 5)
    (waitingSchedule.drop 5) _ _ _ _ rfl rfl
  exact ⟨_,_,_,_,rfl,rfl,rfl,hmono.2.2.1⟩

/-- A failed load is the end of the latch: no call returns after it, whatever
the callers do, and the latch stays as the failed call left it. -/
theorem failed_load_blocks {Tid T : Type} [DecidableEq Tid] (b : Build) (d₀ : T)
    (schedule schedule' : List (Tid × Action T)) (tr tr' : LatchTrace Tid T)
    (s s' : LatchSystem Tid T)
    (h : (LatchSystem.new d₀ : LatchSystem Tid T).run b schedule = some (tr,s))
    (h' : s.run b schedule' = some (tr',s')) (hfail : ¬ NoFailure tr) :
    (∀ t e, (t,e) ∈ tr' → e.returned = none) ∧ s'.shared = ⟨ptLoading,d₀⟩ := by
  obtain ⟨ph,hi⟩ := latch_run h
  rw [noFailure_iff,not_not] at hfail
  have habandoned : ∀ tr₁ u ph₁, LatchInv d₀ (tr ++ tr₁) u ph₁ → ph₁ = .abandoned := by
    intro tr₁ u ph₁ hi₁
    obtain ⟨t,e,hmem,hf⟩ := hfail
    exact hi₁.failed.mp ⟨t,e,List.mem_append_left _ hmem,hf⟩
  constructor
  · intro t e hmem
    obtain ⟨pre,post,rfl⟩ := List.append_of_mem hmem
    obtain ⟨as₁,a,as₂,s₁,s₂,rfl,hpre,hstep,-⟩ := runSteps_split h'
    obtain ⟨ph₁,hi₁⟩ := hi.run hpre
    obtain rfl := habandoned _ _ _ hi₁
    obtain ⟨e',pc',l',hmove,hx,-⟩ := Threads.step_some hstep
    cases hx
    exact hi₁.silent (latchMove_cases hmove)
  · obtain ⟨ph',hi'⟩ := hi.run h'
    obtain rfl := habandoned _ _ _ hi'
    exact hi'.latch

theorem failed_load_blocks_retry :
    ∃ tr s tr' s', (LatchSystem.new 0 : LatchSystem Unit Nat).run .debug failingSchedule =
        some (tr,s) ∧
      s.run .debug [((),.load (fun d => .ok (d+7))),((),.advance),((),.advance),((),.advance)] =
        some (tr',s') ∧ ¬ NoFailure tr ∧ ∀ t e, (t,e) ∈ tr' → e.returned = none := by
  have hfail : ¬ NoFailure ([((),.called),((),.observed 0),((),.exchanged true),
      ((),.worked 0 (.error "read failed"))] : LatchTrace Unit Nat) :=
    fun h => h () 0 "read failed" (by simp)
  have hblocks := @failed_load_blocks Unit Nat _ .debug 0 failingSchedule
    [((),.load (fun d => .ok (d+7))),((),.advance),((),.advance),((),.advance)] _ _ _ _ rfl rfl
    hfail
  exact ⟨_,_,_,_,rfl,rfl,hfail,hblocks.1⟩

/-! Data races -/

section Races
variable {Tid T : Type}

def Pc.ReadsData : Pc T → Prop
  | .readData | .runWork _ | .peekData _ => True
  | _ => False

def Pc.WritesData : Pc T → Prop
  | .writeData _ => True
  | _ => False

/-- Two threads are about to touch the data cell, one of them to write it. -/
def Race (s : LatchSystem Tid T) : Prop :=
  ∃ t u, t ≠ u ∧ (s.loc t).WritesData ∧ ((s.loc u).ReadsData ∨ (s.loc u).WritesData)

theorem Pc.WritesData.eq {pc : Pc T} (h : pc.WritesData) : ∃ v, pc = .writeData v := by
  cases pc with
  | writeData v => exact ⟨v,rfl⟩
  | idle | loadState _ _ | readData | compareExchange _ _ | runWork _ | storeState _ | backOff _ _
  | peekState | peekData _ | panicked => exact h.elim

variable {d₀ : T} {tr : LatchTrace Tid T} {s : LatchSystem Tid T} {ph : Phase Tid T}

theorem LatchInv.beside_writer (hi : LatchInv d₀ tr s ph) {t u : Tid} {v : T} (hne : t ≠ u)
    (ht : s.loc t = .writeData v) (hu : (s.loc u).ReadsData ∨ (s.loc u).WritesData) :
    ∃ st, s.loc u = .peekData st := by
  have hph := hi.allowed t
  rw [ht] at hph
  obtain rfl : ph = .writing t v := hph
  have hself := hi.allowed u
  cases hpc : s.loc u with
  | peekData st => exact ⟨st,rfl⟩
  | readData =>
    rw [hpc] at hself
    obtain ⟨w,hw⟩ := hself
    cases hw
  | runWork work =>
    rw [hpc] at hself
    cases hself
  | writeData w =>
    rw [hpc] at hself
    cases hself
    exact absurd rfl hne
  | idle | loadState _ _ | compareExchange _ _ | storeState _ | backOff _ _ | peekState
  | panicked =>
    rw [hpc] at hu
    exact (hu.elim id id).elim

end Races

def Pc.InPeek {T : Type} : Pc T → Prop
  | .peekState | .peekData _ => True
  | _ => False

theorem latchMove_inPeek {T : Type} {b : Build} {a : Action T} {pc pc' : Pc T}
    {l l' : PageTableLatch T} {e : Event T} (h : latchMove b a pc l = some (e,pc',l'))
    (ha : a ≠ .peek) (hpc : ¬ pc.InPeek) : ¬ pc'.InPeek := by
  cases a with
  | peek => exact absurd rfl ha
  | load work =>
    obtain ⟨-,-,rfl,-⟩ := latchMove_load h
    exact id
  | advance =>
    cases advance_cases h with
    | callLoad | callPeek => cases h
    | peekState | peekData => exact absurd trivial hpc
    | findInMemory | findOnDisk | findLoading | reject | read | win | lose | fail | finish | write
    | publish | overflow | wait => exact id

theorem not_peeking {Tid T : Type} [DecidableEq Tid] {b : Build} {d₀ : T}
    {schedule : List (Tid × Action T)} {tr : LatchTrace Tid T} {s : LatchSystem Tid T}
    (h : (LatchSystem.new d₀ : LatchSystem Tid T).run b schedule = some (tr,s))
    (hloads : ∀ a ∈ schedule, a.2 ≠ .peek) (t : Tid) : ¬ (s.loc t).InPeek := by
  refine runSteps_keeps (fun _ s => ∀ t, ¬ (s.loc t).InPeek) h (fun _ => id) ?_ t
  intro a ha _ s x s' hs hstep u
  obtain ⟨e,pc',l',hmove,-,rfl⟩ := Threads.step_some hstep
  by_cases hu : u = a.1
  · subst hu
    simpa using latchMove_inPeek hmove (hloads a ha) (hs a.1)
  · simpa [hu] using hs u

/-- Loads never race: the only two accesses that can meet are the loader's write
and the clone in `peek`. -/
theorem latch_race_iff {Tid T : Type} [DecidableEq Tid] (b : Build) (d₀ : T)
    (schedule : List (Tid × Action T)) (tr : LatchTrace Tid T) (s : LatchSystem Tid T)
    (h : (LatchSystem.new d₀ : LatchSystem Tid T).run b schedule = some (tr,s)) :
    (Race s ↔ ∃ t u v st, s.loc t = .writeData v ∧ s.loc u = .peekData st) ∧
      ((∀ a ∈ schedule, a.2 ≠ .peek) → ¬ Race s) := by
  obtain ⟨ph,hi⟩ := latch_run h
  have hrace : Race s → ∃ t u v st, s.loc t = .writeData v ∧ s.loc u = .peekData st := by
    rintro ⟨t,u,hne,hw,hu⟩
    obtain ⟨v,hv⟩ := hw.eq
    obtain ⟨st,hst⟩ := hi.beside_writer hne hv hu
    exact ⟨t,u,v,st,hv,hst⟩
  refine ⟨⟨hrace,?_⟩,?_⟩
  · rintro ⟨t,u,v,st,hv,hst⟩
    refine ⟨t,u,?_,by rw [hv]; trivial,.inl (by rw [hst]; trivial)⟩
    rintro rfl
    rw [hv] at hst
    cases hst
  · intro hloads hr
    obtain ⟨t,u,v,st,-,hst⟩ := hrace hr
    have hpeek := not_peeking h hloads u
    rw [hst] at hpeek
    exact hpeek trivial

def racingSchedule : List (Bool × Action Nat) :=
  [(false,.load (fun d => .ok (d+7))),(true,.peek),(true,.advance),(false,.advance),
    (false,.advance),(false,.advance)]

theorem latch_race_peek :
    ∃ tr s, (LatchSystem.new 0 : LatchSystem Bool Nat).run .debug racingSchedule = some (tr,s) ∧
      Race s := by
  refine ⟨_,_,rfl,?_⟩
  apply (@latch_race_iff Bool Nat _ .debug 0 racingSchedule _ _ rfl).1.mpr
  exact ⟨false,true,7,0,rfl,rfl⟩

/-! The way to the answer -/

section Answer
variable {T : Type} {b : Build} {d v : T} {work : Work T} {n : UInt8}

def Pc.pending : Pc T → Option (Work T)
  | .loadState work _ | .compareExchange work _ | .backOff work _ | .runWork work => some work
  | _ => none

def Pc.InLoad : Pc T → Prop
  | .idle | .peekState | .peekData _ | .panicked => False
  | _ => True

def Pc.Overflows (b : Build) : Pc T → Prop
  | .backOff _ n => incrementSpin b n = none
  | _ => False

/-- A thread that goes on alone returns, in at most `k` steps, and leaves the data
published. -/
def Finishes (b : Build) (k : Nat) (pc : Pc T) (l : PageTableLatch T) (v : T) : Prop :=
  ∃ j es e, j ≤ k ∧ Threads.soloRun (latchMove b) (List.replicate j .advance) pc l =
    some (es,.idle,⟨ptInMemory,v⟩) ∧ e ∈ es ∧ e.returned = some (.ok v)

theorem Finishes.mono {k k' : Nat} {pc : Pc T} {l : PageTableLatch T}
    (h : Finishes b k pc l v) (hk : k ≤ k') : Finishes b k' pc l v := by
  obtain ⟨j,es,e,hj,hrun,hmem,hret⟩ := h
  exact ⟨j,es,e,by omega,hrun,hmem,hret⟩

theorem Finishes.step {k : Nat} {pc pc' : Pc T} {l l' : PageTableLatch T} {e : Event T}
    (h : Finishes b k pc' l' v) (hstep : l.advance b pc = some (e,pc',l')) :
    Finishes b (k+1) pc l v := by
  obtain ⟨j,es,e',hj,hrun,hmem,hret⟩ := h
  refine ⟨j+1,e :: es,e',by omega,?_,List.mem_cons_of_mem _ hmem,hret⟩
  simp only [List.replicate_succ,Threads.soloRun,latchMove,hstep,Option.bind_eq_bind,
    Option.bind_some,hrun]
  rfl

theorem finishes_storeState : Finishes b 1 (.storeState v) ⟨ptLoading,v⟩ v :=
  ⟨1,[.stored v],.stored v,le_rfl,rfl,by simp,rfl⟩

theorem finishes_writeData : Finishes b 2 (.writeData v) ⟨ptLoading,d⟩ v :=
  finishes_storeState.step rfl

theorem finishes_runWork (hw : work d = .ok v) :
    Finishes b 3 (.runWork work) ⟨ptLoading,d⟩ v := by
  have hstep : (⟨ptLoading,d⟩ : PageTableLatch T).advance b (.runWork work) =
      some (.worked d (.ok v),.writeData v,⟨ptLoading,d⟩) := by
    simp [PageTableLatch.advance,hw]
  exact finishes_writeData.step hstep

theorem finishes_readData : Finishes b 1 .readData ⟨ptInMemory,v⟩ v :=
  ⟨1,[.read v],.read v,le_rfl,rfl,by simp,rfl⟩

theorem Finishes.backOff {k : Nat} {l : PageTableLatch T}
    (h : ∀ n, Finishes b k (.loadState work n) l v) (hn : ¬ (Pc.backOff work n).Overflows b) :
    Finishes b (k+1) (.backOff work n) l v := by
  cases hi : incrementSpin b n with
  | none => exact absurd hi hn
  | some next =>
    have hstep : l.advance b (.backOff work n) =
        some (.backedOff (backOffStage n),.loadState work next,l) := by
      simp [PageTableLatch.advance,hi]
    exact (h next).step hstep

theorem finishes_inMemory {pc : Pc T} (hpc : ¬ pc.Critical) (hin : pc.InLoad)
    (hover : ¬ pc.Overflows b) : Finishes b 3 pc ⟨ptInMemory,v⟩ v := by
  have hload : ∀ work n, Finishes b 2 (.loadState work n) ⟨ptInMemory,v⟩ v :=
    fun work n => finishes_readData.step rfl
  cases pc with
  | readData => exact finishes_readData.mono (by omega)
  | loadState work n => exact (hload work n).mono (by omega)
  | compareExchange work n => exact (hload work n).step rfl
  | backOff work n => exact Finishes.backOff (hload work) hover
  | runWork _ | writeData _ | storeState _ => exact absurd trivial hpc
  | idle | peekState | peekData _ | panicked => exact hin.elim

theorem finishes_onDisk {pc : Pc T} (hpc : pc.Free) (hin : pc.InLoad) (hover : ¬ pc.Overflows b)
    (hwork : ∀ work, pc.pending = some work → work d = .ok v) :
    Finishes b 6 pc ⟨ptOnDisk,d⟩ v := by
  have hexchange : ∀ work n, work d = .ok v →
      Finishes b 4 (.compareExchange work n) ⟨ptOnDisk,d⟩ v :=
    fun work n hw => (finishes_runWork hw).step rfl
  have hload : ∀ work n, work d = .ok v → Finishes b 5 (.loadState work n) ⟨ptOnDisk,d⟩ v :=
    fun work n hw => (hexchange work n hw).step rfl
  cases pc with
  | compareExchange work n => exact (hexchange work n (hwork work rfl)).mono (by omega)
  | loadState work n => exact (hload work n (hwork work rfl)).mono (by omega)
  | backOff work n => exact Finishes.backOff (fun n => hload work n (hwork work rfl)) hover
  | readData => exact absurd rfl hpc.2
  | runWork _ | writeData _ | storeState _ => exact absurd trivial hpc.1
  | idle | peekState | peekData _ | panicked => exact hin.elim

end Answer

section Helped
variable {Tid T : Type} [DecidableEq Tid] {b : Build} {d₀ : T} {tr : LatchTrace Tid T}
  {s : LatchSystem Tid T} {ph : Phase Tid T}

/-- Thread `t` gets an answer by `k` more steps at most, all of them its own or
those of one other thread. -/
def Answered (b : Build) (s : LatchSystem Tid T) (t : Tid) (k : Nat) : Prop :=
  ∃ (u : Tid) (schedule : List (Tid × Action T)) (tr : LatchTrace Tid T) (s' : LatchSystem Tid T)
    (e : Event T) (v : T),
    s.run b schedule = some (tr,s') ∧ schedule.length ≤ k ∧
      (∀ a ∈ schedule, (a.1 = t ∨ a.1 = u) ∧ a.2 = .advance) ∧
      (t,e) ∈ tr ∧ e.returned = some (.ok v)

theorem Finishes.run {t : Tid} {k : Nat} {v : T} (h : Finishes b k (s.loc t) s.shared v) :
    ∃ j tr e, j ≤ k ∧ s.run b (List.replicate j (t,.advance)) =
      some (tr,⟨⟨ptInMemory,v⟩,Function.update s.loc t .idle⟩) ∧ (t,e) ∈ tr ∧
        e.returned = some (.ok v) := by
  obtain ⟨j,es,e,hj,hrun,hmem,hret⟩ := h
  have hsolo := Threads.runSteps_solo hrun
  rw [List.map_replicate] at hsolo
  exact ⟨j,_,e,hj,hsolo,List.mem_map_of_mem hmem,hret⟩

theorem Finishes.answered {t : Tid} {k : Nat} {v : T} (h : Finishes b k (s.loc t) s.shared v) :
    Answered b s t k := by
  obtain ⟨j,tr,e,hj,hrun,hmem,hret⟩ := h.run
  refine ⟨t,_,tr,_,e,v,hrun,by simpa using hj,?_,hmem,hret⟩
  intro a ha
  rw [List.eq_of_mem_replicate ha]
  exact ⟨.inl rfl,rfl⟩

theorem Finishes.help {t u : Tid} {v : T} (hne : t ≠ u)
    (h : Finishes b 3 (s.loc u) s.shared v) (hpc : ¬ (s.loc t).Critical)
    (hin : (s.loc t).InLoad) (hover : ¬ (s.loc t).Overflows b) : Answered b s t 6 := by
  obtain ⟨j,tr,e,hj,hrun,-⟩ := h.run
  have hlocal : (Function.update s.loc u .idle) t = s.loc t := Function.update_of_ne hne _ _
  have hrest := finishes_inMemory (v := v) hpc hin hover
  rw [← hlocal] at hrest
  obtain ⟨j',tr',e',hj',hrun',hmem,hret⟩ :=
    Finishes.run (s := ⟨⟨ptInMemory,v⟩,Function.update s.loc u .idle⟩) hrest
  refine ⟨u,_,_,_,e',v,runSteps_append hrun hrun',?_,?_,List.mem_append_right _ hmem,hret⟩
  · simp only [List.length_append,List.length_replicate]
    omega
  · intro a ha
    rcases List.mem_append.mp ha with ha | ha
    · rw [List.eq_of_mem_replicate ha]
      exact ⟨.inr rfl,rfl⟩
    · rw [List.eq_of_mem_replicate ha]
      exact ⟨.inl rfl,rfl⟩

omit [DecidableEq Tid] in
theorem LatchInv.owner_finishes (hi : LatchInv d₀ tr s ph) {u : Tid} (ho : ph.owner = some u)
    (hwork : ∀ work, (s.loc u).pending = some work → ∃ v, work d₀ = .ok v) :
    ∃ v, Finishes b 3 (s.loc u) s.shared v := by
  have hc := hi.owner u ho
  have hself := hi.allowed u
  rw [hi.latch]
  cases hpc : s.loc u with
  | runWork work =>
    rw [hpc] at hself hwork
    obtain ⟨v,hv⟩ := hwork work rfl
    rw [show ph = .working u from hself]
    exact ⟨v,finishes_runWork hv⟩
  | writeData v =>
    rw [hpc] at hself
    rw [show ph = .writing u v from hself]
    exact ⟨v,finishes_writeData.mono (by omega)⟩
  | storeState v =>
    rw [hpc] at hself
    rw [show ph = .publishing u v from hself]
    exact ⟨v,finishes_storeState.mono (by omega)⟩
  | idle | loadState _ _ | readData | compareExchange _ _ | backOff _ _ | peekState | peekData _
  | panicked =>
    rw [hpc] at hc
    exact hc.elim

omit [DecidableEq Tid] in
theorem LatchInv.onDisk_finishes (hi : LatchInv d₀ tr s .onDisk) {t : Tid}
    (hwork : ∀ work, (s.loc t).pending = some work → ∃ v, work d₀ = .ok v)
    (hin : (s.loc t).InLoad) (hover : ¬ (s.loc t).Overflows b) :
    ∃ v, Finishes b 6 (s.loc t) s.shared v := by
  have hfree : (s.loc t).Free :=
    Phase.free_of_allows (hi.allowed t) (by simp [Phase.owner]) (by simp)
  rw [hi.latch]
  cases hp : (s.loc t).pending with
  | none => exact ⟨d₀,finishes_onDisk hfree hin hover (fun work h => by rw [hp] at h; cases h)⟩
  | some work =>
    obtain ⟨v,hv⟩ := hwork work hp
    refine ⟨v,finishes_onDisk hfree hin hover (fun work' h => ?_)⟩
    rw [hp] at h
    cases h
    exact hv

theorem LatchInv.answered (hi : LatchInv d₀ tr s ph) (hph : ph ≠ .abandoned)
    (hwork : ∀ u work, (s.loc u).pending = some work → ∃ v, work d₀ = .ok v) {t : Tid}
    (hin : (s.loc t).InLoad) (hover : ¬ (s.loc t).Overflows b) : Answered b s t 6 := by
  cases ho : ph.owner with
  | some u =>
    obtain ⟨v,hv⟩ := hi.owner_finishes (b := b) ho (hwork u)
    by_cases htu : t = u
    · subst htu
      exact (hv.mono (by omega)).answered
    · refine Finishes.help htu hv (fun hc => htu ?_) hin hover
      have hown := Phase.owner_of_critical (hi.allowed t) hc
      exact Option.some.inj (hown.symm.trans ho)
  | none =>
    cases ph with
    | onDisk =>
      obtain ⟨v,hv⟩ := hi.onDisk_finishes (hwork t) hin hover
      exact hv.answered
    | inMemory v =>
      have hc : ¬ (s.loc t).Critical := by
        intro hc
        have hown := Phase.owner_of_critical (hi.allowed t) hc
        cases hown
      have hv := finishes_inMemory (v := v) hc hin hover
      rw [← show s.shared = ⟨ptInMemory,v⟩ from hi.latch] at hv
      exact (hv.mono (by omega)).answered
    | abandoned => exact absurd rfl hph
    | working _ | writing _ _ | publishing _ _ => cases ho

end Helped

/-- No caller is far from its answer. While no load has failed and the closures
that may still run succeed, a thread inside `load` returns within six steps, with
the help of at most one other thread, however many are waiting. -/
theorem load_answered {Tid T : Type} [DecidableEq Tid] (b : Build) (d₀ : T)
    (schedule : List (Tid × Action T)) (tr : LatchTrace Tid T) (s : LatchSystem Tid T)
    (h : (LatchSystem.new d₀ : LatchSystem Tid T).run b schedule = some (tr,s))
    (hok : NoFailure tr)
    (hwork : ∀ u work, (s.loc u).pending = some work → ∃ v, work d₀ = .ok v) (t : Tid)
    (hin : (s.loc t).InLoad) (hover : ¬ (s.loc t).Overflows b) : Answered b s t 6 := by
  obtain ⟨ph,hi⟩ := latch_run h
  rw [noFailure_iff,hi.failed] at hok
  exact hi.answered hok hwork hin hover

theorem load_answered_waiting :
    ∃ tr s, (LatchSystem.new 0 : LatchSystem Bool Nat).run .debug (waitingSchedule.take 5) =
        some (tr,s) ∧ (s.loc true).InLoad ∧ Answered .debug s true 6 := by
  refine ⟨_,_,rfl,trivial,load_answered .debug 0 (waitingSchedule.take 5) _ _ rfl ?_ ?_ true
    trivial ?_⟩
  · intro t arg err hmem
    simp at hmem
  · intro u work hp
    cases u with
    | false =>
      cases hp
      exact ⟨7,rfl⟩
    | true =>
      cases hp
      exact ⟨1,rfl⟩
  · intro hover
    cases hover

end InkDB
