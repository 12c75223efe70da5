import InkDB.Latch

/-!
The back-off of one `load` call. The counter lives in the waiting thread alone,
so its invariant is about one thread's location and the events of its latest
call; interleaving only decides how often it finds `PT_LOADING`.
-/

set_option autoImplicit false

namespace InkDB

section Events
variable {T : Type}

def Event.stage : Event T → Option BackOff
  | .backedOff stage | .overflowed stage => some stage
  | _ => none

def Event.isWait : Event T → Bool
  | .backedOff _ | .overflowed _ => true
  | _ => false

def Event.sawLoading : Event T → Bool
  | .observed state => decide (state = ptLoading)
  | _ => false

def waits (evs : List (Event T)) : Nat := evs.countP Event.isWait

def observations (evs : List (Event T)) : Nat := evs.countP Event.sawLoading

def stages (evs : List (Event T)) : List BackOff := evs.filterMap Event.stage

def Event.record (evs : List (Event T)) : Event T → List (Event T)
  | .called => []
  | e => evs ++ [e]

def Pc.spinCount : Pc T → Option UInt8
  | .loadState _ n => some n
  | .compareExchange _ n => some n
  | .backOff _ n => some n
  | _ => none

def Pc.InLoop : Pc T → Prop
  | .loadState _ _ | .compareExchange _ _ | .backOff _ _ | .panicked => True
  | _ => False

end Events

/-- The events of the latest call of thread `t`. -/
def callEvents {Tid T : Type} [DecidableEq Tid] (t : Tid) (tr : LatchTrace Tid T) :
    List (Event T) :=
  tr.foldl (fun evs x => if x.1 = t then x.2.record evs else evs) []

/-- Spin ten times, yield forty times, then sleep. -/
def intendedStage (i : Nat) : BackOff :=
  if i < 10 then .spinLoop else if i < 50 then .yieldNow else .sleep

theorem backOffStage_ofNat {i : Nat} (h : i < 256) :
    backOffStage (UInt8.ofNat i) = intendedStage i := by
  have hi : (UInt8.ofNat i).toNat = i := by simp; omega
  have h₁ : UInt8.ofNat i < spinLimit ↔ i < 10 := by rw [UInt8.lt_iff_toNat_lt,hi]; rfl
  have h₂ : UInt8.ofNat i < yieldLimit ↔ i < 50 := by rw [UInt8.lt_iff_toNat_lt,hi]; rfl
  simp only [backOffStage,intendedStage,h₁,h₂]

theorem incrementSpin_eq_none {b : Build} {n : UInt8} (h : incrementSpin b n = none) :
    b = .debug ∧ n = 255 := by
  cases b with
  | release => cases h
  | debug =>
    simp only [incrementSpin] at h
    split at h
    · exact ⟨rfl,‹_›⟩
    · cases h

theorem incrementSpin_eq_some {b : Build} {n next : UInt8} (h : incrementSpin b n = some next) :
    (b = .debug → n ≠ 255) ∧ next = n+1 := by
  cases b with
  | release =>
    cases h
    exact ⟨by simp,rfl⟩
  | debug =>
    simp only [incrementSpin] at h
    split at h
    · cases h
    · cases h
      exact ⟨fun _ => ‹_›,rfl⟩

section Thread
variable {T : Type} {b : Build} {evs : List (Event T)} {pending : Nat}

/-- What the events of a call say while it waits: `pending` observations have
not been backed off from yet. -/
structure Waited (b : Build) (evs : List (Event T)) (pending : Nat) : Prop where
  chosen : stages evs =
    (List.range (waits evs)).map (fun i => backOffStage (UInt8.ofNat i))
  unbroken : ∀ stage, Event.overflowed stage ∉ evs
  bounded : b = .debug → waits evs ≤ 255
  observed : observations evs = waits evs+pending

def WaitInv (b : Build) (evs : List (Event T)) : Pc T → Prop
  | .loadState _ n => Waited b evs 0 ∧ n = UInt8.ofNat (waits evs)
  | .compareExchange _ n => Waited b evs 0 ∧ n = UInt8.ofNat (waits evs)
  | .backOff _ n => Waited b evs 1 ∧ n = UInt8.ofNat (waits evs)
  | .panicked =>
      (∃ stage, Event.overflowed stage ∈ evs) ∧ waits evs = 256 ∧ observations evs = 256
  | _ => Waited b evs 0

theorem waited_nil (b : Build) : Waited b ([] : List (Event T)) 0 :=
  ⟨rfl,by simp,fun _ => Nat.zero_le _,rfl⟩

theorem waits_snoc (e : Event T) : waits (evs ++ [e]) = waits evs+e.isWait.toNat := by
  cases h : e.isWait <;> simp [waits,h]

theorem observations_snoc (e : Event T) :
    observations (evs ++ [e]) = observations evs+e.sawLoading.toNat := by
  cases h : e.sawLoading <;> simp [observations,h]

theorem stages_snoc (e : Event T) : stages (evs ++ [e]) = stages evs ++ e.stage.toList := by
  cases h : e.stage <;> simp [stages,h]

theorem ofNat_waits {e : Event T} (he : e.isWait = false) :
    UInt8.ofNat (waits evs) = UInt8.ofNat (waits (evs ++ [e])) := by
  rw [waits_snoc,he]
  rfl

/-- One more event. A back-off takes the stage of the present count. -/
theorem Waited.snoc (h : Waited b evs pending) {e : Event T} {pending' : Nat}
    (he : ∀ stage, e ≠ .overflowed stage)
    (hs : e.stage.toList =
      if e.isWait then [backOffStage (UInt8.ofNat (waits evs))] else [])
    (hb : b = .debug → waits evs+e.isWait.toNat ≤ 255)
    (ho : pending+e.sawLoading.toNat = e.isWait.toNat+pending') :
    Waited b (evs ++ [e]) pending' := by
  refine ⟨?_,?_,?_,?_⟩
  · rw [stages_snoc,waits_snoc,hs,h.chosen]
    cases e.isWait with
    | false => simp
    | true => simp [List.range_succ]
  · intro stage
    simpa using ⟨h.unbroken stage,(he stage).symm⟩
  · rw [waits_snoc]
    exact hb
  · rw [observations_snoc,waits_snoc,h.observed]
    omega

theorem Waited.other (h : Waited b evs pending) {e : Event T} (hs : e.stage = none)
    (hw : e.isWait = false) (ho : e.sawLoading = false) : Waited b (evs ++ [e]) pending := by
  apply h.snoc
  · rintro stage rfl
    cases hw
  · rw [hs,hw]
    rfl
  · rw [hw]
    exact h.bounded
  · rw [hw,ho]
    exact Nat.add_comm _ _

theorem WaitInv.overflow {work : Work T} {n : UInt8} (h : WaitInv b evs (.backOff work n))
    (hn : incrementSpin b n = none) :
    WaitInv b (evs ++ [.overflowed (backOffStage n)]) (.panicked : Pc T) := by
  obtain ⟨rfl,rfl⟩ := incrementSpin_eq_none hn
  obtain ⟨hw,hcount⟩ := h
  have hmod : waits evs%256 = 255 := by
    have hval := congrArg UInt8.toNat hcount.symm
    simpa using hval
  have hle := hw.bounded rfl
  have hobs := hw.observed
  have hwaits : waits (evs ++ [.overflowed (backOffStage 255)]) = waits evs+1 := waits_snoc _
  have hsame : observations (evs ++ [.overflowed (backOffStage 255)]) = observations evs :=
    observations_snoc _
  refine ⟨⟨backOffStage 255,by simp⟩,?_,?_⟩
  · omega
  · omega

theorem WaitInv.wait {work : Work T} {n next : UInt8} (h : WaitInv b evs (.backOff work n))
    (hn : incrementSpin b n = some next) :
    WaitInv b (evs ++ [.backedOff (backOffStage n)]) (.loadState work next) := by
  obtain ⟨hb,rfl⟩ := incrementSpin_eq_some hn
  obtain ⟨hw,rfl⟩ := h
  refine ⟨hw.snoc (by simp) rfl ?_ rfl,?_⟩
  · intro hd
    have hle := hw.bounded hd
    have hne : waits evs ≠ 255 := fun heq => hb hd (by rw [heq]; rfl)
    show waits evs+1 ≤ 255
    omega
  · rw [waits_snoc]
    exact (UInt8.ofNat_add _ _).symm

theorem WaitInv.move {l l' : PageTableLatch T} {pc pc' : Pc T} {e : Event T}
    (h : WaitInv b evs pc) (hm : LatchStep b pc l e pc' l') :
    WaitInv b (e.record evs) pc' := by
  cases hm with
  | callLoad => exact ⟨waited_nil b,rfl⟩
  | callPeek => exact waited_nil b
  | findInMemory hmem =>
    exact h.1.other rfl rfl (by rw [hmem]; rfl)
  | findOnDisk hdisk =>
    exact ⟨h.1.other rfl rfl (by rw [hdisk]; rfl),h.2.trans (ofNat_waits rfl)⟩
  | findLoading hload =>
    rw [hload]
    exact ⟨h.1.snoc (by simp) rfl h.1.bounded rfl,h.2.trans (ofNat_waits rfl)⟩
  | reject | win => exact h.1.other rfl rfl rfl
  | lose => exact ⟨h.1.other rfl rfl rfl,h.2.trans (ofNat_waits rfl)⟩
  | overflow hn => exact h.overflow hn
  | wait hn => exact h.wait hn
  | read | fail | finish | write | publish | peekState | peekData =>
    exact Waited.other h rfl rfl rfl

end Thread

section Runs
variable {Tid T : Type} [DecidableEq Tid] {b : Build} {d₀ : T} {schedule : List (Tid × Action T)}
  {tr : LatchTrace Tid T} {s : LatchSystem Tid T}

theorem callEvents_snoc (t u : Tid) (e : Event T) :
    callEvents t (tr ++ [(u,e)]) =
      if u = t then e.record (callEvents t tr) else callEvents t tr := by
  rw [callEvents,List.foldl_append]
  rfl

theorem wait_run (h : (LatchSystem.new d₀ : LatchSystem Tid T).run b schedule = some (tr,s))
    (t : Tid) : WaitInv b (callEvents t tr) (s.loc t) := by
  have hinit : WaitInv b (callEvents t ([] : LatchTrace Tid T))
      ((LatchSystem.new d₀ : LatchSystem Tid T).loc t) := waited_nil b
  apply runSteps_reaches (fun tr s => WaitInv b (callEvents t tr) (s.loc t)) h hinit
  intro tr s a x s' hi hstep
  obtain ⟨e,pc',l',hmove,rfl,rfl⟩ := Threads.step_some hstep
  rw [callEvents_snoc]
  by_cases hu : a.1 = t
  · subst hu
    simpa using hi.move (latchMove_cases hmove)
  · simpa [hu,Function.update_of_ne (Ne.symm hu)] using hi

end Runs

/-- No increment is lost or panics, and the stages come in the intended order. -/
structure BacksOff {T : Type} (evs : List (Event T)) (pc : Pc T) : Prop where
  unbroken : ∀ stage, Event.overflowed stage ∉ evs
  exact : ∀ n, pc.spinCount = some n → n.toNat = waits evs
  ordered : stages evs = (List.range (waits evs)).map intendedStage

section Iff
variable {T : Type} {b : Build} {evs : List (Event T)} {pc : Pc T}

theorem WaitInv.observed (h : WaitInv b evs pc) : observations evs = waits evs ∨
    (∃ work n, pc = .backOff work n) ∧ observations evs = waits evs+1 := by
  cases pc with
  | backOff work n => exact .inr ⟨⟨work,n,rfl⟩,h.1.observed⟩
  | panicked => exact .inl (h.2.2.trans h.2.1.symm)
  | loadState _ _ | compareExchange _ _ => exact .inl h.1.observed
  | idle | readData | runWork _ | writeData _ | storeState _ | peekState | peekData _ =>
    exact .inl (Waited.observed h)

theorem WaitInv.spinCount (h : WaitInv b evs pc) {n : UInt8} (hn : pc.spinCount = some n) :
    n = UInt8.ofNat (waits evs) := by
  cases pc with
  | loadState _ _ | compareExchange _ _ | backOff _ _ =>
    cases hn
    exact h.2
  | idle | readData | runWork _ | writeData _ | storeState _ | peekState | peekData _ | panicked =>
    cases hn

theorem WaitInv.waited (h : WaitInv b evs pc) (hle : waits evs ≤ 255) :
    ∃ pending, Waited b evs pending := by
  cases pc with
  | loadState _ _ | compareExchange _ _ | backOff _ _ => exact ⟨_,h.1⟩
  | panicked =>
    have h256 : waits evs = 256 := h.2.1
    omega
  | idle | readData | runWork _ | writeData _ | storeState _ | peekState | peekData _ =>
    exact ⟨0,h⟩

theorem WaitInv.backsOff (h : WaitInv b evs pc) (hle : waits evs ≤ 255) : BacksOff evs pc := by
  obtain ⟨pending,hw⟩ := h.waited hle
  refine ⟨hw.unbroken,?_,?_⟩
  · intro n hn
    rw [h.spinCount hn]
    simp
    omega
  · rw [hw.chosen]
    apply List.map_congr_left
    intro i hi
    exact backOffStage_ofNat (by rw [List.mem_range] at hi; omega)

/-- The counter holds 255 at most, so from the 256th back-off on it is wrong, or
the thread is gone. -/
theorem WaitInv.not_backsOff (h : WaitInv b evs pc) (hloop : pc.InLoop) (hgt : 255 < waits evs) :
    ¬ BacksOff evs pc := by
  intro hb
  have hlost : ∀ n, pc.spinCount ≠ some n := by
    intro n hn
    have hlt := n.toNat_lt
    have hexact := hb.exact n hn
    omega
  cases pc with
  | loadState _ n => exact hlost n rfl
  | compareExchange _ n => exact hlost n rfl
  | backOff _ n => exact hlost n rfl
  | panicked =>
    obtain ⟨stage,hmem⟩ := h.1
    exact hb.unbroken stage hmem
  | idle | readData | runWork _ | writeData _ | storeState _ | peekState | peekData _ =>
    exact hloop

end Iff

/-- Whatever the interleaving, the call behaves for its first 255 back-offs, and
no longer. -/
theorem back_off_in_order_iff {Tid T : Type} [DecidableEq Tid] (b : Build) (d₀ : T)
    (schedule : List (Tid × Action T)) (tr : LatchTrace Tid T) (s : LatchSystem Tid T)
    (h : (LatchSystem.new d₀ : LatchSystem Tid T).run b schedule = some (tr,s)) (t : Tid) :
    (observations (callEvents t tr) = waits (callEvents t tr) ∨
      (∃ work n, s.loc t = .backOff work n) ∧
        observations (callEvents t tr) = waits (callEvents t tr)+1) ∧
    (waits (callEvents t tr) ≤ 255 → BacksOff (callEvents t tr) (s.loc t)) ∧
    ((s.loc t).InLoop →
      (BacksOff (callEvents t tr) (s.loc t) ↔ waits (callEvents t tr) ≤ 255)) := by
  have hinv := wait_run h t
  refine ⟨hinv.observed,hinv.backsOff,fun hloop => ⟨fun hb => ?_,hinv.backsOff⟩⟩
  exact Nat.not_lt.mp (fun hgt => hinv.not_backsOff hloop hgt hb)

def heldSchedule : List (Bool × Action Nat) :=
  [(false,.load .ok),(false,.advance),(false,.advance),(true,.load .ok)]

theorem back_off_once :
    ∃ tr s, (LatchSystem.new 0 : LatchSystem Bool Nat).run .debug
        (heldSchedule ++ [(true,.advance),(true,.advance)]) = some (tr,s) ∧
      waits (callEvents true tr) = 1 ∧ BacksOff (callEvents true tr) (s.loc true) :=
  ⟨_,_,rfl,rfl,(back_off_in_order_iff .debug 0
    (heldSchedule ++ [(true,.advance),(true,.advance)]) _ _ rfl true).2.1 (by decide)⟩

theorem held_waits (k : Nat) :
    ∃ schedule tr s, (LatchSystem.new 0 : LatchSystem Bool Nat).run .release schedule =
        some (tr,s) ∧ s.shared = ⟨ptLoading,0⟩ ∧ (∃ work n, s.loc true = .loadState work n) ∧
      waits (callEvents true tr) = k := by
  induction k with
  | zero => exact ⟨heldSchedule,_,_,rfl,rfl,⟨_,_,rfl⟩,rfl⟩
  | succ k ih =>
    obtain ⟨schedule,tr,s,hrun,hlatch,⟨work,n,hloc⟩,hk⟩ := ih
    have hsolo : Threads.soloRun (latchMove .release) [.advance,.advance] (s.loc true) s.shared =
        some ([.observed ptLoading,.backedOff (backOffStage n)],.loadState work (n+1),
          ⟨ptLoading,0⟩) := by
      rw [hloc,hlatch]
      rfl
    have hrun' := runSteps_append hrun (Threads.runSteps_solo hsolo)
    refine ⟨_,_,_,hrun',rfl,⟨work,n+1,by simp⟩,?_⟩
    have happend : tr ++ [Event.observed ptLoading,.backedOff (backOffStage n)].map (true,·) =
        tr ++ [(true,.observed ptLoading)] ++ [(true,.backedOff (backOffStage n))] := by simp
    rw [happend,callEvents_snoc,if_pos rfl,callEvents_snoc,if_pos rfl]
    simp only [Event.record]
    rw [waits_snoc,waits_snoc,hk]
    rfl

theorem back_off_overflows :
    ¬ ∀ (Tid T : Type) [DecidableEq Tid] (b : Build) (d₀ : T) (schedule : List (Tid × Action T))
      (tr : LatchTrace Tid T) (s : LatchSystem Tid T) (t : Tid),
      (LatchSystem.new d₀ : LatchSystem Tid T).run b schedule = some (tr,s) →
        BacksOff (callEvents t tr) (s.loc t) := by
  intro hall
  obtain ⟨schedule,tr,s,hrun,-,⟨work,n,hloc⟩,hk⟩ := held_waits 256
  have hloop : (s.loc true).InLoop := by rw [hloc]; trivial
  have hb := hall Bool Nat .release 0 schedule tr s true hrun
  exact (wait_run hrun true).not_backsOff hloop (by omega) hb

end InkDB
