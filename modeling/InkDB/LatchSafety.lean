import InkDB.Latch

/-!
Safety of the latch over every interleaving. A run is always in one of six
phases; the phase fixes the latch, which thread is inside the critical section,
and what the trace so far may contain.
-/

set_option autoImplicit false

namespace InkDB

/-- How far the one load has come. `abandoned` is left behind by failed work. -/
inductive Phase (Tid T : Type) where
  | onDisk
  | working (t : Tid)
  | writing (t : Tid) (v : T)
  | publishing (t : Tid) (v : T)
  | abandoned
  | inMemory (v : T)

namespace Phase
variable {Tid T : Type}

def latch (d₀ : T) : Phase Tid T → PageTableLatch T
  | .onDisk => ⟨ptOnDisk,d₀⟩
  | .working _ => ⟨ptLoading,d₀⟩
  | .writing _ _ => ⟨ptLoading,d₀⟩
  | .publishing _ v => ⟨ptLoading,v⟩
  | .abandoned => ⟨ptLoading,d₀⟩
  | .inMemory v => ⟨ptInMemory,v⟩

def owner : Phase Tid T → Option Tid
  | .working t => some t
  | .writing t _ => some t
  | .publishing t _ => some t
  | _ => none

def loaded : Phase Tid T → List T
  | .writing _ v => [v]
  | .publishing _ v => [v]
  | .inMemory v => [v]
  | _ => []

def written : Phase Tid T → List T
  | .publishing _ v => [v]
  | .inMemory v => [v]
  | _ => []

/-- Where thread `t` may stand. -/
def Allows (ph : Phase Tid T) (t : Tid) : Pc T → Prop
  | .runWork _ => ph = .working t
  | .writeData v => ph = .writing t v
  | .storeState v => ph = .publishing t v
  | .readData => ∃ v, ph = .inMemory v
  | _ => True

end Phase

def Pc.Free {T : Type} (pc : Pc T) : Prop := ¬ pc.Critical ∧ pc ≠ .readData

section Phases
variable {Tid T : Type}

theorem Pc.Free.allowed {pc : Pc T} (h : pc.Free) (ph : Phase Tid T) (t : Tid) :
    ph.Allows t pc := by
  cases pc with
  | runWork _ | writeData _ | storeState _ => exact absurd trivial h.1
  | readData => exact absurd rfl h.2
  | idle | loadState _ _ | compareExchange _ _ | backOff _ _ | peekState | peekData _ | panicked =>
    trivial

theorem Phase.owner_of_critical {ph : Phase Tid T} {t : Tid} {pc : Pc T} (h : ph.Allows t pc)
    (hc : pc.Critical) : ph.owner = some t := by
  cases pc with
  | runWork _ => rw [show ph = _ from h]; rfl
  | writeData _ => rw [show ph = _ from h]; rfl
  | storeState _ => rw [show ph = _ from h]; rfl
  | idle | loadState _ _ | readData | compareExchange _ _ | backOff _ _ | peekState | peekData _
  | panicked => exact hc.elim

theorem Phase.free_of_allows {ph : Phase Tid T} {t : Tid} {pc : Pc T} (h : ph.Allows t pc)
    (ho : ph.owner ≠ some t) (hm : ∀ v, ph ≠ .inMemory v) : pc.Free := by
  refine ⟨fun hc => ho (Phase.owner_of_critical h hc),?_⟩
  rintro rfl
  obtain ⟨v,hv⟩ := h
  exact hm v hv

theorem Phase.inMemory_of_state {ph : Phase Tid T} {d₀ : T}
    (h : (ph.latch d₀).state = ptInMemory) : ∃ v, ph = .inMemory v := by
  cases ph with
  | inMemory v => exact ⟨v,rfl⟩
  | onDisk | working _ | writing _ _ | publishing _ _ | abandoned =>
    simp [latch,ptOnDisk,ptLoading,ptInMemory] at h

theorem Phase.state_known (ph : Phase Tid T) (d₀ : T) :
    (ph.latch d₀).state = ptInMemory ∨ (ph.latch d₀).state = ptOnDisk ∨
      (ph.latch d₀).state = ptLoading := by
  cases ph <;> simp [latch]

theorem Phase.onDisk_of_state {ph : Phase Tid T} {d₀ : T}
    (h : (ph.latch d₀).state = ptOnDisk) : ph = .onDisk := by
  cases ph with
  | onDisk => rfl
  | working _ | writing _ _ | publishing _ _ | abandoned | inMemory _ =>
    simp [latch,ptOnDisk,ptLoading,ptInMemory] at h

end Phases

/-- The invariant that ties latch, threads and trace to a phase. -/
structure LatchInv {Tid T : Type} (d₀ : T) (tr : LatchTrace Tid T) (s : LatchSystem Tid T)
    (ph : Phase Tid T) : Prop where
  latch : s.shared = ph.latch d₀
  allowed : ∀ t, ph.Allows t (s.loc t)
  owner : ∀ t, ph.owner = some t → (s.loc t).Critical
  loaded : tr.filterMap (fun x => x.2.workOk) = ph.loaded
  written : tr.filterMap (fun x => x.2.written) = ph.written
  args : ∀ t arg r, (t,.worked arg r) ∈ tr → arg = d₀
  returns : ∀ t e v, (t,e) ∈ tr → e.returned = some (.ok v) → ph = .inMemory v
  accepted : ∀ t st, (t,.rejected st) ∉ tr
  failed : (∃ t e, (t,e) ∈ tr ∧ e.Failed) ↔ ph = .abandoned

theorem latchInv_new {Tid T : Type} (d₀ : T) :
    LatchInv d₀ [] (LatchSystem.new d₀ : LatchSystem Tid T) .onDisk := by
  refine ⟨rfl,fun _ => trivial,nofun,rfl,rfl,nofun,nofun,nofun,?_⟩
  exact ⟨fun ⟨_,_,h,_⟩ => absurd h (by simp),fun h => by cases h⟩

section Quiet
variable {T : Type} {e : Event T} (h : e.Quiet)
include h

theorem Event.Quiet.workOk : e.workOk = none := by
  cases e <;> first | rfl | exact h.elim

theorem Event.Quiet.written : e.written = none := by
  cases e <;> first | rfl | exact h.elim

theorem Event.Quiet.not_failed : ¬ e.Failed := by
  cases e <;> first | exact id | exact h.elim

theorem Event.Quiet.not_worked (arg : T) (r : Except String T) : e ≠ .worked arg r := by
  rintro rfl
  exact h

theorem Event.Quiet.not_rejected (st : UInt8) : e ≠ .rejected st := by
  rintro rfl
  exact h

end Quiet

theorem mem_snoc {Tid T : Type} {tr : LatchTrace Tid T} {t u : Tid} {e e' : Event T} :
    (u,e') ∈ tr ++ [(t,e)] ↔ (u,e') ∈ tr ∨ u = t ∧ e' = e := by
  rw [List.mem_append,List.mem_singleton,Prod.mk.injEq]

section Step
variable {Tid T : Type} [DecidableEq Tid] {d₀ : T} {tr : LatchTrace Tid T}
  {s : LatchSystem Tid T} {ph ph' : Phase Tid T} {t : Tid} {pc' : Pc T} {l' : PageTableLatch T}
  {e : Event T}

theorem LatchInv.extend (hi : LatchInv d₀ tr s ph) (hlatch : l' = ph'.latch d₀)
    (hself : ph'.Allows t pc') (hothers : ∀ u, u ≠ t → ph'.Allows u (s.loc u))
    (howner : ∀ u, ph'.owner = some u → (Function.update s.loc t pc' u).Critical)
    (hloaded : ph.loaded ++ e.workOk.toList = ph'.loaded)
    (hwritten : ph.written ++ e.written.toList = ph'.written)
    (hargs : ∀ arg r, e = .worked arg r → arg = d₀)
    (hkept : ∀ v, ph = .inMemory v → ph' = .inMemory v)
    (hreturn : ∀ v, e.returned = some (.ok v) → ph' = .inMemory v)
    (haccept : ∀ st, e ≠ .rejected st)
    (hfailed : (ph = .abandoned ∨ e.Failed) ↔ ph' = .abandoned) :
    LatchInv d₀ (tr ++ [(t,e)]) ⟨l',Function.update s.loc t pc'⟩ ph' where
  latch := hlatch
  allowed u := by
    by_cases hu : u = t
    · subst hu
      simpa using hself
    · simpa [hu] using hothers u hu
  owner := howner
  loaded := by
    rw [List.filterMap_append,hi.loaded,← hloaded]
    cases he : e.workOk <;> simp [he]
  written := by
    rw [List.filterMap_append,hi.written,← hwritten]
    cases he : e.written <;> simp [he]
  args u arg r hmem := by
    rcases mem_snoc.mp hmem with hmem | ⟨-,he⟩
    · exact hi.args u arg r hmem
    · exact hargs arg r he.symm
  returns u e' v hmem hv := by
    rcases mem_snoc.mp hmem with hmem | ⟨-,rfl⟩
    · exact hkept v (hi.returns u e' v hmem hv)
    · exact hreturn v hv
  accepted u st hmem := by
    rcases mem_snoc.mp hmem with hmem | ⟨-,he⟩
    · exact hi.accepted u st hmem
    · exact haccept st he.symm
  failed := by
    rw [← hfailed,← hi.failed]
    constructor
    · rintro ⟨u,e',hmem,hf⟩
      rcases mem_snoc.mp hmem with hmem | ⟨-,rfl⟩
      · exact .inl ⟨u,e',hmem,hf⟩
      · exact .inr hf
    · rintro (⟨u,e',hmem,hf⟩ | hf)
      · exact ⟨u,e',mem_snoc.mpr (.inl hmem),hf⟩
      · exact ⟨t,e,mem_snoc.mpr (.inr ⟨rfl,rfl⟩),hf⟩

theorem LatchInv.quiet (hi : LatchInv d₀ tr s ph) (he : e.Quiet) (hpc : ¬ (s.loc t).Critical)
    (hpc' : ¬ pc'.Critical) (hread : pc' = .readData → s.shared.state = ptInMemory)
    (hret : ∀ v, e.returned = some (.ok v) → s.loc t = .readData ∧ v = s.shared.data) :
    LatchInv d₀ (tr ++ [(t,e)]) ⟨s.shared,Function.update s.loc t pc'⟩ ph := by
  apply hi.extend hi.latch
  · by_cases hr : pc' = .readData
    · subst hr
      exact Phase.inMemory_of_state (hi.latch ▸ hread rfl)
    · exact Pc.Free.allowed ⟨hpc',hr⟩ ph t
  · exact fun u _ => hi.allowed u
  · intro u hu
    by_cases hut : u = t
    · subst hut
      exact absurd (hi.owner u hu) hpc
    · rw [Function.update_of_ne hut]
      exact hi.owner u hu
  · simp [he.workOk]
  · simp [he.written]
  · exact fun arg r h => absurd h (he.not_worked arg r)
  · exact fun _ h => h
  · intro v hv
    obtain ⟨hloc,hdata⟩ := hret v hv
    have hallow := hi.allowed t
    rw [hloc] at hallow
    obtain ⟨w,hw⟩ := hallow
    rw [hi.latch,hw] at hdata
    rw [hw,hdata]
    rfl
  · exact he.not_rejected
  · simp [he.not_failed]

/-- A step of the critical section: thread `t` enters, goes on or leaves, and
every other thread stays out. -/
theorem LatchInv.inside (hi : LatchInv d₀ tr s ph) (hm : ∀ v, ph ≠ .inMemory v)
    (ho : ph.owner = none ∨ ph.owner = some t)
    (ho' : ph'.owner = none ∨ ph'.owner = some t ∧ pc'.Critical) (hlatch : l' = ph'.latch d₀)
    (hself : ph'.Allows t pc')
    (hloaded : ph.loaded ++ e.workOk.toList = ph'.loaded)
    (hwritten : ph.written ++ e.written.toList = ph'.written)
    (hargs : ∀ arg r, e = .worked arg r → arg = d₀)
    (hreturn : ∀ v, e.returned = some (.ok v) → ph' = .inMemory v)
    (haccept : ∀ st, e ≠ .rejected st)
    (hfailed : (ph = .abandoned ∨ e.Failed) ↔ ph' = .abandoned) :
    LatchInv d₀ (tr ++ [(t,e)]) ⟨l',Function.update s.loc t pc'⟩ ph' := by
  apply hi.extend hlatch hself _ _ hloaded hwritten hargs (fun v hv => absurd hv (hm v)) hreturn
    haccept hfailed
  · intro u hu
    have hout : ph.owner ≠ some u := by
      rcases ho with ho | ho <;> rw [ho]
      · exact nofun
      · exact fun h => hu (Option.some.inj h).symm
    exact (Phase.free_of_allows (hi.allowed u) hout hm).allowed ph' u
  · intro u hu
    rcases ho' with ho' | ⟨ho',hc⟩
    · rw [ho'] at hu
      cases hu
    · obtain rfl : t = u := Option.some.inj (ho'.symm.trans hu)
      simpa using hc

/-! The five steps of the critical section -/

theorem LatchInv.enter (hi : LatchInv d₀ tr s .onDisk) (work : Work T) :
    LatchInv d₀ (tr ++ [(t,.exchanged true)])
      ⟨⟨ptLoading,d₀⟩,Function.update s.loc t (.runWork work)⟩ (.working t) :=
  hi.inside nofun (.inl rfl) (.inr ⟨rfl,trivial⟩) rfl rfl rfl rfl nofun nofun nofun
    (by simp [Event.Failed])

theorem LatchInv.abandon (hi : LatchInv d₀ tr s (.working t)) (err : String) :
    LatchInv d₀ (tr ++ [(t,.worked d₀ (.error err))])
      ⟨⟨ptLoading,d₀⟩,Function.update s.loc t .idle⟩ .abandoned :=
  hi.inside nofun (.inr rfl) (.inl rfl) rfl trivial rfl rfl (fun _ _ h => by cases h; rfl) nofun
    nofun (by simp [Event.Failed])

theorem LatchInv.finish (hi : LatchInv d₀ tr s (.working t)) (v : T) :
    LatchInv d₀ (tr ++ [(t,.worked d₀ (.ok v))])
      ⟨⟨ptLoading,d₀⟩,Function.update s.loc t (.writeData v)⟩ (.writing t v) :=
  hi.inside nofun (.inr rfl) (.inr ⟨rfl,trivial⟩) rfl rfl rfl rfl (fun _ _ h => by cases h; rfl)
    nofun nofun (by simp [Event.Failed])

theorem LatchInv.write {v : T} (hi : LatchInv d₀ tr s (.writing t v)) :
    LatchInv d₀ (tr ++ [(t,.wrote v)])
      ⟨⟨ptLoading,v⟩,Function.update s.loc t (.storeState v)⟩ (.publishing t v) :=
  hi.inside nofun (.inr rfl) (.inr ⟨rfl,trivial⟩) rfl rfl rfl rfl nofun nofun nofun
    (by simp [Event.Failed])

theorem LatchInv.publish {v : T} (hi : LatchInv d₀ tr s (.publishing t v)) :
    LatchInv d₀ (tr ++ [(t,.stored v)])
      ⟨⟨ptInMemory,v⟩,Function.update s.loc t .idle⟩ (.inMemory v) :=
  hi.inside nofun (.inr rfl) (.inl rfl) rfl trivial rfl rfl nofun (fun _ h => by cases h; rfl)
    nofun (by simp [Event.Failed])

/-- Where the state byte can go. -/
def StateMove (st st' : UInt8) : Prop :=
  st' = st ∨ st = ptOnDisk ∧ st' = ptLoading ∨ st = ptLoading ∧ st' = ptInMemory

theorem LatchInv.step (hi : LatchInv d₀ tr s ph)
    (hmove : LatchMove (s.loc t) s.shared e pc' l') :
    StateMove s.shared.state l'.state ∧
      ∃ ph', LatchInv d₀ (tr ++ [(t,e)]) ⟨l',Function.update s.loc t pc'⟩ ph' := by
  have hself := hi.allowed t
  have hlatch := hi.latch
  generalize hpc : s.loc t = pc at hmove hself
  generalize hl : s.shared = l at hmove hlatch
  cases hmove with
  | quiet he hpc₁ hpc₂ hread hret =>
    subst hl hpc
    exact ⟨.inl rfl,ph,hi.quiet he hpc₁ hpc₂ hread hret⟩
  | reject hm hd hl' =>
    rw [hlatch] at hm hd hl'
    rcases ph.state_known d₀ with h | h | h
    · exact absurd h hm
    · exact absurd h hd
    · exact absurd h hl'
  | @win work n _ hd =>
    rw [hlatch] at hd
    obtain rfl := Phase.onDisk_of_state hd
    rw [hlatch]
    exact ⟨.inr (.inl ⟨rfl,rfl⟩),_,hi.enter work⟩
  | @fail work _ err hw =>
    obtain rfl : ph = .working t := hself
    rw [hlatch]
    exact ⟨.inl rfl,_,hi.abandon err⟩
  | @finish work _ v hw =>
    obtain rfl : ph = .working t := hself
    rw [hlatch]
    exact ⟨.inl rfl,_,hi.finish v⟩
  | @write v =>
    obtain rfl : ph = .writing t v := hself
    rw [hlatch]
    exact ⟨.inl rfl,_,hi.write⟩
  | @publish v =>
    obtain rfl : ph = .publishing t v := hself
    rw [hlatch]
    exact ⟨.inr (.inr ⟨rfl,rfl⟩),_,hi.publish⟩

theorem latchInv_step {b : Build} {a : Tid × Action T} {x : Tid × Event T}
    {s' : LatchSystem Tid T} (hi : LatchInv d₀ tr s ph) (h : s.step b a = some (x,s')) :
    StateMove s.shared.state s'.shared.state ∧ ∃ ph', LatchInv d₀ (tr ++ [x]) s' ph' := by
  obtain ⟨e,pc',l',hmove,rfl,rfl⟩ := Threads.step_some h
  exact hi.step (latchMove_cases hmove).move

theorem latch_run {b : Build} {schedule : List (Tid × Action T)}
    (h : (LatchSystem.new d₀ : LatchSystem Tid T).run b schedule = some (tr,s)) :
    ∃ ph, LatchInv d₀ tr s ph := by
  apply runSteps_reaches (fun tr s => ∃ ph, LatchInv d₀ tr s ph) h ⟨_,latchInv_new d₀⟩
  rintro tr s a x s' ⟨ph,hi⟩ hstep
  exact (latchInv_step hi hstep).2

end Step

def published {Tid T : Type} (tr : LatchTrace Tid T) : Option T :=
  (tr.filterMap (fun x => x.2.written)).head?

theorem published_append {Tid T : Type} (tr tr' : LatchTrace Tid T) :
    published (tr ++ tr') = (published tr).or (published tr') := by
  rw [published,List.filterMap_append,List.head?_append]
  rfl

/-- Load-once and agreement, of a run's trace and the state it has reached. -/
structure LoadOnce {Tid T : Type} [DecidableEq Tid] (b : Build) (d₀ : T) (tr : LatchTrace Tid T)
    (s : LatchSystem Tid T) : Prop where
  exclusive : ∀ t u, (s.loc t).Critical → (s.loc u).Critical → t = u
  workArg : ∀ t arg r, (t,.worked arg r) ∈ tr → arg = d₀
  oneLoad : (tr.filterMap (fun x => x.2.workOk)).length ≤ 1
  onePublish : tr.filterMap (fun x => x.2.written) <+: tr.filterMap (fun x => x.2.workOk)
  agreement : ∀ t e v, (t,e) ∈ tr → e.returned = some (.ok v) → published tr = some v
  data : s.shared.data = (published tr).getD d₀
  moves : ∀ a x s', s.step b a = some (x,s') → StateMove s.shared.state s'.shared.state
  stable : ∀ a x s' v, s.step b a = some (x,s') → published tr = some v → s'.shared.data = v
  valid : ∀ t st, (t,.rejected st) ∉ tr

section LoadOnce
variable {Tid T : Type} [DecidableEq Tid] {d₀ : T} {tr : LatchTrace Tid T}
  {s : LatchSystem Tid T} {ph : Phase Tid T} (hi : LatchInv d₀ tr s ph)
include hi

omit [DecidableEq Tid] in
theorem LatchInv.data_eq : s.shared.data = (published tr).getD d₀ := by
  rw [published,hi.written,hi.latch]
  cases ph <;> rfl

theorem LatchInv.loadOnce (b : Build) : LoadOnce b d₀ tr s where
  exclusive t u ht hu := by
    have h₁ := Phase.owner_of_critical (hi.allowed t) ht
    have h₂ := Phase.owner_of_critical (hi.allowed u) hu
    exact Option.some.inj (h₁.symm.trans h₂)
  workArg := hi.args
  oneLoad := by
    rw [hi.loaded]
    cases ph <;> simp [Phase.loaded]
  onePublish := by
    rw [hi.loaded,hi.written]
    cases ph <;> simp [Phase.loaded,Phase.written]
  agreement t e v hmem hv := by
    rw [published,hi.written,hi.returns t e v hmem hv]
    rfl
  data := hi.data_eq
  moves a x s' h := (latchInv_step hi h).1
  stable a x s' v h hv := by
    obtain ⟨ph',hi'⟩ := (latchInv_step hi h).2
    rw [hi'.data_eq,published_append,hv]
    rfl
  valid := hi.accepted

end LoadOnce

theorem latch_loads_once {Tid T : Type} [DecidableEq Tid] (b : Build) (d₀ : T)
    (schedule : List (Tid × Action T)) (tr : LatchTrace Tid T) (s : LatchSystem Tid T)
    (h : (LatchSystem.new d₀ : LatchSystem Tid T).run b schedule = some (tr,s)) :
    LoadOnce b d₀ tr s := by
  obtain ⟨ph,hi⟩ := latch_run h
  exact hi.loadOnce b

def waitingSchedule : List (Bool × Action Nat) :=
  [(false,.load (fun d => .ok (d+7))),(false,.advance),(true,.load (fun _ => .ok 1)),
    (false,.advance),(true,.advance),(true,.advance),(false,.advance),(false,.advance),
    (true,.advance),(true,.advance),(false,.advance),(true,.advance),(true,.advance)]

theorem latch_loads_once_waiting :
    ∃ tr s, (LatchSystem.new 0 : LatchSystem Bool Nat).run .debug waitingSchedule = some (tr,s) ∧
      LoadOnce .debug 0 tr s ∧ published tr = some 7 :=
  ⟨_,_,rfl,latch_loads_once .debug 0 waitingSchedule _ _ rfl,rfl⟩

/-! Failed work -/

def LoadReturnsOk {Tid T : Type} [DecidableEq Tid] (b : Build) (s : LatchSystem Tid T) (t : Tid)
    (work : Work T) : Prop :=
  ∃ (n : Nat) (tr : LatchTrace Tid T) (s' : LatchSystem Tid T) (e : Event T) (v : T),
    s.run b ((.load work :: List.replicate n .advance).map (fun a => (t,a))) = some (tr,s') ∧
      (t,e) ∈ tr ∧ e.returned = some (.ok v)

/-- A failed load leaves the latch as it was, and usable. -/
structure Recovers {Tid T : Type} [DecidableEq Tid] (b : Build) (d₀ : T) (tr : LatchTrace Tid T)
    (s : LatchSystem Tid T) : Prop where
  unchanged : ∀ pre t arg err, tr = pre ++ [(t,.worked arg (.error err))] →
    s.shared.data = (published pre).getD d₀
  restored : ∀ pre t arg err, tr = pre ++ [(t,.worked arg (.error err))] →
    (∀ u, s.loc u = .idle) → s.shared = .new d₀
  held : s.shared.state = ptLoading → ∃ t, (s.loc t).Critical
  proceeds : (∀ u, ¬ (s.loc u).Critical) → ∀ (t : Tid) (work : Work T) (v : T),
    s.loc t = .idle → work d₀ = .ok v → LoadReturnsOk b s t work

def NoFailure {Tid T : Type} (tr : LatchTrace Tid T) : Prop :=
  ∀ t arg err, (t,.worked arg (.error err)) ∉ tr

theorem noFailure_iff {Tid T : Type} (tr : LatchTrace Tid T) :
    NoFailure tr ↔ ¬ ∃ t e, (t,e) ∈ tr ∧ e.Failed := by
  constructor
  · rintro h ⟨t,e,hmem,hf⟩
    unfold Event.Failed at hf
    split at hf
    · exact h _ _ _ hmem
    · exact hf
  · intro h t arg err hmem
    exact h ⟨t,_,hmem,trivial⟩

section Solo
variable {T : Type} (b : Build) (d : T) (work : Work T)

theorem soloRun_onDisk {v : T} (hw : work d = .ok v) :
    Threads.soloRun (latchMove b)
        [.load work,.advance,.advance,.advance,.advance,.advance] .idle ⟨ptOnDisk,d⟩ =
      some ([.called,.observed ptOnDisk,.exchanged true,.worked d (.ok v),.wrote v,.stored v],
        .idle,⟨ptInMemory,v⟩) := by
  simp [Threads.soloRun,latchMove,PageTableLatch.advance,hw,ptOnDisk,ptInMemory]

theorem soloRun_inMemory :
    Threads.soloRun (latchMove b) [.load work,.advance,.advance] .idle ⟨ptInMemory,d⟩ =
      some ([.called,.observed ptInMemory,.read d],.idle,⟨ptInMemory,d⟩) := rfl

end Solo

section Recovery
variable {Tid T : Type} [DecidableEq Tid] {d₀ : T} {tr : LatchTrace Tid T}
  {s : LatchSystem Tid T} {ph : Phase Tid T} (hi : LatchInv d₀ tr s ph)
include hi

omit [DecidableEq Tid] in
theorem LatchInv.held (hph : ph ≠ .abandoned) (h : s.shared.state = ptLoading) :
    ∃ t, (s.loc t).Critical := by
  rw [hi.latch] at h
  cases ph with
  | working t => exact ⟨t,hi.owner t rfl⟩
  | writing t v => exact ⟨t,hi.owner t rfl⟩
  | publishing t v => exact ⟨t,hi.owner t rfl⟩
  | abandoned => exact absurd rfl hph
  | onDisk | inMemory _ => simp [Phase.latch,ptOnDisk,ptLoading,ptInMemory] at h

theorem LatchInv.proceeds (b : Build) (hph : ph ≠ .abandoned)
    (hfree : ∀ u, ¬ (s.loc u).Critical) {t : Tid} {work : Work T} {v : T}
    (hidle : s.loc t = .idle) (hw : work d₀ = .ok v) : LoadReturnsOk b s t work := by
  have hlatch := hi.latch
  cases ph with
  | onDisk =>
    have hsolo := soloRun_onDisk b d₀ work hw
    rw [← hidle,← show s.shared = ⟨ptOnDisk,d₀⟩ from hlatch] at hsolo
    exact ⟨5,_,_,.stored v,v,Threads.runSteps_solo hsolo,by simp,rfl⟩
  | inMemory x =>
    have hsolo := soloRun_inMemory b x work
    rw [← hidle,← show s.shared = ⟨ptInMemory,x⟩ from hlatch] at hsolo
    exact ⟨2,_,_,.read x,x,Threads.runSteps_solo hsolo,by simp,rfl⟩
  | working u => exact absurd (hi.owner u rfl) (hfree u)
  | writing u _ => exact absurd (hi.owner u rfl) (hfree u)
  | publishing u _ => exact absurd (hi.owner u rfl) (hfree u)
  | abandoned => exact absurd rfl hph

end Recovery

/-- The latch survives exactly the runs in which no work fails: the early return
on an error leaves `PT_LOADING` behind. -/
theorem failed_load_recovers_iff {Tid T : Type} [DecidableEq Tid] (b : Build) (d₀ : T)
    (schedule : List (Tid × Action T)) (tr : LatchTrace Tid T) (s : LatchSystem Tid T)
    (h : (LatchSystem.new d₀ : LatchSystem Tid T).run b schedule = some (tr,s)) :
    Recovers b d₀ tr s ↔ NoFailure tr := by
  obtain ⟨ph,hi⟩ := latch_run h
  rw [noFailure_iff,hi.failed]
  constructor
  · rintro hrec rfl
    obtain ⟨t,ht⟩ := hrec.held (by rw [hi.latch]; rfl)
    have howner := Phase.owner_of_critical (hi.allowed t) ht
    cases howner
  · intro hph
    have hlast : ∀ pre t arg err, tr ≠ pre ++ [(t,.worked arg (.error err))] := by
      rintro pre t arg err rfl
      exact hph (hi.failed.mp ⟨t,.worked arg (.error err),by simp,trivial⟩)
    refine ⟨?_,?_,hi.held hph,?_⟩
    · exact fun pre t arg err htr => absurd htr (hlast pre t arg err)
    · exact fun pre t arg err htr => absurd htr (hlast pre t arg err)
    · exact fun hfree t work v hidle hw => hi.proceeds b hph hfree hidle hw

def failingSchedule : List (Unit × Action Nat) :=
  [((),.load (fun _ => .error "read failed")),((),.advance),((),.advance),((),.advance)]

theorem failed_load_leaves_loading :
    ¬ ∀ (Tid T : Type) [DecidableEq Tid] (b : Build) (d₀ : T) (schedule : List (Tid × Action T))
      (tr : LatchTrace Tid T) (s : LatchSystem Tid T),
      (LatchSystem.new d₀ : LatchSystem Tid T).run b schedule = some (tr,s) →
        Recovers b d₀ tr s := by
  intro hall
  have hrec := hall Unit Nat .debug 0 failingSchedule _ _ rfl
  obtain ⟨t,ht⟩ := hrec.held rfl
  cases t
  exact ht

def succeedingSchedule : List (Unit × Action Nat) :=
  [((),.load (fun d => .ok (d+7))),((),.advance),((),.advance),((),.advance),((),.advance),
    ((),.advance)]

theorem succeeding_load_recovers :
    ∃ s, (LatchSystem.new 0 : LatchSystem Unit Nat).run .debug succeedingSchedule =
        some ([((),.called),((),.observed 0),((),.exchanged true),((),.worked 0 (.ok 7)),
          ((),.wrote 7),((),.stored 7)],s) ∧
      Recovers .debug 0 [((),.called),((),.observed 0),((),.exchanged true),
        ((),.worked 0 (.ok 7)),((),.wrote 7),((),.stored 7)] s := by
  refine ⟨_,rfl,?_⟩
  apply (failed_load_recovers_iff .debug 0 succeedingSchedule _ _ rfl).mpr
  intro t arg err hmem
  simp at hmem

end InkDB
