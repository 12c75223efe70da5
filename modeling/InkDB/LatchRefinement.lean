import InkDB.LatchSafety
import InkDB.Refinement

/-!
What the latch is for: a cell that is loaded once, by one caller, and read by
all others. Here a load is one step. Every run of the latch shows the calls and
answers of a run of this cell, each load taking effect when it returns.
-/

set_option autoImplicit false

namespace InkDB

/-- Not loaded yet, loaded, or given up by a load that failed. -/
inductive OnceCell (T : Type) where
  | unloaded (data : T)
  | loaded (data : T)
  | failed

inductive OncePc (T : Type) where
  | idle
  | calling (work : Work T)

inductive OnceEvent (T : Type) where
  | called (work : Work T)
  | returned (result : Except String T)

inductive OnceAction (T : Type) where
  | call (work : Work T)
  | commit

section Cell
variable {T : Type}

/-- The whole load. After a failure there is no answer. -/
def OnceCell.load (work : Work T) : OnceCell T → Option (Except String T × OnceCell T)
  | .unloaded data =>
      match work data with
      | .ok v => some (.ok v,.loaded v)
      | .error err => some (.error err,.failed)
  | .loaded data => some (.ok data,.loaded data)
  | .failed => none

def onceMove : OnceAction T → OncePc T → OnceCell T →
    Option (OnceEvent T × OncePc T × OnceCell T)
  | .call work, .idle, c => some (.called work,.calling work,c)
  | .commit, .calling work, c => (c.load work).map (fun r => (.returned r.1,.idle,r.2))
  | _, _, _ => none

def onceView : Action T → Event T → Option (OnceEvent T)
  | .load work, .called => some (.called work)
  | _, e => e.returned.map .returned

end Cell

abbrev OnceSystem (Tid T : Type) := Threads Tid (OncePc T) (OnceCell T)

section System
variable {Tid T : Type} [DecidableEq Tid]

def OnceSystem.new (data : T) : OnceSystem Tid T := ⟨.unloaded data,fun _ => .idle⟩

def OnceSystem.run (schedule : List (Tid × OnceAction T)) (s : OnceSystem Tid T) :
    Option (List (Tid × OnceEvent T) × OnceSystem Tid T) :=
  runSteps (Threads.step onceMove) schedule s

def loadHistory (schedule : List (Tid × Action T)) (tr : LatchTrace Tid T) :
    List (Tid × OnceEvent T) :=
  history (fun a x => (onceView a.2 x.2).map (fun e => (a.1,e))) schedule tr

end System

/-! The simulation -/

def Phase.cell {Tid T : Type} (d₀ : T) : Phase Tid T → OnceCell T
  | .onDisk | .working _ | .writing _ _ | .publishing _ _ => .unloaded d₀
  | .abandoned => .failed
  | .inMemory v => .loaded v

/-- A thread in the latch, and the same thread at the cell. Loaded data that is
not published yet is what the caller's work made of the old data. -/
def Pc.Serves {T : Type} (d₀ : T) : Pc T → OncePc T → Prop
  | .idle, q | .peekState, q | .peekData _, q => q = .idle
  | .loadState work _, q | .compareExchange work _, q | .backOff work _, q | .runWork work, q =>
      q = .calling work
  | .readData, q | .panicked, q => ∃ work, q = .calling work
  | .writeData v, q | .storeState v, q => ∃ work, q = .calling work ∧ work d₀ = .ok v

def Implements {Tid T : Type} (d₀ : T) (s : LatchSystem Tid T) (c : OnceSystem Tid T) : Prop :=
  ∃ tr ph, LatchInv d₀ tr s ph ∧ c.shared = ph.cell d₀ ∧ ∀ t, (s.loc t).Serves d₀ (c.loc t)

theorem implements_new {Tid T : Type} (d₀ : T) :
    Implements d₀ (LatchSystem.new d₀ : LatchSystem Tid T) (OnceSystem.new d₀) :=
  ⟨[],.onDisk,latchInv_new d₀,rfl,fun _ => rfl⟩

section Step
variable {Tid T : Type} [DecidableEq Tid] {d₀ : T} {b : Build} {s : LatchSystem Tid T}
  {c : OnceSystem Tid T} {t : Tid} {tr : LatchTrace Tid T} {ph : Phase Tid T} {a : Action T}
  {e : Event T} {pc' : Pc T} {l' : PageTableLatch T}

theorem serves_update {q' : OncePc T} {q : Tid → OncePc T}
    (h : ∀ u, (s.loc u).Serves d₀ (q u)) (ht : pc'.Serves d₀ q') (u : Tid) :
    (Function.update s.loc t pc' u).Serves d₀ (Function.update q t q' u) := by
  by_cases hu : u = t
  · subst hu
    simpa using ht
  · simpa [hu] using h u

theorem Event.Quiet.returns_read (he : e.Quiet) {r : Except String T}
    (hr : e.returned = some r) : ∃ v, e = .read v ∧ r = .ok v := by
  cases e with
  | read v =>
    cases hr
    exact ⟨v,rfl,rfl⟩
  | rejected _ | worked _ _ | wrote _ | stored _ => exact he.elim
  | called | observed _ | exchanged _ | backedOff _ | overflowed _ | peekObserved _ | peeked _ _ =>
    cases hr

theorem serves_hidden {q : Tid → OncePc T} (h : ∀ u, (s.loc u).Serves d₀ (q u))
    (ht : pc'.Serves d₀ (q t)) (u : Tid) : (Function.update s.loc t pc' u).Serves d₀ (q u) := by
  have hupdate := serves_update (t := t) h ht u
  rwa [Function.update_eq_self] at hupdate

/-- What a step does to the phase, seen from the cell: one that returns is the
whole load, and no other changes anything. -/
theorem LatchInv.cell_step (hi : LatchInv d₀ tr s ph)
    (h : LatchMove (s.loc t) s.shared e pc' l') :
    ∃ ph', LatchInv d₀ (tr ++ [(t,e)]) ⟨l',Function.update s.loc t pc'⟩ ph' ∧
      (e.returned = none → ph'.cell d₀ = ph.cell d₀) ∧
      ∀ r q, e.returned = some r → (s.loc t).Serves d₀ q →
        ∃ work, q = .calling work ∧ (ph.cell d₀).load work = some (r,ph'.cell d₀) := by
  have hself := hi.allowed t
  have hlatch := hi.latch
  generalize hpc : s.loc t = pc at h hself
  generalize hl : s.shared = l at h hlatch
  cases h with
  | quiet he hpc₁ hpc₂ hread hret =>
    subst hl hpc
    refine ⟨ph,hi.quiet he hpc₁ hpc₂ hread hret,fun _ => rfl,?_⟩
    intro r q hr hq
    obtain ⟨v,rfl,rfl⟩ := he.returns_read hr
    obtain ⟨hloc,hv⟩ := hret v rfl
    rw [hloc] at hself hq
    obtain ⟨w,rfl⟩ := hself
    obtain ⟨work,rfl⟩ := hq
    rw [hlatch] at hv
    subst hv
    exact ⟨work,rfl,rfl⟩
  | reject hm hd hl' =>
    rw [hlatch] at hm hd hl'
    rcases ph.state_known d₀ with h | h | h
    · exact absurd h hm
    · exact absurd h hd
    · exact absurd h hl'
  | @win work n _ hd =>
    rw [hlatch] at hd
    obtain rfl := Phase.onDisk_of_state hd
    rw [hlatch]
    exact ⟨_,hi.enter work,fun _ => rfl,fun _ _ hr => by cases hr⟩
  | @fail work _ err hw =>
    obtain rfl : ph = .working t := hself
    rw [hlatch] at hw ⊢
    refine ⟨_,hi.abandon err,fun hr => (by cases hr),?_⟩
    intro r q hr hq
    cases hr
    refine ⟨work,hq,?_⟩
    have hw' : work d₀ = .error err := hw
    simp [Phase.cell,OnceCell.load,hw']
  | @finish work _ v hw =>
    obtain rfl : ph = .working t := hself
    rw [hlatch]
    exact ⟨_,hi.finish v,fun _ => rfl,fun _ _ hr => by cases hr⟩
  | @write v =>
    obtain rfl : ph = .writing t v := hself
    rw [hlatch]
    exact ⟨_,hi.write,fun _ => rfl,fun _ _ hr => by cases hr⟩
  | @publish v =>
    obtain rfl : ph = .publishing t v := hself
    rw [hlatch]
    refine ⟨_,hi.publish,fun hr => (by cases hr),?_⟩
    intro r q hr hq
    cases hr
    obtain ⟨work,rfl,hw⟩ := hq
    refine ⟨work,rfl,?_⟩
    simp [Phase.cell,OnceCell.load,hw]

theorem LatchStep.serves {pc : Pc T} {l : PageTableLatch T} {q : OncePc T}
    (h : LatchStep b pc l e pc' l') (hq : pc.Serves d₀ q)
    (hdata : ∀ work, pc = .runWork work → l.data = d₀) (hcall : pc ≠ .idle)
    (hr : e.returned = none) : pc'.Serves d₀ q := by
  cases h with
  | callLoad | callPeek => exact absurd rfl hcall
  | findInMemory | overflow => exact ⟨_,hq⟩
  | findOnDisk | findLoading | win | lose | write | wait | peekState => exact hq
  | finish hw => exact ⟨_,hq,hdata _ rfl ▸ hw⟩
  | peekData => exact hq
  | reject | read | fail | publish => cases hr

omit [DecidableEq Tid] in
theorem LatchInv.work_data (hi : LatchInv d₀ tr s ph) {work : Work T}
    (h : s.loc t = .runWork work) : s.shared.data = d₀ := by
  have hself := hi.allowed t
  rw [h] at hself
  rw [hi.latch,show ph = .working t from hself]
  rfl

theorem once_commit {work : Work T} {r : Except String T} {cell : OnceCell T}
    (hq : c.loc t = .calling work) (hl : c.shared.load work = some (r,cell)) :
    Threads.step onceMove c (t,.commit) =
      some ((t,.returned r),⟨cell,Function.update c.loc t .idle⟩) := by
  simp [Threads.step,hq,onceMove,hl]

theorem LatchStep.returns_idle {pc : Pc T} {l : PageTableLatch T} {r : Except String T}
    (h : LatchStep b pc l e pc' l') (hr : e.returned = some r) : pc ≠ .idle ∧ pc' = .idle := by
  cases h with
  | read | reject | fail | publish => exact ⟨by simp,rfl⟩
  | callLoad | callPeek | findInMemory | findOnDisk | findLoading | win | lose | finish | write
  | overflow | wait | peekState | peekData => cases hr

theorem Implements.step (hs : Implements d₀ s c)
    (h : latchMove b a (s.loc t) s.shared = some (e,pc',l')) :
    Matched (Threads.step onceMove) (Implements d₀) ((onceView a e).map (fun x => (t,x)))
      ⟨l',Function.update s.loc t pc'⟩ c := by
  obtain ⟨tr,ph,hi,hcell,hserves⟩ := hs
  have hstep := latchMove_cases h
  obtain ⟨ph',hi',hkept,hload⟩ := hi.cell_step hstep.move
  cases a with
  | load work =>
    obtain ⟨hpc,rfl,rfl,rfl⟩ := latchMove_load h
    have hidle := hserves t
    rw [hpc] at hidle
    refine .inr ⟨(t,.call work),(t,.called work),⟨c.shared,Function.update c.loc t (.calling work)⟩,
      rfl,?_,_,ph',hi',hcell.trans (hkept rfl).symm,serves_update hserves rfl⟩
    rw [Threads.step,show c.loc t = .idle from hidle]
    rfl
  | peek =>
    obtain ⟨hpc,rfl,rfl,rfl⟩ := latchMove_peek h
    have hidle := hserves t
    rw [hpc] at hidle
    exact .inl ⟨rfl,_,ph',hi',hcell.trans (hkept rfl).symm,serves_hidden hserves hidle⟩
  | advance =>
    cases hr : e.returned with
    | none =>
      have hidle : s.loc t ≠ .idle := by
        intro hpc
        rw [hpc] at h
        cases h
      have hserve := hstep.serves (hserves t) (fun _ hpc => hi.work_data hpc) hidle hr
      refine .inl ⟨?_,_,ph',hi',hcell.trans (hkept hr).symm,serves_hidden hserves hserve⟩
      simp [onceView,hr]
    | some r =>
      obtain ⟨-,rfl⟩ := hstep.returns_idle hr
      obtain ⟨work,hq,hl⟩ := hload r _ hr (hserves t)
      rw [← hcell] at hl
      refine .inr ⟨(t,.commit),(t,.returned r),_,?_,once_commit hq hl,_,ph',hi',rfl,
        serves_update hserves rfl⟩
      simp [onceView,hr]

theorem Implements.matched {a : Tid × Action T} {x : Tid × Event T} {s' : LatchSystem Tid T}
    (hs : Implements d₀ s c) (h : s.step b a = some (x,s')) :
    Matched (Threads.step onceMove) (Implements d₀)
      ((onceView a.2 x.2).map (fun e => (a.1,e))) s' c := by
  obtain ⟨e,pc',l',hmove,rfl,rfl⟩ := Threads.step_some h
  exact hs.step hmove

end Step

/-- The calls and answers of every run of the latch, with any number of threads
and any peeks between them, are those of a run of the cell. -/
theorem latch_linearizable {Tid T : Type} [DecidableEq Tid] (b : Build) (d₀ : T)
    (schedule : List (Tid × Action T)) (tr : LatchTrace Tid T) (s : LatchSystem Tid T)
    (h : (LatchSystem.new d₀ : LatchSystem Tid T).run b schedule = some (tr,s)) :
    ∃ schedule' c, (OnceSystem.new d₀ : OnceSystem Tid T).run schedule' =
        some (loadHistory schedule tr,c) := by
  obtain ⟨schedule',c,hrun,-⟩ := runSteps_refines (fun _ _ _ _ _ hs hstep => hs.matched hstep)
    (implements_new d₀) h
  exact ⟨schedule',c,hrun⟩

theorem latch_linearizable_waiting :
    ∃ schedule' c, (OnceSystem.new 0 : OnceSystem Bool Nat).run schedule' =
      some ([(false,.called (fun d => .ok (d+7))),(true,.called (fun _ => .ok 1)),
        (false,.returned (.ok 7)),(true,.returned (.ok 7))],c) := by
  exact @latch_linearizable Bool Nat _ .debug 0 waitingSchedule _ _ rfl

end InkDB
