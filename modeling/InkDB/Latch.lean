import InkDB.Exec
import InkDB.Machine

/-!
The page-table latch: an atomic state byte, a data cell, and `load` and `peek`
cut into the steps that other threads can observe. Atomic accesses are taken to
be sequentially consistent.
-/

set_option autoImplicit false

namespace InkDB

abbrev spinLimit : UInt8 := 10
abbrev yieldLimit : UInt8 := 50

abbrev ptOnDisk : UInt8 := 0
abbrev ptLoading : UInt8 := 1
abbrev ptInMemory : UInt8 := 2

structure PageTableLatch (T : Type) where
  state : UInt8
  data : T
  deriving DecidableEq, Repr

def PageTableLatch.new {T : Type} (data : T) : PageTableLatch T := ⟨ptOnDisk,data⟩

/-- The closure a caller passes to `load`; it returns, with a value or an error. -/
abbrev Work (T : Type) := T → Except String T

inductive BackOff where
  | spinLoop | yieldNow | sleep
  deriving DecidableEq, Repr

def backOffStage (spinCount : UInt8) : BackOff :=
  if spinCount < spinLimit then .spinLoop
  else if spinCount < yieldLimit then .yieldNow
  else .sleep

/-- `spin_count += 1`, checked in a debug build and wrapping in a release build. -/
def incrementSpin (b : Build) (spinCount : UInt8) : Option UInt8 :=
  match b with
  | .debug => if spinCount = 255 then none else some (spinCount+1)
  | .release => some (spinCount+1)

/-- Where a thread stands: the step it takes next. -/
inductive Pc (T : Type) where
  | idle
  | loadState (work : Work T) (spinCount : UInt8)
  | readData
  | compareExchange (work : Work T) (spinCount : UInt8)
  | runWork (work : Work T)
  | writeData (loaded : T)
  | storeState (loaded : T)
  | backOff (work : Work T) (spinCount : UInt8)
  | peekState
  | peekData (state : UInt8)
  | panicked

/-- What a step shows: accesses to the latch, and what a call returns. -/
inductive Event (T : Type) where
  | called
  | observed (state : UInt8)
  | rejected (state : UInt8)
  | read (data : T)
  | exchanged (won : Bool)
  | worked (arg : T) (result : Except String T)
  | wrote (data : T)
  | stored (loaded : T)
  | backedOff (stage : BackOff)
  | overflowed (stage : BackOff)
  | peekObserved (state : UInt8)
  | peeked (state : UInt8) (data : T)

/-- An idle thread may call; a busy one goes on. -/
inductive Action (T : Type) where
  | load (work : Work T)
  | peek
  | advance

section Steps
variable {T : Type}

/-- The loop of `load`, and `peek`, one observable step at a time. The `?` after
`work` returns from the middle of the critical section. -/
def PageTableLatch.advance (b : Build) (l : PageTableLatch T) :
    Pc T → Option (Event T × Pc T × PageTableLatch T)
  | .idle => none
  | .loadState work spinCount =>
      if l.state = ptInMemory then some (.observed l.state,.readData,l)
      else if l.state = ptOnDisk then some (.observed l.state,.compareExchange work spinCount,l)
      else if l.state = ptLoading then some (.observed l.state,.backOff work spinCount,l)
      else some (.rejected l.state,.idle,l)
  | .readData => some (.read l.data,.idle,l)
  | .compareExchange work spinCount =>
      if l.state = ptOnDisk then some (.exchanged true,.runWork work,{ l with state := ptLoading })
      else some (.exchanged false,.loadState work spinCount,l)
  | .runWork work =>
      match work l.data with
      | .error e => some (.worked l.data (.error e),.idle,l)
      | .ok loaded => some (.worked l.data (.ok loaded),.writeData loaded,l)
  | .writeData loaded => some (.wrote loaded,.storeState loaded,{ l with data := loaded })
  | .storeState loaded => some (.stored loaded,.idle,{ l with state := ptInMemory })
  | .backOff work spinCount =>
      match incrementSpin b spinCount with
      | none => some (.overflowed (backOffStage spinCount),.panicked,l)
      | some next => some (.backedOff (backOffStage spinCount),.loadState work next,l)
  | .peekState => some (.peekObserved l.state,.peekData l.state,l)
  | .peekData state => some (.peeked state l.data,.idle,l)
  | .panicked => none

def latchMove (b : Build) : Action T → Pc T → PageTableLatch T →
    Option (Event T × Pc T × PageTableLatch T)
  | .load work, .idle, l => some (.called,.loadState work 0,l)
  | .peek, .idle, l => some (.called,.peekState,l)
  | .advance, pc, l => l.advance b pc
  | _, _, _ => none

/-- What `load` returns at a step that ends it. -/
def Event.returned : Event T → Option (Except String T)
  | .rejected _ => some (.error "Invalid state")
  | .read data => some (.ok data)
  | .worked _ (.error e) => some (.error e)
  | .stored loaded => some (.ok loaded)
  | _ => none

def Event.workOk : Event T → Option T
  | .worked _ (.ok v) => some v
  | _ => none

def Event.written : Event T → Option T
  | .wrote v => some v
  | _ => none

def Event.Failed : Event T → Prop
  | .worked _ (.error _) => True
  | _ => False

/-- Between a winning compare-exchange and the store of `PT_IN_MEMORY`. -/
def Pc.Critical : Pc T → Prop
  | .runWork _ | .writeData _ | .storeState _ => True
  | _ => False

/-- Events that neither run work, write nor turn a caller away. -/
def Event.Quiet : Event T → Prop
  | .rejected _ | .worked _ _ | .wrote _ | .stored _ => False
  | _ => True

/-- Everything a step can do. -/
inductive LatchStep (b : Build) : Pc T → PageTableLatch T → Event T → Pc T → PageTableLatch T →
    Prop where
  | callLoad {l : PageTableLatch T} {work : Work T} :
      LatchStep b .idle l .called (.loadState work 0) l
  | callPeek {l : PageTableLatch T} : LatchStep b .idle l .called .peekState l
  | findInMemory {l : PageTableLatch T} {work : Work T} {n : UInt8} (hm : l.state = ptInMemory) :
      LatchStep b (.loadState work n) l (.observed l.state) .readData l
  | findOnDisk {l : PageTableLatch T} {work : Work T} {n : UInt8} (hd : l.state = ptOnDisk) :
      LatchStep b (.loadState work n) l (.observed l.state) (.compareExchange work n) l
  | findLoading {l : PageTableLatch T} {work : Work T} {n : UInt8} (hl : l.state = ptLoading) :
      LatchStep b (.loadState work n) l (.observed l.state) (.backOff work n) l
  | reject {l : PageTableLatch T} {work : Work T} {n : UInt8} (hm : l.state ≠ ptInMemory)
      (hd : l.state ≠ ptOnDisk) (hl : l.state ≠ ptLoading) :
      LatchStep b (.loadState work n) l (.rejected l.state) .idle l
  | read {l : PageTableLatch T} : LatchStep b .readData l (.read l.data) .idle l
  | win {l : PageTableLatch T} {work : Work T} {n : UInt8} (hd : l.state = ptOnDisk) :
      LatchStep b (.compareExchange work n) l (.exchanged true) (.runWork work)
        { l with state := ptLoading }
  | lose {l : PageTableLatch T} {work : Work T} {n : UInt8} (hd : l.state ≠ ptOnDisk) :
      LatchStep b (.compareExchange work n) l (.exchanged false) (.loadState work n) l
  | fail {l : PageTableLatch T} {work : Work T} {err : String}
      (hw : work l.data = .error err) :
      LatchStep b (.runWork work) l (.worked l.data (.error err)) .idle l
  | finish {l : PageTableLatch T} {work : Work T} {v : T} (hw : work l.data = .ok v) :
      LatchStep b (.runWork work) l (.worked l.data (.ok v)) (.writeData v) l
  | write {l : PageTableLatch T} {v : T} :
      LatchStep b (.writeData v) l (.wrote v) (.storeState v) { l with data := v }
  | publish {l : PageTableLatch T} {v : T} :
      LatchStep b (.storeState v) l (.stored v) .idle { l with state := ptInMemory }
  | overflow {l : PageTableLatch T} {work : Work T} {n : UInt8} (hn : incrementSpin b n = none) :
      LatchStep b (.backOff work n) l (.overflowed (backOffStage n)) .panicked l
  | wait {l : PageTableLatch T} {work : Work T} {n next : UInt8}
      (hn : incrementSpin b n = some next) :
      LatchStep b (.backOff work n) l (.backedOff (backOffStage n)) (.loadState work next) l
  | peekState {l : PageTableLatch T} :
      LatchStep b .peekState l (.peekObserved l.state) (.peekData l.state) l
  | peekData {l : PageTableLatch T} {st : UInt8} :
      LatchStep b (.peekData st) l (.peeked st l.data) .idle l

/-- What the steps are to the critical section. -/
inductive LatchMove : Pc T → PageTableLatch T → Event T → Pc T → PageTableLatch T → Prop where
  | quiet {pc pc' : Pc T} {l : PageTableLatch T} {e : Event T} (he : e.Quiet)
      (hpc : ¬ pc.Critical) (hpc' : ¬ pc'.Critical)
      (hread : pc' = .readData → l.state = ptInMemory)
      (hret : ∀ v, e.returned = some (.ok v) → pc = .readData ∧ v = l.data) :
      LatchMove pc l e pc' l
  | reject {work : Work T} {n : UInt8} {l : PageTableLatch T} (hm : l.state ≠ ptInMemory)
      (hd : l.state ≠ ptOnDisk) (hl : l.state ≠ ptLoading) :
      LatchMove (.loadState work n) l (.rejected l.state) .idle l
  | win {work : Work T} {n : UInt8} {l : PageTableLatch T} (hd : l.state = ptOnDisk) :
      LatchMove (.compareExchange work n) l (.exchanged true) (.runWork work)
        { l with state := ptLoading }
  | fail {work : Work T} {l : PageTableLatch T} {e : String} (hw : work l.data = .error e) :
      LatchMove (.runWork work) l (.worked l.data (.error e)) .idle l
  | finish {work : Work T} {l : PageTableLatch T} {v : T} (hw : work l.data = .ok v) :
      LatchMove (.runWork work) l (.worked l.data (.ok v)) (.writeData v) l
  | write {v : T} {l : PageTableLatch T} :
      LatchMove (.writeData v) l (.wrote v) (.storeState v) { l with data := v }
  | publish {v : T} {l : PageTableLatch T} :
      LatchMove (.storeState v) l (.stored v) .idle { l with state := ptInMemory }

theorem LatchMove.silent {pc pc' : Pc T} {l : PageTableLatch T} {e : Event T} (he : e.Quiet)
    (hpc : ¬ pc.Critical) (hpc' : ¬ pc'.Critical) (hread : pc' ≠ .readData)
    (hret : e.returned = none) : LatchMove pc l e pc' l :=
  .quiet he hpc hpc' (fun h => absurd h hread) (fun v hv => by rw [hret] at hv; cases hv)

section Inversion
variable {b : Build} {a : Action T} {l l' : PageTableLatch T} {pc pc' : Pc T} {e : Event T}

theorem advance_cases (h : l.advance b pc = some (e,pc',l')) : LatchStep b pc l e pc' l' := by
  cases pc with
  | idle => cases h
  | panicked => cases h
  | loadState work n =>
    simp only [PageTableLatch.advance] at h
    split at h
    · cases h
      exact .findInMemory ‹_›
    · split at h
      · cases h
        exact .findOnDisk ‹_›
      · split at h
        · cases h
          exact .findLoading ‹_›
        · cases h
          exact .reject ‹_› ‹_› ‹_›
  | readData =>
    cases h
    exact .read
  | compareExchange work n =>
    simp only [PageTableLatch.advance] at h
    split at h
    · cases h
      exact .win ‹_›
    · cases h
      exact .lose ‹_›
  | runWork work =>
    simp only [PageTableLatch.advance] at h
    split at h
    · cases h
      exact .fail ‹_›
    · cases h
      exact .finish ‹_›
  | writeData v =>
    cases h
    exact .write
  | storeState v =>
    cases h
    exact .publish
  | backOff work n =>
    simp only [PageTableLatch.advance] at h
    split at h
    · cases h
      exact .overflow ‹_›
    · cases h
      exact .wait ‹_›
  | peekState =>
    cases h
    exact .peekState
  | peekData st =>
    cases h
    exact .peekData

theorem latchMove_cases (h : latchMove b a pc l = some (e,pc',l')) :
    LatchStep b pc l e pc' l' := by
  unfold latchMove at h
  split at h
  · cases h
    exact .callLoad
  · cases h
    exact .callPeek
  · exact advance_cases h
  · cases h

theorem latchMove_load {work : Work T}
    (h : latchMove b (.load work) pc l = some (e,pc',l')) :
    pc = .idle ∧ e = .called ∧ pc' = .loadState work 0 ∧ l' = l := by
  cases pc with
  | idle =>
    cases h
    exact ⟨rfl,rfl,rfl,rfl⟩
  | loadState _ _ | readData | compareExchange _ _ | runWork _ | writeData _ | storeState _
  | backOff _ _ | peekState | peekData _ | panicked => cases h

theorem latchMove_peek
    (h : latchMove b .peek pc l = some (e,pc',l')) :
    pc = .idle ∧ e = .called ∧ pc' = .peekState ∧ l' = l := by
  cases pc with
  | idle =>
    cases h
    exact ⟨rfl,rfl,rfl,rfl⟩
  | loadState _ _ | readData | compareExchange _ _ | runWork _ | writeData _ | storeState _
  | backOff _ _ | peekState | peekData _ | panicked => cases h

theorem LatchStep.move (h : LatchStep b pc l e pc' l') : LatchMove pc l e pc' l' := by
  cases h with
  | findInMemory hm => exact .quiet trivial id id (fun _ => hm) (fun _ hv => by cases hv)
  | read =>
    exact .quiet trivial id id (fun h => by cases h) (fun _ hv => by cases hv; exact ⟨rfl,rfl⟩)
  | reject hm hd hl => exact .reject hm hd hl
  | win hd => exact .win hd
  | fail hw => exact .fail hw
  | finish hw => exact .finish hw
  | write => exact .write
  | publish => exact .publish
  | callLoad | callPeek | findOnDisk | findLoading | lose | overflow | wait | peekState
  | peekData => exact .silent trivial id id (by simp) rfl

end Inversion

end Steps

/-! The whole system -/

abbrev LatchSystem (Tid T : Type) := Threads Tid (Pc T) (PageTableLatch T)

abbrev LatchTrace (Tid T : Type) := List (Tid × Event T)

section System
variable {Tid T : Type} [DecidableEq Tid]

def LatchSystem.new (data : T) : LatchSystem Tid T := ⟨.new data,fun _ => .idle⟩

def LatchSystem.step (b : Build) (s : LatchSystem Tid T) (a : Tid × Action T) :
    Option ((Tid × Event T) × LatchSystem Tid T) := Threads.step (latchMove b) s a

def LatchSystem.run (b : Build) (schedule : List (Tid × Action T)) (s : LatchSystem Tid T) :
    Option (LatchTrace Tid T × LatchSystem Tid T) := runSteps (LatchSystem.step b) schedule s

end System

end InkDB
