import InkDB.LatchSafety
import InkDB.SlottedPage

/-!
The mapping table: page ids to shared entries, each entry a latch over the
page's location. Threads insert entries, fetch handles and load through them;
seen from one entry, every run of the table is a run of its latch.
-/

set_option autoImplicit false

namespace InkDB

inductive PageTableResult where
  | disk (offset : UInt64)
  | memory (frame : UInt64)
  deriving DecidableEq, Repr

/-- `x * y`, checked in a debug build and wrapping in a release build. -/
def u64Mul (b : Build) (x y : UInt64) : Exec UInt64 :=
  if x.toNat*y.toNat < 2^64 then pure (x*y) else
    match b with
    | .debug => throw (.panic .overflow)
    | .release => pure (x*y)

def PageID.toOffset (b : Build) (id : PageID) : Exec UInt64 :=
  u64Mul b id.val (UInt64.ofNat pageSize)

structure PageTableEntry where
  state : PageTableLatch PageTableResult
  deriving DecidableEq, Repr

def PageTableEntry.new (b : Build) (id : PageID) : Exec PageTableEntry := do
  let offset ← id.toOffset b
  pure ⟨.new (.disk offset)⟩

/-- `Arc<PageTableEntry>`: where the shared entry lives. -/
abbrev PageTableHandle := Nat

structure NaiveMappingTable where
  map : PageID → Option PageTableHandle

namespace NaiveMappingTable

def new : NaiveMappingTable := ⟨fun _ => none⟩

def get (m : NaiveMappingTable) (id : PageID) : Option PageTableHandle := m.map id

def insert (m : NaiveMappingTable) (id : PageID) (entry : PageTableHandle) : NaiveMappingTable :=
  ⟨Function.update m.map id (some entry)⟩

end NaiveMappingTable

/-- The table and every entry ever shared; a replaced entry lives on in the
handles that were cloned before. -/
structure TableMemory where
  entries : List PageTableEntry
  table : NaiveMappingTable

inductive TableLoc where
  | outside
  | holding (id : PageID) (handle : PageTableHandle) (pc : Pc PageTableResult)
  | panicked

inductive TableAction where
  | insert (id : PageID)
  | get (id : PageID)
  | latch (action : Action PageTableResult)
  | drop

inductive TableEvent where
  | inserted (id : PageID) (data : PageTableResult)
  | overflowed (id : PageID)
  | missed (id : PageID)
  | got (id : PageID) (handle : PageTableHandle)
  | latched (id : PageID) (e : Event PageTableResult)
  | dropped

/-- One step under the lock, or one step of the latch. Only new entries are
inserted; an entry is private until it is in the table, so its construction is no
step of its own. -/
def tableMove (b : Build) : TableAction → TableLoc → TableMemory →
    Option (TableEvent × TableLoc × TableMemory)
  | .insert id, .outside, m =>
      match PageTableEntry.new b id with
      | .error _ => some (.overflowed id,.panicked,m)
      | .ok entry => some (.inserted id entry.state.data,.outside,
          ⟨m.entries ++ [entry],m.table.insert id m.entries.length⟩)
  | .get id, .outside, m =>
      match m.table.get id with
      | none => some (.missed id,.outside,m)
      | some handle => some (.got id handle,.holding id handle .idle,m)
  | .latch action, .holding id handle pc, m => do
      let entry ← m.entries[handle]?
      let (e,pc,l) ← latchMove b action pc entry.state
      pure (.latched id e,.holding id handle pc,{ m with entries := m.entries.set handle ⟨l⟩ })
  | .drop, .holding _ _ .idle, m => some (.dropped,.outside,m)
  | _, _, _ => none

inductive TableMove (b : Build) : TableAction → TableLoc → TableMemory → TableEvent → TableLoc →
    TableMemory → Prop where
  | insert {id : PageID} {m : TableMemory} {offset : UInt64} (ho : id.toOffset b = .ok offset) :
      TableMove b (.insert id) .outside m (.inserted id (.disk offset)) .outside
        ⟨m.entries ++ [⟨.new (.disk offset)⟩],m.table.insert id m.entries.length⟩
  | overflow {id : PageID} {m : TableMemory} {x : Fault} (ho : id.toOffset b = .error x) :
      TableMove b (.insert id) .outside m (.overflowed id) .panicked m
  | miss {id : PageID} {m : TableMemory} : TableMove b (.get id) .outside m (.missed id) .outside m
  | get {id : PageID} {m : TableMemory} {handle : PageTableHandle}
      (hg : m.table.get id = some handle) :
      TableMove b (.get id) .outside m (.got id handle) (.holding id handle .idle) m
  | latch {id : PageID} {m : TableMemory} {handle : PageTableHandle} {entry : PageTableEntry}
      {action : Action PageTableResult} {pc pc' : Pc PageTableResult} {e : Event PageTableResult}
      {l : PageTableLatch PageTableResult} (he : m.entries[handle]? = some entry)
      (hm : latchMove b action pc entry.state = some (e,pc',l)) :
      TableMove b (.latch action) (.holding id handle pc) m (.latched id e)
        (.holding id handle pc') { m with entries := m.entries.set handle ⟨l⟩ }
  | drop {id : PageID} {m : TableMemory} {handle : PageTableHandle} :
      TableMove b .drop (.holding id handle .idle) m .dropped .outside m

theorem tableMove_cases {b : Build} {a : TableAction} {loc loc' : TableLoc} {m m' : TableMemory}
    {e : TableEvent} (h : tableMove b a loc m = some (e,loc',m')) :
    TableMove b a loc m e loc' m' := by
  unfold tableMove at h
  split at h
  · rename_i id
    simp only [PageTableEntry.new] at h
    cases ho : id.toOffset b with
    | error x =>
      rw [ho] at h
      cases h
      exact .overflow ho
    | ok offset =>
      rw [ho] at h
      cases h
      exact .insert ho
  · split at h
    · cases h
      exact .miss
    · cases h
      exact .get ‹_›
  · simp only [Option.bind_eq_bind,Option.bind_eq_some_iff] at h
    obtain ⟨entry,he,⟨e,pc',l⟩,hm,heq⟩ := h
    cases heq
    exact .latch he hm
  · cases h
    exact .drop
  · cases h

abbrev TableSystem (Tid : Type) := Threads Tid TableLoc TableMemory

abbrev TableTrace (Tid : Type) := List (Tid × TableEvent)

section System
variable {Tid : Type} [DecidableEq Tid]

def TableSystem.new : TableSystem Tid := ⟨⟨[],.new⟩,fun _ => .outside⟩

def TableSystem.step (b : Build) (s : TableSystem Tid) (a : Tid × TableAction) :
    Option ((Tid × TableEvent) × TableSystem Tid) := Threads.step (tableMove b) s a

def TableSystem.run (b : Build) (schedule : List (Tid × TableAction)) (s : TableSystem Tid) :
    Option (TableTrace Tid × TableSystem Tid) := runSteps (TableSystem.step b) schedule s

end System

/-! One entry at a time -/

def TableLoc.pcAt (handle : PageTableHandle) : TableLoc → Pc PageTableResult
  | .holding _ handle' pc => if handle' = handle then pc else .idle
  | _ => .idle

def TableEvent.insertedId : TableEvent → Option PageID
  | .inserted id _ => some id
  | _ => none

def insertedIds {Tid : Type} (tr : TableTrace Tid) : List PageID :=
  tr.filterMap (fun x => x.2.insertedId)

section Views
variable {Tid : Type} [DecidableEq Tid] {loc : Tid → TableLoc} {t : Tid} {handle : PageTableHandle}

theorem pcAt_update {l : TableLoc} (h : (loc t).pcAt handle = l.pcAt handle) :
    (fun u => (Function.update loc t l u).pcAt handle) = fun u => (loc u).pcAt handle := by
  funext u
  by_cases hu : u = t
  · subst hu
    rw [Function.update_self,h]
  · rw [Function.update_of_ne hu]

theorem pcAt_holding {id : PageID} {pc' : Pc PageTableResult} :
    (fun u => (Function.update loc t (.holding id handle pc') u).pcAt handle) =
      Function.update (fun u => (loc u).pcAt handle) t pc' := by
  funext u
  by_cases hu : u = t
  · subst hu
    simp [TableLoc.pcAt]
  · simp [Function.update_of_ne hu]

theorem held_update {ids : List PageID} {l : TableLoc}
    (hloc : ∀ u id handle pc, loc u = .holding id handle pc → ids[handle]? = some id)
    (hl : ∀ id handle pc, l = .holding id handle pc → ids[handle]? = some id) :
    ∀ u id handle pc, Function.update loc t l u = .holding id handle pc →
      ids[handle]? = some id := by
  intro u id handle pc hu
  by_cases hut : u = t
  · subst hut
    rw [Function.update_self] at hu
    exact hl id handle pc hu
  · rw [Function.update_of_ne hut] at hu
    exact hloc u id handle pc hu

end Views

/-- Seen from each entry, the run so far is a run of a latch made with the
offset of the entry's page. -/
structure TableInv {Tid : Type} (b : Build) (ids : List PageID) (s : TableSystem Tid) : Prop where
  sized : s.shared.entries.length = ids.length
  mapped : ∀ id handle, s.shared.table.get id = some handle → ids[handle]? = some id
  held : ∀ t id handle pc, s.loc t = .holding id handle pc → ids[handle]? = some id
  latches : ∀ handle id entry, ids[handle]? = some id → s.shared.entries[handle]? = some entry →
    ∃ offset tr ph, id.toOffset b = .ok offset ∧
      LatchInv (.disk offset) tr ⟨entry.state,fun t => (s.loc t).pcAt handle⟩ ph

theorem tableInv_new {Tid : Type} (b : Build) : TableInv b [] (TableSystem.new : TableSystem Tid) :=
  ⟨rfl,nofun,nofun,nofun⟩

theorem getElem?_append_some {α : Type} {as bs : List α} {i : Nat} {x : α} (h : as[i]? = some x) :
    (as ++ bs)[i]? = some x := by
  have hi : i < as.length := (List.getElem?_eq_some_iff.mp h).1
  rw [List.getElem?_append_left hi,h]

section Step
variable {Tid : Type} [DecidableEq Tid] {b : Build} {ids : List PageID} {s : TableSystem Tid}
  {t : Tid}

theorem TableInv.relocate (hi : TableInv b ids s) {l : TableLoc}
    (hidle : ∀ handle, (s.loc t).pcAt handle = l.pcAt handle)
    (hheld : ∀ id handle pc, l = .holding id handle pc → ids[handle]? = some id) :
    TableInv b ids ⟨s.shared,Function.update s.loc t l⟩ where
  sized := hi.sized
  mapped := hi.mapped
  held := held_update hi.held hheld
  latches handle id entry hid he := by
    rw [pcAt_update (hidle handle)]
    exact hi.latches handle id entry hid he

omit [DecidableEq Tid] in
theorem TableInv.insert (hi : TableInv b ids s) {id : PageID} {offset : UInt64}
    (ho : id.toOffset b = .ok offset) :
    TableInv b (ids ++ [id])
      ⟨⟨s.shared.entries ++ [⟨.new (.disk offset)⟩],
        s.shared.table.insert id s.shared.entries.length⟩,s.loc⟩ where
  sized := by simp [hi.sized]
  mapped id' handle hget := by
    simp only [NaiveMappingTable.get,NaiveMappingTable.insert] at hget
    by_cases hid : id' = id
    · subst hid
      rw [Function.update_self] at hget
      cases hget
      rw [hi.sized]
      simp
    · rw [Function.update_of_ne hid] at hget
      exact getElem?_append_some (hi.mapped id' handle hget)
  held u id' handle pc hu := getElem?_append_some (hi.held u id' handle pc hu)
  latches handle id' entry hid he := by
    by_cases hlt : handle < ids.length
    · rw [List.getElem?_append_left hlt] at hid
      rw [List.getElem?_append_left (by rw [hi.sized]; exact hlt)] at he
      exact hi.latches handle id' entry hid he
    · -- the new entry: no thread can hold its handle yet
      have hidle : (fun u => (s.loc u).pcAt handle) = fun _ => .idle := by
        funext u
        cases hu : s.loc u with
        | outside => rfl
        | panicked => rfl
        | holding id₁ handle₁ pc =>
          have hheld := hi.held u id₁ handle₁ pc hu
          have hne : handle₁ ≠ handle := by
            rintro rfl
            exact hlt (List.getElem?_eq_some_iff.mp hheld).1
          simp [TableLoc.pcAt,hne]
      rw [List.getElem?_append_right (Nat.not_lt.mp hlt)] at hid
      rw [List.getElem?_append_right (by rw [hi.sized]; exact Nat.not_lt.mp hlt)] at he
      obtain rfl := List.mem_singleton.mp (List.mem_of_getElem? hid)
      obtain rfl := List.mem_singleton.mp (List.mem_of_getElem? he)
      rw [hidle]
      exact ⟨offset,[],.onDisk,ho,latchInv_new _⟩

/-- A step of the latch behind a handle. The entry's own view takes the step and
all others stay as they are. -/
theorem TableInv.latch (hi : TableInv b ids s) {id : PageID} {handle : PageTableHandle}
    {entry : PageTableEntry} {action : Action PageTableResult} {pc pc' : Pc PageTableResult}
    {e : Event PageTableResult} {l : PageTableLatch PageTableResult}
    (hloc : s.loc t = .holding id handle pc) (he : s.shared.entries[handle]? = some entry)
    (hm : latchMove b action pc entry.state = some (e,pc',l)) :
    (∀ arg r, e = .worked arg r → ∃ offset, id.toOffset b = .ok offset ∧ arg = .disk offset) ∧
      TableInv b ids ⟨{ s.shared with entries := s.shared.entries.set handle ⟨l⟩ },
        Function.update s.loc t (.holding id handle pc')⟩ := by
  have hid := hi.held t id handle pc hloc
  obtain ⟨offset,tr,ph,ho,hlatch⟩ := hi.latches handle id entry hid he
  have hpc : (s.loc t).pcAt handle = pc := by simp [hloc,TableLoc.pcAt]
  have hmove : LatchMove ((s.loc t).pcAt handle) entry.state e pc' l := by
    rw [hpc]
    exact (latchMove_cases hm).move
  obtain ⟨-,ph',hlatch'⟩ := hlatch.step hmove
  refine ⟨?_,?_,hi.mapped,?_,?_⟩
  · rintro arg r rfl
    exact ⟨offset,ho,hlatch'.args t arg r (by simp)⟩
  · rw [List.length_set]
    exact hi.sized
  · apply held_update hi.held
    intro id₁ handle₁ pc₁ heq
    cases heq
    exact hid
  · intro handle₁ id₁ entry₁ hid₁ he₁
    by_cases hsame : handle₁ = handle
    · subst hsame
      rw [hid] at hid₁
      cases hid₁
      rw [List.getElem?_set_self (List.getElem?_eq_some_iff.mp he).1] at he₁
      cases he₁
      rw [pcAt_holding]
      exact ⟨offset,_,ph',ho,hlatch'⟩
    · rw [List.getElem?_set_ne (Ne.symm hsame)] at he₁
      rw [pcAt_update (by simp [hloc,TableLoc.pcAt,Ne.symm hsame])]
      exact hi.latches handle₁ id₁ entry₁ hid₁ he₁

omit [DecidableEq Tid] in
theorem TableInv.kept (hi : TableInv b ids s) {e : TableEvent} (he : e.insertedId = none) :
    TableInv b (ids ++ e.insertedId.toList) s := by
  rw [he]
  simpa using hi

theorem TableInv.step {a : Tid × TableAction} {x : Tid × TableEvent} {s' : TableSystem Tid}
    (hi : TableInv b ids s) (h : s.step b a = some (x,s')) :
    TableInv b (ids ++ x.2.insertedId.toList) s' ∧
      ∀ id arg r, x.2 = .latched id (.worked arg r) →
        id ∈ ids ∧ ∃ offset, id.toOffset b = .ok offset ∧ arg = .disk offset := by
  obtain ⟨e,loc',m',hmove,rfl,rfl⟩ := Threads.step_some h
  have hmove := tableMove_cases hmove
  generalize hloc : s.loc a.1 = loc at hmove
  generalize hm : s.shared = m at hmove
  generalize a.2 = action at hmove
  cases hmove with
  | insert ho =>
    subst hm
    rw [← hloc,Function.update_eq_self]
    exact ⟨hi.insert ho,nofun⟩
  | overflow ho =>
    subst hm
    refine ⟨(hi.relocate (fun handle' => ?_) ?_).kept rfl,nofun⟩
    · rw [hloc]
      rfl
    · nofun
  | miss =>
    subst hm
    refine ⟨(hi.relocate (fun handle' => ?_) ?_).kept rfl,nofun⟩
    · rw [hloc]
    · nofun
  | @get id _ handle hg =>
    subst hm
    refine ⟨(hi.relocate (fun handle' => ?_) ?_).kept rfl,nofun⟩
    · rw [hloc]
      simp [TableLoc.pcAt]
    · intro id₁ handle₁ pc₁ heq
      cases heq
      exact hi.mapped id handle hg
  | @latch id _ handle entry action pc pc' e l he hlm =>
    subst hm
    obtain ⟨hwork,hi'⟩ := hi.latch hloc he hlm
    refine ⟨hi'.kept rfl,?_⟩
    intro id₁ arg r heq
    cases heq
    exact ⟨List.mem_of_getElem? (hi.held _ _ _ _ hloc),hwork arg r rfl⟩
  | @drop id _ handle =>
    subst hm
    refine ⟨(hi.relocate (fun handle' => ?_) ?_).kept rfl,nofun⟩
    · rw [hloc]
      simp [TableLoc.pcAt]
    · nofun

end Step

/-! Offsets -/

section Offsets
variable {b : Build} {id : PageID} {offset : UInt64}

theorem toOffset_eq (h : id.toOffset b = .ok offset) : offset = id.val*4096 := by
  unfold PageID.toOffset u64Mul at h
  split at h
  · cases h
    rfl
  · cases b with
    | debug => cases h
    | release =>
      cases h
      rfl

theorem toOffset_ok (b : Build) (h : id.val.toNat < 2^52) : id.toOffset b = .ok (id.val*4096) :=
  if_pos (show id.val.toNat*4096 < 2^64 by omega)

/-- The product is exact below 2^52 and nowhere else. -/
theorem offset_exact_iff : (id.val*4096).toNat = id.val.toNat*4096 ↔ id.val.toNat < 2^52 := by
  have hmul : (id.val*4096).toNat = id.val.toNat*4096%2^64 := UInt64.toNat_mul _ _
  omega

theorem offset_injective {id' : PageID} (h : id.val.toNat < 2^52) (h' : id'.val.toNat < 2^52)
    (heq : id.val*4096 = id'.val*4096) : id = id' := by
  have hnat := congrArg UInt64.toNat heq
  rw [offset_exact_iff.mpr h,offset_exact_iff.mpr h'] at hnat
  have hval : id.val = id'.val := UInt64.toNat.inj (by omega)
  cases id
  cases id'
  exact congrArg PageID.mk hval

end Offsets

section Steps
variable {Tid : Type} [DecidableEq Tid] {b : Build} {s s' : TableSystem Tid} {t : Tid}
  {id : PageID} {a : Tid × TableAction} {x : Tid × TableEvent}

theorem step_insert (h : s.step b (t,.insert id) = some (x,s')) :
    x = (t,.inserted id (.disk (id.val*4096))) ∨ x = (t,.overflowed id) := by
  obtain ⟨e,loc',m',hmove,rfl,-⟩ := Threads.step_some h
  have hmove := tableMove_cases hmove
  generalize s.loc t = loc at hmove
  cases hmove with
  | insert ho => exact .inl (by rw [toOffset_eq ho])
  | overflow => exact .inr rfl

theorem step_inserted {d : PageTableResult}
    (h : s.step b a = some ((t,.inserted id d),s')) :
    a = (t,.insert id) ∧ d = .disk (id.val*4096) := by
  obtain ⟨e,loc',m',hmove,hx,-⟩ := Threads.step_some h
  have hmove := tableMove_cases hmove
  obtain ⟨u,action⟩ := a
  cases hx
  generalize s.loc u = loc at hmove
  cases hmove with
  | insert ho => exact ⟨rfl,by rw [toOffset_eq ho]⟩

theorem step_overflowed (h : s.step b a = some ((t,.overflowed id),s')) :
    a = (t,.insert id) ∧ ∃ f, id.toOffset b = .error f := by
  obtain ⟨e,loc',m',hmove,hx,-⟩ := Threads.step_some h
  have hmove := tableMove_cases hmove
  obtain ⟨u,action⟩ := a
  cases hx
  generalize s.loc u = loc at hmove
  cases hmove with
  | overflow ho => exact ⟨rfl,_,ho⟩

end Steps

section Runs
variable {Tid : Type} [DecidableEq Tid] {b : Build} {schedule : List (Tid × TableAction)}
  {tr : TableTrace Tid} {s : TableSystem Tid}

/-- What a load is given, in terms of the table. -/
def Handed (tr : TableTrace Tid) : Prop :=
  ∀ t id arg r, (t,.latched id (.worked arg r)) ∈ tr →
    (∃ u d, (u,.inserted id d) ∈ tr) ∧ arg = .disk (id.val*4096)

theorem table_run (h : (TableSystem.new : TableSystem Tid).run b schedule = some (tr,s)) :
    TableInv b (insertedIds tr) s ∧ Handed tr := by
  apply runSteps_reaches (fun tr s => TableInv b (insertedIds tr) s ∧ Handed tr) h
  · exact ⟨tableInv_new b,nofun⟩
  · rintro tr s a x s' ⟨hi,hhanded⟩ hstep
    obtain ⟨hi',hwork⟩ := hi.step hstep
    have hids : insertedIds (tr ++ [x]) = insertedIds tr ++ x.2.insertedId.toList := by
      rw [insertedIds,List.filterMap_append]
      cases hx : x.2.insertedId <;> simp [insertedIds,hx]
    refine ⟨by rw [hids]; exact hi',?_⟩
    intro t id arg r hmem
    rcases List.mem_append.mp hmem with hmem | hmem
    · obtain ⟨⟨u,d,hins⟩,harg⟩ := hhanded t id arg r hmem
      exact ⟨⟨u,d,List.mem_append_left _ hins⟩,harg⟩
    · obtain rfl := List.mem_singleton.mp hmem
      obtain ⟨hid,offset,ho,rfl⟩ := hwork id arg r rfl
      obtain ⟨⟨u,e⟩,hins,he⟩ := List.mem_filterMap.mp hid
      refine ⟨?_,by rw [toOffset_eq ho]⟩
      simp only [TableEvent.insertedId] at he
      split at he
      · cases he
        exact ⟨u,_,List.mem_append_left _ hins⟩
      · cases he

section Labels
variable (h : (TableSystem.new : TableSystem Tid).run b schedule = some (tr,s)) {t : Tid}
  {id : PageID}
include h

theorem run_inserted {d : PageTableResult} (hmem : (t,.inserted id d) ∈ tr) :
    (t,.insert id) ∈ schedule ∧ d = .disk (id.val*4096) := by
  obtain ⟨pre,post,rfl⟩ := List.append_of_mem hmem
  obtain ⟨as₁,a,as₂,s₁,s₂,rfl,-,hstep,-⟩ := runSteps_split h
  obtain ⟨rfl,hd⟩ := step_inserted hstep
  exact ⟨by simp,hd⟩

theorem run_overflowed (hmem : (t,.overflowed id) ∈ tr) :
    (t,.insert id) ∈ schedule ∧ ∃ f, id.toOffset b = .error f := by
  obtain ⟨pre,post,rfl⟩ := List.append_of_mem hmem
  obtain ⟨as₁,a,as₂,s₁,s₂,rfl,-,hstep,-⟩ := runSteps_split h
  obtain ⟨rfl,hf⟩ := step_overflowed hstep
  exact ⟨by simp,hf⟩

theorem run_worked {arg : PageTableResult} {r : Except String PageTableResult}
    (hmem : (t,.latched id (.worked arg r)) ∈ tr) :
    (∃ u, (u,.insert id) ∈ schedule) ∧ arg = .disk (id.val*4096) := by
  obtain ⟨⟨u,d,hins⟩,harg⟩ := (table_run h).2 t id arg r hmem
  exact ⟨⟨u,(run_inserted h hins).1⟩,harg⟩

end Labels

/-- Every page has its own location, from its entry to the loader. -/
structure Resolves (tr : TableTrace Tid) : Prop where
  noOverflow : ∀ t id, (t,.overflowed id) ∉ tr
  entered : ∀ t id d, (t,.inserted id d) ∈ tr →
    ∃ offset, d = .disk offset ∧ offset.toNat = id.val.toNat*4096
  handed : ∀ t id arg r, (t,.latched id (.worked arg r)) ∈ tr →
    ∃ offset, arg = .disk offset ∧ offset.toNat = id.val.toNat*4096
  distinct : ∀ t u id id' arg r r', (t,.latched id (.worked arg r)) ∈ tr →
    (u,.latched id' (.worked arg r')) ∈ tr → id = id'

end Runs

theorem page_table_resolves_iff {Tid : Type} [DecidableEq Tid] (b : Build)
    (schedule : List (Tid × TableAction)) (tr : TableTrace Tid) (s : TableSystem Tid)
    (h : (TableSystem.new : TableSystem Tid).run b schedule = some (tr,s)) :
    Resolves tr ↔ ∀ t id, (t,.insert id) ∈ schedule → id.val.toNat < 2^52 := by
  constructor
  · intro hres t id hmem
    obtain ⟨x,hx,s₁,s₂,hstep⟩ := runSteps_label h hmem
    rcases step_insert hstep with rfl | rfl
    · obtain ⟨offset,hd,hexact⟩ := hres.entered t id _ hx
      cases hd
      exact offset_exact_iff.mp hexact
    · exact absurd hx (hres.noOverflow t id)
  · intro hsmall
    refine ⟨?_,?_,?_,?_⟩
    · intro t id hmem
      obtain ⟨hins,f,hf⟩ := run_overflowed h hmem
      rw [toOffset_ok b (hsmall t id hins)] at hf
      cases hf
    · intro t id d hmem
      obtain ⟨hins,hd⟩ := run_inserted h hmem
      exact ⟨_,hd,offset_exact_iff.mpr (hsmall t id hins)⟩
    · intro t id arg r hmem
      obtain ⟨⟨u,hins⟩,harg⟩ := run_worked h hmem
      exact ⟨_,harg,offset_exact_iff.mpr (hsmall u id hins)⟩
    · intro t t' id id' arg r r' hmem hmem'
      obtain ⟨⟨u,hins⟩,rfl⟩ := run_worked h hmem
      obtain ⟨⟨u',hins'⟩,harg⟩ := run_worked h hmem'
      exact offset_injective (hsmall u id hins) (hsmall u' id' hins')
        (PageTableResult.disk.inj harg)

def loadPage (id : PageID) : List TableAction :=
  [.get id,.latch (.load (fun _ => .error "not read")),.latch .advance,.latch .advance,
    .latch .advance,.drop]

def twoPages (id id' : PageID) : List (Unit × TableAction) :=
  (.insert id :: .insert id' :: loadPage id ++ loadPage id').map ((),·)

def loadedPage (id : PageID) (handle : PageTableHandle) (offset : UInt64) : List TableEvent :=
  [.got id handle,.latched id .called,.latched id (.observed 0),.latched id (.exchanged true),
    .latched id (.worked (.disk offset) (.error "not read")),.dropped]

theorem page_table_aliases_pages :
    ¬ ∀ (Tid : Type) [DecidableEq Tid] (b : Build) (schedule : List (Tid × TableAction))
      (tr : TableTrace Tid) (s : TableSystem Tid),
      (TableSystem.new : TableSystem Tid).run b schedule = some (tr,s) → Resolves tr := by
  intro hall
  have hres := hall Unit .release (twoPages ⟨0⟩ ⟨4503599627370496⟩)
    ((.inserted ⟨0⟩ (.disk 0) :: .inserted ⟨4503599627370496⟩ (.disk 0) ::
      loadedPage ⟨0⟩ 0 0 ++ loadedPage ⟨4503599627370496⟩ 1 0).map ((),·)) _ rfl
  have hsame := hres.distinct () () ⟨0⟩ ⟨4503599627370496⟩ (.disk 0) (.error "not read")
    (.error "not read") (by simp [loadedPage]) (by simp [loadedPage])
  revert hsame
  decide

theorem page_table_two_pages :
    ∃ s, (TableSystem.new : TableSystem Unit).run .debug (twoPages ⟨1234⟩ ⟨5678⟩) =
        some ((.inserted ⟨1234⟩ (.disk 5054464) :: .inserted ⟨5678⟩ (.disk 23257088) ::
          loadedPage ⟨1234⟩ 0 5054464 ++ loadedPage ⟨5678⟩ 1 23257088).map ((),·),s) ∧
      Resolves ((.inserted ⟨1234⟩ (.disk 5054464) :: .inserted ⟨5678⟩ (.disk 23257088) ::
        loadedPage ⟨1234⟩ 0 5054464 ++ loadedPage ⟨5678⟩ 1 23257088).map (((),·) :
          TableEvent → Unit × TableEvent)) := by
  refine ⟨_,rfl,(page_table_resolves_iff .debug (twoPages ⟨1234⟩ ⟨5678⟩) _ _ rfl).mpr ?_⟩
  intro t id hmem
  simp [twoPages,loadPage] at hmem
  rcases hmem with rfl | rfl <;> decide

end InkDB
