import InkDB.PageTable
import InkDB.LatchRefinement

/-!
The mapping table page by page, for tables filled with fresh entries only. The
events on a page that is entered once are a run of that page's latch, so whatever
holds of every latch holds of every such page.
-/

set_option autoImplicit false

namespace InkDB

def TableEvent.onPage (id : PageID) : TableEvent → Option (Event PageTableResult)
  | .latched id' e => if id' = id then some e else none
  | _ => none

section Pages
variable {Tid : Type}

def pageTrace (id : PageID) (tr : TableTrace Tid) : LatchTrace Tid PageTableResult :=
  tr.filterMap (fun x => (x.2.onPage id).map (fun e => (x.1,e)))

/-- The system, as the latch of one entry sees it. -/
def pageView (s : TableSystem Tid) (handle : PageTableHandle) (entry : PageTableEntry) :
    LatchSystem Tid PageTableResult :=
  ⟨entry.state,fun t => (s.loc t).pcAt handle⟩

/-- The events on the page so far are a run of the latch behind a handle. -/
structure PageRun [DecidableEq Tid] (b : Build) (id : PageID) (tr : TableTrace Tid)
    (s : TableSystem Tid) (handle : PageTableHandle) : Prop where
  mapped : s.shared.table.get id = some handle
  latch : ∃ entry offset schedule, s.shared.entries[handle]? = some entry ∧
    id.toOffset b = .ok offset ∧
    (LatchSystem.new (.disk offset)).run b schedule = some (pageTrace id tr,pageView s handle entry)

theorem pageTrace_snoc (id : PageID) (tr : TableTrace Tid) (x : Tid × TableEvent) :
    pageTrace id (tr ++ [x]) =
      pageTrace id tr ++ ((x.2.onPage id).map (fun e => (x.1,e))).toList := by
  rw [pageTrace,List.filterMap_append]
  cases h : x.2.onPage id with
  | none => simp [pageTrace,h]
  | some e => simp [pageTrace,h]

theorem insertedIds_snoc (tr : TableTrace Tid) (x : Tid × TableEvent) :
    insertedIds (tr ++ [x]) = insertedIds tr ++ x.2.insertedId.toList := by
  rw [insertedIds,List.filterMap_append]
  cases hx : x.2.insertedId <;> simp [insertedIds,hx]

theorem index_unique {α : Type} [DecidableEq α] {as : List α} {x : α} (h : as.count x = 1)
    {i j : Nat} (hi : as[i]? = some x) (hj : as[j]? = some x) : i = j := by
  induction as generalizing i j with
  | nil => simp at hi
  | cons a as ih =>
    rw [List.count_cons] at h
    by_cases ha : a = x
    · subst ha
      have hnone : a ∉ as := by
        rw [← List.count_eq_zero]
        simpa using h
      cases i with
      | zero =>
        cases j with
        | zero => rfl
        | succ j => exact absurd (List.mem_of_getElem? (by simpa using hj)) hnone
      | succ i => exact absurd (List.mem_of_getElem? (by simpa using hi)) hnone
    · simp only [beq_iff_eq,ha,if_false,Nat.add_zero] at h
      cases i with
      | zero => simp [ha] at hi
      | succ i =>
        cases j with
        | zero => simp [ha] at hj
        | succ j => exact congrArg (·+1) (ih h (by simpa using hi) (by simpa using hj))

end Pages

structure TablePages {Tid : Type} [DecidableEq Tid] (b : Build) (tr : TableTrace Tid)
    (s : TableSystem Tid) : Prop where
  inv : TableInv b (insertedIds tr) s
  untouched : ∀ id, id ∉ insertedIds tr → pageTrace id tr = []
  pages : ∀ id, (insertedIds tr).count id = 1 → ∃ handle, PageRun b id tr s handle

section Step
variable {Tid : Type} [DecidableEq Tid] {b : Build} {tr : TableTrace Tid} {s s' : TableSystem Tid}
  {id : PageID} {handle : PageTableHandle} {x : Tid × TableEvent} {t : Tid}

theorem PageRun.kept (hp : PageRun b id tr s handle) (hx : x.2.onPage id = none)
    (htable : s'.shared.table.get id = s.shared.table.get id)
    (hentry : s'.shared.entries[handle]? = s.shared.entries[handle]?)
    (hpc : (fun u => (s'.loc u).pcAt handle) = fun u => (s.loc u).pcAt handle) :
    PageRun b id (tr ++ [x]) s' handle := by
  obtain ⟨entry,offset,schedule,he,ho,hrun⟩ := hp.latch
  refine ⟨htable.trans hp.mapped,entry,offset,schedule,hentry.trans he,ho,?_⟩
  rw [pageTrace_snoc,hx,pageView,hpc]
  simpa [pageView] using hrun

theorem PageRun.step (hp : PageRun b id tr s handle) {entry : PageTableEntry}
    {action : Action PageTableResult} {pc pc' : Pc PageTableResult} {e : Event PageTableResult}
    {l : PageTableLatch PageTableResult} (hloc : s.loc t = .holding id handle pc)
    (he : s.shared.entries[handle]? = some entry)
    (hm : latchMove b action pc entry.state = some (e,pc',l)) :
    PageRun b id (tr ++ [(t,.latched id e)])
      ⟨{ s.shared with entries := s.shared.entries.set handle ⟨l⟩ },
        Function.update s.loc t (.holding id handle pc')⟩ handle := by
  obtain ⟨entry',offset,schedule,he',ho,hrun⟩ := hp.latch
  rw [he] at he'
  cases he'
  have hpc : (s.loc t).pcAt handle = pc := by simp [hloc,TableLoc.pcAt]
  refine ⟨hp.mapped,⟨l⟩,offset,schedule ++ [(t,action)],?_,ho,?_⟩
  · exact List.getElem?_set_self (List.getElem?_eq_some_iff.mp he).1
  · have hstep : (pageView s handle entry).step b (t,action) =
        some ((t,e),⟨l,Function.update (fun u => (s.loc u).pcAt handle) t pc'⟩) := by
      simp only [LatchSystem.step,Threads.step,pageView,hpc,hm]
      rfl
    have hone : runSteps (LatchSystem.step b) [(t,action)] (pageView s handle entry) =
        some ([(t,e)],⟨l,Function.update (fun u => (s.loc u).pcAt handle) t pc'⟩) := by
      simp only [runSteps,hstep,Option.bind_eq_bind,Option.bind_some]
      rfl
    have hall := runSteps_append hrun hone
    rw [LatchSystem.run,pageTrace_snoc,pageView,pcAt_holding]
    simpa [TableEvent.onPage] using hall

omit [DecidableEq Tid] in
/-- The entry that was just inserted: nobody has its handle. -/
theorem pcAt_fresh (hi : TableInv b (insertedIds tr) s) (t : Tid) :
    (s.loc t).pcAt s.shared.entries.length = .idle := by
  cases hu : s.loc t with
  | outside => rfl
  | panicked => rfl
  | holding id₁ handle₁ pc =>
    have hlt := (List.getElem?_eq_some_iff.mp (hi.held t id₁ handle₁ pc hu)).1
    rw [← hi.sized] at hlt
    have hne : handle₁ ≠ s.shared.entries.length := Nat.ne_of_lt hlt
    simp [TableLoc.pcAt,hne]

theorem TablePages.insert (hp : TablePages b tr s) {offset : UInt64}
    (ho : id.toOffset b = .ok offset) :
    TablePages b (tr ++ [(t,.inserted id (.disk offset))])
      ⟨⟨s.shared.entries ++ [⟨.new (.disk offset)⟩],
        s.shared.table.insert id s.shared.entries.length⟩,s.loc⟩ := by
  have hids : insertedIds (tr ++ [(t,TableEvent.inserted id (.disk offset))]) =
      insertedIds tr ++ [id] := insertedIds_snoc tr _
  have htrace : ∀ id', pageTrace id' (tr ++ [(t,TableEvent.inserted id (.disk offset))]) =
      pageTrace id' tr := by
    intro id'
    rw [pageTrace_snoc]
    simp [TableEvent.onPage]
  refine ⟨by rw [hids]; exact hp.inv.insert ho,?_,?_⟩
  · intro id' hid'
    rw [hids] at hid'
    rw [htrace]
    exact hp.untouched id' (fun h => hid' (List.mem_append_left _ h))
  · intro id' hcount
    rw [hids,List.count_append] at hcount
    by_cases hid : id' = id
    · subst hid
      have hnew : id' ∉ insertedIds tr := by
        rw [← List.count_eq_zero]
        simpa using hcount
      refine ⟨s.shared.entries.length,?_,⟨.new (.disk offset)⟩,offset,[],?_,ho,?_⟩
      · simp [NaiveMappingTable.get,NaiveMappingTable.insert]
      · simp
      · rw [htrace,hp.untouched id' hnew,pageView]
        simp only [pcAt_fresh hp.inv]
        rfl
    · have hcount' : (insertedIds tr).count id' = 1 := by
        simpa [Ne.symm hid] using hcount
      obtain ⟨handle,hrun⟩ := hp.pages id' hcount'
      obtain ⟨entry,-,-,he,-,-⟩ := hrun.latch
      refine ⟨handle,hrun.kept rfl ?_ ?_ rfl⟩
      · simp [NaiveMappingTable.get,NaiveMappingTable.insert,Function.update_of_ne hid]
      · rw [he]
        exact getElem?_append_some he

theorem TablePages.relocate (hp : TablePages b tr s) {e : TableEvent} {l : TableLoc}
    (hinv : TableInv b (insertedIds tr) ⟨s.shared,Function.update s.loc t l⟩)
    (he : e.insertedId = none ∧ ∀ id, e.onPage id = none)
    (hidle : ∀ handle, (s.loc t).pcAt handle = l.pcAt handle) :
    TablePages b (tr ++ [(t,e)]) ⟨s.shared,Function.update s.loc t l⟩ := by
  have hids : insertedIds (tr ++ [(t,e)]) = insertedIds tr := by
    rw [insertedIds_snoc]
    simp [he.1]
  refine ⟨by rw [hids]; exact hinv,?_,?_⟩
  · intro id' hid'
    rw [hids] at hid'
    rw [pageTrace_snoc,hp.untouched id' hid']
    simp [he.2]
  · intro id' hcount
    rw [hids] at hcount
    obtain ⟨handle,hrun⟩ := hp.pages id' hcount
    exact ⟨handle,hrun.kept (he.2 id') rfl rfl (pcAt_update (hidle handle))⟩

/-- A step of one latch. Pages with another latch do not see it. -/
theorem TablePages.latch (hp : TablePages b tr s) {entry : PageTableEntry}
    {action : Action PageTableResult} {pc pc' : Pc PageTableResult} {e : Event PageTableResult}
    {l : PageTableLatch PageTableResult} (hloc : s.loc t = .holding id handle pc)
    (he : s.shared.entries[handle]? = some entry)
    (hm : latchMove b action pc entry.state = some (e,pc',l)) :
    TablePages b (tr ++ [(t,.latched id e)])
      ⟨{ s.shared with entries := s.shared.entries.set handle ⟨l⟩ },
        Function.update s.loc t (.holding id handle pc')⟩ := by
  have hids : insertedIds (tr ++ [(t,TableEvent.latched id e)]) = insertedIds tr := by
    rw [insertedIds_snoc]
    simp [TableEvent.insertedId]
  have hheld := hp.inv.held t id handle pc hloc
  refine ⟨by rw [hids]; exact (hp.inv.latch hloc he hm).2,?_,?_⟩
  · intro id' hid'
    rw [hids] at hid'
    have hne : id ≠ id' := by
      rintro rfl
      exact hid' (List.mem_of_getElem? hheld)
    rw [pageTrace_snoc,hp.untouched id' hid']
    simp [TableEvent.onPage,hne]
  · intro id' hcount
    rw [hids] at hcount
    obtain ⟨handle',hrun⟩ := hp.pages id' hcount
    have hmapped := hp.inv.mapped id' handle' hrun.mapped
    by_cases hid : id = id'
    · subst hid
      obtain rfl := index_unique hcount hheld hmapped
      exact ⟨handle,hrun.step hloc he hm⟩
    · have hne : handle ≠ handle' := by
        rintro rfl
        rw [hheld] at hmapped
        exact hid (Option.some.inj hmapped)
      refine ⟨handle',hrun.kept ?_ rfl (List.getElem?_set_ne hne) (pcAt_update ?_)⟩
      · simp [TableEvent.onPage,hid]
      · simp [hloc,TableLoc.pcAt,hne]

theorem TablePages.step {a : Tid × TableAction} (hp : TablePages b tr s)
    (h : s.step b a = some (x,s')) : TablePages b (tr ++ [x]) s' := by
  obtain ⟨hinv,-⟩ := hp.inv.step h
  obtain ⟨e,loc',m',hmove,rfl,rfl⟩ := Threads.step_some h
  have hmove := tableMove_cases hmove
  generalize hloc : s.loc a.1 = loc at hmove
  generalize hm : s.shared = m at hmove hinv
  generalize a.2 = action at hmove
  cases hmove with
  | insert ho =>
    subst hm
    rw [← hloc,Function.update_eq_self]
    exact hp.insert ho
  | overflow ho =>
    subst hm
    refine hp.relocate (by simpa [TableEvent.insertedId] using hinv) ⟨rfl,fun _ => rfl⟩ ?_
    intro handle
    rw [hloc]
    rfl
  | miss =>
    subst hm
    refine hp.relocate (by simpa [TableEvent.insertedId] using hinv) ⟨rfl,fun _ => rfl⟩ ?_
    intro handle
    rw [hloc]
  | get hg =>
    subst hm
    refine hp.relocate (by simpa [TableEvent.insertedId] using hinv) ⟨rfl,fun _ => rfl⟩ ?_
    intro handle
    rw [hloc]
    simp [TableLoc.pcAt]
  | latch he hlm =>
    subst hm
    exact hp.latch hloc he hlm
  | drop =>
    subst hm
    refine hp.relocate (by simpa [TableEvent.insertedId] using hinv) ⟨rfl,fun _ => rfl⟩ ?_
    intro handle
    rw [hloc]
    simp [TableLoc.pcAt]

end Step

theorem table_pages {Tid : Type} [DecidableEq Tid] {b : Build}
    {schedule : List (Tid × TableAction)} {tr : TableTrace Tid} {s : TableSystem Tid}
    (h : (TableSystem.new : TableSystem Tid).run b schedule = some (tr,s)) :
    TablePages b tr s := by
  apply runSteps_reaches (fun tr s => TablePages b tr s) h
  · exact ⟨tableInv_new b,fun _ _ => rfl,fun id hid => absurd hid (by simp [insertedIds])⟩
  · intro tr s a x s' hp hstep
    exact hp.step hstep

/-- In every run of the table, the events on a page that is entered once are a
run of a latch of its own. -/
theorem page_run_is_latch_run {Tid : Type} [DecidableEq Tid] (b : Build)
    (schedule : List (Tid × TableAction)) (tr : TableTrace Tid) (s : TableSystem Tid)
    (h : (TableSystem.new : TableSystem Tid).run b schedule = some (tr,s)) (id : PageID)
    (hid : (insertedIds tr).count id = 1) :
    ∃ handle entry schedule', s.shared.table.get id = some handle ∧
      s.shared.entries[handle]? = some entry ∧
      (LatchSystem.new (.disk (id.val*4096)) : LatchSystem Tid PageTableResult).run b schedule' =
        some (pageTrace id tr,pageView s handle entry) := by
  obtain ⟨handle,hrun⟩ := (table_pages h).pages id hid
  obtain ⟨entry,offset,schedule',he,ho,hlatch⟩ := hrun.latch
  rw [toOffset_eq ho] at hlatch
  exact ⟨handle,entry,schedule',hrun.mapped,he,hlatch⟩

def loadFrame (id : PageID) (frame : UInt64) : List TableAction :=
  [.get id,.latch (.load (fun _ => .ok (.memory frame))),.latch .advance,.latch .advance,
    .latch .advance,.latch .advance,.latch .advance,.drop]

def sharedPage : List (Bool × TableAction) :=
  (.insert ⟨7⟩ :: loadFrame ⟨7⟩ 1).map (false,·) ++
    [(true,.get ⟨7⟩),(true,.latch (.load (fun _ => .ok (.memory 2)))),(true,.latch .advance),
      (true,.latch .advance)]

theorem page_run_shared :
    ∃ tr s, (TableSystem.new : TableSystem Bool).run .release sharedPage = some (tr,s) ∧
      (insertedIds tr).count ⟨7⟩ = 1 ∧
      ∃ handle entry schedule', s.shared.table.get ⟨7⟩ = some handle ∧
        s.shared.entries[handle]? = some entry ∧
        (LatchSystem.new (.disk 28672) : LatchSystem Bool PageTableResult).run .release schedule' =
          some (pageTrace ⟨7⟩ tr,pageView s handle entry) :=
  ⟨_,_,rfl,rfl,page_run_is_latch_run .release sharedPage _ _ rfl ⟨7⟩ rfl⟩

theorem mem_pageTrace {Tid : Type} {tr : TableTrace Tid} {id : PageID} {t : Tid}
    {e : Event PageTableResult} : (t,e) ∈ pageTrace id tr ↔ (t,.latched id e) ∈ tr := by
  simp only [pageTrace,List.mem_filterMap,Option.map_eq_some_iff]
  constructor
  · rintro ⟨⟨u,x⟩,hmem,e',hx,heq⟩
    cases heq
    cases x with
    | latched id' e'' =>
      simp only [TableEvent.onPage] at hx
      split at hx
      · rename_i hid
        cases hx
        exact hid ▸ hmem
      · cases hx
    | inserted _ _ | overflowed _ | missed _ | got _ _ | dropped => cases hx
  · intro hmem
    exact ⟨_,hmem,e,by simp [TableEvent.onPage],rfl⟩

/-- A page that is entered once is loaded once, and all threads that load it get
the same location. -/
theorem pages_load_once {Tid : Type} [DecidableEq Tid] (b : Build)
    (schedule : List (Tid × TableAction)) (tr : TableTrace Tid) (s : TableSystem Tid)
    (h : (TableSystem.new : TableSystem Tid).run b schedule = some (tr,s)) (id : PageID)
    (hid : (insertedIds tr).count id ≤ 1) :
    ((pageTrace id tr).filterMap (fun x => x.2.workOk)).length ≤ 1 ∧
      ∀ t u e e' v v', (t,.latched id e) ∈ tr → (u,.latched id e') ∈ tr →
        e.returned = some (.ok v) → e'.returned = some (.ok v') → v = v' := by
  by_cases hnone : id ∈ insertedIds tr
  · have hcount : (insertedIds tr).count id = 1 :=
      Nat.le_antisymm hid (List.one_le_count_iff.mpr hnone)
    obtain ⟨handle,hrun⟩ := (table_pages h).pages id hcount
    obtain ⟨entry,offset,schedule',-,-,hlatch⟩ := hrun.latch
    obtain ⟨ph,hi⟩ := latch_run hlatch
    have honce := hi.loadOnce b
    refine ⟨honce.oneLoad,?_⟩
    intro t u e e' v v' he he' hv hv'
    have h₁ := honce.agreement t e v (mem_pageTrace.mpr he) hv
    have h₂ := honce.agreement u e' v' (mem_pageTrace.mpr he') hv'
    exact Option.some.inj (h₁.symm.trans h₂)
  · have htrace := (table_pages h).untouched id hnone
    refine ⟨by simp [htrace],?_⟩
    intro t u e e' v v' he
    have hmem := mem_pageTrace.mpr he
    rw [htrace] at hmem
    cases hmem

theorem pages_load_once_shared :
    ∃ tr s, (TableSystem.new : TableSystem Bool).run .release sharedPage = some (tr,s) ∧
      (insertedIds tr).count ⟨7⟩ ≤ 1 ∧
      ((pageTrace ⟨7⟩ tr).filterMap (fun x => x.2.workOk)).length ≤ 1 :=
  ⟨_,_,rfl,by decide,(pages_load_once .release sharedPage _ _ rfl ⟨7⟩ (by decide)).1⟩

/-- Entered again, the page has a second latch and is loaded a second time. -/
example : ∃ tr s, (TableSystem.new : TableSystem Unit).run .release
      ((.insert ⟨7⟩ :: loadFrame ⟨7⟩ 1 ++ .insert ⟨7⟩ :: loadFrame ⟨7⟩ 2).map ((),·)) =
        some (tr,s) ∧
    (pageTrace ⟨7⟩ tr).filterMap (fun x => x.2.workOk) = [.memory 1,.memory 2] := ⟨_,_,rfl,rfl⟩

end InkDB
