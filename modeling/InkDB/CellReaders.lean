import InkDB.DirectoryList

/-!
The two readers of a cell. `cell_slice_from_id` lets a cell end with the page,
`cell_slice_from_entry` only asserts the strict bound, and neither looks at how
far the directory reaches.
-/

set_option autoImplicit false

namespace InkDB
open SlottedPageRef

theorem cellSliceFromEntry_at_end (p : RawPage) {e : SlotEntry}
    (he : ¬ e.offset.toNat+e.length.toNat < 4096) :
    cellSliceFromEntry .debug p e = .error (.panic .assertion) := by
  simp only [cellSliceFromEntry,debugAssert]
  rw [assert_of_not he]
  rfl

/-- For every slot and in either build the cell read by its number and the cell
read by its entry are the same bytes. -/
def ReadersAgree (fromId : RawPage → SlotID → Exec (Except PageError (Slice 4096)))
    (fromEntry : Build → RawPage → SlotEntry → Exec (Slice 4096)) (p : RawPage) : Prop :=
  ∃ es, Yields p es ∧ ∀ b i (hi : i < es.length), ∃ s s',
    fromId p ⟨UInt16.ofNat i⟩ = .ok (.ok s) ∧ fromEntry b p es[i] = .ok s' ∧ s'.bytes = s.bytes

theorem Yields.eq {p : RawPage} {es es' : List SlotEntry} (h : Yields p es) (h' : Yields p es') :
    es = es' := by
  obtain ⟨dir,hdir,-,hes⟩ := h
  obtain ⟨dir',hdir',-,hes'⟩ := h'
  rw [hdir] at hdir'
  cases hdir'
  rw [hes] at hes'
  exact Except.ok.inj hes'

section Layouts
variable {top : Nat} {l : Layout top} {p : RawPage} (hr : Represents l p)
include hr

theorem Represents.yields : Yields p (l.slots.map slotEntry) := by
  have hy := hr.headerOk.yields
  rwa [hr.dirCount_eq,hr.directory] at hy

/-- The readers disagree about one place only, the end of the page. -/
theorem Represents.readersAgree_iff :
    ReadersAgree cellSliceFromId cellSliceFromEntry p ↔ top < 4096 ∨ l.slots = [] := by
  constructor
  · rintro ⟨es,hy,hread⟩
    by_cases hs : l.slots = []
    · exact .inr hs
    · left
      obtain ⟨x,hx,hend⟩ := l.slot_at_top hs
      obtain ⟨i,hi,rfl⟩ := List.getElem_of_mem hx
      obtain rfl := hy.eq hr.yields
      obtain ⟨s,s',-,he,-⟩ := hread .debug i (by simpa using hi)
      by_contra htop
      rw [List.getElem_map,cellSliceFromEntry_at_end p] at he
      · cases he
      · rw [hr.slotEntry_offset hx,hr.slotEntry_length hx]
        omega
  · intro h
    refine ⟨_,hr.yields,fun b i hi => ?_⟩
    rw [List.length_map] at hi
    have hx := List.getElem_mem hi
    have hbound := l.slot_bounds hx
    have hlt : l.slots[i].1+l.slots[i].2.length < 4096 := by
      rcases h with h | h
      · omega
      · have hlen := hi
        rw [h] at hlen
        cases hlen
    obtain ⟨hb,hid⟩ := hr.cellSliceFromId_slot hi
    refine ⟨_,_,hid,?_,rfl⟩
    rw [List.getElem_map]
    exact hr.cellSliceFromEntry_slot b hx hlt

end Layouts

/-- The operation would store its cell on an empty page. -/
def CellOp.FitsEmpty (top : Nat) : CellOp → Prop
  | .append cell => 24+4+cell.length ≤ top
  | .insertAt index cell => index = 0 ∧ 24+4+cell.length ≤ top

instance (top : Nat) (op : CellOp) : Decidable (op.FitsEmpty top) :=
  match op with
  | .append _ => Nat.decLe _ _
  | .insertAt _ _ => instDecidableAnd

theorem Layout.addAt_slots_eq_nil {top : Nat} (index : Nat) (cell : List UInt8) (l : Layout top) :
    (l.addAt index cell).2.slots = [] ↔
      l.slots = [] ∧ ¬ (index = 0 ∧ 24+4+cell.length ≤ top) := by
  have hpos : ∀ hi hroom, (l.push index cell hi hroom).slots ≠ [] := by
    intro hi hroom hnil
    have hlen := congrArg List.length hnil
    rw [Layout.push_slots_length] at hlen
    cases hlen
  have hempty : l.slots = [] → l.freeStart = 24 ∧ l.freeEnd = top := by
    intro hs
    rw [Layout.freeStart,Layout.freeEnd,l.stack_eq_nil.mpr hs,hs]
    exact ⟨rfl,rfl⟩
  simp only [Layout.addAt]
  split
  · rename_i hfull
    refine ⟨fun hs => ⟨hs,?_⟩,fun hs => hs.1⟩
    obtain ⟨h₁,h₂⟩ := hempty hs
    omega
  · rename_i hroom
    split
    · rename_i hi
      refine ⟨fun hs => ⟨hs,?_⟩,fun hs => hs.1⟩
      rw [hs,List.length_nil] at hi
      omega
    · rename_i hi
      refine iff_of_false (hpos (Nat.not_lt.mp hi) (Nat.not_lt.mp hroom)) ?_
      rintro ⟨hs,hno⟩
      obtain ⟨h₁,h₂⟩ := hempty hs
      rw [hs,List.length_nil] at hi
      omega

theorem CellOp.step_slots_eq_nil {top : Nat} (op : CellOp) (l : Layout top) :
    (op.step l).2.slots = [] ↔ l.slots = [] ∧ ¬ op.FitsEmpty top := by
  cases op with
  | insertAt index cell => exact l.addAt_slots_eq_nil index cell
  | append cell =>
    refine (l.addAt_slots_eq_nil l.slots.length cell).trans (and_congr_right fun hs => ?_)
    simp [hs,FitsEmpty]

theorem trace_slots_eq_nil {top : Nat} (ops : List CellOp) (l : Layout top) :
    (Prog.trace CellOp.step ops l).2.slots = [] ↔
      l.slots = [] ∧ ∀ op ∈ ops, ¬ op.FitsEmpty top := by
  induction ops generalizing l with
  | nil => simp [Prog.trace]
  | cons op ops ih =>
    simp only [Prog.trace,List.forall_mem_cons]
    rw [ih,op.step_slots_eq_nil,and_assoc]

/-- On a page started by `init_new` the first stored cell ends with the page,
and reading it by its entry fails the debug assertion. -/
theorem cell_readers_agree_iff (b : Build) (buf : RawPage) (start : PageStart)
    (ops : List CellOp) :
    ∃ p₀ rs p, start.page b buf = .ok p₀ ∧
      Prog.runAll (ops.map CellOp.exec) b p₀ = .ok (rs,p) ∧
      (ReadersAgree SlottedPageMut.cellSliceFromId SlottedPageMut.cellSliceFromEntry p ∧
          ReadersAgree SlottedPageRef.cellSliceFromId SlottedPageRef.cellSliceFromEntry p ↔
        (∃ lsn, start = .initInPlace lsn) ∨ ∀ op ∈ ops, ¬ op.FitsEmpty 4096) := by
  obtain ⟨p₀,hstart,hr₀⟩ := start.represents b buf
  obtain ⟨p,hrun,hr⟩ := cellOps_simulate b hr₀ ops
  refine ⟨p₀,_,p,hstart,hrun,?_⟩
  rw [and_self_iff,hr.readersAgree_iff,trace_slots_eq_nil]
  cases start with
  | initNew pageType => simp [PageStart.top,Layout.empty]
  | initInPlace lsn => simp [PageStart.top]

theorem cell_readers_disagree :
    ¬ ∀ (b : Build) (buf : RawPage) (start : PageStart) (ops : List CellOp)
      (p₀ : RawPage) (rs : List (Except PageError Unit)) (p : RawPage),
      ((∃ pageType, start = .initNew pageType) → buf = Buf.fill 4096 0) →
      start.page b buf = .ok p₀ → Prog.runAll (ops.map CellOp.exec) b p₀ = .ok (rs,p) →
        ReadersAgree cellSliceFromId cellSliceFromEntry p := by
  intro hall
  obtain ⟨p,hrun,hr⟩ := cellOps_simulate .debug (represents_initNew (Buf.fill 4096 0) 0)
    [.append [7]]
  have hagree := hall .debug (Buf.fill 4096 0) (.initNew 0) [.append [7]] _ _ p (fun _ => rfl) rfl
    hrun
  rw [hr.readersAgree_iff,trace_slots_eq_nil] at hagree
  revert hagree
  decide

/-! Corrupt pages -/

def StaysInside (p : RawPage) (x : Exec (Except PageError (Slice 4096))) : Prop :=
  ∃ r, x = .ok r ∧ ∀ s, r = .ok s → s.mem = p

theorem staysInside_error (p : RawPage) (err : PageError) : StaysInside p (.ok (.error err)) := by
  refine ⟨_,rfl,fun s hs => ?_⟩
  cases hs

theorem staysInside_iff {p : RawPage} (hl : 24 ≤ freeStart p) (id : SlotID) :
    StaysInside p (cellSliceFromId p id) ↔ id.val.toNat < 1018 ∨ dirCount p ≤ id.val.toNat := by
  by_cases hi : id.val.toNat < dirCount p
  · by_cases hb : id.val.toNat < 1018
    · refine iff_of_true ?_ (.inl hb)
      rw [cellSliceFromId_entry hl hi hb]
      split
      · exact ⟨_,rfl,fun s hs => by cases hs; rfl⟩
      · exact staysInside_error p _
    · refine iff_of_false ?_ (by omega)
      rintro ⟨r,hr,-⟩
      rw [cellSliceFromId_behind hl hi (Nat.not_lt.mp hb)] at hr
      cases hr
  · refine iff_of_true ?_ (.inr (Nat.not_lt.mp hi))
    by_cases hn : dirCount p = 0
    · rw [cellSliceFromId_empty hl hn id]
      exact staysInside_error p _
    · rw [cellSliceFromId_out hl hn (Nat.not_lt.mp hi)]
      exact staysInside_error p _

/-- The slot count comes from the `free_start` field, which may reach far behind
the page; nothing bounds the entry itself. -/
theorem corrupt_page_read_iff (p : RawPage) (hl : 24 ≤ freeStart p) (id : SlotID) :
    StaysInside p (SlottedPageMut.cellSliceFromId p id) ∧
        StaysInside p (SlottedPageRef.cellSliceFromId p id) ↔
      id.val.toNat < 1018 ∨ (freeStart p-24)/4 ≤ id.val.toNat := by
  rw [and_self_iff]
  exact staysInside_iff hl id

def overgrownPage : RawPage := withFreeStart 65535 (Buf.fill 4096 0)

theorem freeStart_overgrownPage : freeStart overgrownPage = 65535 :=
  freeStart_withFreeStart _ (by decide)

theorem corrupt_page_read_behind :
    ¬ ∀ (p : RawPage), 24 ≤ freeStart p → ∀ id : SlotID, StaysInside p (cellSliceFromId p id) := by
  intro hall
  have hl : 24 ≤ freeStart overgrownPage := by rw [freeStart_overgrownPage]; decide
  have hin := (staysInside_iff hl ⟨1018⟩).mp (hall overgrownPage hl ⟨1018⟩)
  rw [dirCount,freeStart_overgrownPage] at hin
  revert hin
  decide

theorem corrupt_page_read_first_slot :
    24 ≤ freeStart overgrownPage ∧
      StaysInside overgrownPage (SlottedPageMut.cellSliceFromId overgrownPage ⟨0⟩) ∧
        StaysInside overgrownPage (SlottedPageRef.cellSliceFromId overgrownPage ⟨0⟩) := by
  have hl : 24 ≤ freeStart overgrownPage := by rw [freeStart_overgrownPage]; decide
  exact ⟨hl,(corrupt_page_read_iff overgrownPage hl ⟨0⟩).mpr (.inl (by decide))⟩

end InkDB
