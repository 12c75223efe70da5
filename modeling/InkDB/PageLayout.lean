import InkDB.SlotDirectory
import InkDB.IndexPage
import InkDB.Stacking

/-!
The layout of a slotted page as an abstract value: cells in slot order with
their offsets, and the same cells in address order. A layout cannot overlap,
leave a gap or outgrow the page; the byte-level operations refine insertion
into it.
-/

set_option autoImplicit false

namespace InkDB
open SlottedPageRef

/-- Cells below `top`, above the directory. -/
structure Layout (top : Nat) where
  slots : List (Nat × List UInt8)
  stack : List (List UInt8)
  room : 24+4*slots.length+totalSize List.length stack ≤ top
  placed : slots.Perm (stacked List.length (top-totalSize List.length stack) stack)

namespace Layout
variable {top : Nat}

def freeStart (l : Layout top) : Nat := 24+4*l.slots.length

def freeEnd (l : Layout top) : Nat := top-totalSize List.length l.stack

def cells (l : Layout top) : List (List UInt8) := l.slots.map Prod.snd

def empty (h : 24 ≤ top) : Layout top := ⟨[],[],by simpa using h,.nil⟩

theorem freeStart_le (l : Layout top) : l.freeStart ≤ l.freeEnd := by
  have h := l.room
  unfold freeStart freeEnd
  omega

theorem freeEnd_le (l : Layout top) : l.freeEnd ≤ top := Nat.sub_le _ _

theorem freeEnd_add (l : Layout top) : l.freeEnd+totalSize List.length l.stack = top := by
  have h := l.room
  unfold freeEnd
  omega

theorem slot_bounds (l : Layout top) {x : Nat × List UInt8} (hx : x ∈ l.slots) :
    l.freeEnd ≤ x.1 ∧ x.1+x.2.length ≤ top := by
  have h := perm_stacked_bounds l.placed hx
  have ha := l.freeEnd_add
  unfold freeEnd at ha ⊢
  omega

theorem stack_eq_nil (l : Layout top) : l.stack = [] ↔ l.slots = [] := by
  have hp := (perm_stacked_items l.placed).length_eq
  rw [List.length_map] at hp
  rw [← List.length_eq_zero_iff,← List.length_eq_zero_iff,hp]

/-- The first cell ever stored ends where the cell area ends. -/
theorem slot_at_top (l : Layout top) (h : l.slots ≠ []) :
    ∃ x ∈ l.slots, x.1+x.2.length = top := by
  obtain ⟨x,hx,hend⟩ := perm_stacked_ends l.placed (fun hs => h (l.stack_eq_nil.mp hs))
  have ha := l.freeEnd_add
  unfold freeEnd at ha
  exact ⟨x,hx,by omega⟩

def push (l : Layout top) (i : Nat) (cell : List UInt8) (hi : i ≤ l.slots.length)
    (hroom : cell.length+4 ≤ l.freeEnd-l.freeStart) : Layout top where
  slots := l.slots.insertIdx i (l.freeEnd-cell.length,cell)
  stack := cell :: l.stack
  room := by
    have h := l.freeStart_le
    have ha := l.freeEnd_add
    rw [List.length_insertIdx_of_le_length hi,totalSize_cons]
    unfold freeStart at h hroom
    omega
  placed := by
    have ha := l.freeEnd_add
    have hb : top-totalSize List.length (cell :: l.stack) = l.freeEnd-cell.length := by
      rw [totalSize_cons]
      omega
    have hc : l.freeEnd-cell.length+cell.length = top-totalSize List.length l.stack := by
      unfold freeEnd at hroom ⊢
      omega
    rw [hb]
    apply perm_stacked_insert List.length _ hi
    rw [hc]
    exact l.placed

section Push
variable {l : Layout top} {i : Nat} {cell : List UInt8} {hi : i ≤ l.slots.length}
  {hroom : cell.length+4 ≤ l.freeEnd-l.freeStart}

theorem push_slots_length : (l.push i cell hi hroom).slots.length = l.slots.length+1 :=
  List.length_insertIdx_of_le_length hi _

theorem push_freeStart : (l.push i cell hi hroom).freeStart = l.freeStart+4 := by
  rw [freeStart,push_slots_length,freeStart]
  omega

theorem push_freeEnd : (l.push i cell hi hroom).freeEnd = l.freeEnd-cell.length := by
  have ha := l.freeEnd_add
  show top-totalSize List.length (cell :: l.stack) = _
  rw [totalSize_cons]
  omega

theorem push_cells : (l.push i cell hi hroom).cells = l.cells.insertIdx i cell := by
  simp only [cells,push,List.map_insertIdx]

end Push

/-- Insertion at a slot, with the checks in the order the code makes them. -/
def addAt (index : Nat) (cell : List UInt8) (l : Layout top) :
    Except PageError Unit × Layout top :=
  if hfull : cell.length+4 > l.freeEnd-l.freeStart then (.error .noContigiousSpace,l)
  else if hi : index > l.slots.length then (.error .slotIndexNotInRange,l)
  else (.ok (),l.push index cell (Nat.not_lt.mp hi) (Nat.not_lt.mp hfull))

def append (cell : List UInt8) (l : Layout top) : Except PageError Unit × Layout top :=
  l.addAt l.slots.length cell

end Layout

def slotEntry (x : Nat × List UInt8) : SlotEntry :=
  ⟨UInt16.ofNat x.1,UInt16.ofNat x.2.length⟩

/-- The page spells out the layout. -/
structure Represents {top : Nat} (l : Layout top) (p : RawPage) : Prop where
  topLe : top ≤ 4096
  start : freeStart p = l.freeStart
  stop : freeEnd p = l.freeEnd
  directory : entriesOf p l.slots.length = l.slots.map slotEntry
  cells : p.read l.freeEnd (totalSize List.length l.stack) = l.stack.flatten

namespace Represents
variable {top : Nat} {l : Layout top} {p : RawPage} (hr : Represents l p)
include hr

theorem dirCount_eq : dirCount p = l.slots.length := by
  rw [dirCount,hr.start,Layout.freeStart]
  omega

theorem headerOk : HeaderOk p where
  low := by rw [hr.start,Layout.freeStart]; omega
  mid := by rw [hr.start,hr.stop]; exact l.freeStart_le
  high := by rw [hr.stop]; exact Nat.le_trans l.freeEnd_le hr.topLe
  aligned := by rw [hr.start,Layout.freeStart]; omega

theorem slotEntry_offset {x : Nat × List UInt8} (hx : x ∈ l.slots) :
    (slotEntry x).offset.toNat = x.1 := by
  have h := l.slot_bounds hx
  have ht := hr.topLe
  simp [slotEntry]
  omega

theorem slotEntry_length {x : Nat × List UInt8} (hx : x ∈ l.slots) :
    (slotEntry x).length.toNat = x.2.length := by
  have h := l.slot_bounds hx
  have ht := hr.topLe
  simp [slotEntry]
  omega

theorem entryAt_eq {i : Nat} (hi : i < l.slots.length) : entryAt p i = slotEntry l.slots[i] := by
  have h := entriesOf_getElem p l.slots.length i (by simpa using hi)
  simp only [hr.directory,List.getElem_map] at h
  exact h.symm

theorem read_slot {x : Nat × List UInt8} (hx : x ∈ l.slots) : p.read x.1 x.2.length = x.2 :=
  read_of_stacked p hr.cells (l.placed.mem_iff.mp hx)

theorem cellSliceFromId_slot {i : Nat} (hi : i < l.slots.length) :
    ∃ hb : l.slots[i].1+l.slots[i].2.length ≤ 4096,
      cellSliceFromId p ⟨UInt16.ofNat i⟩ =
        .ok (.ok ⟨p,l.slots[i].1,l.slots[i].2.length,hb⟩) := by
  have hx : l.slots[i] ∈ l.slots := List.getElem_mem hi
  have hbound := l.slot_bounds hx
  have htop := hr.topLe
  have ho := hr.slotEntry_offset hx
  have hl := hr.slotEntry_length hx
  have he := hr.entryAt_eq hi
  refine ⟨by omega,?_⟩
  rw [cellSliceFromId_ok hr.headerOk (by rw [hr.dirCount_eq]; exact hi) (by rw [he]; omega)]
  simp only [he,ho,hl]

theorem cellSliceFromEntry_slot (b : Build) {x : Nat × List UInt8} (hx : x ∈ l.slots)
    (hlt : x.1+x.2.length < 4096) :
    cellSliceFromEntry b p (slotEntry x) =
      .ok ⟨p,x.1,x.2.length,Nat.le_of_lt hlt⟩ := by
  have ho := hr.slotEntry_offset hx
  have hl := hr.slotEntry_length hx
  rw [cellSliceFromEntry_ok b p (by rw [ho,hl]; exact hlt)]
  simp only [ho,hl]

end Represents

/-- A layout depends on `free_start`, `free_end` and the area from the header to
its top only. -/
theorem Represents.congr {top : Nat} {l : Layout top} {p p' : RawPage} (hr : Represents l p)
    (h : ∀ i, 12 ≤ i ∧ i < 16 ∨ 24 ≤ i ∧ i < top → p'.get i = p.get i) : Represents l p' := by
  have hroom := l.room
  have hadd := l.freeEnd_add
  have hlow := l.freeStart_le
  unfold Layout.freeStart at hlow
  refine ⟨hr.topLe,?_,?_,?_,?_⟩
  · rw [← hr.start]
    exact freeStart_congr (fun i h₁ h₂ => h i (.inl (by omega)))
  · rw [← hr.stop]
    exact freeEnd_congr (fun i h₁ h₂ => h i (.inl (by omega)))
  · rw [← hr.directory]
    exact entriesOf_congr (fun i h₁ h₂ => h i (.inr (by omega)))
  · rw [← hr.cells]
    exact Buf.read_congr (fun i h₁ h₂ => h i (.inr (by omega)))

theorem entriesOf_cellAdded {p : RawPage} (h : HeaderOk p) {idx : Nat} {cell : List UInt8}
    (hidx : idx ≤ dirCount p) (hroom : cell.length+4 ≤ freeEnd p-freeStart p) :
    entriesOf (cellAdded p idx cell) (dirCount p+1) =
      (entriesOf p (dirCount p)).insertIdx idx
        ⟨UInt16.ofNat (freeEnd p-cell.length),UInt16.ofNat cell.length⟩ := by
  have hn := h.freeStart_eq
  have hm := h.mid
  rw [← entriesOf_entryInserted h (by omega) hidx]
  apply entriesOf_congr
  intro i h₁ h₂
  rw [cellAdded,withFreeEnd,Buf.get_write_outside _ _ (.inr (by rw [u16ToLeBytes_length]; omega)),
    Buf.get_write_outside _ _ (.inl (by omega))]

theorem freeStart_cellAdded {p : RawPage} (h : HeaderOk p) {idx : Nat} {cell : List UInt8}
    (hroom : cell.length+4 ≤ freeEnd p-freeStart p) :
    freeStart (cellAdded p idx cell) = freeStart p+4 := by
  have hl := h.low
  have hm := h.mid
  rw [cellAdded,freeStart_withFreeEnd,freeStart_write _ _ (by omega),
    freeStart_entryInserted h (by omega)]

theorem freeEnd_cellAdded {p : RawPage} (h : HeaderOk p) (idx : Nat) (cell : List UInt8) :
    freeEnd (cellAdded p idx cell) = freeEnd p-cell.length := by
  have hh := h.high
  rw [cellAdded,freeEnd_withFreeEnd _ (by omega)]

/-- Outside `free_start`, `free_end` and the area between header and `free_end`,
a cell insertion writes nothing. -/
theorem get_cellAdded {p : RawPage} (h : HeaderOk p) {idx : Nat} {cell : List UInt8}
    (hidx : idx ≤ dirCount p) (hroom : cell.length+4 ≤ freeEnd p-freeStart p) {i : Nat}
    (hi : i < 12 ∨ 16 ≤ i ∧ i < 24 ∨ freeEnd p ≤ i) : (cellAdded p idx cell).get i = p.get i := by
  have hn := h.freeStart_eq
  have hm := h.mid
  rw [cellAdded,withFreeEnd,Buf.get_write_outside _ _ (by rw [u16ToLeBytes_length]; omega),
    Buf.get_write_outside _ _ (by omega),entryInserted,withFreeStart,
    Buf.get_write_outside _ _ (by rw [u16ToLeBytes_length]; omega),
    Buf.get_write_outside _ _ (by simp; omega)]

theorem Represents.cellAdded {top : Nat} {l : Layout top} {p : RawPage} (hr : Represents l p)
    {i : Nat} {cell : List UInt8} (hi : i ≤ l.slots.length)
    (hroom : cell.length+4 ≤ l.freeEnd-l.freeStart) :
    Represents (l.push i cell hi hroom) (InkDB.cellAdded p i cell) := by
  have h := hr.headerOk
  have hn := h.freeStart_eq
  have hl := h.low
  have hm := h.mid
  have hh := h.high
  have hd := hr.dirCount_eq
  have hroom' : cell.length+4 ≤ SlottedPageRef.freeEnd p-SlottedPageRef.freeStart p := by
    rw [hr.start,hr.stop]; exact hroom
  have hi' : i ≤ dirCount p := by rw [hd]; exact hi
  have hstop := hr.stop
  have hadd := l.freeEnd_add
  refine ⟨hr.topLe,?_,?_,?_,?_⟩
  · rw [freeStart_cellAdded h hroom',hr.start,Layout.push_freeStart]
  · rw [freeEnd_cellAdded h,hr.stop,Layout.push_freeEnd]
  · rw [Layout.push_slots_length,← hd,entriesOf_cellAdded h hi' hroom',hd,hr.directory,
      Layout.push,List.map_insertIdx,hr.stop]
    rfl
  · -- the new cell lies directly below the old ones, which are not written
    show (InkDB.cellAdded p i cell).read _ (totalSize List.length (cell :: l.stack)) =
      (cell :: l.stack).flatten
    rw [Layout.push_freeEnd,totalSize_cons,Buf.read_add,List.flatten_cons]
    congr 1
    · rw [InkDB.cellAdded,withFreeEnd,Buf.read_write_disjoint _ _
        (.inr (by rw [u16ToLeBytes_length]; omega)),hstop]
      exact Buf.read_write_same _ _ rfl (by omega)
    · rw [← hr.cells,Nat.sub_add_cancel (by omega)]
      apply Buf.read_congr
      intro j h₁ h₂
      exact get_cellAdded h hi' hroom' (.inr (.inr (by omega)))

/-- A call that adds a cell. -/
inductive CellOp where
  | append (cell : List UInt8)
  | insertAt (index : Nat) (cell : List UInt8)
  deriving DecidableEq, Repr

def CellOp.exec : CellOp → Prog RawPage PageError Unit
  | .append cell => SlottedPageMut.addCellAppendSlotEntry cell
  | .insertAt index cell => SlottedPageMut.addCellAtSlotEntryIndex index cell

def CellOp.step {top : Nat} : CellOp → Layout top → Except PageError Unit × Layout top
  | .append cell, l => l.append cell
  | .insertAt index cell, l => l.addAt index cell

/-- Nothing but `free_start`, `free_end` and the area from the header to `top`
has changed. -/
def Preserves (top : Nat) (p p' : RawPage) : Prop :=
  ∀ i, i < 12 ∨ 16 ≤ i ∧ i < 24 ∨ top ≤ i → p'.get i = p.get i

section CellOps
variable {top : Nat} {l : Layout top} {p : RawPage}

theorem addAt_simulates (b : Build) (hr : Represents l p) (index : Nat) (cell : List UInt8) :
    ∃ p', (SlottedPageMut.addCellAtSlotEntryIndex index cell).run b p =
        .ok ((l.addAt index cell).1,p') ∧
      Represents (l.addAt index cell).2 p' ∧ Preserves top p p' := by
  have h := hr.headerOk
  have hstop := hr.stop
  rw [addCellAtSlotEntryIndex_eq b h,hr.start,hr.stop,hr.dirCount_eq]
  by_cases hfull : cell.length+4 > l.freeEnd-l.freeStart
  · simp only [Layout.addAt,hfull,if_true,dif_pos]
    exact ⟨p,rfl,hr,fun _ _ => rfl⟩
  · by_cases hi : index > l.slots.length
    · simp only [Layout.addAt,hfull,hi,if_true,if_false,dif_pos,dif_neg,not_false_eq_true]
      exact ⟨p,rfl,hr,fun _ _ => rfl⟩
    · have hroom := Nat.not_lt.mp hfull
      have hle := Nat.not_lt.mp hi
      simp only [Layout.addAt,hfull,hi,if_false,dif_neg,not_false_eq_true]
      refine ⟨cellAdded p index cell,rfl,hr.cellAdded hle hroom,?_⟩
      intro i hout
      have htop := l.freeEnd_le
      apply get_cellAdded h (by rw [hr.dirCount_eq]; exact hle)
        (by rw [hr.start,hr.stop]; exact hroom)
      omega

theorem append_simulates (b : Build) (hr : Represents l p) (cell : List UInt8) :
    ∃ p', (SlottedPageMut.addCellAppendSlotEntry cell).run b p = .ok ((l.append cell).1,p') ∧
      Represents (l.append cell).2 p' ∧ Preserves top p p' := by
  have h := addAt_simulates b hr l.slots.length cell
  rw [addCellAtSlotEntryIndex_eq b hr.headerOk,hr.dirCount_eq,if_neg (Nat.lt_irrefl _),
    ← hr.dirCount_eq,← addCellAppendSlotEntry_eq b hr.headerOk,hr.dirCount_eq] at h
  exact h

theorem CellOp.simulates (b : Build) (hr : Represents l p) (op : CellOp) :
    ∃ p', op.exec.run b p = .ok ((op.step l).1,p') ∧
      Represents (op.step l).2 p' ∧ Preserves top p p' := by
  cases op with
  | append cell => exact append_simulates b hr cell
  | insertAt index cell => exact addAt_simulates b hr index cell

end CellOps

theorem represents_empty {top : Nat} {p : RawPage} (h₁ : 24 ≤ top) (h₂ : top ≤ 4096)
    (hs : freeStart p = 24) (he : freeEnd p = top) : Represents (Layout.empty h₁) p :=
  ⟨h₂,hs,he,rfl,rfl⟩

theorem represents_initNew (buf : RawPage) (pageType : UInt8) :
    Represents (Layout.empty (by omega) : Layout 4096) (SlottedPageMut.initNew buf pageType) := by
  apply represents_empty
  · exact Nat.le_refl _
  · show ((((buf.write 10 _).write 12 (u16ToLeBytes (UInt16.ofNat 24))).write 14 _).write 10
      _).le 12 2 = 24
    rw [Buf.le_write_disjoint _ _ (.inr (by simp)),Buf.le_write_disjoint _ _ (.inl (by omega)),
      le_writeU16 _ (by omega) (by omega)]
  · show ((((buf.write 10 _).write 12 _).write 14 (u16ToLeBytes (UInt16.ofNat 4096))).write 10
      _).le 14 2 = 4096
    rw [Buf.le_write_disjoint _ _ (.inr (by simp)),le_writeU16 _ (by omega) (by omega)]

theorem setFreeStart_eq {ε : Type} (b : Build) (p : RawPage) {o : Nat} (h₁ : 24 ≤ o)
    (h₂ : o ≤ 4096) :
    (SlottedPageMut.setFreeStart o : Prog RawPage ε Unit).run b p =
      .ok (.ok (),withFreeStart o p) := by
  rw [SlottedPageMut.setFreeStart,Prog.call_bind (debugAssert_of b h₁),
    Prog.call_bind (debugAssert_of b h₂)]
  rfl

theorem setSpecialOffset_eq {ε : Type} (b : Build) (p : RawPage) :
    (SlottedPageMut.setSpecialOffset indexSpecialSize : Prog RawPage ε Unit).run b p =
      .ok (.ok (),p.write 16 (u16ToLeBytes 4080)) := rfl

/-- The page `init_in_place` leaves, whatever the buffer held. -/
def initialPage (lsn : UInt64) : RawPage :=
  SlottedPageMut.setLsn lsn (withFreeEnd 4080 (withFreeStart 24
    (((Buf.fill 4096 0).write 10 [2]).write 16 (u16ToLeBytes 4080))))

theorem initInPlace_eq (b : Build) (buf : RawPage) (lsn : UInt64) :
    (IndexPageMut.initInPlace lsn).run b buf = .ok (.ok (),initialPage lsn) := by
  simp only [IndexPageMut.initInPlace,Prog.modify_bind]
  rw [Prog.bind_ok (setSpecialOffset_eq b _),
    Prog.bind_ok (setFreeStart_eq b _ (show 24 ≤ headerSize by decide) (by decide)),
    Prog.bind_ok (Prog.run_mapErr _ (setFreeEnd_eq b _ _ (by decide)
      (by rw [freeStart_withFreeStart _ (by decide)]; decide)))]
  rfl

theorem represents_initialPage (lsn : UInt64) :
    Represents (Layout.empty (by omega) : Layout 4080) (initialPage lsn) := by
  apply represents_empty
  · omega
  · show (Buf.write _ 0 _).le 12 2 = 24
    rw [Buf.le_write_disjoint _ _ (.inr (by simp))]
    exact (freeStart_withFreeEnd _ _).trans (freeStart_withFreeStart _ (by omega))
  · show (Buf.write _ 0 _).le 14 2 = 4080
    rw [Buf.le_write_disjoint _ _ (.inr (by simp))]
    exact freeEnd_withFreeEnd _ (by omega)

/-- How a page is started, and where its cell area ends. -/
inductive PageStart where
  | initNew (pageType : UInt8)
  | initInPlace (lsn : UInt64)
  deriving DecidableEq, Repr

def PageStart.top : PageStart → Nat
  | .initNew _ => 4096
  | .initInPlace _ => 4080

def PageStart.page (b : Build) (buf : RawPage) : PageStart → Exec RawPage
  | .initNew pageType => pure (SlottedPageMut.initNew buf pageType)
  | .initInPlace lsn => do
      let (_,p) ← (IndexPageMut.initInPlace lsn).run b buf
      pure p

theorem PageStart.top_le (start : PageStart) : 24 ≤ start.top ∧ start.top ≤ 4096 := by
  cases start <;> simp [top]

theorem PageStart.represents (b : Build) (buf : RawPage) (start : PageStart) :
    ∃ p, start.page b buf = .ok p ∧ Represents (Layout.empty start.top_le.1) p := by
  cases start with
  | initNew pageType => exact ⟨_,rfl,represents_initNew buf pageType⟩
  | initInPlace lsn =>
    refine ⟨_,?_,represents_initialPage lsn⟩
    rw [page,initInPlace_eq b buf lsn]
    rfl

/-- Every run of cell insertions reaches a page that represents the layout the
same insertions build. -/
theorem cellOps_simulate {top : Nat} {l : Layout top} {p : RawPage} (b : Build)
    (hr : Represents l p) (ops : List CellOp) :
    ∃ p', Prog.runAll (ops.map CellOp.exec) b p =
        .ok ((Prog.trace CellOp.step ops l).1,p') ∧
      Represents (Prog.trace CellOp.step ops l).2 p' := by
  apply Prog.runAll_simulates (fun p l => Represents l p)
  · intro op _ p l hr
    obtain ⟨p',hrun,hr',_⟩ := op.simulates b hr
    exact ⟨p',hrun,hr'⟩
  · exact hr

def SlotEntry.Covers (e : SlotEntry) (z : Nat) : Prop :=
  e.offset.toNat ≤ z ∧ z < e.offset.toNat+e.length.toNat

/-- The representation invariant of a slotted page with entries `es` whose cell
area ends at `top`. -/
structure SlottedInvariant (top : Nat) (p : RawPage) (es : List SlotEntry) : Prop where
  aboveHeader : 24 ≤ freeStart p
  ordered : freeStart p ≤ freeEnd p
  belowTop : freeEnd p ≤ top
  counted : freeStart p = 24+4*es.length
  inside : ∀ e ∈ es, freeEnd p ≤ e.offset.toNat ∧ e.offset.toNat+e.length.toNat ≤ top
  disjoint : es.Pairwise (fun e e' => ∀ z, ¬ (e.Covers z ∧ e'.Covers z))
  tiled : ∀ z, freeEnd p ≤ z → z < top → ∃ e ∈ es, e.Covers z
  accounted : 24+(es.map (fun e => e.length.toNat+4)).sum ≤ top
  space : ∀ b, freeContiguousSpace b p =
    .ok (top-24-(es.map (fun e => e.length.toNat+4)).sum)

section Invariant
variable {top : Nat} {l : Layout top} {p : RawPage} (hr : Represents l p)
include hr

theorem Represents.covers_iff {x : Nat × List UInt8} (hx : x ∈ l.slots) (z : Nat) :
    (slotEntry x).Covers z ↔ x.1 ≤ z ∧ z < x.1+x.2.length := by
  rw [SlotEntry.Covers,hr.slotEntry_offset hx,hr.slotEntry_length hx]

theorem Represents.used :
    ((l.slots.map slotEntry).map (fun e => e.length.toNat+4)).sum =
      totalSize List.length l.stack+4*l.slots.length := by
  have hlen : (l.slots.map slotEntry).map (fun e => e.length.toNat+4) =
      (l.slots.map Prod.snd).map (fun c => c.length+4) := by
    simp only [List.map_map]
    apply List.map_congr_left
    intro x hx
    simp only [Function.comp_apply,hr.slotEntry_length hx]
  have hsum : ∀ cs : List (List UInt8),
      (cs.map (fun c => c.length+4)).sum = totalSize List.length cs+4*cs.length := by
    intro cs
    induction cs with
    | nil => rfl
    | cons c cs ih =>
      simp only [List.map_cons,List.sum_cons,totalSize_cons,List.length_cons,ih]
      omega
  rw [hlen,hsum,perm_stacked_total l.placed,List.length_map]

theorem Represents.invariant : SlottedInvariant top p (l.slots.map slotEntry) := by
  have hadd := l.freeEnd_add
  have hle := l.freeStart_le
  have hused := hr.used
  refine ⟨hr.headerOk.low,hr.headerOk.mid,?_,?_,?_,?_,?_,?_,?_⟩
  · rw [hr.stop]; exact l.freeEnd_le
  · rw [hr.start,List.length_map]; rfl
  · intro e he
    obtain ⟨x,hx,rfl⟩ := List.mem_map.mp he
    rw [hr.slotEntry_offset hx,hr.slotEntry_length hx,hr.stop]
    exact l.slot_bounds hx
  · rw [List.pairwise_map]
    apply (perm_stacked_apart l.placed).imp_of_mem
    intro x y hx hy hxy z
    rw [hr.covers_iff hx,hr.covers_iff hy]
    unfold Apart at hxy
    omega
  · intro z h₁ h₂
    rw [hr.stop] at h₁
    obtain ⟨x,hx,hz⟩ := perm_stacked_covers l.placed (z := z) h₁
      (by unfold Layout.freeEnd at hadd; omega)
    exact ⟨slotEntry x,List.mem_map.mpr ⟨x,hx,rfl⟩,(hr.covers_iff hx z).mpr hz⟩
  · rw [hused]
    unfold Layout.freeStart at hle
    omega
  · intro b
    rw [freeContiguousSpace,usizeSub_of_le b hr.headerOk.mid,hused,hr.start,hr.stop]
    unfold Layout.freeStart at hle ⊢
    congr 1
    omega

end Invariant

theorem slotted_page_invariant (b : Build) (buf : RawPage) (start : PageStart)
    (ops : List CellOp) :
    ∃ p₀ rs p dir es, start.page b buf = .ok p₀ ∧
      Prog.runAll (ops.map CellOp.exec) b p₀ = .ok (rs,p) ∧
      slotDirRef p = .ok dir ∧ dir.iter.collect p = .ok es ∧ dir.slotCount = es.length ∧
      SlottedInvariant start.top p es := by
  obtain ⟨p₀,hstart,hr₀⟩ := start.represents b buf
  obtain ⟨p,hrun,hr⟩ := cellOps_simulate b hr₀ ops
  have hok := hr.headerOk
  refine ⟨p₀,_,p,_,_,hstart,hrun,slotDirRef_eq hok.low,collect_iter hok,?_,?_⟩
  · rw [slotCount_eq,entriesOf_length]
  · rw [hr.dirCount_eq,hr.directory]
    exact hr.invariant

end InkDB
