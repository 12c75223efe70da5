import InkDB.PageLayout

/-!
The slot directory against a list of entries, and the exact answers of the cell
insertions, on every page whose header is in order: pages that other code has
written to are included.
-/

set_option autoImplicit false

namespace InkDB
open SlottedPageRef

/-- The entries that `slot_dir_ref().iter()` goes through. -/
def Yields (p : RawPage) (es : List SlotEntry) : Prop :=
  ∃ dir, slotDirRef p = .ok dir ∧ dir.slotCount = es.length ∧ dir.iter.collect p = .ok es

theorem HeaderOk.yields {p : RawPage} (h : HeaderOk p) : Yields p (entriesOf p (dirCount p)) :=
  ⟨_,slotDirRef_eq h.low,by rw [slotCount_eq,entriesOf_length],collect_iter h⟩

structure Directory where
  entries : List SlotEntry
  space : Nat

/-- Insertion into the list, with the checks in the order the code makes them. -/
def Directory.insertAt (index : Nat) (e : SlotEntry) (d : Directory) :
    Except PageError Unit × Directory :=
  if d.space < 4 then (.error .notEnoughFreeSpace,d)
  else if index > d.entries.length then (.error .slotIndexNotInRange,d)
  else (.ok (),⟨d.entries.insertIdx index e,d.space-4⟩)

/-- A call that adds an entry to the directory and no cell to the page. -/
inductive DirOp where
  | append (e : SlotEntry)
  | insertAt (index : Nat) (e : SlotEntry)
  deriving DecidableEq, Repr

def DirOp.exec : DirOp → Prog RawPage PageError Unit
  | .append e => SlottedPageMut.appendSlotEntry e.length e.offset
  | .insertAt index e => SlottedPageMut.insertSlotEntryAtIndex index e

def DirOp.step : DirOp → Directory → Except PageError Unit × Directory
  | .append e, d => d.insertAt d.entries.length e
  | .insertAt index e, d => d.insertAt index e

def directoryOf (p : RawPage) : Directory := ⟨entriesOf p (dirCount p),freeEnd p-freeStart p⟩

theorem directoryOf_length (p : RawPage) : (directoryOf p).entries.length = dirCount p :=
  entriesOf_length p _

section Inserted
variable {p : RawPage} (h : HeaderOk p) {idx : Nat} (hidx : idx ≤ dirCount p) (e : SlotEntry)
include h hidx

/-- Only `free_start` and the directory from the insertion point on are written. -/
theorem get_entryInserted {i : Nat} (h₁ : ¬ (12 ≤ i ∧ i < 14))
    (h₂ : ¬ (24+4*idx ≤ i ∧ i < freeStart p+4)) : (entryInserted p idx e).get i = p.get i := by
  have hn := h.freeStart_eq
  rw [entryInserted,withFreeStart,
    Buf.get_write_outside _ _ (by rw [u16ToLeBytes_length]; omega),
    Buf.get_write_outside _ _ (by simp; omega)]

theorem freeEnd_entryInserted : freeEnd (entryInserted p idx e) = freeEnd p :=
  freeEnd_congr (fun _ _ _ => get_entryInserted h hidx e (by omega) (by omega))

variable (hroom : freeStart p+4 ≤ freeEnd p)
include hroom

theorem HeaderOk.entryInserted : HeaderOk (entryInserted p idx e) := by
  have hs := freeStart_entryInserted h hroom idx e
  have he := freeEnd_entryInserted h hidx e
  have hl := h.low
  have ha := h.aligned
  refine ⟨?_,?_,?_,?_⟩
  · omega
  · omega
  · rw [he]; exact h.high
  · omega

theorem directoryOf_entryInserted : directoryOf (InkDB.entryInserted p idx e) =
    ⟨(entriesOf p (dirCount p)).insertIdx idx e,freeEnd p-freeStart p-4⟩ := by
  have hn := h.freeStart_eq
  have hs := freeStart_entryInserted h hroom idx e
  have hc : dirCount (InkDB.entryInserted p idx e) = dirCount p+1 := by
    rw [dirCount,hs]
    omega
  rw [directoryOf,hc,entriesOf_entryInserted h hroom hidx,hs,freeEnd_entryInserted h hidx e,
    Nat.sub_sub]

end Inserted

section Simulation
variable (b : Build) {p : RawPage} (h : HeaderOk p)
include h

/-- The code inserts into its directory as into a list, and answers alike. -/
theorem insertSlotEntry_simulates (idx : Nat) (e : SlotEntry) :
    ∃ p', (SlottedPageMut.insertSlotEntryAtIndex idx e).run b p =
        .ok (((directoryOf p).insertAt idx e).1,p') ∧
      HeaderOk p' ∧ directoryOf p' = ((directoryOf p).insertAt idx e).2 := by
  rw [insertSlotEntryAtIndex_eq b h idx e]
  simp only [Directory.insertAt,directoryOf,entriesOf_length]
  by_cases hfull : freeEnd p-freeStart p < 4
  · simp only [if_pos hfull]
    exact ⟨p,rfl,h,rfl⟩
  · by_cases hgt : idx > dirCount p
    · simp only [if_neg hfull,if_pos hgt]
      exact ⟨p,rfl,h,rfl⟩
    · have hidx := Nat.not_lt.mp hgt
      have hm := h.mid
      have hroom : freeStart p+4 ≤ freeEnd p := by omega
      simp only [if_neg hfull,if_neg hgt]
      exact ⟨entryInserted p idx e,rfl,h.entryInserted hidx e hroom,
        directoryOf_entryInserted h hidx e hroom⟩

theorem appendSlotEntry_eq_insert (e : SlotEntry) :
    (SlottedPageMut.appendSlotEntry e.length e.offset).run b p =
      (SlottedPageMut.insertSlotEntryAtIndex (dirCount p) e).run b p := by
  rw [insertSlotEntryAtIndex_eq b h,if_neg (Nat.lt_irrefl _),appendSlotEntry_eq b h e]

theorem DirOp.simulates (op : DirOp) :
    ∃ p', op.exec.run b p = .ok ((op.step (directoryOf p)).1,p') ∧
      HeaderOk p' ∧ directoryOf p' = (op.step (directoryOf p)).2 := by
  cases op with
  | insertAt index e => exact insertSlotEntry_simulates b h index e
  | append e =>
    rw [DirOp.exec,appendSlotEntry_eq_insert b h e,DirOp.step,directoryOf_length]
    exact insertSlotEntry_simulates b h (dirCount p) e

theorem dirOps_simulate (ops : List DirOp) :
    ∃ p', Prog.runAll (ops.map DirOp.exec) b p =
        .ok ((Prog.trace DirOp.step ops (directoryOf p)).1,p') ∧
      HeaderOk p' ∧ directoryOf p' = (Prog.trace DirOp.step ops (directoryOf p)).2 := by
  apply Prog.runAll_simulates (fun p d => HeaderOk p ∧ directoryOf p = d)
  · rintro op - p d ⟨hok,rfl⟩
    exact op.simulates b hok
  · exact ⟨h,rfl⟩

end Simulation

/-- What `insert_slot_entry_at_index` answers and leaves behind, on a page with
entries `es`. -/
structure EntryOutcome (p : RawPage) (es : List SlotEntry) (idx : Nat) (e : SlotEntry)
    (r : Except PageError Unit) (p' : RawPage) : Prop where
  full : r = .error .notEnoughFreeSpace ↔ freeEnd p-freeStart p < 4
  outOfRange : r = .error .slotIndexNotInRange ↔ ¬ freeEnd p-freeStart p < 4 ∧ idx > es.length
  stored : r = .ok () ↔ ¬ freeEnd p-freeStart p < 4 ∧ ¬ idx > es.length
  unchanged : ∀ err, r = .error err → p' = p
  inserted : r = .ok () → Yields p' (es.insertIdx idx e)
  frame : r = .ok () → ∀ i, ¬ (12 ≤ i ∧ i < 14) → ¬ (24+4*idx ≤ i ∧ i < freeStart p+4) →
    p'.get i = p.get i

theorem HeaderOk.entryOutcome (b : Build) {p : RawPage} (h : HeaderOk p) (idx : Nat)
    (e : SlotEntry) :
    ∃ r p', (SlottedPageMut.insertSlotEntryAtIndex idx e).run b p = .ok (r,p') ∧
      EntryOutcome p (entriesOf p (dirCount p)) idx e r p' := by
  rw [insertSlotEntryAtIndex_eq b h idx e]
  by_cases hfull : freeEnd p-freeStart p < 4
  · refine ⟨_,_,by rw [if_pos hfull],?_⟩
    constructor <;> simp [hfull]
  · by_cases hgt : idx > dirCount p
    · refine ⟨_,_,by rw [if_neg hfull,if_pos hgt],?_⟩
      constructor <;> simp [hfull,hgt]
    · have hidx := Nat.not_lt.mp hgt
      have hm := h.mid
      have hroom : freeStart p+4 ≤ freeEnd p := by omega
      have hy := (h.entryInserted hidx e hroom).yields
      have hd := congrArg Directory.entries (directoryOf_entryInserted h hidx e hroom)
      simp only [directoryOf] at hd
      rw [hd] at hy
      refine ⟨_,_,by rw [if_neg hfull,if_neg hgt],?_⟩
      refine ⟨by simp [hfull],by simp [hgt],by simp [hfull,hgt],nofun,fun _ => hy,?_⟩
      exact fun _ i h₁ h₂ => get_entryInserted h hidx e h₁ h₂

theorem slot_directory_is_list (b : Build) (p : RawPage) (h : HeaderOk p) :
    ∃ es, Yields p es ∧
      (∀ idx e, ∃ r p', (SlottedPageMut.insertSlotEntryAtIndex idx e).run b p = .ok (r,p') ∧
        EntryOutcome p es idx e r p') ∧
      (∀ e, (SlottedPageMut.appendSlotEntry e.length e.offset).run b p =
        (SlottedPageMut.insertSlotEntryAtIndex es.length e).run b p) ∧
      ∀ ops : List DirOp, ∃ p', Prog.runAll (ops.map DirOp.exec) b p =
          .ok ((Prog.trace DirOp.step ops ⟨es,freeEnd p-freeStart p⟩).1,p') ∧
        Yields p' (Prog.trace DirOp.step ops ⟨es,freeEnd p-freeStart p⟩).2.entries := by
  refine ⟨_,h.yields,h.entryOutcome b,?_,fun ops => ?_⟩
  · rw [entriesOf_length]
    exact appendSlotEntry_eq_insert b h
  · obtain ⟨p',hrun,hok,hd⟩ := dirOps_simulate b h ops
    refine ⟨p',hrun,?_⟩
    have hy := hok.yields
    rwa [show entriesOf p' (dirCount p') = _ from congrArg Directory.entries hd] at hy

theorem slot_directory_two_entries :
    HeaderOk (initialPage 1) ∧ ∃ p',
      Prog.runAll ([DirOp.append ⟨4000,8⟩,.insertAt 0 ⟨4008,3⟩].map DirOp.exec) .debug
        (initialPage 1) = .ok ([.ok (),.ok ()],p') ∧ Yields p' [⟨4008,3⟩,⟨4000,8⟩] := by
  have hr := represents_initialPage 1
  refine ⟨hr.headerOk,?_⟩
  obtain ⟨es,⟨dir,hdir,hcount,-⟩,-,-,hruns⟩ :=
    slot_directory_is_list .debug (initialPage 1) hr.headerOk
  rw [slotDirRef_eq hr.headerOk.low] at hdir
  cases hdir
  rw [slotCount_eq,hr.dirCount_eq] at hcount
  obtain rfl := List.eq_nil_of_length_eq_zero hcount.symm
  have hrun := hruns [.append ⟨4000,8⟩,.insertAt 0 ⟨4008,3⟩]
  rw [hr.start,hr.stop] at hrun
  exact hrun

/-! Cells -/

/-- What an insertion of `cell` at slot `index` answers and leaves behind, on a
page with `count` slots. On success the `u16` fields hold the exact numbers. -/
structure CellOutcome (p : RawPage) (count index : Nat) (cell : List UInt8)
    (r : Except PageError Unit) (p' : RawPage) : Prop where
  full : r = .error .noContigiousSpace ↔ cell.length+4 > freeEnd p-freeStart p
  outOfRange : r = .error .slotIndexNotInRange ↔
    ¬ cell.length+4 > freeEnd p-freeStart p ∧ index > count
  stored : r = .ok () ↔ ¬ cell.length+4 > freeEnd p-freeStart p ∧ ¬ index > count
  unchanged : ∀ err, r = .error err → p' = p
  offset : r = .ok () → (entryAt p' index).offset.toNat+cell.length = freeEnd p
  length : r = .ok () → (entryAt p' index).length.toNat = cell.length
  start : r = .ok () → freeStart p' = freeStart p+4
  stop : r = .ok () → freeEnd p'+cell.length = freeEnd p

section Stored
variable {p : RawPage} (h : HeaderOk p) {idx : Nat} {cell : List UInt8}
  (hidx : idx ≤ dirCount p) (hroom : cell.length+4 ≤ freeEnd p-freeStart p)
include h hidx hroom

theorem entryAt_cellAdded : entryAt (cellAdded p idx cell) idx =
    ⟨UInt16.ofNat (freeEnd p-cell.length),UInt16.ofNat cell.length⟩ := by
  have hes := entriesOf_cellAdded h hidx hroom
  have hlen : idx < (entriesOf (cellAdded p idx cell) (dirCount p+1)).length := by
    rw [entriesOf_length]
    omega
  have hget := entriesOf_getElem (cellAdded p idx cell) (dirCount p+1) idx hlen
  simp only [hes,List.getElem_insertIdx_self] at hget
  exact hget.symm

theorem HeaderOk.cellOutcome_ok :
    CellOutcome p (dirCount p) idx cell (.ok ()) (cellAdded p idx cell) := by
  have hl := h.low
  have hm := h.mid
  have hh := h.high
  have he := entryAt_cellAdded h hidx hroom
  have hs := @freeStart_cellAdded p h idx cell hroom
  have ht := freeEnd_cellAdded h idx cell
  refine ⟨by simp; omega,by simp; omega,by simp; omega,nofun,fun _ => ?_,fun _ => ?_,fun _ => hs,
    fun _ => by omega⟩
  · rw [he,u16_toNat (by omega)]
    omega
  · rw [he,u16_toNat (by omega)]

end Stored

theorem cellOutcome_full {p : RawPage} {count index : Nat} {cell : List UInt8}
    (hfull : cell.length+4 > freeEnd p-freeStart p) :
    CellOutcome p count index cell (.error .noContigiousSpace) p := by
  constructor <;> simp [hfull]

theorem cellOutcome_outOfRange {p : RawPage} {count index : Nat} {cell : List UInt8}
    (hroom : ¬ cell.length+4 > freeEnd p-freeStart p) (hgt : index > count) :
    CellOutcome p count index cell (.error .slotIndexNotInRange) p := by
  constructor <;> simp [hroom,hgt]

/-- An append is an insertion at the slot count, which is never out of range. -/
theorem cell_insertion_outcomes (b : Build) (p : RawPage) (h : HeaderOk p) (cell : List UInt8) :
    ∃ dir, slotDirRef p = .ok dir ∧
      (∃ r p', (SlottedPageMut.addCellAppendSlotEntry cell).run b p = .ok (r,p') ∧
        CellOutcome p dir.slotCount dir.slotCount cell r p') ∧
      ∀ index, ∃ r p',
        (SlottedPageMut.addCellAtSlotEntryIndex index cell).run b p = .ok (r,p') ∧
          CellOutcome p dir.slotCount index cell r p' := by
  refine ⟨_,slotDirRef_eq h.low,?_,fun index => ?_⟩
  · rw [slotCount_eq,addCellAppendSlotEntry_eq b h]
    by_cases hfull : cell.length+4 > freeEnd p-freeStart p
    · exact ⟨_,_,by rw [if_pos hfull],cellOutcome_full hfull⟩
    · exact ⟨_,_,by rw [if_neg hfull],h.cellOutcome_ok (Nat.le_refl _) (Nat.not_lt.mp hfull)⟩
  · rw [slotCount_eq,addCellAtSlotEntryIndex_eq b h]
    by_cases hfull : cell.length+4 > freeEnd p-freeStart p
    · exact ⟨_,_,by rw [if_pos hfull],cellOutcome_full hfull⟩
    · by_cases hgt : index > dirCount p
      · exact ⟨_,_,by rw [if_neg hfull,if_pos hgt],cellOutcome_outOfRange hfull hgt⟩
      · exact ⟨_,_,by rw [if_neg hfull,if_neg hgt],
          h.cellOutcome_ok (Nat.not_lt.mp hgt) (Nat.not_lt.mp hfull)⟩

theorem cell_insertion_one_too_many :
    HeaderOk (initialPage 1) ∧
      (SlottedPageMut.addCellAppendSlotEntry (List.replicate 4053 7)).run .debug (initialPage 1) =
        .ok (.error .noContigiousSpace,initialPage 1) := by
  have hr := represents_initialPage 1
  refine ⟨hr.headerOk,?_⟩
  obtain ⟨dir,-,⟨r,p',hrun,hout⟩,-⟩ :=
    cell_insertion_outcomes .debug (initialPage 1) hr.headerOk (List.replicate 4053 7)
  have hfull : (List.replicate 4053 (7 : UInt8)).length+4 >
      freeEnd (initialPage 1)-freeStart (initialPage 1) := by
    rw [hr.start,hr.stop,List.length_replicate]
    decide
  obtain rfl := hout.full.mpr hfull
  obtain rfl := hout.unchanged _ rfl
  exact hrun

end InkDB
