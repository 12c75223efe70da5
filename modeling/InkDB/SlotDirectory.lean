import InkDB.SlottedPage

/-!
What the slot directory operations and the cell insertions do to the bytes of a
page, for every page whose header is in order. One equation per function; later
modules use these and never unfold the functions again.
-/

set_option autoImplicit false

namespace InkDB
open SlottedPageRef

/-- The four bytes of a slot entry. -/
def entryBytes (e : SlotEntry) : List UInt8 := u16ToLeBytes e.offset ++ u16ToLeBytes e.length

@[simp] theorem entryBytes_length (e : SlotEntry) : (entryBytes e).length = 4 := by
  simp [entryBytes]

/-- What `free_start` and `free_end` must satisfy for the insertions to be safe. -/
structure HeaderOk (p : RawPage) : Prop where
  low : 24 ≤ freeStart p
  mid : freeStart p ≤ freeEnd p
  high : freeEnd p ≤ 4096
  aligned : (freeStart p-24)%4 = 0

def dirCount (p : RawPage) : Nat := (freeStart p-24)/4

def entryAt (p : RawPage) (i : Nat) : SlotEntry :=
  ⟨UInt16.ofNat (p.le (24+4*i) 2),UInt16.ofNat (p.le (24+4*i+2) 2)⟩

def entriesOf (p : RawPage) (n : Nat) : List SlotEntry := (List.range n).map (entryAt p)

def withFreeStart (v : Nat) (p : RawPage) : RawPage :=
  p.write 12 (u16ToLeBytes (UInt16.ofNat v))

def withFreeEnd (v : Nat) (p : RawPage) : RawPage :=
  p.write 14 (u16ToLeBytes (UInt16.ofNat v))

theorem le_writeU16 (p : RawPage) {o v : Nat} (ho : o+2 ≤ 4096) (hv : v < 65536) :
    (p.write o (u16ToLeBytes (UInt16.ofNat v))).le o 2 = v := by
  rw [u16ToLeBytes,u16_toNat hv]
  exact Buf.le_write_same p ho (by omega)

theorem freeStart_withFreeStart (p : RawPage) {v : Nat} (hv : v < 65536) :
    freeStart (withFreeStart v p) = v := le_writeU16 p (o := 12) (by omega) hv

theorem freeStart_withFreeEnd (p : RawPage) (v : Nat) :
    freeStart (withFreeEnd v p) = freeStart p :=
  @Buf.le_write_disjoint _ p 14 12 2 _ (by simp)

theorem freeEnd_withFreeEnd (p : RawPage) {v : Nat} (hv : v < 65536) :
    freeEnd (withFreeEnd v p) = v := le_writeU16 p (o := 14) (by omega) hv

theorem freeStart_write (p : RawPage) {o : Nat} (xs : List UInt8) (h : 16 ≤ o) :
    freeStart (p.write o xs) = freeStart p :=
  @Buf.le_write_disjoint _ p o 12 2 xs (by omega)

theorem freeEnd_write (p : RawPage) {o : Nat} (xs : List UInt8) (h : 16 ≤ o) :
    freeEnd (p.write o xs) = freeEnd p :=
  @Buf.le_write_disjoint _ p o 14 2 xs (by omega)

section FieldCongr
variable {p p' : RawPage}

theorem freeStart_congr (h : ∀ i, 12 ≤ i → i < 14 → p'.get i = p.get i) :
    freeStart p' = freeStart p := Buf.le_congr (Buf.read_congr h)

theorem freeEnd_congr (h : ∀ i, 14 ≤ i → i < 16 → p'.get i = p.get i) :
    freeEnd p' = freeEnd p := Buf.le_congr (Buf.read_congr h)

theorem getLsn_congr (h : ∀ i, i < 8 → p'.get i = p.get i) : getLsn p' = getLsn p :=
  congrArg UInt64.ofNat (Buf.le_congr (Buf.read_congr (fun i _ hi => h i (by simpa using hi))))

theorem getSpecialOffset_congr (h : ∀ i, 16 ≤ i → i < 18 → p'.get i = p.get i) :
    getSpecialOffset p' = getSpecialOffset p :=
  congrArg UInt16.ofNat (Buf.le_congr (Buf.read_congr h))

end FieldCongr

theorem headerSize_eq : headerSize = 24 := rfl

theorem incrementFreeStart_eq (b : Build) (p : RawPage) (k : Nat)
    (h₁ : 24 ≤ freeStart p+k) (h₂ : freeStart p+k ≤ freeEnd p) :
    (SlottedPageMut.incrementFreeStart k).run b p =
      .ok (.ok (freeStart p+k),withFreeStart (freeStart p+k) p) := by
  simp only [SlottedPageMut.incrementFreeStart,Prog.reads_bind]
  rw [Prog.call_bind (debugAssert_of b h₂),Prog.call_bind (debugAssert_of b h₁),
    if_neg (Nat.not_lt.mpr h₁)]
  rfl

theorem setFreeEnd_eq (b : Build) (p : RawPage) (o : Nat) (h₁ : 24 ≤ o) (h₂ : freeStart p ≤ o) :
    (SlottedPageMut.setFreeEnd o).run b p = .ok (.ok (),withFreeEnd o p) := by
  simp only [SlottedPageMut.setFreeEnd,SlottedPageMut.freeStart,headerSize_eq]
  rw [Prog.call_bind (debugAssert_of b h₁),Prog.reads_bind,if_neg (by omega)]
  rfl

/-- The page after `e` is inserted at position `idx` of its directory: the
entries from `idx` on move up by one. -/
def entryInserted (p : RawPage) (idx : Nat) (e : SlotEntry) : RawPage :=
  withFreeStart (freeStart p+4)
    (p.write (24+4*idx) (entryBytes e ++ p.read (24+4*idx) (4*(dirCount p-idx))))

theorem HeaderOk.freeStart_eq {p : RawPage} (h : HeaderOk p) : freeStart p = 24+4*dirCount p := by
  have h₁ := h.low
  have h₂ := h.aligned
  unfold dirCount
  omega

/-- The two stores of an entry, offset then length, followed by the bump of
`free_start` by one entry. -/
theorem storeEntry_run (b : Build) (p : RawPage) {o : Nat} (e : SlotEntry)
    (ho : 24 ≤ o) (h₁ : o+4 ≤ 4096) (h₂ : 24 ≤ freeStart p) (h₃ : freeStart p+4 ≤ freeEnd p) :
    (do
      Prog.poke (fun p => p.store o (u16ToLeBytes e.offset))
      Prog.poke (fun p => p.store (o+2) (u16ToLeBytes e.length))
      let _ ← SlottedPageMut.incrementFreeStart 4
      pure () : Prog RawPage PageError Unit).run b p =
      .ok (.ok (),withFreeStart (freeStart p+4) (p.write o (entryBytes e))) := by
  have hw : (p.write o (u16ToLeBytes e.offset)).write (o+2) (u16ToLeBytes e.length) =
      p.write o (entryBytes e) := by
    have h := Buf.write_append p o (u16ToLeBytes e.offset) (u16ToLeBytes e.length)
    rwa [u16ToLeBytes_length] at h
  have hs : freeStart (p.write o (entryBytes e)) = freeStart p := freeStart_write p _ (by omega)
  have he : freeEnd (p.write o (entryBytes e)) = freeEnd p := freeEnd_write p _ (by omega)
  rw [Prog.poke_bind (Buf.store_ok p (by rw [u16ToLeBytes_length]; omega)),
    Prog.poke_bind (Buf.store_ok _ (by rw [u16ToLeBytes_length]; omega)),hw,
    Prog.bind_ok (incrementFreeStart_eq b _ 4 (by omega) (by omega)),hs]
  rfl

theorem appendSlotEntry_eq (b : Build) {p : RawPage} (h : HeaderOk p) (e : SlotEntry) :
    (SlottedPageMut.appendSlotEntry e.length e.offset).run b p =
      .ok (if freeEnd p-freeStart p < 4 then (.error .notEnoughFreeSpace,p)
        else (.ok (),entryInserted p (dirCount p) e)) := by
  have hn := h.freeStart_eq
  have hl := h.low
  have hh := h.high
  simp only [SlottedPageMut.appendSlotEntry,Prog.reads_bind,SlottedPageMut.freeStart,
    SlottedPageMut.freeEnd,entrySize]
  rw [Prog.call_bind (usizeSub_of_le b h.mid)]
  by_cases hroom : freeEnd p-freeStart p < 4
  · rw [if_pos hroom,if_pos hroom]
    rfl
  · rw [if_neg hroom,if_neg hroom,storeEntry_run b p e (by omega) (by omega) hl (by omega)]
    simp only [entryInserted,Nat.sub_self,Nat.mul_zero,Buf.read_zero,List.append_nil,← hn]

theorem insertSlotEntryAtIndex_eq (b : Build) {p : RawPage} (h : HeaderOk p) (idx : Nat)
    (e : SlotEntry) :
    (SlottedPageMut.insertSlotEntryAtIndex idx e).run b p =
      .ok (if freeEnd p-freeStart p < 4 then (.error .notEnoughFreeSpace,p)
        else if idx > dirCount p then (.error .slotIndexNotInRange,p)
        else (.ok (),entryInserted p idx e)) := by
  have hn := h.freeStart_eq
  have hl := h.low
  have hh := h.high
  have hc : (freeStart p-24)/4 = dirCount p := rfl
  simp only [SlottedPageMut.insertSlotEntryAtIndex,Prog.reads_bind,SlottedPageMut.freeStart,
    SlottedPageMut.freeEnd,entrySize,headerSize_eq]
  rw [Prog.call_bind (usizeSub_of_le b h.mid)]
  by_cases hroom : freeEnd p-freeStart p < 4
  · rw [if_pos hroom,if_pos hroom]
    rfl
  · rw [if_neg hroom,if_neg hroom,Prog.call_bind (usizeSub_of_le b hl),hc]
    by_cases hgt : idx > dirCount p
    · rw [if_pos hgt,if_pos hgt]
      rfl
    · rw [if_neg hgt,if_neg hgt]
      by_cases heq : idx = dirCount p
      · rw [if_pos heq,appendSlotEntry_eq b h e,if_neg hroom,heq]
      · have hs : freeStart (p.write (24+4*idx+4) (p.read (24+4*idx) (4*(dirCount p-idx)))) =
            freeStart p := freeStart_write p _ (by omega)
        have he : freeEnd (p.write (24+4*idx+4) (p.read (24+4*idx) (4*(dirCount p-idx)))) =
            freeEnd p := freeEnd_write p _ (by omega)
        have hp := Buf.write_prepend p (24+4*idx) (entryBytes e)
          (p.read (24+4*idx) (4*(dirCount p-idx)))
        rw [entryBytes_length] at hp
        rw [if_neg heq,Nat.mul_comm idx 4,Nat.mul_comm (dirCount p-idx) 4,
          Prog.poke_bind (Buf.copyWithin_ok p (by omega)),
          storeEntry_run b _ e (by omega) (by omega) (by omega) (by omega),hs,hp]
        rfl

/-- The page after `cell` is stored below `free_end` and entered at slot `idx`. -/
def cellAdded (p : RawPage) (idx : Nat) (cell : List UInt8) : RawPage :=
  withFreeEnd (freeEnd p-cell.length)
    ((entryInserted p idx ⟨UInt16.ofNat (freeEnd p-cell.length),UInt16.ofNat cell.length⟩).write
      (freeEnd p-cell.length) cell)

theorem freeStart_entryInserted {p : RawPage} (h : HeaderOk p) (hroom : freeStart p+4 ≤ freeEnd p)
    (idx : Nat) (e : SlotEntry) : freeStart (entryInserted p idx e) = freeStart p+4 :=
  freeStart_withFreeStart _ (by have := h.high; omega)

section AddCell
variable (b : Build) {p : RawPage} (h : HeaderOk p) (cell : List UInt8)
include h

theorem addCellWith_full (addEntry : SlotEntry → Prog RawPage PageError Unit)
    (hfull : cell.length+4 > freeEnd p-freeStart p) :
    (SlottedPageMut.addCellWith addEntry cell).run b p = .ok (.error .noContigiousSpace,p) := by
  simp only [SlottedPageMut.addCellWith,Prog.reads_bind]
  rw [Prog.call_bind (usizeSub_of_le b h.mid),if_pos hfull]
  rfl

variable (hroom : cell.length+4 ≤ freeEnd p-freeStart p)
include hroom

/-- With room for the cell, the outcome is decided by adding the slot entry. -/
theorem addCellWith_room (addEntry : SlotEntry → Prog RawPage PageError Unit) :
    (SlottedPageMut.addCellWith addEntry cell).run b p =
      (do
        addEntry ⟨UInt16.ofNat (freeEnd p-cell.length),UInt16.ofNat cell.length⟩
        Prog.poke (fun p' => p'.store (freeEnd p-cell.length) cell)
        SlottedPageMut.setFreeEnd (freeEnd p-cell.length)).run b p := by
  have hm := h.mid
  have hh := h.high
  have hlen : cell.length ≤ freeEnd p := by omega
  simp only [SlottedPageMut.addCellWith,Prog.reads_bind]
  rw [Prog.call_bind (usizeSub_of_le b h.mid),if_neg (Nat.not_lt.mpr hroom),
    Prog.call_bind (usizeSub_of_le b hlen),
    Prog.call_bind (assert_of (show cell.length ≤ 65535 by omega)),
    Prog.call_bind (assert_of (show freeEnd p-cell.length ≤ 65535 by omega))]

theorem addCellWith_ok {addEntry : SlotEntry → Prog RawPage PageError Unit} {idx : Nat}
    (hadd : ∀ e, (addEntry e).run b p = .ok (.ok (),entryInserted p idx e)) :
    (SlottedPageMut.addCellWith addEntry cell).run b p = .ok (.ok (),cellAdded p idx cell) := by
  have hl := h.low
  have hm := h.mid
  have hh := h.high
  rw [addCellWith_room b h cell hroom,Prog.bind_ok (hadd _),
    Prog.poke_bind (Buf.store_ok _ (by omega))]
  have hs : ∀ q : RawPage, freeStart (q.write (freeEnd p-cell.length) cell) = freeStart q :=
    fun q => freeStart_write q cell (by omega)
  rw [setFreeEnd_eq b _ _ (by omega) (by rw [hs,freeStart_entryInserted h (by omega)]; omega)]
  rfl

end AddCell

theorem addCellAppendSlotEntry_eq (b : Build) {p : RawPage} (h : HeaderOk p) (cell : List UInt8) :
    (SlottedPageMut.addCellAppendSlotEntry cell).run b p =
      .ok (if cell.length+4 > freeEnd p-freeStart p then (.error .noContigiousSpace,p)
        else (.ok (),cellAdded p (dirCount p) cell)) := by
  by_cases hfull : cell.length+4 > freeEnd p-freeStart p
  · rw [if_pos hfull]
    exact addCellWith_full b h cell _ hfull
  · rw [if_neg hfull]
    apply addCellWith_ok b h cell (Nat.not_lt.mp hfull)
    intro e
    rw [appendSlotEntry_eq b h e,if_neg (by omega)]

theorem addCellAtSlotEntryIndex_eq (b : Build) {p : RawPage} (h : HeaderOk p) (idx : Nat)
    (cell : List UInt8) :
    (SlottedPageMut.addCellAtSlotEntryIndex idx cell).run b p =
      .ok (if cell.length+4 > freeEnd p-freeStart p then (.error .noContigiousSpace,p)
        else if idx > dirCount p then (.error .slotIndexNotInRange,p)
        else (.ok (),cellAdded p idx cell)) := by
  by_cases hfull : cell.length+4 > freeEnd p-freeStart p
  · rw [if_pos hfull]
    exact addCellWith_full b h cell _ hfull
  · have hroom : cell.length+4 ≤ freeEnd p-freeStart p := Nat.not_lt.mp hfull
    rw [if_neg hfull]
    by_cases hgt : idx > dirCount p
    · rw [if_pos hgt,SlottedPageMut.addCellAtSlotEntryIndex,addCellWith_room b h cell hroom]
      apply Prog.bind_err
      rw [insertSlotEntryAtIndex_eq b h idx _,if_neg (by omega),if_pos hgt]
    · rw [if_neg hgt]
      apply addCellWith_ok b h cell hroom
      intro e
      rw [insertSlotEntryAtIndex_eq b h idx e,if_neg (by omega),if_neg hgt]

theorem entryAt_eq_of_read {p q : RawPage} {i j : Nat}
    (h : p.read (24+4*i) 4 = q.read (24+4*j) 4) : entryAt p i = entryAt q j := by
  rw [Buf.read_add p _ 2 2,Buf.read_add q _ 2 2] at h
  obtain ⟨h₁,h₂⟩ := List.append_inj h (by simp)
  simp only [entryAt,Buf.le,h₁,h₂]

theorem entryAt_of_bytes {p : RawPage} {i : Nat} {e : SlotEntry}
    (h : p.read (24+4*i) 4 = entryBytes e) : entryAt p i = e := by
  rw [Buf.read_add p _ 2 2,entryBytes] at h
  obtain ⟨h₁,h₂⟩ := List.append_inj h (by simp)
  simp only [entryAt,Buf.le,h₁,h₂,decodeLe_u16,UInt16.ofNat_toNat]

@[simp] theorem entriesOf_length (p : RawPage) (n : Nat) : (entriesOf p n).length = n := by
  simp [entriesOf]

theorem entriesOf_getElem (p : RawPage) (n i : Nat) (h : i < (entriesOf p n).length) :
    (entriesOf p n)[i] = entryAt p i := by
  simp [entriesOf]

theorem entriesOf_congr {p q : RawPage} {n : Nat}
    (h : ∀ i, 24 ≤ i → i < 24+4*n → p.get i = q.get i) : entriesOf p n = entriesOf q n := by
  apply List.map_congr_left
  intro i hi
  rw [List.mem_range] at hi
  apply entryAt_eq_of_read
  apply Buf.read_congr
  intro k h₁ h₂
  exact h k (by omega) (by omega)

/-- The shifted directory is list insertion. -/
theorem entriesOf_entryInserted {p : RawPage} (h : HeaderOk p)
    (hroom : freeStart p+4 ≤ freeEnd p) {idx : Nat} (hidx : idx ≤ dirCount p) (e : SlotEntry) :
    entriesOf (entryInserted p idx e) (dirCount p+1) =
      (entriesOf p (dirCount p)).insertIdx idx e := by
  have hn := h.freeStart_eq
  have hh := h.high
  have hbound :
      24+4*idx+(entryBytes e ++ p.read (24+4*idx) (4*(dirCount p-idx))).length ≤ 4096 := by
    simp; omega
  have hread : ∀ j, (entryInserted p idx e).read (24+4*j) 4 =
      (p.write (24+4*idx)
        (entryBytes e ++ p.read (24+4*idx) (4*(dirCount p-idx)))).read (24+4*j) 4 :=
    fun j => Buf.read_write_disjoint _ _ (.inr (by rw [u16ToLeBytes_length]; omega))
  apply List.ext_getElem
  · rw [List.length_insertIdx_of_le_length (by simpa using hidx)]
    simp
  · intro j h₁ h₂
    simp only [entriesOf_length] at h₁
    rw [entriesOf_getElem,List.getElem_insertIdx]
    split
    · -- below the insertion point nothing is written
      rw [entriesOf_getElem]
      apply entryAt_eq_of_read
      rw [hread,Buf.read_write_disjoint _ _ (by omega)]
    · split
      · rename_i hlt heq
        subst heq
        apply entryAt_of_bytes
        rw [hread,Buf.read_write_inside _ _ (by omega) (by simp) hbound]
        simp
      · -- above it every entry is the one before it in the old directory
        rename_i hlt hne
        rw [entriesOf_getElem]
        apply entryAt_eq_of_read
        rw [hread,Buf.read_write_inside _ _ (by omega) (by simp; omega) hbound]
        have hd : 24+4*j-(24+4*idx) = (entryBytes e).length+4*(j-1-idx) := by simp; omega
        rw [hd,List.drop_length_add_append,Buf.read_drop_take _ (by omega)]
        congr 1
        omega

theorem read_entry_offset (p : RawPage) {i : Nat} (h : 24+4*i+4 ≤ 4096) :
    readU16LeUnsafe p (24+4*i) = .ok (entryAt p i).offset := readU16LeUnsafe_ok p (by omega)

theorem read_entry_length (p : RawPage) {i : Nat} (h : 24+4*i+4 ≤ 4096) :
    readU16LeUnsafe p (24+4*i+2) = .ok (entryAt p i).length := readU16LeUnsafe_ok p (by omega)

theorem nextEntry_some {p : RawPage} {it : SlotDirIter} (hp : it.ptr = 24)
    (h : it.pos < it.slotCount) (hb : it.pos < 1018) :
    it.nextEntry p = .ok (some (entryAt p it.pos),{ it with pos := it.pos+1 }) := by
  rw [SlotDirIter.nextEntry,if_neg (Nat.not_le.mpr h),hp,Nat.mul_comm it.pos]
  simp only [entrySize]
  rw [read_entry_offset p (by omega),read_entry_length p (by omega)]
  rfl

/-- The 1018th entry is the last one that lies in the page. -/
theorem nextEntry_behind {p : RawPage} {it : SlotDirIter} (hp : it.ptr = 24)
    (h : it.pos < it.slotCount) (hb : 1018 ≤ it.pos) :
    it.nextEntry p = .error .undefinedBehaviour := by
  rw [SlotDirIter.nextEntry,if_neg (Nat.not_le.mpr h),hp]
  simp only [entrySize]
  rw [readU16LeUnsafe,Buf.loadLe_out p (by omega)]
  rfl

theorem entriesOf_drop (p : RawPage) {n i : Nat} (h : i < n) :
    (entriesOf p n).drop i = entryAt p i :: (entriesOf p n).drop (i+1) := by
  rw [List.drop_eq_getElem_cons (by simpa using h),entriesOf_getElem]

section Iterator
variable {p : RawPage} {it : SlotDirIter} (hp : it.ptr = 24) (hb : 24+4*it.slotCount ≤ 4096)
include hp hb

theorem collect_eq : it.collect p = .ok ((entriesOf p it.slotCount).drop it.pos) := by
  unfold SlotDirIter.collect
  generalize hk : it.remaining = k
  induction k generalizing it with
  | zero =>
    have hle : it.slotCount ≤ it.pos := by simp only [SlotDirIter.remaining] at hk; omega
    rw [List.drop_of_length_le (by simpa using hle)]
    rfl
  | succ k ih =>
    have hlt : it.pos < it.slotCount := by simp only [SlotDirIter.remaining] at hk; omega
    have hrest := @ih { it with pos := it.pos+1 } hp hb
      (by simp only [SlotDirIter.remaining,SlotDirIter.slotCount] at hk ⊢; omega)
    rw [SlotDirIter.collectFrom,nextEntry_some hp hlt (by omega)]
    simp only [Exec.ok_bind,hrest,entriesOf_drop p hlt]
    rfl

theorem forIn_eq {β : Type} (body : SlotEntry → Exec (Option β)) :
    it.forIn p body = firstSome body ((entriesOf p it.slotCount).drop it.pos) := by
  unfold SlotDirIter.forIn
  generalize hk : it.remaining = k
  induction k generalizing it with
  | zero =>
    have hle : it.slotCount ≤ it.pos := by simp only [SlotDirIter.remaining] at hk; omega
    rw [List.drop_of_length_le (by simpa using hle)]
    rfl
  | succ k ih =>
    have hlt : it.pos < it.slotCount := by simp only [SlotDirIter.remaining] at hk; omega
    have hrest := @ih { it with pos := it.pos+1 } hp hb
      (by simp only [SlotDirIter.remaining,SlotDirIter.slotCount] at hk ⊢; omega)
    rw [SlotDirIter.forEach,nextEntry_some hp hlt (by omega)]
    simp only [Exec.ok_bind,hrest,entriesOf_drop p hlt,firstSome]
    rfl

theorem skip_eq {k : Nat} (hk : it.pos+k ≤ it.slotCount) :
    it.skip p k = .ok { it with pos := it.pos+k } := by
  induction k generalizing it with
  | zero => rfl
  | succ k ih =>
    have hrest := @ih { it with pos := it.pos+1 } hp hb
      (by simp only [SlotDirIter.slotCount] at hk ⊢; omega)
    rw [SlotDirIter.skip,nextEntry_some hp (by omega) (by omega),Exec.ok_bind]
    refine hrest.trans ?_
    simp only [Nat.add_assoc,Nat.add_comm 1 k]

end Iterator

theorem slotDirRef_eq {p : RawPage} (hl : 24 ≤ freeStart p) :
    slotDirRef p = .ok ⟨24,freeStart p-24⟩ := by
  rw [slotDirRef,assert_of hl]
  rfl

theorem slotCount_eq {p : RawPage} : (SlotRef.mk 24 (freeStart p-24)).slotCount = dirCount p := by
  simp only [SlotRef.slotCount,dirCount,entrySize]
  split
  · omega
  · rfl

section Readers
variable {p : RawPage} (h : HeaderOk p)
include h

theorem HeaderOk.dir_le : 24+4*dirCount p ≤ 4096 := by
  have hn := h.freeStart_eq
  have hm := h.mid
  have hh := h.high
  omega

theorem collect_iter : (SlotRef.mk 24 (freeStart p-24)).iter.collect p =
    .ok (entriesOf p (dirCount p)) :=
  @collect_eq p ⟨24,freeStart p-24,0⟩ rfl h.dir_le

theorem skip_iter {k : Nat} (hk : k ≤ dirCount p) :
    (SlotRef.mk 24 (freeStart p-24)).iter.skip p k = .ok ⟨24,freeStart p-24,k⟩ := by
  have hskip := @skip_eq p ⟨24,freeStart p-24,0⟩ rfl h.dir_le k (by rw [Nat.zero_add]; exact hk)
  rwa [Nat.zero_add] at hskip

theorem forIn_from {β : Type} (body : SlotEntry → Exec (Option β)) (k : Nat) :
    (SlotDirIter.mk 24 (freeStart p-24) k).forIn p body =
      firstSome body ((entriesOf p (dirCount p)).drop k) :=
  @forIn_eq p ⟨24,freeStart p-24,k⟩ rfl h.dir_le β body

end Readers

/-! `cell_slice_from_id` on any bytes that pass the assertion of `slot_dir_ref` -/

section CellFromId
variable {p : RawPage} (hl : 24 ≤ freeStart p) {id : SlotID}
include hl

theorem cellSliceFromId_empty (hn : dirCount p = 0) (id : SlotID) :
    cellSliceFromId p id = .ok (.error .emptySlotDir) := by
  rw [cellSliceFromId,slotDirRef_eq hl]
  simp only [Exec.ok_bind,slotCount_eq]
  rw [if_pos hn]
  rfl

theorem cellSliceFromId_out (hn : dirCount p ≠ 0) (hi : dirCount p ≤ id.val.toNat) :
    cellSliceFromId p id = .ok (.error .slotIDOutOfBounds) := by
  rw [cellSliceFromId,slotDirRef_eq hl]
  simp only [Exec.ok_bind,slotCount_eq]
  rw [if_neg hn,if_pos hi]
  rfl

theorem cellSliceFromId_entry (hi : id.val.toNat < dirCount p) (hb : id.val.toNat < 1018) :
    cellSliceFromId p id =
      if hc : (entryAt p id.val.toNat).offset.toNat+(entryAt p id.val.toNat).length.toNat ≤ 4096
      then .ok (.ok ⟨p,_,_,hc⟩) else .ok (.error .corruptCell) := by
  rw [cellSliceFromId,slotDirRef_eq hl]
  simp only [Exec.ok_bind,slotCount_eq,entrySize,Nat.mul_comm id.val.toNat]
  rw [if_neg (by omega),if_neg (by omega),read_entry_offset p (by omega),
    read_entry_length p (by omega)]
  simp only [Exec.ok_bind]
  split
  · rename_i hc
    rw [dif_neg (Nat.not_le.mpr hc)]
    rfl
  · rename_i hc
    rw [dif_pos (Nat.not_lt.mp hc),
      Buf.index_ok p ⟨Nat.le_add_right _ _,Nat.not_lt.mp hc⟩]
    simp only [Exec.ok_bind,Exec.pure_eq,Nat.add_sub_cancel_left]

theorem cellSliceFromId_behind (hi : id.val.toNat < dirCount p) (hb : 1018 ≤ id.val.toNat) :
    cellSliceFromId p id = .error .undefinedBehaviour := by
  rw [cellSliceFromId,slotDirRef_eq hl]
  simp only [Exec.ok_bind,slotCount_eq,entrySize]
  rw [if_neg (by omega),if_neg (by omega),readU16LeUnsafe,Buf.loadLe_out p (by omega)]
  rfl

end CellFromId

theorem cellSliceFromId_ok {p : RawPage} (h : HeaderOk p) {i : Nat} (hi : i < dirCount p)
    (hc : (entryAt p i).offset.toNat+(entryAt p i).length.toNat ≤ 4096) :
    cellSliceFromId p ⟨UInt16.ofNat i⟩ =
      .ok (.ok ⟨p,(entryAt p i).offset.toNat,(entryAt p i).length.toNat,hc⟩) := by
  have hd := h.dir_le
  have hid : (UInt16.ofNat i).toNat = i := u16_toNat (by omega)
  have he := @cellSliceFromId_entry p h.low ⟨UInt16.ofNat i⟩ (by rw [hid]; exact hi)
    (by rw [hid]; omega)
  simp only [hid] at he
  rw [he,dif_pos hc]

theorem cellSliceFromEntry_ok (b : Build) (p : RawPage) {e : SlotEntry}
    (he : e.offset.toNat+e.length.toNat < 4096) :
    cellSliceFromEntry b p e = .ok ⟨p,e.offset.toNat,e.length.toNat,Nat.le_of_lt he⟩ := by
  simp only [cellSliceFromEntry]
  rw [debugAssert_of b he,Exec.ok_bind,Buf.index_ok p ⟨Nat.le_add_right _ _,Nat.le_of_lt he⟩]
  simp only [Nat.add_sub_cancel_left]

end InkDB
