import InkDB.IndexCells
import InkDB.IndexRuns
import InkDB.PageSpace
import InkDB.ProgLogic
import InkDB.StaleBuffer

/-!
Pages that hold anything. The raw pointers of the page code stay inside the page
as long as the header keeps its bounds, which no call breaks; slots, cells and
alignment may be garbage. A debug build searches every such page safely, a
release build only where the announced keys end in the page. Without the bounds
insertions are not safe.
-/

set_option autoImplicit false

namespace InkDB
open SlottedPageRef

structure Ordered (special : UInt16) (p : RawPage) : Prop where
  low : 24 ≤ freeStart p
  mid : freeStart p ≤ freeEnd p
  high : freeEnd p ≤ 4096
  offset : getSpecialOffset p = special

/-- A sibling is not written over the header either. -/
structure Bounded (p : RawPage) : Prop extends Ordered (getSpecialOffset p) p where
  special : getSpecialOffset p = 0 ∨ 10 ≤ (getSpecialOffset p).toNat

/-- Room for a cell of `n` bytes whose entry is stored already. -/
structure Entered (n fe : Nat) (special : UInt16) (p : RawPage) : Prop where
  low : 24 ≤ freeStart p
  mid : freeStart p+n ≤ freeEnd p
  stop : freeEnd p = fe
  high : freeEnd p ≤ 4096
  offset : getSpecialOffset p = special

theorem getSpecialOffset_write (p : RawPage) {o : Nat} (xs : List UInt8) (h : 18 ≤ o) :
    getSpecialOffset (p.write o xs) = getSpecialOffset p :=
  getSpecialOffset_congr (fun _ _ _ => Buf.get_write_outside p xs (.inl (by omega)))

section Headers
variable {n fe : Nat} {v : UInt16} {p : RawPage}

theorem Entered.ordered (h : Entered n fe v p) : Ordered v p :=
  ⟨h.low,Nat.le_trans (Nat.le_add_right _ _) h.mid,h.high,h.offset⟩

theorem Entered.write (h : Entered n fe v p) {o : Nat} (ho : 18 ≤ o) (xs : List UInt8) :
    Entered n fe v (p.write o xs) := by
  have hs := freeStart_write p xs (show 16 ≤ o by omega)
  have he := freeEnd_write p xs (show 16 ≤ o by omega)
  have hp := getSpecialOffset_write p xs ho
  constructor
  · rw [hs]; exact h.low
  · rw [hs,he]; exact h.mid
  · rw [he]; exact h.stop
  · rw [he]; exact h.high
  · rw [hp]; exact h.offset

theorem Ordered.write (h : Ordered v p) {o : Nat} (ho : 18 ≤ o) (xs : List UInt8) :
    Ordered v (p.write o xs) :=
  (Entered.write (n := 0) ⟨h.low,h.mid,rfl,h.high,h.offset⟩ ho xs).ordered

theorem Entered.weaken {k : Nat} (h : Entered (n+k) fe v p) : Entered n fe v p :=
  ⟨h.low,by have := h.mid; omega,h.stop,h.high,h.offset⟩

theorem Entered.withFreeStart (h : Entered (n+4) fe v p) :
    Entered n fe v (InkDB.withFreeStart (freeStart p+4) p) := by
  have hl := h.low
  have hm := h.mid
  have hh := h.high
  have hs : freeStart (InkDB.withFreeStart (freeStart p+4) p) = freeStart p+4 :=
    freeStart_withFreeStart p (by omega)
  have he : freeEnd (InkDB.withFreeStart (freeStart p+4) p) = freeEnd p :=
    @Buf.le_write_disjoint _ p 12 14 2 _ (by simp)
  have hp : getSpecialOffset (InkDB.withFreeStart (freeStart p+4) p) = getSpecialOffset p :=
    getSpecialOffset_congr (fun _ _ _ => Buf.get_write_outside p _ (.inr (by simp; omega)))
  constructor
  · rw [hs]; omega
  · rw [hs,he]; omega
  · rw [he]; exact h.stop
  · rw [he]; exact hh
  · rw [hp]; exact h.offset

theorem Entered.withFreeEnd (h : Entered n fe v p) :
    Ordered v (InkDB.withFreeEnd (fe-n) p) := by
  have hl := h.low
  have hm := h.mid
  have hh := h.high
  have ht := h.stop
  have hs : freeStart (InkDB.withFreeEnd (fe-n) p) = freeStart p := freeStart_withFreeEnd p _
  have he : freeEnd (InkDB.withFreeEnd (fe-n) p) = fe-n := freeEnd_withFreeEnd p (by omega)
  have hp : getSpecialOffset (InkDB.withFreeEnd (fe-n) p) = getSpecialOffset p :=
    getSpecialOffset_congr (fun _ _ _ => Buf.get_write_outside p _ (.inr (by simp; omega)))
  constructor
  · rw [hs]; exact hl
  · rw [hs,he]; omega
  · rw [he]; omega
  · rw [hp]; exact h.offset

theorem Entered.start_of (h : Entered (n+4) fe v p) {fs : Nat} (hfs : freeStart p = fs) :
    24 ≤ fs ∧ fs+4 ≤ 4096 := by
  have hl := h.low
  have hm := h.mid
  have hh := h.high
  omega

end Headers

section Calls
variable {b : Build} {n fe : Nat} {v : UInt16}
open Prog

theorem incrementFreeStart_sound :
    Sound b (Entered (n+4) fe v) (SlottedPageMut.incrementFreeStart 4) (Entered n fe v) := by
  unfold SlottedPageMut.incrementFreeStart
  refine sound_reads_bind fun curFs => sound_reads_bind fun endOff => ?_
  refine sound_call_bind (debugAssert_defined b _) fun _ _ => ?_
  refine sound_call_bind (debugAssert_defined b _) fun _ _ => ?_
  split
  · exact sound_err (fun p hp => hp.1.1.weaken) _
  · refine sound_bind (sound_modify fun p hp => ?_) (fun p hp => hp) fun _ =>
      sound_pure (fun p hp => hp) _
    obtain ⟨⟨hp,rfl⟩,-⟩ := hp
    exact hp.withFreeStart

theorem storeEntry_sound {o : Nat} (ho : 24 ≤ o) (hlim : o+4 ≤ 4096) (offset size : UInt16) :
    Sound b (Entered (n+4) fe v)
      (do
        Prog.poke (fun p => p.store o (u16ToLeBytes offset))
        Prog.poke (fun p => p.store (o+2) (u16ToLeBytes size))
        let _ ← SlottedPageMut.incrementFreeStart 4
        pure () : Prog RawPage PageError Unit) (Entered n fe v) := by
  refine sound_poke_bind (R := Entered (n+4) fe v) (fun p hp => ?_) ?_
  · exact ⟨_,Buf.store_ok p (by simp; omega),hp.write (by omega) _⟩
  refine sound_poke_bind (R := Entered (n+4) fe v) (fun p hp => ?_) ?_
  · exact ⟨_,Buf.store_ok p (by simp; omega),hp.write (by omega) _⟩
  exact sound_bind incrementFreeStart_sound (fun p hp => hp) fun _ => sound_pure (fun p hp => hp) _

theorem appendSlotEntry_sound (size offset : UInt16) :
    Sound b (Entered (n+4) fe v) (SlottedPageMut.appendSlotEntry size offset) (Entered n fe v) := by
  unfold SlottedPageMut.appendSlotEntry
  refine sound_reads_bind fun fs => sound_reads_bind fun endOff => ?_
  refine sound_call_bind (usizeSub_defined b _ _) fun _ _ => ?_
  split
  · exact sound_err (fun p hp => hp.1.1.weaken) _
  · refine sound_of (fun p hp => hp.1.1.start_of hp.1.2) fun hfs => ?_
    exact (storeEntry_sound hfs.1 hfs.2 offset size).mono fun p hp => hp.1.1

theorem insertSlotEntryAtIndex_sound (idx : Nat) (e : SlotEntry) :
    Sound b (Entered (n+4) fe v) (SlottedPageMut.insertSlotEntryAtIndex idx e)
      (Entered n fe v) := by
  unfold SlottedPageMut.insertSlotEntryAtIndex
  refine sound_reads_bind fun oldFs => sound_reads_bind fun endOff => ?_
  refine sound_call_bind (usizeSub_defined b _ _) fun _ _ => ?_
  split
  · exact sound_err (fun p hp => hp.1.1.weaken) _
  refine sound_of (fun p hp => hp.1.1.start_of hp.1.2) fun hfs => ?_
  refine sound_call_bind (usizeSub_defined b _ _) fun dirSize hdir => ?_
  rw [headerSize_eq,usizeSub_of_le b hfs.1] at hdir
  cases hdir
  simp only [headerSize_eq,entrySize]
  split
  · exact sound_err (fun p hp => hp.1.1.weaken) _
  · split
    · exact (appendSlotEntry_sound _ _).mono fun p hp => hp.1.1
    · -- the entries from `idx` on are moved up, inside the page
      refine sound_poke_bind (R := Entered (n+4) fe v) (fun p hp => ?_)
        (storeEntry_sound (by omega) (by omega) e.offset e.length)
      exact ⟨_,Buf.copyWithin_ok p (by omega),hp.1.1.write (by omega) _⟩

theorem setFreeEnd_sound :
    Sound b (Entered n fe v) (SlottedPageMut.setFreeEnd (fe-n)) (Ordered v) := by
  unfold SlottedPageMut.setFreeEnd
  refine sound_call_bind (debugAssert_defined b _) fun _ _ => sound_reads_bind fun fs => ?_
  split
  · exact sound_err (fun p hp => hp.1.ordered) _
  · exact sound_modify fun p hp => hp.1.withFreeEnd

theorem addCellWith_sound {addEntry : SlotEntry → Prog RawPage PageError Unit} (cell : List UInt8)
    (hadd : ∀ fe e,
      Sound b (Entered (cell.length+4) fe v) (addEntry e) (Entered cell.length fe v)) :
    Sound b (Ordered v) (SlottedPageMut.addCellWith addEntry cell) (Ordered v) := by
  unfold SlottedPageMut.addCellWith
  refine sound_reads_bind fun fs => sound_reads_bind fun fe => ?_
  refine sound_call_bind (usizeSub_defined b _ _) fun room hroom => ?_
  split
  · exact sound_err (fun p hp => hp.1.1) _
  rename_i hfit
  refine sound_of (φ := fs ≤ fe ∧ fe ≤ 4096) (fun p hp => ?_) fun hfe => ?_
  · obtain ⟨⟨hp,rfl⟩,rfl⟩ := hp
    exact ⟨hp.mid,hp.high⟩
  rw [usizeSub_of_le b hfe.1] at hroom
  cases hroom
  simp only [entrySize] at hfit
  refine sound_call_bind (usizeSub_defined b _ _) fun start hstart => ?_
  rw [usizeSub_of_le b (by omega)] at hstart
  cases hstart
  refine sound_call_bind (assert_defined _) fun _ _ => ?_
  refine sound_call_bind (assert_defined _) fun _ _ => ?_
  refine sound_bind ((hadd fe _).mono fun p hp => ?_) (fun p hp => hp.ordered) fun _ => ?_
  · obtain ⟨⟨hp,hfs⟩,hstop⟩ := hp
    have hfs : freeStart p = fs := hfs
    have hstop : freeEnd p = fe := hstop
    exact ⟨hp.low,by omega,hstop,hp.high,hp.offset⟩
  · refine sound_poke_bind (R := Entered cell.length fe v) (fun p hp => ?_) setFreeEnd_sound
    have hl := hp.low
    have hm := hp.mid
    have ht := hp.stop
    exact ⟨_,Buf.store_ok p (by omega),hp.write (by omega) _⟩

end Calls

/-! Reading -/

section Readers
variable {b : Build} {p : RawPage}

theorem Bounded.dir_le (h : Bounded p) : 24+4*dirCount p ≤ 4096 := by
  have hl := h.low
  have hm := h.mid
  have hh := h.high
  simp only [dirCount]
  omega

end Readers

/-! The sibling field of any page -/

section Sibling
variable {p : RawPage} (b : Build)

def siblingAt (p : RawPage) (o : Nat) : Option PageID :=
  if UInt64.ofNat (p.le o 8) = 0 then none else some ⟨UInt64.ofNat (p.le o 8)⟩

theorem siblingAt_isSome (p : RawPage) (o : Nat) :
    (siblingAt p o).isSome = (p.read o 8 != List.replicate 8 0) := by
  have hread : u64ToLeBytes (UInt64.ofNat (p.le o 8)) = p.read o 8 :=
    u64ToLeBytes_decodeLe (Buf.read_length p o 8)
  have hzero := u64ToLeBytes_eq_zero (UInt64.ofNat (p.le o 8))
  rw [hread] at hzero
  unfold siblingAt
  split
  · rename_i hz
    rw [hzero.mpr hz]
    rfl
  · rename_i hz
    rw [bne_iff_ne.mpr (fun h => hz (hzero.mp h))]
    rfl

structure FieldInside (p : RawPage) : Prop where
  set : getSpecialOffset p ≠ 0
  fits : (getSpecialOffset p).toNat ≤ 4080

theorem FieldInside.area (h : FieldInside p) :
    ∃ hb, getSpecialRef b p =
      .ok (.ok ⟨p,(getSpecialOffset p).toNat,4096-(getSpecialOffset p).toNat,hb⟩) :=
  getSpecialRef_inside b h.set (UInt16.le_iff_toNat_le.mpr (Nat.le_trans h.fits (by decide)))

theorem FieldInside.has_eq (h : FieldInside p) : IndexPageRef.hasRightSibling b p =
    .ok (siblingAt p ((getSpecialOffset p).toNat+8)).isSome := by
  obtain ⟨hb,harea⟩ := h.area b
  have hfits := h.fits
  rw [IndexPageRef.hasRightSibling,IndexPageMut.hasRightSibling,SlottedPageMut.getSpecialRef,harea,
    Exec.ok_bind,siblingAt_isSome]
  simp only [rightSiblingOffset]
  rw [Slice.index_ok _ (by simp only; omega)]
  rfl

theorem FieldInside.get_eq (h : FieldInside p) : IndexPageRef.getRightSibling b p =
    .ok (siblingAt p ((getSpecialOffset p).toNat+8)) := by
  obtain ⟨hb,harea⟩ := h.area b
  have hfits := h.fits
  rw [IndexPageRef.getRightSibling,harea,Exec.ok_bind]
  simp only [rightSiblingOffset]
  rw [readU64LeUnsafe_ok _ (by omega)]
  rfl

theorem sibling_short (hlow : 4080 < (getSpecialOffset p).toNat)
    (hhigh : (getSpecialOffset p).toNat ≤ 4096) :
    IndexPageRef.hasRightSibling b p = .error (.panic .sliceIndex) ∧
      IndexPageRef.getRightSibling b p = .error .undefinedBehaviour := by
  have hne : getSpecialOffset p ≠ 0 := by
    intro hz
    rw [hz] at hlow
    exact absurd hlow (by decide)
  obtain ⟨hb,harea⟩ := getSpecialRef_inside b hne (UInt16.le_iff_toNat_le.mpr hhigh)
  constructor
  · rw [IndexPageRef.hasRightSibling,IndexPageMut.hasRightSibling,SlottedPageMut.getSpecialRef,
      harea,Exec.ok_bind]
    simp only [rightSiblingOffset,Slice.index]
    rw [dif_neg (by omega)]
    rfl
  · rw [IndexPageRef.getRightSibling,harea,Exec.ok_bind]
    simp only [rightSiblingOffset,readU64LeUnsafe]
    rw [Buf.loadLe_out _ (by omega)]
    rfl

theorem sibling_beyond (h : 4096 < getSpecialOffset p) :
    IndexPageRef.hasRightSibling b p = .error (beyondPage b) ∧
      IndexPageRef.getRightSibling b p = .error (beyondPage b) := by
  refine ⟨hasRightSibling_beyond b h,?_⟩
  rw [IndexPageRef.getRightSibling,getSpecialRef_beyond b h]
  rfl

theorem sibling_zero (h : getSpecialOffset p = 0) :
    IndexPageRef.hasRightSibling b p = .ok false ∧
      IndexPageRef.getRightSibling b p = .ok none := by
  refine ⟨hasRightSibling_zero b h,?_⟩
  rw [IndexPageRef.getRightSibling,getSpecialRef_zero b h]
  rfl

theorem special_cases (p : RawPage) :
    getSpecialOffset p = 0 ∨ FieldInside p ∨
      (4080 < (getSpecialOffset p).toNat ∧ (getSpecialOffset p).toNat ≤ 4096) ∨
      4096 < getSpecialOffset p := by
  by_cases hz : getSpecialOffset p = 0
  · exact .inl hz
  · by_cases hfits : (getSpecialOffset p).toNat ≤ 4080
    · exact .inr (.inl ⟨hz,hfits⟩)
    · by_cases hhigh : (getSpecialOffset p).toNat ≤ 4096
      · exact .inr (.inr (.inl ⟨by omega,hhigh⟩))
      · exact .inr (.inr (.inr (UInt16.lt_iff_toNat_lt.mpr (Nat.lt_of_not_le hhigh))))

theorem answers_agree {x : Exec Bool} {y : Exec (Option PageID)} {s : Option PageID}
    (hx : x = .ok s.isSome) (hy : y = .ok s) (present : Bool) :
    x = .ok present ↔ ∃ s, y = .ok s ∧ s.isSome = present := by
  subst hx hy
  constructor
  · intro h
    cases h
    exact ⟨s,rfl,rfl⟩
  · rintro ⟨s',hs,rfl⟩
    cases hs
    rfl

theorem faults_agree {x : Exec Bool} {y : Exec (Option PageID)} {e e' : Fault}
    (hx : x = .error e) (hy : y = .error e') (present : Bool) :
    x = .ok present ↔ ∃ s, y = .ok s ∧ s.isSome = present := by
  subst hx hy
  constructor
  · intro h
    cases h
  · rintro ⟨s,hs,-⟩
    cases hs

theorem beyondPage_ne (b : Build) : beyondPage b ≠ .panic .sliceIndex ∧
    beyondPage b ≠ .undefinedBehaviour := by
  cases b <;> decide

/-- `has_right_sibling` answers exactly where `get_right_sibling` does and as it
does; where the special area is too short for the field the one panics, and the
other makes its only undefined read. -/
theorem sibling_readers_agree (b : Build) (p : RawPage) :
    (∀ present, IndexPageRef.hasRightSibling b p = .ok present ↔
      ∃ s, IndexPageRef.getRightSibling b p = .ok s ∧ s.isSome = present) ∧
    (IndexPageRef.getRightSibling b p = .error .undefinedBehaviour ↔
      4080 < (getSpecialOffset p).toNat ∧ (getSpecialOffset p).toNat ≤ 4096) ∧
    (IndexPageRef.hasRightSibling b p = .error (.panic .sliceIndex) ↔
      4080 < (getSpecialOffset p).toNat ∧ (getSpecialOffset p).toNat ≤ 4096) := by
  rcases special_cases p with hz | hin | hshort | hbeyond
  · obtain ⟨hhas,hget⟩ := sibling_zero b hz
    refine ⟨answers_agree (s := none) hhas hget,?_,?_⟩
    · rw [hget,hz]
      simp
    · rw [hhas,hz]
      simp
  · have hfits := hin.fits
    refine ⟨answers_agree (hin.has_eq b) (hin.get_eq b),?_,?_⟩
    · rw [hin.get_eq b]
      exact iff_of_false (fun h => by cases h) (by omega)
    · rw [hin.has_eq b]
      exact iff_of_false (fun h => by cases h) (by omega)
  · obtain ⟨hhas,hget⟩ := sibling_short b hshort.1 hshort.2
    exact ⟨faults_agree hhas hget,⟨fun _ => hshort,fun _ => hget⟩,fun _ => hshort,fun _ => hhas⟩
  · obtain ⟨hhas,hget⟩ := sibling_beyond b hbeyond
    have hhigh : 4096 < (getSpecialOffset p).toNat := hbeyond
    obtain ⟨hslice,hundef⟩ := beyondPage_ne b
    refine ⟨faults_agree hhas hget,?_,?_⟩
    · rw [hget]
      exact iff_of_false (fun h => hundef (Except.error.inj h)) (by omega)
    · rw [hhas]
      exact iff_of_false (fun h => hslice (Except.error.inj h)) (by omega)

end Sibling

/-! Runs -/

section Runs
variable {b : Build} {p : RawPage}

def CellOp.addEntry : CellOp → SlotEntry → Prog RawPage PageError Unit
  | .append _, se => SlottedPageMut.appendSlotEntry se.length se.offset
  | .insertAt index _, se => SlottedPageMut.insertSlotEntryAtIndex index se

theorem CellOp.exec_eq (op : CellOp) :
    op.exec = SlottedPageMut.addCellWith op.addEntry op.cell := by
  cases op with
  | append cell => rfl
  | insertAt index cell => rfl

theorem CellOp.sound (op : CellOp) {v : UInt16} :
    Prog.Sound b (Ordered v) op.exec (Ordered v) := by
  rw [op.exec_eq]
  refine addCellWith_sound op.cell fun fe e => ?_
  cases op with
  | append cell => exact appendSlotEntry_sound _ _
  | insertAt index cell => exact insertSlotEntryAtIndex_sound index e

theorem CellOp.no_room (op : CellOp) (hmid : freeStart p ≤ freeEnd p)
    (hfull : freeEnd p < freeStart p+4) :
    op.exec.run b p = .ok (.error .noContigiousSpace,p) := by
  rw [op.exec_eq]
  simp only [SlottedPageMut.addCellWith,Prog.reads_bind]
  rw [Prog.call_bind (usizeSub_of_le b hmid),
    if_pos (show op.cell.length+entrySize > freeEnd p-freeStart p by simp only [entrySize]; omega)]
  rfl

/-- A release build takes a wrapped difference for room. -/
theorem release_room (h : freeStart p+4 ≤ freeEnd p ∨ freeEnd p < freeStart p) :
    ∃ room, usizeSub .release (freeEnd p) (freeStart p) = .ok room ∧ 4 ≤ room := by
  have hs := le_two_lt p 12
  have hfs : freeStart p < 65536 := hs
  rcases h with h | h
  · exact ⟨_,usizeSub_of_le _ (by omega),by omega⟩
  · exact ⟨_,usizeSub_of_lt _ h,by omega⟩

theorem incrementFreeStart_release (h : 24 ≤ freeStart p) :
    (SlottedPageMut.incrementFreeStart 4).run .release p =
      .ok (.ok (freeStart p+4),withFreeStart (freeStart p+4) p) := by
  simp only [SlottedPageMut.incrementFreeStart,Prog.reads_bind]
  rw [Prog.call_bind (debugAssert_release _),Prog.call_bind (debugAssert_release _),
    if_neg (show ¬ freeStart p+4 < headerSize by rw [headerSize_eq]; omega)]
  rfl

section Empty
variable (hl : 24 ≤ freeStart p) (hroom : freeStart p+4 ≤ freeEnd p ∨ freeEnd p < freeStart p)
include hroom

theorem append_empty :
    (CellOp.append []).exec.run .release p =
      (do
        SlottedPageMut.appendSlotEntry 0 (UInt16.ofNat (freeEnd p))
        Prog.poke (fun q => q.store (freeEnd p) [])
        SlottedPageMut.setFreeEnd (freeEnd p)).run .release p := by
  obtain ⟨room,hsub,hfour⟩ := release_room hroom
  have hfe : freeEnd p < 65536 := le_two_lt p 14
  have hfits : ¬ (CellOp.append []).cell.length+entrySize > room :=
    Nat.not_lt.mpr (show 0+4 ≤ room by omega)
  rw [CellOp.exec_eq]
  simp only [SlottedPageMut.addCellWith,Prog.reads_bind]
  rw [Prog.call_bind hsub,if_neg hfits,
    Prog.call_bind (usizeSub_of_le _ (Nat.zero_le _)),
    Prog.call_bind (assert_of (Nat.zero_le _)),
    Prog.call_bind (assert_of (show freeEnd p-0 ≤ 65535 by omega))]
  rfl

theorem appendSlotEntry_release (size offset : UInt16) :
    (SlottedPageMut.appendSlotEntry size offset).run .release p =
      (do
        Prog.poke (fun q => q.store (freeStart p) (u16ToLeBytes offset))
        Prog.poke (fun q => q.store (freeStart p+2) (u16ToLeBytes size))
        let _ ← SlottedPageMut.incrementFreeStart 4
        pure () : Prog RawPage PageError Unit).run .release p := by
  obtain ⟨room,hsub,hfour⟩ := release_room hroom
  simp only [SlottedPageMut.appendSlotEntry,Prog.reads_bind]
  rw [Prog.call_bind hsub,if_neg (show ¬ room < entrySize by simp only [entrySize]; omega)]

theorem appendSlotEntry_out (hout : 4096 < freeStart p+4) (size offset : UInt16) :
    (SlottedPageMut.appendSlotEntry size offset).run .release p =
      .error .undefinedBehaviour := by
  rw [appendSlotEntry_release hroom]
  by_cases htwo : freeStart p+2 ≤ 4096
  · rw [Prog.poke_bind (Buf.store_ok p (by simpa using htwo))]
    exact Prog.poke_bind_fault (Buf.store_out _ (by simp; omega)) _
  · exact Prog.poke_bind_fault (Buf.store_out _ (by simpa using htwo)) _

include hl

theorem appendSlotEntry_in (hin : freeStart p+4 ≤ 4096) (size offset : UInt16) :
    ∃ q, (SlottedPageMut.appendSlotEntry size offset).run .release p = .ok (.ok (),q) ∧
      freeStart q = freeStart p+4 ∧ freeEnd q = freeEnd p := by
  let q := (p.write (freeStart p) (u16ToLeBytes offset)).write (freeStart p+2) (u16ToLeBytes size)
  have hs : freeStart q = freeStart p := by
    rw [freeStart_write _ _ (by omega),freeStart_write _ _ (by omega)]
  have he : freeEnd q = freeEnd p := by
    rw [freeEnd_write _ _ (by omega),freeEnd_write _ _ (by omega)]
  refine ⟨withFreeStart (freeStart p+4) q,?_,freeStart_withFreeStart _ (by omega),?_⟩
  · rw [appendSlotEntry_release hroom,Prog.poke_bind (Buf.store_ok p (by simp; omega)),
      Prog.poke_bind (Buf.store_ok _ (by simp; omega)),
      Prog.bind_ok (incrementFreeStart_release (show 24 ≤ freeStart q by omega)),hs]
    rfl
  · exact (@Buf.le_write_disjoint _ q 12 14 2 _ (by simp)).trans he

theorem append_empty_out (hout : 4096 < freeStart p+4 ∨ 4096 < freeEnd p) :
    (CellOp.append []).exec.run .release p = .error .undefinedBehaviour := by
  rw [append_empty hroom]
  by_cases hin : freeStart p+4 ≤ 4096
  · obtain ⟨q,hrun,-,-⟩ := appendSlotEntry_in hl hroom hin 0 (UInt16.ofNat (freeEnd p))
    rw [Prog.bind_ok hrun]
    exact Prog.poke_bind_fault (Buf.store_out q (by simp; omega)) _
  · exact Prog.bind_fault (appendSlotEntry_out hroom (by omega) _ _) _

theorem append_empty_crossed (hcross : freeEnd p < freeStart p) (hin : freeStart p+4 ≤ 4096) :
    ∃ q, (CellOp.append []).exec.run .release p = .ok (.error .invalidFreeEnd,q) ∧
      freeStart q = freeStart p+4 ∧ freeEnd q = freeEnd p := by
  obtain ⟨q,hrun,hs,he⟩ := appendSlotEntry_in hl hroom hin 0 (UInt16.ofNat (freeEnd p))
  have hq : q.write (freeEnd p) [] = q := by
    funext i
    simp [Buf.write]
  refine ⟨q,?_,hs,he⟩
  rw [append_empty hroom,Prog.bind_ok hrun,Prog.poke_bind (Buf.store_ok q (by simp; omega)),hq]
  simp only [SlottedPageMut.setFreeEnd,SlottedPageMut.freeStart]
  rw [Prog.call_bind (debugAssert_release _),Prog.reads_bind,if_pos (.inl (by omega))]
  rfl

end Empty

/-- Empty cells push crossed bounds out of the page, one entry each. -/
theorem crossed_run_undefined (k : Nat) (hl : 24 ≤ freeStart p) (hcross : freeEnd p < freeStart p)
    (hk : 4092 < freeStart p+4*k) :
    Prog.runAll ((List.replicate (k+1) (CellOp.append [])).map CellOp.exec) .release p =
      .error .undefinedBehaviour := by
  induction k generalizing p with
  | zero => exact Prog.runAll_fault (append_empty_out hl (.inr hcross) (.inl (by omega))) _
  | succ k ih =>
    rw [List.replicate_succ,List.map_cons]
    by_cases hin : freeStart p+4 ≤ 4096
    · obtain ⟨q,hrun,hs,he⟩ := append_empty_crossed hl (.inr hcross) hcross hin
      exact Prog.runAll_fault_later hrun (ih (by omega) (by omega) (by omega))
    · exact Prog.runAll_fault (append_empty_out hl (.inr hcross) (.inl (by omega))) _

/-- What the safety of insertions rests on: from here on no build and no run may
store outside the page just when the bounds are in order, and inside the page
unless there is no room for an entry between them. -/
theorem insertions_defined_iff (p : RawPage) (h : 24 ≤ freeStart p) :
    (∀ (b : Build) (ops : List CellOp), (Prog.runAll (ops.map CellOp.exec) b p).Defined) ↔
      freeStart p ≤ freeEnd p ∧ (freeEnd p < freeStart p+4 ∨ freeEnd p ≤ 4096) := by
  constructor
  · intro hdef
    by_contra hbad
    by_cases hcross : freeEnd p < freeStart p
    · exact hdef _ _ (crossed_run_undefined 4096 h hcross (by omega))
    · have hout := append_empty_out h (.inl (by omega)) (.inr (by omega))
      exact hdef .release [.append []] (Prog.runAll_fault hout _)
  · rintro ⟨hmid,hfull | hhigh⟩ b ops
    · refine Prog.sound_runAll (I := fun q => q = p) (fun op q hq => ?_) ops rfl
      subst hq
      rw [op.no_room hmid hfull]
      refine ⟨Exec.defined_ok _,fun r q' hrun => ?_⟩
      cases hrun
      rfl
    · exact Prog.sound_runAll (fun op => op.sound) ops
        (show Ordered (getSpecialOffset p) p from ⟨h,hmid,hhigh,rfl⟩)

def crossedPage : RawPage := (Buf.fill 4096 0).write 12 [40,0,30,0]

theorem insertions_defined_crossed :
    24 ≤ freeStart crossedPage ∧
      ¬ ∀ (b : Build) (ops : List CellOp),
        (Prog.runAll (ops.map CellOp.exec) b crossedPage).Defined := by
  have hlow : 24 ≤ freeStart crossedPage := by decide
  refine ⟨hlow,fun hdef => ?_⟩
  have hmid := ((insertions_defined_iff crossedPage hlow).mp hdef).1
  revert hmid
  decide

/-- The run gets to a search of a release build, on a page where the search comes
to a cell that announces a key beyond the page. -/
def ReachesLyingKey (b : Build) (calls : List Call) (p : RawPage) : Prop :=
  ∃ before key after p', calls = before ++ .findChildPtr key :: after ∧
    (observe b before p).2 = .ok p' ∧ b = .release ∧ ¬ KeysEndInPage p' key

theorem observe_cons_ok {c : Call} {a : Answer} {p' : RawPage} (h : c.exec b p = .ok (a,p'))
    (calls : List Call) : (observe b (c :: calls) p).2 = (observe b calls p').2 := by
  simp only [observe,h]

theorem observe_cons_error {c : Call} {x : Fault} (h : c.exec b p = .error x)
    (calls : List Call) : (observe b (c :: calls) p).2 = .error x := by
  simp only [observe,h]

theorem observe_append (calls rest : List Call) {p' : RawPage}
    (h : (observe b calls p).2 = .ok p') :
    (observe b (calls ++ rest) p).2 = (observe b rest p').2 := by
  induction calls generalizing p with
  | nil =>
    cases h
    rfl
  | cons c calls ih =>
    rcases hc : c.exec b p with x | ⟨a,p₁⟩
    · rw [observe_cons_error hc] at h
      cases h
    · rw [observe_cons_ok hc] at h
      rw [List.cons_append,observe_cons_ok hc]
      exact ih h

theorem ReachesLyingKey.undefined {calls : List Call} (h : ReachesLyingKey b calls p) :
    (observe b calls p).2 = .error .undefinedBehaviour := by
  obtain ⟨before,key,after,p',rfl,hbefore,rfl,hlying⟩ := h
  have hsearch : IndexPageRef.findChildPtr .release p' key = .error .undefinedBehaviour :=
    Decidable.not_not.mp (mt (findChildPtr_defined_iff p' key).mp hlying)
  rw [observe_append before _ hbefore]
  refine observe_cons_error ?_ after
  rw [Call.exec,hsearch]
  rfl

end Runs

end InkDB
