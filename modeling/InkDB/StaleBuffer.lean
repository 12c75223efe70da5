import InkDB.IndexPage
import InkDB.PageLayout

/-!
What a page shows of the bytes its buffer held before `init_new`. Calls are
observed through their answers and through the fault that may end a run.
-/

set_option autoImplicit false

namespace InkDB
open SlottedPageRef

inductive Call where
  | append (cell : List UInt8)
  | insertAt (index : Nat) (cell : List UInt8)
  | setRightSibling (pageId : PageID)
  | hasRightSibling
  | getSpecialRef
  | getFlags
  | getLsn
  | cellSliceFromId (slotId : SlotID)
  | findChildPtr (key : Key)
  deriving DecidableEq, Repr

/-- What a caller sees; a slice is seen through its bytes. -/
inductive Answer where
  | done (r : Except PageError Unit)
  | flag (r : Bool)
  | slice (r : Except PageError (List UInt8))
  | flags (r : UInt8)
  | lsn (r : UInt64)
  | child (r : Except IndexPageError (Option PageID))

def sliceBytes (r : Except PageError (Slice 4096)) : Except PageError (List UInt8) :=
  r.map Slice.bytes

namespace Call

def exec (b : Build) (p : RawPage) : Call → Exec (Answer × RawPage)
  | .append cell =>
      ((SlottedPageMut.addCellAppendSlotEntry cell).run b p).map (fun r => (.done r.1,r.2))
  | .insertAt index cell =>
      ((SlottedPageMut.addCellAtSlotEntryIndex index cell).run b p).map (fun r => (.done r.1,r.2))
  | .setRightSibling pageId =>
      ((IndexPageMut.setRightSibling pageId).run b p).map (fun r => (.done r.1,r.2))
  | .hasRightSibling => (IndexPageRef.hasRightSibling b p).map (fun r => (.flag r,p))
  | .getSpecialRef =>
      ((SlottedPageRef.getSpecialRef b p).map sliceBytes).map (fun r => (.slice r,p))
  | .getFlags => .ok (.flags (SlottedPageRef.getFlags p),p)
  | .getLsn => .ok (.lsn (SlottedPageRef.getLsn p),p)
  | .cellSliceFromId slotId =>
      ((SlottedPageRef.cellSliceFromId p slotId).map sliceBytes).map (fun r => (.slice r,p))
  | .findChildPtr key => (IndexPageRef.findChildPtr b p key).map (fun r => (.child r,p))

end Call

/-- The answers of a run and the page it ends in; a fault ends it early. -/
def observe (b : Build) : List Call → RawPage → List Answer × Exec RawPage
  | [], p => ([],.ok p)
  | c :: cs, p =>
      match c.exec b p with
      | .error x => ([],.error x)
      | .ok (a,p) => (a :: (observe b cs p).1,(observe b cs p).2)

/-- The same answers, and both complete or both end in the same fault. -/
def SameOutcome (o₁ o₂ : List Answer × Exec RawPage) : Prop :=
  o₁.1 = o₂.1 ∧ o₁.2.map (fun _ => ()) = o₂.2.map (fun _ => ())

/-- No stored cell shares a byte with the special area. -/
def NoOverlap (b : Build) (p : RawPage) : Prop :=
  ∀ special dir es, getSpecialRef b p = .ok (.ok special) → slotDirRef p = .ok dir →
    dir.iter.collect p = .ok es → ∀ e ∈ es, ∀ z, e.Covers z →
      ¬ (special.start ≤ z ∧ z < special.start+special.len)

/-- `init_new` forgets which of two buffers it was given. -/
def Forgets (pageType : UInt8) (buf₁ buf₂ : RawPage) : Prop :=
  ∀ b calls,
    SameOutcome (observe b calls (SlottedPageMut.initNew buf₁ pageType))
      (observe b calls (SlottedPageMut.initNew buf₂ pageType)) ∧
    (∀ p, (observe b calls (SlottedPageMut.initNew buf₁ pageType)).2 = .ok p → NoOverlap b p) ∧
    (∀ p, (observe b calls (SlottedPageMut.initNew buf₂ pageType)).2 = .ok p → NoOverlap b p)

/-- Both special offsets are read as no area, as an empty area or as a panic. -/
def SameSpecial (o₁ o₂ : UInt16) : Prop :=
  o₁ = 0 ∧ o₂ = 0 ∨ o₁ = 4096 ∧ o₂ = 4096 ∨ 4096 < o₁ ∧ 4096 < o₂

/-- The leftovers of two buffers that `init_new` does not overwrite. -/
structure SameLeftovers (p₁ p₂ : RawPage) : Prop where
  lsn : getLsn p₁ = getLsn p₂
  flags : getFlags p₁ = getFlags p₂
  special : SameSpecial (getSpecialOffset p₁) (getSpecialOffset p₂)

/-! Reading the special area -/

/-- How an offset beyond the page fails: on the subtraction, or on the assertion
after it wrapped. -/
def beyondPage : Build → Fault
  | .debug => .panic .overflow
  | .release => .panic .assertion

section Special
variable {p : RawPage} (b : Build)

theorem getSpecialRef_zero (h : getSpecialOffset p = 0) :
    getSpecialRef b p = .ok (.error .specialOffsetIsZero) := by
  simp only [getSpecialRef,h]
  rfl

theorem getSpecialRef_inside (h : getSpecialOffset p ≠ 0) (hle : getSpecialOffset p ≤ 4096) :
    ∃ hb, getSpecialRef b p =
      .ok (.ok ⟨p,(getSpecialOffset p).toNat,4096-(getSpecialOffset p).toNat,hb⟩) := by
  have hn : (getSpecialOffset p).toNat ≠ 0 := fun hz => h (UInt16.toNat.inj hz)
  have hl : (getSpecialOffset p).toNat ≤ 4096 := hle
  refine ⟨by omega,?_⟩
  simp only [getSpecialRef]
  rw [if_neg hn,usizeSub_of_le b hl,Exec.ok_bind,assert_of (Nat.sub_le _ _),Exec.ok_bind,
    Buf.index_ok p (by omega),Exec.ok_bind]
  simp only [Nat.add_sub_cancel_left]
  rfl

theorem getSpecialRef_top (h : getSpecialOffset p = 4096) :
    getSpecialRef b p = .ok (.ok ⟨p,4096,0,by omega⟩) := by
  obtain ⟨hb,hs⟩ := getSpecialRef_inside b (show getSpecialOffset p ≠ 0 by rw [h]; decide)
    (show getSpecialOffset p ≤ 4096 by rw [h]; decide)
  rw [hs]
  simp only [h]
  rfl

theorem getSpecialRef_beyond (h : 4096 < getSpecialOffset p) :
    getSpecialRef b p = .error (beyondPage b) := by
  have hl : 4096 < (getSpecialOffset p).toNat := h
  have hu := (getSpecialOffset p).toNat_lt
  simp only [getSpecialRef]
  rw [if_neg (by omega),usizeSub_of_lt b hl]
  cases b with
  | debug => rfl
  | release =>
    rw [Exec.ok_bind,assert_of_not (by simp only [pageSize]; omega)]
    rfl

theorem hasRightSibling_zero (h : getSpecialOffset p = 0) :
    IndexPageMut.hasRightSibling b p = .ok false := by
  rw [IndexPageMut.hasRightSibling,SlottedPageMut.getSpecialRef,getSpecialRef_zero b h]
  rfl

theorem hasRightSibling_top (h : getSpecialOffset p = 4096) :
    IndexPageMut.hasRightSibling b p = .error (.panic .sliceIndex) := by
  rw [IndexPageMut.hasRightSibling,SlottedPageMut.getSpecialRef,getSpecialRef_top b h]
  rfl

theorem hasRightSibling_beyond (h : 4096 < getSpecialOffset p) :
    IndexPageMut.hasRightSibling b p = .error (beyondPage b) := by
  rw [IndexPageMut.hasRightSibling,SlottedPageMut.getSpecialRef,getSpecialRef_beyond b h]
  rfl

theorem setRightSibling_zero {ε : Type} (h : getSpecialOffset p = 0) (id : PageID) :
    (IndexPageMut.setRightSibling id : Prog RawPage ε Unit).run b p = .ok (.ok (),p) := by
  rw [IndexPageMut.setRightSibling,Prog.get_bind,Prog.call_bind (getSpecialRef_zero b h)]
  rfl

theorem setRightSibling_top {ε : Type} (h : getSpecialOffset p = 4096) (id : PageID) :
    (IndexPageMut.setRightSibling id : Prog RawPage ε Unit).run b p =
      .error (.panic .sliceIndex) := by
  rw [IndexPageMut.setRightSibling,Prog.get_bind,Prog.call_bind (getSpecialRef_top b h)]
  exact Prog.call_bind_fault rfl _ p

theorem setRightSibling_beyond {ε : Type} (h : 4096 < getSpecialOffset p) (id : PageID) :
    (IndexPageMut.setRightSibling id : Prog RawPage ε Unit).run b p = .error (beyondPage b) := by
  rw [IndexPageMut.setRightSibling,Prog.get_bind]
  exact Prog.call_bind_fault (getSpecialRef_beyond b h) _ p

end Special

/-! Reading cells -/

section Cells
variable {p₁ p₂ : RawPage} (b : Build) (key : Key)

theorem getKey_congr {o len : Nat} (hb : o+len ≤ 4096) (ht : 10 ≤ len)
    (h : ∀ i, o ≤ i → p₁.get i = p₂.get i) :
    ((IndexCell.mk ⟨p₁,o,len,hb⟩ ht).getKey b).map Slice.bytes =
        ((IndexCell.mk ⟨p₂,o,len,hb⟩ ht).getKey b).map Slice.bytes ∧
      (IndexCell.mk ⟨p₁,o,len,hb⟩ ht).getValuePtr =
        (IndexCell.mk ⟨p₂,o,len,hb⟩ ht).getValuePtr := by
  have hread : ∀ o' k, o ≤ o' → p₁.read o' k = p₂.read o' k := fun o' k ho =>
    Buf.read_congr (fun i hi _ => h i (by omega))
  constructor
  · simp only [IndexCell.getKey,keyLenOffset,keyDataOffset]
    rw [readU16LeUnsafe_ok p₁ (by omega),readU16LeUnsafe_ok p₂ (by omega),
      Buf.le_congr (hread (o+8) 2 (by omega))]
    generalize UInt16.ofNat (p₂.le (o+8) 2) = keyLen
    simp only [Exec.ok_bind]
    cases debugAssert b (10+keyLen.toNat ≤ len) with
    | error x => rfl
    | ok _ =>
      by_cases hk : o+10+keyLen.toNat ≤ 4096
      · simp only [Exec.ok_bind,Buf.fromRawParts_ok _ hk,Except.map,Slice.bytes]
        rw [hread (o+10) _ (by omega)]
      · simp only [Exec.ok_bind,Buf.fromRawParts,dif_neg hk]
  · simp only [IndexCell.getValuePtr,childPtrOffset]
    rw [readU64LeUnsafe_ok p₁ (by omega),readU64LeUnsafe_ok p₂ (by omega),
      Buf.le_congr (hread (o+0) 8 (by omega))]

theorem findChildStep_congr {e : SlotEntry}
    (h : ∀ i, e.offset.toNat ≤ i → p₁.get i = p₂.get i) :
    IndexPageRef.findChildStep b p₁ key e = IndexPageRef.findChildStep b p₂ key e := by
  simp only [IndexPageRef.findChildStep,cellSliceFromEntry]
  cases debugAssert b (e.offset.toNat+e.length.toNat < pageSize) with
  | error x => rfl
  | ok _ =>
    by_cases hb : e.offset.toNat+e.length.toNat ≤ 4096
    · simp only [Exec.ok_bind,Buf.index_ok _ ⟨Nat.le_add_right e.offset.toNat e.length.toNat,hb⟩,
        Nat.add_sub_cancel_left]
      by_cases ht : 10 ≤ e.length.toNat
      · obtain ⟨hkey,hchild⟩ := getKey_congr b hb ht h
        rw [IndexCell.fromSlice_ok ht,IndexCell.fromSlice_ok ht,Exec.ok_bind,Exec.ok_bind,hchild]
        exact Exec.bind_congr_map hkey (fun cellKey => if key < cellKey then do
            let child ← (IndexCell.mk ⟨p₂,e.offset.toNat,e.length.toNat,hb⟩ ht).getValuePtr
            pure (some child)
          else pure none)
      · rw [IndexCell.fromSlice_short ht,IndexCell.fromSlice_short ht]
    · simp only [Buf.index,hb,and_false,dif_neg,not_false_eq_true]

end Cells

def Layout.cellBytes {top : Nat} (l : Layout top) (slotId : SlotID) :
    Except PageError (List UInt8) :=
  if l.slots.length = 0 then .error .emptySlotDir
  else
    match l.slots[slotId.val.toNat]? with
    | none => .error .slotIDOutOfBounds
    | some x => .ok x.2

namespace Represents
variable {top : Nat} {l : Layout top} {p : RawPage} (hr : Represents l p)
include hr

theorem cellSliceFromId_bytes (slotId : SlotID) :
    (cellSliceFromId p slotId).map sliceBytes = .ok (l.cellBytes slotId) := by
  have hok := hr.headerOk
  have hn := hr.dirCount_eq
  rw [Layout.cellBytes]
  by_cases hz : l.slots.length = 0
  · rw [cellSliceFromId_empty hok.low (hn.trans hz),if_pos hz]
    rfl
  · rw [if_neg hz]
    by_cases hi : slotId.val.toNat < l.slots.length
    · obtain ⟨hb,hcell⟩ := hr.cellSliceFromId_slot hi
      rw [UInt16.ofNat_toNat] at hcell
      rw [hcell,List.getElem?_eq_getElem hi]
      exact congrArg (fun x => Except.ok (Except.ok x)) (hr.read_slot (List.getElem_mem hi))
    · rw [cellSliceFromId_out hok.low (by omega) (by omega),List.getElem?_eq_none (by omega)]
      rfl

theorem findChildFrom_zero (b : Build) (key : Key) :
    IndexPageRef.findChildFrom b p key 0 =
      (firstSome (IndexPageRef.findChildStep b p key) (l.slots.map slotEntry)).map .ok := by
  have hok := hr.headerOk
  rw [IndexPageRef.findChildFrom,slotDirRef_eq hok.low,Exec.ok_bind,skip_iter hok (Nat.zero_le _),
    Exec.ok_bind,forIn_from hok,hr.dirCount_eq,hr.directory,List.drop_zero]
  rfl

end Represents

/-! Two pages side by side -/

/-- Two pages with one layout and the same leftovers. -/
structure Twins (p₁ p₂ : RawPage) : Prop where
  layout : ∃ l : Layout 4096, Represents l p₁ ∧ Represents l p₂
  leftovers : SameLeftovers p₁ p₂

/-- Both calls fault alike, or answer alike and leave twins behind. -/
def AgreeOn (o₁ o₂ : Exec (Answer × RawPage)) : Prop :=
  (∃ x, o₁ = .error x ∧ o₂ = .error x) ∨
    ∃ a p₁ p₂, o₁ = .ok (a,p₁) ∧ o₂ = .ok (a,p₂) ∧ Twins p₁ p₂

section Agree
variable {l : Layout 4096} {p₁ p₂ : RawPage}

theorem SameLeftovers.of_preserves {q₁ q₂ : RawPage} (h : SameLeftovers p₁ p₂)
    (h₁ : Preserves 4096 p₁ q₁) (h₂ : Preserves 4096 p₂ q₂) : SameLeftovers q₁ q₂ := by
  have hspecial : ∀ {p q : RawPage}, Preserves 4096 p q → getSpecialOffset q = getSpecialOffset p :=
    fun hp => getSpecialOffset_congr (fun i _ _ => hp i (by omega))
  refine ⟨?_,?_,?_⟩
  · rw [getLsn_congr (fun i _ => h₁ i (by omega)),getLsn_congr (fun i _ => h₂ i (by omega)),h.lsn]
  · exact ((h₁ 11 (by omega)).trans h.flags).trans (h₂ 11 (by omega)).symm
  · rw [hspecial h₁,hspecial h₂]
    exact h.special

theorem get_of_represents (h₁ : Represents l p₁) (h₂ : Represents l p₂) {i : Nat}
    (hi : l.freeEnd ≤ i) : p₁.get i = p₂.get i := by
  have hadd := l.freeEnd_add
  by_cases hn : i < 4096
  · exact Buf.get_of_read (h₁.cells.trans h₂.cells.symm) hi (by omega)
  · simp [Buf.get,hn]

theorem Twins.cellOp (ht : Twins p₁ p₂) (b : Build) (op : CellOp) :
    AgreeOn ((op.exec.run b p₁).map (fun r => (.done r.1,r.2)))
      ((op.exec.run b p₂).map (fun r => (.done r.1,r.2))) := by
  obtain ⟨l,h₁,h₂⟩ := ht.layout
  obtain ⟨q₁,hrun₁,hr₁,hp₁⟩ := op.simulates b h₁
  obtain ⟨q₂,hrun₂,hr₂,hp₂⟩ := op.simulates b h₂
  refine .inr ⟨.done (op.step l).1,q₁,q₂,?_,?_,⟨_,hr₁,hr₂⟩,ht.leftovers.of_preserves hp₁ hp₂⟩
  · rw [hrun₁]; rfl
  · rw [hrun₂]; rfl

theorem Twins.read {γ : Type} (ht : Twins p₁ p₂) {x y : Exec γ} (h : x = y) (f : γ → Answer) :
    AgreeOn (x.map (fun r => (f r,p₁))) (y.map (fun r => (f r,p₂))) := by
  subst h
  cases x with
  | error e => exact .inl ⟨e,rfl,rfl⟩
  | ok r => exact .inr ⟨f r,p₁,p₂,rfl,rfl,ht⟩

section Special
variable (h : SameLeftovers p₁ p₂) (b : Build)
include h

theorem SameLeftovers.getSpecialRef_eq :
    (getSpecialRef b p₁).map sliceBytes = (getSpecialRef b p₂).map sliceBytes := by
  rcases h.special with ⟨h₁,h₂⟩ | ⟨h₁,h₂⟩ | ⟨h₁,h₂⟩
  · rw [getSpecialRef_zero b h₁,getSpecialRef_zero b h₂]
  · rw [getSpecialRef_top b h₁,getSpecialRef_top b h₂]
    rfl
  · rw [getSpecialRef_beyond b h₁,getSpecialRef_beyond b h₂]

theorem SameLeftovers.hasRightSibling_eq :
    IndexPageMut.hasRightSibling b p₁ = IndexPageMut.hasRightSibling b p₂ := by
  rcases h.special with ⟨h₁,h₂⟩ | ⟨h₁,h₂⟩ | ⟨h₁,h₂⟩
  · rw [hasRightSibling_zero b h₁,hasRightSibling_zero b h₂]
  · rw [hasRightSibling_top b h₁,hasRightSibling_top b h₂]
  · rw [hasRightSibling_beyond b h₁,hasRightSibling_beyond b h₂]

end Special

theorem Twins.setRightSibling (ht : Twins p₁ p₂) (b : Build) (id : PageID) :
    AgreeOn (Call.exec b p₁ (.setRightSibling id)) (Call.exec b p₂ (.setRightSibling id)) := by
  simp only [Call.exec]
  rcases ht.leftovers.special with ⟨h₁,h₂⟩ | ⟨h₁,h₂⟩ | ⟨h₁,h₂⟩
  · rw [setRightSibling_zero b h₁,setRightSibling_zero b h₂]
    exact .inr ⟨_,p₁,p₂,rfl,rfl,ht⟩
  · rw [setRightSibling_top b h₁,setRightSibling_top b h₂]
    exact .inl ⟨_,rfl,rfl⟩
  · rw [setRightSibling_beyond b h₁,setRightSibling_beyond b h₂]
    exact .inl ⟨_,rfl,rfl⟩

theorem Twins.findChildPtr_eq (ht : Twins p₁ p₂) (b : Build) (key : Key) :
    IndexPageRef.findChildPtr b p₁ key = IndexPageRef.findChildPtr b p₂ key := by
  obtain ⟨l,hr₁,hr₂⟩ := ht.layout
  simp only [IndexPageRef.findChildPtr,IndexPageRef.hasRightSibling]
  rcases ht.leftovers.special with ⟨h₁,h₂⟩ | ⟨h₁,h₂⟩ | ⟨h₁,h₂⟩
  · rw [hasRightSibling_zero b h₁,hasRightSibling_zero b h₂]
    show IndexPageRef.findChildFrom b p₁ key 0 = IndexPageRef.findChildFrom b p₂ key 0
    rw [hr₁.findChildFrom_zero,hr₂.findChildFrom_zero]
    congr 1
    apply firstSome_congr
    intro e he
    obtain ⟨x,hx,rfl⟩ := List.mem_map.mp he
    apply findChildStep_congr
    intro i hi
    rw [hr₁.slotEntry_offset hx] at hi
    exact get_of_represents hr₁ hr₂ (Nat.le_trans (l.slot_bounds hx).1 hi)
  · rw [hasRightSibling_top b h₁,hasRightSibling_top b h₂]; rfl
  · rw [hasRightSibling_beyond b h₁,hasRightSibling_beyond b h₂]; rfl

theorem Twins.call (ht : Twins p₁ p₂) (b : Build) (c : Call) :
    AgreeOn (c.exec b p₁) (c.exec b p₂) := by
  cases c with
  | append cell => exact ht.cellOp b (.append cell)
  | insertAt index cell => exact ht.cellOp b (.insertAt index cell)
  | setRightSibling id => exact ht.setRightSibling b id
  | hasRightSibling => exact ht.read (ht.leftovers.hasRightSibling_eq b) _
  | getSpecialRef => exact ht.read (ht.leftovers.getSpecialRef_eq b) _
  | getFlags => exact .inr ⟨_,p₁,p₂,rfl,by rw [Call.exec,ht.leftovers.flags],ht⟩
  | getLsn => exact .inr ⟨_,p₁,p₂,rfl,by rw [Call.exec,ht.leftovers.lsn],ht⟩
  | cellSliceFromId slotId =>
    obtain ⟨l,h₁,h₂⟩ := ht.layout
    exact ht.read ((h₁.cellSliceFromId_bytes slotId).trans (h₂.cellSliceFromId_bytes slotId).symm) _
  | findChildPtr key => exact ht.read (ht.findChildPtr_eq b key) _

theorem Twins.observe (ht : Twins p₁ p₂) (b : Build) (calls : List Call) :
    SameOutcome (InkDB.observe b calls p₁) (InkDB.observe b calls p₂) ∧
      (∀ q, (InkDB.observe b calls p₁).2 = .ok q → ∃ q', Twins q q') ∧
      (∀ q, (InkDB.observe b calls p₂).2 = .ok q → ∃ q', Twins q' q) := by
  induction calls generalizing p₁ p₂ with
  | nil =>
    refine ⟨⟨rfl,rfl⟩,?_,?_⟩
    · rintro q ⟨⟩
      exact ⟨p₂,ht⟩
    · rintro q ⟨⟩
      exact ⟨p₁,ht⟩
  | cons c cs ih =>
    rcases ht.call b c with ⟨x,h₁,h₂⟩ | ⟨a,q₁,q₂,h₁,h₂,ht'⟩
    · simp only [InkDB.observe,h₁,h₂]
      exact ⟨⟨rfl,rfl⟩,fun _ hq => (by cases hq),fun _ hq => (by cases hq)⟩
    · obtain ⟨⟨ha,hf⟩,hq₁,hq₂⟩ := ih ht'
      simp only [InkDB.observe,h₁,h₂]
      exact ⟨⟨congrArg (a :: ·) ha,hf⟩,hq₁,hq₂⟩

end Agree

/-! Leftovers of `init_new` -/

theorem initNew_get (buf : RawPage) (pageType : UInt8) {i : Nat} (h : i < 10 ∨ i = 11 ∨ 16 ≤ i) :
    (SlottedPageMut.initNew buf pageType).get i = buf.get i := by
  show ((((buf.write 10 [_]).write 12 (u16ToLeBytes _)).write 14 (u16ToLeBytes _)).write 10
    [_]).get i = buf.get i
  rw [Buf.get_write_outside _ _ (by simp; omega),Buf.get_write_outside _ _ (by simp; omega),
    Buf.get_write_outside _ _ (by simp; omega),Buf.get_write_outside _ _ (by simp; omega)]

section InitNew
variable (buf : RawPage) (pageType : UInt8)

theorem initNew_lsn : getLsn (SlottedPageMut.initNew buf pageType) = getLsn buf :=
  getLsn_congr (fun _ h => initNew_get buf pageType (.inl (by omega)))

theorem initNew_flags : getFlags (SlottedPageMut.initNew buf pageType) = getFlags buf :=
  initNew_get buf pageType (.inr (.inl rfl))

theorem initNew_special :
    getSpecialOffset (SlottedPageMut.initNew buf pageType) = getSpecialOffset buf :=
  getSpecialOffset_congr (fun _ h _ => initNew_get buf pageType (.inr (.inr h)))

end InitNew

theorem noOverlap_of_special {p : RawPage} (b : Build)
    (h : getSpecialOffset p = 0 ∨ getSpecialOffset p = 4096 ∨ 4096 < getSpecialOffset p) :
    NoOverlap b p := by
  intro special dir es hs _ _ e _ z _ hz
  rcases h with h | h | h
  · rw [getSpecialRef_zero b h] at hs
    cases hs
  · rw [getSpecialRef_top b h] at hs
    cases hs
    simp only at hz
    omega
  · rw [getSpecialRef_beyond b h] at hs
    cases hs

theorem SameSpecial.each {o₁ o₂ : UInt16} (h : SameSpecial o₁ o₂) :
    (o₁ = 0 ∨ o₁ = 4096 ∨ 4096 < o₁) ∧ (o₂ = 0 ∨ o₂ = 4096 ∨ 4096 < o₂) := by
  rcases h with ⟨h₁,h₂⟩ | ⟨h₁,h₂⟩ | ⟨h₁,h₂⟩
  · exact ⟨.inl h₁,.inl h₂⟩
  · exact ⟨.inr (.inl h₁),.inr (.inl h₂)⟩
  · exact ⟨.inr (.inr h₁),.inr (.inr h₂)⟩

theorem forgets_of_sameLeftovers (pageType : UInt8) {buf₁ buf₂ : RawPage}
    (h : SameLeftovers buf₁ buf₂) : Forgets pageType buf₁ buf₂ := by
  have ht : Twins (SlottedPageMut.initNew buf₁ pageType)
      (SlottedPageMut.initNew buf₂ pageType) := by
    refine ⟨⟨_,represents_initNew buf₁ pageType,represents_initNew buf₂ pageType⟩,?_,?_,?_⟩
    · rw [initNew_lsn,initNew_lsn,h.lsn]
    · rw [initNew_flags,initNew_flags,h.flags]
    · rw [initNew_special,initNew_special]
      exact h.special
  intro b calls
  obtain ⟨hsame,hq₁,hq₂⟩ := ht.observe b calls
  refine ⟨hsame,fun q hq => ?_,fun q hq => ?_⟩
  · obtain ⟨q',ht'⟩ := hq₁ q hq
    exact noOverlap_of_special b ht'.leftovers.special.each.1
  · obtain ⟨q',ht'⟩ := hq₂ q hq
    exact noOverlap_of_special b ht'.leftovers.special.each.2

/-- The first cell of a fresh page goes to its very end, into any special area
that is left over there. -/
theorem overlap_of_inside {buf : RawPage} (pageType : UInt8) (b : Build)
    (h : getSpecialOffset buf ≠ 0) (hlt : getSpecialOffset buf < 4096) :
    ∃ q, (observe b [.append [0]] (SlottedPageMut.initNew buf pageType)).2 = .ok q ∧
      ¬ NoOverlap b q := by
  obtain ⟨q,hrun,hr,hp⟩ := append_simulates b (represents_initNew buf pageType) [0]
  have hspecial : getSpecialOffset q = getSpecialOffset buf :=
    (getSpecialOffset_congr (fun i _ _ => hp i (by omega))).trans (initNew_special buf pageType)
  have hok := hr.headerOk
  have hn : (getSpecialOffset buf).toNat < 4096 := hlt
  obtain ⟨hb,hs⟩ := @getSpecialRef_inside q b (by rw [hspecial]; exact h)
    (by rw [hspecial]; exact Nat.le_of_lt hlt)
  refine ⟨q,?_,fun hno => ?_⟩
  · simp only [observe,Call.exec,hrun,Except.map]
  · have hes := collect_iter hok
    rw [hr.dirCount_eq,hr.directory] at hes
    refine hno _ _ _ hs (slotDirRef_eq hok.low) hes ⟨4095,1⟩ ?_ 4095 ?_ ?_
    · show (⟨4095,1⟩ : SlotEntry) ∈ [(4095,[(0 : UInt8)])].map slotEntry
      decide
    · show 4095 ≤ 4095 ∧ 4095 < 4095+1
      omega
    · show (getSpecialOffset q).toNat ≤ 4095 ∧
        4095 < (getSpecialOffset q).toNat+(4096-(getSpecialOffset q).toNat)
      rw [hspecial]
      omega

theorem Forgets.symm {pageType : UInt8} {buf₁ buf₂ : RawPage} (h : Forgets pageType buf₁ buf₂) :
    Forgets pageType buf₂ buf₁ := fun b calls =>
  ⟨⟨(h b calls).1.1.symm,(h b calls).1.2.symm⟩,(h b calls).2.2,(h b calls).2.1⟩

theorem Forgets.special_cases {pageType : UInt8} {buf₁ buf₂ : RawPage}
    (h : Forgets pageType buf₁ buf₂) :
    getSpecialOffset buf₁ = 0 ∨ getSpecialOffset buf₁ = 4096 ∨ 4096 < getSpecialOffset buf₁ := by
  by_cases hz : getSpecialOffset buf₁ = 0
  · exact .inl hz
  · rcases Std.lt_trichotomy (getSpecialOffset buf₁) 4096 with hlt | heq | hgt
    · obtain ⟨q,hq,hno⟩ := overlap_of_inside pageType .release hz hlt
      exact absurd ((h .release _).2.1 q hq) hno
    · exact .inr (.inl heq)
    · exact .inr (.inr hgt)

theorem observe_special {buf : RawPage} (pageType : UInt8) :
    (getSpecialOffset buf = 0 →
      (observe .release [.getSpecialRef] (SlottedPageMut.initNew buf pageType)).1 =
        [.slice (.error .specialOffsetIsZero)]) ∧
    (getSpecialOffset buf = 4096 →
      (observe .release [.getSpecialRef] (SlottedPageMut.initNew buf pageType)).1 =
        [.slice (.ok [])]) ∧
    (4096 < getSpecialOffset buf →
      (observe .release [.getSpecialRef] (SlottedPageMut.initNew buf pageType)).1 = []) := by
  rw [← initNew_special buf pageType]
  refine ⟨fun h => ?_,fun h => ?_,fun h => ?_⟩
  · simp only [observe,Call.exec,getSpecialRef_zero .release h]
    rfl
  · simp only [observe,Call.exec,getSpecialRef_top .release h]
    rfl
  · simp only [observe,Call.exec,getSpecialRef_beyond .release h]
    rfl

theorem Forgets.sameSpecial {pageType : UInt8} {buf₁ buf₂ : RawPage}
    (h : Forgets pageType buf₁ buf₂) :
    SameSpecial (getSpecialOffset buf₁) (getSpecialOffset buf₂) := by
  have hans := (h .release [.getSpecialRef]).1.1
  obtain ⟨hz₁,ht₁,hb₁⟩ := @observe_special buf₁ pageType
  obtain ⟨hz₂,ht₂,hb₂⟩ := @observe_special buf₂ pageType
  rcases h.special_cases with h₁ | h₁ | h₁
  · rcases h.symm.special_cases with h₂ | h₂ | h₂
    · exact .inl ⟨h₁,h₂⟩
    · rw [hz₁ h₁,ht₂ h₂] at hans; simp at hans
    · rw [hz₁ h₁,hb₂ h₂] at hans; simp at hans
  · rcases h.symm.special_cases with h₂ | h₂ | h₂
    · rw [ht₁ h₁,hz₂ h₂] at hans; simp at hans
    · exact .inr (.inl ⟨h₁,h₂⟩)
    · rw [ht₁ h₁,hb₂ h₂] at hans; simp at hans
  · rcases h.symm.special_cases with h₂ | h₂ | h₂
    · rw [hb₁ h₁,hz₂ h₂] at hans; simp at hans
    · rw [hb₁ h₁,ht₂ h₂] at hans; simp at hans
    · exact .inr (.inr ⟨h₁,h₂⟩)

theorem init_new_forgets_iff (pageType : UInt8) (buf₁ buf₂ : RawPage) :
    Forgets pageType buf₁ buf₂ ↔ SameLeftovers buf₁ buf₂ := by
  constructor
  · intro h
    have hlsn := (h .release [.getLsn]).1.1
    have hflags := (h .release [.getFlags]).1.1
    simp only [observe,Call.exec,initNew_lsn,initNew_flags,List.cons.injEq,Answer.lsn.injEq,
      Answer.flags.injEq,and_true] at hlsn hflags
    exact ⟨hlsn,hflags,h.sameSpecial⟩
  · exact forgets_of_sameLeftovers pageType

theorem init_new_remembers :
    ¬ ∀ (pageType : UInt8) (buf₁ buf₂ : RawPage), Forgets pageType buf₁ buf₂ := by
  intro hall
  have h := (hall 255 (Buf.fill 4096 0) ((Buf.fill 4096 0).write 16 (u16ToLeBytes 4000))).symm
  have hcases := h.special_cases
  have hs : getSpecialOffset ((Buf.fill 4096 0).write 16 (u16ToLeBytes 4000)) = 4000 :=
    congrArg UInt16.ofNat (le_writeU16 _ (show 16+2 ≤ 4096 by omega) (show 4000 < 65536 by omega))
  rw [hs] at hcases
  revert hcases
  decide

end InkDB
