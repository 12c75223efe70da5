import InkDB.PageLayout

/-!
An index page as a value: (key, child) pairs in slot order, the layout that
stores them, and the header registers. Every operation of `IndexPageMut` refines
a step on this value.
-/

set_option autoImplicit false

namespace InkDB
open SlottedPageRef

abbrev Pair := Key × PageID

def Pair.bytes (kc : Pair) : List UInt8 := indexCellBytes kc.1 kc.2

@[simp] theorem Pair.bytes_length (kc : Pair) : kc.bytes.length = 10+kc.1.length :=
  indexCellBytes_length kc.1 kc.2

/-! Cells -/

section Codec
variable {n : Nat} (b : Build) {s : Slice n} {kc : Pair}
  (hs : s.bytes = kc.bytes) (hk : kc.1.length < 65536)
include hs

theorem cell_len : s.len = 10+kc.1.length := by
  rw [← s.bytes_length,hs,Pair.bytes_length]

theorem cell_fields :
    s.mem.read s.start 8 = u64ToLeBytes kc.2.val ∧
      s.mem.read (s.start+8) 2 = u16ToLeBytes (UInt16.ofNat kc.1.length) ∧
      s.mem.read (s.start+10) kc.1.length = kc.1 := by
  have h := hs
  rw [Slice.bytes,cell_len hs,Buf.read_add,Buf.read_add s.mem _ 8 2,Pair.bytes,
    indexCellBytes] at h
  obtain ⟨h₁,h₂⟩ := List.append_inj h (by simp)
  obtain ⟨h₃,h₄⟩ := List.append_inj h₁ (by simp)
  exact ⟨h₃,h₄,h₂⟩

theorem getValuePtr_eq (ht : 10 ≤ s.len) : (IndexCell.mk s ht).getValuePtr = .ok kc.2 := by
  have hb := s.inBounds
  have hv : s.mem.le s.start 8 = kc.2.val.toNat := by
    rw [Buf.le,(cell_fields hs).1,decodeLe_u64]
  simp only [IndexCell.getValuePtr,childPtrOffset,Nat.add_zero]
  rw [readU64LeUnsafe_ok _ (by omega),hv,UInt64.ofNat_toNat]
  rfl

include hk

theorem getKey_eq (ht : 10 ≤ s.len) :
    ∃ k, (IndexCell.mk s ht).getKey b = .ok k ∧ k.bytes = kc.1 := by
  have hb := s.inBounds
  have hlen := cell_len hs
  have hv : s.mem.le (s.start+8) 2 = kc.1.length := by
    rw [Buf.le,(cell_fields hs).2.1,decodeLe_u16]
    simp
    omega
  have hu : (UInt16.ofNat kc.1.length).toNat = kc.1.length := by simp; omega
  refine ⟨⟨s.mem,s.start+10,kc.1.length,by omega⟩,?_,(cell_fields hs).2.2⟩
  simp only [IndexCell.getKey,keyLenOffset,keyDataOffset]
  rw [readU16LeUnsafe_ok _ (by omega),hv,Exec.ok_bind,hu,debugAssert_of b (by omega),Exec.ok_bind,
    Buf.fromRawParts_ok _ (by omega)]

/-- A cell that spells out a pair opens, and both getters return its halves. -/
theorem open_cell :
    ∃ ht k, IndexCell.fromSlice s = .ok ⟨s,ht⟩ ∧ (IndexCell.mk s ht).getKey b = .ok k ∧
      k.bytes = kc.1 ∧ (IndexCell.mk s ht).getValuePtr = .ok kc.2 := by
  have hlen := cell_len hs
  have ht : 10 ≤ s.len := by omega
  obtain ⟨k,hkey,hbytes⟩ := getKey_eq b hs hk ht
  exact ⟨ht,k,IndexCell.fromSlice_ok ht,hkey,hbytes,getValuePtr_eq hs ht⟩

end Codec

/-- Decoding a cell with `get_key` and `get_value_ptr`. -/
def decodePair {n : Nat} (b : Build) (s : Slice n) : Exec Pair := do
  let cell ← IndexCell.fromSlice s
  let key ← cell.getKey b
  let child ← cell.getValuePtr
  pure (key.bytes,child)

theorem decodePair_eq {n : Nat} (b : Build) {s : Slice n} {kc : Pair}
    (hs : s.bytes = kc.bytes) (hk : kc.1.length < 65536) : decodePair b s = .ok kc := by
  obtain ⟨ht,k,hfrom,hkey,hbytes,hchild⟩ := open_cell b hs hk
  rw [decodePair,hfrom,Exec.ok_bind,hkey,Exec.ok_bind,hchild,Exec.ok_bind,hbytes]
  rfl

/-! The model -/

structure IndexModel where
  layout : Layout 4080
  pairs : List Pair
  spelled : layout.cells = pairs.map Pair.bytes
  lsn : UInt64
  pageType : PageType
  sibling : UInt64

namespace IndexModel

theorem headroom : 24 ≤ 4080 := by omega

def fresh (lsn : UInt64) : IndexModel where
  layout := Layout.empty headroom
  pairs := []
  spelled := rfl
  lsn := lsn
  pageType := ⟨2⟩
  sibling := 0

theorem slots_length (m : IndexModel) : m.layout.slots.length = m.pairs.length := by
  have h := congrArg List.length m.spelled
  simpa [Layout.cells] using h

def push (m : IndexModel) (i : Nat) (kc : Pair) (hi : i ≤ m.layout.slots.length)
    (hroom : kc.bytes.length+4 ≤ m.layout.freeEnd-m.layout.freeStart) : IndexModel where
  layout := m.layout.push i kc.bytes hi hroom
  pairs := m.pairs.insertIdx i kc
  spelled := by rw [Layout.push_cells,m.spelled,List.map_insertIdx]
  lsn := m.lsn
  pageType := m.pageType
  sibling := m.sibling

def addAt (index : Nat) (kc : Pair) (m : IndexModel) : Except IndexPageError Unit × IndexModel :=
  if hfull : kc.bytes.length+4 > m.layout.freeEnd-m.layout.freeStart then
    (.error (.pageError .noContigiousSpace),m)
  else if hi : index > m.layout.slots.length then (.error (.pageError .slotIndexNotInRange),m)
  else (.ok (),m.push index kc (Nat.not_lt.mp hi) (Nat.not_lt.mp hfull))

/-- The abstract insertion follows the layout's, outcome by outcome. -/
theorem addAt_layout (index : Nat) (kc : Pair) (m : IndexModel) :
    (m.addAt index kc).1 = (m.layout.addAt index kc.bytes).1.mapError .pageError ∧
      (m.addAt index kc).2.layout = (m.layout.addAt index kc.bytes).2 := by
  unfold addAt Layout.addAt
  split
  · exact ⟨rfl,rfl⟩
  · split <;> exact ⟨rfl,rfl⟩

theorem addAt_registers (index : Nat) (kc : Pair) (m : IndexModel) :
    (m.addAt index kc).2.lsn = m.lsn ∧ (m.addAt index kc).2.pageType = m.pageType ∧
      (m.addAt index kc).2.sibling = m.sibling := by
  unfold addAt
  split
  · exact ⟨rfl,rfl,rfl⟩
  · split <;> exact ⟨rfl,rfl,rfl⟩

end IndexModel

/-- A call on `IndexPageMut`; cells are built by `IndexCellOwned::new`. -/
inductive IndexOp where
  | initInPlace (lsn : UInt64)
  | append (key : Key) (child : PageID)
  | insertAt (index : Nat) (key : Key) (child : PageID)
  | setRightSibling (pageId : PageID)
  | setLevel (level : IndexLevel)
  | setPageType (kind : PageKind)
  deriving DecidableEq, Repr

namespace IndexOp

def exec : IndexOp → Prog RawPage IndexPageError Unit
  | .initInPlace lsn => IndexPageMut.initInPlace lsn
  | .append key child => do
      let cell ← Prog.call (fun _ => IndexCellOwned.new key child)
      IndexPageMut.addCellAppendSlotEntry cell
  | .insertAt index key child => do
      let cell ← Prog.call (fun _ => IndexCellOwned.new key child)
      IndexPageMut.addCellAtSlotEntryIndex index cell
  | .setRightSibling pageId => IndexPageMut.setRightSibling pageId
  | .setLevel level => Prog.modify (IndexPageMut.setLevel level)
  | .setPageType kind => Prog.modify (IndexPageMut.setPageType kind)

/-- `IndexCellOwned::new` does not panic. -/
def Accepted : IndexOp → Prop
  | .append key _ => AcceptedKey key
  | .insertAt _ key _ => AcceptedKey key
  | _ => True

instance : (op : IndexOp) → Decidable op.Accepted
  | .append key _ => inferInstanceAs (Decidable (AcceptedKey key))
  | .insertAt _ key _ => inferInstanceAs (Decidable (AcceptedKey key))
  | .initInPlace _ | .setRightSibling _ | .setLevel _ | .setPageType _ =>
      inferInstanceAs (Decidable True)

def step : IndexOp → IndexModel → Except IndexPageError Unit × IndexModel
  | .initInPlace lsn, _ => (.ok (),.fresh lsn)
  | .append key child, m => m.addAt m.layout.slots.length (key,child)
  | .insertAt index key child, m => m.addAt index (key,child)
  | .setRightSibling pageId, m => (.ok (),{ m with sibling := pageId.val })
  | .setLevel level, m => (.ok (),{ m with pageType := m.pageType.setSubtypePageBits level.val })
  | .setPageType kind, m => (.ok (),{ m with pageType := ⟨kind.toU8⟩ })

end IndexOp

/-- The page spells out the model. -/
structure IndexRepresents (m : IndexModel) (p : RawPage) : Prop where
  layout : Represents m.layout p
  lsn : getLsn p = m.lsn
  special : getSpecialOffset p = 4080
  flags : getFlags p = 0
  pageType : getPageType p = m.pageType.raw
  sibling : p.read 4088 8 = u64ToLeBytes m.sibling

namespace IndexRepresents
variable {m : IndexModel} {p : RawPage} (hr : IndexRepresents m p)
include hr

/-- What has to be shown again after a write: the layout, the page type and the
sibling. The other registers are kept with their bytes. -/
theorem frame {m' : IndexModel} {p' : RawPage} (hl : Represents m'.layout p')
    (hkept : ∀ i, i < 8 ∨ i = 11 ∨ 16 ≤ i ∧ i < 18 → p'.get i = p.get i) (hlsn : m'.lsn = m.lsn)
    (htype : getPageType p' = m'.pageType.raw) (hsib : p'.read 4088 8 = u64ToLeBytes m'.sibling) :
    IndexRepresents m' p' where
  layout := hl
  lsn := by
    rw [hlsn,← hr.lsn]
    exact getLsn_congr (fun i hi => hkept i (.inl hi))
  special := by
    rw [← hr.special]
    exact getSpecialOffset_congr (fun i h₁ h₂ => hkept i (.inr (.inr ⟨h₁,h₂⟩)))
  flags := (hkept 11 (.inr (.inl rfl))).trans hr.flags
  pageType := htype
  sibling := hsib

/-- The registers lie outside what a cell insertion writes. -/
theorem of_preserves {m' : IndexModel} {p' : RawPage} (hl : Represents m'.layout p')
    (hp : Preserves 4080 p p') (hlsn : m'.lsn = m.lsn) (htype : m'.pageType = m.pageType)
    (hsib : m'.sibling = m.sibling) : IndexRepresents m' p' := by
  apply hr.frame hl (fun i hi => hp i (by omega)) hlsn
  · rw [htype,← hr.pageType]
    exact hp 10 (by omega)
  · rw [hsib,← hr.sibling]
    exact Buf.read_congr (fun i _ _ => hp i (by omega))

theorem setPageType (t : UInt8) :
    IndexRepresents { m with pageType := ⟨t⟩ } (SlottedPageMut.setPageType t p) := by
  have hout : ∀ i, i ≠ 10 → (SlottedPageMut.setPageType t p).get i = p.get i := fun i hi =>
    Buf.get_write_outside p [t] (by show i < 10 ∨ 10+1 ≤ i; omega)
  refine hr.frame ?_ (fun i hi => hout i (by omega)) rfl ?_ ?_
  · exact hr.layout.congr (fun i hi => hout i (by omega))
  · exact Buf.get_write_inside p [t] (by decide) (Nat.le_refl _) (by simp)
  · rw [← hr.sibling]
    exact Buf.read_congr (fun i _ _ => hout i (by omega))

theorem getSpecialRef_eq (b : Build) :
    getSpecialRef b p = .ok (.ok ⟨p,4080,16,by omega⟩) := by
  have hs : (getSpecialOffset p).toNat = 4080 := by rw [hr.special]; rfl
  simp only [getSpecialRef,hs]
  rw [if_neg (by omega),usizeSub_of_le b (by decide),Exec.ok_bind,assert_of (by decide),
    Exec.ok_bind,Buf.index_ok p (by decide)]
  rfl

theorem setRightSibling_run {ε : Type} (b : Build) (id : PageID) :
    (IndexPageMut.setRightSibling id : Prog RawPage ε Unit).run b p =
      .ok (.ok (),p.write 4088 (u64ToLeBytes id.val)) := by
  rw [IndexPageMut.setRightSibling,Prog.get_bind,Prog.call_bind (hr.getSpecialRef_eq b)]
  rfl

theorem setRightSibling (id : PageID) :
    IndexRepresents { m with sibling := id.val } (p.write 4088 (u64ToLeBytes id.val)) := by
  have hout : ∀ i, i < 4088 → (p.write 4088 (u64ToLeBytes id.val)).get i = p.get i := fun i hi =>
    Buf.get_write_outside p _ (.inl hi)
  refine hr.frame ?_ (fun i hi => hout i (by omega)) rfl ?_ ?_
  · exact hr.layout.congr (fun i hi => hout i (by omega))
  · exact (hout 10 (by omega)).trans hr.pageType
  · exact Buf.read_write_same p _ (by simp) (by simp)

theorem addAt (b : Build) (index : Nat) (kc : Pair) :
    ∃ p', ((SlottedPageMut.addCellAtSlotEntryIndex index kc.bytes).mapErr
        IndexPageError.pageError).run b p = .ok ((m.addAt index kc).1,p') ∧
      IndexRepresents (m.addAt index kc).2 p' := by
  obtain ⟨p',hrun,hl,hp⟩ := addAt_simulates b hr.layout index kc.bytes
  obtain ⟨h₁,h₂⟩ := m.addAt_layout index kc
  obtain ⟨hlsn,htype,hsib⟩ := m.addAt_registers index kc
  refine ⟨p',?_,hr.of_preserves (by rw [h₂]; exact hl) hp hlsn htype hsib⟩
  rw [Prog.run_mapErr _ hrun,h₁]

theorem append (b : Build) (kc : Pair) :
    ∃ p', ((SlottedPageMut.addCellAppendSlotEntry kc.bytes).mapErr
        IndexPageError.pageError).run b p = .ok ((m.addAt m.layout.slots.length kc).1,p') ∧
      IndexRepresents (m.addAt m.layout.slots.length kc).2 p' := by
  obtain ⟨p',hrun,hl,hp⟩ := append_simulates b hr.layout kc.bytes
  obtain ⟨h₁,h₂⟩ := m.addAt_layout m.layout.slots.length kc
  obtain ⟨hlsn,htype,hsib⟩ := m.addAt_registers m.layout.slots.length kc
  refine ⟨p',?_,hr.of_preserves (by rw [h₂]; exact hl) hp hlsn htype hsib⟩
  rw [Prog.run_mapErr _ hrun,h₁]
  rfl

end IndexRepresents

theorem initialPage_get (lsn : UInt64) {i : Nat} (h : 18 ≤ i) (hn : i < 4096) :
    (initialPage lsn).get i = 0 := by
  rw [initialPage,SlottedPageMut.setLsn,Buf.get_write_outside _ _ (.inr (by simp; omega)),
    withFreeEnd,Buf.get_write_outside _ _ (.inr (by simp; omega)),
    withFreeStart,Buf.get_write_outside _ _ (.inr (by simp; omega)),
    Buf.get_write_outside _ _ (.inr (by simp; omega)),
    Buf.get_write_outside _ _ (.inr (by simp; omega)),Buf.get_fill 0 hn]

theorem represents_fresh (lsn : UInt64) : IndexRepresents (.fresh lsn) (initialPage lsn) where
  layout := represents_initialPage lsn
  lsn := by
    show UInt64.ofNat ((Buf.write _ 0 (encodeLe 8 lsn.toNat)).le 0 8) = lsn
    rw [Buf.le_write_same _ (by omega) (by have := lsn.toNat_lt; omega),UInt64.ofNat_toNat]
  special := by
    show UInt16.ofNat ((Buf.write _ 0 _).le 16 2) = 4080
    rw [Buf.le_write_disjoint _ _ (.inr (by simp)),withFreeEnd,
      Buf.le_write_disjoint _ _ (.inr (by simp)),withFreeStart,
      Buf.le_write_disjoint _ _ (.inr (by simp))]
    exact congrArg UInt16.ofNat
      (le_writeU16 _ (show 16+2 ≤ 4096 by omega) (show 4080 < 65536 by omega))
  flags := rfl
  pageType := rfl
  sibling := by
    have h : (initialPage lsn).read 4088 8 = (Buf.fill 4096 0).read 4088 8 := by
      apply Buf.read_congr
      intro i h₁ h₂
      rw [initialPage_get lsn (by omega) (by omega),Buf.get_fill 0 (by omega)]
    rw [h]
    show (Buf.fill 4096 0).read 4088 8 = u64ToLeBytes 0
    decide

theorem new_ok {key : Key} (child : PageID) (h : AcceptedKey key) :
    IndexCellOwned.new key child =
      .ok ⟨indexCellBytes key child,by rw [indexCellBytes_length]; exact h⟩ := dif_pos h

theorem IndexOp.simulates (b : Build) {m : IndexModel} {p : RawPage} (hr : IndexRepresents m p)
    (op : IndexOp) (h : op.Accepted) :
    ∃ p', op.exec.run b p = .ok ((op.step m).1,p') ∧ IndexRepresents (op.step m).2 p' := by
  cases op with
  | initInPlace lsn => exact ⟨_,initInPlace_eq b p lsn,represents_fresh lsn⟩
  | append key child =>
    obtain ⟨p',hrun,hr'⟩ := hr.append b (key,child)
    refine ⟨p',?_,hr'⟩
    rw [exec,Prog.call_bind (new_ok child h)]
    exact hrun
  | insertAt index key child =>
    obtain ⟨p',hrun,hr'⟩ := hr.addAt b index (key,child)
    refine ⟨p',?_,hr'⟩
    rw [exec,Prog.call_bind (new_ok child h)]
    exact hrun
  | setRightSibling id => exact ⟨_,hr.setRightSibling_run b id,hr.setRightSibling id⟩
  | setLevel level =>
    refine ⟨_,rfl,?_⟩
    have ht : IndexPageMut.getPageType p = m.pageType := by
      rw [IndexPageMut.getPageType,SlottedPageMut.getPageType,hr.pageType]
    rw [IndexPageMut.setLevel,ht]
    exact hr.setPageType _
  | setPageType kind => exact ⟨_,rfl,hr.setPageType _⟩

end InkDB
