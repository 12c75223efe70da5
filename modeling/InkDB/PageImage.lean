import InkDB.InsertionOrder
import InkDB.StaleBuffer

/-!
The bytes of an index page. What no register, entry or cell uses stays zero from
`init_in_place` on, so that nothing of a page's history is left in it but what
its readers return: pages that read alike are the same bytes.
-/

set_option autoImplicit false

namespace InkDB
open SlottedPageRef

/-! Unused bytes -/

/-- The checksum, the version and the transaction id, the free space, and the
half of the special area before the sibling. -/
def Blank (m : IndexModel) (p : RawPage) : Prop :=
  ∀ i, 8 ≤ i ∧ i < 10 ∨ 18 ≤ i ∧ i < 24 ∨ m.layout.freeStart ≤ i ∧ i < m.layout.freeEnd ∨
    4080 ≤ i ∧ i < 4088 → p.get i = 0

theorem blank_fresh (lsn : UInt64) : Blank (.fresh lsn) (initialPage lsn) := by
  intro i hi
  have hempty : (IndexModel.fresh lsn).layout.freeStart = 24 ∧
      (IndexModel.fresh lsn).layout.freeEnd = 4080 := ⟨rfl,rfl⟩
  by_cases h : 18 ≤ i
  · exact initialPage_get lsn h (by omega)
  · rw [initialPage,SlottedPageMut.setLsn,Buf.get_write_outside _ _ (.inr (by simp; omega)),
      withFreeEnd,Buf.get_write_outside _ _ (.inl (by omega)),
      withFreeStart,Buf.get_write_outside _ _ (.inl (by omega)),
      Buf.get_write_outside _ _ (.inl (by omega)),
      Buf.get_write_outside _ _ (.inl (by omega)),Buf.get_fill 0 (by omega)]

/-- An insertion takes its space from the two ends of the free space. -/
theorem get_cellAdded_free {p : RawPage} (h : HeaderOk p) {idx : Nat} {cell : List UInt8}
    (hidx : idx ≤ dirCount p) {i : Nat} (h₁ : freeStart p+4 ≤ i)
    (h₂ : i < freeEnd p-cell.length) : (cellAdded p idx cell).get i = p.get i := by
  have hn := h.freeStart_eq
  have hl := h.low
  rw [cellAdded,withFreeEnd,Buf.get_write_outside _ _ (.inr (by rw [u16ToLeBytes_length]; omega)),
    Buf.get_write_outside _ _ (.inl h₂),entryInserted,withFreeStart,
    Buf.get_write_outside _ _ (.inr (by rw [u16ToLeBytes_length]; omega)),
    Buf.get_write_outside _ _ (.inr (by simp; omega))]

theorem append_run_eq (b : Build) {p : RawPage} (h : HeaderOk p) (cell : List UInt8) :
    (SlottedPageMut.addCellAppendSlotEntry cell).run b p =
      (SlottedPageMut.addCellAtSlotEntryIndex (dirCount p) cell).run b p := by
  rw [addCellAppendSlotEntry_eq b h,addCellAtSlotEntryIndex_eq b h,if_neg (Nat.lt_irrefl _)]

section Steps
variable {m : IndexModel} {p p' : RawPage} (hr : IndexRepresents m p) (hb : Blank m p)
include hb

theorem Blank.write {m' : IndexModel} (hl : m'.layout = m.layout) {o : Nat} (xs : List UInt8)
    (ho : o = 10 ∧ xs.length = 1 ∨ 4088 ≤ o) : Blank m' (p.write o xs) := by
  intro i hi
  have hlow : 24 ≤ m.layout.freeStart := Nat.le_add_right _ _
  have htop := m.layout.freeEnd_le
  rw [hl] at hi
  rw [Buf.get_write_outside p xs (by omega)]
  exact hb i hi

include hr

theorem Blank.cellAdded {idx : Nat} {kc : Pair} (hi : idx ≤ m.layout.slots.length)
    (hroom : kc.bytes.length+4 ≤ m.layout.freeEnd-m.layout.freeStart) :
    Blank (m.push idx kc hi hroom) (cellAdded p idx kc.bytes) := by
  have h := hr.layout.headerOk
  have hstart := hr.layout.start
  have hstop := hr.layout.stop
  have htop := m.layout.freeEnd_le
  have hidx : idx ≤ dirCount p := by rw [hr.layout.dirCount_eq]; exact hi
  have hroom' : kc.bytes.length+4 ≤ freeEnd p-freeStart p := by rw [hstart,hstop]; exact hroom
  have hfs : (m.push idx kc hi hroom).layout.freeStart = m.layout.freeStart+4 :=
    @Layout.push_freeStart _ m.layout idx kc.bytes hi hroom
  have hfe : (m.push idx kc hi hroom).layout.freeEnd = m.layout.freeEnd-kc.bytes.length :=
    @Layout.push_freeEnd _ m.layout idx kc.bytes hi hroom
  intro i hi
  rw [hfs,hfe] at hi
  rcases hi with hi | hi | hi | hi
  · rw [get_cellAdded h hidx hroom' (by omega)]
    exact hb i (.inl hi)
  · rw [get_cellAdded h hidx hroom' (by omega)]
    exact hb i (.inr (.inl hi))
  · rw [get_cellAdded_free h hidx (by omega) (by omega)]
    exact hb i (.inr (.inr (.inl (by omega))))
  · rw [get_cellAdded h hidx hroom' (by omega)]
    exact hb i (.inr (.inr (.inr hi)))

theorem Blank.addAt {b : Build} {index : Nat} {kc : Pair} {r : Except PageError Unit}
    (h : (SlottedPageMut.addCellAtSlotEntryIndex index kc.bytes).run b p = .ok (r,p')) :
    Blank (m.addAt index kc).2 p' := by
  rw [addCellAtSlotEntryIndex_eq b hr.layout.headerOk,hr.layout.start,hr.layout.stop,
    hr.layout.dirCount_eq] at h
  unfold IndexModel.addAt
  split at h
  · rename_i hfull
    cases h
    rw [dif_pos hfull]
    exact hb
  · rename_i hfull
    rw [dif_neg hfull]
    split at h
    · rename_i hi
      cases h
      rw [dif_pos hi]
      exact hb
    · rename_i hi
      cases h
      rw [dif_neg hi]
      exact hb.cellAdded hr _ _

theorem Blank.step {b : Build} {op : IndexOp} (hacc : op.Accepted) {r : Except IndexPageError Unit}
    (h : op.exec.run b p = .ok (r,p')) : Blank (op.step m).2 p' := by
  cases op with
  | initInPlace lsn =>
    rw [IndexOp.exec,initInPlace_eq] at h
    cases h
    exact blank_fresh lsn
  | append key child =>
    obtain ⟨p₁,hrun,-⟩ := append_simulates b hr.layout (Pair.bytes (key,child))
    rw [IndexOp.exec,Prog.call_bind (new_ok child hacc)] at h
    have hp : p' = p₁ := congrArg Prod.snd
      (Except.ok.inj (h.symm.trans (Prog.run_mapErr IndexPageError.pageError hrun)))
    rw [append_run_eq b hr.layout.headerOk,hr.layout.dirCount_eq] at hrun
    rw [hp]
    exact hb.addAt hr hrun
  | insertAt index key child =>
    obtain ⟨p₁,hrun,-⟩ := addAt_simulates b hr.layout index (Pair.bytes (key,child))
    rw [IndexOp.exec,Prog.call_bind (new_ok child hacc)] at h
    have hp : p' = p₁ := congrArg Prod.snd
      (Except.ok.inj (h.symm.trans (Prog.run_mapErr IndexPageError.pageError hrun)))
    rw [hp]
    exact hb.addAt hr hrun
  | setRightSibling id =>
    rw [IndexOp.exec,hr.setRightSibling_run b id] at h
    cases h
    exact hb.write rfl _ (.inr (Nat.le_refl _))
  | setLevel level | setPageType kind =>
    cases h
    exact hb.write rfl _ (.inl ⟨rfl,rfl⟩)

end Steps

theorem index_image (b : Build) (buf : RawPage) (lsn : UInt64) (ops : List IndexOp)
    (h : ∀ op ∈ ops, op.Accepted) :
    ∃ p, Prog.runAll ((.initInPlace lsn :: ops).map IndexOp.exec) b buf =
        .ok (.ok () :: (Prog.trace IndexOp.step ops (.fresh lsn)).1,p) ∧
      IndexRepresents (Prog.trace IndexOp.step ops (.fresh lsn)).2 p ∧
      Blank (Prog.trace IndexOp.step ops (.fresh lsn)).2 p := by
  have hstep : ∀ op ∈ ops, ∀ p m, IndexRepresents m p ∧ Blank m p → ∃ p',
      op.exec.run b p = .ok ((op.step m).1,p') ∧ IndexRepresents (op.step m).2 p' ∧
        Blank (op.step m).2 p' := by
    rintro op hop p m ⟨hr,hb⟩
    obtain ⟨p',hrun,hr'⟩ := op.simulates b hr (h op hop)
    exact ⟨p',hrun,hr',hb.step hr (h op hop) hrun⟩
  obtain ⟨p,hrun,hr,hb⟩ := Prog.runAll_simulates (fun p m => IndexRepresents m p ∧ Blank m p)
    IndexOp.exec IndexOp.step b ops hstep _ _ ⟨represents_fresh lsn,blank_fresh lsn⟩
  refine ⟨p,?_,hr,hb⟩
  simp only [List.map_cons,Prog.runAll,IndexOp.exec,initInPlace_eq b buf lsn,Exec.ok_bind,hrun]
  rfl

/-! The model has the bytes -/

theorem entryAt_bytes (p : RawPage) (i : Nat) : p.read (24+4*i) 4 = entryBytes (entryAt p i) := by
  rw [Buf.read_add p _ 2 2,entryBytes,entryAt,Buf.le,Buf.le,u16ToLeBytes_decodeLe (by simp),
    u16ToLeBytes_decodeLe (by simp)]

theorem get_of_entries {p q : RawPage} {n : Nat} (h : entriesOf p n = entriesOf q n) {i : Nat}
    (h₁ : 24 ≤ i) (h₂ : i < 24+4*n) : p.get i = q.get i := by
  have hj : (i-24)/4 < n := by omega
  have he : entryAt p ((i-24)/4) = entryAt q ((i-24)/4) := by
    rw [← entriesOf_getElem p n _ (by simpa using hj),← entriesOf_getElem q n _ (by simpa using hj)]
    simp only [h]
  have hread : p.read (24+4*((i-24)/4)) 4 = q.read (24+4*((i-24)/4)) 4 := by
    rw [entryAt_bytes,entryAt_bytes,he]
  exact Buf.get_of_read hread (by omega) (by omega)

theorem get_of_le {p q : RawPage} {o k : Nat} (h : p.le o k = q.le o k) {i : Nat} (h₁ : o ≤ i)
    (h₂ : i < o+k) : p.get i = q.get i := by
  have hread : p.read o k = q.read o k := by
    have hp := encodeLe_decodeLe (p.read o k)
    have hq := encodeLe_decodeLe (q.read o k)
    rw [Buf.read_length] at hp hq
    rw [← hp,← hq]
    exact congrArg (encodeLe k) h
  exact Buf.get_of_read hread h₁ h₂

theorem read_lsn (p : RawPage) : p.read 0 8 = u64ToLeBytes (getLsn p) :=
  (u64ToLeBytes_decodeLe (by simp)).symm

theorem read_special (p : RawPage) : p.read 16 2 = u16ToLeBytes (getSpecialOffset p) :=
  (u16ToLeBytes_decodeLe (by simp)).symm

/-- Pages of one model that leave the unused bytes alone are the same page. -/
theorem page_of_model {m : IndexModel} {p q : RawPage} (hp : IndexRepresents m p) (hbp : Blank m p)
    (hq : IndexRepresents m q) (hbq : Blank m q) : p = q := by
  have hadd := m.layout.freeEnd_add
  have hfs : m.layout.freeStart = 24+4*m.layout.slots.length := rfl
  have hlsn : p.read 0 8 = q.read 0 8 := by
    rw [read_lsn p,read_lsn q,hp.lsn,hq.lsn]
  have hspecial : p.read 16 2 = q.read 16 2 := by
    rw [read_special p,read_special q,hp.special,hq.special]
  have hget : ∀ i, p.get i = q.get i := by
    intro i
    rcases Nat.lt_or_ge i 8 with h | h
    · exact Buf.get_of_read hlsn (Nat.zero_le _) (by omega)
    rcases Nat.lt_or_ge i 10 with h' | h'
    · rw [hbp i (by omega),hbq i (by omega)]
    rcases Nat.lt_or_ge i 12 with h | h
    · rcases (show i = 10 ∨ i = 11 by omega) with rfl | rfl
      · exact hp.pageType.trans hq.pageType.symm
      · exact hp.flags.trans hq.flags.symm
    rcases Nat.lt_or_ge i 14 with h' | h'
    · exact get_of_le (hp.layout.start.trans hq.layout.start.symm) h (by omega)
    rcases Nat.lt_or_ge i 16 with h | h
    · exact get_of_le (hp.layout.stop.trans hq.layout.stop.symm) h' (by omega)
    rcases Nat.lt_or_ge i 18 with h' | h'
    · exact Buf.get_of_read hspecial h (by omega)
    rcases Nat.lt_or_ge i 24 with h | h
    · rw [hbp i (by omega),hbq i (by omega)]
    rcases Nat.lt_or_ge i m.layout.freeStart with h' | h'
    · exact get_of_entries (hp.layout.directory.trans hq.layout.directory.symm) h (by omega)
    rcases Nat.lt_or_ge i m.layout.freeEnd with h | h
    · rw [hbp i (by omega),hbq i (by omega)]
    rcases Nat.lt_or_ge i 4080 with h' | h'
    · exact Buf.get_of_read (hp.layout.cells.trans hq.layout.cells.symm) h (by omega)
    rcases Nat.lt_or_ge i 4088 with h | h
    · rw [hbp i (by omega),hbq i (by omega)]
    rcases Nat.lt_or_ge i 4096 with h' | h'
    · exact Buf.get_of_read (hp.sibling.trans hq.sibling.symm) h (by omega)
    · simp [Buf.get,Nat.not_lt.mpr h']
  funext i
  have h := hget i
  simpa [Buf.get,i.isLt] using h

/-! The readers have the model -/

/-- What `slot_dir_ref().iter()` yields. -/
def listEntries (p : RawPage) : Exec (List SlotEntry) := do
  let slotDir ← slotDirRef p
  slotDir.iter.collect p

/-- No reader tells the pages apart. -/
structure ReadAlike (b : Build) (p q : RawPage) : Prop where
  lsn : getLsn p = getLsn q
  pageType : getPageType p = getPageType q
  sibling : IndexPageRef.getRightSibling b p = IndexPageRef.getRightSibling b q
  entries : listEntries p = listEntries q
  pairs : listPairs b p = listPairs b q

theorem Layout.ext_of {top : Nat} {l l' : Layout top} (hs : l.slots = l'.slots)
    (ht : l.stack = l'.stack) : l = l' := by
  cases l
  cases l'
  cases hs
  cases ht
  rfl

/-- Where every cell takes space, the slots fix the layout. -/
theorem Layout.eq_of_slots {top : Nat} {l l' : Layout top} (hs : l.slots = l'.slots)
    (hpos : ∀ c ∈ l.cells, 0 < c.length) : l = l' := by
  have hp := l.placed
  have hp' := l'.placed
  have hsize : totalSize List.length l.stack = totalSize List.length l'.stack := by
    rw [← perm_stacked_total hp,← perm_stacked_total hp',hs]
  have hstack : ∀ c ∈ l.stack, 0 < c.length := fun c hc =>
    hpos c ((perm_stacked_items hp).mem_iff.mpr hc)
  have hstack' : ∀ c ∈ l'.stack, 0 < c.length := by
    intro c hc
    apply hpos
    rw [cells,hs]
    exact (perm_stacked_items hp').mem_iff.mpr hc
  refine Layout.ext_of hs (stacked_unique hstack hstack' (hp.symm.trans ?_))
  rw [hs,hsize]
  exact hp'

theorem IndexModel.eq_of {m m' : IndexModel} (hs : m.layout.slots = m'.layout.slots)
    (hp : m.pairs = m'.pairs) (hl : m.lsn = m'.lsn) (ht : m.pageType = m'.pageType)
    (hsib : m.sibling = m'.sibling) : m = m' := by
  have hlayout : m.layout = m'.layout := by
    apply Layout.eq_of_slots hs
    intro c hc
    rw [m.spelled] at hc
    obtain ⟨kc,-,rfl⟩ := List.mem_map.mp hc
    rw [Pair.bytes_length]
    omega
  cases m
  cases m'
  cases hlayout
  cases hp
  cases hl
  cases ht
  cases hsib
  rfl

section Readers
variable {m m' : IndexModel} {p q : RawPage}

theorem IndexRepresents.listEntries_eq (hr : IndexRepresents m p) :
    listEntries p = .ok (m.layout.slots.map slotEntry) := by
  have hok := hr.layout.headerOk
  rw [listEntries,slotDirRef_eq hok.low,Exec.ok_bind,collect_iter hok,hr.layout.dirCount_eq,
    hr.layout.directory]

/-- Offsets from the directory, cells from their pairs. -/
theorem IndexRepresents.slots_eq (hr : IndexRepresents m p) : m.layout.slots =
    ((m.layout.slots.map slotEntry).map (fun e => e.offset.toNat)).zip
      (m.pairs.map Pair.bytes) := by
  rw [← m.spelled,Layout.cells,List.map_map,List.zip_map']
  conv_lhs => rw [← List.map_id m.layout.slots]
  apply List.map_congr_left
  intro x hx
  simp only [Function.comp,hr.layout.slotEntry_offset hx,id]

theorem siblingId_injective (h : m.siblingId = m'.siblingId) : m.sibling = m'.sibling := by
  unfold IndexModel.siblingId at h
  split at h
  · rename_i hz
    split at h
    · rename_i hz'
      exact hz.trans hz'.symm
    · cases h
  · split at h
    · cases h
    · exact congrArg PageID.val (Option.some.inj h)

theorem ReadAlike.model_eq {b : Build} (h : ReadAlike b p q) (hp : IndexRepresents m p)
    (hq : IndexRepresents m' q) : m = m' := by
  have hpairs : m.pairs = m'.pairs :=
    Except.ok.inj ((hp.listPairs_eq b).symm.trans (h.pairs.trans (hq.listPairs_eq b)))
  have hentries : m.layout.slots.map slotEntry = m'.layout.slots.map slotEntry :=
    Except.ok.inj (hp.listEntries_eq.symm.trans (h.entries.trans hq.listEntries_eq))
  apply IndexModel.eq_of
  · rw [hp.slots_eq,hq.slots_eq,hentries,hpairs]
  · exact hpairs
  · exact hp.lsn.symm.trans (h.lsn.trans hq.lsn)
  · exact congrArg PageType.mk (hp.pageType.symm.trans (h.pageType.trans hq.pageType))
  · have hsib := (hp.getRightSibling_eq b).symm.trans
      (h.sibling.trans (hq.getRightSibling_eq b))
    exact siblingId_injective (Except.ok.inj hsib)

theorem IndexRepresents.readAlike (hp : IndexRepresents m p) (hq : IndexRepresents m q)
    (b : Build) : ReadAlike b p q where
  lsn := hp.lsn.trans hq.lsn.symm
  pageType := hp.pageType.trans hq.pageType.symm
  sibling := (hp.getRightSibling_eq b).trans (hq.getRightSibling_eq b).symm
  entries := hp.listEntries_eq.trans hq.listEntries_eq.symm
  pairs := (hp.listPairs_eq b).trans (hq.listPairs_eq b).symm

end Readers

/-- Index pages that read alike are the same bytes, whatever buffers they were
built in and whatever was done to them. -/
theorem index_page_bytes_iff (b b₁ b₂ : Build) (buf₁ buf₂ : RawPage) (lsn₁ lsn₂ : UInt64)
    (ops₁ ops₂ : List IndexOp) (h₁ : ∀ op ∈ ops₁, op.Accepted) (h₂ : ∀ op ∈ ops₂, op.Accepted) :
    ∃ rs₁ p₁ rs₂ p₂,
      Prog.runAll ((.initInPlace lsn₁ :: ops₁).map IndexOp.exec) b₁ buf₁ = .ok (rs₁,p₁) ∧
      Prog.runAll ((.initInPlace lsn₂ :: ops₂).map IndexOp.exec) b₂ buf₂ = .ok (rs₂,p₂) ∧
      (ReadAlike b p₁ p₂ ↔ p₁ = p₂) := by
  obtain ⟨p₁,hrun₁,hr₁,hb₁⟩ := index_image b₁ buf₁ lsn₁ ops₁ h₁
  obtain ⟨p₂,hrun₂,hr₂,hb₂⟩ := index_image b₂ buf₂ lsn₂ ops₂ h₂
  refine ⟨_,p₁,_,p₂,hrun₁,hrun₂,fun h => ?_,?_⟩
  · have hm := h.model_eq hr₁ hr₂
    rw [← hm] at hr₂ hb₂
    exact page_of_model hr₁ hb₁ hr₂ hb₂
  · rintro rfl
    exact hr₁.readAlike hr₁ b

/-- A sibling replaced and a page initialised twice leave no trace. -/
theorem index_page_bytes_two_histories :
    (∀ op ∈ [IndexOp.setRightSibling ⟨9⟩,.append [5] ⟨7⟩], op.Accepted) ∧
      (∀ op ∈ [IndexOp.append [1,2] ⟨3⟩,.initInPlace 1,.append [5] ⟨7⟩,.setRightSibling ⟨4⟩,
        .setRightSibling ⟨9⟩], op.Accepted) ∧
      ∃ rs₁ rs₂ p,
        Prog.runAll ([IndexOp.initInPlace 1,.setRightSibling ⟨9⟩,.append [5] ⟨7⟩].map
          IndexOp.exec) .debug (Buf.fill 4096 0) = .ok (rs₁,p) ∧
        Prog.runAll ([IndexOp.initInPlace 8,.append [1,2] ⟨3⟩,.initInPlace 1,.append [5] ⟨7⟩,
          .setRightSibling ⟨4⟩,.setRightSibling ⟨9⟩].map IndexOp.exec) .release
          (Buf.fill 4096 255) = .ok (rs₂,p) := by
  refine ⟨by decide,by decide,?_⟩
  obtain ⟨rs₁,p₁,rs₂,p₂,hrun₁,hrun₂,hiff⟩ := index_page_bytes_iff .debug .debug .release
    (Buf.fill 4096 0) (Buf.fill 4096 255) 1 8 [.setRightSibling ⟨9⟩,.append [5] ⟨7⟩]
    [.append [1,2] ⟨3⟩,.initInPlace 1,.append [5] ⟨7⟩,.setRightSibling ⟨4⟩,.setRightSibling ⟨9⟩]
    (by decide) (by decide)
  obtain ⟨q₁,hq₁,hr₁⟩ := indexRun .debug (Buf.fill 4096 0) 1
    [.setRightSibling ⟨9⟩,.append [5] ⟨7⟩] (by decide)
  obtain ⟨q₂,hq₂,hr₂⟩ := indexRun .release (Buf.fill 4096 255) 8
    [.append [1,2] ⟨3⟩,.initInPlace 1,.append [5] ⟨7⟩,.setRightSibling ⟨4⟩,.setRightSibling ⟨9⟩]
    (by decide)
  rw [hrun₁] at hq₁
  rw [hrun₂] at hq₂
  cases hq₁
  cases hq₂
  have hsame := hiff.mp (hr₁.readAlike hr₂ .debug)
  subst hsame
  exact ⟨_,_,p₁,hrun₁,hrun₂⟩

end InkDB
