import InkDB.IndexModel

/-!
Whole runs of `IndexPageMut` operations: the stored pairs, the header registers
and the page-type byte after any sequence of calls.
-/

set_option autoImplicit false

namespace InkDB
open SlottedPageRef

def readPair (b : Build) (p : RawPage) (slotId : SlotID) : Exec (Except PageError Pair) := do
  match ← cellSliceFromId p slotId with
  | .error e => pure (.error e)
  | .ok cell => do
      let kc ← decodePair b cell
      pure (.ok kc)

def entryPair (b : Build) (p : RawPage) (se : SlotEntry) : Exec Pair := do
  decodePair b (← cellSliceFromEntry b p se)

theorem IndexModel.slots_pairs (m : IndexModel) :
    List.Forall₂ (fun x kc => x ∈ m.layout.slots ∧ x.2 = kc.bytes) m.layout.slots m.pairs := by
  have h : List.Forall₂ (fun c c' => c = c') (m.layout.slots.map Prod.snd)
      (m.pairs.map Pair.bytes) := by
    rw [← m.spelled]
    exact List.forall₂_refl _
  rw [List.forall₂_map_left_iff,List.forall₂_map_right_iff] at h
  exact List.forall₂_and_left _ _ |>.mpr ⟨fun _ hx => hx,h⟩

theorem IndexModel.slot_pair (m : IndexModel) {i : Nat} (hi : i < m.layout.slots.length)
    (hi' : i < m.pairs.length) :
    m.layout.slots[i] ∈ m.layout.slots ∧ m.layout.slots[i].2 = m.pairs[i].bytes :=
  m.slots_pairs.get hi hi'

namespace IndexRepresents
variable {m : IndexModel} {p : RawPage} (hr : IndexRepresents m p)
include hr

theorem slot_bytes {x : Nat × List UInt8} {kc : Pair} (hx : x ∈ m.layout.slots)
    (hc : x.2 = kc.bytes) (hb : x.1+x.2.length ≤ 4096) :
    (Slice.mk p x.1 x.2.length hb).bytes = kc.bytes ∧ kc.1.length < 65536 := by
  have hlen : x.2.length = 10+kc.1.length := by rw [hc,Pair.bytes_length]
  refine ⟨?_,by omega⟩
  rw [← hc]
  exact hr.layout.read_slot hx

theorem cellSliceFromEntry_slot (b : Build) {x : Nat × List UInt8} (hx : x ∈ m.layout.slots) :
    ∃ hb, cellSliceFromEntry b p (slotEntry x) = .ok ⟨p,x.1,x.2.length,hb⟩ := by
  have hbound := m.layout.slot_bounds hx
  exact ⟨_,hr.layout.cellSliceFromEntry_slot b hx (by omega)⟩

theorem entryPair_slot (b : Build) {x : Nat × List UInt8} {kc : Pair} (hx : x ∈ m.layout.slots)
    (hc : x.2 = kc.bytes) : entryPair b p (slotEntry x) = .ok kc := by
  obtain ⟨hb,hcell⟩ := hr.cellSliceFromEntry_slot b hx
  obtain ⟨hs,hk⟩ := hr.slot_bytes hx hc hb
  rw [entryPair,hcell,Exec.ok_bind,decodePair_eq b hs hk]

theorem readPair_eq (b : Build) {i : Nat} (hi : i < m.pairs.length) :
    readPair b p ⟨UInt16.ofNat i⟩ = .ok (.ok m.pairs[i]) := by
  have hi' : i < m.layout.slots.length := by rw [m.slots_length]; exact hi
  obtain ⟨hx,hc⟩ := m.slot_pair hi' hi
  obtain ⟨hb,hcell⟩ := hr.layout.cellSliceFromId_slot hi'
  obtain ⟨hs,hk⟩ := hr.slot_bytes hx hc hb
  rw [readPair,hcell,Exec.ok_bind]
  simp only [decodePair_eq b hs hk]
  rfl

theorem mapM_entryPair (b : Build) :
    (m.layout.slots.map slotEntry).mapM (entryPair b p) = .ok m.pairs := by
  apply mapM_ok
  rw [List.forall₂_map_left_iff]
  exact m.slots_pairs.imp (fun x kc h => hr.entryPair_slot b h.1 h.2)

end IndexRepresents

theorem indexOps_simulate {m : IndexModel} {p : RawPage} (b : Build) (hr : IndexRepresents m p)
    (ops : List IndexOp) (h : ∀ op ∈ ops, op.Accepted) :
    ∃ p', Prog.runAll (ops.map IndexOp.exec) b p = .ok ((Prog.trace IndexOp.step ops m).1,p') ∧
      IndexRepresents (Prog.trace IndexOp.step ops m).2 p' := by
  apply Prog.runAll_simulates (fun p m => IndexRepresents m p)
  · intro op hop p m hr
    exact op.simulates b hr (h op hop)
  · exact hr

def listPairs (b : Build) (p : RawPage) : Exec (List Pair) := do
  let slotDir ← slotDirRef p
  let entries ← slotDir.iter.collect p
  entries.mapM (entryPair b p)

theorem IndexRepresents.listPairs_eq {m : IndexModel} {p : RawPage} (hr : IndexRepresents m p)
    (b : Build) : listPairs b p = .ok m.pairs := by
  have hok := hr.layout.headerOk
  rw [listPairs,slotDirRef_eq hok.low,Exec.ok_bind,collect_iter hok,Exec.ok_bind,
    hr.layout.dirCount_eq,hr.layout.directory,hr.mapM_entryPair b]

/-- Every run that starts with `init_in_place` completes, on any buffer, and
ends in a page that represents the model's run. -/
theorem indexRun (b : Build) (buf : RawPage) (lsn : UInt64) (ops : List IndexOp)
    (h : ∀ op ∈ ops, op.Accepted) :
    ∃ p, Prog.runAll ((.initInPlace lsn :: ops).map IndexOp.exec) b buf =
        .ok (.ok () :: (Prog.trace IndexOp.step ops (.fresh lsn)).1,p) ∧
      IndexRepresents (Prog.trace IndexOp.step ops (.fresh lsn)).2 p := by
  obtain ⟨p,hrun,hr⟩ := indexOps_simulate b (represents_fresh lsn) ops h
  refine ⟨p,?_,hr⟩
  simp only [List.map_cons,Prog.runAll,IndexOp.exec,initInPlace_eq b buf lsn,Exec.ok_bind,hrun]
  rfl

/-- The logical list: what the answers of the calls say is stored. -/
def logicalStep (pairs : List Pair) : IndexOp × Except IndexPageError Unit → List Pair
  | (.initInPlace _,.ok _) => []
  | (.append key child,.ok _) => pairs ++ [(key,child)]
  | (.insertAt index key child,.ok _) => pairs.insertIdx index (key,child)
  | _ => pairs

def logicalList (ops : List IndexOp) (rs : List (Except IndexPageError Unit)) : List Pair :=
  (ops.zip rs).foldl logicalStep []

theorem addAt_pairs (index : Nat) (kc : Pair) (m : IndexModel) :
    (m.addAt index kc).2.pairs =
      match (m.addAt index kc).1 with
      | .ok _ => m.pairs.insertIdx index kc
      | .error _ => m.pairs := by
  unfold IndexModel.addAt
  split
  · rfl
  · split <;> rfl

theorem IndexOp.step_pairs (op : IndexOp) (m : IndexModel) :
    (op.step m).2.pairs = logicalStep m.pairs (op,(op.step m).1) := by
  cases op with
  | append key child =>
    simp only [step,addAt_pairs]
    split
    · rename_i h
      rw [h,logicalStep,m.slots_length,List.insertIdx_length_self]
    · rename_i h
      rw [h]; rfl
  | insertAt index key child =>
    simp only [step,addAt_pairs]
    split
    · rename_i h
      rw [h]; rfl
    · rename_i h
      rw [h]; rfl
  | initInPlace _ | setRightSibling _ | setLevel _ | setPageType _ => rfl

theorem trace_pairs (ops : List IndexOp) (lsn : UInt64) :
    (Prog.trace IndexOp.step ops (.fresh lsn)).2.pairs =
      logicalList (.initInPlace lsn :: ops)
        (.ok () :: (Prog.trace IndexOp.step ops (.fresh lsn)).1) :=
  Prog.trace_foldl IndexOp.step IndexModel.pairs logicalStep IndexOp.step_pairs ops _

theorem index_page_refines_list (b : Build) (buf : RawPage) (lsn : UInt64) (ops : List IndexOp)
    (h : ∀ op ∈ ops, op.Accepted) :
    ∃ rs p dir es, Prog.runAll ((.initInPlace lsn :: ops).map IndexOp.exec) b buf = .ok (rs,p) ∧
      slotDirRef p = .ok dir ∧
      dir.slotCount = (logicalList (.initInPlace lsn :: ops) rs).length ∧
      (∀ b' i (hi : i < (logicalList (.initInPlace lsn :: ops) rs).length),
        readPair b' p ⟨UInt16.ofNat i⟩ = .ok (.ok (logicalList (.initInPlace lsn :: ops) rs)[i])) ∧
      dir.iter.collect p = .ok es ∧
      ∀ b', es.mapM (entryPair b' p) = .ok (logicalList (.initInPlace lsn :: ops) rs) := by
  obtain ⟨p,hrun,hr⟩ := indexRun b buf lsn ops h
  have hok := hr.layout.headerOk
  refine ⟨_,p,_,_,hrun,slotDirRef_eq hok.low,?_,?_,collect_iter hok,?_⟩
  · rw [slotCount_eq,hr.layout.dirCount_eq,IndexModel.slots_length,trace_pairs]
  · intro b' i hi
    simp only [← trace_pairs] at hi ⊢
    exact hr.readPair_eq b' hi
  · intro b'
    rw [← trace_pairs,hr.layout.dirCount_eq,hr.layout.directory]
    exact hr.mapM_entryPair b'

theorem index_page_refines_front_insertion :
    (∀ op ∈ [IndexOp.append [1] ⟨5⟩,.insertAt 0 [] ⟨7⟩], op.Accepted) ∧
      ∃ rs p, Prog.runAll ([IndexOp.initInPlace 3,.append [1] ⟨5⟩,.insertAt 0 [] ⟨7⟩].map
          IndexOp.exec) .debug (Buf.fill 4096 255) = .ok (rs,p) ∧
        ∀ b' i (hi : i <
            (logicalList [.initInPlace 3,.append [1] ⟨5⟩,.insertAt 0 [] ⟨7⟩] rs).length),
          readPair b' p ⟨UInt16.ofNat i⟩ =
            .ok (.ok (logicalList [.initInPlace 3,.append [1] ⟨5⟩,.insertAt 0 [] ⟨7⟩] rs)[i]) := by
  refine ⟨by decide,?_⟩
  obtain ⟨rs,p,dir,es,hrun,-,-,hpairs,-⟩ := index_page_refines_list .debug (Buf.fill 4096 255) 3
    [.append [1] ⟨5⟩,.insertAt 0 [] ⟨7⟩] (by decide)
  exact ⟨rs,p,hrun,hpairs⟩

/-! Header registers -/

structure Registers where
  lsn : UInt64
  pageType : PageType
  sibling : UInt64

def IndexModel.registers (m : IndexModel) : Registers := ⟨m.lsn,m.pageType,m.sibling⟩

def IndexOp.onRegisters (r : Registers) : IndexOp → Registers
  | .initInPlace lsn => ⟨lsn,⟨2⟩,0⟩
  | .append _ _ => r
  | .insertAt _ _ _ => r
  | .setRightSibling id => { r with sibling := id.val }
  | .setLevel level => { r with pageType := r.pageType.setSubtypePageBits level.val }
  | .setPageType kind => { r with pageType := ⟨kind.toU8⟩ }

theorem addAt_keeps_registers (index : Nat) (kc : Pair) (m : IndexModel) :
    (m.addAt index kc).2.registers = m.registers := by
  obtain ⟨hlsn,htype,hsib⟩ := m.addAt_registers index kc
  simp only [IndexModel.registers,hlsn,htype,hsib]

theorem trace_registers (ops : List IndexOp) (lsn : UInt64) :
    (Prog.trace IndexOp.step ops (.fresh lsn)).2.registers =
      ops.foldl IndexOp.onRegisters ⟨lsn,⟨2⟩,0⟩ :=
  Prog.trace_view IndexOp.step IndexModel.registers IndexOp.onRegisters ops
    (fun op _ m => by
      cases op with
      | append key child => exact addAt_keeps_registers _ _ m
      | insertAt index key child => exact addAt_keeps_registers _ _ m
      | initInPlace _ | setRightSibling _ | setLevel _ | setPageType _ => rfl) (.fresh lsn)

/-- A register, followed through a run. -/
theorem trace_register {κ : Type} (view : Registers → κ) (f : κ → IndexOp → κ)
    (ops : List IndexOp) (h : ∀ op ∈ ops, ∀ r, view (IndexOp.onRegisters r op) = f (view r) op)
    (lsn : UInt64) :
    view (Prog.trace IndexOp.step ops (.fresh lsn)).2.registers =
      ops.foldl f (view ⟨lsn,⟨2⟩,0⟩) := by
  rw [trace_registers]
  exact Prog.foldl_view view IndexOp.onRegisters f ops h _

/-- `none` while no sibling is set; page 0 counts as none. -/
def IndexModel.siblingId (m : IndexModel) : Option PageID :=
  if m.sibling = 0 then none else some ⟨m.sibling⟩

theorem u64ToLeBytes_eq_zero (v : UInt64) : u64ToLeBytes v = List.replicate 8 0 ↔ v = 0 := by
  constructor
  · intro h
    exact u64ToLeBytes_injective (h.trans (by decide : _ = u64ToLeBytes 0))
  · rintro rfl
    decide

section Siblings
variable {m : IndexModel} {p : RawPage} (hr : IndexRepresents m p) (b : Build)
include hr

theorem IndexRepresents.hasRightSibling_eq :
    IndexPageMut.hasRightSibling b p = .ok m.siblingId.isSome := by
  have hb : (Slice.mk p 4088 8 (by omega)).bytes = u64ToLeBytes m.sibling := hr.sibling
  have hi : (Slice.mk p 4080 16 (by omega)).index rightSiblingOffset (rightSiblingOffset+8) =
      .ok ⟨p,4088,8,by omega⟩ := rfl
  rw [IndexPageMut.hasRightSibling,SlottedPageMut.getSpecialRef,hr.getSpecialRef_eq b]
  simp only [Exec.ok_bind,hi,hb,IndexModel.siblingId,Exec.pure_eq]
  by_cases hz : m.sibling = 0
  · rw [if_pos hz,(u64ToLeBytes_eq_zero _).mpr hz]
    rfl
  · have hne : u64ToLeBytes m.sibling ≠ List.replicate 8 0 := fun h =>
      hz ((u64ToLeBytes_eq_zero _).mp h)
    rw [if_neg hz,bne_iff_ne.mpr hne]
    rfl

theorem IndexRepresents.getRightSibling_eq :
    IndexPageRef.getRightSibling b p = .ok m.siblingId := by
  have hv : p.le 4088 8 = m.sibling.toNat := by rw [Buf.le,hr.sibling,decodeLe_u64]
  rw [IndexPageRef.getRightSibling,hr.getSpecialRef_eq b,Exec.ok_bind]
  simp only [rightSiblingOffset]
  rw [readU64LeUnsafe_ok _ (by omega),hv,UInt64.ofNat_toNat]
  rfl

end Siblings

def lastSiblingStep (s : Option PageID) : IndexOp → Option PageID
  | .initInPlace _ => none
  | .setRightSibling id => some id
  | _ => s

/-- The page id passed to the last `set_right_sibling` since the last initialisation. -/
def lastSibling (ops : List IndexOp) : Option PageID := ops.foldl lastSiblingStep none

/-- The sibling a reader should see: none if unset or set to page 0. -/
def currentSibling (ops : List IndexOp) : Option PageID :=
  (lastSibling ops).filter (fun id => id.val ≠ 0)

def IndexOp.Later : IndexOp → Prop
  | .initInPlace _ => False
  | op => op.Accepted

instance : (op : IndexOp) → Decidable op.Later
  | .initInPlace _ => inferInstanceAs (Decidable False)
  | .append key child => inferInstanceAs (Decidable (IndexOp.append key child).Accepted)
  | .insertAt index key child =>
      inferInstanceAs (Decidable (IndexOp.insertAt index key child).Accepted)
  | .setRightSibling _ | .setLevel _ | .setPageType _ => inferInstanceAs (Decidable True)

theorem IndexOp.Later.accepted {op : IndexOp} (h : op.Later) : op.Accepted := by
  cases op with
  | initInPlace _ => trivial
  | append _ _ | insertAt _ _ _ | setRightSibling _ | setLevel _ | setPageType _ => exact h

def siblingField (s : Option PageID) : UInt64 := (s.map PageID.val).getD 0

theorem trace_siblingField (ops : List IndexOp) (lsn : UInt64) :
    (Prog.trace IndexOp.step ops (.fresh lsn)).2.sibling = siblingField (lastSibling ops) := by
  let f (v : UInt64) (op : IndexOp) : UInt64 :=
    match op with
    | .initInPlace _ => 0
    | .setRightSibling id => id.val
    | _ => v
  have hview := trace_register Registers.sibling f ops
    (fun op _ r => by cases op <;> rfl) lsn
  have hhom : ops.foldl f (siblingField none) = siblingField (lastSibling ops) :=
    List.foldl_hom siblingField (fun s op => by cases op <;> rfl)
  exact hview.trans hhom

theorem trace_sibling (ops : List IndexOp) (lsn : UInt64) :
    (Prog.trace IndexOp.step ops (.fresh lsn)).2.siblingId = currentSibling ops := by
  rw [IndexModel.siblingId,trace_siblingField,currentSibling]
  cases lastSibling ops with
  | none => rfl
  | some id => by_cases hz : id.val = 0 <;> simp [siblingField,hz,Option.filter]

theorem trace_lsn {ops : List IndexOp} (lsn : UInt64) (h : ∀ op ∈ ops, op.Later) :
    (Prog.trace IndexOp.step ops (.fresh lsn)).2.lsn = lsn := by
  have hview := trace_register Registers.lsn (fun v _ => v) ops
    (fun op hop r => by
      cases op with
      | initInPlace _ => exact (h _ hop).elim
      | append _ _ | insertAt _ _ _ | setRightSibling _ | setLevel _ | setPageType _ => rfl) lsn
  rwa [List.foldl_fixed] at hview

theorem registers_survive (b : Build) (buf : RawPage) (lsn : UInt64) (ops : List IndexOp)
    (h : ∀ op ∈ ops, op.Later) :
    ∃ rs p, Prog.runAll ((.initInPlace lsn :: ops).map IndexOp.exec) b buf = .ok (rs,p) ∧
      getLsn p = lsn ∧ getSpecialOffset p = 4080 ∧ getFlags p = 0 ∧
      ∀ b', IndexPageRef.getRightSibling b' p = .ok (currentSibling ops) ∧
        IndexPageMut.hasRightSibling b' p = .ok (currentSibling ops).isSome ∧
        IndexPageRef.hasRightSibling b' p = .ok (currentSibling ops).isSome := by
  obtain ⟨p,hrun,hr⟩ := indexRun b buf lsn ops (fun op hop => (h op hop).accepted)
  refine ⟨_,p,hrun,?_,hr.special,hr.flags,?_⟩
  · rw [hr.lsn,trace_lsn lsn h]
  · intro b'
    have hg := hr.getRightSibling_eq b'
    have hh := hr.hasRightSibling_eq b'
    rw [trace_sibling] at hg hh
    exact ⟨hg,hh,hh⟩

theorem registers_survive_sibling_then_cell :
    (∀ op ∈ [IndexOp.setRightSibling ⟨9⟩,.append [1] ⟨5⟩], op.Later) ∧
      ∃ rs p, Prog.runAll ([IndexOp.initInPlace 3,.setRightSibling ⟨9⟩,.append [1] ⟨5⟩].map
          IndexOp.exec) .release (Buf.fill 4096 255) = .ok (rs,p) ∧
        getLsn p = 3 ∧ IndexPageRef.getRightSibling .debug p = .ok (some ⟨9⟩) := by
  refine ⟨by decide,?_⟩
  obtain ⟨rs,p,hrun,hlsn,-,-,hsib⟩ := registers_survive .release (Buf.fill 4096 255) 3
    [.setRightSibling ⟨9⟩,.append [1] ⟨5⟩] (by decide)
  exact ⟨rs,p,hrun,hlsn,(hsib .debug).1⟩

/-! Page kind and level share one byte. -/

def lastKindStep (k : PageKind) : IndexOp → PageKind
  | .initInPlace _ => .indexInternal
  | .setPageType kind => kind
  | _ => k

def lastKind (ops : List IndexOp) : PageKind := ops.foldl lastKindStep .indexInternal

def lastLevelStep (l : IndexLevel) : IndexOp → IndexLevel
  | .initInPlace _ => ⟨0⟩
  | .setLevel level => level
  | _ => l

def lastLevel (ops : List IndexOp) : IndexLevel := ops.foldl lastLevelStep ⟨0⟩

def storedLevelStep (l : IndexLevel) : IndexOp → IndexLevel
  | .initInPlace _ => ⟨0⟩
  | .setPageType _ => ⟨0⟩
  | .setLevel level => level
  | _ => l

/-- The level the page really holds: `set_page_type` resets it. -/
def storedLevel (ops : List IndexOp) : IndexLevel := ops.foldl storedLevelStep ⟨0⟩

/-- A call within the bit field of the level. -/
def IndexOp.LevelFits : IndexOp → Prop
  | .setLevel level => level.val ≤ 15
  | _ => True

instance : (op : IndexOp) → Decidable op.LevelFits
  | .setLevel level => inferInstanceAs (Decidable (level.val ≤ 15))
  | .initInPlace _ | .append _ _ | .insertAt _ _ _ | .setRightSibling _ | .setPageType _ =>
      inferInstanceAs (Decidable True)

theorem initial_kind_level :
    (PageType.mk 2).pageKind = .indexInternal ∧ (PageType.mk 2).pageSubType = 0 := by decide

theorem trace_kind (ops : List IndexOp) (lsn : UInt64) :
    (Prog.trace IndexOp.step ops (.fresh lsn)).2.pageType.pageKind = lastKind ops := by
  have hview := trace_register (fun r => r.pageType.pageKind) lastKindStep ops
    (fun op _ r => by
      cases op with
      | initInPlace _ => exact initial_kind_level.1
      | setLevel level => exact r.pageType.pageKind_setSubtypePageBits level.val
      | setPageType kind => exact (PageType.ofKind kind).1
      | append _ _ | insertAt _ _ _ | setRightSibling _ => rfl) lsn
  rwa [initial_kind_level.1] at hview

theorem trace_level {ops : List IndexOp} (lsn : UInt64) (h : ∀ op ∈ ops, op.LevelFits) :
    IndexLevel.mk (Prog.trace IndexOp.step ops (.fresh lsn)).2.pageType.pageSubType =
      storedLevel ops := by
  have hview := trace_register (fun r => IndexLevel.mk r.pageType.pageSubType)
    storedLevelStep ops
    (fun op hop r => by
      cases op with
      | initInPlace _ => exact congrArg IndexLevel.mk initial_kind_level.2
      | setLevel level =>
        have hl : level.val ≤ 15 := h _ hop
        simp only [IndexOp.onRegisters,PageType.pageSubType_setSubtypePageBits,
          and_pageTypeMask_of_le hl,storedLevelStep]
      | setPageType kind =>
        simp only [IndexOp.onRegisters,(PageType.ofKind kind).2,storedLevelStep]
      | append _ _ | insertAt _ _ _ | setRightSibling _ => rfl) lsn
  rwa [initial_kind_level.2] at hview

/-- After the run, `kind()` and `level()` of both views answer what was last set. -/
def KindLevelAgree (b : Build) (buf : RawPage) (lsn : UInt64) (ops : List IndexOp) : Prop :=
  ∃ rs p, Prog.runAll ((.initInPlace lsn :: ops).map IndexOp.exec) b buf = .ok (rs,p) ∧
    IndexPageMut.kind p = lastKind ops ∧ IndexPageRef.kind p = lastKind ops ∧
    IndexPageMut.level p = .ok (lastLevel ops) ∧ IndexPageRef.level p = .ok (lastLevel ops)

section KindLevel
variable (b : Build) (buf : RawPage) (lsn : UInt64) {ops : List IndexOp}
  (h : ∀ op ∈ ops, op.Later) (hl : ∀ op ∈ ops, op.LevelFits)
include h hl

theorem kind_level_run :
    ∃ rs p, Prog.runAll ((.initInPlace lsn :: ops).map IndexOp.exec) b buf = .ok (rs,p) ∧
      IndexPageMut.kind p = lastKind ops ∧ IndexPageMut.level p = .ok (storedLevel ops) := by
  obtain ⟨p,hrun,hr⟩ := indexRun b buf lsn ops (fun op hop => (h op hop).accepted)
  have ht : IndexPageMut.getPageType p =
      (Prog.trace IndexOp.step ops (.fresh lsn)).2.pageType := by
    rw [IndexPageMut.getPageType,SlottedPageMut.getPageType,hr.pageType]
  refine ⟨_,p,hrun,?_,?_⟩
  · rw [IndexPageMut.kind,ht,trace_kind]
  · rw [IndexPageMut.level,ht,IndexLevel.new_ok (PageType.pageSubType_le _),trace_level lsn hl]

theorem kindLevelAgree_iff : KindLevelAgree b buf lsn ops ↔ storedLevel ops = lastLevel ops := by
  obtain ⟨rs,p,hrun,hkind,hlevel⟩ := kind_level_run b buf lsn h hl
  constructor
  · rintro ⟨rs',p',hrun',_,_,hlevel',_⟩
    rw [hrun] at hrun'
    cases hrun'
    rw [hlevel] at hlevel'
    exact Except.ok.inj hlevel'
  · intro he
    rw [he] at hlevel
    exact ⟨rs,p,hrun,hkind,hkind,hlevel,hlevel⟩

end KindLevel

theorem storedLevel_eq_lastLevel {ops : List IndexOp} (h : ∀ op ∈ ops, op.Later)
    (hc : ∀ pre kind, pre ++ [.setPageType kind] <+: ops → lastLevel pre = ⟨0⟩) :
    storedLevel ops = lastLevel ops := by
  induction ops using List.reverseRecOn with
  | nil => rfl
  | append_singleton pre op ih =>
    have hpre := ih (fun o ho => h o (by simp [ho]))
      (fun q kind hq => hc q kind (hq.trans (List.prefix_append pre [op])))
    have hs : storedLevel (pre ++ [op]) = storedLevelStep (storedLevel pre) op := by
      simp [storedLevel]
    have hl : lastLevel (pre ++ [op]) = lastLevelStep (lastLevel pre) op := by
      simp [lastLevel]
    rw [hs,hl,hpre]
    cases op with
    | setPageType kind =>
      -- the one step where the two registers can part
      exact (hc pre kind (List.prefix_refl _)).symm
    | initInPlace _ | append _ _ | insertAt _ _ _ | setRightSibling _ | setLevel _ => rfl

theorem kind_level_agree_iff (b : Build) (buf : RawPage) (lsn : UInt64) (ops : List IndexOp)
    (h : ∀ op ∈ ops, op.Later) (hl : ∀ op ∈ ops, op.LevelFits) :
    (∀ pre, pre <+: ops → KindLevelAgree b buf lsn pre) ↔
      ∀ pre kind, pre ++ [.setPageType kind] <+: ops → lastLevel pre = ⟨0⟩ := by
  have hp : ∀ pre, pre <+: ops → (∀ op ∈ pre, op.Later) ∧ (∀ op ∈ pre, op.LevelFits) :=
    fun pre hpre => ⟨fun op hop => h op (hpre.subset hop),fun op hop => hl op (hpre.subset hop)⟩
  constructor
  · intro hagree pre kind hpre
    have ha := (kindLevelAgree_iff b buf lsn (hp _ hpre).1 (hp _ hpre).2).mp (hagree _ hpre)
    simp only [storedLevel,lastLevel,List.foldl_append,List.foldl_cons,List.foldl_nil,
      storedLevelStep,lastLevelStep] at ha
    exact ha.symm
  · intro hc pre hpre
    apply (kindLevelAgree_iff b buf lsn (hp _ hpre).1 (hp _ hpre).2).mpr
    exact storedLevel_eq_lastLevel (hp _ hpre).1 (fun q kind hq => hc q kind (hq.trans hpre))

theorem set_page_type_clobbers_level :
    ¬ ∀ (b : Build) (buf : RawPage) (lsn : UInt64) (ops : List IndexOp),
      (∀ op ∈ ops, op.Later) → (∀ op ∈ ops, op.LevelFits) → KindLevelAgree b buf lsn ops := by
  intro hall
  have h := hall .release (Buf.fill 4096 0) 1 [.setLevel ⟨3⟩,.setPageType .indexLeaf]
    (by decide) (by decide)
  have hs := (kindLevelAgree_iff .release (Buf.fill 4096 0) 1 (by decide) (by decide)).mp h
  revert hs
  decide

theorem kind_level_agree_kind_first :
    (∀ op ∈ [IndexOp.setPageType .indexLeaf,.setLevel ⟨3⟩], op.Later ∧ op.LevelFits) ∧
      KindLevelAgree .debug (Buf.fill 4096 7) 1 [.setPageType .indexLeaf,.setLevel ⟨3⟩] := by
  refine ⟨by decide,?_⟩
  apply (kind_level_agree_iff .debug (Buf.fill 4096 7) 1
    [.setPageType .indexLeaf,.setLevel ⟨3⟩] (by decide) (by decide)).mpr _ _ (List.prefix_refl _)
  intro pre kind hpre
  have hlen := hpre.length_le
  rcases pre with _ | ⟨a,_ | ⟨c,pre⟩⟩
  · rfl
  · simp at hpre
  · simp at hlen

end InkDB
