import InkDB.IndexModel
import InkDB.ProgLogic

/-!
Index cells. `IndexCellOwned::new` and the getters of `IndexCell` are inverse on
the cells of the format; on other bytes a release build takes the key length as
the cell gives it.
-/

set_option autoImplicit false

namespace InkDB
open SlottedPageRef

/-! The codec -/

structure IsIndexCell (c : List UInt8) : Prop where
  low : 10 ≤ c.length
  high : c.length < 4068
  keyLen : decodeLe ((c.drop 8).take 2) = c.length-10

theorem IsIndexCell.spelled {c : List UInt8} (h : IsIndexCell c) :
    indexCellBytes (c.drop 10) ⟨UInt64.ofNat (decodeLe (c.take 8))⟩ = c := by
  have hlow := h.low
  have hchild : (c.take 8).length = 8 := by simp; omega
  have hlen : ((c.drop 8).take 2).length = 2 := by simp; omega
  have hkey : (c.drop 10).length = decodeLe ((c.drop 8).take 2) := by
    rw [h.keyLen,List.length_drop]
  rw [indexCellBytes,u64ToLeBytes_decodeLe hchild,hkey,u16ToLeBytes_decodeLe hlen]
  calc c.take 8 ++ (c.drop 8).take 2 ++ c.drop 10
      = c.take 8 ++ ((c.drop 8).take 2 ++ (c.drop 8).drop 2) := by
        rw [List.drop_drop,List.append_assoc]
    _ = c := by rw [List.take_append_drop,List.take_append_drop]

theorem isIndexCell_bytes {key : Key} (child : PageID) (h : AcceptedKey key) :
    IsIndexCell (indexCellBytes key child) := by
  have hlt : 10+key.length < 4068 := h
  refine ⟨?_,?_,?_⟩
  · rw [indexCellBytes_length]
    omega
  · rw [indexCellBytes_length]
    exact hlt
  · have hdrop : ((indexCellBytes key child).drop 8).take 2 =
        u16ToLeBytes (UInt16.ofNat key.length) := by
      simp [indexCellBytes]
    rw [hdrop,decodeLe_u16,u16_toNat (by omega),indexCellBytes_length]
    omega

/-- `impl Deref for IndexCellOwned`. -/
def IndexCellOwned.deref (c : IndexCellOwned) : Slice c.bytes.length := .whole c.bytes

theorem decodePair_bytes (b : Build) {n : Nat} {s : Slice n} {key : Key} {child : PageID}
    (h : AcceptedKey key) (hs : s.bytes = indexCellBytes key child) :
    decodePair b s = .ok (key,child) := by
  have hlt : 10+key.length < 4068 := h
  exact @decodePair_eq n b s (key,child) hs (show key.length < 65536 by omega)

/-- Encoding and decoding are inverse, and every cell of the format is encoded,
wherever its bytes lie. -/
theorem index_cell_codec (b : Build) :
    (∀ (key : Key) (child : PageID), 10+key.length < 4068 →
      ∃ c, IndexCellOwned.new key child = .ok c ∧ IsIndexCell c.bytes ∧
        decodePair b c.deref = .ok (key,child)) ∧
    ∀ (n : Nat) (s : Slice n), IsIndexCell s.bytes →
      ∃ key child c, decodePair b s = .ok (key,child) ∧
        IndexCellOwned.new key child = .ok c ∧ c.bytes = s.bytes := by
  refine ⟨fun key child h => ?_,fun n s h => ?_⟩
  · exact ⟨_,new_ok child h,isIndexCell_bytes child h,
      decodePair_bytes b h (Slice.whole_bytes _)⟩
  · have hlow := h.low
    have hhigh := h.high
    have hkey : AcceptedKey (s.bytes.drop 10) := by
      show 10+(s.bytes.drop 10).length < 4068
      rw [List.length_drop]
      omega
    exact ⟨_,_,_,decodePair_bytes b hkey h.spelled.symm,new_ok _ hkey,h.spelled⟩

/-! The cells of a search -/

def SlotDirIter.forEachLogged {ν β : Type} (p : RawPage)
    (body : SlotEntry → Logged ν (Option β)) : Nat → SlotDirIter → Logged ν (Option β)
  | 0, _ => pure none
  | k+1, it => do
      match ← Logged.lift (it.nextEntry p) with
      | (none,_) => pure none
      | (some se,it) =>
          match ← body se with
          | some r => pure (some r)
          | none => forEachLogged p body k it

theorem forEachLogged_result {ν β : Type} (p : RawPage) (body : SlotEntry → Logged ν (Option β))
    (k : Nat) (it : SlotDirIter) : (it.forEachLogged p body k).result =
      it.forEach p (fun se => (body se).result) k := by
  induction k generalizing it with
  | zero => rfl
  | succ k ih =>
    rw [SlotDirIter.forEachLogged,SlotDirIter.forEach,Logged.result_bind,Logged.result_lift]
    apply bind_congr
    rintro ⟨_ | se,it'⟩
    · rfl
    · simp only
      rw [Logged.result_bind]
      apply bind_congr
      rintro (_ | r)
      · exact ih it'
      · rfl

namespace IndexPageRef

/-- `find_child_ptr` once more, noting every cell that came through
`IndexCell::from`. -/
def findChildStepLogged (b : Build) (p : RawPage) (key : Key) (se : SlotEntry) :
    Logged (IndexCell 4096) (Option PageID) := do
  let slice ← Logged.lift (SlottedPageRef.cellSliceFromEntry b p se)
  let cell ← Logged.lift (IndexCell.fromSlice slice)
  Logged.note cell
  let cellKey ← Logged.lift (cell.getKey b)
  if key < cellKey.bytes then do
    let child ← Logged.lift cell.getValuePtr
    pure (some child)
  else pure none

def findChildFromLogged (b : Build) (p : RawPage) (key : Key) (skip : Nat) :
    Logged (IndexCell 4096) (Except IndexPageError (Option PageID)) := do
  let slotDir ← Logged.lift (SlottedPageRef.slotDirRef p)
  let it ← Logged.lift (slotDir.iter.skip p skip)
  let found ← it.forEachLogged p (findChildStepLogged b p key) it.remaining
  pure (.ok found)

def highKeyLogged (b : Build) (p : RawPage) (key : Key) :
    Logged (IndexCell 4096) (Except IndexPageError (Option PageID)) := do
  match ← Logged.lift (SlottedPageRef.cellSliceFromId p ⟨0⟩) with
  | .error e => pure (.error (.pageError e))
  | .ok hkc => do
      let highKeyCell ← Logged.lift (IndexCell.fromSlice hkc)
      Logged.note highKeyCell
      let highKey ← Logged.lift (highKeyCell.getKey b)
      if key > highKey.bytes then do
        let sibling ← Logged.lift (getRightSibling b p)
        pure (.ok sibling)
      else findChildFromLogged b p key 1

def findChildPtrLogged (b : Build) (p : RawPage) (key : Key) :
    Logged (IndexCell 4096) (Except IndexPageError (Option PageID)) := do
  if ← Logged.lift (hasRightSibling b p) then highKeyLogged b p key
  else findChildFromLogged b p key 0

theorem findChildStepLogged_result (b : Build) (p : RawPage) (key : Key) (se : SlotEntry) :
    (findChildStepLogged b p key se).result = findChildStep b p key se := by
  simp only [findChildStepLogged,findChildStep,Logged.result_bind,Logged.result_lift]
  apply bind_congr
  intro slice
  apply bind_congr
  intro cell
  simp only [Logged.note,Exec.ok_bind]
  apply bind_congr
  intro cellKey
  split
  · rw [Logged.result_bind]
    rfl
  · rfl

theorem findChildFromLogged_result (b : Build) (p : RawPage) (key : Key) (skip : Nat) :
    (findChildFromLogged b p key skip).result = findChildFrom b p key skip := by
  have hbody : (fun se => (findChildStepLogged b p key se).result) = findChildStep b p key :=
    funext (findChildStepLogged_result b p key)
  simp only [findChildFromLogged,findChildFrom,SlotDirIter.forIn,Logged.result_bind,
    Logged.result_lift,forEachLogged_result,hbody]
  rfl

theorem findChildPtrLogged_result (b : Build) (p : RawPage) (key : Key) :
    (findChildPtrLogged b p key).result = findChildPtr b p key := by
  simp only [findChildPtrLogged,findChildPtr,Logged.result_bind,Logged.result_lift]
  apply bind_congr
  intro sibling
  cases sibling with
  | false => exact findChildFromLogged_result b p key 0
  | true =>
    simp only [if_true,highKeyLogged,Logged.result_bind,Logged.result_lift]
    apply bind_congr
    rintro (e | hkc)
    · rfl
    · simp only [Logged.result_bind,Logged.result_lift,Logged.note,Exec.ok_bind]
      apply bind_congr
      intro cell
      apply bind_congr
      intro highKey
      split
      · rw [Logged.result_bind]
        rfl
      · exact findChildFromLogged_result b p key 1

end IndexPageRef

/-! Keys and cells -/

/-- The key is returned and is a range of the cell, made of the cell's bytes. -/
def KeyInside {n : Nat} (c : IndexCell n) : Prop :=
  ∃ k, c.getKey .release = .ok k ∧ k.mem = c.cell.mem ∧ c.cell.start ≤ k.start ∧
    k.start+k.len ≤ c.cell.start+c.cell.len ∧ k.bytes = (c.cell.bytes.drop 10).take k.len

theorem le_two_lt {n : Nat} (m : Buf n) (o : Nat) : m.le o 2 < 65536 := by
  have h := decodeLe_lt (m.read o 2)
  rwa [Buf.read_length] at h

theorem getKey_release {n : Nat} (c : IndexCell n) :
    c.getKey .release =
      c.cell.mem.fromRawParts (c.cell.start+10) (c.cell.mem.le (c.cell.start+8) 2) := by
  have hb := c.cell.inBounds
  have ht := c.tall
  simp only [IndexCell.getKey,keyLenOffset,keyDataOffset]
  rw [readU16LeUnsafe_ok _ (by omega),Exec.ok_bind,u16_toNat (le_two_lt _ _)]
  rfl

theorem keyInside_iff {n : Nat} (c : IndexCell n) :
    KeyInside c ↔ 10+c.cell.mem.le (c.cell.start+8) 2 ≤ c.cell.len := by
  have hb := c.cell.inBounds
  rw [KeyInside,getKey_release]
  constructor
  · rintro ⟨k,hk,-,-,hrange,-⟩
    unfold Buf.fromRawParts at hk
    split at hk
    · cases hk
      simp only at hrange
      omega
    · cases hk
  · intro h
    refine ⟨_,Buf.fromRawParts_ok _ (by omega),rfl,Nat.le_add_right _ _,?_,?_⟩
    · simp only
      omega
    · exact (Buf.read_drop_take _ (by omega)).symm

section Fits
variable (p : RawPage) (key : Key)

/-- The length field of the cell at an entry, and the key that it announces. -/
def keyLenAt (e : SlotEntry) : Nat := p.le (e.offset.toNat+8) 2

def keyAt (e : SlotEntry) : Key := p.read (e.offset.toNat+10) (keyLenAt p e)

def SlotEntry.Opens (e : SlotEntry) : Prop :=
  e.offset.toNat+e.length.toNat ≤ 4096 ∧ 10 ≤ e.length.toNat

/-- The announced key ends with its cell, and with the page. -/
def KeyFits (e : SlotEntry) : Prop := 10+keyLenAt p e ≤ e.length.toNat

def KeyEnds (e : SlotEntry) : Prop := e.offset.toNat+10+keyLenAt p e ≤ 4096

/-- Slot by slot, until a key above the search key or a cell that does not open
ends the search, the cells are good. When no cell ends it, only the slot count
does, and the slots it counts must lie in the page. -/
def SlotsMeet (good : SlotEntry → Prop) : List SlotEntry → Prop
  | [] => dirCount p ≤ 1018
  | e :: es => e.Opens → good e ∧ (¬ key < keyAt p e → SlotsMeet good es)

def slotsInPage : List SlotEntry := entriesOf p (min (dirCount p) 1018)

/-- The same for the whole search: with a right sibling the first cell is the
high key, which a larger search key stops at. -/
def SearchMeets (good : SlotEntry → Prop) : Prop :=
  24 ≤ freeStart p →
    match IndexPageRef.hasRightSibling .release p with
    | .error _ => True
    | .ok false => SlotsMeet p key good (slotsInPage p)
    | .ok true =>
        match slotsInPage p with
        | [] => True
        | e :: es => e.Opens → good e ∧ (¬ keyAt p e < key → SlotsMeet p key good es)

def CellsFit : Prop := SearchMeets p key (KeyFits p)

def KeysEndInPage : Prop := SearchMeets p key (KeyEnds p)

end Fits

section Siblings
variable {b : Build} {p : RawPage}

theorem Buf.index_defined {k : Nat} (m : Buf k) (lo hi : Nat) : (m.index lo hi).Defined := by
  unfold Buf.index
  split
  · exact Exec.defined_ok _
  · exact Exec.defined_panic _

theorem Slice.index_defined {k : Nat} (s : Slice k) (lo hi : Nat) : (s.index lo hi).Defined := by
  unfold Slice.index
  split
  · exact Exec.defined_ok _
  · exact Exec.defined_panic _

theorem getSpecialRef_defined (p : RawPage) : (getSpecialRef b p).Defined := by
  unfold getSpecialRef
  simp only
  split
  · exact Exec.defined_ok _
  · refine (usizeSub_defined b _ _).bind fun size _ => (assert_defined _).bind fun _ _ => ?_
    exact (Buf.index_defined p _ _).bind fun _ _ => Exec.defined_ok _

theorem hasRightSibling_defined (p : RawPage) : (IndexPageRef.hasRightSibling b p).Defined := by
  unfold IndexPageRef.hasRightSibling IndexPageMut.hasRightSibling
  refine (getSpecialRef_defined p).bind fun r _ => ?_
  cases r with
  | error e => exact Exec.defined_ok _
  | ok special => exact (Slice.index_defined _ _ _).bind fun _ _ => Exec.defined_ok _

/-- The check of `has_right_sibling` covers the raw read of `get_right_sibling`. -/
theorem getRightSibling_defined {sib : Bool} (h : IndexPageRef.hasRightSibling b p = .ok sib) :
    (IndexPageRef.getRightSibling b p).Defined := by
  unfold IndexPageRef.hasRightSibling IndexPageMut.hasRightSibling at h
  obtain ⟨r,hr,h⟩ := Exec.bind_eq_ok.mp h
  rw [IndexPageRef.getRightSibling,show getSpecialRef b p = .ok r from hr,Exec.ok_bind]
  cases r with
  | error e => exact Exec.defined_ok _
  | ok special =>
    obtain ⟨field,hf,-⟩ := Exec.bind_eq_ok.mp h
    have hin := special.inBounds
    unfold Slice.index at hf
    split at hf
    · rename_i hlen
      simp only [rightSiblingOffset] at hlen
      refine Exec.Defined.bind ?_ fun _ _ => Exec.defined_ok _
      rw [readU64LeUnsafe_ok _ (by simp only [rightSiblingOffset]; omega)]
      exact Exec.defined_ok _
    · cases hf

end Siblings

section Step
variable {p : RawPage} (key : Key) {e : SlotEntry}
open IndexPageRef

theorem cellSliceFromEntry_release (h : e.offset.toNat+e.length.toNat ≤ 4096) :
    cellSliceFromEntry .release p e = .ok ⟨p,e.offset.toNat,e.length.toNat,h⟩ := by
  simp only [cellSliceFromEntry,debugAssert]
  rw [Exec.pure_eq,Exec.ok_bind,Buf.index_ok p ⟨Nat.le_add_right _ _,h⟩]
  simp only [Nat.add_sub_cancel_left]

theorem findChildStepLogged_shut (h : ¬ e.Opens) :
    ∃ x, findChildStepLogged .release p key e = ⟨[],.error (.panic x)⟩ := by
  by_cases hb : e.offset.toNat+e.length.toNat ≤ 4096
  · have ht : ¬ 10 ≤ e.length.toNat := fun ht => h ⟨hb,ht⟩
    refine ⟨.assertion,?_⟩
    rw [findChildStepLogged,Logged.lift_bind (cellSliceFromEntry_release hb),
      Logged.lift_bind_error (IndexCell.fromSlice_short ht)]
  · refine ⟨.sliceIndex,?_⟩
    have hpanic : cellSliceFromEntry .release p e = .error (.panic .sliceIndex) := by
      simp only [cellSliceFromEntry,debugAssert,Buf.index]
      rw [Exec.pure_eq,Exec.ok_bind,dif_neg (fun hi => hb hi.2)]
      rfl
    rw [findChildStepLogged,Logged.lift_bind_error hpanic]

def SlotEntry.Opens.cell (h : e.Opens) (p : RawPage) : IndexCell 4096 :=
  ⟨⟨p,e.offset.toNat,e.length.toNat,h.1⟩,h.2⟩

theorem keyInside_cell (h : e.Opens) : KeyInside (h.cell p) ↔ KeyFits p e :=
  keyInside_iff (h.cell p)

theorem KeyFits.ends (h : e.Opens) (hf : KeyFits p e) : KeyEnds p e := by
  have hb := h.1
  have hfit : 10+keyLenAt p e ≤ e.length.toNat := hf
  show e.offset.toNat+10+keyLenAt p e ≤ 4096
  omega

theorem getKey_ends (h : e.Opens) (hf : KeyEnds p e) :
    ∃ k, (h.cell p).getKey .release = .ok k ∧ k.bytes = keyAt p e := by
  refine ⟨⟨p,e.offset.toNat+10,keyLenAt p e,hf⟩,?_,rfl⟩
  rw [getKey_release]
  exact Buf.fromRawParts_ok p hf

theorem getKey_runs_off (h : e.Opens) (hf : ¬ KeyEnds p e) :
    (h.cell p).getKey .release = .error .undefinedBehaviour := by
  rw [getKey_release]
  exact dif_neg hf

theorem findChildStepLogged_opens (h : e.Opens) : findChildStepLogged .release p key e =
    (do
      Logged.note (h.cell p)
      let cellKey ← Logged.lift ((h.cell p).getKey .release)
      if key < cellKey.bytes then do
        let child ← Logged.lift (h.cell p).getValuePtr
        pure (some child)
      else pure none) := by
  rw [findChildStepLogged,Logged.lift_bind (cellSliceFromEntry_release h.1),
    Logged.lift_bind (IndexCell.fromSlice_ok h.2)]
  rfl

theorem findChildStepLogged_ends (h : e.Opens) (hf : KeyEnds p e) :
    ∃ child, findChildStepLogged .release p key e =
      ⟨[h.cell p],.ok (if key < keyAt p e then some child else none)⟩ := by
  obtain ⟨k,hk,hbytes⟩ := getKey_ends h hf
  have hb := h.1
  have ht := h.2
  have hchild : (h.cell p).getValuePtr = .ok ⟨UInt64.ofNat (p.le e.offset.toNat 8)⟩ := by
    simp only [IndexCell.getValuePtr,SlotEntry.Opens.cell,childPtrOffset,Nat.add_zero]
    rw [readU64LeUnsafe_ok p (by omega)]
    rfl
  refine ⟨⟨UInt64.ofNat (p.le e.offset.toNat 8)⟩,?_⟩
  rw [findChildStepLogged_opens key h,Logged.lift_bind hk,hbytes]
  split
  · rw [Logged.lift_bind hchild]
    rfl
  · rfl

theorem findChildStepLogged_runs_off (h : e.Opens) (hf : ¬ KeyEnds p e) :
    findChildStepLogged .release p key e = ⟨[h.cell p],.error .undefinedBehaviour⟩ := by
  rw [findChildStepLogged_opens key h,Logged.lift_bind_error (getKey_runs_off h hf)]
  rfl

end Step

/-! The search of a release build -/

section Search
variable {p : RawPage} {key : Key} {P : IndexCell 4096 → Prop} {good : SlotEntry → Prop}
open IndexPageRef

/-- An entry is good when the key of its cell can be read and the cell meets `P`. -/
def Judges (p : RawPage) (P : IndexCell 4096 → Prop) (good : SlotEntry → Prop) : Prop :=
  ∀ e (h : SlotEntry.Opens e), good e ↔ KeyEnds p e ∧ P (h.cell p)

theorem round_safe_iff (hg : Judges p P good) (e : SlotEntry)
    {rest : Option PageID → Logged (IndexCell 4096) (Option PageID)}
    (hstop : ∀ child, (rest (some child)).Safe P) :
    (findChildStepLogged .release p key e >>= rest).Safe P ↔
      (e.Opens → good e ∧ (¬ key < keyAt p e → (rest none).Safe P)) := by
  by_cases ho : e.Opens
  · rw [imp_iff_right ho,hg e ho]
    by_cases hf : KeyEnds p e
    · obtain ⟨child,hstep⟩ := findChildStepLogged_ends key ho hf
      rw [hstep,Logged.safe_bind_iff rfl,List.forall_mem_singleton,and_iff_right hf]
      apply and_congr_right
      intro _
      by_cases hkey : key < keyAt p e
      · rw [if_pos hkey]
        exact iff_of_true (hstop child) (fun hno => absurd hkey hno)
      · rw [if_neg hkey,imp_iff_right hkey]
    · rw [findChildStepLogged_runs_off key ho hf]
      exact iff_of_false (Logged.not_safe_bind_undefined rfl rest) (fun h => hf h.1.1)
  · obtain ⟨x,hstep⟩ := @findChildStepLogged_shut p key _ ho
    rw [hstep]
    exact iff_of_true (Logged.safe_bind_panic rfl rfl rest) (fun h => absurd h ho)

theorem forEachLogged_safe_iff (hg : Judges p P good) {it : SlotDirIter} (hp : it.ptr = 24)
    (hc : it.slotCount = dirCount p) (hpos : it.pos ≤ min (dirCount p) 1018) {k : Nat}
    (hk : it.remaining = k) :
    (it.forEachLogged p (findChildStepLogged .release p key) k).Safe P ↔
      SlotsMeet p key good ((slotsInPage p).drop it.pos) := by
  induction k generalizing it with
  | zero =>
    have hend : dirCount p ≤ it.pos := by simp only [SlotDirIter.remaining] at hk; omega
    rw [List.drop_of_length_le (by rw [slotsInPage,entriesOf_length]; omega)]
    exact iff_of_true (Logged.safe_pure none) (show dirCount p ≤ 1018 by omega)
  | succ k ih =>
    have hlt : it.pos < it.slotCount := by simp only [SlotDirIter.remaining] at hk; omega
    rw [SlotDirIter.forEachLogged]
    by_cases hb : it.pos < 1018
    · have hrest := @ih { it with pos := it.pos+1 } hp hc (by simp only; omega)
        (by simp only [SlotDirIter.remaining,SlotDirIter.slotCount] at hk ⊢; omega)
      rw [Logged.lift_bind (nextEntry_some hp hlt hb),slotsInPage,entriesOf_drop p (by omega)]
      refine (round_safe_iff hg (entryAt p it.pos) fun child => ?_).trans ?_
      · exact Logged.safe_pure (some child)
      · simp only [SlotsMeet]
        rw [hrest]
        rfl
    · -- the header counts more slots than the page holds
      rw [List.drop_of_length_le (by rw [slotsInPage,entriesOf_length]; omega)]
      refine iff_of_false (Logged.not_safe_bind_undefined ?_ _)
        (show ¬ dirCount p ≤ 1018 by omega)
      exact nextEntry_behind hp hlt (Nat.not_lt.mp hb)

theorem findChildFromLogged_safe_iff (hg : Judges p P good) (hl : 24 ≤ freeStart p) {k : Nat}
    (hk : k ≤ min (dirCount p) 1018)
    (hskip : (SlotRef.mk 24 (freeStart p-24)).iter.skip p k = .ok ⟨24,freeStart p-24,k⟩) :
    (findChildFromLogged .release p key k).Safe P ↔
      SlotsMeet p key good ((slotsInPage p).drop k) := by
  rw [findChildFromLogged,Logged.lift_bind (slotDirRef_eq hl),Logged.lift_bind hskip,
    Logged.safe_bind_pure_iff]
  exact forEachLogged_safe_iff hg rfl rfl hk rfl

theorem slotDirRef_low (hl : ¬ 24 ≤ freeStart p) : slotDirRef p = .error (.panic .assertion) := by
  rw [slotDirRef,assert_of_not hl]
  rfl

theorem slotsInPage_cons (hn : dirCount p ≠ 0) :
    slotsInPage p = entryAt p 0 :: (slotsInPage p).drop 1 := by
  have h := @entriesOf_drop p (min (dirCount p) 1018) 0 (by omega)
  rwa [List.drop_zero] at h

theorem findChildFromLogged_one (hg : Judges p P good) (hl : 24 ≤ freeStart p)
    (hn : dirCount p ≠ 0) : (findChildFromLogged .release p key 1).Safe P ↔
      SlotsMeet p key good ((slotsInPage p).drop 1) := by
  apply findChildFromLogged_safe_iff hg hl (by omega)
  have hnext := @nextEntry_some p ⟨24,freeStart p-24,0⟩ rfl (Nat.pos_of_ne_zero hn)
    (Nat.zero_lt_succ _)
  rw [SlotDirIter.skip]
  show (SlotDirIter.nextEntry p ⟨24,freeStart p-24,0⟩ >>= _) = _
  rw [hnext]
  rfl

theorem cellSliceFromId_zero (hl : 24 ≤ freeStart p) (hn : dirCount p ≠ 0) :
    cellSliceFromId p ⟨0⟩ =
      if hc : (entryAt p 0).offset.toNat+(entryAt p 0).length.toNat ≤ 4096
      then .ok (.ok ⟨p,_,_,hc⟩) else .ok (.error .corruptCell) :=
  @cellSliceFromId_entry p hl ⟨0⟩ (Nat.pos_of_ne_zero hn) (Nat.zero_lt_succ _)

theorem highKeyLogged_shut (hl : 24 ≤ freeStart p) (hn : dirCount p ≠ 0)
    (ho : ¬ (entryAt p 0).Opens) : (highKeyLogged .release p key).Safe P := by
  have hid := cellSliceFromId_zero hl hn
  by_cases hb : (entryAt p 0).offset.toNat+(entryAt p 0).length.toNat ≤ 4096
  · rw [dif_pos hb] at hid
    have ht : ¬ 10 ≤ (entryAt p 0).length.toNat := fun ht => ho ⟨hb,ht⟩
    rw [highKeyLogged,Logged.lift_bind hid]
    exact Logged.safe_bind_panic (IndexCell.fromSlice_short ht) rfl _
  · rw [dif_neg hb] at hid
    rw [highKeyLogged,Logged.lift_bind hid]
    exact Logged.safe_pure _

theorem highKeyLogged_open (hg : Judges p P good) (hl : 24 ≤ freeStart p) (hn : dirCount p ≠ 0)
    (hsib : hasRightSibling .release p = .ok true) (ho : (entryAt p 0).Opens) :
    (highKeyLogged .release p key).Safe P ↔
      good (entryAt p 0) ∧
        (¬ keyAt p (entryAt p 0) < key → SlotsMeet p key good ((slotsInPage p).drop 1)) := by
  have hid := cellSliceFromId_zero hl hn
  rw [dif_pos ho.1] at hid
  have hfrom : IndexCell.fromSlice
      ⟨p,(entryAt p 0).offset.toNat,(entryAt p 0).length.toNat,ho.1⟩ = .ok (ho.cell p) :=
    IndexCell.fromSlice_ok ho.2
  rw [highKeyLogged,Logged.lift_bind hid]
  simp only
  rw [Logged.lift_bind hfrom,Logged.safe_bind_iff rfl,hg _ ho]
  simp only [Logged.note,List.forall_mem_singleton]
  by_cases hf : KeyEnds p (entryAt p 0)
  · obtain ⟨k,hk,hbytes⟩ := getKey_ends ho hf
    rw [Logged.lift_bind hk,hbytes,and_iff_right hf]
    apply and_congr_right
    intro _
    by_cases hkey : keyAt p (entryAt p 0) < key
    · rw [if_pos hkey,Logged.safe_bind_pure_iff,Logged.safe_lift_iff]
      exact iff_of_true (getRightSibling_defined hsib) (fun hno => absurd hkey hno)
    · rw [if_neg hkey,findChildFromLogged_one hg hl hn]
      exact (imp_iff_right hkey).symm
  · refine iff_of_false (fun h => ?_) (fun h => hf h.1.1)
    exact Logged.not_safe_bind_undefined (getKey_runs_off ho hf) _ h.2

theorem highKeyLogged_empty (hl : 24 ≤ freeStart p) (hn : dirCount p = 0) :
    (highKeyLogged .release p key).Safe P := by
  rw [highKeyLogged,Logged.lift_bind (cellSliceFromId_empty hl hn ⟨0⟩)]
  exact Logged.safe_pure _

theorem findChildPtrLogged_low (hl : ¬ 24 ≤ freeStart p) {sibling : Bool}
    (hsib : hasRightSibling .release p = .ok sibling) :
    (findChildPtrLogged .release p key).Safe P := by
  have hid : cellSliceFromId p ⟨0⟩ = .error (.panic .assertion) := by
    rw [cellSliceFromId,slotDirRef_low hl]
    rfl
  rw [findChildPtrLogged,Logged.lift_bind hsib]
  cases sibling with
  | false => exact Logged.safe_bind_panic (slotDirRef_low hl) rfl _
  | true => exact Logged.safe_bind_panic hid rfl _

theorem findChildPtrLogged_safe_iff (hg : Judges p P good) :
    (findChildPtrLogged .release p key).Safe P ↔ SearchMeets p key good := by
  cases hsib : hasRightSibling .release p with
  | error x =>
    have hdef : (hasRightSibling .release p).Defined := hasRightSibling_defined p
    rw [SearchMeets,hsib,findChildPtrLogged,Logged.safe_bind_error_iff hsib]
    refine iff_of_true ⟨List.forall_mem_nil P,fun hx => hdef ?_⟩ (fun _ => trivial)
    cases hx
    exact hsib
  | ok sibling =>
    by_cases hl : 24 ≤ freeStart p
    · rw [SearchMeets,imp_iff_right hl,hsib,findChildPtrLogged,Logged.lift_bind hsib]
      cases sibling with
      | false => exact findChildFromLogged_safe_iff hg hl (Nat.zero_le _) rfl
      | true =>
        simp only [if_true]
        by_cases hn : dirCount p = 0
        · have hslots : slotsInPage p = [] := by simp [slotsInPage,hn,entriesOf]
          rw [hslots]
          exact iff_of_true (highKeyLogged_empty hl hn) trivial
        · rw [slotsInPage_cons hn]
          by_cases ho : (entryAt p 0).Opens
          · rw [highKeyLogged_open hg hl hn hsib ho]
            exact (imp_iff_right ho).symm
          · exact iff_of_true (highKeyLogged_shut hl hn ho) (fun h => absurd h ho)
    · exact iff_of_true (findChildPtrLogged_low hl hsib) (fun h => absurd h hl)

theorem judges_keyFits (p : RawPage) : Judges p KeyInside (KeyFits p) := by
  intro e h
  rw [keyInside_cell h]
  exact ⟨fun hf => ⟨hf.ends h,hf⟩,fun hf => hf.2⟩

theorem findChildPtr_defined_iff (p : RawPage) (key : Key) :
    (findChildPtr .release p key).Defined ↔ KeysEndInPage p key := by
  have hg : Judges p (fun _ => True) (KeyEnds p) := fun e _ => (and_iff_left trivial).symm
  rw [KeysEndInPage,← findChildPtrLogged_safe_iff hg,Logged.Safe,findChildPtrLogged_result]
  exact (and_iff_right fun _ _ => trivial).symm

end Search

/-- A release build compares keys that end with their cells, and reads nothing
outside the page, just when the lengths that the cells announce allow it and the
slots that the search runs through lie in the page; nothing else holds it there. -/
theorem search_keys_inside_iff (p : RawPage) (key : Key) :
    (IndexPageRef.findChildPtrLogged .release p key).result =
        IndexPageRef.findChildPtr .release p key ∧
      (((∀ c ∈ (IndexPageRef.findChildPtrLogged .release p key).notes, KeyInside c) ∧
          IndexPageRef.findChildPtr .release p key ≠ .error .undefinedBehaviour) ↔
        CellsFit p key) := by
  have hresult := IndexPageRef.findChildPtrLogged_result .release p key
  refine ⟨hresult,?_⟩
  rw [CellsFit,← findChildPtrLogged_safe_iff (judges_keyFits p),Logged.Safe,hresult]
  rfl

/-- One slot, for a cell of ten bytes at 100 that announces a key of five. -/
def overlongPage : RawPage :=
  (((Buf.fill 4096 0).write 12 [28,0]).write 24 [100,0,10,0]).write 108 [5,0]

theorem search_key_leaves_cell :
    ¬ ∀ (p : RawPage) (key : Key),
      ∀ c ∈ (IndexPageRef.findChildPtrLogged .release p key).notes, KeyInside c := by
  intro hall
  have hrun : IndexPageRef.findChildPtr .release overlongPage [1] = .ok (.ok none) := rfl
  have hslots : slotsInPage overlongPage = [⟨100,10⟩] := by decide
  have hsib : IndexPageRef.hasRightSibling .release overlongPage = .ok false := rfl
  have hsafe : (IndexPageRef.findChildPtrLogged .release overlongPage [1]).Safe KeyInside := by
    refine ⟨hall overlongPage [1],?_⟩
    rw [IndexPageRef.findChildPtrLogged_result,hrun]
    exact Exec.defined_ok _
  have hsearch := (findChildPtrLogged_safe_iff (judges_keyFits _)).mp hsafe (by decide)
  rw [hsib] at hsearch
  simp only [hslots] at hsearch
  have hlen : 10+keyLenAt overlongPage ⟨100,10⟩ ≤ 10 := (hsearch ⟨by decide,by decide⟩).1
  revert hlen
  decide

end InkDB
