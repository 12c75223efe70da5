import InkDB.SlottedPage

/-! Index pages and index cells, interpreted over the slotted page. -/

set_option autoImplicit false

namespace InkDB

inductive IndexPageError where
  | pageError : PageError → IndexPageError
  | invalidPageType : IndexPageError
  | invalidLevel : IndexPageError
  deriving DecidableEq, Repr

abbrev Key := List UInt8

abbrev indexSpecialSize : UInt16 := 16
abbrev rightSiblingOffset : Nat := 8

abbrev childPtrOffset : Nat := 0
abbrev keyLenOffset : Nat := 8
abbrev keyDataOffset : Nat := 10

abbrev maxIndexCellSize : Nat := pageSize-headerSize-entrySize

/-- child_ptr (8 bytes) | key_len (2 bytes) | key_data. -/
def indexCellBytes (key : Key) (childPtr : PageID) : List UInt8 :=
  u64ToLeBytes childPtr.val ++ u16ToLeBytes (UInt16.ofNat key.length) ++ key

@[simp] theorem indexCellBytes_length (key : Key) (childPtr : PageID) :
    (indexCellBytes key childPtr).length = 10+key.length := by
  simp [indexCellBytes]; omega

structure IndexCellOwned where
  bytes : List UInt8
  sized : bytes.length < maxIndexCellSize

/-- The length `IndexCellOwned::new` asserts. -/
def AcceptedKey (key : Key) : Prop := 10+key.length < maxIndexCellSize

instance (key : Key) : Decidable (AcceptedKey key) := Nat.decLt _ _

def IndexCellOwned.new (key : Key) (childPtr : PageID) : Exec IndexCellOwned :=
  if h : AcceptedKey key then
    pure ⟨indexCellBytes key childPtr,by rw [indexCellBytes_length]; exact h⟩
  else throw (.panic .assertion)

/-- A view of a cell of at least ten bytes. -/
structure IndexCell (n : Nat) where
  cell : Slice n
  tall : 10 ≤ cell.len

namespace IndexCell
variable {n : Nat}

/-- `IndexCell::from`. -/
def fromSlice (cellRef : Slice n) : Exec (IndexCell n) :=
  if h : 10 ≤ cellRef.len then pure ⟨cellRef,h⟩ else throw (.panic .assertion)

theorem fromSlice_ok {s : Slice n} (h : 10 ≤ s.len) : fromSlice s = .ok ⟨s,h⟩ := dif_pos h

theorem fromSlice_short {s : Slice n} (h : ¬ 10 ≤ s.len) :
    fromSlice s = .error (.panic .assertion) := dif_neg h

/-- The key length comes from the cell's own bytes, and the key is sliced from
a raw pointer: only a debug build compares the two with the cell's length. -/
def getKey (b : Build) (c : IndexCell n) : Exec (Slice n) := do
  let keyLen ← readU16LeUnsafe c.cell.mem (c.cell.start+keyLenOffset)
  debugAssert b (keyDataOffset+keyLen.toNat ≤ c.cell.len)
  c.cell.mem.fromRawParts (c.cell.start+keyDataOffset) keyLen.toNat

def getValuePtr (c : IndexCell n) : Exec PageID :=
  (readU64LeUnsafe c.cell.mem (c.cell.start+childPtrOffset)).map PageID.mk

end IndexCell

namespace IndexPageMut

def initInPlace (lsn : UInt64) : Prog RawPage IndexPageError Unit := do
  Prog.modify SlottedPageMut.wipePage
  Prog.modify (SlottedPageMut.setPageType (PageType.new PageKind.indexInternal.asU8 0).raw)
  SlottedPageMut.setSpecialOffset indexSpecialSize
  SlottedPageMut.setFreeStart headerSize
  (SlottedPageMut.setFreeEnd (pageSize-indexSpecialSize.toNat)).mapErr .pageError
  Prog.modify (SlottedPageMut.setLsn lsn)

def getPageType (p : RawPage) : PageType := ⟨SlottedPageMut.getPageType p⟩

/-- The whole byte is overwritten, the subtype nibble included. -/
def setPageType (pageType : PageKind) : RawPage → RawPage :=
  SlottedPageMut.setPageType pageType.toU8

def kind (p : RawPage) : PageKind := (getPageType p).pageKind

def level (p : RawPage) : Exec IndexLevel := IndexLevel.new (getPageType p).pageSubType

def setLevel (level : IndexLevel) (p : RawPage) : RawPage :=
  SlottedPageMut.setPageType ((getPageType p).setSubtypePageBits level.val).raw p

def setRightSibling {ε : Type} (pageId : PageID) : Prog RawPage ε Unit := do
  let p ← Prog.get
  match ← Prog.call (fun b => SlottedPageMut.getSpecialMut b p) with
  | .error _ => pure ()
  | .ok special => do
      let field ← Prog.call (fun _ => special.index rightSiblingOffset (rightSiblingOffset+8))
      Prog.modify (fun p => p.write field.start (u64ToLeBytes pageId.val))

def hasRightSibling (b : Build) (p : RawPage) : Exec Bool := do
  match ← SlottedPageMut.getSpecialRef b p with
  | .error _ => pure false
  | .ok special => do
      let field ← special.index rightSiblingOffset (rightSiblingOffset+8)
      pure (field.bytes != List.replicate 8 0)

def addCellAppendSlotEntry (cell : IndexCellOwned) : Prog RawPage IndexPageError Unit :=
  (SlottedPageMut.addCellAppendSlotEntry cell.bytes).mapErr .pageError

def addCellAtSlotEntryIndex (index : Nat) (cell : IndexCellOwned) :
    Prog RawPage IndexPageError Unit :=
  (SlottedPageMut.addCellAtSlotEntryIndex index cell.bytes).mapErr .pageError

end IndexPageMut

namespace IndexPageRef

/-- The same body as on `IndexPageMut`. -/
abbrev hasRightSibling := IndexPageMut.hasRightSibling

def getPageType (p : RawPage) : PageType := ⟨SlottedPageRef.getPageType p⟩

def kind (p : RawPage) : PageKind := (getPageType p).pageKind

def level (p : RawPage) : Exec IndexLevel := IndexLevel.new (getPageType p).pageSubType

/-- Unlike the two checks above it, this reads through a raw pointer. -/
def getRightSibling (b : Build) (p : RawPage) : Exec (Option PageID) := do
  match ← SlottedPageRef.getSpecialRef b p with
  | .error _ => pure none
  | .ok special => do
      let sib ← readU64LeUnsafe special.mem (special.start+rightSiblingOffset)
      pure (if sib = 0 then none else some ⟨sib⟩)

/-- One round of the search loop: `some` returns from the function. -/
def findChildStep (b : Build) (p : RawPage) (key : Key) (se : SlotEntry) :
    Exec (Option PageID) := do
  let cell ← IndexCell.fromSlice (← SlottedPageRef.cellSliceFromEntry b p se)
  let cellKey ← cell.getKey b
  if key < cellKey.bytes then do
    let child ← cell.getValuePtr
    pure (some child)
  else pure none

def findChildFrom (b : Build) (p : RawPage) (key : Key) (skip : Nat) :
    Exec (Except IndexPageError (Option PageID)) := do
  let slotDir ← SlottedPageRef.slotDirRef p
  let it ← slotDir.iter.skip p skip
  let found ← it.forIn p (findChildStep b p key)
  pure (.ok found)

def findChildPtr (b : Build) (p : RawPage) (key : Key) :
    Exec (Except IndexPageError (Option PageID)) := do
  if ← hasRightSibling b p then
    match ← SlottedPageRef.cellSliceFromId p ⟨0⟩ with
    | .error e => pure (.error (.pageError e))
    | .ok hkc => do
        let highKeyCell ← IndexCell.fromSlice hkc
        let highKey ← highKeyCell.getKey b
        if key > highKey.bytes then do
          let sibling ← getRightSibling b p
          pure (.ok sibling)
        else findChildFrom b p key 1
  else findChildFrom b p key 0

end IndexPageRef

end InkDB
