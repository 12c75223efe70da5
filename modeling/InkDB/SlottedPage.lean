import InkDB.PageTypes

/-!
The raw slotted page: a 24-byte header, a slot directory growing upward, free
space, and cells growing downward.
-/

set_option autoImplicit false

namespace InkDB

abbrev pageSize : Nat := 4096
abbrev pageSizeU16 : UInt16 := 4096

/-- Two `u16` fields. -/
abbrev entrySize : Nat := 4

abbrev lsnOffset : Nat := 0
abbrev checksumOffset : Nat := lsnOffset+8
abbrev pageTypeOffset : Nat := checksumOffset+2
abbrev flagsOffset : Nat := pageTypeOffset+1
abbrev freeStartOffset : Nat := flagsOffset+1
abbrev freeEndOffset : Nat := freeStartOffset+2
abbrev specialOffset : Nat := freeEndOffset+2
abbrev sizeVersionOffset : Nat := specialOffset+2
abbrev txidOffset : Nat := sizeVersionOffset+2
abbrev headerSize : Nat := txidOffset+4

inductive PageError where
  | emptySlotDir | slotIDOutOfBounds | corruptCell | specialOffsetIsZero
  | slotIndexNotInRange | noContigiousSpace | notEnoughFreeSpace
  | invalidFreeEnd | invalidFreeStart
  deriving DecidableEq, Repr

structure SlotEntry where
  offset : UInt16
  length : UInt16
  deriving DecidableEq, Repr

/-- The slot directory as a pointer into the page and a size in bytes. -/
structure SlotRef where
  ptr : Nat
  size : Nat
  deriving DecidableEq, Repr

structure SlotDirIter where
  ptr : Nat
  size : Nat
  pos : Nat
  deriving DecidableEq, Repr

def SlotRef.slotCount (d : SlotRef) : Nat := if d.size = 0 then 0 else d.size/entrySize

def SlotRef.iter (d : SlotRef) : SlotDirIter := ⟨d.ptr,d.size,0⟩

namespace SlotDirIter

def slotCount (it : SlotDirIter) : Nat := it.size/entrySize

def nextEntry (p : RawPage) (it : SlotDirIter) : Exec (Option SlotEntry × SlotDirIter) :=
  if it.pos ≥ it.slotCount then pure (none,it)
  else do
    let start := it.ptr+it.pos*entrySize
    let offset ← readU16LeUnsafe p start
    let length ← readU16LeUnsafe p (start+2)
    pure (some ⟨offset,length⟩,{ it with pos := it.pos+1 })

def remaining (it : SlotDirIter) : Nat := it.slotCount-it.pos

/-- `for se in it { body }`, where a body may return from the enclosing function.
The counter is the number of entries left, so at zero `nextEntry` has ended. -/
def forEach {β : Type} (p : RawPage) (body : SlotEntry → Exec (Option β)) :
    Nat → SlotDirIter → Exec (Option β)
  | 0, _ => pure none
  | k+1, it => do
      match ← it.nextEntry p with
      | (none,_) => pure none
      | (some se,it) =>
          match ← body se with
          | some r => pure (some r)
          | none => forEach p body k it

def forIn {β : Type} (p : RawPage) (it : SlotDirIter) (body : SlotEntry → Exec (Option β)) :
    Exec (Option β) := forEach p body it.remaining it

/-- `Iterator::skip`, which calls `next` on the skipped entries. -/
def skip (p : RawPage) : Nat → SlotDirIter → Exec SlotDirIter
  | 0, it => pure it
  | k+1, it => do
      let (_,it) ← it.nextEntry p
      skip p k it

/-- Everything the iterator still yields. -/
def collectFrom (p : RawPage) : Nat → SlotDirIter → Exec (List SlotEntry)
  | 0, _ => pure []
  | k+1, it => do
      match ← it.nextEntry p with
      | (none,_) => pure []
      | (some se,it) =>
          let rest ← collectFrom p k it
          pure (se :: rest)

def collect (p : RawPage) (it : SlotDirIter) : Exec (List SlotEntry) :=
  collectFrom p it.remaining it

end SlotDirIter

/-! Header fields sit at constant offsets inside the page, so their raw reads
and writes cannot leave it. -/

namespace SlottedPageRef

def getPageType (p : RawPage) : UInt8 := p.get pageTypeOffset

def freeStart (p : RawPage) : Nat := p.le freeStartOffset 2

def freeEnd (p : RawPage) : Nat := p.le freeEndOffset 2

def freeContiguousSpace (b : Build) (p : RawPage) : Exec Nat :=
  usizeSub b (freeEnd p) (freeStart p)

def getSpecialOffset (p : RawPage) : UInt16 := UInt16.ofNat (p.le specialOffset 2)

def getFlags (p : RawPage) : UInt8 := p.get flagsOffset

def getLsn (p : RawPage) : UInt64 := UInt64.ofNat (p.le lsnOffset 8)

def slotDirRef (p : RawPage) : Exec SlotRef := do
  assert (freeStart p ≥ headerSize)
  pure ⟨headerSize,freeStart p-headerSize⟩

def cellSliceFromId (p : RawPage) (slotId : SlotID) : Exec (Except PageError (Slice 4096)) := do
  let slotDir ← slotDirRef p
  let slotCount := slotDir.slotCount
  if slotCount = 0 then pure (.error .emptySlotDir)
  else
    let idx := slotId.val.toNat
    if idx ≥ slotCount then pure (.error .slotIDOutOfBounds)
    else do
      let base := slotDir.ptr+idx*entrySize
      let offset ← readU16LeUnsafe p base
      let length ← readU16LeUnsafe p (base+2)
      let endOff := offset.toNat+length.toNat
      if endOff > pageSize then pure (.error .corruptCell)
      else do
        let cell ← p.index offset.toNat endOff
        pure (.ok cell)

def cellSliceFromEntry (b : Build) (p : RawPage) (se : SlotEntry) : Exec (Slice 4096) := do
  let offset := se.offset.toNat
  let length := se.length.toNat
  debugAssert b (offset+length < pageSize)
  p.index offset (offset+length)

def specialSize (b : Build) (p : RawPage) : Exec Nat :=
  let offset := (getSpecialOffset p).toNat
  if offset = 0 then pure 0
  else do
    debugAssert b (offset ≤ pageSize)
    usizeSub b pageSize offset

def getSpecialRef (b : Build) (p : RawPage) : Exec (Except PageError (Slice 4096)) :=
  let sOffset := (getSpecialOffset p).toNat
  if sOffset = 0 then pure (.error .specialOffsetIsZero)
  else do
    let size ← usizeSub b pageSize sOffset
    assert (size ≤ pageSize)
    let special ← p.index sOffset (sOffset+size)
    pure (.ok special)

theorem getSpecialRef_start {b : Build} {p : RawPage} {special : Slice 4096}
    (h : getSpecialRef b p = .ok (.ok special)) :
    special.start = (getSpecialOffset p).toNat ∧ (getSpecialOffset p).toNat ≠ 0 := by
  simp only [getSpecialRef] at h
  split at h
  · cases h
  · rename_i hne
    obtain ⟨size,-,h⟩ := Exec.bind_eq_ok.mp h
    obtain ⟨-,-,h⟩ := Exec.bind_eq_ok.mp h
    obtain ⟨range,hrange,h⟩ := Exec.bind_eq_ok.mp h
    cases h
    unfold Buf.index at hrange
    split at hrange
    · cases hrange
      exact ⟨rfl,hne⟩
    · cases hrange

end SlottedPageRef

/-! The methods of `SlottedPageMut` that only read have the bodies of their
`SlottedPageRef` counterparts. -/

namespace SlottedPageMut

abbrev getPageType := SlottedPageRef.getPageType
abbrev freeStart := SlottedPageRef.freeStart
abbrev freeEnd := SlottedPageRef.freeEnd
abbrev freeContiguousSpace := SlottedPageRef.freeContiguousSpace
abbrev getSpecialOffset := SlottedPageRef.getSpecialOffset
abbrev slotDirRef := SlottedPageRef.slotDirRef
abbrev cellSliceFromId := SlottedPageRef.cellSliceFromId
abbrev cellSliceFromEntry := SlottedPageRef.cellSliceFromEntry
abbrev getSpecialRef := SlottedPageRef.getSpecialRef

/-- The mutable slice has the same bounds; writes go through its start. -/
abbrev getSpecialMut := SlottedPageRef.getSpecialRef

def wipePage (_ : RawPage) : RawPage := Buf.fill 4096 0

def setPageType (pageType : UInt8) (p : RawPage) : RawPage := p.write pageTypeOffset [pageType]

def setFlags (flags : UInt8) (p : RawPage) : RawPage := p.write flagsOffset [flags]

def setLsn (lsn : UInt64) (p : RawPage) : RawPage := p.write lsnOffset (u64ToLeBytes lsn)

/-- Only the page type, `free_start` and `free_end` are set; the rest of the
buffer keeps its content. -/
def initNew (bytes : RawPage) (pageType : UInt8) : RawPage :=
  let sp := bytes.write pageTypeOffset [PageKind.undefined.asU8]
  let sp := sp.write freeStartOffset (u16ToLeBytes (UInt16.ofNat headerSize))
  let sp := sp.write freeEndOffset (u16ToLeBytes (UInt16.ofNat pageSize))
  setPageType pageType sp

variable {ε : Type}

def setFreeStart (offset : Nat) : Prog RawPage ε Unit := do
  Prog.call (fun b => debugAssert b (offset ≥ headerSize))
  Prog.call (fun b => debugAssert b (offset ≤ pageSize))
  Prog.modify (fun p => p.write freeStartOffset (u16ToLeBytes (UInt16.ofNat offset)))

def incrementFreeStart (bytes : Nat) : Prog RawPage PageError Nat := do
  let curFs ← Prog.reads freeStart
  let newFs := curFs+bytes
  let endOff ← Prog.reads freeEnd
  Prog.call (fun b => debugAssert b (newFs ≤ endOff))
  Prog.call (fun b => debugAssert b (newFs ≥ headerSize))
  if newFs < headerSize then Prog.err .invalidFreeStart
  else do
    Prog.modify (fun p => p.write freeStartOffset (u16ToLeBytes (UInt16.ofNat newFs)))
    pure newFs

def setFreeEnd (offset : Nat) : Prog RawPage PageError Unit := do
  Prog.call (fun b => debugAssert b (offset ≥ headerSize))
  let fs ← Prog.reads freeStart
  if offset < fs ∨ offset < headerSize then Prog.err .invalidFreeEnd
  else Prog.modify (fun p => p.write freeEndOffset (u16ToLeBytes (UInt16.ofNat offset)))

def setSpecialOffset (special : UInt16) : Prog RawPage ε Unit := do
  Prog.call (fun _ => assert (special < pageSizeU16))
  Prog.modify (fun p => p.write specialOffset (u16ToLeBytes (pageSizeU16-special)))

def appendSlotEntry (size offset : UInt16) : Prog RawPage PageError Unit := do
  let fs ← Prog.reads freeStart
  let endOff ← Prog.reads freeEnd
  let room ← Prog.call (fun b => usizeSub b endOff fs)
  if room < entrySize then Prog.err .notEnoughFreeSpace
  else do
    Prog.poke (fun p => p.store fs (u16ToLeBytes offset))
    Prog.poke (fun p => p.store (fs+2) (u16ToLeBytes size))
    let _ ← incrementFreeStart entrySize
    pure ()

def insertSlotEntryAtIndex (idx : Nat) (entry : SlotEntry) : Prog RawPage PageError Unit := do
  let oldFs ← Prog.reads freeStart
  let endOff ← Prog.reads freeEnd
  let room ← Prog.call (fun b => usizeSub b endOff oldFs)
  if room < entrySize then Prog.err .notEnoughFreeSpace
  else do
    let dirSize ← Prog.call (fun b => usizeSub b oldFs headerSize)
    let slotCount := dirSize/entrySize
    if idx > slotCount then Prog.err .slotIndexNotInRange
    else if idx = slotCount then appendSlotEntry entry.length entry.offset
    else do
      let indexOffset := headerSize+idx*entrySize
      Prog.poke (fun p =>
        p.copyWithin indexOffset (indexOffset+entrySize) ((slotCount-idx)*entrySize))
      Prog.poke (fun p => p.store indexOffset (u16ToLeBytes entry.offset))
      Prog.poke (fun p => p.store (indexOffset+2) (u16ToLeBytes entry.length))
      let _ ← incrementFreeStart entrySize
      pure ()

/-- The part the two cell insertions share: check the space, add a slot entry
through `addEntry`, copy the cell below `free_end` and move `free_end` down. -/
def addCellWith (addEntry : SlotEntry → Prog RawPage PageError Unit) (cell : List UInt8) :
    Prog RawPage PageError Unit := do
  let fs ← Prog.reads freeStart
  let fe ← Prog.reads freeEnd
  let room ← Prog.call (fun b => usizeSub b fe fs)
  if cell.length+entrySize > room then Prog.err .noContigiousSpace
  else do
    let cellStartOffset ← Prog.call (fun b => usizeSub b fe cell.length)
    Prog.call (fun _ => assert (cell.length ≤ 65535))
    Prog.call (fun _ => assert (cellStartOffset ≤ 65535))
    addEntry ⟨UInt16.ofNat cellStartOffset,UInt16.ofNat cell.length⟩
    Prog.poke (fun p => p.store cellStartOffset cell)
    setFreeEnd cellStartOffset

def addCellAppendSlotEntry (cell : List UInt8) : Prog RawPage PageError Unit :=
  addCellWith (fun se => appendSlotEntry se.length se.offset) cell

def addCellAtSlotEntryIndex (index : Nat) (cell : List UInt8) : Prog RawPage PageError Unit :=
  addCellWith (insertSlotEntryAtIndex index) cell

end SlottedPageMut

end InkDB
