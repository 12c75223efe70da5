import InkDB.ByteBuffer

/-! Page identifiers, the page-type byte and the index level. -/

set_option autoImplicit false

namespace InkDB

abbrev RawPage := Buf 4096

structure PageID where
  val : UInt64
  deriving DecidableEq, Repr

structure SlotID where
  val : UInt16
  deriving DecidableEq, Repr

def u16ToLeBytes (v : UInt16) : List UInt8 := encodeLe 2 v.toNat

def u64ToLeBytes (v : UInt64) : List UInt8 := encodeLe 8 v.toNat

def readU16LeUnsafe {n : Nat} (m : Buf n) (ptr : Nat) : Exec UInt16 :=
  (m.loadLe ptr 2).map UInt16.ofNat

def readU64LeUnsafe {n : Nat} (m : Buf n) (ptr : Nat) : Exec UInt64 :=
  (m.loadLe ptr 8).map UInt64.ofNat

@[simp] theorem u16ToLeBytes_length (v : UInt16) : (u16ToLeBytes v).length = 2 := by
  simp [u16ToLeBytes]

@[simp] theorem u64ToLeBytes_length (v : UInt64) : (u64ToLeBytes v).length = 8 := by
  simp [u64ToLeBytes]

theorem u16_toNat {v : Nat} (h : v < 65536) : (UInt16.ofNat v).toNat = v := by
  simp
  omega

theorem decodeLe_u16 (v : UInt16) : decodeLe (u16ToLeBytes v) = v.toNat :=
  decodeLe_encodeLe 2 v.toNat (by have := v.toNat_lt; omega)

theorem decodeLe_u64 (v : UInt64) : decodeLe (u64ToLeBytes v) = v.toNat :=
  decodeLe_encodeLe 8 v.toNat (by have := v.toNat_lt; omega)

theorem u16ToLeBytes_decodeLe {as : List UInt8} (h : as.length = 2) :
    u16ToLeBytes (UInt16.ofNat (decodeLe as)) = as := by
  have hlt := decodeLe_lt as
  rw [h] at hlt
  rw [u16ToLeBytes,u16_toNat hlt,← h,encodeLe_decodeLe]

theorem u64ToLeBytes_decodeLe {as : List UInt8} (h : as.length = 8) :
    u64ToLeBytes (UInt64.ofNat (decodeLe as)) = as := by
  have hlt := decodeLe_lt as
  rw [h] at hlt
  have hval : (UInt64.ofNat (decodeLe as)).toNat = decodeLe as := by
    simp
    omega
  rw [u64ToLeBytes,hval,← h,encodeLe_decodeLe]

theorem u64ToLeBytes_injective {v w : UInt64} (h : u64ToLeBytes v = u64ToLeBytes w) :
    v = w := by
  have hd := congrArg decodeLe h
  rw [decodeLe_u64,decodeLe_u64] at hd
  exact UInt64.toNat.inj hd

theorem readU16LeUnsafe_ok {n : Nat} (m : Buf n) {ptr : Nat} (h : ptr+2 ≤ n) :
    readU16LeUnsafe m ptr = .ok (UInt16.ofNat (m.le ptr 2)) := by
  rw [readU16LeUnsafe,Buf.loadLe_ok m h]; rfl

theorem readU64LeUnsafe_ok {n : Nat} (m : Buf n) {ptr : Nat} (h : ptr+8 ≤ n) :
    readU64LeUnsafe m ptr = .ok (UInt64.ofNat (m.le ptr 8)) := by
  rw [readU64LeUnsafe,Buf.loadLe_ok m h]; rfl

def pageTypeMask : UInt8 := 0x0F
def subtypeMask : UInt8 := 0xF0

inductive PageKind where
  | heap | indexInternal | indexMiniLeaf | indexLeaf | metaPage | free | undefined
  deriving DecidableEq, Repr

/-- The declared discriminant, `kind as u8`. -/
def PageKind.asU8 : PageKind → UInt8
  | .heap => 0x01
  | .indexInternal => 0x02
  | .indexMiniLeaf => 0x03
  | .indexLeaf => 0x04
  | .metaPage => 0x05
  | .free => 0x06
  | .undefined => 0xFF

/-- `From<PageKind> for u8`, which differs from the discriminant at `Undefined`. -/
def PageKind.toU8 : PageKind → UInt8
  | .undefined => 0
  | .heap => 1
  | .indexInternal => 2
  | .indexMiniLeaf => 3
  | .indexLeaf => 4
  | .metaPage => 5
  | .free => 6

def PageKind.fromU8 (pt : UInt8) : Option PageKind :=
  if pt = 0 then some .undefined
  else if pt = 1 then some .heap
  else if pt = 2 then some .indexInternal
  else if pt = 3 then some .indexMiniLeaf
  else if pt = 4 then some .indexLeaf
  else if pt = 5 then some .metaPage
  else if pt = 6 then some .free
  else none

def PageKind.usesSlottedPageLayout : PageKind → Bool
  | .heap => false
  | .indexInternal => true
  | .indexMiniLeaf => true
  | .indexLeaf => true
  | .metaPage => false
  | .free => false
  | .undefined => false

/-- Page kind in the low nibble, subtype in the high one. -/
structure PageType where
  raw : UInt8
  deriving DecidableEq, Repr

namespace PageType

def new (pt pst : UInt8) : PageType :=
  ⟨(pt &&& pageTypeMask) ||| ((pst &&& pageTypeMask) <<< 4)⟩

def pageType (t : PageType) : UInt8 := t.raw &&& pageTypeMask

def pageKind (t : PageType) : PageKind := (PageKind.fromU8 t.pageType).getD .undefined

def pageSubType (t : PageType) : UInt8 := (t.raw &&& subtypeMask) >>> 4

def setPageType (t : PageType) (pt : UInt8) : PageType :=
  ⟨(t.raw &&& ~~~pageTypeMask) ||| (pt &&& pageTypeMask)⟩

def setSubtypePageBits (t : PageType) (pst : UInt8) : PageType :=
  ⟨(t.raw &&& ~~~subtypeMask) ||| ((pst &&& pageTypeMask) <<< 4)⟩

theorem pageType_setSubtypePageBits (t : PageType) (pst : UInt8) :
    (t.setSubtypePageBits pst).pageType = t.pageType := by
  unfold setSubtypePageBits pageType pageTypeMask subtypeMask
  apply UInt8.toBitVec_inj.mp
  ext i hi
  simp only [UInt8.toBitVec_and,UInt8.toBitVec_or]
  interval_cases i <;> simp

theorem pageKind_setSubtypePageBits (t : PageType) (pst : UInt8) :
    (t.setSubtypePageBits pst).pageKind = t.pageKind := by
  rw [pageKind,pageType_setSubtypePageBits,pageKind]

theorem pageSubType_setSubtypePageBits (t : PageType) (pst : UInt8) :
    (t.setSubtypePageBits pst).pageSubType = pst &&& pageTypeMask := by
  unfold setSubtypePageBits pageSubType pageTypeMask subtypeMask
  apply UInt8.toBitVec_inj.mp
  ext i hi
  simp only [UInt8.toBitVec_and]
  interval_cases i <;> simp

theorem pageSubType_le (t : PageType) : t.pageSubType ≤ 15 := by
  have h : t.raw.toNat &&& 240 ≤ 240 := Nat.and_le_right
  unfold pageSubType subtypeMask
  rw [UInt8.le_iff_toNat_le]
  simp only [UInt8.toNat_shiftRight,UInt8.toNat_and,UInt8.reduceToNat,Nat.reduceMod,
    Nat.shiftRight_eq_div_pow]
  omega

/-- A kind written as a whole byte reads back, with subtype zero. -/
theorem ofKind (k : PageKind) :
    (PageType.mk k.toU8).pageKind = k ∧ (PageType.mk k.toU8).pageSubType = 0 := by
  cases k <;> decide

end PageType

theorem and_pageTypeMask_of_le {x : UInt8} (h : x ≤ 15) : x &&& pageTypeMask = x := by
  apply UInt8.toNat.inj
  have hm : (x &&& pageTypeMask).toNat = x.toNat%16 := by
    rw [UInt8.toNat_and]
    exact Nat.and_two_pow_sub_one_eq_mod x.toNat 4
  rw [UInt8.le_iff_toNat_le] at h
  rw [hm]
  exact Nat.mod_eq_of_lt (Nat.lt_succ_of_le h)

structure IndexLevel where
  val : UInt8
  deriving DecidableEq, Repr

def IndexLevel.max : UInt8 := 15

def IndexLevel.new (level : UInt8) : Exec IndexLevel := do
  assert (level ≤ IndexLevel.max)
  pure ⟨level⟩

theorem IndexLevel.new_ok {level : UInt8} (h : level ≤ 15) :
    IndexLevel.new level = .ok ⟨level⟩ := by
  rw [new,assert_of (show level ≤ IndexLevel.max from h)]; rfl

end InkDB
