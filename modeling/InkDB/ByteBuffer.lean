import InkDB.Exec

/-!
Fixed-size byte buffers: little-endian integers, range reads and writes, Rust
slices into a buffer, and accesses through raw pointers. A raw access that
leaves its allocation is undefined behaviour; a slice never leaves it.
-/

set_option autoImplicit false

namespace InkDB

def encodeLe : Nat → Nat → List UInt8
  | 0, _ => []
  | k+1, v => UInt8.ofNat v :: encodeLe k (v/256)

def decodeLe : List UInt8 → Nat
  | [] => 0
  | a :: as => a.toNat+256*decodeLe as

@[simp] theorem encodeLe_length (k v : Nat) : (encodeLe k v).length = k := by
  induction k generalizing v with
  | zero => rfl
  | succ k ih => simp [encodeLe,ih]

theorem decodeLe_encodeLe (k v : Nat) (h : v < 256^k) : decodeLe (encodeLe k v) = v := by
  induction k generalizing v with
  | zero => simp [encodeLe,decodeLe] at *; omega
  | succ k ih =>
    have hv : v/256 < 256^k := by rw [Nat.pow_succ] at h; omega
    have ha : (UInt8.ofNat v).toNat = v%256 := by simp
    simp only [encodeLe,decodeLe,ih _ hv,ha]
    omega

theorem decodeLe_lt (as : List UInt8) : decodeLe as < 256^as.length := by
  induction as with
  | nil => simp [decodeLe]
  | cons a as ih =>
    have ha := a.toNat_lt
    rw [decodeLe,List.length_cons,Nat.pow_succ]
    omega

theorem encodeLe_decodeLe (as : List UInt8) : encodeLe as.length (decodeLe as) = as := by
  induction as with
  | nil => rfl
  | cons a as ih =>
    have ha := a.toNat_lt
    have hlow : UInt8.ofNat (a.toNat+256*decodeLe as) = a := by
      apply UInt8.toNat.inj
      simp
    have hhigh : (a.toNat+256*decodeLe as)/256 = decodeLe as := by omega
    simp only [List.length_cons,encodeLe,decodeLe,hlow,hhigh,ih]

/-- `[u8; n]`. -/
def Buf (n : Nat) : Type := Fin n → UInt8

namespace Buf
variable {n : Nat}

/-- The byte at `i`; only indices below `n` name a byte of the buffer. -/
def get (m : Buf n) (i : Nat) : UInt8 := if h : i < n then m ⟨i,h⟩ else 0

def fill (n : Nat) (a : UInt8) : Buf n := fun _ => a

def ofList (bs : List UInt8) : Buf bs.length := bs.get

def read (m : Buf n) (o k : Nat) : List UInt8 := (List.range' o k).map m.get

def write (m : Buf n) (o : Nat) (xs : List UInt8) : Buf n :=
  fun i => if o ≤ i.val then xs[i.val-o]?.getD (m i) else m i

def le (m : Buf n) (o k : Nat) : Nat := decodeLe (m.read o k)

@[simp] theorem get_fill (a : UInt8) {i : Nat} (h : i < n) : (fill n a).get i = a := by
  simp [get,fill,h]

theorem get_write_inside (m : Buf n) {o i : Nat} (xs : List UInt8)
    (hn : i < n) (ho : o ≤ i) (hi : i-o < xs.length) :
    (m.write o xs).get i = xs[i-o] := by
  simp [get,write,hn,ho,hi]

theorem get_write_outside (m : Buf n) {o i : Nat} (xs : List UInt8)
    (h : i < o ∨ o+xs.length ≤ i) : (m.write o xs).get i = m.get i := by
  unfold get write
  split
  · rcases h with h | h
    · simp [Nat.not_le.mpr h]
    · have hx : xs[i-o]? = none := by simp; omega
      simp [hx]
  · rfl

theorem write_append (m : Buf n) (o : Nat) (xs ys : List UInt8) :
    (m.write o xs).write (o+xs.length) ys = m.write o (xs ++ ys) := by
  funext i
  by_cases h₁ : o+xs.length ≤ i.val
  · have h₂ : o ≤ i.val := by omega
    have h₃ : xs.length ≤ i.val-o := by omega
    simp [write,h₁,h₂,List.getElem?_append_right h₃,List.getElem?_eq_none h₃,Nat.sub_sub]
  · by_cases h₂ : o ≤ i.val
    · have h₃ : i.val-o < xs.length := by omega
      simp [write,h₁,h₂,List.getElem?_append_left h₃]
    · simp [write,h₁,h₂]

theorem write_prepend (m : Buf n) (o : Nat) (xs ys : List UInt8) :
    (m.write (o+xs.length) ys).write o xs = m.write o (xs ++ ys) := by
  funext i
  by_cases h₁ : o+xs.length ≤ i.val
  · have h₂ : o ≤ i.val := by omega
    have h₃ : xs.length ≤ i.val-o := by omega
    simp [write,h₁,h₂,List.getElem?_append_right h₃,List.getElem?_eq_none h₃,Nat.sub_sub]
  · by_cases h₂ : o ≤ i.val
    · have h₃ : i.val-o < xs.length := by omega
      simp [write,h₂,List.getElem?_append_left h₃,List.getElem?_eq_getElem h₃]
    · simp [write,h₁,h₂]

@[simp] theorem read_length (m : Buf n) (o k : Nat) : (m.read o k).length = k := by
  simp [read]

@[simp] theorem read_zero (m : Buf n) (o : Nat) : m.read o 0 = [] := rfl

theorem read_getElem (m : Buf n) (o k i : Nat) (h : i < (m.read o k).length) :
    (m.read o k)[i] = m.get (o+i) := by
  simp [read]

theorem read_add (m : Buf n) (o j k : Nat) : m.read o (j+k) = m.read o j ++ m.read (o+j) k := by
  have h := @List.range'_append o j k 1
  simp only [Nat.one_mul] at h
  simp only [read,← List.map_append,h]

theorem read_congr {n' : Nat} {m : Buf n} {m' : Buf n'} {o k : Nat}
    (h : ∀ i, o ≤ i → i < o+k → m.get i = m'.get i) : m.read o k = m'.read o k := by
  apply List.map_congr_left
  intro i hi
  rw [List.mem_range'_1] at hi
  exact h i hi.1 hi.2

theorem get_of_read {m m' : Buf n} {o k : Nat} (h : m.read o k = m'.read o k)
    {i : Nat} (ho : o ≤ i) (hk : i < o+k) : m.get i = m'.get i := by
  have hi : i-o < (m.read o k).length := by rw [read_length]; omega
  have hi' : i-o < (m'.read o k).length := by rw [read_length]; omega
  have hg := read_getElem m o k (i-o) hi
  simp only [h] at hg
  rw [read_getElem m' o k (i-o) hi',Nat.add_sub_cancel' ho] at hg
  exact hg.symm

theorem read_write_disjoint (m : Buf n) {o o' k : Nat} (xs : List UInt8)
    (h : o'+k ≤ o ∨ o+xs.length ≤ o') : (m.write o xs).read o' k = m.read o' k := by
  apply read_congr
  intro i ho hk
  exact get_write_outside m xs (by omega)

theorem read_write_same (m : Buf n) {o k : Nat} (xs : List UInt8)
    (hk : k = xs.length) (h : o+xs.length ≤ n) : (m.write o xs).read o k = xs := by
  subst k
  apply List.ext_getElem (by simp)
  intro i h₁ h₂
  rw [read_getElem,get_write_inside m xs (by omega) (by omega) (by omega)]
  simp

theorem read_drop_take (m : Buf n) {o k i j : Nat} (h : i+j ≤ k) :
    ((m.read o k).drop i).take j = m.read (o+i) j := by
  have hk : k = i+(j+(k-(i+j))) := by omega
  rw [hk,read_add,read_add]
  rw [List.drop_append_of_le_length (by simp),List.drop_of_length_le (by simp),List.nil_append,
    List.take_append_of_le_length (by simp),List.take_of_length_le (by simp)]

theorem read_write_inside (m : Buf n) {o o' k : Nat} (xs : List UInt8)
    (ho : o ≤ o') (hk : o'+k ≤ o+xs.length) (hn : o+xs.length ≤ n) :
    (m.write o xs).read o' k = (xs.drop (o'-o)).take k := by
  have h := read_drop_take (m.write o xs) (o := o) (k := xs.length) (i := o'-o) (j := k) (by omega)
  rw [read_write_same m xs rfl hn,Nat.add_sub_cancel' ho] at h
  exact h.symm

theorem read_ofList (bs : List UInt8) : (ofList bs).read 0 bs.length = bs := by
  apply List.ext_getElem (by simp)
  intro i h₁ h₂
  rw [read_getElem,Nat.zero_add]
  simp [get,ofList,h₂]

theorem le_write_same (m : Buf n) {o k v : Nat} (h : o+k ≤ n) (hv : v < 256^k) :
    (m.write o (encodeLe k v)).le o k = v := by
  rw [le,read_write_same m _ (by simp) (by simpa using h),decodeLe_encodeLe k v hv]

theorem le_write_disjoint (m : Buf n) {o o' k : Nat} (xs : List UInt8)
    (h : o'+k ≤ o ∨ o+xs.length ≤ o') : (m.write o xs).le o' k = m.le o' k := by
  rw [le,read_write_disjoint m xs h,le]

theorem le_congr {m m' : Buf n} {o k : Nat} (h : m.read o k = m'.read o k) :
    m.le o k = m'.le o k := by rw [le,h,le]

end Buf

/-- `&[u8]`: a range of an allocation, inside it by construction. -/
structure Slice (n : Nat) where
  mem : Buf n
  start : Nat
  len : Nat
  inBounds : start+len ≤ n

namespace Slice
variable {n : Nat}

def bytes (s : Slice n) : List UInt8 := s.mem.read s.start s.len

@[simp] theorem bytes_length (s : Slice n) : s.bytes.length = s.len := by simp [bytes]

/-- `&s[lo..hi]`. -/
def index (s : Slice n) (lo hi : Nat) : Exec (Slice n) :=
  if h : lo ≤ hi ∧ hi ≤ s.len then
    pure ⟨s.mem,s.start+lo,hi-lo,by have := s.inBounds; omega⟩
  else throw (.panic .sliceIndex)

/-- A slice of a whole allocation with the given bytes. -/
def whole (bs : List UInt8) : Slice bs.length := ⟨.ofList bs,0,bs.length,by omega⟩

@[simp] theorem whole_bytes (bs : List UInt8) : (whole bs).bytes = bs := Buf.read_ofList bs

end Slice

namespace Buf
variable {n : Nat}

/-- `&m[lo..hi]` on the whole buffer. -/
def index (m : Buf n) (lo hi : Nat) : Exec (Slice n) :=
  if h : lo ≤ hi ∧ hi ≤ n then pure ⟨m,lo,hi-lo,by omega⟩ else throw (.panic .sliceIndex)

/-- `slice::from_raw_parts`. -/
def fromRawParts (m : Buf n) (ptr len : Nat) : Exec (Slice n) :=
  if h : ptr+len ≤ n then pure ⟨m,ptr,len,h⟩ else throw .undefinedBehaviour

/-- `ptr::read_unaligned` of a `k`-byte little-endian integer. -/
def loadLe (m : Buf n) (ptr k : Nat) : Exec Nat :=
  if ptr+k ≤ n then pure (m.le ptr k) else throw .undefinedBehaviour

/-- `ptr::copy_nonoverlapping` from another allocation. -/
def store (m : Buf n) (ptr : Nat) (xs : List UInt8) : Exec (Buf n) :=
  if ptr+xs.length ≤ n then pure (m.write ptr xs) else throw .undefinedBehaviour

/-- `ptr::copy` inside the buffer; the two ranges may overlap. -/
def copyWithin (m : Buf n) (src dst count : Nat) : Exec (Buf n) :=
  if src+count ≤ n ∧ dst+count ≤ n then pure (m.write dst (m.read src count))
  else throw .undefinedBehaviour

theorem index_ok (m : Buf n) {lo hi : Nat} (h : lo ≤ hi ∧ hi ≤ n) :
    m.index lo hi = .ok ⟨m,lo,hi-lo,by omega⟩ := dif_pos h

theorem fromRawParts_ok (m : Buf n) {ptr len : Nat} (h : ptr+len ≤ n) :
    m.fromRawParts ptr len = .ok ⟨m,ptr,len,h⟩ := dif_pos h

theorem loadLe_ok (m : Buf n) {ptr k : Nat} (h : ptr+k ≤ n) :
    m.loadLe ptr k = .ok (m.le ptr k) := if_pos h

theorem loadLe_out (m : Buf n) {ptr k : Nat} (h : ¬ ptr+k ≤ n) :
    m.loadLe ptr k = .error .undefinedBehaviour := if_neg h

theorem store_ok (m : Buf n) {ptr : Nat} {xs : List UInt8} (h : ptr+xs.length ≤ n) :
    m.store ptr xs = .ok (m.write ptr xs) := if_pos h

theorem store_out (m : Buf n) {ptr : Nat} {xs : List UInt8} (h : ¬ ptr+xs.length ≤ n) :
    m.store ptr xs = .error .undefinedBehaviour := if_neg h

theorem store_eq_ok {m m' : Buf n} {ptr : Nat} {xs : List UInt8} (h : m.store ptr xs = .ok m') :
    m' = m.write ptr xs := by
  unfold store at h
  split at h
  · cases h
    rfl
  · cases h

theorem copyWithin_eq_ok {m m' : Buf n} {src dst count : Nat}
    (h : m.copyWithin src dst count = .ok m') : m' = m.write dst (m.read src count) := by
  unfold copyWithin at h
  split at h
  · cases h
    rfl
  · cases h

theorem copyWithin_ok (m : Buf n) {src dst count : Nat}
    (h : src+count ≤ n ∧ dst+count ≤ n) :
    m.copyWithin src dst count = .ok (m.write dst (m.read src count)) := if_pos h

end Buf

theorem Slice.index_ok {n : Nat} (s : Slice n) {lo hi : Nat} (h : lo ≤ hi ∧ hi ≤ s.len) :
    s.index lo hi = .ok ⟨s.mem,s.start+lo,hi-lo,by have := s.inBounds; omega⟩ := dif_pos h

end InkDB
