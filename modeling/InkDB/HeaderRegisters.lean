import InkDB.ProgLogic
import InkDB.SlotDirectory

/-!
The header of a slotted page as a record. Each setter changes the field it is
named after and no other, on every page and over every run, and the bytes that
belong to no field with a setter are never written.
-/

set_option autoImplicit false

namespace InkDB
open SlottedPageRef

structure HeaderFields where
  lsn : UInt64
  pageType : UInt8
  flags : UInt8
  freeStart : Nat
  freeEnd : Nat
  special : UInt16

def headerFieldsOf (p : RawPage) : HeaderFields where
  lsn := getLsn p
  pageType := getPageType p
  flags := getFlags p
  freeStart := freeStart p
  freeEnd := freeEnd p
  special := getSpecialOffset p

/-- A call on the header. `free_start` is only ever moved by an entry. -/
inductive HeaderOp where
  | setPageType (pageType : UInt8)
  | setLsn (lsn : UInt64)
  | setFlags (flags : UInt8)
  | setFreeStart (offset : Nat)
  | incrementFreeStart
  | setFreeEnd (offset : Nat)
  | setSpecialOffset (special : UInt16)
  deriving DecidableEq, Repr

namespace HeaderOp
open Prog

def exec : HeaderOp → Prog RawPage PageError Unit
  | .setPageType pageType => modify (SlottedPageMut.setPageType pageType)
  | .setLsn lsn => modify (SlottedPageMut.setLsn lsn)
  | .setFlags flags => modify (SlottedPageMut.setFlags flags)
  | .setFreeStart offset => SlottedPageMut.setFreeStart offset
  | .incrementFreeStart => do
      let _ ← SlottedPageMut.incrementFreeStart entrySize
      pure ()
  | .setFreeEnd offset => SlottedPageMut.setFreeEnd offset
  | .setSpecialOffset special => SlottedPageMut.setSpecialOffset special

def incremented : Prog HeaderFields PageError Nat := do
  let start ← reads HeaderFields.freeStart
  let stop ← reads HeaderFields.freeEnd
  call (fun b => debugAssert b (start+4 ≤ stop))
  call (fun b => debugAssert b (start+4 ≥ 24))
  if start+4 < 24 then err .invalidFreeStart
  else do
    modify (fun r => { r with freeStart := (start+4)%65536 })
    pure (start+4)

/-- The same call on the record. Offsets are cut to 16 bits when they are
stored, after the assertions have seen them. -/
def spec : HeaderOp → Prog HeaderFields PageError Unit
  | .setPageType pageType => modify (fun r => { r with pageType := pageType })
  | .setLsn lsn => modify (fun r => { r with lsn := lsn })
  | .setFlags flags => modify (fun r => { r with flags := flags })
  | .setFreeStart offset => do
      call (fun b => debugAssert b (offset ≥ 24))
      call (fun b => debugAssert b (offset ≤ 4096))
      modify (fun r => { r with freeStart := offset%65536 })
  | .incrementFreeStart => do
      let _ ← incremented
      pure ()
  | .setFreeEnd offset => do
      call (fun b => debugAssert b (offset ≥ 24))
      let start ← reads HeaderFields.freeStart
      if offset < start ∨ offset < 24 then err .invalidFreeEnd
      else modify (fun r => { r with freeEnd := offset%65536 })
  | .setSpecialOffset special => do
      call (fun _ => assert (special < 4096))
      modify (fun r => { r with special := 4096-special })

end HeaderOp

/-! Fields do not overlap -/

/-- A write leaves the fields on either side of it. -/
theorem fields_outside (p : RawPage) (o : Nat) (xs : List UInt8) :
    (8 ≤ o → getLsn (p.write o xs) = getLsn p) ∧
    (o+xs.length ≤ 10 ∨ 11 ≤ o → getPageType (p.write o xs) = getPageType p) ∧
    (o+xs.length ≤ 11 ∨ 12 ≤ o → getFlags (p.write o xs) = getFlags p) ∧
    (o+xs.length ≤ 12 ∨ 14 ≤ o → freeStart (p.write o xs) = freeStart p) ∧
    (o+xs.length ≤ 14 ∨ 16 ≤ o → freeEnd (p.write o xs) = freeEnd p) ∧
    (o+xs.length ≤ 16 ∨ 18 ≤ o → getSpecialOffset (p.write o xs) = getSpecialOffset p) := by
  have h : ∀ i, i < o ∨ o+xs.length ≤ i → (p.write o xs).get i = p.get i := fun i hi =>
    Buf.get_write_outside p xs hi
  refine ⟨fun ho => ?_,fun ho => ?_,fun ho => ?_,fun ho => ?_,fun ho => ?_,fun ho => ?_⟩
  · exact getLsn_congr (fun i hi => h i (by omega))
  · exact h 10 (by omega)
  · exact h 11 (by omega)
  · exact freeStart_congr (fun i h₁ h₂ => h i (by omega))
  · exact freeEnd_congr (fun i h₁ h₂ => h i (by omega))
  · exact getSpecialOffset_congr (fun i h₁ h₂ => h i (by omega))

theorem le_u16_write (p : RawPage) {o : Nat} (v : Nat) (ho : o+2 ≤ 4096) :
    (p.write o (u16ToLeBytes (UInt16.ofNat v))).le o 2 = v%65536 := by
  have hv : UInt16.ofNat v = UInt16.ofNat (v%65536) := by
    apply UInt16.toNat_inj.mp
    simp
  rw [hv,le_writeU16 p ho (Nat.mod_lt _ (by omega))]

section Fields
variable (p : RawPage)

theorem headerFieldsOf_setPageType (t : UInt8) : headerFieldsOf (SlottedPageMut.setPageType t p) =
    { headerFieldsOf p with pageType := t } := by
  have hin : getPageType (SlottedPageMut.setPageType t p) = t :=
    Buf.get_write_inside p [t] (by decide) (Nat.le_refl _) (by simp)
  obtain ⟨h₁,-,h₃,h₄,h₅,h₆⟩ := fields_outside p 10 [t]
  rw [SlottedPageMut.setPageType] at hin ⊢
  simp only [headerFieldsOf,hin,h₁ (by simp),h₃ (by simp),h₄ (by simp),
    h₅ (by simp),h₆ (by simp)]

theorem headerFieldsOf_setFlags (v : UInt8) : headerFieldsOf (SlottedPageMut.setFlags v p) =
    { headerFieldsOf p with flags := v } := by
  have hin : getFlags (SlottedPageMut.setFlags v p) = v :=
    Buf.get_write_inside p [v] (by decide) (Nat.le_refl _) (by simp)
  obtain ⟨h₁,h₂,-,h₄,h₅,h₆⟩ := fields_outside p 11 [v]
  rw [SlottedPageMut.setFlags] at hin ⊢
  simp only [headerFieldsOf,hin,h₁ (by simp),h₂ (by simp),h₄ (by simp),
    h₅ (by simp),h₆ (by simp)]

theorem headerFieldsOf_setLsn (v : UInt64) : headerFieldsOf (SlottedPageMut.setLsn v p) =
    { headerFieldsOf p with lsn := v } := by
  have hin : getLsn (SlottedPageMut.setLsn v p) = v := by
    show UInt64.ofNat ((p.write 0 (encodeLe 8 v.toNat)).le 0 8) = v
    rw [Buf.le_write_same _ (by omega) (by have := v.toNat_lt; omega),UInt64.ofNat_toNat]
  obtain ⟨-,h₂,h₃,h₄,h₅,h₆⟩ := fields_outside p 0 (u64ToLeBytes v)
  rw [SlottedPageMut.setLsn] at hin ⊢
  simp only [headerFieldsOf,hin,h₂ (by simp),h₃ (by simp),h₄ (by simp),
    h₅ (by simp),h₆ (by simp)]

theorem headerFieldsOf_withFreeStart (v : Nat) : headerFieldsOf (withFreeStart v p) =
    { headerFieldsOf p with freeStart := v%65536 } := by
  have hin : freeStart (withFreeStart v p) = v%65536 := @le_u16_write p 12 v (by omega)
  obtain ⟨h₁,h₂,h₃,-,h₅,h₆⟩ := fields_outside p 12 (u16ToLeBytes (UInt16.ofNat v))
  rw [withFreeStart] at hin ⊢
  simp only [headerFieldsOf,hin,h₁ (by simp),h₂ (by simp),h₃ (by simp),
    h₅ (by simp),h₆ (by simp)]

theorem headerFieldsOf_withFreeEnd (v : Nat) : headerFieldsOf (withFreeEnd v p) =
    { headerFieldsOf p with freeEnd := v%65536 } := by
  have hin : freeEnd (withFreeEnd v p) = v%65536 := @le_u16_write p 14 v (by omega)
  obtain ⟨h₁,h₂,h₃,h₄,-,h₆⟩ := fields_outside p 14 (u16ToLeBytes (UInt16.ofNat v))
  rw [withFreeEnd] at hin ⊢
  simp only [headerFieldsOf,hin,h₁ (by simp),h₂ (by simp),h₃ (by simp),
    h₄ (by simp),h₆ (by simp)]

theorem headerFieldsOf_writeSpecial (v : UInt16) : headerFieldsOf (p.write 16 (u16ToLeBytes v)) =
    { headerFieldsOf p with special := v } := by
  have hin : getSpecialOffset (p.write 16 (u16ToLeBytes v)) = v := by
    show UInt16.ofNat ((p.write 16 (encodeLe 2 v.toNat)).le 16 2) = v
    rw [Buf.le_write_same _ (by omega) (by have := v.toNat_lt; omega),UInt16.ofNat_toNat]
  obtain ⟨h₁,h₂,h₃,h₄,h₅,-⟩ := fields_outside p 16 (u16ToLeBytes v)
  simp only [headerFieldsOf,hin,h₁ (by simp),h₂ (by simp),h₃ (by simp),h₄ (by simp),
    h₅ (by simp)]

end Fields

theorem headerFieldsOf_freeStart (p : RawPage) : freeStart p = (headerFieldsOf p).freeStart := rfl

theorem headerFieldsOf_freeEnd (p : RawPage) : freeEnd p = (headerFieldsOf p).freeEnd := rfl

/-! Calls and runs -/

namespace HeaderOp
open Prog

theorem mirrors (op : HeaderOp) : Mirrors headerFieldsOf op.exec op.spec := by
  cases op with
  | setPageType t => exact mirrors_modify (fun p => headerFieldsOf_setPageType p t)
  | setLsn v => exact mirrors_modify (fun p => headerFieldsOf_setLsn p v)
  | setFlags v => exact mirrors_modify (fun p => headerFieldsOf_setFlags p v)
  | setFreeStart o =>
    refine mirrors_call_bind _ fun _ => mirrors_call_bind _ fun _ => ?_
    exact mirrors_modify (fun p => headerFieldsOf_withFreeStart p o)
  | incrementFreeStart =>
    refine mirrors_bind ?_ fun _ => mirrors_pure ()
    unfold SlottedPageMut.incrementFreeStart incremented
    refine mirrors_reads_bind headerFieldsOf_freeStart fun start => ?_
    refine mirrors_reads_bind headerFieldsOf_freeEnd fun stop => ?_
    refine mirrors_call_bind _ fun _ => mirrors_call_bind _ fun _ => ?_
    refine mirrors_ite (mirrors_err _) (mirrors_bind ?_ fun _ => mirrors_pure _)
    exact mirrors_modify (fun p => headerFieldsOf_withFreeStart p (start+4))
  | setFreeEnd o =>
    refine mirrors_call_bind _ fun _ => ?_
    refine mirrors_reads_bind headerFieldsOf_freeStart fun start => ?_
    exact mirrors_ite (mirrors_err _) (mirrors_modify (fun p => headerFieldsOf_withFreeEnd p o))
  | setSpecialOffset v =>
    refine mirrors_call_bind _ fun _ => ?_
    exact mirrors_modify (fun p => headerFieldsOf_writeSpecial p (4096-v))

/-- The checksum, the version, the transaction id and all that lies behind the
header. -/
def Rest (p₀ p : RawPage) : Prop := ∀ i, 8 ≤ i ∧ i < 10 ∨ 18 ≤ i → p.get i = p₀.get i

theorem Rest.write {p₀ p : RawPage} (h : Rest p₀ p) {o n : Nat} {xs : List UInt8}
    (hn : xs.length = n) (ho : o+n ≤ 8 ∨ 10 ≤ o ∧ o+n ≤ 18) : Rest p₀ (p.write o xs) := by
  intro i hi
  rw [Buf.get_write_outside p xs (by omega)]
  exact h i hi

theorem rest (b : Build) (p₀ : RawPage) (op : HeaderOp) :
    Ensures b (Rest p₀) op.exec (Rest p₀) := by
  cases op with
  | setPageType _ | setFlags _ =>
    exact ensures_modify (fun p hp => hp.write List.length_singleton (by decide))
  | setLsn v => exact ensures_modify (fun p hp => hp.write (u64ToLeBytes_length v) (by decide))
  | setFreeStart o =>
    refine ensures_call_bind fun _ _ => ensures_call_bind fun _ _ => ?_
    exact ensures_modify (fun p hp => hp.write (u16ToLeBytes_length _) (by decide))
  | incrementFreeStart =>
    refine ensures_bind ?_ (fun _ hp => hp) fun _ => ensures_pure (fun _ hp => hp) ()
    refine ensures_reads_bind fun _ => ensures_reads_bind fun _ => ?_
    refine ensures_call_bind fun _ _ => ensures_call_bind fun _ _ => ?_
    split
    · exact ensures_err (fun p hp => hp.1.1) _
    · refine ensures_bind (ensures_modify fun p hp => ?_) (fun p hp => hp) fun _ =>
        ensures_pure (fun p hp => hp) _
      exact hp.1.1.write (u16ToLeBytes_length _) (by decide)
  | setFreeEnd o =>
    refine ensures_call_bind fun _ _ => ensures_reads_bind fun _ => ?_
    split
    · exact ensures_err (fun p hp => hp.1) _
    · exact ensures_modify (fun p hp => hp.1.write (u16ToLeBytes_length _) (by decide))
  | setSpecialOffset v =>
    refine ensures_call_bind fun _ _ => ?_
    exact ensures_modify (fun p hp => hp.write (u16ToLeBytes_length _) (by decide))

end HeaderOp

/-- Every run on the header answers and faults as the run on the record does,
leaves the record behind, and writes nothing else. -/
theorem header_is_record (b : Build) (p : RawPage) (ops : List HeaderOp) :
    (Prog.runAll (ops.map HeaderOp.exec) b p).map (fun r => (r.1,headerFieldsOf r.2)) =
        Prog.runAll (ops.map HeaderOp.spec) b (headerFieldsOf p) ∧
      ∀ rs p', Prog.runAll (ops.map HeaderOp.exec) b p = .ok (rs,p') →
        ∀ i, 8 ≤ i ∧ i < 10 ∨ 18 ≤ i → p'.get i = p.get i := by
  refine ⟨Prog.runAll_mirrors HeaderOp.mirrors ops b p,fun rs p' hrun => ?_⟩
  have hrest : HeaderOp.Rest p p := fun _ _ => rfl
  exact Prog.runAll_invariant (HeaderOp.rest b p) hrest hrun

/-! The special area -/

def HeaderOp.SetsSpecial : HeaderOp → Prop
  | .setSpecialOffset _ => True
  | _ => False

section Special
variable {b : Build} {r r' : HeaderFields} {rs : List (Except PageError Unit)}
open Prog

theorem HeaderOp.special_kept {op : HeaderOp} (h : ¬ op.SetsSpecial) (v : UInt16) :
    Ensures b (fun r => r.special = v) op.spec (fun r => r.special = v) := by
  cases op with
  | setPageType _ | setLsn _ | setFlags _ => exact ensures_modify (fun _ hr => hr)
  | setFreeStart o =>
    refine ensures_call_bind fun _ _ => ensures_call_bind fun _ _ => ?_
    exact ensures_modify (fun _ hr => hr)
  | incrementFreeStart =>
    refine ensures_bind ?_ (fun _ hr => hr) fun _ => ensures_pure (fun _ hr => hr) ()
    refine ensures_reads_bind fun _ => ensures_reads_bind fun _ => ?_
    refine ensures_call_bind fun _ _ => ensures_call_bind fun _ _ => ?_
    split
    · exact ensures_err (fun _ hr => hr.1.1) _
    · refine ensures_bind (ensures_modify fun _ hr => ?_) (fun _ hr => hr) fun _ =>
        ensures_pure (fun _ hr => hr) _
      exact hr.1.1
  | setFreeEnd o =>
    refine ensures_call_bind fun _ _ => ensures_reads_bind fun _ => ?_
    split
    · exact ensures_err (fun _ hr => hr.1) _
    · exact ensures_modify (fun _ hr => hr.1)
  | setSpecialOffset v => exact absurd trivial h

theorem special_kept_run {post : List HeaderOp} (hpost : ∀ op ∈ post, ¬ op.SetsSpecial)
    (hrun : runAll (post.map HeaderOp.spec) b r = .ok (rs,r')) : r'.special = r.special := by
  induction post generalizing r rs with
  | nil =>
    cases hrun
    rfl
  | cons op post ih =>
    obtain ⟨answer,r₁,rs',hop,hrest,-⟩ := runAll_cons hrun
    have h₁ := HeaderOp.special_kept (hpost op (by simp)) r.special r answer r₁ rfl hop
    exact (ih (fun op hop => hpost op (List.mem_cons_of_mem _ hop)) hrest).trans h₁

theorem special_set {v : UInt16} {answer : Except PageError Unit}
    (h : (HeaderOp.setSpecialOffset v).spec.run b r = .ok (answer,r')) :
    v < 4096 ∧ r' = { r with special := 4096-v } := by
  by_cases hlt : v < 4096
  · have hx : (fun _ : Build => assert (v < 4096)) b = .ok () := assert_of hlt
    rw [HeaderOp.spec,call_bind hx] at h
    cases h
    exact ⟨hlt,rfl⟩
  · have hx : (fun _ : Build => assert (v < 4096)) b = .error (.panic .assertion) :=
      assert_of_not hlt
    rw [HeaderOp.spec,call_bind_fault hx] at h
    cases h

theorem special_last_set {pre post : List HeaderOp} {v : UInt16}
    (hpost : ∀ op ∈ post, ¬ op.SetsSpecial)
    (hrun : runAll ((pre ++ .setSpecialOffset v :: post).map HeaderOp.spec) b r = .ok (rs,r')) :
    v < 4096 ∧ r'.special = 4096-v := by
  induction pre generalizing r rs with
  | nil =>
    obtain ⟨answer,r₁,rs',hop,hrest,-⟩ := runAll_cons hrun
    obtain ⟨hlt,hr₁⟩ := special_set hop
    refine ⟨hlt,?_⟩
    rw [special_kept_run hpost hrest,hr₁]
  | cons op pre ih =>
    obtain ⟨answer,r₁,rs',hop,hrest,-⟩ := runAll_cons hrun
    exact ih hrest

end Special

/-- The special area ends with the page and has the size it was last given, for
both readers of it. -/
theorem special_size_last_set (b : Build) (p p' : RawPage) (pre post : List HeaderOp) (v : UInt16)
    (hpost : ∀ op ∈ post, ¬ op.SetsSpecial) (rs : List (Except PageError Unit))
    (hrun : Prog.runAll ((pre ++ .setSpecialOffset v :: post).map HeaderOp.exec) b p =
      .ok (rs,p')) (b' : Build) :
    specialSize b' p' = .ok v.toNat ∧ ∃ special, getSpecialRef b' p' = .ok (.ok special) ∧
      special.len = v.toNat ∧ special.start+special.len = 4096 := by
  have hspec := (Prog.runAll_mirrors HeaderOp.mirrors _ b p).symm.trans (congrArg _ hrun)
  obtain ⟨hlt,hv⟩ := special_last_set hpost hspec
  have hle : v.toNat < 4096 := hlt
  have hoff : (getSpecialOffset p').toNat = 4096-v.toNat := by
    rw [show getSpecialOffset p' = 4096-v from hv]
    exact UInt16.toNat_sub_of_le 4096 v (UInt16.le_of_lt hlt)
  constructor
  · simp only [specialSize,hoff,pageSize]
    rw [if_neg (by omega),debugAssert_of b' (by omega),Exec.ok_bind,usizeSub_of_le b' (by omega)]
    congr 1
    omega
  · simp only [getSpecialRef,hoff,pageSize]
    rw [if_neg (by omega),usizeSub_of_le b' (by omega),Exec.ok_bind,assert_of (by omega),
      Exec.ok_bind,Buf.index_ok p' (by omega)]
    refine ⟨_,rfl,?_,?_⟩
    · simp only
      omega
    · simp only
      omega

/-- On a buffer of leftovers. -/
theorem special_size_last_set_leftovers :
    (∀ op ∈ [HeaderOp.setFlags 255,.setFreeStart 24], ¬ op.SetsSpecial) ∧ ∃ rs p',
      Prog.runAll ([HeaderOp.setSpecialOffset 8,.setSpecialOffset 16,.setFlags 255,
        .setFreeStart 24].map HeaderOp.exec) .debug (Buf.fill 4096 7) = .ok (rs,p') ∧
      specialSize .release p' = .ok 16 := by
  have hpost : ∀ op ∈ [HeaderOp.setFlags 255,.setFreeStart 24], ¬ op.SetsSpecial := by
    intro op hop
    simp only [List.mem_cons,List.not_mem_nil,or_false] at hop
    rcases hop with rfl | rfl <;> exact id
  refine ⟨hpost,_,_,rfl,?_⟩
  exact (special_size_last_set .debug (Buf.fill 4096 7) _ [.setSpecialOffset 8]
    [.setFlags 255,.setFreeStart 24] 16 hpost _ rfl .release).1

end InkDB
