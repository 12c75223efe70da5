import InkDB.PageTypes

/-!
Page flags: a byte with one bit for each state a page can be in, read as a set
of states.
-/

set_option autoImplicit false

namespace InkDB

inductive PageStates where
  | noState | fastParent | deleted | halfDeleted | incompleteSplit | hasOverflow
  deriving DecidableEq, Repr

namespace PageStates

def fromU8 (pf : UInt8) : Option PageStates :=
  if pf = 0b00001 then some .fastParent
  else if pf = 0b00010 then some .deleted
  else if pf = 0b00100 then some .halfDeleted
  else if pf = 0b01000 then some .incompleteSplit
  else if pf = 0b10000 then some .hasOverflow
  else none

def bit : PageStates → UInt8
  | .fastParent => 0b00001
  | .deleted => 0b00010
  | .halfDeleted => 0b00100
  | .incompleteSplit => 0b01000
  | .hasOverflow => 0b10000
  | .noState => 0

theorem fromU8_bit {x : PageStates} (h : x ≠ .noState) : fromU8 x.bit = some x := by
  cases x <;> first | rfl | exact absurd rfl h

theorem bit_eq_zero {x : PageStates} : x.bit = 0 ↔ x = .noState := by
  cases x <;> decide

theorem bit_and_bit (x y : PageStates) : x.bit &&& y.bit = if x = y then y.bit else 0 := by
  cases x <;> cases y <;> rfl

theorem not_bit_and_bit (x y : PageStates) : ~~~x.bit &&& y.bit = if x = y then 0 else y.bit := by
  cases x <;> cases y <;> rfl

theorem bit_twoPow {x : PageStates} (h : x ≠ .noState) :
    ∃ i, x.bit.toBitVec = BitVec.twoPow 8 i := by
  cases x with
  | noState => exact absurd rfl h
  | fastParent => exact ⟨0,rfl⟩
  | deleted => exact ⟨1,rfl⟩
  | halfDeleted => exact ⟨2,rfl⟩
  | incompleteSplit => exact ⟨3,rfl⟩
  | hasOverflow => exact ⟨4,rfl⟩

/-- A mask of one bit leaves all of it or nothing. -/
theorem and_bit (a : UInt8) (x : PageStates) : a &&& x.bit = 0 ∨ a &&& x.bit = x.bit := by
  by_cases hx : x = .noState
  · subst hx
    exact .inl (by simp [bit])
  · obtain ⟨i,hi⟩ := bit_twoPow hx
    have ha := BitVec.and_twoPow a.toBitVec i
    rw [← hi] at ha
    split at ha
    · exact .inr (UInt8.toBitVec_inj.mp ha)
    · exact .inl (UInt8.toBitVec_inj.mp ha)

end PageStates

theorem u8_or_and (a b c : UInt8) : (a ||| b) &&& c = (a &&& c) ||| (b &&& c) :=
  UInt8.toBitVec_inj.mp BitVec.and_or_distrib_right

theorem u8_and_or (a b c : UInt8) : a &&& (b ||| c) = (a &&& b) ||| (a &&& c) :=
  UInt8.toBitVec_inj.mp BitVec.and_or_distrib_left

structure PageFlags where
  bits : UInt8
  deriving DecidableEq, Repr

namespace PageFlags

def new (pf : PageStates) : PageFlags := ⟨pf.bit⟩

def setFlag (f : PageFlags) (pf : PageStates) : PageFlags := ⟨f.bits ||| pf.bit⟩

def clearFlag (f : PageFlags) (pf : PageStates) : PageFlags := ⟨f.bits &&& ~~~pf.bit⟩

def hasFlag (f : PageFlags) (pf : PageStates) : Bool := (f.bits &&& pf.bit) != 0

/-- `if self.has_flag(asked) { flags.push(pushed) }`. -/
def pushIf (f : PageFlags) (asked pushed : PageStates) (flags : List PageStates) :
    List PageStates :=
  if f.hasFlag asked then flags ++ [pushed] else flags

/-- The third branch asks for `HalfDeleted` and pushes `Deleted`. -/
def extractAllFlags (f : PageFlags) : List PageStates :=
  let flags := []
  let flags := f.pushIf .fastParent .fastParent flags
  let flags := f.pushIf .deleted .deleted flags
  let flags := f.pushIf .halfDeleted .deleted flags
  let flags := f.pushIf .incompleteSplit .incompleteSplit flags
  f.pushIf .hasOverflow .hasOverflow flags

theorem hasFlag_new (x y : PageStates) :
    (new x).hasFlag y = true ↔ y = x ∧ y ≠ .noState := by
  simp only [hasFlag,new,bne_iff_ne,PageStates.bit_and_bit]
  split
  · simp_all [PageStates.bit_eq_zero]
  · simp_all [eq_comm]

theorem hasFlag_setFlag (f : PageFlags) (x y : PageStates) :
    (f.setFlag x).hasFlag y = true ↔ f.hasFlag y = true ∨ y = x ∧ y ≠ .noState := by
  simp only [hasFlag,setFlag,bne_iff_ne,u8_or_and]
  rw [ne_eq,UInt8.or_eq_zero_iff,not_and_or]
  refine or_congr_right ?_
  have h := hasFlag_new x y
  simpa only [hasFlag,new,bne_iff_ne] using h

theorem hasFlag_clearFlag (f : PageFlags) (x y : PageStates) :
    (f.clearFlag x).hasFlag y = true ↔ f.hasFlag y = true ∧ y ≠ x := by
  simp only [hasFlag,clearFlag,bne_iff_ne,UInt8.and_assoc,PageStates.not_bit_and_bit]
  split
  · simp_all
  · simp_all [eq_comm]

theorem hasFlag_foldl_setFlag (f : PageFlags) (xs : List PageStates) (y : PageStates) :
    (xs.foldl setFlag f).hasFlag y = true ↔ f.hasFlag y = true ∨ y ∈ xs ∧ y ≠ .noState := by
  induction xs generalizing f with
  | nil => simp
  | cons x xs ih =>
    rw [List.foldl_cons,ih,hasFlag_setFlag,List.mem_cons]
    tauto

/-- No bit outside the five states is set. -/
def Known (f : PageFlags) : Prop := f.bits &&& 0b11100000 = 0

theorem bits_eq {f : PageFlags} (hf : f.Known) :
    f.bits = (f.bits &&& PageStates.fastParent.bit) ||| (f.bits &&& PageStates.deleted.bit) |||
      (f.bits &&& PageStates.halfDeleted.bit) ||| (f.bits &&& PageStates.incompleteSplit.bit) |||
      (f.bits &&& PageStates.hasOverflow.bit) := by
  have hbits : f.bits &&& 0b11100000 = 0 := hf
  have hall : f.bits &&& (0b00011111 ||| 0b11100000) = f.bits := UInt8.and_neg_one
  rw [u8_and_or,hbits,UInt8.or_zero] at hall
  rw [← u8_and_or,← u8_and_or,← u8_and_or,← u8_and_or]
  exact hall.symm

/-- Flags with the same states and no foreign bit are equal. -/
theorem eq_of_hasFlag {f g : PageFlags} (hf : f.Known) (hg : g.Known)
    (h : ∀ x, f.hasFlag x = true ↔ g.hasFlag x = true) : f = g := by
  have hbit : ∀ x : PageStates, f.bits &&& x.bit = g.bits &&& x.bit := by
    intro x
    have hx := h x
    simp only [hasFlag,bne_iff_ne] at hx
    rcases x.and_bit f.bits with hf₀ | hf₁
    · rw [hf₀] at hx ⊢
      exact (not_ne_iff.mp (fun hne => hx.mpr hne rfl)).symm
    · rcases x.and_bit g.bits with hg₀ | hg₁
      · rw [hg₀] at hx ⊢
        exact not_ne_iff.mp (fun hne => hx.mp hne rfl)
      · rw [hf₁,hg₁]
  have hbits : f.bits = g.bits := by
    rw [bits_eq hf,bits_eq hg]
    simp only [hbit]
  cases f
  cases g
  exact congrArg PageFlags.mk hbits

theorem known_new (x : PageStates) : (new x).Known := by
  cases x <;> rfl

theorem Known.setFlag {f : PageFlags} (hf : f.Known) (x : PageStates) : (f.setFlag x).Known := by
  unfold Known PageFlags.setFlag
  have hx : x.bit &&& 0b11100000 = 0 := known_new x
  have hbits : f.bits &&& 0b11100000 = 0 := hf
  rw [u8_or_and,hbits,hx,UInt8.or_zero]

theorem Known.clearFlag {f : PageFlags} (hf : f.Known) (x : PageStates) :
    (f.clearFlag x).Known := by
  unfold Known PageFlags.clearFlag
  have hbits : f.bits &&& 0b11100000 = 0 := hf
  rw [UInt8.and_assoc,UInt8.and_comm (~~~x.bit),← UInt8.and_assoc,hbits,UInt8.zero_and]

theorem Known.foldl_setFlag {f : PageFlags} (hf : f.Known) (xs : List PageStates) :
    (xs.foldl PageFlags.setFlag f).Known := by
  induction xs generalizing f with
  | nil => exact hf
  | cons x xs ih => exact ih (hf.setFlag x)

theorem mem_pushIf {f : PageFlags} {asked pushed x : PageStates} {flags : List PageStates} :
    x ∈ f.pushIf asked pushed flags ↔ x ∈ flags ∨ f.hasFlag asked = true ∧ x = pushed := by
  unfold pushIf
  split <;> simp_all

theorem nodup_pushIf {f : PageFlags} {asked pushed : PageStates} {flags : List PageStates}
    (h : flags.Nodup) (hnew : f.hasFlag asked = true → pushed ∉ flags) :
    (f.pushIf asked pushed flags).Nodup := by
  unfold pushIf
  split
  · rename_i hasked
    rw [List.nodup_append_comm]
    exact List.nodup_cons.mpr ⟨hnew hasked,h⟩
  · exact h

theorem halfDeleted_not_extracted (f : PageFlags) : .halfDeleted ∉ f.extractAllFlags := by
  simp [extractAllFlags,mem_pushIf]

section Extract
variable {f : PageFlags} (h : f.hasFlag .halfDeleted = false)
include h

theorem mem_extractAllFlags (x : PageStates) :
    x ∈ f.extractAllFlags ↔ f.hasFlag x = true := by
  have hno : f.hasFlag .noState = false := by simp [hasFlag,PageStates.bit]
  simp only [extractAllFlags,mem_pushIf]
  cases x <;> simp [h,hno]

theorem nodup_extractAllFlags : f.extractAllFlags.Nodup := by
  unfold extractAllFlags
  refine nodup_pushIf (nodup_pushIf (nodup_pushIf (nodup_pushIf (nodup_pushIf .nil ?_) ?_) ?_) ?_)
    ?_
  · simp
  · simp [mem_pushIf]
  · simp [h]
  · simp [mem_pushIf]
  · simp [mem_pushIf]

/-- Without `HalfDeleted` the extracted list spells the flags. -/
theorem rebuild_eq (hf : f.Known) : f.extractAllFlags.foldl setFlag (new .noState) = f := by
  apply eq_of_hasFlag ((known_new .noState).foldl_setFlag _) hf
  intro x
  rw [hasFlag_foldl_setFlag,hasFlag_new,mem_extractAllFlags h]
  constructor
  · rintro (⟨rfl,hne⟩ | ⟨hx,-⟩)
    · exact absurd rfl hne
    · exact hx
  · intro hx
    refine .inr ⟨hx,?_⟩
    rintro rfl
    simp [hasFlag,PageStates.bit] at hx

end Extract

end PageFlags

/-! Runs -/

inductive FlagOp where
  | set (x : PageStates)
  | clear (x : PageStates)
  deriving DecidableEq, Repr

def FlagOp.exec (f : PageFlags) : FlagOp → PageFlags
  | .set x => f.setFlag x
  | .clear x => f.clearFlag x

def FlagOp.step (S : Finset PageStates) : FlagOp → Finset PageStates
  | .set x => insert x S
  | .clear x => S.erase x

/-- The states a sequence of calls leaves, without `NoState`. -/
def stateSet (s : PageStates) (ops : List FlagOp) : Finset PageStates :=
  (ops.foldl FlagOp.step {s}).erase .noState

/-- The byte is a faithful set: tested, listed and rebuilt alike. -/
structure IsStateSet (f : PageFlags) (S : Finset PageStates) : Prop where
  tested : ∀ x, f.hasFlag x = true ↔ x ∈ S
  listed : ∀ x, x ∈ f.extractAllFlags ↔ x ∈ S
  once : f.extractAllFlags.Nodup
  rebuilt : f.extractAllFlags.foldl PageFlags.setFlag (PageFlags.new .noState) = f

theorem FlagOp.hasFlag_exec {f : PageFlags} {S : Finset PageStates}
    (h : ∀ x, f.hasFlag x = true ↔ x ∈ S.erase .noState) (op : FlagOp) (x : PageStates) :
    (op.exec f).hasFlag x = true ↔ x ∈ (op.step S).erase .noState := by
  have hx := h x
  rw [Finset.mem_erase] at hx ⊢
  cases op with
  | set y =>
    rw [exec,PageFlags.hasFlag_setFlag,hx,step,Finset.mem_insert]
    tauto
  | clear y =>
    rw [exec,PageFlags.hasFlag_clearFlag,hx,step,Finset.mem_erase]
    tauto

/-- After any history the bits test as the set, and no foreign bit is set. -/
theorem flagOps_hasFlag (ops : List FlagOp) {f : PageFlags} {S : Finset PageStates}
    (hf : f.Known) (h : ∀ x, f.hasFlag x = true ↔ x ∈ S.erase .noState) :
    (ops.foldl FlagOp.exec f).Known ∧ ∀ x, (ops.foldl FlagOp.exec f).hasFlag x = true ↔
      x ∈ (ops.foldl FlagOp.step S).erase .noState := by
  induction ops generalizing f S with
  | nil => exact ⟨hf,h⟩
  | cons op ops ih =>
    refine ih ?_ (op.hasFlag_exec h)
    cases op with
    | set y => exact hf.setFlag y
    | clear y => exact hf.clearFlag y

theorem page_flags_state_set_iff (s : PageStates) (ops : List FlagOp) :
    IsStateSet (ops.foldl FlagOp.exec (PageFlags.new s)) (stateSet s ops) ↔
      .halfDeleted ∉ stateSet s ops := by
  obtain ⟨hknown,htest⟩ := @flagOps_hasFlag ops (PageFlags.new s) {s} (PageFlags.known_new s)
    (fun x => by rw [PageFlags.hasFlag_new,Finset.mem_erase,Finset.mem_singleton,and_comm])
  constructor
  · intro h hmem
    exact PageFlags.halfDeleted_not_extracted _ ((h.listed _).mpr hmem)
  · intro hno
    have hfalse := Bool.eq_false_iff.mpr (fun ht => hno ((htest .halfDeleted).mp ht))
    exact ⟨htest,fun x => (PageFlags.mem_extractAllFlags hfalse x).trans (htest x),
      PageFlags.nodup_extractAllFlags hfalse,PageFlags.rebuild_eq hfalse hknown⟩

/-- A page that is only half deleted extracts as deleted. -/
theorem half_deleted_extracts_as_deleted :
    ¬ ∀ (s : PageStates) (ops : List FlagOp),
      IsStateSet (ops.foldl FlagOp.exec (PageFlags.new s)) (stateSet s ops) := by
  intro hall
  have hlist := (hall .halfDeleted []).listed .deleted
  revert hlist
  decide

end InkDB
