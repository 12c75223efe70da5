import InkDB.DirectoryList

/-!
Runs of insertions on every page whose header is in order. Cells stay where they
are and as they are, entries keep their order, and the free space pays for what
is stored and for nothing else.
-/

set_option autoImplicit false

namespace InkDB
open SlottedPageRef

namespace CellOp

def cell : CellOp → List UInt8
  | .append cell => cell
  | .insertAt _ cell => cell

def cost (op : CellOp) : Nat := op.cell.length+4

def InRange (count : Nat) : CellOp → Prop
  | .append _ => True
  | .insertAt index _ => index ≤ count

inductive Outcome (p : RawPage) (op : CellOp) : Except PageError Unit → RawPage → Prop where
  | full (h : op.cost > freeEnd p-freeStart p) : Outcome p op (.error .noContigiousSpace) p
  | outOfRange (h : ¬ op.InRange (dirCount p)) : Outcome p op (.error .slotIndexNotInRange) p
  | stored {index : Nat} (hroom : op.cost ≤ freeEnd p-freeStart p) (hi : index ≤ dirCount p)
      (hr : op.InRange (dirCount p)) : Outcome p op (.ok ()) (cellAdded p index op.cell)

theorem outcome (b : Build) {p : RawPage} (h : HeaderOk p) (op : CellOp) :
    ∃ r p', op.exec.run b p = .ok (r,p') ∧ op.Outcome p r p' := by
  cases op with
  | append cell =>
    rw [exec,addCellAppendSlotEntry_eq b h]
    split
    · exact ⟨_,_,rfl,.full ‹_›⟩
    · exact ⟨_,_,rfl,@Outcome.stored p (.append cell) _ (Nat.not_lt.mp ‹_›) (Nat.le_refl _) trivial⟩
  | insertAt index cell =>
    rw [exec,addCellAtSlotEntryIndex_eq b h]
    split
    · exact ⟨_,_,rfl,.full ‹_›⟩
    · split
      · exact ⟨_,_,rfl,.outOfRange (Nat.not_le.mpr ‹_›)⟩
      · exact ⟨_,_,rfl,@Outcome.stored p (.insertAt index cell) _ (Nat.not_lt.mp ‹_›)
          (Nat.not_lt.mp ‹_›) (Nat.not_lt.mp ‹_›)⟩

end CellOp

theorem HeaderOk.cellAdded {p : RawPage} (h : HeaderOk p) {idx : Nat} {cell : List UInt8}
    (hroom : cell.length+4 ≤ freeEnd p-freeStart p) : HeaderOk (InkDB.cellAdded p idx cell) := by
  have hl := h.low
  have hm := h.mid
  have hh := h.high
  have ha := h.aligned
  have hs := @freeStart_cellAdded p h idx cell hroom
  have he := freeEnd_cellAdded h idx cell
  constructor <;> omega

/-! Cells stay -/

/-- The entries are still there, in their order, and so are the bytes of all
cells. -/
structure Kept (p p' : RawPage) : Prop where
  entries : (entriesOf p (dirCount p)).Sublist (entriesOf p' (dirCount p'))
  stop : freeEnd p' ≤ freeEnd p
  bytes : ∀ i, freeEnd p ≤ i → p'.get i = p.get i

theorem Kept.refl (p : RawPage) : Kept p p := ⟨.refl _,Nat.le_refl _,fun _ _ => rfl⟩

theorem Kept.trans {p p₁ p' : RawPage} (h : Kept p p₁) (h' : Kept p₁ p') : Kept p p' where
  entries := h.entries.trans h'.entries
  stop := Nat.le_trans h'.stop h.stop
  bytes i hi := (h'.bytes i (Nat.le_trans h.stop hi)).trans (h.bytes i hi)

theorem dirCount_cellAdded {p : RawPage} (h : HeaderOk p) {idx : Nat} {cell : List UInt8}
    (hroom : cell.length+4 ≤ freeEnd p-freeStart p) :
    dirCount (cellAdded p idx cell) = dirCount p+1 := by
  have hl := h.low
  rw [dirCount,freeStart_cellAdded h hroom,dirCount]
  omega

section Outcomes
variable {p p' : RawPage} {op : CellOp} {r : Except PageError Unit}

theorem CellOp.Outcome.headerOk (h : HeaderOk p) (ho : op.Outcome p r p') : HeaderOk p' := by
  cases ho with
  | full | outOfRange => exact h
  | stored hroom => exact h.cellAdded hroom

theorem CellOp.Outcome.kept (h : HeaderOk p) (ho : op.Outcome p r p') : Kept p p' := by
  cases ho with
  | full | outOfRange => exact .refl p
  | stored hroom hi =>
    refine ⟨?_,?_,fun i hle => ?_⟩
    · rw [dirCount_cellAdded h hroom,entriesOf_cellAdded h hi hroom]
      exact List.sublist_insertIdx _ _ _
    · rw [freeEnd_cellAdded h]
      exact Nat.sub_le _ _
    · exact get_cellAdded h hi hroom (.inr (.inr hle))

end Outcomes

inductive CellRun : RawPage → List CellOp → List (Except PageError Unit) → RawPage → Prop where
  | nil {p : RawPage} : CellRun p [] [] p
  | cons {p p₁ p' : RawPage} {op : CellOp} {ops : List CellOp} {r : Except PageError Unit}
      {rs : List (Except PageError Unit)} (ho : op.Outcome p r p₁) (hrest : CellRun p₁ ops rs p') :
      CellRun p (op :: ops) (r :: rs) p'

theorem cellRun (b : Build) {p : RawPage} (h : HeaderOk p) (ops : List CellOp) :
    ∃ rs p', Prog.runAll (ops.map CellOp.exec) b p = .ok (rs,p') ∧ CellRun p ops rs p' := by
  induction ops generalizing p with
  | nil => exact ⟨[],p,rfl,.nil⟩
  | cons op ops ih =>
    obtain ⟨r,p₁,hrun,ho⟩ := op.outcome b h
    obtain ⟨rs,p',hrest,hr⟩ := ih (ho.headerOk h)
    refine ⟨r :: rs,p',?_,.cons ho hr⟩
    simp only [List.map_cons,Prog.runAll,hrun,Exec.ok_bind,hrest]
    rfl

section Runs
variable {p p' : RawPage} {ops : List CellOp} {rs : List (Except PageError Unit)}

theorem CellRun.headerOk (hr : CellRun p ops rs p') (h : HeaderOk p) : HeaderOk p' := by
  induction hr with
  | nil => exact h
  | cons ho _ ih => exact ih (ho.headerOk h)

theorem CellRun.kept (hr : CellRun p ops rs p') (h : HeaderOk p) : Kept p p' := by
  induction hr with
  | nil => exact .refl _
  | cons ho _ ih => exact (ho.kept h).trans (ih (ho.headerOk h))

end Runs

theorem cellSliceFromEntry_congr {p p' : RawPage} {e : SlotEntry}
    (h : ∀ i, e.offset.toNat ≤ i → p'.get i = p.get i) (b : Build) :
    (cellSliceFromEntry b p' e).map Slice.bytes = (cellSliceFromEntry b p e).map Slice.bytes := by
  simp only [cellSliceFromEntry,Buf.index]
  cases debugAssert b (e.offset.toNat+e.length.toNat < 4096) with
  | error x => rfl
  | ok u =>
    simp only [Exec.ok_bind]
    split
    · refine congrArg Except.ok ?_
      exact Buf.read_congr (fun i h₁ _ => h i h₁)
    · rfl

/-- Whatever is inserted, an entry read from the directory before is in it
afterwards and leads to the same bytes, at the same place. -/
theorem cells_never_move (b : Build) (p : RawPage) (h : HeaderOk p) (ops : List CellOp) :
    ∃ rs p' es es', Prog.runAll (ops.map CellOp.exec) b p = .ok (rs,p') ∧ Yields p es ∧
      Yields p' es' ∧ es.Sublist es' ∧ ∀ e, freeEnd p ≤ e.offset.toNat → ∀ b',
        (cellSliceFromEntry b' p' e).map Slice.bytes =
          (cellSliceFromEntry b' p e).map Slice.bytes := by
  obtain ⟨rs,p',hrun,hr⟩ := cellRun b h ops
  have hk := hr.kept h
  refine ⟨rs,p',_,_,hrun,h.yields,(hr.headerOk h).yields,hk.entries,fun e he b' => ?_⟩
  exact cellSliceFromEntry_congr (fun i hi => hk.bytes i (Nat.le_trans he hi)) b'

theorem cells_never_move_shifted :
    HeaderOk (cellAdded (initialPage 1) 0 [1,2]) ∧ ∃ rs p',
      Prog.runAll ([CellOp.insertAt 0 [3]].map CellOp.exec) .debug
        (cellAdded (initialPage 1) 0 [1,2]) = .ok (rs,p') ∧
      (cellSliceFromEntry .debug p' ⟨4078,2⟩).map Slice.bytes = .ok [1,2] := by
  have hr := represents_initialPage 1
  have hroom : [1,2].length+4 ≤ freeEnd (initialPage 1)-freeStart (initialPage 1) := by
    rw [hr.start,hr.stop]
    decide
  have hok : HeaderOk (cellAdded (initialPage 1) 0 [1,2]) := hr.headerOk.cellAdded hroom
  obtain ⟨rs,p',es,es',hrun,-,-,-,hcells⟩ := cells_never_move .debug _ hok [.insertAt 0 [3]]
  have hstop : freeEnd (cellAdded (initialPage 1) 0 [1,2]) = 4078 := by
    rw [freeEnd_cellAdded hr.headerOk,hr.stop]
    rfl
  refine ⟨hok,rs,p',hrun,?_⟩
  rw [hcells ⟨4078,2⟩ (by rw [hstop]; decide) .debug]
  rfl

/-! Space -/

def spent (ops : List CellOp) (rs : List (Except PageError Unit)) : Nat :=
  ((ops.zip rs).map (fun x => match x.2 with | .ok _ => x.1.cost | .error _ => 0)).sum

/-- Every call names a slot that exists once the calls before it have gone
through. -/
def InRangeFrom (count : Nat) (ops : List CellOp) : Prop :=
  ∀ k (hk : k < ops.length), ops[k].InRange (count+k)

theorem inRangeFrom_cons {count : Nat} {op : CellOp} {ops : List CellOp} :
    InRangeFrom count (op :: ops) ↔ op.InRange count ∧ InRangeFrom (count+1) ops := by
  constructor
  · intro h
    refine ⟨h 0 (by simp),fun k hk => ?_⟩
    have hnext := h (k+1) (by simpa using hk)
    rwa [List.getElem_cons_succ,show count+(k+1) = count+1+k by omega] at hnext
  · rintro ⟨hop,hops⟩ k hk
    cases k with
    | zero => exact hop
    | succ k =>
      rw [List.getElem_cons_succ,show count+(k+1) = count+1+k by omega]
      exact hops k (by simpa using hk)

section Space
variable {p p' : RawPage} {ops : List CellOp} {rs : List (Except PageError Unit)}

theorem CellRun.spent_add (hr : CellRun p ops rs p') (h : HeaderOk p) :
    freeEnd p'-freeStart p'+spent ops rs = freeEnd p-freeStart p := by
  induction hr with
  | nil => rfl
  | @cons p p₁ p' op ops r rs ho _ ih =>
    have hrest := ih (ho.headerOk h)
    cases ho with
    | full | outOfRange => simpa [spent] using hrest
    | stored hroom =>
      have hm := h.mid
      have hcost : op.cost = op.cell.length+4 := rfl
      rw [freeStart_cellAdded h hroom,freeEnd_cellAdded h] at hrest
      simp only [spent,List.zip_cons_cons,List.map_cons,List.sum_cons] at hrest ⊢
      omega

theorem CellRun.all_ok_iff (hr : CellRun p ops rs p') (h : HeaderOk p) :
    (∀ r ∈ rs, r = .ok ()) ↔
      (ops.map CellOp.cost).sum ≤ freeEnd p-freeStart p ∧ InRangeFrom (dirCount p) ops := by
  induction hr with
  | nil => simp [InRangeFrom]
  | @cons p p₁ p' op ops r rs ho _ ih =>
    have hrest := ih (ho.headerOk h)
    rw [List.forall_mem_cons,hrest,inRangeFrom_cons,List.map_cons,List.sum_cons]
    cases ho with
    | full hfull =>
      refine iff_of_false (by simp) ?_
      rintro ⟨hsum,-⟩
      omega
    | outOfRange hout => exact iff_of_false (by simp) (fun hall => hout hall.2.1)
    | stored hroom hi hin =>
      have hm := h.mid
      have hcost : op.cost = op.cell.length+4 := rfl
      rw [freeStart_cellAdded h hroom,freeEnd_cellAdded h,dirCount_cellAdded h hroom]
      simp only [hin,true_and]
      constructor
      · rintro ⟨hsum,hops⟩
        exact ⟨by omega,hops⟩
      · rintro ⟨hsum,hops⟩
        exact ⟨by omega,hops⟩

end Space

/-- The free space goes down by what has been stored. A batch goes through as a
whole exactly if its total fits and no call reaches behind the slots, whatever
the order. -/
theorem insertions_spend_space (b : Build) (p : RawPage) (h : HeaderOk p) (ops : List CellOp) :
    ∃ rs p' dir room room', Prog.runAll (ops.map CellOp.exec) b p = .ok (rs,p') ∧
      slotDirRef p = .ok dir ∧ (∀ b', freeContiguousSpace b' p = .ok room) ∧
      (∀ b', freeContiguousSpace b' p' = .ok room') ∧ room'+spent ops rs = room ∧
      ((∀ r ∈ rs, r = .ok ()) ↔
        (ops.map CellOp.cost).sum ≤ room ∧ InRangeFrom dir.slotCount ops) := by
  obtain ⟨rs,p',hrun,hr⟩ := cellRun b h ops
  refine ⟨rs,p',_,freeEnd p-freeStart p,freeEnd p'-freeStart p',hrun,slotDirRef_eq h.low,
    fun b' => usizeSub_of_le b' h.mid,fun b' => usizeSub_of_le b' (hr.headerOk h).mid,
    hr.spent_add h,?_⟩
  rw [slotCount_eq]
  exact hr.all_ok_iff h

theorem insertions_spend_space_full :
    HeaderOk (initialPage 1) ∧ ∃ rs p',
      Prog.runAll ([CellOp.append (List.replicate 2000 7),
        .insertAt 1 (List.replicate 2048 8)].map CellOp.exec) .debug (initialPage 1) =
          .ok (rs,p') ∧ ∀ r ∈ rs, r = .ok () := by
  have hr := represents_initialPage 1
  refine ⟨hr.headerOk,?_⟩
  obtain ⟨rs,p',dir,room,room',hrun,hdir,hroom,-,-,hiff⟩ := insertions_spend_space .debug
    (initialPage 1) hr.headerOk
    [.append (List.replicate 2000 7),.insertAt 1 (List.replicate 2048 8)]
  have hfree : freeContiguousSpace .debug (initialPage 1) = .ok 4056 := by
    rw [freeContiguousSpace,hr.start,hr.stop]
    rfl
  obtain rfl : room = 4056 := Except.ok.inj ((hroom .debug).symm.trans hfree)
  refine ⟨rs,p',hrun,hiff.mpr ⟨?_,?_⟩⟩
  · simp only [List.map_cons,List.map_nil,CellOp.cost,CellOp.cell,List.length_replicate]
    decide
  · intro k hk
    cases k with
    | zero => trivial
    | succ k =>
      cases k with
      | zero => exact Nat.le_add_left 1 _
      | succ k => exact absurd (show k+1+1 < 2 from hk) (by omega)

end InkDB
