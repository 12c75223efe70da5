import InkDB.IndexRuns

/-!
Page frames: a page behind a lock, and beside it the kind the frame was built
with. The frame gives out views of the page by its own kind; the page has
another one in its header, which the calls on a view may rewrite.
-/

set_option autoImplicit false

namespace InkDB
open SlottedPageRef

inductive PageFrameError where
  | invalidPageKind
  deriving DecidableEq, Repr

structure PageFrame where
  checksum : UInt32
  kind : PageKind
  dirty : Bool
  latch : RawPage
  pin : UInt16

structure FrameReadGuard where
  page : RawPage
  kind : PageKind

structure FrameWriteGuard where
  page : RawPage
  kind : PageKind

/-- The gate of both guards. A slotted view is the page itself. -/
def slottedView (kind : PageKind) (page : RawPage) : Except PageFrameError RawPage :=
  if kind.usesSlottedPageLayout then .ok page else .error .invalidPageKind

def FrameReadGuard.slottedRef (g : FrameReadGuard) : Except PageFrameError RawPage :=
  slottedView g.kind g.page

def FrameWriteGuard.slottedMut (g : FrameWriteGuard) : Except PageFrameError RawPage :=
  slottedView g.kind g.page

theorem slottedView_open {kind : PageKind} (h : kind.usesSlottedPageLayout = true)
    (page : RawPage) : slottedView kind page = .ok page := if_pos h

theorem slottedView_shut {kind : PageKind} (h : kind.usesSlottedPageLayout = false)
    (page : RawPage) : slottedView kind page = .error .invalidPageKind :=
  if_neg (by simp [h])

theorem slottedView_ok_iff (kind : PageKind) (page : RawPage) :
    (∃ p, slottedView kind page = .ok p) ↔ kind.usesSlottedPageLayout = true := by
  cases h : kind.usesSlottedPageLayout with
  | true => exact iff_of_true ⟨page,slottedView_open h page⟩ rfl
  | false =>
    rw [slottedView_shut h]
    simp

namespace PageFrame

def new (checksum : UInt32) (kind : PageKind) (rawPage : RawPage) : PageFrame where
  checksum := checksum
  kind := kind
  dirty := false
  latch := rawPage
  pin := 0

def readGuard (f : PageFrame) : FrameReadGuard := ⟨f.latch,f.kind⟩

def writeGuard (f : PageFrame) : FrameWriteGuard := ⟨f.latch,f.kind⟩

/-- `write_guard().slotted_mut()` and calls on the index page over the view. The
guard is exclusive. A panic under it poisons the lock, and no guard is given out
after that. -/
def access (ops : List IndexOp) :
    Prog PageFrame PageFrameError (List (Except IndexPageError Unit)) :=
  ⟨fun b f =>
    match f.writeGuard.slottedMut with
    | .error e => .ok (.error e,f)
    | .ok page => (Prog.runAll (ops.map IndexOp.exec) b page).map
        (fun r => (.ok r.1,{ f with latch := r.2 }))⟩

end PageFrame

/-! The type byte under calls on any page -/

section TypeByte
variable {b : Build} {k : UInt8}
open Prog

def HoldsType (k : UInt8) (p : RawPage) : Prop := p.get 10 = k

theorem HoldsType.write {p : RawPage} (h : HoldsType k p) {o : Nat} (ho : 11 ≤ o)
    (xs : List UInt8) : HoldsType k (p.write o xs) :=
  (Buf.get_write_outside p xs (.inl (by omega))).trans h

theorem HoldsType.store {p p' : RawPage} (h : HoldsType k p) {o : Nat} (ho : 11 ≤ o)
    {xs : List UInt8} (hs : p.store o xs = .ok p') : HoldsType k p' := by
  rw [Buf.store_eq_ok hs]
  exact h.write ho xs

theorem incrementFreeStart_type (n : Nat) :
    Ensures b (HoldsType k) (SlottedPageMut.incrementFreeStart n) (HoldsType k) := by
  unfold SlottedPageMut.incrementFreeStart
  refine ensures_reads_bind fun curFs => ensures_reads_bind fun endOff => ?_
  refine ensures_call_bind fun _ _ => ensures_call_bind fun _ _ => ?_
  split
  · exact ensures_err (fun p hp => hp.1.1) _
  · refine ensures_bind (ensures_modify fun p hp => ?_) (fun p hp => hp) fun _ =>
      ensures_pure (fun p hp => hp) _
    exact hp.1.1.write (by decide) _

theorem setFreeEnd_type (o : Nat) :
    Ensures b (HoldsType k) (SlottedPageMut.setFreeEnd o) (HoldsType k) := by
  unfold SlottedPageMut.setFreeEnd
  refine ensures_call_bind fun _ _ => ensures_reads_bind fun fs => ?_
  split
  · exact ensures_err (fun p hp => hp.1) _
  · exact ensures_modify fun p hp => hp.1.write (by decide) _

theorem storeEntry_type {o : Nat} (ho : 11 ≤ o) (xs ys : List UInt8) :
    Ensures b (HoldsType k)
      (do
        Prog.poke (fun p => p.store o xs)
        Prog.poke (fun p => p.store (o+2) ys)
        let _ ← SlottedPageMut.incrementFreeStart entrySize
        pure () : Prog RawPage PageError Unit) (HoldsType k) := by
  refine ensures_poke_bind (fun p p' hp hs => hp.store ho hs) ?_
  refine ensures_poke_bind (fun p p' hp hs => hp.store (by omega) hs) ?_
  exact ensures_bind (incrementFreeStart_type _) (fun p hp => hp) fun _ =>
    ensures_pure (fun p hp => hp) _

theorem appendSlotEntry_type (size offset : UInt16) :
    Ensures b (fun p => HoldsType k p ∧ 24 ≤ freeStart p)
      (SlottedPageMut.appendSlotEntry size offset) (HoldsType k) := by
  unfold SlottedPageMut.appendSlotEntry
  refine ensures_reads_bind fun fs => ensures_reads_bind fun endOff => ?_
  refine ensures_call_bind fun _ _ => ?_
  split
  · exact ensures_err (fun p hp => hp.1.1.1) _
  · refine ensures_of (φ := 24 ≤ fs) (fun p hp => hp.1.2 ▸ hp.1.1.2) fun hfs => ?_
    exact (storeEntry_type (by omega) _ _).mono fun p hp => hp.1.1.1

theorem insertSlotEntryAtIndex_type (idx : Nat) (e : SlotEntry) :
    Ensures b (fun p => HoldsType k p ∧ 24 ≤ freeStart p)
      (SlottedPageMut.insertSlotEntryAtIndex idx e) (HoldsType k) := by
  unfold SlottedPageMut.insertSlotEntryAtIndex
  refine ensures_reads_bind fun oldFs => ensures_reads_bind fun endOff => ?_
  refine ensures_call_bind fun _ _ => ?_
  split
  · exact ensures_err (fun p hp => hp.1.1.1) _
  · refine ensures_call_bind fun _ _ => ?_
    simp only
    split
    · exact ensures_err (fun p hp => hp.1.1.1) _
    · split
      · exact (appendSlotEntry_type _ _).mono fun p hp => hp.1.1
      · have ho : 11 ≤ headerSize+idx*entrySize := by
          simp only [headerSize_eq]
          omega
        refine ensures_poke_bind (fun p p' hp hs => ?_) (storeEntry_type ho _ _)
        rw [Buf.copyWithin_eq_ok hs]
        exact hp.1.1.1.write (by omega) _

theorem addCellWith_type {addEntry : SlotEntry → Prog RawPage PageError Unit}
    (hadd : ∀ e, Ensures b (fun p => HoldsType k p ∧ 24 ≤ freeStart p) (addEntry e)
      (HoldsType k)) (cell : List UInt8) :
    Ensures b (fun p => HoldsType k p ∧ 24 ≤ freeStart p ∧ freeStart p ≤ freeEnd p)
      (SlottedPageMut.addCellWith addEntry cell) (HoldsType k) := by
  unfold SlottedPageMut.addCellWith
  refine ensures_reads_bind fun fs => ensures_reads_bind fun fe => ?_
  refine ensures_of (φ := 24 ≤ fs ∧ fs ≤ fe) (fun p hp => ?_) fun hfs => ?_
  · obtain ⟨⟨hp,rfl⟩,rfl⟩ := hp
    exact hp.2
  refine ensures_call_bind fun room hroom => ?_
  rw [usizeSub_of_le b hfs.2] at hroom
  cases hroom
  split
  · exact ensures_err (fun p hp => hp.1.1.1) _
  · rename_i hfits
    simp only [entrySize] at hfits
    refine ensures_call_bind fun start hstart => ?_
    rw [usizeSub_of_le b (by omega)] at hstart
    cases hstart
    refine ensures_call_bind fun _ _ => ensures_call_bind fun _ _ => ?_
    refine ensures_bind ((hadd _).mono fun p hp => ⟨hp.1.1.1,hp.1.1.2.1⟩) (fun p hp => hp)
      fun _ => ?_
    exact ensures_poke_bind (fun p p' hp hs => hp.store (by omega) hs) (setFreeEnd_type _)

theorem append_type (key : Key) (child : PageID) :
    Ensures b (fun p => HoldsType k p ∧ 24 ≤ freeStart p ∧ freeStart p ≤ freeEnd p)
      (IndexOp.append key child).exec (HoldsType k) :=
  ensures_call_bind fun cell _ =>
    ensures_mapErr (addCellWith_type (fun _ => appendSlotEntry_type _ _) cell.bytes) _

theorem insertAt_type (index : Nat) (key : Key) (child : PageID) :
    Ensures b (fun p => HoldsType k p ∧ 24 ≤ freeStart p ∧ freeStart p ≤ freeEnd p)
      (IndexOp.insertAt index key child).exec (HoldsType k) :=
  ensures_call_bind fun cell _ =>
    ensures_mapErr (addCellWith_type (insertSlotEntryAtIndex_type index) cell.bytes) _

end TypeByte

/-! The kind in the header, call by call -/

section KindSteps
variable {b : Build} {p p' : RawPage}

theorem kind_of_type (h : p'.get 10 = p.get 10) : IndexPageRef.kind p' = IndexPageRef.kind p :=
  congrArg (fun t => (PageType.mk t).pageKind) h

theorem kind_setPageType (t : UInt8) :
    IndexPageRef.kind (SlottedPageMut.setPageType t p) = (PageType.mk t).pageKind :=
  congrArg (fun t => (PageType.mk t).pageKind)
    (Buf.get_write_inside p [t] (by decide) (Nat.le_refl _) (by simp))

/-- The sibling goes eight bytes behind the special offset. -/
theorem setRightSibling_write {ε : Type} {id : PageID} {r : Except ε Unit}
    (h : (IndexPageMut.setRightSibling id : Prog RawPage ε Unit).run b p = .ok (r,p')) :
    p' = p ∨ (getSpecialOffset p).toNat ≠ 0 ∧
      p' = p.write ((getSpecialOffset p).toNat+8) (u64ToLeBytes id.val) := by
  rw [IndexPageMut.setRightSibling,Prog.get_bind] at h
  obtain ⟨special,hs,h⟩ := Prog.call_bind_eq_ok h
  cases special with
  | error e =>
    cases h
    exact .inl rfl
  | ok special =>
    obtain ⟨hstart,hne⟩ := getSpecialRef_start hs
    obtain ⟨field,hf,h⟩ := Prog.call_bind_eq_ok h
    unfold Slice.index at hf
    split at hf
    · cases hf
      cases h
      rw [← hstart]
      exact .inr ⟨hstart ▸ hne,rfl⟩
    · cases hf

/-- The header points the writes of a call away from the type byte. -/
def IndexOp.Clear (p : RawPage) : IndexOp → Prop
  | .append _ _ | .insertAt _ _ _ => 24 ≤ freeStart p ∧ freeStart p ≤ freeEnd p
  | .setRightSibling _ =>
      (getSpecialOffset p).toNat = 0 ∨ 3 ≤ (getSpecialOffset p).toNat
  | .initInPlace _ | .setLevel _ | .setPageType _ => True

theorem IndexOp.kind_step {op : IndexOp} (hc : op.Clear p) {r : Except IndexPageError Unit}
    (h : op.exec.run b p = .ok (r,p')) :
    IndexPageRef.kind p' = lastKindStep (IndexPageRef.kind p) op := by
  cases op with
  | initInPlace lsn =>
    rw [IndexOp.exec,initInPlace_eq] at h
    cases h
    have htype : (initialPage lsn).get 10 = 2 := (represents_fresh lsn).pageType
    exact (congrArg (fun t => (PageType.mk t).pageKind) htype).trans initial_kind_level.1
  | setPageType kind =>
    cases h
    exact (kind_setPageType kind.toU8).trans (PageType.ofKind kind).1
  | setLevel level =>
    cases h
    exact (kind_setPageType _).trans (PageType.pageKind_setSubtypePageBits _ level.val)
  | setRightSibling id =>
    rcases setRightSibling_write h with rfl | ⟨hne,rfl⟩
    · rfl
    · have h3 : 3 ≤ (getSpecialOffset p).toNat := hc.resolve_left hne
      exact kind_of_type (Buf.get_write_outside p _ (.inl (by omega)))
  | append key child => exact kind_of_type (append_type key child p r p' ⟨rfl,hc⟩ h)
  | insertAt index key child =>
    exact kind_of_type (insertAt_type index key child p r p' ⟨rfl,hc⟩ h)

end KindSteps

/-! Runs -/

def ClearRun (b : Build) : List IndexOp → RawPage → Prop
  | [], _ => True
  | op :: ops, p => op.Clear p ∧ ∀ r p', op.exec.run b p = .ok (r,p') → ClearRun b ops p'

section Runs
variable {b : Build} {p p' : RawPage}

theorem kind_run {ops : List IndexOp} (hc : ClearRun b ops p)
    {rs : List (Except IndexPageError Unit)}
    (h : Prog.runAll (ops.map IndexOp.exec) b p = .ok (rs,p')) :
    IndexPageRef.kind p' = ops.foldl lastKindStep (IndexPageRef.kind p) := by
  induction ops generalizing p rs with
  | nil =>
    cases h
    rfl
  | cons op ops ih =>
    obtain ⟨r,p₁,rs',hop,hrest,-⟩ := Prog.runAll_cons h
    rw [List.foldl_cons,ih (hc.2 r p₁ hop) hrest,IndexOp.kind_step hc.1 hop]

theorem ClearRun.append {ops ops' : List IndexOp} (hc : ClearRun b (ops ++ ops') p) :
    ClearRun b ops p ∧ ∀ rs p', Prog.runAll (ops.map IndexOp.exec) b p = .ok (rs,p') →
      ClearRun b ops' p' := by
  induction ops generalizing p with
  | nil =>
    refine ⟨trivial,fun rs p' h => ?_⟩
    cases h
    exact hc
  | cons op ops ih =>
    refine ⟨⟨hc.1,fun r p₁ hop => (ih (hc.2 r p₁ hop)).1⟩,fun rs p' h => ?_⟩
    obtain ⟨r,p₁,rs',hop,hrest,-⟩ := Prog.runAll_cons h
    exact (ih (hc.2 r p₁ hop)).2 rs' p' hrest

end Runs

/-- The frame's kind is the page's, and so the views are given out by the page's
own kind. -/
structure FrameAgrees (f : PageFrame) : Prop where
  kind : f.kind = IndexPageRef.kind f.latch
  forReading : (∃ p, f.readGuard.slottedRef = .ok p) ↔
    (IndexPageRef.kind f.latch).usesSlottedPageLayout = true
  forWriting : (∃ p, f.writeGuard.slottedMut = .ok p) ↔
    (IndexPageRef.kind f.latch).usesSlottedPageLayout = true

section Gate
variable {b : Build} {f f' : PageFrame}

theorem frameAgrees_iff : FrameAgrees f ↔ f.kind = IndexPageRef.kind f.latch := by
  refine ⟨FrameAgrees.kind,fun h => ⟨h,?_,?_⟩⟩
  · rw [← h]
    exact slottedView_ok_iff f.kind f.latch
  · rw [← h]
    exact slottedView_ok_iff f.kind f.latch

/-- What an access does to a frame: nothing through a closed gate. -/
theorem access_cases {ops : List IndexOp}
    {r : Except PageFrameError (List (Except IndexPageError Unit))}
    (h : (PageFrame.access ops).run b f = .ok (r,f')) :
    (f.kind.usesSlottedPageLayout = false ∧ f' = f) ∨
      (f.kind.usesSlottedPageLayout = true ∧ ∃ rs p,
        Prog.runAll (ops.map IndexOp.exec) b f.latch = .ok (rs,p) ∧
          f' = { f with latch := p }) := by
  simp only [PageFrame.access,PageFrame.writeGuard,FrameWriteGuard.slottedMut] at h
  cases hg : f.kind.usesSlottedPageLayout with
  | false =>
    rw [slottedView_shut hg] at h
    cases h
    exact .inl ⟨rfl,rfl⟩
  | true =>
    rw [slottedView_open hg] at h
    cases hrun : Prog.runAll (ops.map IndexOp.exec) b f.latch with
    | error x =>
      simp only [hrun] at h
      cases h
    | ok rp =>
      simp only [hrun] at h
      cases h
      exact .inr ⟨rfl,rp.1,rp.2,rfl,rfl⟩

theorem access_kind (kind : PageKind) (ops : List IndexOp) :
    Prog.Ensures b (fun f => f.kind = kind) (PageFrame.access ops) (fun f => f.kind = kind) := by
  intro f r f' hk h
  rcases access_cases h with ⟨-,rfl⟩ | ⟨-,rs,p,-,rfl⟩
  · exact hk
  · exact hk

theorem access_shut {f₀ : PageFrame} (hg : f₀.kind.usesSlottedPageLayout = false)
    (ops : List IndexOp) :
    Prog.Ensures b (fun f => f = f₀) (PageFrame.access ops) (fun f => f = f₀) := by
  intro f r f' hf h
  subst hf
  rcases access_cases h with ⟨-,hf⟩ | ⟨hopen,-⟩
  · exact hf
  · rw [hg] at hopen
    cases hopen

theorem accesses_open (hg : f.kind.usesSlottedPageLayout = true)
    {accesses : List (List IndexOp)} (hc : ClearRun b accesses.flatten f.latch)
    {rs : List (Except PageFrameError (List (Except IndexPageError Unit)))}
    (h : Prog.runAll (accesses.map PageFrame.access) b f = .ok (rs,f')) :
    IndexPageRef.kind f'.latch =
      accesses.flatten.foldl lastKindStep (IndexPageRef.kind f.latch) := by
  induction accesses generalizing f rs with
  | nil =>
    cases h
    rfl
  | cons ops accesses ih =>
    obtain ⟨r,f₁,rs',hop,hrest,-⟩ := Prog.runAll_cons h
    rcases access_cases hop with ⟨hshut,-⟩ | ⟨-,rs,p,hrun,rfl⟩
    · rw [hg] at hshut
      cases hshut
    · obtain ⟨hc₁,hc₂⟩ := ClearRun.append hc
      have hrest' := ih (f := { f with latch := p }) hg (hc₂ rs p hrun) hrest
      rw [hrest',List.flatten_cons,List.foldl_append,kind_run hc₁ hrun]

end Gate

/-- The frame keeps the kind it was built with, and its gate goes by that kind
only. It is in step with the page exactly when nothing passes the gate or the
kind last set is the frame's. -/
theorem frame_gate_agrees_iff (b : Build) (checksum : UInt32) (kind : PageKind) (page : RawPage)
    (hkind : kind = IndexPageRef.kind page) (accesses : List (List IndexOp))
    (hclear : kind.usesSlottedPageLayout = true → ClearRun b accesses.flatten page)
    (rs : List (Except PageFrameError (List (Except IndexPageError Unit)))) (f : PageFrame)
    (h : Prog.runAll (accesses.map PageFrame.access) b (.new checksum kind page) = .ok (rs,f)) :
    f.kind = kind ∧
      ((∃ p, f.readGuard.slottedRef = .ok p) ↔ kind.usesSlottedPageLayout = true) ∧
      ((∃ p, f.writeGuard.slottedMut = .ok p) ↔ kind.usesSlottedPageLayout = true) ∧
      (FrameAgrees f ↔ kind.usesSlottedPageLayout = false ∨
        accesses.flatten.foldl lastKindStep kind = kind) := by
  have hk : f.kind = kind := Prog.runAll_invariant (access_kind kind) rfl h
  refine ⟨hk,?_,?_,?_⟩
  · rw [← hk]
    exact slottedView_ok_iff f.kind f.latch
  · rw [← hk]
    exact slottedView_ok_iff f.kind f.latch
  · rw [frameAgrees_iff,hk]
    cases hg : kind.usesSlottedPageLayout with
    | false =>
      have hf : f = .new checksum kind page := Prog.runAll_invariant (access_shut hg) rfl h
      rw [hf]
      exact iff_of_true hkind (.inl rfl)
    | true =>
      have hlast : IndexPageRef.kind f.latch =
          accesses.flatten.foldl lastKindStep (IndexPageRef.kind page) :=
        accesses_open hg (hclear hg) h
      rw [hlast,← hkind,eq_comm]
      simp

/-! Pages that index page calls have built keep their header clear. -/

theorem IndexRepresents.clear {m : IndexModel} {p : RawPage} (hr : IndexRepresents m p)
    (op : IndexOp) : op.Clear p := by
  have hok := hr.layout.headerOk
  cases op with
  | append key child => exact ⟨hok.low,hok.mid⟩
  | insertAt index key child => exact ⟨hok.low,hok.mid⟩
  | setRightSibling id =>
    right
    rw [hr.special]
    decide
  | initInPlace _ | setLevel _ | setPageType _ => trivial

theorem IndexRepresents.clearRun {m : IndexModel} {p : RawPage} (hr : IndexRepresents m p)
    (b : Build) {ops : List IndexOp} (h : ∀ op ∈ ops, op.Accepted) : ClearRun b ops p := by
  induction ops generalizing m p with
  | nil => trivial
  | cons op ops ih =>
    refine ⟨hr.clear op,fun r p' hrun => ?_⟩
    obtain ⟨p₁,hrun',hr'⟩ := op.simulates b hr (h op (by simp))
    rw [hrun'] at hrun
    cases hrun
    exact ih hr' (fun op hop => h op (List.mem_cons_of_mem _ hop))

def IndexModel.access (ops : List IndexOp) (m : IndexModel) :
    Except PageFrameError (List (Except IndexPageError Unit)) × IndexModel :=
  (.ok (Prog.trace IndexOp.step ops m).1,(Prog.trace IndexOp.step ops m).2)

def FrameRepresents (f : PageFrame) (m : IndexModel) : Prop :=
  f.kind.usesSlottedPageLayout = true ∧ IndexRepresents m f.latch

theorem access_simulates {f : PageFrame} {m : IndexModel} (b : Build) (hf : FrameRepresents f m)
    {ops : List IndexOp} (h : ∀ op ∈ ops, op.Accepted) :
    ∃ f', (PageFrame.access ops).run b f = .ok ((m.access ops).1,f') ∧
      FrameRepresents f' (m.access ops).2 := by
  obtain ⟨p,hrun,hr⟩ := indexOps_simulate b hf.2 ops h
  refine ⟨{ f with latch := p },?_,hf.1,hr⟩
  simp only [PageFrame.access,PageFrame.writeGuard,FrameWriteGuard.slottedMut,
    slottedView_open hf.1,hrun]
  rfl

theorem accesses_simulate {f : PageFrame} {m : IndexModel} (b : Build) (hf : FrameRepresents f m)
    {accesses : List (List IndexOp)} (h : ∀ ops ∈ accesses, ∀ op ∈ ops, op.Accepted) :
    ∃ f', Prog.runAll (accesses.map PageFrame.access) b f =
        .ok ((Prog.trace (fun ops m => m.access ops) accesses m).1,f') ∧
      FrameRepresents f' (Prog.trace (fun ops m => m.access ops) accesses m).2 := by
  apply Prog.runAll_simulates FrameRepresents
  · intro ops hops f m hf
    exact access_simulates b hf (h ops hops)
  · exact hf

theorem frame_gate_agrees_same_kind :
    ∃ rs f, Prog.runAll ([[IndexOp.append [5] ⟨7⟩],[.setPageType .indexInternal,.setLevel ⟨3⟩]].map
        PageFrame.access) .release (.new 10 .indexInternal (initialPage 1)) = .ok (rs,f) ∧
      FrameAgrees f := by
  have hacc : ∀ ops ∈ [[IndexOp.append [5] ⟨7⟩],[.setPageType .indexInternal,.setLevel ⟨3⟩]],
      ∀ op ∈ ops, op.Accepted := by decide
  obtain ⟨f,hrun,-⟩ := accesses_simulate (f := .new 10 .indexInternal (initialPage 1)) .release
    ⟨rfl,represents_fresh 1⟩ hacc
  refine ⟨_,f,hrun,?_⟩
  have hclear : ClearRun .release
      [.append [5] ⟨7⟩,.setPageType .indexInternal,.setLevel ⟨3⟩] (initialPage 1) :=
    (represents_fresh 1).clearRun .release (by decide)
  have hgate := frame_gate_agrees_iff .release 10 .indexInternal (initialPage 1) rfl
    [[.append [5] ⟨7⟩],[.setPageType .indexInternal,.setLevel ⟨3⟩]] (fun _ => hclear) _ f hrun
  exact hgate.2.2.2.mpr (.inr rfl)

/-- A frame built with its page's kind is out of step after one access: it still
gives out a slotted view, of a page whose own kind has none. -/
def StaleAfter (page : RawPage) (ops : List IndexOp) : Prop :=
  ∃ rs f, Prog.runAll ([ops].map PageFrame.access) .release
      (.new 10 (IndexPageRef.kind page) page) = .ok (rs,f) ∧
    f.kind ≠ IndexPageRef.kind f.latch ∧ (∃ p, f.writeGuard.slottedMut = .ok p) ∧
    (IndexPageRef.kind f.latch).usesSlottedPageLayout = false

/-- The special region starts at byte 2, the sibling field at the type byte. -/
def lowSpecialPage : RawPage := (Buf.fill 4096 0).write 10 [2,0,24,0,240,15,2,0]

/-- The directory ends at the type byte. -/
def lowDirectoryPage : RawPage := (Buf.fill 4096 0).write 10 [2,0,10,0,240,15,0,0]

theorem frame_kind_goes_stale :
    StaleAfter (initialPage 1) [.setPageType .heap] ∧
      StaleAfter lowSpecialPage [.setRightSibling ⟨1⟩] ∧
      StaleAfter lowDirectoryPage [.append [5] ⟨7⟩] := by
  refine ⟨?_,?_,?_⟩
  · exact ⟨_,_,rfl,by decide,⟨_,rfl⟩,by decide⟩
  · exact ⟨_,_,rfl,by decide,⟨_,rfl⟩,by decide⟩
  · exact ⟨_,_,rfl,by decide,⟨_,rfl⟩,by decide⟩

end InkDB
