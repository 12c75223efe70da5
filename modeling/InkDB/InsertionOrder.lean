import InkDB.Routing

/-!
Filling a page with keyed pairs, each at the index given by the smaller keys
already there: the order of insertion shows in the cell area and nowhere else.
Then the largest cell a page takes, against the largest the constructor lets
through.
-/

set_option autoImplicit false

namespace InkDB
open SlottedPageRef

def pairCost (kc : Pair) : Nat := 14+kc.1.length

def totalCost (pairs : List Pair) : Nat := (pairs.map pairCost).sum

theorem totalSize_pairs (pairs : List Pair) :
    totalSize List.length (pairs.map Pair.bytes)+4*pairs.length = totalCost pairs := by
  induction pairs with
  | nil => rfl
  | cons kc pairs ih =>
    simp only [totalCost,List.map_cons,List.sum_cons,totalSize_cons,Pair.bytes_length,
      List.length_cons,pairCost] at ih ⊢
    omega

namespace IndexModel

/-- Space accounting is exact: what is not free is what the pairs cost. -/
theorem room_eq (m : IndexModel) :
    totalCost m.pairs+(m.layout.freeEnd-m.layout.freeStart) = 4056 := by
  have hcells : totalSize List.length m.layout.cells = totalSize List.length m.layout.stack :=
    perm_stacked_total m.layout.placed
  have hcost := totalSize_pairs m.pairs
  have hadd := m.layout.freeEnd_add
  have hle := m.layout.freeStart_le
  have hn := m.slots_length
  rw [m.spelled] at hcells
  unfold Layout.freeStart at hle ⊢
  omega

theorem addAt_ok (m : IndexModel) {index : Nat} (kc : Pair) (hi : index ≤ m.pairs.length)
    (hcost : totalCost m.pairs+pairCost kc ≤ 4056) :
    (m.addAt index kc).1 = .ok () ∧
      (m.addAt index kc).2.pairs = m.pairs.insertIdx index kc ∧
      (m.addAt index kc).2.layout.stack = kc.bytes :: m.layout.stack := by
  have hroom := m.room_eq
  have hlen := kc.bytes_length
  have hn := m.slots_length
  unfold pairCost at hcost
  unfold addAt
  rw [dif_neg (by omega),dif_neg (by omega)]
  exact ⟨rfl,rfl,rfl⟩

end IndexModel

/-- The calls that insert pairs in the given order, each at the number of
smaller keys inserted before it. -/
def rankInsertions (inserted : List Pair) : List Pair → List IndexOp
  | [] => []
  | kc :: rest =>
      .insertAt (rank kc.1 inserted) kc.1 kc.2 :: rankInsertions (kc :: inserted) rest

theorem rankInsertions_accepted {inserted order : List Pair}
    (h : ∀ kc ∈ order, AcceptedKey kc.1) : ∀ op ∈ rankInsertions inserted order, op.Accepted := by
  induction order generalizing inserted with
  | nil => simp [rankInsertions]
  | cons kc rest ih =>
    intro op hop
    rcases List.mem_cons.mp hop with rfl | hop
    · exact h kc (by simp)
    · exact ih (fun x hx => h x (by simp [hx])) op hop

structure Filled (m : IndexModel) (order : List Pair)
    (out : List (Except IndexPageError Unit) × IndexModel) : Prop where
  accepted : ∀ r ∈ out.1, r = .ok ()
  pairs : out.2.pairs = order.foldl insertByRank m.pairs
  stack : out.2.layout.stack = (order.map Pair.bytes).reverse ++ m.layout.stack
  sibling : out.2.sibling = m.sibling

theorem trace_rankInsertions {m : IndexModel} {inserted order : List Pair}
    (hp : m.pairs.Perm inserted) (hcost : totalCost m.pairs+totalCost order ≤ 4056) :
    Filled m order (Prog.trace IndexOp.step (rankInsertions inserted order) m) := by
  induction order generalizing m inserted with
  | nil => exact ⟨by simp [rankInsertions,Prog.trace],rfl,rfl,rfl⟩
  | cons kc rest ih =>
    have hrank := rank_perm kc.1 hp
    have hc : totalCost (kc :: rest) = pairCost kc+totalCost rest := by simp [totalCost]
    obtain ⟨hok,hpairs,hstack⟩ := m.addAt_ok kc (rank_le kc.1 m.pairs) (by omega)
    have hperm : (m.addAt (rank kc.1 m.pairs) kc).2.pairs.Perm (kc :: inserted) := by
      rw [hpairs]
      exact (insertByRank_perm m.pairs kc).trans (hp.cons kc)
    have hcost' : totalCost (m.addAt (rank kc.1 m.pairs) kc).2.pairs+totalCost rest ≤ 4056 := by
      have hsum : totalCost (insertByRank m.pairs kc) = pairCost kc+totalCost m.pairs := by
        simpa [totalCost] using ((insertByRank_perm m.pairs kc).map pairCost).sum_eq
      rw [hpairs]
      unfold insertByRank at hsum
      omega
    have hrest := ih hperm hcost'
    simp only [rankInsertions,Prog.trace,IndexOp.step,← hrank]
    refine ⟨?_,?_,?_,?_⟩
    · intro r hr
      rcases List.mem_cons.mp hr with rfl | hr
      · exact hok
      · exact hrest.accepted r hr
    · rw [hrest.pairs,hpairs]
      rfl
    · rw [hrest.stack,hstack]
      simp
    · rw [hrest.sibling,(m.addAt_registers _ _).2.2]

/-! The cell area -/

def cellArea (p : RawPage) : List UInt8 := p.read (freeEnd p) (4080-freeEnd p)

theorem pairBytes_prefix_free {x y : Pair} {s t : List UInt8} (hx : x.1.length < 65536)
    (hy : y.1.length < 65536) (h : x.bytes ++ s = y.bytes ++ t) : x = y ∧ s = t := by
  simp only [Pair.bytes,indexCellBytes,List.append_assoc] at h
  obtain ⟨hchild,h⟩ := List.append_inj h (by simp)
  obtain ⟨hlen,h⟩ := List.append_inj h (by simp)
  have hl : x.1.length = y.1.length := by
    have hd := congrArg decodeLe hlen
    rw [decodeLe_u16,decodeLe_u16] at hd
    simp at hd
    omega
  obtain ⟨hkey,h⟩ := List.append_inj h hl
  refine ⟨Prod.ext hkey ?_,h⟩
  have hv := u64ToLeBytes_injective hchild
  cases hx₂ : x.2; cases hy₂ : y.2
  simp_all

/-- Cells carry their own lengths, so a cell area determines its cells. -/
theorem flatten_pairBytes_injective {xs ys : List Pair} (hx : ∀ x ∈ xs, x.1.length < 65536)
    (hy : ∀ y ∈ ys, y.1.length < 65536)
    (h : (xs.map Pair.bytes).flatten = (ys.map Pair.bytes).flatten) : xs = ys := by
  induction xs generalizing ys with
  | nil =>
    cases ys with
    | nil => rfl
    | cons y ys =>
      have hl := congrArg List.length h
      simp at hl
      omega
  | cons x xs ih =>
    cases ys with
    | nil =>
      have hl := congrArg List.length h
      simp at hl
    | cons y ys =>
      simp only [List.map_cons,List.flatten_cons] at h
      obtain ⟨hxy,hrest⟩ := pairBytes_prefix_free (hx x (by simp)) (hy y (by simp)) h
      rw [hxy,ih (fun z hz => hx z (by simp [hz])) (fun z hz => hy z (by simp [hz])) hrest]

theorem IndexRepresents.cellArea_eq {m : IndexModel} {p : RawPage} (hr : IndexRepresents m p) :
    cellArea p = m.layout.stack.flatten := by
  have hadd := m.layout.freeEnd_add
  rw [cellArea,hr.layout.stop,← hr.layout.cells]
  congr 1
  omega

theorem filled_run (b : Build) (buf : RawPage) (lsn : UInt64) {order : List Pair}
    (ha : ∀ kc ∈ order, AcceptedKey kc.1) (hcost : totalCost order ≤ 4056) :
    ∃ rs p, Prog.runAll ((.initInPlace lsn :: rankInsertions [] order).map IndexOp.exec) b buf =
        .ok (rs,p) ∧ (∀ r ∈ rs, r = .ok ()) ∧
      (∀ b', listPairs b' p = .ok (order.foldl insertByRank [])) ∧
      (∀ b' key, IndexPageRef.findChildPtr b' p key =
        .ok (route none (order.foldl insertByRank []) key)) ∧
      cellArea p = (order.reverse.map Pair.bytes).flatten := by
  obtain ⟨p,hrun,hr⟩ := indexRun b buf lsn _ (rankInsertions_accepted ha)
  have hf : Filled (.fresh lsn) order _ :=
    trace_rankInsertions (List.Perm.refl []) (by simpa [totalCost,IndexModel.fresh] using hcost)
  have hpairs : _ = order.foldl insertByRank [] := hf.pairs
  refine ⟨_,p,hrun,?_,?_,?_,?_⟩
  · intro r hmem
    rcases List.mem_cons.mp hmem with rfl | hmem
    · rfl
    · exact hf.accepted r hmem
  · intro b'
    rw [hr.listPairs_eq b',hpairs]
  · intro b' key
    have hnone :
        (Prog.trace IndexOp.step (rankInsertions [] order) (.fresh lsn)).2.siblingId = none := by
      rw [IndexModel.siblingId,hf.sibling]
      rfl
    rw [hr.findChildPtr_eq b' key,hnone,hpairs]
  · rw [hr.cellArea_eq,hf.stack,List.map_reverse]
    exact congrArg List.flatten (List.append_nil _)

theorem insertion_order_irrelevant (b : Build) (buf₁ buf₂ : RawPage) (lsn₁ lsn₂ : UInt64)
    (o₁ o₂ : List Pair) (hp : o₁.Perm o₂) (hd : (o₁.map Prod.fst).Nodup)
    (ha : ∀ kc ∈ o₁, AcceptedKey kc.1) (hcost : (o₁.map (fun kc => 14+kc.1.length)).sum ≤ 4056) :
    ∃ rs₁ p₁ rs₂ p₂ pairs,
      Prog.runAll ((.initInPlace lsn₁ :: rankInsertions [] o₁).map IndexOp.exec) b buf₁ =
        .ok (rs₁,p₁) ∧
      Prog.runAll ((.initInPlace lsn₂ :: rankInsertions [] o₂).map IndexOp.exec) b buf₂ =
        .ok (rs₂,p₂) ∧
      (∀ r ∈ rs₁, r = .ok ()) ∧ (∀ r ∈ rs₂, r = .ok ()) ∧
      pairs.Perm o₁ ∧ Ascending pairs ∧
      (∀ b', listPairs b' p₁ = .ok pairs ∧ listPairs b' p₂ = .ok pairs) ∧
      (∀ b' key, ∃ r, IndexPageRef.findChildPtr b' p₁ key = .ok r ∧
        IndexPageRef.findChildPtr b' p₂ key = .ok r) ∧
      (o₁ ≠ o₂ → cellArea p₁ ≠ cellArea p₂) := by
  have hcost₂ : totalCost o₂ ≤ 4056 := by
    rw [totalCost,← (hp.map pairCost).sum_eq]
    exact hcost
  have ha₂ : ∀ kc ∈ o₂, AcceptedKey kc.1 := fun kc hkc => ha kc (hp.mem_iff.mpr hkc)
  have hsame := foldl_insertByRank_eq hp hd
  have hshort : ∀ kc : Pair, AcceptedKey kc.1 → kc.1.length < 65536 := by
    intro kc hkc
    have hlt : 10+kc.1.length < 4068 := hkc
    omega
  obtain ⟨rs₁,p₁,hrun₁,hok₁,hlist₁,hfind₁,harea₁⟩ := filled_run b buf₁ lsn₁ ha hcost
  obtain ⟨rs₂,p₂,hrun₂,hok₂,hlist₂,hfind₂,harea₂⟩ := filled_run b buf₂ lsn₂ ha₂ hcost₂
  rw [← hsame] at hlist₂ hfind₂
  refine ⟨rs₁,p₁,rs₂,p₂,_,hrun₁,hrun₂,hok₁,hok₂,?_,?_,fun b' => ⟨hlist₁ b',hlist₂ b'⟩,
    fun b' key => ⟨_,hfind₁ b' key,hfind₂ b' key⟩,?_⟩
  · simpa using foldl_insertByRank_perm [] o₁
  · exact foldl_insertByRank_ascending .nil (by simpa using hd)
  · intro hne harea
    rw [harea₁,harea₂] at harea
    have hrev := flatten_pairBytes_injective
      (fun x hx => hshort x (ha x (List.mem_reverse.mp hx)))
      (fun y hy => hshort y (ha₂ y (List.mem_reverse.mp hy))) harea
    exact hne (List.reverse_injective hrev)

theorem insertion_order_irrelevant_two_pairs :
    ∃ rs₁ p₁ rs₂ p₂,
      Prog.runAll ((.initInPlace 1 :: rankInsertions [] [([2],⟨5⟩),([],⟨7⟩)]).map IndexOp.exec)
        .debug (Buf.fill 4096 0) = .ok (rs₁,p₁) ∧
      Prog.runAll ((.initInPlace 1 :: rankInsertions [] [([],⟨7⟩),([2],⟨5⟩)]).map IndexOp.exec)
        .debug (Buf.fill 4096 255) = .ok (rs₂,p₂) ∧
      (∀ b', listPairs b' p₁ = listPairs b' p₂) ∧ cellArea p₁ ≠ cellArea p₂ := by
  obtain ⟨rs₁,p₁,rs₂,p₂,pairs,hrun₁,hrun₂,-,-,-,-,hlist,-,harea⟩ :=
    insertion_order_irrelevant .debug (Buf.fill 4096 0) (Buf.fill 4096 255) 1 1
      [([2],⟨5⟩),([],⟨7⟩)] [([],⟨7⟩),([2],⟨5⟩)] (List.Perm.swap _ _ _) (by decide) (by decide)
      (by decide)
  exact ⟨rs₁,p₁,rs₂,p₂,hrun₁,hrun₂,fun b' => (hlist b').1.trans (hlist b').2.symm,
    harea (by decide)⟩

/-! The size limit of a cell -/

def Holds (b : Build) (p : RawPage) (c : IndexCellOwned) : Prop :=
  (∃ p', (IndexPageMut.addCellAppendSlotEntry c).run b p = .ok (.ok (),p')) ∧
    ∃ p', (IndexPageMut.addCellAtSlotEntryIndex 0 c).run b p = .ok (.ok (),p')

theorem holds_iff (b : Build) {p : RawPage} (h : HeaderOk p) (c : IndexCellOwned) :
    Holds b p c ↔ c.bytes.length+4 ≤ freeEnd p-freeStart p := by
  have happend := addCellAppendSlotEntry_eq b h c.bytes
  have hinsert := addCellAtSlotEntryIndex_eq b h 0 c.bytes
  by_cases hfull : c.bytes.length+4 > freeEnd p-freeStart p
  · rw [if_pos hfull] at happend
    refine iff_of_false ?_ (Nat.not_le.mpr hfull)
    rintro ⟨⟨p',hp'⟩,-⟩
    rw [IndexPageMut.addCellAppendSlotEntry,Prog.run_mapErr _ happend] at hp'
    cases hp'
  · rw [if_neg hfull] at happend
    rw [if_neg hfull,if_neg (Nat.not_lt_zero _)] at hinsert
    refine iff_of_true ?_ (Nat.not_lt.mp hfull)
    exact ⟨⟨_,Prog.run_mapErr _ happend⟩,_,Prog.run_mapErr _ hinsert⟩

def IndexReached (b : Build) (p : RawPage) : Prop :=
  ∃ buf lsn ops rs, (∀ op ∈ ops, IndexOp.Accepted op) ∧
    Prog.runAll ((.initInPlace lsn :: ops).map IndexOp.exec) b buf = .ok (rs,p)

/-- A fresh page takes the cell, so a page without room for it is only too full. -/
structure Storable (b : Build) (c : IndexCellOwned) : Prop where
  fresh : ∀ buf lsn, ∃ p, (IndexPageMut.initInPlace lsn).run b buf = .ok (.ok (),p) ∧ Holds b p c
  blameless : ∀ p p', IndexReached b p → (IndexPageMut.addCellAppendSlotEntry c).run b p =
    .ok (.error (.pageError .noContigiousSpace),p') → ∃ q, IndexReached b q ∧ Holds b q c

theorem indexReached_fresh (b : Build) (buf : RawPage) (lsn : UInt64) :
    IndexReached b (initialPage lsn) := by
  refine ⟨buf,lsn,[],[.ok ()],by simp,?_⟩
  simp only [List.map_cons,List.map_nil,Prog.runAll,IndexOp.exec,initInPlace_eq b buf lsn]
  rfl

theorem storable_iff (b : Build) (c : IndexCellOwned) :
    Storable b c ↔ c.bytes.length ≤ 4052 := by
  have hfresh : ∀ lsn, Holds b (initialPage lsn) c ↔ c.bytes.length ≤ 4052 := by
    intro lsn
    have hr := represents_initialPage lsn
    have hroom : freeEnd (initialPage lsn)-freeStart (initialPage lsn) = 4056 := by
      rw [hr.start,hr.stop]
      rfl
    rw [holds_iff b hr.headerOk,hroom]
    omega
  constructor
  · intro hs
    obtain ⟨p,hrun,hh⟩ := hs.fresh (Buf.fill 4096 0) 0
    rw [initInPlace_eq] at hrun
    cases hrun
    exact (hfresh 0).mp hh
  · intro hlen
    refine ⟨fun buf lsn => ⟨_,initInPlace_eq b buf lsn,(hfresh lsn).mpr hlen⟩,?_⟩
    intro _ _ _ _
    exact ⟨_,indexReached_fresh b (Buf.fill 4096 0) 0,(hfresh 0).mpr hlen⟩

theorem new_bytes {key : Key} {child : PageID} {c : IndexCellOwned}
    (h : IndexCellOwned.new key child = .ok c) : c.bytes.length = 10+key.length := by
  unfold IndexCellOwned.new at h
  split at h
  · cases h
    exact indexCellBytes_length key child
  · cases h

/-- The limit of the constructor does not count the special area: keys of 4043
to 4057 bytes pass it and fit nowhere. -/
theorem accepted_cell_storable_iff (b : Build) (key : Key) (child : PageID) (c : IndexCellOwned)
    (h : IndexCellOwned.new key child = .ok c) : Storable b c ↔ key.length ≤ 4042 := by
  rw [storable_iff,new_bytes h]
  omega

theorem accepted_cell_short_key :
    ∃ c, IndexCellOwned.new [5] ⟨7⟩ = .ok c ∧ Storable .debug c :=
  ⟨_,rfl,(accepted_cell_storable_iff .debug [5] ⟨7⟩ _ rfl).mpr (by decide)⟩

theorem accepted_cell_fits_no_page :
    ¬ ∀ (b : Build) (key : Key) (child : PageID) (c : IndexCellOwned),
      IndexCellOwned.new key child = .ok c → Storable b c := by
  intro hall
  have hkey : AcceptedKey (List.replicate 4043 0) := by
    rw [AcceptedKey,List.length_replicate]
    decide
  have hnew := new_ok ⟨1⟩ hkey
  have hs := (storable_iff .debug _).mp (hall .debug _ ⟨1⟩ _ hnew)
  rw [new_bytes hnew,List.length_replicate] at hs
  revert hs
  decide

end InkDB
