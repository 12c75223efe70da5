import InkDB.Routing

/-!
Adding a separator to a sorted index page. The child that is added takes its
range from the child that was found there before; every other key is sent where
it was sent, and a page without room stays as it is.
-/

set_option autoImplicit false

namespace InkDB
open SlottedPageRef

/-- The pairs a search goes through: all but the high key. -/
def separators : Option PageID → List Pair → List Pair
  | none, pairs => pairs
  | some _, pairs => pairs.tail

def firstSlot : Option PageID → Nat
  | none => 0
  | some _ => 1

def Below : Option PageID → List Pair → Key → Prop
  | some _, high :: _, key => key ≤ high.1
  | _, _, _ => True

instance : (sibling : Option PageID) → (pairs : List Pair) → (key : Key) →
    Decidable (Below sibling pairs key)
  | some _, high :: _, key => inferInstanceAs (Decidable (key ≤ high.1))
  | none, _, _ | some _, [], _ => inferInstanceAs (Decidable True)

/-- The keys that a new separator `k` takes over. -/
def Takes (sibling : Option PageID) (pairs : List Pair) (k key : Key) : Prop :=
  Below sibling pairs key ∧ key < k ∧ ∀ x ∈ separators sibling pairs, key < x.1 → k < x.1

instance (sibling : Option PageID) (pairs : List Pair) (k key : Key) :
    Decidable (Takes sibling pairs k key) :=
  inferInstanceAs (Decidable (_ ∧ _ ∧ _))

section Insert
variable {sibling : Option PageID} {pairs : List Pair}
  (hhigh : sibling ≠ none → pairs ≠ []) (hasc : Ascending (separators sibling pairs))
  {k : Key} (hnew : ∀ x ∈ separators sibling pairs, x.1 ≠ k) (c : PageID)

/-- The list with the new pair at the rank of its key. -/
def withSeparator (sibling : Option PageID) (pairs : List Pair) (kc : Pair) : List Pair :=
  pairs.insertIdx (firstSlot sibling+rank kc.1 (separators sibling pairs)) kc

theorem withSeparator_none (pairs : List Pair) (kc : Pair) :
    withSeparator none pairs kc = insertByRank pairs kc := by
  simp [withSeparator,separators,firstSlot,insertByRank]

theorem withSeparator_some (s : PageID) (high : Pair) (rest : List Pair) (kc : Pair) :
    withSeparator (some s) (high :: rest) kc = high :: insertByRank rest kc := by
  simp only [withSeparator,separators,firstSlot,insertByRank,List.tail_cons]
  rw [Nat.add_comm,List.insertIdx_succ_cons]

include hhigh in
theorem separators_withSeparator : separators sibling (withSeparator sibling pairs (k,c)) =
    insertByRank (separators sibling pairs) (k,c) := by
  cases sibling with
  | none => exact withSeparator_none pairs (k,c)
  | some s =>
    cases pairs with
    | nil => exact absurd rfl (hhigh (by simp))
    | cons high rest =>
      rw [withSeparator_some]
      rfl

include hasc hnew in
theorem firstGreater_insertByRank (key : Key) :
    firstGreater key (insertByRank (separators sibling pairs) (k,c)) =
      if key < k ∧ ∀ x ∈ separators sibling pairs, key < x.1 → k < x.1 then some c
      else firstGreater key (separators sibling pairs) := by
  rw [firstGreater,hasc.firstAbove_insertByRank hnew]
  split
  · rfl
  · rfl

include hhigh hasc hnew in
theorem route_withSeparator (key : Key) : route sibling (withSeparator sibling pairs (k,c)) key =
    if Takes sibling pairs k key then .ok (some c) else route sibling pairs key := by
  have hfirst := firstGreater_insertByRank hasc hnew c key
  cases sibling with
  | none =>
    rw [withSeparator_none]
    by_cases ht : Takes none pairs k key
    · rw [if_pos ht]
      exact congrArg Except.ok (hfirst.trans (if_pos ht.2))
    · rw [if_neg ht]
      exact congrArg Except.ok (hfirst.trans (if_neg (fun h => ht ⟨trivial,h⟩)))
  | some s =>
    cases pairs with
    | nil => exact absurd rfl (hhigh (by simp))
    | cons high rest =>
      rw [withSeparator_some]
      simp only [route]
      by_cases hgt : key > high.1
      · have ht : ¬ Takes (some s) (high :: rest) k key := fun ht => Std.not_lt.mpr ht.1 hgt
        rw [if_pos hgt,if_neg ht,if_pos hgt]
      · have hle : key ≤ high.1 := Std.not_lt.mp hgt
        rw [if_neg hgt,if_neg hgt]
        by_cases ht : Takes (some s) (high :: rest) k key
        · rw [if_pos ht]
          exact congrArg Except.ok (hfirst.trans (if_pos ht.2))
        · rw [if_neg ht]
          exact congrArg Except.ok (hfirst.trans (if_neg (fun h => ht ⟨hle,h⟩)))

end Insert

/-- A pair that does not fit leaves every byte as it was; one that does is in the
list at its index. -/
theorem insertAt_cases {m : IndexModel} {p : RawPage} (hr : IndexRepresents m p) (b : Build)
    {index : Nat} (hi : index ≤ m.pairs.length) {k : Key} (c : PageID) (hk : AcceptedKey k) :
    (IndexOp.insertAt index k c).exec.run b p =
        .ok (.error (.pageError .noContigiousSpace),p) ∨
      ∃ p' m', (IndexOp.insertAt index k c).exec.run b p = .ok (.ok (),p') ∧
        IndexRepresents m' p' ∧ m'.pairs = m.pairs.insertIdx index (k,c) ∧
        m'.siblingId = m.siblingId := by
  have hlen : ¬ index > m.layout.slots.length := by rw [m.slots_length]; omega
  by_cases hfull : (Pair.bytes (k,c)).length+4 > m.layout.freeEnd-m.layout.freeStart
  · left
    have hrun : (SlottedPageMut.addCellAtSlotEntryIndex index (Pair.bytes (k,c))).run b p =
        .ok (.error .noContigiousSpace,p) := by
      rw [addCellAtSlotEntryIndex_eq b hr.layout.headerOk,hr.layout.start,hr.layout.stop,
        if_pos hfull]
    rw [IndexOp.exec,Prog.call_bind (new_ok c hk)]
    exact Prog.run_mapErr IndexPageError.pageError hrun
  · right
    obtain ⟨p',hrun,hr'⟩ := (IndexOp.insertAt index k c).simulates b hr hk
    have hstep : (IndexOp.insertAt index k c).step m =
        (.ok (),m.push index (k,c) (Nat.not_lt.mp hlen) (Nat.not_lt.mp hfull)) := by
      rw [IndexOp.step,IndexModel.addAt,dif_neg hfull,dif_neg hlen]
    rw [hstep] at hrun hr'
    exact ⟨p',_,hrun,hr',rfl,rfl⟩

theorem withSeparator_index {sibling : Option PageID} {pairs : List Pair}
    (hhigh : sibling ≠ none → pairs ≠ []) (k : Key) :
    firstSlot sibling+rank k (separators sibling pairs) ≤ pairs.length := by
  have hrank := rank_le k (separators sibling pairs)
  cases sibling with
  | none => simpa [firstSlot,separators] using hrank
  | some s =>
    have hpos := List.length_pos_of_ne_nil (hhigh (by simp))
    simp only [firstSlot,separators,List.length_tail] at hrank ⊢
    omega

/-- On a page whose separators ascend, a pair added at the rank of a new key takes
over the keys below it that were sent to the next separator, and no others. -/
theorem separator_insert (b : Build) (buf : RawPage) (lsn : UInt64) (ops : List IndexOp)
    (h : ∀ op ∈ ops, op.Accepted) (k : Key) (c : PageID) (hk : AcceptedKey k) :
    ∃ rs p pairs, Prog.runAll ((.initInPlace lsn :: ops).map IndexOp.exec) b buf = .ok (rs,p) ∧
      (∀ b', listPairs b' p = .ok pairs) ∧
      ((currentSibling ops ≠ none → pairs ≠ []) →
        Ascending (separators (currentSibling ops) pairs) →
        (∀ x ∈ separators (currentSibling ops) pairs, x.1 ≠ k) →
        ∃ r p', (IndexOp.insertAt (firstSlot (currentSibling ops)+
            rank k (separators (currentSibling ops) pairs)) k c).exec.run b p = .ok (r,p') ∧
          (r = .error (.pageError .noContigiousSpace) ∧ p' = p ∨
            r = .ok () ∧ ∃ pairs', (∀ b', listPairs b' p' = .ok pairs') ∧
              Ascending (separators (currentSibling ops) pairs') ∧
              ∀ b' key, IndexPageRef.findChildPtr b' p' key =
                if Takes (currentSibling ops) pairs k key then .ok (.ok (some c))
                else IndexPageRef.findChildPtr b' p key)) := by
  obtain ⟨p,hrun,hr⟩ := indexRun b buf lsn ops h
  have hsib := trace_sibling ops lsn
  generalize (Prog.trace IndexOp.step ops (.fresh lsn)).2 = m at hr hsib
  refine ⟨_,p,m.pairs,hrun,fun b' => hr.listPairs_eq b',fun hhigh hasc hnew => ?_⟩
  rcases insertAt_cases hr b (withSeparator_index hhigh k) c hk with hfull | ⟨p',m',hok,hr',hm,hs⟩
  · exact ⟨_,p,hfull,.inl ⟨rfl,rfl⟩⟩
  · have hm' : m'.pairs = withSeparator (currentSibling ops) m.pairs (k,c) := hm
    refine ⟨_,p',hok,.inr ⟨rfl,m'.pairs,fun b' => hr'.listPairs_eq b',?_,fun b' key => ?_⟩⟩
    · rw [hm',separators_withSeparator hhigh]
      exact hasc.insertByRank hnew
    · rw [hr'.findChildPtr_eq b' key,hr.findChildPtr_eq b' key,hs,hsib,hm',
        route_withSeparator hhigh hasc hnew]
      split
      · rfl
      · rfl

theorem separator_insert_between :
    (∀ op ∈ [IndexOp.append [] ⟨5⟩,.append [4] ⟨7⟩], op.Accepted) ∧ AcceptedKey [2] ∧
      ∃ rs p r p', Prog.runAll ([IndexOp.initInPlace 1,.append [] ⟨5⟩,.append [4] ⟨7⟩].map
          IndexOp.exec) .debug (Buf.fill 4096 0) = .ok (rs,p) ∧
        (IndexOp.insertAt 1 [2] ⟨6⟩).exec.run .debug p = .ok (r,p') ∧
        (r = .error (.pageError .noContigiousSpace) ∧ p' = p ∨
          r = .ok () ∧ IndexPageRef.findChildPtr .debug p' [1] = .ok (.ok (some ⟨6⟩)) ∧
            IndexPageRef.findChildPtr .debug p' [3] = IndexPageRef.findChildPtr .debug p [3]) := by
  refine ⟨by decide,by decide,?_⟩
  obtain ⟨rs,p,pairs,hrun,hlist,hinsert⟩ := separator_insert .debug (Buf.fill 4096 0) 1
    [.append [] ⟨5⟩,.append [4] ⟨7⟩] (by decide) [2] ⟨6⟩ (by decide)
  obtain ⟨p',hrun',hr⟩ := indexRun .debug (Buf.fill 4096 0) 1 [.append [] ⟨5⟩,.append [4] ⟨7⟩]
    (by decide)
  rw [hrun] at hrun'
  cases hrun'
  obtain rfl : pairs = [([],⟨5⟩),([4],⟨7⟩)] :=
    Except.ok.inj ((hlist .debug).symm.trans (hr.listPairs_eq .debug))
  have hsib : currentSibling [IndexOp.append [] ⟨5⟩,.append [4] ⟨7⟩] = none := by decide
  rw [hsib] at hinsert
  obtain ⟨r,p',hop,hcases⟩ := hinsert (fun h => absurd rfl h) (by simp [Ascending,separators])
    (by decide)
  refine ⟨_,p,r,p',hrun,hop,hcases.imp id ?_⟩
  rintro ⟨hok,pairs',-,-,hfind⟩
  refine ⟨hok,?_,?_⟩
  · rw [hfind .debug [1],if_pos (by decide)]
  · rw [hfind .debug [3],if_neg (by decide)]

end InkDB
