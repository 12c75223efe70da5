import InkDB.IndexRuns
import InkDB.RankedInsert

/-!
Searching an index page: `find_child_ptr` on the bytes against a routing
function on the logical list, and what that function leaves uncovered.
-/

set_option autoImplicit false

namespace InkDB
open SlottedPageRef

/-- The child of the first pair whose key is above the search key. -/
def firstGreater (key : Key) (pairs : List Pair) : Option PageID :=
  (firstAbove key pairs).map Prod.snd

/-- Where a search goes: `sibling` is the right sibling, whose presence makes
the first pair the high key. -/
def route (sibling : Option PageID) (pairs : List Pair) (key : Key) :
    Except IndexPageError (Option PageID) :=
  match sibling, pairs with
  | none, pairs => .ok (firstGreater key pairs)
  | some _, [] => .error (.pageError .emptySlotDir)
  | some s, high :: rest => if key > high.1 then .ok (some s) else .ok (firstGreater key rest)

def pickChild (key : Key) (kc : Pair) : Option PageID := if key < kc.1 then some kc.2 else none

theorem findSome_pickChild (key : Key) (pairs : List Pair) :
    pairs.findSome? (pickChild key) = firstGreater key pairs := by
  induction pairs with
  | nil => rfl
  | cons kc rest ih =>
    by_cases h : key < kc.1
    · simp [pickChild,firstGreater,firstAbove,h]
    · rw [List.findSome?_cons,pickChild,if_neg h,ih,firstGreater,firstGreater,firstAbove,firstAbove,
        List.find?_cons_of_neg (by simpa using h)]

namespace IndexRepresents
variable {m : IndexModel} {p : RawPage} (hr : IndexRepresents m p) (b : Build) (key : Key)
include hr

theorem findChildStep_slot {x : Nat × List UInt8} {kc : Pair} (hx : x ∈ m.layout.slots)
    (hc : x.2 = kc.bytes) :
    IndexPageRef.findChildStep b p key (slotEntry x) = .ok (pickChild key kc) := by
  obtain ⟨hb,hcell⟩ := hr.cellSliceFromEntry_slot b hx
  obtain ⟨hs,hk⟩ := hr.slot_bytes hx hc hb
  obtain ⟨ht,k,hfrom,hkey,hbytes,hchild⟩ := open_cell b hs hk
  rw [IndexPageRef.findChildStep,hcell,Exec.ok_bind,hfrom,Exec.ok_bind,hkey,Exec.ok_bind,hbytes,
    hchild,pickChild]
  split <;> rfl

theorem firstSome_findChild (k : Nat) :
    firstSome (IndexPageRef.findChildStep b p key) ((m.layout.slots.map slotEntry).drop k) =
      .ok (firstGreater key (m.pairs.drop k)) := by
  rw [← findSome_pickChild,← List.map_drop]
  apply firstSome_ok
  rw [List.forall₂_map_left_iff]
  exact (List.forall₂_drop k m.slots_pairs).imp (fun x kc h => hr.findChildStep_slot b key h.1 h.2)

theorem findChildFrom_eq {k : Nat} (hk : k ≤ m.pairs.length) :
    IndexPageRef.findChildFrom b p key k = .ok (.ok (firstGreater key (m.pairs.drop k))) := by
  have hok := hr.layout.headerOk
  have hn : k ≤ dirCount p := by rw [hr.layout.dirCount_eq,m.slots_length]; exact hk
  rw [IndexPageRef.findChildFrom,slotDirRef_eq hok.low,Exec.ok_bind,skip_iter hok hn,Exec.ok_bind,
    forIn_from hok,hr.layout.dirCount_eq,hr.layout.directory,hr.firstSome_findChild b key]
  rfl

theorem highKey_eq {high : Pair} {rest : List Pair} (hm : m.pairs = high :: rest) :
    ∃ s ht k, cellSliceFromId p ⟨0⟩ = .ok (.ok s) ∧ IndexCell.fromSlice s = .ok ⟨s,ht⟩ ∧
      (IndexCell.mk s ht).getKey b = .ok k ∧ k.bytes = high.1 := by
  have hi : 0 < m.pairs.length := by rw [hm]; simp
  have hi' : 0 < m.layout.slots.length := by rw [m.slots_length]; exact hi
  obtain ⟨hx,hc⟩ := m.slot_pair hi' hi
  obtain ⟨hb,hcell⟩ := hr.layout.cellSliceFromId_slot hi'
  obtain ⟨hs,hk⟩ := hr.slot_bytes hx hc hb
  obtain ⟨ht,k,hfrom,hkey,hbytes,-⟩ := open_cell b hs hk
  refine ⟨_,ht,k,hcell,hfrom,hkey,?_⟩
  rw [hbytes]
  simp [hm]

theorem findChildPtr_eq :
    IndexPageRef.findChildPtr b p key = .ok (route m.siblingId m.pairs key) := by
  have hok := hr.layout.headerOk
  rw [IndexPageRef.findChildPtr,IndexPageRef.hasRightSibling,hr.hasRightSibling_eq,Exec.ok_bind]
  cases hsib : m.siblingId with
  | none => exact hr.findChildFrom_eq b key (Nat.zero_le _)
  | some s =>
    cases hm : m.pairs with
    | nil =>
      have hn : dirCount p = 0 := by rw [hr.layout.dirCount_eq,m.slots_length,hm]; rfl
      simp only [Option.isSome_some,if_true,cellSliceFromId_empty hok.low hn,Exec.ok_bind]
      rfl
    | cons high rest =>
      obtain ⟨c,ht,k,hcell,hfrom,hkey,hbytes⟩ := hr.highKey_eq b hm
      simp only [Option.isSome_some,if_true,hcell,hfrom,hkey,hbytes,Exec.ok_bind,
        hr.getRightSibling_eq b,hsib,route]
      split
      · rfl
      · rw [hr.findChildFrom_eq b key (by rw [hm]; simp),hm]
        rfl

end IndexRepresents

/-- Whatever was done to the page since `init_in_place`, a search neither
panics nor leaves the page, in either build. -/
theorem find_child_ptr_routes (b : Build) (buf : RawPage) (lsn : UInt64) (ops : List IndexOp)
    (h : ∀ op ∈ ops, op.Accepted) :
    ∃ rs p, Prog.runAll ((.initInPlace lsn :: ops).map IndexOp.exec) b buf = .ok (rs,p) ∧
      ∀ b' key, IndexPageRef.findChildPtr b' p key =
        .ok (route (currentSibling ops) (logicalList (.initInPlace lsn :: ops) rs) key) := by
  obtain ⟨p,hrun,hr⟩ := indexRun b buf lsn ops h
  refine ⟨_,p,hrun,fun b' key => ?_⟩
  rw [hr.findChildPtr_eq b' key,trace_sibling,trace_pairs]

/-- A sibling set before the cells, the high key 5, and separators under it with
one put in between. -/
def siblingOps : List IndexOp :=
  [.setRightSibling ⟨9⟩,.append [5] ⟨0⟩,.append [2] ⟨4⟩,.append [5] ⟨7⟩,.insertAt 2 [2,0] ⟨6⟩]

theorem siblingOps_list {rs : List (Except IndexPageError Unit)} {p : RawPage}
    (hrun : Prog.runAll ((.initInPlace 1 :: siblingOps).map IndexOp.exec) .debug
      (Buf.fill 4096 255) = .ok (rs,p)) :
    logicalList (.initInPlace 1 :: siblingOps) rs =
      [([5],⟨0⟩),([2],⟨4⟩),([2,0],⟨6⟩),([5],⟨7⟩)] := by
  obtain ⟨p',hrun',-⟩ := indexRun .debug (Buf.fill 4096 255) 1 siblingOps (by decide)
  rw [hrun'] at hrun
  cases hrun
  rw [← trace_pairs]
  rfl

theorem find_child_ptr_around_separators :
    (∀ op ∈ siblingOps, op.Accepted) ∧
      ∃ rs p, Prog.runAll ((.initInPlace 1 :: siblingOps).map IndexOp.exec) .debug
          (Buf.fill 4096 255) = .ok (rs,p) ∧ ∀ b,
        IndexPageRef.findChildPtr b p [] = .ok (.ok (some ⟨4⟩)) ∧
        IndexPageRef.findChildPtr b p [2] = .ok (.ok (some ⟨6⟩)) ∧
        IndexPageRef.findChildPtr b p [2,0] = .ok (.ok (some ⟨7⟩)) ∧
        IndexPageRef.findChildPtr b p [4,255] = .ok (.ok (some ⟨7⟩)) ∧
        IndexPageRef.findChildPtr b p [5] = .ok (.ok none) ∧
        IndexPageRef.findChildPtr b p [5,0] = .ok (.ok (some ⟨9⟩)) := by
  obtain ⟨rs,p,hrun,hfind⟩ :=
    find_child_ptr_routes .debug (Buf.fill 4096 255) 1 siblingOps (by decide)
  refine ⟨by decide,rs,p,hrun,fun b => ?_⟩
  simp only [hfind,siblingOps_list hrun]
  decide

/-! Pages with a high key -/

/-- Separators below a high key `h`: ascending, the greatest being `h` itself. -/
structure Separators (h : Key) (rest : List Pair) : Prop where
  ascending : Ascending rest
  greatest : h ∈ rest.map Prod.fst
  bounded : ∀ kc ∈ rest, kc.1 ≤ h

/-- The search ends in the sibling above the high key and in a child of the page
up to it. -/
def Routed (sibling : PageID) (h : Key) (rest : List Pair) (key : Key)
    (found : Exec (Except IndexPageError (Option PageID))) : Prop :=
  ∃ pid, found = .ok (.ok (some pid)) ∧ (key > h → pid = sibling) ∧
    (key ≤ h → pid ∈ rest.map Prod.snd)

theorem routed_route_iff (s : PageID) {high : Pair} {rest : List Pair}
    (hsep : Separators high.1 rest) (key : Key) :
    Routed s high.1 rest key (.ok (route (some s) (high :: rest) key)) ↔ key ≠ high.1 := by
  simp only [route]
  have hnone := firstAbove_eq_none_iff hsep.greatest hsep.bounded key
  rcases Std.lt_trichotomy high.1 key with hgt | heq | hlt
  · rw [if_pos hgt]
    refine iff_of_true ⟨s,rfl,fun _ => rfl,fun hle => ?_⟩ ?_
    · exact absurd hgt (Std.not_lt.mpr hle)
    · rintro rfl
      exact Std.lt_irrefl hgt
  · -- neither comparison is strict in the right direction
    subst heq
    rw [if_neg Std.lt_irrefl,firstGreater,hnone.mpr Std.lt_irrefl]
    refine iff_of_false ?_ (by simp)
    rintro ⟨pid,hfound,-⟩
    simp at hfound
  · have hng : ¬ key > high.1 := fun hgt => Std.lt_irrefl (Std.lt_trans hlt hgt)
    rw [if_neg hng,firstGreater]
    cases hf : firstAbove key rest with
    | none => exact absurd hlt (hnone.mp hf)
    | some kc =>
      refine iff_of_true ⟨kc.2,rfl,fun hgt => absurd hgt hng,fun _ => ?_⟩ ?_
      · exact List.mem_map.mpr ⟨kc,firstAbove_mem hf,rfl⟩
      · rintro rfl
        exact Std.lt_irrefl hlt

theorem high_key_routed_iff (b : Build) (buf : RawPage) (lsn : UInt64) (ops : List IndexOp)
    (h : ∀ op ∈ ops, op.Accepted) (s : PageID) (hs : currentSibling ops = some s) :
    ∃ rs p, Prog.runAll ((.initInPlace lsn :: ops).map IndexOp.exec) b buf = .ok (rs,p) ∧
      ∀ high rest, logicalList (.initInPlace lsn :: ops) rs = high :: rest →
        Separators high.1 rest → ∀ b' key,
          Routed s high.1 rest key (IndexPageRef.findChildPtr b' p key) ↔ key ≠ high.1 := by
  obtain ⟨p,hrun,hr⟩ := indexRun b buf lsn ops h
  refine ⟨_,p,hrun,fun high rest hl hsep b' key => ?_⟩
  rw [hr.findChildPtr_eq b' key,trace_sibling,trace_pairs,hs,hl]
  exact routed_route_iff s hsep key

def boundaryOps : List IndexOp :=
  [.setRightSibling ⟨9⟩,.append [5] ⟨0⟩,.append [5] ⟨7⟩]

theorem boundaryOps_list {rs : List (Except IndexPageError Unit)} {p : RawPage}
    (hrun : Prog.runAll ((.initInPlace 1 :: boundaryOps).map IndexOp.exec) .debug
      (Buf.fill 4096 0) = .ok (rs,p)) :
    logicalList (.initInPlace 1 :: boundaryOps) rs = [([5],⟨0⟩),([5],⟨7⟩)] := by
  obtain ⟨p',hrun',-⟩ := indexRun .debug (Buf.fill 4096 0) 1 boundaryOps (by decide)
  rw [hrun] at hrun'
  cases hrun'
  rw [← trace_pairs]
  rfl

theorem boundaryOps_separators : Separators [5] [([5],⟨7⟩)] :=
  ⟨List.pairwise_singleton _ _,by decide,by decide⟩

/-- The key equal to the high key is sent nowhere. -/
theorem boundary_key_not_routed :
    ¬ ∀ (b : Build) (buf : RawPage) (lsn : UInt64) (ops : List IndexOp) (s : PageID),
      (∀ op ∈ ops, op.Accepted) → currentSibling ops = some s →
      ∀ rs p, Prog.runAll ((.initInPlace lsn :: ops).map IndexOp.exec) b buf = .ok (rs,p) →
        ∀ high rest, logicalList (.initInPlace lsn :: ops) rs = high :: rest →
          Separators high.1 rest → ∀ b' key,
            Routed s high.1 rest key (IndexPageRef.findChildPtr b' p key) := by
  intro hall
  obtain ⟨p,hrun,hr⟩ := indexRun .debug (Buf.fill 4096 0) 1 boundaryOps (by decide)
  have hrouted := hall .debug (Buf.fill 4096 0) 1 boundaryOps ⟨9⟩ (by decide) (by decide) _ p hrun
    _ _ (boundaryOps_list hrun) boundaryOps_separators .debug [5]
  rw [hr.findChildPtr_eq .debug [5],trace_sibling] at hrouted
  exact (routed_route_iff ⟨9⟩ boundaryOps_separators [5]).mp hrouted rfl

theorem key_below_boundary_routed :
    (∀ op ∈ boundaryOps, op.Accepted) ∧ currentSibling boundaryOps = some ⟨9⟩ ∧
      ∃ rs p, Prog.runAll ((.initInPlace 1 :: boundaryOps).map IndexOp.exec) .debug
          (Buf.fill 4096 0) = .ok (rs,p) ∧
        Routed ⟨9⟩ [5] [([5],⟨7⟩)] [4] (IndexPageRef.findChildPtr .release p [4]) := by
  refine ⟨by decide,by decide,?_⟩
  obtain ⟨rs,p,hrun,hiff⟩ := high_key_routed_iff .debug (Buf.fill 4096 0) 1 boundaryOps (by decide)
    ⟨9⟩ (by decide)
  refine ⟨rs,p,hrun,?_⟩
  exact (hiff ([5],⟨0⟩) [([5],⟨7⟩)] (boundaryOps_list hrun) boundaryOps_separators .release [4]).mpr
    (by decide)

/-! Pages without a sibling -/

/-- The search cuts the keys into the ranges between separators, in slot order. -/
structure Partitions (pairs : List Pair)
    (find : Key → Exec (Except IndexPageError (Option PageID))) : Prop where
  child : ∀ key c, find key = .ok (.ok (some c)) ↔
    ∃ s, (s,c) ∈ pairs ∧ key < s ∧ ∀ kc ∈ pairs, key < kc.1 → s ≤ kc.1
  nothing : ∀ key, find key = .ok (.ok none) ↔ ∀ kc ∈ pairs, ¬ key < kc.1
  returns : ∀ key, ∃ r, find key = .ok (.ok r)
  cells : ∀ k₁ k₂, k₁ < k₂ →
    (find k₁ = find k₂ ↔ ¬ ∃ kc ∈ pairs, k₁ < kc.1 ∧ kc.1 ≤ k₂)
  rightward : ∀ k₁ k₂, k₁ < k₂ → ∀ c₂, find k₂ = .ok (.ok (some c₂)) →
    ∃ c₁, find k₁ = .ok (.ok (some c₁)) ∧ ∀ i j (hi : i < pairs.length) (hj : j < pairs.length),
      pairs[i].2 = c₁ → pairs[j].2 = c₂ → i ≤ j

section Partition
variable {pairs : List Pair} (hasc : Ascending pairs) (hchild : (pairs.map Prod.snd).Nodup)
include hasc

theorem firstGreater_eq_some {key : Key} {c : PageID} : firstGreater key pairs = some c ↔
    ∃ s, (s,c) ∈ pairs ∧ key < s ∧ ∀ kc ∈ pairs, key < kc.1 → s ≤ kc.1 := by
  rw [firstGreater,Option.map_eq_some_iff]
  constructor
  · rintro ⟨⟨s,c⟩,hf,rfl⟩
    exact ⟨s,hasc.firstAbove_eq_some.mp hf⟩
  · rintro ⟨s,hs⟩
    exact ⟨(s,c),hasc.firstAbove_eq_some.mpr hs,rfl⟩

include hchild

theorem firstGreater_eq_iff {k₁ k₂ : Key} (hk : k₁ < k₂) :
    firstGreater k₁ pairs = firstGreater k₂ pairs ↔
      ¬ ∃ kc ∈ pairs, k₁ < kc.1 ∧ kc.1 ≤ k₂ := by
  rw [← hasc.firstAbove_eq_iff hk]
  refine ⟨fun h => ?_,fun h => by rw [firstGreater,h,firstGreater]⟩
  -- distinct children name their separators
  have hinj := List.inj_on_of_nodup_map hchild
  simp only [firstGreater] at h
  cases h₁ : firstAbove k₁ pairs with
  | none =>
    rw [h₁,Option.map_none,eq_comm,Option.map_eq_none_iff] at h
    exact h.symm
  | some e₁ =>
    rw [h₁,Option.map_some,eq_comm,Option.map_eq_some_iff] at h
    obtain ⟨e₂,h₂,heq⟩ := h
    rw [h₂,hinj (firstAbove_mem h₂) (firstAbove_mem h₁) heq]

theorem firstGreater_index_le {k₁ k₂ : Key} (hk : k₁ < k₂) {c₁ c₂ : PageID}
    (h₁ : firstGreater k₁ pairs = some c₁) (h₂ : firstGreater k₂ pairs = some c₂) {i j : Nat}
    (hi : i < pairs.length) (hj : j < pairs.length) (hci : pairs[i].2 = c₁)
    (hcj : pairs[j].2 = c₂) : i ≤ j := by
  have hinj := List.inj_on_of_nodup_map hchild
  obtain ⟨s₁,hm₁,-,hleast⟩ := (firstGreater_eq_some hasc).mp h₁
  obtain ⟨s₂,hm₂,hlt,-⟩ := (firstGreater_eq_some hasc).mp h₂
  have he₁ : pairs[i] = (s₁,c₁) := hinj (List.getElem_mem hi) hm₁ hci
  have he₂ : pairs[j] = (s₂,c₂) := hinj (List.getElem_mem hj) hm₂ hcj
  apply hasc.index_le hi hj
  rw [he₁,he₂]
  exact hleast _ hm₂ (Std.lt_trans hk hlt)

theorem partitions_route : Partitions pairs (fun key => .ok (route none pairs key)) where
  child key c := by
    simp only [route,Except.ok.injEq]
    exact firstGreater_eq_some hasc
  nothing key := by
    simp only [route,Except.ok.injEq,firstGreater,Option.map_eq_none_iff]
    exact firstAbove_eq_none
  returns key := ⟨_,rfl⟩
  cells k₁ k₂ hk := by
    simp only [route,Except.ok.injEq]
    exact firstGreater_eq_iff hasc hchild hk
  rightward k₁ k₂ hk c₂ h₂ := by
    simp only [route,Except.ok.injEq] at h₂ ⊢
    cases h₁ : firstGreater k₁ pairs with
    | none =>
      obtain ⟨s₂,hm₂,hlt,-⟩ := (firstGreater_eq_some hasc).mp h₂
      rw [firstGreater,Option.map_eq_none_iff] at h₁
      exact absurd (Std.lt_trans hk hlt) (firstAbove_eq_none.mp h₁ _ hm₂)
    | some c₁ =>
      exact ⟨c₁,rfl,fun i j hi hj => firstGreater_index_le hasc hchild hk h₁ h₂ hi hj⟩

end Partition

theorem find_child_ptr_partitions (b : Build) (buf : RawPage) (lsn : UInt64) (ops : List IndexOp)
    (h : ∀ op ∈ ops, op.Accepted) (hs : currentSibling ops = none) :
    ∃ rs p pairs, Prog.runAll ((.initInPlace lsn :: ops).map IndexOp.exec) b buf = .ok (rs,p) ∧
      (∀ b', listPairs b' p = .ok pairs) ∧
      (Ascending pairs → (pairs.map Prod.snd).Nodup →
        ∀ b', Partitions pairs (IndexPageRef.findChildPtr b' p)) := by
  obtain ⟨p,hrun,hr⟩ := indexRun b buf lsn ops h
  refine ⟨_,p,_,hrun,fun b' => hr.listPairs_eq b',fun hasc hchild b' => ?_⟩
  have hfind : IndexPageRef.findChildPtr b' p = fun key =>
      .ok (route none (Prog.trace IndexOp.step ops (.fresh lsn)).2.pairs key) := by
    funext key
    rw [hr.findChildPtr_eq b' key,trace_sibling,hs]
  rw [hfind]
  exact partitions_route hasc hchild

theorem find_child_ptr_two_separators :
    (∀ op ∈ [IndexOp.append [] ⟨5⟩,.append [2] ⟨7⟩], op.Accepted) ∧
      currentSibling [IndexOp.append [] ⟨5⟩,.append [2] ⟨7⟩] = none ∧
      ∃ rs p, Prog.runAll ([IndexOp.initInPlace 1,.append [] ⟨5⟩,.append [2] ⟨7⟩].map
          IndexOp.exec) .debug (Buf.fill 4096 0) = .ok (rs,p) ∧
        ∀ b', Partitions [([],⟨5⟩),([2],⟨7⟩)] (IndexPageRef.findChildPtr b' p) := by
  refine ⟨by decide,by decide,?_⟩
  obtain ⟨rs,p,pairs,hrun,hlist,hpart⟩ := find_child_ptr_partitions .debug (Buf.fill 4096 0) 1
    [.append [] ⟨5⟩,.append [2] ⟨7⟩] (by decide) (by decide)
  obtain ⟨p',hrun',hr⟩ := indexRun .debug (Buf.fill 4096 0) 1 [.append [] ⟨5⟩,.append [2] ⟨7⟩]
    (by decide)
  rw [hrun] at hrun'
  cases hrun'
  obtain rfl : pairs = [([],⟨5⟩),([2],⟨7⟩)] :=
    Except.ok.inj ((hlist .debug).symm.trans (hr.listPairs_eq .debug))
  exact ⟨_,p,hrun,hpart (by simp [Ascending]) (by decide)⟩

end InkDB
