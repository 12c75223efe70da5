import Mathlib

/-!
Association lists in strictly ascending key order. Inserting an entry at its
rank, the number of smaller keys, keeps the order, so the list depends on the
set of entries and not on the order they came in.
-/

set_option autoImplicit false

namespace InkDB

section Ranked
variable {K V : Type} [LT K] [DecidableLT K]

def rank (k : K) (l : List (K × V)) : Nat := l.countP (fun e => decide (e.1 < k))

def insertByRank (l : List (K × V)) (e : K × V) : List (K × V) := l.insertIdx (rank e.1 l) e

def Ascending (l : List (K × V)) : Prop := l.Pairwise (fun a b => a.1 < b.1)

/-- The first entry above a key. -/
def firstAbove (k : K) (l : List (K × V)) : Option (K × V) := l.find? (fun e => decide (k < e.1))

theorem rank_le (k : K) (l : List (K × V)) : rank k l ≤ l.length := List.countP_le_length

theorem rank_perm (k : K) {l l' : List (K × V)} (h : l.Perm l') : rank k l = rank k l' :=
  h.countP_eq _

theorem insertByRank_perm (l : List (K × V)) (e : K × V) : (insertByRank l e).Perm (e :: l) :=
  List.perm_insertIdx _ _ (rank_le e.1 l)

theorem insertByRank_cons_of_lt {e x : K × V} (l : List (K × V)) (h : x.1 < e.1) :
    insertByRank (x :: l) e = x :: insertByRank l e := by
  rw [insertByRank,rank,List.countP_cons_of_pos (by simpa using h),List.insertIdx_succ_cons]
  rfl

theorem foldl_insertByRank_perm (l o : List (K × V)) :
    (o.foldl insertByRank l).Perm (o ++ l) := by
  induction o generalizing l with
  | nil => exact .refl _
  | cons e o ih =>
    have h := (ih (insertByRank l e)).trans ((insertByRank_perm l e).append_left o)
    exact h.trans List.perm_middle

theorem firstAbove_mem {k : K} {l : List (K × V)} {e : K × V} (h : firstAbove k l = some e) :
    e ∈ l := List.mem_of_find?_eq_some h

theorem firstAbove_eq_none {k : K} {l : List (K × V)} :
    firstAbove k l = none ↔ ∀ e ∈ l, ¬ k < e.1 := by
  simp [firstAbove,List.find?_eq_none]

variable [LE K] [Std.IsLinearOrder K] [Std.LawfulOrderLT K]

theorem insertByRank_of_lt_head {e : K × V} {l : List (K × V)} (h : ∀ x ∈ l, e.1 < x.1) :
    insertByRank l e = e :: l := by
  have hz : rank e.1 l = 0 := by
    rw [rank,List.countP_eq_zero]
    intro x hx
    have hlt := h x hx
    simpa using fun hgt => Std.lt_irrefl (Std.lt_trans hlt hgt)
  rw [insertByRank,hz,List.insertIdx_zero]

theorem Ascending.insertByRank {l : List (K × V)} (hl : Ascending l) {e : K × V}
    (hne : ∀ x ∈ l, x.1 ≠ e.1) : Ascending (insertByRank l e) := by
  induction hl with
  | nil => exact List.pairwise_singleton _ _
  | @cons x l hx hl ih =>
    rcases Std.lt_trichotomy x.1 e.1 with hlt | heq | hgt
    · rw [insertByRank_cons_of_lt l hlt]
      refine .cons (fun y hy => ?_) (ih (fun y hy => hne y (by simp [hy])))
      rcases List.mem_cons.mp ((insertByRank_perm l e).mem_iff.mp hy) with rfl | hy
      · exact hlt
      · exact hx y hy
    · exact absurd heq (hne x (by simp))
    · have hall : ∀ y ∈ x :: l, e.1 < y.1 := by
        intro y hy
        rcases List.mem_cons.mp hy with rfl | hy
        · exact hgt
        · exact Std.lt_trans hgt (hx y hy)
      rw [insertByRank_of_lt_head hall]
      exact .cons hall (.cons hx hl)

omit [DecidableLT K] in
theorem Ascending.eq_of_perm {l l' : List (K × V)} (hl : Ascending l) (hl' : Ascending l')
    (hp : l.Perm l') : l = l' := by
  apply List.Perm.eq_of_pairwise _ hl hl' hp
  intro a b _ _ hab hba
  exact absurd (Std.lt_trans hab hba) Std.lt_irrefl

theorem foldl_insertByRank_ascending {l o : List (K × V)} (hl : Ascending l)
    (hd : ((o ++ l).map Prod.fst).Nodup) : Ascending (o.foldl insertByRank l) := by
  induction o generalizing l with
  | nil => exact hl
  | cons e o ih =>
    rw [List.cons_append,List.map_cons,List.nodup_cons] at hd
    apply ih (hl.insertByRank ?_)
    · have hp : (o ++ insertByRank l e).Perm (e :: (o ++ l)) :=
        ((insertByRank_perm l e).append_left o).trans List.perm_middle
      rw [(hp.map Prod.fst).nodup_iff,List.map_cons,List.nodup_cons]
      exact hd
    · intro x hx he
      exact hd.1 (List.mem_map.mpr ⟨x,by simp [hx],he⟩)

theorem foldl_insertByRank_eq {o o' : List (K × V)} (hp : o.Perm o')
    (hd : (o.map Prod.fst).Nodup) : o.foldl insertByRank [] = o'.foldl insertByRank [] := by
  have hd' : (o'.map Prod.fst).Nodup := (hp.map Prod.fst).nodup_iff.mp hd
  apply Ascending.eq_of_perm (foldl_insertByRank_ascending .nil (by simpa using hd))
    (foldl_insertByRank_ascending .nil (by simpa using hd'))
  have h := foldl_insertByRank_perm [] o
  have h' := foldl_insertByRank_perm [] o'
  rw [List.append_nil] at h h'
  exact (h.trans hp).trans h'.symm

/-- In an ascending list the first entry above a key is the least one above it. -/
theorem Ascending.firstAbove_eq_some {l : List (K × V)} (hl : Ascending l) {k : K} {e : K × V} :
    firstAbove k l = some e ↔ e ∈ l ∧ k < e.1 ∧ ∀ x ∈ l, k < x.1 → e.1 ≤ x.1 := by
  induction hl with
  | nil => simp [firstAbove]
  | @cons y l hy hl ih =>
    by_cases hk : k < y.1
    · rw [firstAbove,List.find?_cons_of_pos (by simpa using hk),Option.some.injEq]
      constructor
      · rintro rfl
        refine ⟨by simp,hk,fun x hx _ => ?_⟩
        rcases List.mem_cons.mp hx with rfl | hx
        · exact Std.le_refl _
        · exact Std.le_of_lt (hy x hx)
      · rintro ⟨he,-,hleast⟩
        rcases List.mem_cons.mp he with rfl | he
        · rfl
        · exact absurd (hy e he) (Std.not_lt.mpr (hleast y (by simp) hk))
    · rw [firstAbove,List.find?_cons_of_neg (by simpa using hk)]
      refine ih.trans ?_
      constructor
      · rintro ⟨he,hlt,hleast⟩
        refine ⟨List.mem_cons_of_mem _ he,hlt,fun x hx hkx => ?_⟩
        rcases List.mem_cons.mp hx with rfl | hx
        · exact absurd hkx hk
        · exact hleast x hx hkx
      · rintro ⟨he,hlt,hleast⟩
        rcases List.mem_cons.mp he with rfl | he
        · exact absurd hlt hk
        · exact ⟨he,hlt,fun x hx => hleast x (List.mem_cons_of_mem _ hx)⟩

/-- A new entry is found by the keys that have no other entry between them and
it, and changes nothing for the others. -/
theorem Ascending.firstAbove_insertByRank {l : List (K × V)} (hl : Ascending l) {e : K × V}
    (hne : ∀ x ∈ l, x.1 ≠ e.1) (k : K) : firstAbove k (InkDB.insertByRank l e) =
      if k < e.1 ∧ ∀ x ∈ l, k < x.1 → e.1 < x.1 then some e else firstAbove k l := by
  have hl' := hl.insertByRank hne
  have hmem : ∀ x, x ∈ InkDB.insertByRank l e ↔ x = e ∨ x ∈ l := fun x =>
    (insertByRank_perm l e).mem_iff.trans List.mem_cons
  split
  · rename_i hfirst
    refine hl'.firstAbove_eq_some.mpr ⟨(hmem e).mpr (.inl rfl),hfirst.1,fun x hx hk => ?_⟩
    rcases (hmem x).mp hx with rfl | hx
    · exact Std.le_refl _
    · exact Std.le_of_lt (hfirst.2 x hx hk)
  · rename_i hnot
    -- another entry lies between, or the new one is not above the key
    have hbetween : k < e.1 → ∃ x ∈ l, k < x.1 ∧ x.1 ≤ e.1 := by
      intro hk
      by_contra hno
      refine hnot ⟨hk,fun x hx hkx => ?_⟩
      exact Std.not_le.mp (fun hle => hno ⟨x,hx,hkx,hle⟩)
    cases hf : firstAbove k l with
    | none =>
      rw [firstAbove_eq_none] at hf ⊢
      intro x hx hk
      rcases (hmem x).mp hx with rfl | hx
      · obtain ⟨y,hy,hky,-⟩ := hbetween hk
        exact hf y hy hky
      · exact hf x hx hk
    | some y =>
      obtain ⟨hy,hky,hleast⟩ := hl.firstAbove_eq_some.mp hf
      refine hl'.firstAbove_eq_some.mpr ⟨(hmem y).mpr (.inr hy),hky,fun x hx hk => ?_⟩
      rcases (hmem x).mp hx with rfl | hx
      · obtain ⟨z,hz,hkz,hle⟩ := hbetween hk
        exact Std.le_trans (hleast z hz hkz) hle
      · exact hleast x hx hk

/-- Two keys have the same entry above them exactly when no key of the list
separates them. -/
theorem Ascending.firstAbove_eq_iff {l : List (K × V)} (hl : Ascending l) {k₁ k₂ : K}
    (hk : k₁ < k₂) :
    firstAbove k₁ l = firstAbove k₂ l ↔ ¬ ∃ x ∈ l, k₁ < x.1 ∧ x.1 ≤ k₂ := by
  constructor
  · rintro heq ⟨x,hx,h₁,h₂⟩
    cases hf : firstAbove k₁ l with
    | none => exact firstAbove_eq_none.mp hf x hx h₁
    | some e =>
      have hle := (hl.firstAbove_eq_some.mp hf).2.2 x hx h₁
      have hlt := (hl.firstAbove_eq_some.mp (heq.symm.trans hf)).2.1
      exact Std.not_lt.mpr (Std.le_trans hle h₂) hlt
  · intro hno
    have hiff : ∀ x ∈ l, decide (k₁ < x.1) = decide (k₂ < x.1) := by
      intro x hx
      rw [decide_eq_decide]
      refine ⟨fun h₁ => ?_,fun h₂ => Std.lt_trans hk h₂⟩
      exact Std.not_le.mp (fun h₂ => hno ⟨x,hx,h₁,h₂⟩)
    exact List.find?_congr hiff

omit [DecidableLT K] in
theorem Ascending.index_le {l : List (K × V)} (hl : Ascending l) {i j : Nat} (hi : i < l.length)
    (hj : j < l.length) (h : l[i].1 ≤ l[j].1) : i ≤ j := by
  by_contra hlt
  exact absurd (List.pairwise_iff_getElem.mp hl j i hj hi (Nat.not_le.mp hlt)) (Std.not_lt.mpr h)

/-- Below the greatest key of a list there is always an entry to find, and from
that key on there is none. -/
theorem firstAbove_eq_none_iff {l : List (K × V)} {top : K} (hmem : top ∈ l.map Prod.fst)
    (hle : ∀ x ∈ l, x.1 ≤ top) (k : K) : firstAbove k l = none ↔ ¬ k < top := by
  rw [firstAbove_eq_none]
  constructor
  · intro h
    obtain ⟨x,hx,rfl⟩ := List.mem_map.mp hmem
    exact h x hx
  · intro h x hx hlt
    exact h (Std.lt_of_lt_of_le hlt (hle x hx))

end Ranked

end InkDB
