import InkDB.ByteBuffer

/-!
Items laid end to end from a base address, and lists of placed items that are a
rearrangement of such a stack. The ranges of a rearranged stack still tile the
interval it covers.
-/

set_option autoImplicit false

namespace InkDB

section Stack
variable {α : Type} (size : α → Nat)

def totalSize (as : List α) : Nat := (as.map size).sum

/-- The first item lies at `base`, each next one where the previous ends. -/
def stacked (base : Nat) : List α → List (Nat × α)
  | [] => []
  | a :: as => (base,a) :: stacked (base+size a) as

@[simp] theorem totalSize_nil : totalSize size [] = 0 := rfl

@[simp] theorem totalSize_cons (a : α) (as : List α) :
    totalSize size (a :: as) = size a+totalSize size as := by
  simp [totalSize]

theorem stacked_map_snd (base : Nat) (as : List α) :
    (stacked size base as).map Prod.snd = as := by
  induction as generalizing base with
  | nil => rfl
  | cons a as ih => simp [stacked,ih]

theorem stacked_bounds {base : Nat} {as : List α} {x : Nat × α}
    (h : x ∈ stacked size base as) :
    base ≤ x.1 ∧ x.1+size x.2 ≤ base+totalSize size as := by
  induction as generalizing base with
  | nil => simp [stacked] at h
  | cons a as ih =>
    simp only [stacked,List.mem_cons] at h
    rw [totalSize_cons]
    rcases h with rfl | h
    · exact ⟨Nat.le_refl _,by simp only; omega⟩
    · have hb := ih h
      omega

/-- Two placed items that share no byte. -/
def Apart (x y : Nat × α) : Prop := x.1+size x.2 ≤ y.1 ∨ y.1+size y.2 ≤ x.1

theorem stacked_apart (base : Nat) (as : List α) :
    (stacked size base as).Pairwise (Apart size) := by
  induction as generalizing base with
  | nil => exact .nil
  | cons a as ih =>
    refine .cons (fun y hy => ?_) (ih _)
    exact .inl (stacked_bounds size hy).1

theorem stacked_covers {base : Nat} {as : List α} {z : Nat}
    (h₁ : base ≤ z) (h₂ : z < base+totalSize size as) :
    ∃ x ∈ stacked size base as, x.1 ≤ z ∧ z < x.1+size x.2 := by
  induction as generalizing base with
  | nil => simp at h₂; omega
  | cons a as ih =>
    rw [totalSize_cons] at h₂
    by_cases hz : z < base+size a
    · exact ⟨(base,a),by simp [stacked],h₁,hz⟩
    · obtain ⟨x,hx,hr⟩ := ih (show base+size a ≤ z by omega) (by omega)
      exact ⟨x,by simp [stacked,hx],hr⟩

/-- The last item of a stack ends where the stack does. -/
theorem stacked_ends {as : List α} (h : as ≠ []) (base : Nat) :
    ∃ x ∈ stacked size base as, x.1+size x.2 = base+totalSize size as := by
  induction as generalizing base with
  | nil => exact absurd rfl h
  | cons a as ih =>
    rw [totalSize_cons]
    cases as with
    | nil => exact ⟨(base,a),by simp [stacked],by simp⟩
    | cons a' as =>
      obtain ⟨x,hx,hend⟩ := ih (by simp) (base+size a)
      exact ⟨x,List.mem_cons_of_mem _ hx,by omega⟩

section Rearranged
variable {size} {base : Nat} {as : List α} {slots : List (Nat × α)}
  (hp : slots.Perm (stacked size base as))
include hp

theorem perm_stacked_bounds {x : Nat × α} (hx : x ∈ slots) :
    base ≤ x.1 ∧ x.1+size x.2 ≤ base+totalSize size as :=
  stacked_bounds size (hp.mem_iff.mp hx)

theorem perm_stacked_apart : slots.Pairwise (Apart size) :=
  (hp.pairwise_iff (fun h => h.symm)).mpr (stacked_apart size base as)

theorem perm_stacked_covers {z : Nat} (h₁ : base ≤ z) (h₂ : z < base+totalSize size as) :
    ∃ x ∈ slots, x.1 ≤ z ∧ z < x.1+size x.2 := by
  obtain ⟨x,hx,hr⟩ := stacked_covers size h₁ h₂
  exact ⟨x,hp.mem_iff.mpr hx,hr⟩

theorem perm_stacked_ends (h : as ≠ []) : ∃ x ∈ slots, x.1+size x.2 = base+totalSize size as := by
  obtain ⟨x,hx,hend⟩ := stacked_ends size h base
  exact ⟨x,hp.mem_iff.mpr hx,hend⟩

theorem perm_stacked_items : (slots.map Prod.snd).Perm as := by
  have h := hp.map Prod.snd
  rwa [stacked_map_snd] at h

theorem perm_stacked_total : totalSize size (slots.map Prod.snd) = totalSize size as :=
  ((perm_stacked_items hp).map size).sum_eq

end Rearranged

/-- Pushing one more item below the stack and inserting it anywhere in the
rearranged list gives a rearrangement of the larger stack. -/
theorem perm_stacked_insert {base : Nat} {a : α} {as : List α} {slots : List (Nat × α)}
    (hp : slots.Perm (stacked size (base+size a) as)) {i : Nat} (hi : i ≤ slots.length) :
    (slots.insertIdx i (base,a)).Perm (stacked size base (a :: as)) :=
  (List.perm_insertIdx _ _ hi).trans (hp.cons (base,a))

end Stack

/-- Cells spelled out end to end in a buffer are found where they are stacked. -/
theorem read_of_stacked {n : Nat} (m : Buf n) {base : Nat} {cs : List (List UInt8)}
    (h : m.read base (totalSize List.length cs) = cs.flatten)
    {x : Nat × List UInt8} (hx : x ∈ stacked List.length base cs) :
    m.read x.1 x.2.length = x.2 := by
  induction cs generalizing base with
  | nil => simp [stacked] at hx
  | cons c cs ih =>
    rw [totalSize_cons,Buf.read_add,List.flatten_cons] at h
    obtain ⟨hc,hcs⟩ := List.append_inj h (by simp)
    simp only [stacked,List.mem_cons] at hx
    rcases hx with rfl | hx
    · exact hc
    · exact ih hcs hx

/-- Items that take space can be stacked in one order only. -/
theorem stacked_unique {α : Type} {size : α → Nat} {base : Nat} {as as' : List α}
    (hpos : ∀ a ∈ as, 0 < size a) (hpos' : ∀ a ∈ as', 0 < size a)
    (h : (stacked size base as).Perm (stacked size base as')) : as = as' := by
  induction as generalizing base as' with
  | nil =>
    cases as' with
    | nil => rfl
    | cons a' as' => exact absurd h.length_eq (by simp [stacked])
  | cons a as ih =>
    cases as' with
    | nil => exact absurd h.length_eq (by simp [stacked])
    | cons a' as' =>
      have ha' := hpos' a' (by simp)
      have hmem : (base,a) ∈ stacked size base (a' :: as') := h.mem_iff.mp (by simp [stacked])
      simp only [stacked,List.mem_cons,Prod.mk.injEq,true_and] at hmem
      rcases hmem with rfl | hmem
      · have hrest := ih (fun x hx => hpos x (by simp [hx])) (fun x hx => hpos' x (by simp [hx]))
          (List.Perm.cons_inv h)
        rw [hrest]
      · have hb := (stacked_bounds size hmem).1
        simp only at hb
        omega

end InkDB
