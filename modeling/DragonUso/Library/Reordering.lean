import Mathlib.Data.List.Nodup
import Mathlib.Logic.Equiv.Basic

/-! Lists that hold the same elements at other positions, and why sorting them by keys of their
own forgets the difference. -/

namespace Reordering

variable {α β κ : Type}

/-- What stands at position `i` of the first list stands at position `order i` of the second. -/
def Reordered (order : Equiv.Perm ℕ) (first second : List α) : Prop := ∀ i, second[order i]? = first[i]?

theorem Reordered.refl (l : List α) : Reordered (Equiv.refl ℕ) l l := fun _ => rfl

theorem Reordered.symm {order : Equiv.Perm ℕ} {first second : List α} (same : Reordered order first second) :
    Reordered order.symm second first := by
  intro j
  have at_j := same (order.symm j)
  rw [Equiv.apply_symm_apply] at at_j
  exact at_j.symm

theorem Reordered.lt_iff {order : Equiv.Perm ℕ} {first second : List α} (same : Reordered order first second) (i : Nat) :
    order i < second.length ↔ i < first.length := by
  rw [← Nat.not_le, ← Nat.not_le, ← List.getElem?_eq_none_iff, ← List.getElem?_eq_none_iff, same i]

/-- A list is what its positions hold. -/
theorem filterMap_range (l : List α) : (List.range l.length).filterMap (fun i => l[i]?) = l := by
  induction l with
  | nil => rfl
  | cons a rest ih =>
    rw [List.length_cons, List.range_succ_eq_map, List.filterMap_cons_some List.getElem?_cons_zero, List.filterMap_map]
    exact congrArg (a :: ·) ih

/-- The positions of the first list, reordered, are those of the second. -/
theorem Reordered.positions {order : Equiv.Perm ℕ} {first second : List α} (same : Reordered order first second) :
    ((List.range first.length).map order).Perm (List.range second.length) := by
  refine (List.perm_ext_iff_of_nodup (List.nodup_range.map order.injective) List.nodup_range).mpr fun j => ?_
  rw [List.mem_map, List.mem_range]
  constructor
  · rintro ⟨i, inside, rfl⟩
    exact (same.lt_iff i).mpr (List.mem_range.mp inside)
  · intro inside
    refine ⟨order.symm j, List.mem_range.mpr ?_, order.apply_symm_apply j⟩
    exact (same.symm.lt_iff j).mpr inside

theorem Reordered.perm {order : Equiv.Perm ℕ} {first second : List α} (same : Reordered order first second) :
    first.Perm second := by
  have positions := same.positions.filterMap fun i => second[i]?
  rw [filterMap_range, List.filterMap_map] at positions
  have read : ((fun i => second[i]?) ∘ order) = fun i => first[i]? := funext same
  rwa [read, filterMap_range] at positions

/-- Two sorted lists that show the same are the same to look at, provided what they show is told
apart by its key. -/
theorem map_eq_of_sorted (below : κ → κ → Prop) (antisymm : ∀ a b, ¬ below a b → ¬ below b a → a = b) (key : β → κ)
    (view : α → β) {first second : List α} (same : (first.map view).Perm (second.map view))
    (distinct : ((first.map view).map key).Nodup)
    (sorted : first.Pairwise fun a b => ¬ below (key (view b)) (key (view a)))
    (sorted' : second.Pairwise fun a b => ¬ below (key (view b)) (key (view a))) : first.map view = second.map view := by
  have order : (first.map view).Pairwise fun a b => ¬ below (key b) (key a) := List.pairwise_map.mpr sorted
  refine List.Perm.eq_of_pairwise ?_ order (List.pairwise_map.mpr sorted') same
  intro a b inFirst inSecond ab ba
  exact List.inj_on_of_nodup_map distinct inFirst (same.mem_iff.mpr inSecond) (antisymm _ _ ba ab)

end Reordering
