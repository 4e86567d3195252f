import Mathlib.Data.List.Basic
import DragonUso.Library.Align

/-! Placing objects one after the other, each start rounded up to the object's alignment. The
space between the first byte and the end is the sum of the sizes exactly when nothing is padded. -/

namespace Packing
open WordAlign

structure Shape where
  size : Nat
  align : Nat
  deriving DecidableEq, Repr

def total : List Shape → Nat
  | [] => 0
  | s :: rest => s.size + total rest

/-- Where each object starts, from the address `p` on. -/
def starts : Nat → List Shape → List Nat
  | _, [] => []
  | p, s :: rest => alignUp p s.align :: starts (alignUp p s.align + s.size) rest

/-- The address after the last object. -/
def stop : Nat → List Shape → Nat
  | p, [] => p
  | p, s :: rest => stop (alignUp p s.align + s.size) rest

/-- Every object's alignment divides the sizes placed before it, `before` being those already seen. -/
def PackedFrom : Nat → List Shape → Prop
  | _, [] => True
  | before, s :: rest => s.align ∣ before ∧ PackedFrom (before + s.size) rest

theorem packedFrom_iff (before : Nat) (shapes : List Shape) :
    PackedFrom before shapes ↔
      ∀ i s, shapes[i]? = some s → s.align ∣ before + total (shapes.take i) := by
  induction shapes generalizing before with
  | nil => simp [PackedFrom]
  | cons head rest ih =>
    rw [PackedFrom, ih]
    constructor
    · rintro ⟨first, later⟩ i s at_i
      cases i with
      | zero =>
        rw [List.getElem?_cons_zero, Option.some.injEq] at at_i
        subst head
        exact first
      | succ i =>
        rw [List.take_succ_cons, total, ← Nat.add_assoc]
        exact later i s at_i
    · intro every
      refine ⟨every 0 head rfl, ?_⟩
      intro i s at_i
      have moved := every (i + 1) s at_i
      rwa [List.take_succ_cons, total, ← Nat.add_assoc] at moved

theorem stop_ge {shapes : List Shape} (positive : ∀ s ∈ shapes, 0 < s.align) (p : Nat) :
    p + total shapes ≤ stop p shapes := by
  induction shapes generalizing p with
  | nil => exact Nat.le_refl _
  | cons s rest ih =>
    have up := le_alignUp p (positive s List.mem_cons_self)
    have later := ih (fun t member => positive t (List.mem_cons_of_mem _ member)) (alignUp p s.align + s.size)
    rw [stop, total]
    omega

/-- With an origin every alignment divides, packing without padding is the same as ending at the sum. -/
theorem stop_eq_iff {shapes : List Shape} (positive : ∀ s ∈ shapes, 0 < s.align) {origin : Nat}
    (aligned : ∀ s ∈ shapes, s.align ∣ origin) (before : Nat) :
    stop (origin + before) shapes = origin + before + total shapes ↔ PackedFrom before shapes := by
  induction shapes generalizing before with
  | nil => exact iff_of_true rfl trivial
  | cons s rest ih =>
    have own := positive s List.mem_cons_self
    have up := le_alignUp (origin + before) own
    have later := fun q => stop_ge (fun t member => positive t (List.mem_cons_of_mem s member)) q
    have divides : alignUp (origin + before) s.align = origin + before ↔ s.align ∣ before := by
      rw [alignUp_eq_self own]
      exact (Nat.dvd_add_right (aligned s List.mem_cons_self))
    have next := ih (fun t member => positive t (List.mem_cons_of_mem _ member))
      (fun t member => aligned t (List.mem_cons_of_mem _ member)) (before + s.size)
    rw [stop, total, PackedFrom, ← divides, ← next]
    constructor
    · intro ends
      have room := later (alignUp (origin + before) s.align + s.size)
      have still : alignUp (origin + before) s.align = origin + before := by omega
      refine ⟨still, ?_⟩
      rw [still] at ends
      rw [← Nat.add_assoc, ends]
      omega
    · rintro ⟨still, ends⟩
      rw [still, Nat.add_assoc origin before s.size, ends]
      omega

end Packing
