import Mathlib.Data.List.Basic

/-! Patches applied to a memory one after the other. When no patch writes a cell that a later one
writes or reads, the sequence is one simultaneous patch of the memory it started from, and any
other order with that property gives the same memory. -/

namespace PatchSet

variable {α β : Type}

/-- A change of the cells in `writes`, computed from the cells in `reads`. -/
structure Patch (α β : Type) where
  writes : α → Bool
  reads : α → Bool
  value : (α → β) → α → β
  value_congr : ∀ {m n : α → β}, (∀ a, reads a → m a = n a) → ∀ a, writes a → value m a = value n a

def Patch.apply (p : Patch α β) (m : α → β) : α → β := fun a => if p.writes a then p.value m a else m a

def run (patches : List (Patch α β)) (m : α → β) : α → β := patches.foldl (fun m p => p.apply m) m

/-- `second` neither writes nor reads what `first` writes. -/
structure Spares (first second : Patch α β) : Prop where
  writes : ∀ a, first.writes a → second.writes a = false
  reads : ∀ a, first.writes a → second.reads a = false

@[simp] theorem run_cons (p : Patch α β) (rest : List (Patch α β)) (m : α → β) :
    run (p :: rest) m = run rest (p.apply m) := rfl

theorem run_append (first second : List (Patch α β)) (m : α → β) :
    run (first ++ second) m = run second (run first m) := List.foldl_append

theorem apply_outside (p : Patch α β) (m : α → β) {a : α} (outside : p.writes a = false) : p.apply m a = m a := by
  simp [Patch.apply, outside]

/-- The frame: a cell no patch writes keeps its value. -/
theorem run_outside (patches : List (Patch α β)) (m : α → β) {a : α}
    (outside : ∀ p ∈ patches, p.writes a = false) : run patches m a = m a := by
  induction patches generalizing m with
  | nil => rfl
  | cons p rest ih =>
    rw [run_cons, ih _ (fun q member => outside q (List.mem_cons_of_mem _ member)),
      apply_outside p m (outside p List.mem_cons_self)]

/-- A cell some patch writes holds what that patch makes of the memory before the run. -/
theorem run_inside {patches : List (Patch α β)} (apart : patches.Pairwise Spares) (m : α → β)
    {p : Patch α β} (member : p ∈ patches) {a : α} (inside : p.writes a) : run patches m a = p.value m a := by
  induction patches generalizing m with
  | nil => exact absurd member List.not_mem_nil
  | cons q rest ih =>
    obtain ⟨first, later⟩ := List.pairwise_cons.mp apart
    rw [run_cons]
    rcases List.mem_cons.mp member with rfl | member
    · rw [run_outside rest _ (fun r found => (first r found).writes a inside), Patch.apply, if_pos inside]
    · rw [ih later _ member]
      -- `q` writes nothing that `p` reads
      apply p.value_congr _ a inside
      intro b read
      apply apply_outside
      cases written : q.writes b with
      | false => rfl
      | true => exact absurd read (by simp [(first p member).reads b written])

/-- The order does not matter among orders in which no patch disturbs a later one. -/
theorem run_perm {first second : List (Patch α β)} (same : ∀ p, p ∈ first ↔ p ∈ second)
    (apart : first.Pairwise Spares) (apart' : second.Pairwise Spares) (m : α → β) :
    run first m = run second m := by
  funext a
  by_cases written : ∃ p ∈ first, p.writes a
  · obtain ⟨p, member, inside⟩ := written
    rw [run_inside apart m member inside, run_inside apart' m ((same p).mp member) inside]
  · have outside : ∀ p ∈ first, p.writes a = false := by
      intro p member
      simpa using fun inside => written ⟨p, member, inside⟩
    rw [run_outside first m outside, run_outside second m fun p member => outside p ((same p).mpr member)]

end PatchSet
