import Mathlib.Data.Set.Finite.Lemmas

/-! Taking the elements of a finite set away one at a time, each only when no other element that is
still there holds it. What can never go is the largest core: a set each of whose elements is held by
another one of them. -/

namespace Peeling

variable {α : Type} {holds : α → α → Prop}

/-- Each element is held by another one. -/
def Core (holds : α → α → Prop) (c : Set α) : Prop := ∀ a ∈ c, ∃ b ∈ c, b ≠ a ∧ holds b a

/-- Nothing else in the set holds `a`. -/
def Free (holds : α → α → Prop) (s : Set α) (a : α) : Prop := ∀ b ∈ s, b ≠ a → ¬ holds b a

/-- The elements that are in some core of the set. -/
def Stuck (holds : α → α → Prop) (s : Set α) (a : α) : Prop := ∃ c ⊆ s, Core holds c ∧ a ∈ c

/-- An element of a core is not free. -/
theorem Core.not_free {c : Set α} (core : Core holds c) {s : Set α} (inside : c ⊆ s) {a : α} (member : a ∈ c) :
    ¬ Free holds s a := by
  intro free
  obtain ⟨b, holder, other, holding⟩ := core a member
  exact free b (inside holder) other holding

/-- What is stuck is held by something that is stuck. -/
theorem Stuck.held {s : Set α} {a : α} (stuck : Stuck holds s a) : ∃ b ∈ s, b ≠ a ∧ holds b a ∧ Stuck holds s b := by
  obtain ⟨c, inside, core, member⟩ := stuck
  obtain ⟨b, holder, other, holding⟩ := core a member
  exact ⟨b, inside holder, other, holding, c, inside, core, holder⟩

/-- Where holders rank above what they hold nothing is stuck. -/
theorem not_stuck_of_rank {s : Set α} (finite : s.Finite) (rank : α → ℕ)
    (above : ∀ a ∈ s, ∀ b ∈ s, b ≠ a → holds b a → rank a < rank b) (a : α) : ¬ Stuck holds s a := by
  rintro ⟨c, inside, core, member⟩
  obtain ⟨top, inCore, highest⟩ := Set.exists_max_image c rank (finite.subset inside) ⟨a, member⟩
  obtain ⟨b, holder, other, holding⟩ := core top inCore
  exact absurd (highest b holder) (Nat.not_le.mpr (above top (inside inCore) b (inside holder) other holding))

section
variable [DecidableEq α] {s t : Finset α}

/-- The elements in the order in which they go, each free when its turn comes. -/
inductive Peels (holds : α → α → Prop) : Finset α → List α → Finset α → Prop where
  | done (s : Finset α) : Peels holds s [] s
  | next {s t : Finset α} {a : α} {rest : List α} : a ∈ s → Free holds s a → Peels holds (s.erase a) rest t →
    Peels holds s (a :: rest) t

/-- A core stays whole. -/
theorem Core.subset_of_peels {c : Set α} (core : Core holds c) {order : List α} (peels : Peels holds s order t)
    (inside : c ⊆ s) : c ⊆ t := by
  induction peels with
  | done s => exact inside
  | next member free _ ih =>
    refine ih fun b inCore => Finset.mem_erase.mpr ⟨?_, inside inCore⟩
    rintro rfl
    exact core.not_free inside inCore free

/-- Taking away free elements ends in a core. -/
theorem exists_peels_core (holds : α → α → Prop) (s : Finset α) :
    ∃ order t, Peels holds s order t ∧ t ⊆ s ∧ Core holds t := by
  induction s using Finset.strongInduction with
  | H s ih =>
    by_cases core : Core holds (s : Set α)
    · exact ⟨[], s, .done s, Finset.Subset.refl s, core⟩
    · unfold Core at core
      push Not at core
      obtain ⟨a, member, free⟩ := core
      obtain ⟨order, t, peels, inside, core'⟩ := ih (s.erase a) (Finset.erase_ssubset member)
      exact ⟨a :: order, t, .next member free peels, inside.trans (Finset.erase_subset a s), core'⟩

/-- What is left in the end is what is stuck. -/
theorem exists_peels_stuck (holds : α → α → Prop) (s : Finset α) :
    ∃ order t, Peels holds s order t ∧ ∀ a, a ∈ t ↔ Stuck holds s a := by
  obtain ⟨order, t, peels, inside, core⟩ := exists_peels_core holds s
  refine ⟨order, t, peels, fun a => ⟨fun left => ⟨t, inside, core, left⟩, ?_⟩⟩
  rintro ⟨c, within, core', member⟩
  exact core'.subset_of_peels peels within member

end

end Peeling
