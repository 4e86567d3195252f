import Mathlib.Algebra.Group.Nat.Defs
import Mathlib.Data.List.Pairwise

/-! Regions of a memory that are handed out and given back. What depends on one region only is not
touched by stores into another, so tenants with regions apart from each other do not notice each
other's arrival, departure or stores. -/

namespace Regions

variable {w : Nat} {β ι : Type}

structure Region (w : Nat) where
  start : BitVec w
  size : Nat
  deriving DecidableEq, Repr

def Region.Has (r : Region w) (p : BitVec w) : Prop := r.start.toNat ≤ p.toNat ∧ p.toNat < r.start.toNat + r.size

/-- One region ends before the other begins. -/
def Region.Apart (r q : Region w) : Prop := r.start.toNat + r.size ≤ q.start.toNat ∨ q.start.toNat + q.size ≤ r.start.toNat

instance (r : Region w) (p : BitVec w) : Decidable (r.Has p) := by unfold Region.Has; infer_instance

instance (r q : Region w) : Decidable (r.Apart q) := by unfold Region.Apart; infer_instance

theorem Region.Apart.symm {r q : Region w} (apart : r.Apart q) : q.Apart r := Or.symm apart

theorem Region.Apart.outside {r q : Region w} (apart : r.Apart q) {p : BitVec w} (inside : r.Has p) : ¬ q.Has p := by
  rintro ⟨low, high⟩
  obtain ⟨low', high'⟩ := inside
  rcases apart with before | after <;> omega

/-- In a region that does not wrap, a cell is known by its distance from the start. -/
theorem Region.has_iff_distance {r : Region w} (fits : r.start.toNat + r.size ≤ 2 ^ w) {p : BitVec w} :
    r.Has p ↔ (p - r.start).toNat < r.size := by
  have bound := p.isLt
  have bound' := r.start.isLt
  unfold Region.Has
  rw [BitVec.toNat_sub]
  by_cases above : r.start.toNat ≤ p.toNat
  · rw [show 2 ^ w - r.start.toNat + p.toNat = p.toNat - r.start.toNat + 2 ^ w by omega, Nat.add_mod_right,
      Nat.mod_eq_of_lt (by omega)]
    omega
  · rw [Nat.mod_eq_of_lt (by omega)]
    omega

/-- Nothing outside the region changes. -/
def ChangesOnly (r : Region w) (m m' : BitVec w → β) : Prop := ∀ p, ¬ r.Has p → m' p = m p

/-- A property of memories that looks at one region. -/
def Reads (r : Region w) (P : (BitVec w → β) → Prop) : Prop := ∀ m m', (∀ p, r.Has p → m' p = m p) → P m → P m'

/-- The frame rule. -/
theorem Reads.frame {r q : Region w} {P : (BitVec w → β) → Prop} (reads : Reads r P) (apart : r.Apart q)
    {m m' : BitVec w → β} (change : ChangesOnly q m m') (before : P m) : P m' :=
  reads m m' (fun _ inside => change _ (apart.outside inside)) before

section
variable (region : ι → Region w) (holds : ι → (BitVec w → β) → Prop)

/-- Every tenant has a region to itself, and finds there what it expects. -/
structure Housed (tenants : List ι) (m : BitVec w → β) : Prop where
  apart : tenants.Pairwise fun i j => (region i).Apart (region j)
  reads : ∀ i ∈ tenants, Reads (region i) (holds i)
  held : ∀ i ∈ tenants, holds i m

variable {region holds} {tenants : List ι} {m m' : BitVec w → β}

theorem Housed.nil : Housed region holds [] m :=
  ⟨List.Pairwise.nil, fun _ member => absurd member List.not_mem_nil, fun _ member => absurd member List.not_mem_nil⟩

/-- Stores into a region that is nobody's. -/
theorem Housed.stores (housed : Housed region holds tenants m) {q : Region w}
    (free : ∀ i ∈ tenants, (region i).Apart q) (change : ChangesOnly q m m') : Housed region holds tenants m' where
  apart := housed.apart
  reads := housed.reads
  held i member := (housed.reads i member).frame (free i member) change (housed.held i member)

/-- A tenant moves into a region that is nobody's, and stores what it expects there. -/
theorem Housed.arrives (housed : Housed region holds tenants m) {new : ι}
    (free : ∀ i ∈ tenants, (region i).Apart (region new)) (change : ChangesOnly (region new) m m')
    (reads : Reads (region new) (holds new)) (held : holds new m') : Housed region holds (tenants ++ [new]) m' := by
  have others := housed.stores free change
  refine ⟨List.pairwise_append.mpr ⟨others.apart, List.pairwise_singleton _ _, ?_⟩,
    List.forall_mem_append.mpr ⟨others.reads, ?_⟩, List.forall_mem_append.mpr ⟨others.held, ?_⟩⟩
  · intro i member j last
    rw [List.mem_singleton.mp last]
    exact free i member
  · exact List.forall_mem_singleton.mpr reads
  · exact List.forall_mem_singleton.mpr held

/-- Tenants leave. -/
theorem Housed.leaves (housed : Housed region holds tenants m) {rest : List ι} (fewer : rest.Sublist tenants) :
    Housed region holds rest m where
  apart := housed.apart.sublist fewer
  reads i member := housed.reads i (fewer.subset member)
  held i member := housed.held i (fewer.subset member)

/-- A change of the tenants' own records. -/
theorem Housed.map (housed : Housed region holds tenants m) (change : ι → ι) (same : ∀ i, region (change i) = region i)
    (expects : ∀ i m, holds (change i) m ↔ holds i m) : Housed region holds (tenants.map change) m where
  apart := by
    rw [List.pairwise_map]
    simpa only [same] using housed.apart
  reads := by
    refine List.forall_mem_map.mpr fun i member => ?_
    intro n n' agree held
    rw [same] at agree
    exact (expects i n').mpr (housed.reads i member n n' agree ((expects i n).mp held))
  held := List.forall_mem_map.mpr fun i member => (expects i m).mpr (housed.held i member)

end

end Regions
