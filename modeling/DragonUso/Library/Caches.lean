import Mathlib.Logic.Relation
import DragonUso.Library.Regions

/-! A memory behind two caches that do not know of each other: stores stay in the data cache until they are
written back, and the instruction cache goes on with what it was filled with. The hardware writes back,
fills and evicts as it likes, so code that was stored can be fetched safely only after both are flushed. -/

namespace Caches
open Regions

variable {w : Nat} {β : Type}

/-- `data` has the stores that were not written back, `code` what the instruction cache holds. -/
structure CachedMemory (w : Nat) (β : Type) where
  ram : BitVec w → β
  data : BitVec w → Option β
  code : BitVec w → Option β

/-- What a load finds. -/
def CachedMemory.loads (c : CachedMemory w β) : BitVec w → β := fun p => (c.data p).getD (c.ram p)

/-- What an instruction fetch finds. -/
def CachedMemory.fetches (c : CachedMemory w β) : BitVec w → β := fun p => (c.code p).getD (c.ram p)

/-- `store` is any number of stores, given by the memory they lead to. -/
inductive Op (w : Nat) (β : Type) where
  | store (m : BitVec w → β)
  | writeBack (r : Region w)
  | invalidate (r : Region w)

def CachedMemory.perform [DecidableEq β] (c : CachedMemory w β) : Op w β → CachedMemory w β
  | .store m => { c with data := fun p => if m p = c.loads p then c.data p else some (m p) }
  | .writeBack r =>
    { c with
      ram := fun p => if r.Has p then c.loads p else c.ram p
      data := fun p => if r.Has p then none else c.data p }
  | .invalidate r => { c with code := fun p => if r.Has p then none else c.code p }

/-- Both caches are flushed, region by region. -/
def flushOps (regions : List (Region w)) : List (Op w β) := regions.flatMap fun r => [.writeBack r, .invalidate r]

variable [DecidableEq β]

/-- What the hardware may do at any moment. -/
inductive Hardware : CachedMemory w β → CachedMemory w β → Prop where
  | writeBack (c : CachedMemory w β) (r : Region w) : Hardware c (c.perform (.writeBack r))
  | evict (c : CachedMemory w β) (r : Region w) : Hardware c (c.perform (.invalidate r))
  | fill (c : CachedMemory w β) (r : Region w) : Hardware c { c with code := fun p => if r.Has p then some (c.ram p) else c.code p }

/-- Operations in their order, with the hardware at work before, between and after them. -/
inductive Executes : List (Op w β) → CachedMemory w β → CachedMemory w β → Prop where
  | done {c c' : CachedMemory w β} : Relation.ReflTransGen Hardware c c' → Executes [] c c'
  | next {c c₁ c' : CachedMemory w β} {op : Op w β} {rest : List (Op w β)} : Relation.ReflTransGen Hardware c c₁ →
    Executes rest (c₁.perform op) c' → Executes (op :: rest) c c'

/-- A cell whose last store has reached the memory. -/
def Written (c : CachedMemory w β) (p : BitVec w) : Prop := c.data p = none

/-- A cell that fetches and loads see alike, whatever the hardware does. -/
structure Clean (c : CachedMemory w β) (p : BitVec w) : Prop where
  written : Written c p
  code : ∀ x, c.code p = some x → x = c.ram p

section
variable {c c' : CachedMemory w β} {p : BitVec w}

omit [DecidableEq β] in
theorem Clean.fetches (clean : Clean c p) : c.fetches p = c.loads p := by
  have memory : c.loads p = c.ram p := by rw [CachedMemory.loads, clean.written, Option.getD_none]
  rw [memory, CachedMemory.fetches]
  cases held : c.code p with
  | none => rfl
  | some x => exact clean.code x held

/-! ### One operation -/

theorem loads_store (c : CachedMemory w β) (m : BitVec w → β) : (c.perform (.store m)).loads = m := by
  funext q
  by_cases same : m q = c.loads q
  · have stays : (c.perform (.store m)).data q = c.data q := if_pos same
    rw [CachedMemory.loads, stays]
    exact same.symm
  · have stored : (c.perform (.store m)).data q = some (m q) := if_neg same
    rw [CachedMemory.loads, stored, Option.getD_some]

theorem loads_writeBack (c : CachedMemory w β) (r : Region w) : (c.perform (.writeBack r)).loads = c.loads := by
  funext q
  simp only [CachedMemory.loads, CachedMemory.perform]
  split <;> rfl

theorem loads_invalidate (c : CachedMemory w β) (r : Region w) : (c.perform (.invalidate r)).loads = c.loads := rfl

theorem Hardware.loads (step : Hardware c c') : c'.loads = c.loads := by
  cases step with
  | writeBack r => exact loads_writeBack c r
  | evict => rfl
  | fill => rfl

theorem Written.writeBack (written : Written c p) (r : Region w) : Written (c.perform (.writeBack r)) p := by
  simp only [Written, CachedMemory.perform]
  split
  · rfl
  · exact written

theorem Written.hardware (written : Written c p) (step : Hardware c c') : Written c' p := by
  cases step with
  | writeBack r => exact written.writeBack r
  | evict => exact written
  | fill => exact written

theorem Clean.writeBack (clean : Clean c p) (r : Region w) : Clean (c.perform (.writeBack r)) p where
  written := clean.written.writeBack r
  code := by
    intro x held
    have memory : c.loads p = c.ram p := by rw [CachedMemory.loads, clean.written, Option.getD_none]
    simp only [CachedMemory.perform, memory, ite_self]
    exact clean.code x held

theorem Clean.invalidate (clean : Clean c p) (r : Region w) : Clean (c.perform (.invalidate r)) p where
  written := clean.written
  code := by
    intro x held
    simp only [CachedMemory.perform] at held ⊢
    split at held
    · cases held
    · exact clean.code x held

theorem Clean.hardware (clean : Clean c p) (step : Hardware c c') : Clean c' p := by
  cases step with
  | writeBack r => exact clean.writeBack r
  | evict r => exact clean.invalidate r
  | fill r =>
    refine ⟨clean.written, fun x held => ?_⟩
    simp only at held
    split at held
    · exact (Option.some.inj held).symm
    · exact clean.code x held

/-- Stores elsewhere leave a cell clean. -/
theorem Clean.store (clean : Clean c p) {m : BitVec w → β} (same : m p = c.loads p) : Clean (c.perform (.store m)) p where
  written := by
    simp only [Written, CachedMemory.perform, if_pos same]
    exact clean.written
  code := clean.code

/-- A cell that was written back is clean once the instruction cache has lost it. -/
theorem Written.invalidate (written : Written c p) {r : Region w} (inside : r.Has p) : Clean (c.perform (.invalidate r)) p where
  written := written
  code := by
    intro x held
    simp only [CachedMemory.perform, if_pos inside] at held
    cases held

theorem written_writeBack (c : CachedMemory w β) {r : Region w} (inside : r.Has p) : Written (c.perform (.writeBack r)) p := by
  simp only [Written, CachedMemory.perform, if_pos inside]

/-! ### Runs of the hardware and of flushes -/

theorem loads_hardware (run : Relation.ReflTransGen Hardware c c') : c'.loads = c.loads := by
  induction run with
  | refl => rfl
  | tail _ step ih => exact step.loads.trans ih

theorem Written.run (run : Relation.ReflTransGen Hardware c c') (written : Written c p) : Written c' p := by
  induction run with
  | refl => exact written
  | tail _ step ih => exact ih.hardware step

theorem Clean.run (run : Relation.ReflTransGen Hardware c c') (clean : Clean c p) : Clean c' p := by
  induction run with
  | refl => exact clean
  | tail _ step ih => exact ih.hardware step

/-- A flush changes nothing that loads see, keeps clean what is clean, and cleans its regions. -/
theorem flushOps_cleans {regions : List (Region w)} (runs : Executes (flushOps regions) c c') :
    c'.loads = c.loads ∧ ∀ q, Clean c q ∨ (∃ r ∈ regions, r.Has q) → Clean c' q := by
  induction regions generalizing c with
  | nil =>
    cases runs with
    | done run =>
      refine ⟨loads_hardware run, fun q before => ?_⟩
      rcases before with clean | ⟨r, member, -⟩
      · exact clean.run run
      · exact absurd member List.not_mem_nil
  | cons r rest ih =>
    cases runs with
    | @next _ c₁ _ _ _ first later =>
      cases later with
      | @next _ c₂ _ _ _ second after =>
        obtain ⟨loads, cleans⟩ := ih after
        refine ⟨?_, fun q before => cleans q ?_⟩
        · calc
            c'.loads = (c₂.perform (.invalidate r)).loads := loads
            _ = c₂.loads := loads_invalidate c₂ r
            _ = (c₁.perform (.writeBack r)).loads := loads_hardware second
            _ = c₁.loads := loads_writeBack c₁ r
            _ = c.loads := loads_hardware first
        · rcases before with clean | ⟨own, member, inside⟩
          · exact .inl ((((clean.run first).writeBack r).run second).invalidate r)
          · rcases List.mem_cons.mp member with rfl | inRest
            · exact .inl (((written_writeBack c₁ inside).run second).invalidate inside)
            · exact .inr ⟨own, inRest, inside⟩

/-- Stores and then a flush: loads find what was stored, and clean are the regions that were flushed and
what was clean before and was not stored to. -/
theorem storeFlush_cleans {regions : List (Region w)} {m : BitVec w → β}
    (runs : Executes (.store m :: flushOps regions) c c') :
    c'.loads = m ∧ ∀ q, (Clean c q ∧ m q = c.loads q) ∨ (∃ r ∈ regions, r.Has q) → Clean c' q := by
  cases runs with
  | @next _ c₁ _ _ _ first later =>
    obtain ⟨loads, cleans⟩ := flushOps_cleans later
    refine ⟨loads.trans (loads_store c₁ m), fun q before => cleans q ?_⟩
    rcases before with ⟨clean, same⟩ | flushed
    · exact .inl ((clean.run first).store (same.trans (congrFun (loads_hardware first) q).symm))
    · exact .inr flushed

/-- Without the hardware's help the operations are simply performed. -/
theorem executes_foldl (ops : List (Op w β)) (c : CachedMemory w β) : Executes ops c (ops.foldl CachedMemory.perform c) := by
  induction ops generalizing c with
  | nil => exact .done .refl
  | cons op rest ih => exact .next .refl (ih (c.perform op))

end

end Caches
