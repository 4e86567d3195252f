import Mathlib.Data.List.Perm.Basic
import Mathlib.Data.List.Nodup
import DragonUso.Library.Regions

/-! A client of an allocator, with a ledger of what it was given and has not given back. The allocator
promises that a new region is apart from those in the ledger; whether the client keeps its side, and gives
back only what it holds, is what the ledger records. -/

namespace Regions

variable {w : Nat}

/-- What passes between the client and the allocator. -/
inductive Transfer (w : Nat) where
  | take (align : Nat) (r : Region w)
  | give (start : BitVec w)

/-- `wrong` is set once something was given back that was not held. -/
structure Ledger (w : Nat) where
  live : List (Region w)
  wrong : Bool

def Ledger.post (l : Ledger w) : Transfer w → Ledger w
  | .take _ r => { l with live := l.live ++ [r] }
  | .give start =>
    { live := l.live.filter fun r => r.start != start
      wrong := l.wrong || !(l.live.any fun r => r.start == start) }

def Ledger.postAll (l : Ledger w) (transfers : List (Transfer w)) : Ledger w := transfers.foldl Ledger.post l

/-- What the allocator promises of a region it hands out: it is not at NULL, it does not wrap, and it is not in use. -/
structure Granted (live : List (Region w)) (align : Nat) (r : Region w) : Prop where
  nonnull : r.start ≠ 0
  aligned : align ∣ r.start.toNat
  ends : r.start.toNat + r.size < 2 ^ w
  apart : ∀ q ∈ live, q.Apart r ∧ q.start ≠ r.start

/-- The promise for every region taken, as the ledger stands at that moment. -/
def Promised : Ledger w → List (Transfer w) → Prop
  | _, [] => True
  | l, .take align r :: rest => Granted l.live align r ∧ Promised (l.post (.take align r)) rest
  | l, .give start :: rest => Promised (l.post (.give start)) rest

/-- The ledger holds just these regions, each under its own address, and nothing has gone wrong. -/
structure Books (l : Ledger w) (owned : List (Region w)) : Prop where
  live : l.live.Perm owned
  told : (owned.map Region.start).Nodup
  right : l.wrong = false

section
variable {l : Ledger w} {owned owned' : List (Region w)} {r : Region w} {align : Nat}

theorem Books.perm (books : Books l owned) (same : owned.Perm owned') : Books l owned' :=
  ⟨books.live.trans same, ((same.map Region.start).nodup_iff).mp books.told, books.right⟩

theorem Books.take (books : Books l owned) (granted : Granted l.live align r) : Books (l.post (.take align r)) (r :: owned) where
  live := (List.perm_append_singleton r l.live).trans (books.live.cons r)
  told := by
    rw [List.map_cons, List.nodup_cons]
    refine ⟨fun listed => ?_, books.told⟩
    obtain ⟨q, inLedger, same⟩ := List.mem_map.mp listed
    exact (granted.apart q (books.live.mem_iff.mpr inLedger)).2 same
  right := books.right

theorem Books.give (books : Books l (r :: owned)) : Books (l.post (.give r.start)) owned where
  live := by
    have fresh : r.start ∉ owned.map Region.start := (List.nodup_cons.mp books.told).1
    have others : owned.filter (fun q => q.start != r.start) = owned := by
      apply List.filter_eq_self.mpr
      intro q member
      exact bne_iff_ne.mpr fun same => fresh (same ▸ List.mem_map_of_mem member)
    have rest := books.live.filter fun q => q.start != r.start
    rwa [List.filter_cons_of_neg (by simp), others] at rest
  told := (List.nodup_cons.mp books.told).2
  right := by
    have held : (l.live.any fun q => q.start == r.start) = true :=
      List.any_eq_true.mpr ⟨r, books.live.mem_iff.mpr List.mem_cons_self, beq_self_eq_true r.start⟩
    rw [Ledger.post, books.right, held]
    rfl

theorem Ledger.postAll_append (l : Ledger w) (first second : List (Transfer w)) :
    l.postAll (first ++ second) = (l.postAll first).postAll second := List.foldl_append

theorem promised_append {first second : List (Transfer w)} :
    Promised l (first ++ second) ↔ Promised l first ∧ Promised (l.postAll first) second := by
  induction first generalizing l with
  | nil => exact (iff_of_eq (true_and _)).symm
  | cons t rest ih =>
    cases t with
    | take align r => exact (and_congr_right fun _ => ih).trans and_assoc.symm
    | give start => exact ih

theorem Books.takeAll (books : Books l owned) {regions : List (Region w)}
    (promised : Promised l (regions.map (.take align))) :
    Books (l.postAll (regions.map (.take align))) (owned ++ regions) := by
  induction regions generalizing l owned with
  | nil => rwa [List.map_nil, List.append_nil]
  | cons r rest ih =>
    obtain ⟨granted, later⟩ := promised
    exact (ih (books.take granted) later).perm List.perm_middle.symm

end

end Regions
