import DragonUso.Library.ByteOrder

/-! A byte memory with 32-bit addresses, and big-endian words at any address, aligned or not.
Addresses wrap, so a word is the set of its four cells and not an interval. -/

namespace WordMemory
open ByteOrder

abbrev Memory := BitVec 32 → Byte

def readWord (memory : Memory) (a : BitVec 32) : BitVec 32 :=
  join32 (memory a) (memory (a + 1)) (memory (a + 2)) (memory (a + 3))

/-- Whether the cell `p` belongs to the word at `a`. -/
def inWord (a p : BitVec 32) : Bool := p - a < 4

/-- The byte a big-endian store of `value` at `a` puts into the cell `p` of the word. -/
def wordByte (value a p : BitVec 32) : Byte := value.extractLsb' (24 - 8 * (p - a).toNat) 8

/-- Two words without a common cell. -/
def WordsApart (a b : BitVec 32) : Prop := ∀ p, inWord a p → inWord b p = false

theorem WordsApart.symm {a b : BitVec 32} (apart : WordsApart a b) : WordsApart b a := by
  intro p second
  cases first : inWord a p with
  | false => rfl
  | true => exact absurd second (by simp [apart p first])

private theorem cell_offset (a k : BitVec 32) : a + k - a = k := by
  rw [BitVec.add_comm, BitVec.add_sub_cancel]

theorem inWord_self (a : BitVec 32) : inWord a a := by simp [inWord]

theorem inWord_add (a : BitVec 32) {k : BitVec 32} (small : k < 4) : inWord a (a + k) := by
  simpa [inWord, cell_offset] using small

theorem wordsApart_of_le {a b : BitVec 32} (above : 4 ≤ b - a) (below : 4 ≤ a - b) : WordsApart a b := by
  intro p first
  simp only [inWord, decide_eq_true_eq, decide_eq_false_iff_not] at first ⊢
  bv_omega

theorem readWord_congr {m n : Memory} {a : BitVec 32} (same : ∀ p, inWord a p → m p = n p) :
    readWord m a = readWord n a := by
  unfold readWord
  rw [same a (inWord_self a), same _ (inWord_add a (by decide)), same _ (inWord_add a (by decide)),
    same _ (inWord_add a (by decide))]

/-- A memory that holds the bytes of `value` in the word at `a` reads `value` there. -/
theorem readWord_of_wordByte {m : Memory} {a value : BitVec 32} (stored : ∀ p, inWord a p → m p = wordByte value a p) :
    readWord m a = value := by
  have cell : ∀ k : BitVec 32, k < 4 → m (a + k) = value.extractLsb' (24 - 8 * k.toNat) 8 := by
    intro k small
    rw [stored _ (inWord_add a small), wordByte, cell_offset]
  have zero : m a = value.extractLsb' 24 8 := by simpa using cell 0 (by decide)
  unfold readWord
  rw [zero, cell 1 (by decide), cell 2 (by decide), cell 3 (by decide)]
  exact join32_extract value

end WordMemory
