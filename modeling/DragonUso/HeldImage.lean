import DragonUso.InPlaceLinking

/-! An image in memory: what is read at a distance from the block's address is what the image has at
that offset, and a store into one record leaves the fields of the others alone. -/

namespace DragonUso.HeldImage
open ByteOrder SparseFile WordMemory Records Format LoaderImage Relocation InPlace InPlaceLinking

/-- The bytes of an image from one offset up to another lie in the block. -/
def Holds (memory : Memory) (block : U32) (image : Bytes) (low high : Nat) : Prop :=
  ∀ d, low ≤ d → d < high → memory (field block d) = byteAt image d

/-- The image lies in the block as it was read from the file. -/
def HoldsImage (memory : Memory) (block : U32) (image : Bytes) : Prop := Holds memory block image 0 image.length

theorem Holds.within {memory : Memory} {block : U32} {image : Bytes} {low high low' high' : Nat}
    (holds : Holds memory block image low high) (above : low ≤ low') (below : high' ≤ high) :
    Holds memory block image low' high' :=
  fun d up down => holds d (Nat.le_trans above up) (Nat.lt_of_lt_of_le down below)

theorem Holds.same {memory memory' : Memory} {block : U32} {image : Bytes} {low high : Nat}
    (holds : Holds memory block image low high) (same : SameBytes block low high memory memory') :
    Holds memory' block image low high := fun d above below => (same d above below).trans (holds d above below)

section
variable {memory : Memory} {block : U32} {image : Bytes}

theorem Holds.readWord {ofs : Nat} (holds : Holds memory block image ofs (ofs + 4)) :
    readWord memory (field block ofs) = readU32 image ofs := by
  have cell : ∀ k : U32, k.toNat < 4 → memory (field block ofs + k) = byteAt image (ofs + k.toNat) := by
    intro k small
    rw [field_add]
    exact holds _ (Nat.le_add_right _ _) (by omega)
  have first := holds ofs (Nat.le_refl _) (by omega)
  unfold WordMemory.readWord
  rw [first, cell 1 (by decide), cell 2 (by decide), cell 3 (by decide)]
  rfl

theorem Holds.readHalf {ofs : Nat} (holds : Holds memory block image ofs (ofs + 2)) :
    readHalf memory (field block ofs) = readU16 image ofs := by
  have one : (1 : U32).toNat = 1 := rfl
  unfold Records.readHalf
  rw [holds ofs (Nat.le_refl _) (by omega), field_add, one, holds (ofs + 1) (by omega) (by omega)]
  rfl

theorem Holds.sectionRecord {ofs : Nat} (holds : Holds memory block image ofs (ofs + 20)) :
    sectionRecordAt memory (field block ofs) = readSection image ofs := by
  have word : ∀ k, k + 4 ≤ 20 → WordMemory.readWord memory (field block (ofs + k)) = readU32 image (ofs + k) :=
    fun k inside => (holds.within (by omega) (by omega)).readWord
  simp only [sectionRecordAt, field_field, word 4 (by omega), word 8 (by omega), word 12 (by omega),
    word 16 (by omega), (holds.within (Nat.le_refl _) (by omega)).readWord, readSection]

theorem Holds.relocRecord {ofs : Nat} (holds : Holds memory block image ofs (ofs + 12)) :
    relocRecordAt memory (field block ofs) = readReloc image ofs := by
  have word : ∀ k, k + 4 ≤ 12 → WordMemory.readWord memory (field block (ofs + k)) = readU32 image (ofs + k) :=
    fun k inside => (holds.within (by omega) (by omega)).readWord
  simp only [relocRecordAt, field_field, word 4 (by omega), word 8 (by omega),
    (holds.within (Nat.le_refl _) (by omega)).readWord, readReloc]

theorem cStringFrom_eq {fuel ofs : Nat} (inside : ofs + (cString image ofs).length < image.length)
    (holds : Holds memory block image ofs (ofs + (cString image ofs).length + 1))
    (enough : (cString image ofs).length < fuel) : cStringFrom memory fuel (field block ofs) = cString image ofs := by
  induction fuel generalizing ofs with
  | zero => omega
  | succ fuel ih =>
    have start : ofs < image.length := by omega
    have here : memory (field block ofs) = image[ofs] := by
      rw [holds ofs (Nat.le_refl _) (by omega), byteAt, List.getD_eq_getElem?_getD, List.getElem?_eq_getElem start]
      rfl
    have split : cString image ofs = if image[ofs] = 0 then [] else image[ofs] :: cString image (ofs + 1) := by
      unfold cString
      rw [List.drop_eq_getElem_cons start, List.takeWhile_cons]
      by_cases zero : image[ofs] = 0 <;> simp [zero]
    rw [cStringFrom, here, field_field]
    rw [split] at inside holds enough ⊢
    by_cases zero : image[ofs] = 0
    · rw [if_pos zero, if_pos zero]
    · rw [if_neg zero, List.length_cons] at inside holds enough
      rw [if_neg zero, if_neg zero, ih (by omega) (holds.within (by omega) (by omega)) (by omega)]

/-- A string of the image is read where it lies. -/
theorem Holds.cString {ofs : Nat} (inside : ofs + (cString image ofs).length < image.length)
    (small : image.length < 2 ^ 32) (holds : Holds memory block image ofs (ofs + (LoaderImage.cString image ofs).length + 1)) :
    cStringAt memory (field block ofs) = LoaderImage.cString image ofs :=
  cStringFrom_eq inside holds (by omega)

end

end DragonUso.HeldImage
