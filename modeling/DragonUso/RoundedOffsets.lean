import DragonUso.WriterLayout

/-! Section lists of any alignment. Rounding an offset never lowers it as long as the sum that is
masked does not wrap, and then nothing is written in front of the section table. -/

namespace DragonUso.RoundedOffsets
open ByteOrder SparseFile WordAlign Format ToolCollect ToolWriter WriterLayout

/-- The sum `align_val` masks does not wrap. -/
def SumFits (val unit : U32) : Prop := val.toNat + (unit - 1).toNat < 2 ^ 32

theorem SumFits.le_alignVal {val unit : U32} (fits : SumFits val unit) : val.toNat ≤ (alignVal val unit).toNat :=
  le_roundMask fits

/-- Powers of two fit every offset of a file. -/
theorem sumFits_of_isPow2 {val unit : U32} (pow : IsPow2 unit) (bound : val.toNat ≤ 2 ^ 31) : SumFits val unit := by
  have positive := pow.pos
  have half := pow.le_half
  have low : (unit - 1).toNat = unit.toNat - 1 := pow.sub_one
  rw [SumFits, low]
  omega

/-- The data offsets of the loop that writes the sections are all rounded without a wrap. -/
def DataFits : List SectionInfo → U32 → Prop
  | [], _ => True
  | s :: rest, dataOfs =>
    (s.data.isSome → SumFits dataOfs s.align) ∧
      DataFits rest (if s.data.isSome then alignVal dataOfs s.align + s.size else dataOfs)

/-- No `align_val` of `uso_write_sections` wraps. -/
structure OffsetsFit (sectionsOfs : U32) (outSections : List SectionInfo) : Prop where
  start : SumFits (sectionsOfs + BitVec.ofNat 32 (outSections.length * 20)) (usoCalcDataStartAlignment outSections)
  data : DataFits outSections (dataStartOfs sectionsOfs outSections)
  relocs : SumFits (usoGetRelocOfs outSections (dataStartOfs sectionsOfs outSections)) 4

theorem dataFits_cons (sectionsOfs dataOfs : U32) (s : SectionInfo) (rest : List SectionInfo) :
    DataFits (s :: rest) dataOfs ↔
      (s.data.isSome → SumFits dataOfs s.align) ∧ DataFits rest (afterData sectionsOfs dataOfs s) := by
  rw [DataFits, afterData, writeSectionData]
  cases s.data <;> simp

/-! ### Powers of two -/

theorem dataFits_of_aligned {sectionsOfs : U32} {limit : Nat} (small : limit < 2 ^ 31) (outSections : List SectionInfo)
    (i : Nat) (dataOfs relocsOfs : U32) (aligned : AlignedData outSections)
    (bounded : Bounded limit (writeSectionLoop sectionsOfs i dataOfs relocsOfs outSections))
    (dataStart : dataOfs.toNat ≤ 2 ^ 31) : DataFits outSections dataOfs := by
  induction outSections generalizing i dataOfs relocsOfs with
  | nil => trivial
  | cons s rest ih =>
    rw [writeSectionLoop_cons] at bounded
    have own := aligned s List.mem_cons_self
    obtain ⟨-, top, -, -⟩ := writeSectionData_area small own dataStart bounded.left
    have later := ih (i + 1) (afterData sectionsOfs dataOfs s) _
      (fun t member => aligned t (List.mem_cons_of_mem _ member)) bounded.right.right.right.tail top
    exact (dataFits_cons sectionsOfs dataOfs s rest).mpr ⟨fun present => sumFits_of_isPow2 (own present) dataStart, later⟩

/-- The alignments `align_val` supports never wrap in a file below `2 ^ 31` bytes. -/
theorem offsetsFit_of_aligned {sectionsOfs : U32} {limit : Nat} {outSections : List SectionInfo} (small : limit < 2 ^ 31)
    (start : sectionsOfs.toNat ≤ 2 ^ 31) (aligned : AlignedData outSections)
    (bounded : Bounded limit (usoWriteSections sectionsOfs outSections)) : OffsetsFit sectionsOfs outSections := by
  have pow := dataStart_pow2 outSections aligned
  have tableEnd : (sectionsOfs + BitVec.ofNat 32 (outSections.length * 20)).toNat ≤ 2 ^ 31 := by
    by_cases empty : outSections = []
    · subst empty
      simp
      omega
    · have records := writeSectionLoop_records outSections 0 _ _ empty bounded
      have count : (BitVec.ofNat 32 (outSections.length * 20)).toNat = outSections.length * 20 :=
        toNat_ofNat_small (by omega)
      rw [toNat_add_small (by omega), count]
      omega
  obtain ⟨value, top⟩ := alignVal_toNat pow tableEnd
  have dataTop : (dataStartOfs sectionsOfs outSections).toNat ≤ 2 ^ 31 := by
    rw [dataStartOfs, value]
    exact top
  obtain ⟨-, dataEnd⟩ := usoGetRelocOfs_le small outSections 0 _ _ aligned bounded dataTop
  exact
    { start := sumFits_of_isPow2 pow tableEnd
      data := dataFits_of_aligned small outSections 0 _ _ aligned bounded dataTop
      relocs := sumFits_of_isPow2 pow2_four dataEnd }

/-! ### Where the writes start -/

/-- A relocation table is written at its offset, and the next one is not in front of it. -/
theorem writeRelocTable_from {sectionsOfs relocsOfs : U32} {limit : Nat} {relocs : List UsoReloc} (small : limit < 2 ^ 31)
    (bounded : Bounded limit (writeRelocTable sectionsOfs relocsOfs relocs).1) :
    relocsOfs.toNat ≤ (writeRelocTable sectionsOfs relocsOfs relocs).2.2.toNat ∧
    From relocsOfs.toNat (writeRelocTable sectionsOfs relocsOfs relocs).1 := by
  by_cases present : relocs.length > 0
  · have start : relocsOfs.toNat ≤ 2 ^ 31 := by
      have table := bounded
      rw [writeRelocTable, if_pos present] at table
      have stop := table.left.head (List.cons_ne_nil _ _)
      simp only [Write.stop, be32_length] at stop
      omega
    obtain ⟨up, -, within, -⟩ := writeRelocTable_area small start bounded
    exact ⟨up, fun w member _ => (within w member).1⟩
  · rw [writeRelocTable, if_neg present]
    exact ⟨Nat.le_refl _, fun w member => absurd member List.not_mem_nil⟩

/-- The same for the data of a section that is rounded without a wrap. -/
theorem writeSectionData_from {sectionsOfs dataOfs : U32} {limit : Nat} {s : SectionInfo} (small : limit < 2 ^ 31)
    (fits : s.data.isSome → SumFits dataOfs s.align) (bounded : Bounded limit (writeSectionData sectionsOfs dataOfs s).1) :
    dataOfs.toNat ≤ (afterData sectionsOfs dataOfs s).toNat ∧
    From dataOfs.toNat (writeSectionData sectionsOfs dataOfs s).1 := by
  unfold afterData writeSectionData at *
  cases found : s.data with
  | none => exact ⟨Nat.le_refl _, fun w member => absurd member List.not_mem_nil⟩
  | some bytes =>
    rw [found] at bounded
    have up := (fits (by rw [found]; rfl)).le_alignVal
    have size := s.data_length bytes found
    simp only
    refine ⟨?_, ?_⟩
    · by_cases empty : bytes = []
      · have zero : s.size = 0 := by
          apply BitVec.eq_of_toNat_eq
          rw [← size, empty]
          rfl
        rw [zero, show alignVal dataOfs s.align + 0 = alignVal dataOfs s.align from BitVec.add_zero _]
        exact up
      · have stop := bounded.head empty
        simp only [Write.stop, size] at stop
        rw [toNat_add_small (by omega)]
        omega
    · intro w member _
      rw [List.mem_singleton.mp member]
      exact up

theorem writeSectionLoop_from {sectionsOfs : U32} {limit : Nat} (small : limit < 2 ^ 31) (outSections : List SectionInfo)
    (i : Nat) (dataOfs relocsOfs : U32) (fits : DataFits outSections dataOfs)
    (bounded : Bounded limit (writeSectionLoop sectionsOfs i dataOfs relocsOfs outSections))
    (dataAfter : sectionsOfs.toNat ≤ dataOfs.toNat) (relocsAfter : sectionsOfs.toNat ≤ relocsOfs.toNat) :
    From sectionsOfs.toNat (writeSectionLoop sectionsOfs i dataOfs relocsOfs outSections) := by
  induction outSections generalizing i dataOfs relocsOfs with
  | nil => exact fun w member => absurd member List.not_mem_nil
  | cons s rest ih =>
    rw [writeSectionLoop_cons] at bounded ⊢
    obtain ⟨own, later⟩ := (dataFits_cons sectionsOfs dataOfs s rest).mp fits
    obtain ⟨dataUp, dataFrom⟩ := writeSectionData_from small own bounded.left
    obtain ⟨intUp, intFrom⟩ := writeRelocTable_from small bounded.right.left
    obtain ⟨extUp, extFrom⟩ := writeRelocTable_from small bounded.right.right.left
    rw [← afterInternal] at intUp
    rw [← afterExternal] at extUp
    have tail := ih (i + 1) _ _ later bounded.right.right.right.tail (Nat.le_trans dataAfter dataUp) (by omega)
    have record : From sectionsOfs.toNat
        (⟨sectionsOfs.toNat + i * 20, sectionBytes (sectionRecord sectionsOfs dataOfs relocsOfs s)⟩ ::
          writeSectionLoop sectionsOfs (i + 1) (afterData sectionsOfs dataOfs s) (afterExternal sectionsOfs relocsOfs s)
            rest) := From.cons (Nat.le_add_right _ _) tail
    exact (dataFrom.mono dataAfter).append
      ((intFrom.mono relocsAfter).append ((extFrom.mono (by omega)).append record))

/-- Where the data ends is not in front of where it starts. -/
theorem le_usoGetRelocOfs {sectionsOfs : U32} {limit : Nat} (small : limit < 2 ^ 31) (outSections : List SectionInfo)
    (i : Nat) (dataOfs relocsOfs : U32) (fits : DataFits outSections dataOfs)
    (bounded : Bounded limit (writeSectionLoop sectionsOfs i dataOfs relocsOfs outSections)) :
    dataOfs.toNat ≤ (usoGetRelocOfs outSections dataOfs).toNat := by
  induction outSections generalizing i dataOfs relocsOfs with
  | nil => exact Nat.le_refl _
  | cons s rest ih =>
    rw [writeSectionLoop_cons] at bounded
    rw [usoGetRelocOfs_cons sectionsOfs]
    obtain ⟨own, later⟩ := (dataFits_cons sectionsOfs dataOfs s rest).mp fits
    obtain ⟨up, -⟩ := writeSectionData_from small own bounded.left
    calc
      _ ≤ (afterData sectionsOfs dataOfs s).toNat := up
      _ ≤ _ := ih (i + 1) _ _ later bounded.right.right.right.tail

/-- Nothing is written in front of the section table. -/
theorem usoWriteSections_from {sectionsOfs : U32} {limit : Nat} {outSections : List SectionInfo} (small : limit < 2 ^ 31)
    (fits : OffsetsFit sectionsOfs outSections) (bounded : Bounded limit (usoWriteSections sectionsOfs outSections)) :
    From sectionsOfs.toNat (usoWriteSections sectionsOfs outSections) := by
  by_cases empty : outSections = []
  · subst empty
    exact fun w member => absurd member List.not_mem_nil
  · have records := writeSectionLoop_records outSections 0 _ _ empty bounded
    have count : (BitVec.ofNat 32 (outSections.length * 20)).toNat = outSections.length * 20 :=
      toNat_ofNat_small (by omega)
    have tableEnd : (sectionsOfs + BitVec.ofNat 32 (outSections.length * 20)).toNat =
        sectionsOfs.toNat + outSections.length * 20 := by
      rw [toNat_add_small (by omega), count]
    have dataAfter : sectionsOfs.toNat ≤ (dataStartOfs sectionsOfs outSections).toNat := by
      have up := fits.start.le_alignVal
      rw [dataStartOfs]
      omega
    have relocsAfter : sectionsOfs.toNat ≤ (relocsStartOfs sectionsOfs outSections).toNat :=
      calc
        _ ≤ (dataStartOfs sectionsOfs outSections).toNat := dataAfter
        _ ≤ (usoGetRelocOfs outSections (dataStartOfs sectionsOfs outSections)).toNat :=
          le_usoGetRelocOfs small outSections 0 _ _ fits.data bounded
        _ ≤ _ := fits.relocs.le_alignVal
    exact writeSectionLoop_from small outSections 0 _ _ fits.data bounded dataAfter relocsAfter

end DragonUso.RoundedOffsets
