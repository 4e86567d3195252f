import DragonUso.SectionAlignment
import DragonUso.RelocSafety

/-! Where the sections of a file of the tool lie once it is loaded. Sections with data follow each
other in the image; the others follow the image, and stay in the block when none of them is padded. -/

namespace DragonUso.SectionPlacement
open ByteOrder SparseFile WordAlign Format ElfFile ToolCollect ToolWriter WriterLayout LoaderImage FileLayout RoundTrip
open NoloadLayout SectionAlignment Relocation SymbolSearch Loader LoaderSteps ProducedFile RelocSafety

/-! ### In the file -/

/-- The data of the first section ends before that of the second begins. -/
def DataBefore (sections : U32) (first second : SectionInfo × UsoSection) : Prop :=
  first.1.data.isSome → second.1.data.isSome →
    (sections + first.2.data).toNat + first.1.size.toNat ≤ (sections + second.2.data).toNat

/-- A data write lies between the running offset before it and the one after it. -/
theorem sectionRecord_between {sections dataOfs : U32} (relocsOfs : U32) {limit : Nat} {s : SectionInfo}
    (small : limit < 2 ^ 31) (aligned : s.data.isSome → IsPow2 s.align) (start : dataOfs.toNat ≤ 2 ^ 31)
    (bounded : Bounded limit (writeSectionData sections dataOfs s).1) (present : s.data.isSome) :
    dataOfs.toNat ≤ (sections + (sectionRecord sections dataOfs relocsOfs s).data).toNat ∧
      (sections + (sectionRecord sections dataOfs relocsOfs s).data).toNat + s.size.toNat ≤
        (afterData sections dataOfs s).toNat := by
  obtain ⟨-, -, within, -⟩ := writeSectionData_area small aligned start bounded
  obtain ⟨bytes, found⟩ := Option.isSome_iff_exists.mp present
  have place : sections + (sectionRecord sections dataOfs relocsOfs s).data = alignVal dataOfs s.align := by
    simp only [sectionRecord, writeSectionData, found, add_sub_back]
  have own := within ⟨(alignVal dataOfs s.align).toNat, bytes⟩ (by simp only [writeSectionData, found]; exact List.mem_singleton_self _)
  simp only [Write.stop, s.data_length bytes found] at own
  rw [place]
  exact own

theorem sectionRecords_ascending {sections : U32} {limit : Nat} (small : limit < 2 ^ 31) (outSections : List SectionInfo)
    (i : Nat) (dataOfs relocsOfs : U32) (aligned : AlignedData outSections)
    (bounded : Bounded limit (writeSectionLoop sections i dataOfs relocsOfs outSections)) (start : dataOfs.toNat ≤ 2 ^ 31) :
    (∀ e ∈ outSections.zip (sectionRecords sections dataOfs relocsOfs outSections),
      e.1.data.isSome → dataOfs.toNat ≤ (sections + e.2.data).toNat) ∧
    (outSections.zip (sectionRecords sections dataOfs relocsOfs outSections)).Pairwise (DataBefore sections) := by
  induction outSections generalizing i dataOfs relocsOfs with
  | nil => exact ⟨fun e member => absurd member List.not_mem_nil, List.Pairwise.nil⟩
  | cons s rest ih =>
    rw [writeSectionLoop_cons] at bounded
    rw [sectionRecords, List.zip_cons_cons]
    have own := aligned s List.mem_cons_self
    obtain ⟨up, top, -, -⟩ := writeSectionData_area small own start bounded.left
    obtain ⟨above, later⟩ := ih (i + 1) (afterData sections dataOfs s) _
      (fun t member => aligned t (List.mem_cons_of_mem _ member)) bounded.right.right.right.tail top
    refine ⟨List.forall_mem_cons.mpr ⟨fun present => ?_, fun e member present => ?_⟩, List.Pairwise.cons ?_ later⟩
    · exact (sectionRecord_between relocsOfs small own start bounded.left present).1
    · exact Nat.le_trans up (above e member present)
    · intro e member present present'
      exact Nat.le_trans (sectionRecord_between relocsOfs small own start bounded.left present).2 (above e member present')

section
variable {tool : Elf2uso} {srcElfName : Bytes}

/-- The records the loader reads are those of the writer's loop. -/
theorem storedSections_usoWrite (writable : Writable tool srcElfName) :
    storedSections (usoImage (usoWrite tool srcElfName)) =
      sectionRecords (writtenHeader tool srcElfName).sections
        (dataStartOfs (writtenHeader tool srcElfName).sections tool.outSections)
        (relocsStartOfs (writtenHeader tool srcElfName).sections tool.outSections) tool.outSections := by
  have read := readSections_eq tool.outSections 0 _ _ writable.survives.parts.sections
  rw [Nat.mul_zero, Nat.add_zero] at read
  rw [storedSections, numSections_usoWrite writable, readHeader_usoWrite writable, read]

/-- In the file the data of sections lies in their order. -/
theorem storedSections_ascending (writable : Writable tool srcElfName) :
    (tool.outSections.zip (storedSections (usoImage (usoWrite tool srcElfName)))).Pairwise
      (DataBefore (writtenHeader tool srcElfName).sections) := by
  have part := (boundedParts (bounded_image writable)).sections
  have small := usoImage_lt writable
  have offsets := sectionOffsets small writable.sections_ne_nil writable.alignedData part
  rw [storedSections_usoWrite writable]
  exact (sectionRecords_ascending small tool.outSections 0 _ _ writable.alignedData part offsets.data_le).2

/-! ### In memory -/

/-- The tables of sections of a loaded file, side by side: what the tool collected, and what is loaded. -/
theorem section_data (writable : Writable tool srcElfName) (base noload : U32) {k : Nat} {info : SectionInfo}
    (at_k : tool.outSections[k + 1]? = some info) (present : info.data.isSome) :
    ∃ r sec, (storedSections (usoImage (usoWrite tool srcElfName)))[k + 1]? = some r ∧
      (loadedSections (usoImage (usoWrite tool srcElfName)) base noload)[k + 1]? = some sec ∧
      sec.data - base = (writtenHeader tool srcElfName).sections + r.data ∧ sec.dataSize = info.size := by
  obtain ⟨bytes, found⟩ := Option.isSome_iff_exists.mp present
  obtain ⟨r, stored, describes⟩ := forall₂_getElem? (sections_usoWrite writable) at_k
  have fixed := fixupSectionTable_loaded (ptrFixup (readHeader (usoImage (usoWrite tool srcElfName))).sections base)
    noload _ k r stored (describes.loaded bytes found).1
  have inTable : (loadedSections (usoImage (usoWrite tool srcElfName)) base noload)[k + 1]? =
      some (loadedSection (usoImage (usoWrite tool srcElfName)) base
        (fixupSection (ptrFixup (readHeader (usoImage (usoWrite tool srcElfName))).sections base) r)) := by
    rw [loadedSections, List.getElem?_map, fixedSections, fixed]
    rfl
  refine ⟨r, _, stored, inTable, ?_, ?_⟩
  · rw [← ptrFixup_sub base, ← readHeader_usoWrite writable]
    rfl
  · exact describes.size

/-- A section with data lies in the image. -/
theorem data_inside (writable : Writable tool srcElfName) {base noload : U32} {k : Nat} {info : SectionInfo}
    {sec : LoadedSection} (at_k : tool.outSections[k + 1]? = some info) (present : info.data.isSome)
    (found : (loadedSections (usoImage (usoWrite tool srcElfName)) base noload)[k + 1]? = some sec)
    (some : info.size ≠ 0) :
    0 < (sec.data - base).toNat ∧ (sec.data - base).toNat + sec.dataSize.toNat ≤ (usoImage (usoWrite tool srcElfName)).length := by
  obtain ⟨r, sec', stored, found', place, size⟩ := section_data writable base noload at_k present
  obtain rfl : sec = sec' := Option.some.inj (found.symm.trans found')
  obtain ⟨bytes, data⟩ := Option.isSome_iff_exists.mp present
  obtain ⟨other, stored', placed⟩ := forall₂_getElem? (storedSections_placed writable) at_k
  obtain rfl : r = other := Option.some.inj (stored.symm.trans stored')
  obtain ⟨other, stored', describes⟩ := forall₂_getElem? (sections_usoWrite writable) at_k
  obtain rfl : r = other := Option.some.inj (stored.symm.trans stored')
  have length := info.data_length bytes data
  have zero : (0 : U32).toNat = 0 := rfl
  have nonempty : bytes ≠ [] := by
    rintro rfl
    exact some (BitVec.eq_of_toNat_eq (by rw [← length, zero]; rfl))
  have low := (describes.loaded bytes data).2.1
  rw [readHeader_usoWrite writable] at low
  rw [place, size, ← length]
  exact ⟨low, placed.inside bytes data nonempty⟩

/-- Sections with data do not share bytes. -/
theorem data_apart (writable : Writable tool srcElfName) {base noload : U32} {j k : Nat} {s t : SectionInfo}
    {first second : LoadedSection} (order : j < k) (at_j : tool.outSections[j + 1]? = some s)
    (at_k : tool.outSections[k + 1]? = some t) (present : s.data.isSome) (present' : t.data.isSome)
    (found : (loadedSections (usoImage (usoWrite tool srcElfName)) base noload)[j + 1]? = some first)
    (found' : (loadedSections (usoImage (usoWrite tool srcElfName)) base noload)[k + 1]? = some second) :
    (first.data - base).toNat + first.dataSize.toNat ≤ (second.data - base).toNat := by
  obtain ⟨r, first', stored, same, place, size⟩ := section_data writable base noload at_j present
  obtain rfl : first = first' := Option.some.inj (found.symm.trans same)
  obtain ⟨q, second', stored', same', place', -⟩ := section_data writable base noload at_k present'
  obtain rfl : second = second' := Option.some.inj (found'.symm.trans same')
  have ascending := List.pairwise_iff_getElem.mp (storedSections_ascending writable)
  obtain ⟨inside, at_j⟩ := List.getElem?_eq_some_iff.mp at_j
  obtain ⟨inside', at_k⟩ := List.getElem?_eq_some_iff.mp at_k
  obtain ⟨within, stored⟩ := List.getElem?_eq_some_iff.mp stored
  obtain ⟨within', stored'⟩ := List.getElem?_eq_some_iff.mp stored'
  have before := ascending (j + 1) (k + 1) (by rw [List.length_zip]; omega) (by rw [List.length_zip]; omega) (by omega)
  rw [List.getElem_zip, List.getElem_zip, at_j, at_k, stored, stored'] at before
  rw [place, place', size]
  exact before present present'

end

section
variable {sort : SymSort} {elf : Elf} {tool : Elf2uso} {srcElfName : Bytes}

/-- What the allocator promises of a block for a file. -/
structure BlockGiven (file : Bytes) (block : U32) : Prop where
  aligned : (getUsoRamAlign (readLoadInfo file)).toNat ∣ block.toNat
  ends : block.toNat + (getUsoRamSize (readLoadInfo file)).toNat < 2 ^ 32

theorem Fresh.blockGiven {st : LoaderState} {file : Bytes} {alloc : Allocation} (fresh : LoaderSteps.Fresh st file alloc) :
    BlockGiven file alloc.block := ⟨fresh.block_aligned, fresh.block_ends⟩

/-- The NOLOAD sections a loader walks, with what the writer stored of them. -/
theorem noloadTable_aligned (writable : Writable tool srcElfName) {r : UsoSection}
    (member : r ∈ (storedSections (usoImage (usoWrite tool srcElfName))).tail.filter isNoload) :
    IsPow2 r.dataAlign ∧ r.dataAlign ≤ (readLoadInfo (usoWrite tool srcElfName)).noloadAlign := by
  obtain ⟨-, each⟩ := maxAlign_writable writable hasNoData 1 ⟨0, by decide, rfl⟩
  obtain ⟨inTable, kept⟩ := List.mem_filter.mp member
  obtain ⟨i, at_i⟩ := List.mem_iff_getElem?.mp inTable
  obtain ⟨s, found, describes⟩ := forall₂_getElem? (forall₂_tail (sections_usoWrite writable)).flip at_i
  have own := List.mem_of_getElem? found
  have none : hasNoData s = true := by
    unfold hasNoData
    cases data : s.data with
    | none => rfl
    | some bytes =>
      have loaded := (describes.loaded bytes data).1
      simp only [isNoload, beq_iff_eq] at kept
      exact absurd kept loaded
  rw [describes.align, readLoadInfo_usoWrite writable]
  exact ⟨writable.aligned s own, each s (List.mem_of_mem_tail own) none⟩

/-- Without padding the NOLOAD sections fill the rest of the block. -/
theorem unpadded_inBlock (produced : Produced sort elf tool srcElfName) (unpadded : NoPadding tool.outSections) {base : U32}
    (given : BlockGiven (usoWrite tool srcElfName) base) :
    NoloadInBlock (readLoadInfo (usoWrite tool srcElfName)) base (loadedNoload (usoWrite tool srcElfName) base) := by
  have writable := produced.writable
  have length := usoImage_length writable
  have body := bodyLength_le writable
  have low := writable.offsets.imports
  have high := writable.offsets.imports_le
  have shapes := noloadShapes_stored (forall₂_tail (sections_usoWrite writable))
  obtain ⟨powLoaded, -⟩ := maxAlign_writable writable (fun s => s.data.isSome) 4 pow2_four
  obtain ⟨usoSize, noloadSize, pow⟩ := loadInfo_usoWrite writable produced.small
  have usoAlign : (readLoadInfo (usoWrite tool srcElfName)).usoAlign = usoGetAlign tool.outSections := by
    rw [readLoadInfo_usoWrite writable]
  have small := produced.small
  rw [loadedNoload, fixedSections, noloadSections_fixupSectionTable]
  apply (walkNoload_inBlock_iff pow (by omega) (by omega) _ given.ends _ _).mpr
  · rw [shapes]
    exact (noPadding_iff _).mp unpadded
  · exact Nat.dvd_trans (getUsoRamAlign_dvd _ (usoAlign ▸ powLoaded) pow) given.aligned
  · exact fun r member => noloadTable_aligned writable member
  · rw [noloadSize, shapes, total_noloadShapes writable]

/-- A NOLOAD section lies between the image and the end of the block. -/
theorem noload_inside (produced : Produced sort elf tool srcElfName) (unpadded : NoPadding tool.outSections) {base : U32}
    (given : BlockGiven (usoWrite tool srcElfName) base) {k : Nat} {info : SectionInfo} {sec : LoadedSection}
    (at_k : tool.outSections[k + 1]? = some info) (absent : info.data = none)
    (found : (loadedSections (usoImage (usoWrite tool srcElfName)) base
      (getUsoNoloadStart (readLoadInfo (usoWrite tool srcElfName)) base))[k + 1]? = some sec) :
    base.toNat + (usoImage (usoWrite tool srcElfName)).length ≤ sec.data.toNat ∧
      sec.data.toNat + sec.dataSize.toNat ≤
        base.toNat + (getUsoRamSize (readLoadInfo (usoWrite tool srcElfName))).toNat := by
  have writable := produced.writable
  obtain ⟨r, stored, describes⟩ := forall₂_getElem? (sections_usoWrite writable) at_k
  rw [loadedSections, List.getElem?_map, Option.map_eq_some_iff] at found
  obtain ⟨f, fixed, rfl⟩ := found
  have inBlock := unpadded_inBlock produced unpadded given
  have member : f ∈ loadedNoload (usoWrite tool srcElfName) base := by
    refine List.mem_filterMap.mpr ⟨(r, f), ?_, if_pos (describes.noload absent)⟩
    apply List.mem_of_getElem? (i := k)
    rw [List.getElem?_drop, Nat.add_comm]
    exact List.getElem?_zip_eq_some.mpr ⟨stored, fixed⟩
  rw [← usoSize_toNat writable]
  exact ⟨inBlock.after_image f member, inBlock.inside_block f member⟩

end

end DragonUso.SectionPlacement
