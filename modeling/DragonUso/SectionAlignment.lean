import DragonUso.NoloadLayout

/-! Alignment in memory. The tool aligns offsets in the file, the loader needs aligned addresses;
the block is aligned to the larger of the two maxima in the load info, and that carries every
alignment over. -/

namespace DragonUso.SectionAlignment
open ByteOrder SparseFile WordAlign Format ElfFile ToolCollect ToolWriter WriterLayout LoaderImage FileLayout RoundTrip
open NoloadLayout

/-- `len` bytes from `ptr` on lie in the image of a block at `base`. The distance is taken on the
circle of 32-bit addresses, so that it means the same for a block at the end of memory. -/
def InImage (info : UsoLoadInfo) (base ptr : U32) (len : Nat) : Prop :=
  (ptr - base).toNat + len ≤ info.usoSize.toNat

/-- In a block that ends in memory this is the interval of addresses. -/
theorem inImage_iff {info : UsoLoadInfo} {base ptr : U32} {len : Nat} (some : 0 < len)
    (fits : base.toNat + info.usoSize.toNat ≤ 2 ^ 32) :
    InImage info base ptr len ↔ base.toNat ≤ ptr.toNat ∧ ptr.toNat + len ≤ base.toNat + info.usoSize.toNat := by
  have low := base.isLt
  have high := ptr.isLt
  unfold InImage
  rw [BitVec.toNat_sub]
  rcases Nat.lt_or_ge ptr.toNat base.toNat with below | above
  · rw [Nat.mod_eq_of_lt (by omega)]
    omega
  · rw [show 2 ^ 32 - base.toNat + ptr.toNat = (ptr.toNat - base.toNat) + 2 ^ 32 by omega,
      Nat.add_mod_right, Nat.mod_eq_of_lt (by omega)]
    omega

def relocTableSize (relocs : List UsoReloc) : Nat := 4 + 12 * relocs.length

/-- A header pointer to an optional table after `fixup_uso`. -/
def tablePtr (base ofs : U32) : U32 := if ofs ≠ 0 then ptrFixup ofs base else ofs

/-- Where the record of a section points after the fixups: the data is aligned as the section asks,
the relocation tables are words, and data that is there lies in the image. -/
structure SectionPlaced (info : UsoLoadInfo) (base : U32) (s : SectionInfo) (r : UsoSection) : Prop where
  align : r.dataAlign = s.align
  data : r.dataAlign.toNat ∣ r.data.toNat
  internal : 4 ∣ r.internalRelocs.toNat
  external : 4 ∣ r.externalRelocs.toNat
  inside : ∀ bytes, s.data = some bytes → bytes ≠ [] → InImage info base r.data bytes.length

/-- The relocation tables a section has lie in the image. -/
structure RelocTablesInside (info : UsoLoadInfo) (base : U32) (s : SectionInfo) (r : UsoSection) : Prop where
  internal : s.internalRelocs ≠ [] → InImage info base r.internalRelocs (relocTableSize s.internalRelocs)
  external : s.externalRelocs ≠ [] → InImage info base r.externalRelocs (relocTableSize s.externalRelocs)

/-- The header's own tables: words, inside the image when they are there. -/
structure TablesPlaced (tool : Elf2uso) (info : UsoLoadInfo) (header : UsoHeader) (base : U32) : Prop where
  sections : 4 ∣ (ptrFixup header.sections base).toNat
  sections_inside : InImage info base (ptrFixup header.sections base) (20 * tool.outSections.length)
  imports : 4 ∣ (tablePtr base header.importSyms).toNat
  imports_inside : tool.importSyms ≠ [] → InImage info base (tablePtr base header.importSyms) (tableSize tool.importSyms)
  exports : 4 ∣ (tablePtr base header.exportSyms).toNat
  exports_inside : tool.exportSyms ≠ [] → InImage info base (tablePtr base header.exportSyms) (tableSize tool.exportSyms)

/-- Each section past the dummy has a record in the loaded block, and the record has the property. -/
def EverySection (tool : Elf2uso) (file : Bytes) (base : U32) (property : SectionInfo → UsoSection → Prop) : Prop :=
  ∀ (i : Nat) (s : SectionInfo), tool.outSections[i + 1]? = some s →
    ∃ r, (fixedSections (usoImage file) base (getUsoNoloadStart (readLoadInfo file) base))[i + 1]? = some r ∧
      property s r

/-! ### In the file -/

/-- The records the loop of `uso_write_sections` writes. -/
def sectionRecords (sectionsOfs : U32) : U32 → U32 → List SectionInfo → List UsoSection
  | _, _, [] => []
  | dataOfs, relocsOfs, s :: rest =>
    sectionRecord sectionsOfs dataOfs relocsOfs s ::
      sectionRecords sectionsOfs (afterData sectionsOfs dataOfs s) (afterExternal sectionsOfs relocsOfs s) rest

theorem readSections_eq {image : Bytes} {sections : U32} (outSections : List SectionInfo) (i : Nat)
    (dataOfs relocsOfs : U32) (survives : Survives image (writeSectionLoop sections i dataOfs relocsOfs outSections)) :
    readSections image (sections.toNat + 20 * i) outSections.length =
      sectionRecords sections dataOfs relocsOfs outSections := by
  induction outSections generalizing i dataOfs relocsOfs with
  | nil => rfl
  | cons s rest ih =>
    rw [writeSectionLoop_cons] at survives
    have record := survives.right.right.right.head
    simp only [Nat.mul_comm i 20] at record
    have later := ih (i + 1) _ _ survives.right.right.right.tail
    rw [show sections.toNat + 20 * (i + 1) = sections.toNat + 20 * i + 20 by omega] at later
    rw [List.length_cons, readSections, readSection_written record, later, sectionRecords]

/-- What the writer guarantees of a record, with offsets counted from the start of the file. -/
structure PlacedInFile (limit : Nat) (sections : U32) (s : SectionInfo) (r : UsoSection) : Prop where
  align : r.dataAlign = s.align
  data : s.data.isSome → r.dataAlign.toNat ∣ (sections + r.data).toNat
  internal : 4 ∣ r.internalRelocs.toNat
  external : 4 ∣ r.externalRelocs.toNat
  inside : ∀ bytes, s.data = some bytes → bytes ≠ [] → (sections + r.data).toNat + bytes.length ≤ limit
  internal_inside : s.internalRelocs ≠ [] → r.internalRelocs ≠ 0 ∧
    (sections + r.internalRelocs).toNat + relocTableSize s.internalRelocs ≤ limit
  external_inside : s.externalRelocs ≠ [] → r.externalRelocs ≠ 0 ∧
    (sections + r.externalRelocs).toNat + relocTableSize s.externalRelocs ≤ limit

theorem four_dvd_modulus : 4 ∣ 2 ^ 32 := by decide

/-- A relocation table takes whole words, so the next one is aligned again. -/
theorem writeRelocTable_placed {sections relocsOfs : U32} {limit : Nat} {relocs : List UsoReloc}
    (small : limit < 2 ^ 31) (order : sections.toNat < relocsOfs.toNat) (word : 4 ∣ relocsOfs.toNat)
    (table : 4 ∣ sections.toNat) (bounded : Bounded limit (writeRelocTable sections relocsOfs relocs).1) :
    4 ∣ (writeRelocTable sections relocsOfs relocs).2.1.toNat ∧
    4 ∣ (writeRelocTable sections relocsOfs relocs).2.2.toNat ∧
    (relocs ≠ [] → (writeRelocTable sections relocsOfs relocs).2.1 ≠ 0 ∧
      (sections + (writeRelocTable sections relocsOfs relocs).2.1).toNat + relocTableSize relocs ≤ limit) := by
  unfold writeRelocTable at bounded ⊢
  by_cases some : relocs.length > 0
  · simp only [if_pos some] at bounded ⊢
    have four : (4 : U32).toNat = 4 := rfl
    have head := bounded.left.head (by simp [be32])
    simp only [Write.stop, be32_length] at head
    have last := bounded.right.head (List.ne_nil_of_length_pos (by
      change 0 < (relocs.flatMap relocBytes).length
      rw [flatMap_relocBytes_length]
      omega))
    have start : (relocsOfs + 4).toNat = relocsOfs.toNat + 4 := by rw [toNat_add_small (by omega), four]
    simp only [Write.stop, flatMap_relocBytes_length, start] at last
    have entries : (BitVec.ofNat 32 (relocs.length * 12)).toNat = relocs.length * 12 :=
      toNat_ofNat_small (by omega)
    have size : 4 ∣ (usoGetRelocTableSize relocs).toNat := by
      rw [usoGetRelocTableSize]
      apply dvd_toNat_add four_dvd_modulus (by decide)
      rw [entries]
      omega
    refine ⟨dvd_toNat_sub four_dvd_modulus word table, dvd_toNat_add four_dvd_modulus word size, fun _ => ?_⟩
    rw [add_sub_back]
    refine ⟨sub_ne_zero_of_lt order, ?_⟩
    unfold relocTableSize
    omega
  · simp only [if_neg some]
    refine ⟨by decide, word, fun present => ?_⟩
    exact absurd (List.length_pos_iff.mpr present) some

/-- The data a section has starts at its alignment and ends inside the file. -/
theorem writeSectionData_placed {sections dataOfs : U32} {limit : Nat} {s : SectionInfo}
    (aligned : s.data.isSome → IsPow2 s.align) (bounded : Bounded limit (writeSectionData sections dataOfs s).1) :
    (s.data.isSome → s.align.toNat ∣ (sections + (writeSectionData sections dataOfs s).2.1).toNat) ∧
    ∀ bytes, s.data = some bytes → bytes ≠ [] →
      (sections + (writeSectionData sections dataOfs s).2.1).toNat + bytes.length ≤ limit := by
  unfold writeSectionData at bounded ⊢
  cases found : s.data with
  | none =>
    refine ⟨fun present => ?_, fun bytes absent => ?_⟩
    · cases present
    · cases absent
  | some bytes =>
    rw [found] at bounded
    simp only [add_sub_back]
    refine ⟨fun _ => dvd_roundMask dataOfs (aligned (by rw [found]; rfl)), fun data same some => ?_⟩
    cases same
    exact bounded.head some

theorem sectionRecords_placed {sections : U32} {limit : Nat} (small : limit < 2 ^ 31) (table : 4 ∣ sections.toNat)
    (outSections : List SectionInfo) (i : Nat) (dataOfs relocsOfs : U32) (aligned : AlignedData outSections)
    (bounded : Bounded limit (writeSectionLoop sections i dataOfs relocsOfs outSections))
    (relocStart : relocsOfs.toNat ≤ 2 ^ 31) (relocAfter : sections.toNat < relocsOfs.toNat)
    (word : 4 ∣ relocsOfs.toNat) :
    List.Forall₂ (PlacedInFile limit sections) outSections (sectionRecords sections dataOfs relocsOfs outSections) := by
  induction outSections generalizing i dataOfs relocsOfs with
  | nil => exact List.Forall₂.nil
  | cons s rest ih =>
    rw [writeSectionLoop_cons] at bounded
    obtain ⟨data, inside⟩ := writeSectionData_placed (aligned s List.mem_cons_self) bounded.left
    obtain ⟨intUp, intTop, -, -⟩ := writeRelocTable_area small relocStart bounded.right.left
    obtain ⟨extUp, extTop, -, -⟩ := writeRelocTable_area small intTop bounded.right.right.left
    obtain ⟨internal, intWord, internalInside⟩ :=
      writeRelocTable_placed small relocAfter word table bounded.right.left
    have order : sections.toNat < (afterInternal sections relocsOfs s).toNat := Nat.lt_of_lt_of_le relocAfter intUp
    obtain ⟨external, extWord, externalInside⟩ :=
      writeRelocTable_placed small order intWord table bounded.right.right.left
    have later := ih (i + 1) (afterData sections dataOfs s) (afterExternal sections relocsOfs s)
      (fun t member => aligned t (List.mem_cons_of_mem _ member)) bounded.right.right.right.tail extTop
      (Nat.lt_of_lt_of_le order extUp) extWord
    exact List.Forall₂.cons ⟨rfl, data, internal, external, inside, internalInside, externalInside⟩ later

/-- An optional symbol table starts at a word and ends inside the file. -/
theorem writeOptionalTable_placed {dataOfs : U32} {limit : Nat} {syms : List SymbolInfo} (small : limit < 2 ^ 31)
    (names : ∀ s ∈ syms, NameFits s.name) (positive : 0 < dataOfs.toNat) (start : dataOfs.toNat ≤ limit)
    (bounded : Bounded limit (writeOptionalTable dataOfs syms).1) :
    4 ∣ (writeOptionalTable dataOfs syms).2.1.toNat ∧
    (syms ≠ [] → (writeOptionalTable dataOfs syms).2.1 ≠ 0 ∧
      (writeOptionalTable dataOfs syms).2.1.toNat + tableSize syms ≤ limit) := by
  obtain ⟨-, -, -, -, place⟩ := writeOptionalTable_area small names start bounded
  by_cases none : syms = []
  · subst none
    exact ⟨Nat.dvd_zero 4, fun some => absurd rfl some⟩
  · have place := place none
    have nonzero : (writeOptionalTable dataOfs syms).2.1 ≠ 0 := by
      intro zero
      have value : (0 : U32).toNat = 0 := rfl
      rw [zero] at place
      omega
    have count : syms.length ≠ 0 := fun zero => none (List.length_eq_zero_iff.mp zero)
    unfold writeOptionalTable at bounded nonzero ⊢
    simp only [if_pos count] at bounded nonzero ⊢
    obtain ⟨last, -⟩ := usoWriteSymbolTable_areas small none names bounded
    exact ⟨dvd_roundMask dataOfs pow2_four, fun _ => ⟨nonzero, last⟩⟩

/-! ### In memory -/

theorem usoAlign_dvd_ramAlign {info : UsoLoadInfo} (loaded : IsPow2 info.usoAlign) (noload : IsPow2 info.noloadAlign) :
    info.usoAlign.toNat ∣ (getUsoRamAlign info).toNat := by
  unfold getUsoRamAlign
  split
  next => exact Nat.dvd_refl _
  next wider => exact loaded.dvd_of_le noload (BitVec.le_def.mp (BitVec.not_lt.mp wider))

theorem le_maxAlignLoop (counts : SectionInfo → Bool) (outSections : List SectionInfo) (align : U32) :
    align ≤ maxAlignLoop counts outSections align := by
  induction outSections generalizing align with
  | nil => exact BitVec.le_refl _
  | cons s rest ih =>
    unfold maxAlignLoop
    split
    next larger => exact BitVec.le_trans (BitVec.le_of_lt larger.2) (ih s.align)
    next => exact ih align

/-- The block's alignment is enough for every section with data, and for words. -/
theorem block_aligned {tool : Elf2uso} {srcElfName : Bytes} (writable : Writable tool srcElfName) {base : U32}
    (aligned : (getUsoRamAlign (readLoadInfo (usoWrite tool srcElfName))).toNat ∣ base.toNat) :
    4 ∣ base.toNat ∧ ∀ s ∈ tool.outSections.tail, s.data.isSome → s.align.toNat ∣ base.toNat := by
  obtain ⟨powLoaded, each⟩ := maxAlign_writable writable (fun s => s.data.isSome) 4 pow2_four
  obtain ⟨powNoload, -⟩ := maxAlign_writable writable hasNoData 1 ⟨0, by decide, rfl⟩
  have whole : (usoGetAlign tool.outSections).toNat ∣ base.toNat := by
    rw [readLoadInfo_usoWrite writable] at aligned
    exact Nat.dvd_trans (usoAlign_dvd_ramAlign powLoaded powNoload) aligned
  have words : (4 : U32).toNat ≤ (usoGetAlign tool.outSections).toNat :=
    BitVec.le_def.mp (le_maxAlignLoop _ _ 4)
  refine ⟨Nat.dvd_trans (pow2_four.dvd_of_le powLoaded words) whole, fun s member present => ?_⟩
  have wide := BitVec.le_def.mp (each s (List.mem_of_mem_tail member) present)
  exact Nat.dvd_trans ((writable.aligned s member).dvd_of_le powLoaded wide) whole

/-- Distances from the block are offsets in the file. -/
theorem ptrFixup_sub (base sections ofs : U32) : ptrFixup ofs (ptrFixup sections base) - base = sections + ofs := by
  unfold ptrFixup
  rw [BitVec.add_assoc, BitVec.add_comm base, BitVec.add_sub_cancel]

theorem ptrFixup_dvd {base sections ofs : U32} {a : Nat} (unit : a ∣ 2 ^ 32) (block : a ∣ base.toNat)
    (place : a ∣ (sections + ofs).toNat) : a ∣ (ptrFixup ofs (ptrFixup sections base)).toNat := by
  unfold ptrFixup
  rw [BitVec.add_assoc]
  exact dvd_toNat_add unit block place

/-- Rebasing a record keeps what the writer guaranteed of it. -/
theorem fixupSection_placed {info : UsoLoadInfo} {base sections : U32} {s : SectionInfo} {r : UsoSection}
    (placed : PlacedInFile info.usoSize.toNat sections s r) (pow : IsPow2 s.align) (present : s.data.isSome)
    (words : 4 ∣ base.toNat) (table : 4 ∣ sections.toNat) (block : s.align.toNat ∣ base.toNat) :
    SectionPlaced info base s (fixupSection (ptrFixup sections base) r) ∧
      RelocTablesInside info base s (fixupSection (ptrFixup sections base) r) := by
  have own := placed.data present
  have reloc : ∀ ofs : U32, 4 ∣ ofs.toNat →
      4 ∣ (if ofs ≠ 0 then ptrFixup ofs (ptrFixup sections base) else ofs).toNat := by
    intro ofs word
    split
    · exact ptrFixup_dvd four_dvd_modulus words (dvd_toNat_add four_dvd_modulus table word)
    · exact word
  constructor
  · refine ⟨placed.align, ?_, reloc _ placed.internal, reloc _ placed.external, ?_⟩
    · change r.dataAlign.toNat ∣ (ptrFixup r.data (ptrFixup sections base)).toNat
      rw [placed.align] at own ⊢
      exact ptrFixup_dvd pow.dvd_modulus block own
    · intro bytes found some
      change (ptrFixup r.data (ptrFixup sections base) - base).toNat + bytes.length ≤ _
      rw [ptrFixup_sub]
      exact placed.inside bytes found some
  · refine ⟨fun some => ?_, fun some => ?_⟩
    · obtain ⟨nonzero, inside⟩ := placed.internal_inside some
      simp only [InImage, fixupSection, if_pos nonzero, ptrFixup_sub]
      exact inside
    · obtain ⟨nonzero, inside⟩ := placed.external_inside some
      simp only [InImage, fixupSection, if_pos nonzero, ptrFixup_sub]
      exact inside

/-- The NOLOAD pointer is rounded for each section it is given to. -/
theorem noload_placed {info : UsoLoadInfo} {base sections pointer : U32} {s : SectionInfo} {r : UsoSection}
    (placed : PlacedInFile info.usoSize.toNat sections s r) (pow : IsPow2 s.align) (absent : s.data = none) :
    SectionPlaced info base s { r with data := alignNoload pointer r } := by
  have aligned : IsPow2 r.dataAlign := placed.align ▸ pow
  refine ⟨placed.align, ?_, placed.internal, placed.external, ?_⟩
  · change r.dataAlign.toNat ∣ (alignNoload pointer r).toNat
    rw [alignNoload_toNat pointer aligned]
    exact (Nat.dvd_mod_iff aligned.dvd_modulus).mpr (dvd_alignUp _ _)
  · intro bytes found
    rw [absent] at found
    cases found

/-- The records of a written file, as the writer placed them. -/
theorem storedSections_placed {tool : Elf2uso} {srcElfName : Bytes} (writable : Writable tool srcElfName) :
    List.Forall₂ (PlacedInFile (usoImage (usoWrite tool srcElfName)).length (writtenHeader tool srcElfName).sections)
      tool.outSections (storedSections (usoImage (usoWrite tool srcElfName))) := by
  have survives := writable.survives.parts
  have part := (boundedParts (bounded_image writable)).sections
  have small := usoImage_lt writable
  have offsets := sectionOffsets small writable.sections_ne_nil writable.alignedData part
  have some := List.length_pos_iff.mpr writable.sections_ne_nil
  have records := offsets.records
  have order := offsets.order
  obtain ⟨grow, -⟩ := usoGetRelocOfs_le small tool.outSections 0 _ _ writable.alignedData part offsets.data_le
  have read := readSections_eq tool.outSections 0 _ _ survives.sections
  rw [Nat.mul_zero, Nat.add_zero] at read
  rw [storedSections, numSections_usoWrite writable, readHeader_usoWrite writable, read]
  have table : 4 ∣ (writtenHeader tool srcElfName).sections.toNat := dvd_roundMask _ pow2_four
  have word : 4 ∣ (relocsStartOfs (writtenHeader tool srcElfName).sections tool.outSections).toNat :=
    dvd_roundMask _ pow2_four
  exact sectionRecords_placed small table tool.outSections 0 _ _ writable.alignedData part offsets.relocs_le
    (by omega) word

theorem usoSize_toNat {tool : Elf2uso} {srcElfName : Bytes} (writable : Writable tool srcElfName) :
    (readLoadInfo (usoWrite tool srcElfName)).usoSize.toNat = (usoImage (usoWrite tool srcElfName)).length := by
  have small := usoImage_lt writable
  rw [readLoadInfo_usoWrite writable]
  exact toNat_ofNat_small (by omega)

/-- The tables the header points to, after the fixups. -/
theorem tables_placed {tool : Elf2uso} {srcElfName : Bytes} (writable : Writable tool srcElfName) {base : U32}
    (words : 4 ∣ base.toNat) :
    TablesPlaced tool (readLoadInfo (usoWrite tool srcElfName)) (readHeader (usoImage (usoWrite tool srcElfName)))
      base := by
  have bounded := boundedParts (bounded_image writable)
  have small := usoImage_lt writable
  have body := bodyLength_le writable
  have offsets := writable.offsets
  have low := offsets.imports
  have high := offsets.imports_le
  have order := offsets.exports
  have last := offsets.exports_le
  have usoSize := usoSize_toNat writable
  have records := writeSectionLoop_records tool.outSections 0 _ _ writable.sections_ne_nil bounded.sections
  obtain ⟨importWord, importInside⟩ := writeOptionalTable_placed small
    (fun s member => (writable.imports s member).2) (by omega) (by omega) bounded.imports
  obtain ⟨exportWord, exportInside⟩ := writeOptionalTable_placed small
    (fun s member => (writable.exports s member).2) (by omega) (by omega) bounded.exports
  have pointer : ∀ ofs : U32, 4 ∣ ofs.toNat → 4 ∣ (tablePtr base ofs).toNat := by
    intro ofs word
    unfold tablePtr
    split
    · exact dvd_toNat_add four_dvd_modulus words word
    · exact word
  have inside : ∀ (ofs : U32) (len : Nat), ofs ≠ 0 → ofs.toNat + len ≤ (usoImage (usoWrite tool srcElfName)).length →
      InImage (readLoadInfo (usoWrite tool srcElfName)) base (tablePtr base ofs) len := by
    intro ofs len nonzero fits
    rw [InImage, tablePtr, if_pos nonzero, ptrFixup, BitVec.add_comm, BitVec.add_sub_cancel, usoSize]
    exact fits
  rw [readHeader_usoWrite writable]
  refine ⟨?_, ?_, pointer _ importWord, ?_, pointer _ exportWord, ?_⟩
  · exact dvd_toNat_add four_dvd_modulus words (dvd_roundMask _ pow2_four)
  · rw [InImage, ptrFixup, BitVec.add_comm, BitVec.add_sub_cancel, usoSize]
    omega
  · intro some
    exact inside _ _ (importInside some).1 (importInside some).2
  · intro some
    exact inside _ _ (exportInside some).1 (exportInside some).2

/-- The sections past the dummy, with the relocation tables of those that have data. -/
theorem records_placed {tool : Elf2uso} {srcElfName : Bytes} (writable : Writable tool srcElfName) {base : U32}
    (aligned : (getUsoRamAlign (readLoadInfo (usoWrite tool srcElfName))).toNat ∣ base.toNat) :
    EverySection tool (usoWrite tool srcElfName) base fun s r =>
      SectionPlaced (readLoadInfo (usoWrite tool srcElfName)) base s r ∧
      (s.data.isSome → RelocTablesInside (readLoadInfo (usoWrite tool srcElfName)) base s r) := by
  obtain ⟨words, block⟩ := block_aligned writable aligned
  intro i s at_i
  have member : s ∈ tool.outSections.tail := by
    rw [← List.getElem?_tail] at at_i
    exact List.mem_of_getElem? at_i
  have pow := writable.aligned s member
  have small := usoImage_lt writable
  have usoSize := usoSize_toNat writable
  obtain ⟨record, stored, placed⟩ := forall₂_getElem? (storedSections_placed writable) at_i
  obtain ⟨other, found, describes⟩ := forall₂_getElem? (sections_usoWrite writable) at_i
  obtain rfl : record = other := Option.some.inj (stored.symm.trans found)
  rw [← usoSize] at placed
  have table : 4 ∣ (writtenHeader tool srcElfName).sections.toNat := dvd_roundMask _ pow2_four
  cases data : s.data with
  | some bytes =>
    have present : s.data.isSome := by rw [data]; rfl
    refine ⟨_, fixupSectionTable_loaded _ _ _ i record stored (describes.loaded bytes data).1, ?_⟩
    rw [readHeader_usoWrite writable]
    obtain ⟨own, relocs⟩ := fixupSection_placed placed pow present words table (block s member present)
    exact ⟨own, fun _ => relocs⟩
  | none =>
    obtain ⟨pointer, fixed⟩ := fixupSectionTable_noload _ _ _ i record stored (describes.noload data)
    exact ⟨_, fixed, noload_placed placed pow data, fun present => by rw [data] at present; cases present⟩

/-- Every section of a loaded file is aligned where it is loaded, and what was in the file is in the
image. Relocation tables are rebased only for a section with data. -/
theorem sections_placed {tool : Elf2uso} {srcElfName : Bytes} (writable : Writable tool srcElfName) {base : U32}
    (aligned : (getUsoRamAlign (readLoadInfo (usoWrite tool srcElfName))).toNat ∣ base.toNat) :
    TablesPlaced tool (readLoadInfo (usoWrite tool srcElfName)) (readHeader (usoImage (usoWrite tool srcElfName)))
      base ∧
    EverySection tool (usoWrite tool srcElfName) base fun s r =>
      SectionPlaced (readLoadInfo (usoWrite tool srcElfName)) base s r ∧
      (s.data.isSome → RelocTablesInside (readLoadInfo (usoWrite tool srcElfName)) base s r) :=
  ⟨tables_placed writable (block_aligned writable aligned).1, records_placed writable aligned⟩

theorem sections_placed_smallTool :
    TablesPlaced smallTool (readLoadInfo (usoWrite smallTool [109]))
      (readHeader (usoImage (usoWrite smallTool [109]))) 0x80001000 ∧
    EverySection smallTool (usoWrite smallTool [109]) 0x80001000 fun s r =>
      SectionPlaced (readLoadInfo (usoWrite smallTool [109])) 0x80001000 s r ∧
      (s.data.isSome → RelocTablesInside (readLoadInfo (usoWrite smallTool [109])) 0x80001000 s r) :=
  sections_placed smallTool_writable (by decide +kernel)

/-- A NOLOAD section given a relocation list, which the tool never does. -/
def noloadRelocTool : Elf2uso :=
  { smallTool with
    outSections :=
      [dummySection,
        { relocElfSection := 0, internalRelocs := [⟨0, 0x08000001, 4⟩], externalRelocs := []
          data := none, size := 4, align := 4, data_length := by simp }] }

theorem noloadRelocTool_writable : Writable noloadRelocTool [109] where
  dummy := rfl
  count := by decide
  aligned := by
    intro s member
    simp only [noloadRelocTool, List.tail_cons, List.mem_singleton] at member
    subst member
    exact ⟨2, by decide, rfl⟩
  imports := by unfold TableFits NameFits; decide
  exports := by unfold TableFits NameFits; decide
  size := by decide +kernel

/-- Its table is in the file, but its pointer keeps the offset from the section table. -/
theorem noloadReloc_outside :
    Writable noloadRelocTool [109] ∧
    (getUsoRamAlign (readLoadInfo (usoWrite noloadRelocTool [109]))).toNat ∣ (0x80001000 : U32).toNat ∧
    ¬ EverySection noloadRelocTool (usoWrite noloadRelocTool [109]) 0x80001000 fun s r =>
      SectionPlaced (readLoadInfo (usoWrite noloadRelocTool [109])) 0x80001000 s r ∧
      RelocTablesInside (readLoadInfo (usoWrite noloadRelocTool [109])) 0x80001000 s r := by
  refine ⟨noloadRelocTool_writable, by decide +kernel, ?_⟩
  intro every
  obtain ⟨r, found, -, relocs⟩ := every 0 _ rfl
  have inside := relocs.internal (List.cons_ne_nil _ _)
  have pointer : r.internalRelocs = 0x28 := by
    have stored : ((fixedSections (usoImage (usoWrite noloadRelocTool [109])) 0x80001000
        (getUsoNoloadStart (readLoadInfo (usoWrite noloadRelocTool [109])) 0x80001000))[1]?).map
          UsoSection.internalRelocs = some 0x28 := by
      decide +kernel
    rw [found] at stored
    exact Option.some.inj stored
  rw [InImage, pointer] at inside
  revert inside
  decide +kernel

end DragonUso.SectionAlignment
