import DragonUso.InPlaceLoading
import DragonUso.SectionPlacement

/-! Where the tables and the data of a file of the tool lie: the records the fixups change, then the data
of the sections, then the relocation tables. A relocation inside its section therefore never reaches
a table, and the linker in the block does what the linker on the file's records does. -/

namespace DragonUso.TableAreas
open ByteOrder SparseFile WordAlign WordMemory Records Format ElfFile ToolCollect ToolWriter WriterLayout LoaderImage
open FileLayout RoundTrip SectionAlignment SectionPlacement Relocation Linking Loader LoaderSteps CollectedTables
open ProducedFile RelocSafety InPlace InPlaceLinking HeldImage InPlaceFixups FixedImage InPlaceLoading

/-! ### Sections -/

/-- Data between two offsets, relocation tables from a third one on. -/
structure InAreas (sections : U32) (dataLow dataHigh relocLow : Nat) (s : SectionInfo) (r : UsoSection) : Prop where
  data : s.data.isSome → dataLow ≤ (sections + r.data).toNat ∧ (sections + r.data).toNat + s.size.toNat ≤ dataHigh
  internal : s.internalRelocs ≠ [] → relocLow ≤ (sections + r.internalRelocs).toNat
  external : s.externalRelocs ≠ [] → relocLow ≤ (sections + r.externalRelocs).toNat

theorem InAreas.mono {sections : U32} {dataLow dataHigh relocLow dataLow' relocLow' : Nat} {s : SectionInfo}
    {r : UsoSection} (areas : InAreas sections dataLow dataHigh relocLow s r) (lower : dataLow' ≤ dataLow)
    (lower' : relocLow' ≤ relocLow) : InAreas sections dataLow' dataHigh relocLow' s r where
  data present := ⟨Nat.le_trans lower (areas.data present).1, (areas.data present).2⟩
  internal some := Nat.le_trans lower' (areas.internal some)
  external some := Nat.le_trans lower' (areas.external some)

/-- A relocation table is written where the running offset stands. -/
theorem writeRelocTable_place (sections relocsOfs : U32) {relocs : List UsoReloc} (some : relocs ≠ []) :
    sections + (writeRelocTable sections relocsOfs relocs).2.1 = relocsOfs := by
  have positive : relocs.length > 0 := List.length_pos_iff.mpr some
  simp only [writeRelocTable, if_pos positive, add_sub_back]

theorem sectionRecords_areas {sections : U32} {limit : Nat} (small : limit < 2 ^ 31) (outSections : List SectionInfo)
    (i : Nat) (dataOfs relocsOfs : U32) (aligned : AlignedData outSections)
    (bounded : Bounded limit (writeSectionLoop sections i dataOfs relocsOfs outSections))
    (dataStart : dataOfs.toNat ≤ 2 ^ 31) (relocStart : relocsOfs.toNat ≤ 2 ^ 31) :
    List.Forall₂ (InAreas sections dataOfs.toNat (usoGetRelocOfs outSections dataOfs).toNat relocsOfs.toNat) outSections
      (sectionRecords sections dataOfs relocsOfs outSections) := by
  induction outSections generalizing i dataOfs relocsOfs with
  | nil => exact List.Forall₂.nil
  | cons s rest ih =>
    rw [writeSectionLoop_cons] at bounded
    rw [usoGetRelocOfs_cons sections, sectionRecords]
    have own := aligned s List.mem_cons_self
    have others : AlignedData rest := fun t member => aligned t (List.mem_cons_of_mem _ member)
    obtain ⟨dataUp, dataTop, -, -⟩ := writeSectionData_area small own dataStart bounded.left
    obtain ⟨intUp, intTop, -, -⟩ := writeRelocTable_area small relocStart bounded.right.left
    obtain ⟨extUp, extTop, -, -⟩ := writeRelocTable_area small intTop bounded.right.right.left
    rw [← afterData] at dataUp dataTop
    rw [← afterInternal] at intUp intTop extUp extTop
    rw [← afterExternal] at extUp extTop
    obtain ⟨grow, -⟩ := usoGetRelocOfs_le small rest (i + 1) _ _ others bounded.right.right.right.tail dataTop
    have later := ih (i + 1) _ _ others bounded.right.right.right.tail dataTop extTop
    refine List.Forall₂.cons ⟨fun present => ?_, fun some => ?_, fun some => ?_⟩
      (later.imp fun _ _ areas => areas.mono dataUp (Nat.le_trans intUp extUp))
    · obtain ⟨above, below⟩ := sectionRecord_between relocsOfs small own dataStart bounded.left present
      exact ⟨above, Nat.le_trans below grow⟩
    · rw [sectionRecord, writeRelocTable_place sections relocsOfs some]
    · rw [sectionRecord, writeRelocTable_place sections _ some]
      exact intUp

/-! ### Symbol tables -/

/-- The names of a symbol table follow its records and end with it. -/
theorem symbolNames_within {image : Bytes} {ofs : U32} {low high : Nat} (small : high < 2 ^ 31) (syms : List SymbolInfo)
    (i : Nat) (nameOfs : U32) (names : TableFits syms) (survives : Survives image (writeSymbolLoop ofs i nameOfs syms))
    (within : Within low high (writeSymbolLoop ofs i nameOfs syms)) (header : ofs.toNat + 4 ≤ high)
    (start : ofs.toNat + nameOfs.toNat ≤ high) {k : Nat} (inside : k < syms.length) :
    ofs.toNat + nameOfs.toNat ≤ (ofs + readU32 image (ofs.toNat + 4 + 12 * (i + k))).toNat ∧
      (ofs + readU32 image (ofs.toNat + 4 + 12 * (i + k))).toNat +
        (cString image (ofs + readU32 image (ofs.toNat + 4 + 12 * (i + k))).toNat).length < high := by
  induction syms generalizing i nameOfs k with
  | nil => exact absurd inside (Nat.not_lt_zero k)
  | cons s rest ih =>
    unfold writeSymbolLoop at survives within
    have four : (4 : U32).toNat = 4 := rfl
    obtain ⟨terminated, fits⟩ := names s List.mem_cons_self
    have place : (ofs + nameOfs).toNat = ofs.toNat + nameOfs.toNat := toNat_add_small (by omega)
    have record := survives.head
    have name := survives.tail.head
    have stop := (within _ (List.mem_cons_of_mem _ List.mem_cons_self)).2
    simp only [Write.stop, place] at stop
    cases k with
    | zero =>
      have first : (4 + ofs).toNat + i * 12 = ofs.toNat + 4 + 12 * (i + 0) := by
        rw [toNat_add_small (by omega)]
        omega
      simp only [first, symbolBytes] at record
      obtain ⟨nameField, -⟩ := readAt_be32 record
      simp only [symbolNameBytes_eq fits] at name
      rw [nameField, cString_written s.name _ terminated name, place]
      rw [symbolNameBytes_eq fits, List.length_append, List.length_singleton] at stop
      omega
    | succ k =>
      have next : (nextNameOfs nameOfs s).toNat = nameOfs.toNat + (symbolNameBytes s).length :=
        nextNameOfs_toNat (by omega)
      have later := ih (i + 1) (nextNameOfs nameOfs s) (fun t member => names t (List.mem_cons_of_mem _ member))
        survives.tail.tail (fun w member => within w (List.mem_cons_of_mem _ (List.mem_cons_of_mem _ member)))
        (by omega) (show k < rest.length by simpa using inside)
      rw [show i + 1 + k = i + (k + 1) by omega, next] at later
      omega

section
variable {tool : Elf2uso} {srcElfName : Bytes}

/-- A symbol table that is there: its length, its records and then its names, up to the next offset. -/
theorem writeOptionalTable_within {image : Bytes} {dataOfs : U32} {limit : Nat} {syms : List SymbolInfo}
    (small : limit < 2 ^ 31) (names : TableFits syms) (start : dataOfs.toNat ≤ limit)
    (bounded : Bounded limit (writeOptionalTable dataOfs syms).1)
    (survives : Survives image (writeOptionalTable dataOfs syms).1)
    (present : (writeOptionalTable dataOfs syms).2.1 ≠ 0) :
    dataOfs.toNat ≤ (writeOptionalTable dataOfs syms).2.1.toNat ∧
    (writeOptionalTable dataOfs syms).2.1.toNat + 4 +
        12 * storedLength image (writeOptionalTable dataOfs syms).2.1 ≤ (writeOptionalTable dataOfs syms).2.2.toNat ∧
    ∀ k, k < storedLength image (writeOptionalTable dataOfs syms).2.1 →
      (writeOptionalTable dataOfs syms).2.1.toNat + 4 + 12 * storedLength image (writeOptionalTable dataOfs syms).2.1 ≤
          (storedName image (writeOptionalTable dataOfs syms).2.1 k).toNat ∧
        (storedName image (writeOptionalTable dataOfs syms).2.1 k).toNat +
          (cString image (storedName image (writeOptionalTable dataOfs syms).2.1 k).toNat).length <
            (writeOptionalTable dataOfs syms).2.2.toNat := by
  have some : syms ≠ [] := by
    rintro rfl
    exact present rfl
  have count : syms.length ≠ 0 := fun zero => some (List.length_eq_zero_iff.mp zero)
  have written : writeOptionalTable dataOfs syms = (usoWriteSymbolTable (alignVal dataOfs 4) syms, alignVal dataOfs 4,
      alignVal dataOfs 4 + symGetDataSize syms) := if_pos count
  obtain ⟨-, -, -, -, place⟩ := writeOptionalTable_area small (fun s member => (names s member).2) start bounded
  have above := place some
  rw [written] at bounded survives above ⊢
  simp only at bounded survives above ⊢
  generalize alignVal dataOfs 4 = ofs at *
  obtain ⟨last, size, within, -⟩ := usoWriteSymbolTable_areas small some (fun s member => (names s member).2) bounded
  obtain ⟨nameStart, -⟩ := usoWriteSymbolTable_stored small some bounded
  have next : (ofs + symGetDataSize syms).toNat = ofs.toNat + tableSize syms := by
    rw [toNat_add_small (by omega), size]
  have whole : tableSize syms = 4 + 12 * syms.length + namesSize syms := rfl
  have stored := survives.left.head
  simp only [be32_length] at stored
  have length : storedLength image ofs = syms.length := by
    rw [storedLength, readU32, stored, fromBe32_be32, toNat_ofNat_small (by omega)]
  rw [next, length]
  refine ⟨above, by omega, fun k inside => ?_⟩
  have own := symbolNames_within (show ofs.toNat + tableSize syms < 2 ^ 31 by omega) syms 0 _ names survives.right
    (fun w member => within w (List.mem_append_right _ member)) (by omega) (by omega) inside
  rw [nameStart, Nat.zero_add] at own
  rw [storedName]
  omega

theorem tablesApart_usoWrite (writable : Writable tool srcElfName) :
    TablesApart (usoImage (usoWrite tool srcElfName)) (afterImports tool srcElfName).toNat
      ((writtenHeader tool srcElfName).sections.toNat + 20 * tool.outSections.length) := by
  have header := readHeader_usoWrite writable
  have count := numSections_usoWrite writable
  have bounded := boundedParts (bounded_image writable)
  have survives := writable.survives.parts
  have small := usoImage_lt writable
  have body := bodyLength_le writable
  have offsets := writable.offsets
  have tables := writable.symbolsFit.offsets
  have low := offsets.imports
  have imports := offsets.imports_le
  have exports := offsets.exports_le
  have order := offsets.exports
  have last := tables.exports
  have sections := tables.sections
  have records := writeSectionLoop_records tool.outSections 0 _ _ writable.sections_ne_nil bounded.sections
  have positive := List.length_pos_iff.mpr writable.sections_ne_nil
  rw [header] at count
  refine ⟨?_, ?_, ?_, ?_, ?_, ?_, ?_, ?_⟩
  · rw [header, count]
    exact positive
  · omega
  · rw [header]
    intro present
    obtain ⟨above, below, -⟩ :=
      writeOptionalTable_within small writable.imports (by omega) bounded.imports survives.imports present
    exact ⟨Nat.le_trans (Nat.le_of_lt low) above, below⟩
  · rw [header]
    intro present
    obtain ⟨-, -, names⟩ :=
      writeOptionalTable_within small writable.imports (by omega) bounded.imports survives.imports present
    exact names
  · rw [header]
    intro present
    obtain ⟨above, below, -⟩ :=
      writeOptionalTable_within small writable.exports (by omega) bounded.exports survives.exports present
    exact ⟨above, Nat.le_trans below sections⟩
  · rw [header]
    exact offsets.table
  · rw [header, count]
  · rw [Nat.zero_add] at records
    exact records

/-- Data and relocation tables of a written file, from the offsets the writer starts at. -/
theorem storedSections_areas (writable : Writable tool srcElfName) :
    List.Forall₂ (InAreas (writtenHeader tool srcElfName).sections
      ((writtenHeader tool srcElfName).sections.toNat + 20 * tool.outSections.length)
      (relocsStartOfs (writtenHeader tool srcElfName).sections tool.outSections).toNat
      (relocsStartOfs (writtenHeader tool srcElfName).sections tool.outSections).toNat) tool.outSections
      (storedSections (usoImage (usoWrite tool srcElfName))) := by
  have part := (boundedParts (bounded_image writable)).sections
  have small := usoImage_lt writable
  have offsets := sectionOffsets small writable.sections_ne_nil writable.alignedData part
  have records := offsets.records
  have order := offsets.order
  rw [storedSections_usoWrite writable]
  refine (sectionRecords_areas small tool.outSections 0 _ _ writable.alignedData part offsets.data_le
    offsets.relocs_le).imp fun s r areas => ⟨fun present => ?_, areas.internal, areas.external⟩
  obtain ⟨above, below⟩ := areas.data present
  omega

/-- Where the data of sections ends at the latest. -/
def dataEnd (tool : Elf2uso) (srcElfName : Bytes) : Nat :=
  min (relocsStartOfs (writtenHeader tool srcElfName).sections tool.outSections).toNat
    (usoImage (usoWrite tool srcElfName)).length

/-- A relocation table of a section lies past all data. -/
theorem relocTable_past {image : Bytes} {sections ofs : U32} {start : Nat} {relocs : List UsoReloc}
    (table : tableFrom image sections ofs = present relocs) (present : ofs ≠ 0)
    (area : relocs ≠ [] → start ≤ (sections + ofs).toNat)
    (inside : relocs ≠ [] → ofs ≠ 0 ∧ (sections + ofs).toNat + relocTableSize relocs ≤ image.length) :
    min start image.length ≤ (sections + ofs).toNat ∧
      (sections + ofs).toNat + 4 + 12 * (readU32 image (sections + ofs).toNat).toNat ≤ image.length := by
  have some : relocs ≠ [] := fun none => present (tableFrom_absent table none)
  have size : relocTableSize relocs = 4 + 12 * relocs.length := rfl
  have above := area some
  have below := (inside some).2
  rw [tableFrom, if_neg present, RoundTrip.present, if_neg some, Option.some.injEq, readRelocTable] at table
  have length := readRelocs_length image ((sections + ofs).toNat + 4) (readU32 image (sections + ofs).toNat).toNat
  rw [table] at length
  omega

/-- A pointer to relocations that is there after the fixups was there before. A record whose pointers are
not fixed up has no relocation tables. -/
theorem relocsPtr_fixed (writable : Writable tool srcElfName) {k : Nat} {info : SectionInfo} {q r : UsoSection}
    (at_k : tool.outSections[k]? = some info)
    (quiet : info.data = none → info.internalRelocs = [] ∧ info.externalRelocs = [])
    (stored : (storedSections (usoImage (usoWrite tool srcElfName)))[k]? = some q)
    (describes : Describes (usoImage (usoWrite tool srcElfName)) (usoImage (usoWrite tool srcElfName)).length
      (writtenHeader tool srcElfName).sections info q)
    {base noload : U32} (fixed : (fixedSections (usoImage (usoWrite tool srcElfName)) base noload)[k]? = some r)
    {internal : Bool} (present : relocsPtr r internal ≠ 0) :
    relocsPtr q internal ≠ 0 ∧ relocsPtr r internal =
      ptrFixup (relocsPtr q internal) (ptrFixup (writtenHeader tool srcElfName).sections base) := by
  have null : info.data = none → relocsPtr q internal = 0 := by
    intro none
    obtain ⟨ours, theirs⟩ := quiet none
    cases internal with
    | true => exact tableFrom_absent describes.internal ours
    | false => exact tableFrom_absent describes.external theirs
  have plain : ∀ data, r = { q with data := data } → info.data = none → False := by
    intro data same none
    rw [same] at present
    exact present (null none)
  rw [fixedSections, readHeader_usoWrite writable] at fixed
  cases k with
  | zero =>
    have first := writable.dummy
    rw [List.head?_eq_getElem?, at_k, Option.some.injEq] at first
    rw [fixupSectionTable_dummy _ _ _ q stored, Option.some.injEq] at fixed
    exact (plain 0 fixed.symm (by rw [first]; rfl)).elim
  | succ i =>
    cases data : info.data with
    | none =>
      obtain ⟨pointer, same⟩ := fixupSectionTable_noload (ptrFixup (writtenHeader tool srcElfName).sections base) noload
        _ i q stored (describes.noload data)
      rw [same, Option.some.injEq] at fixed
      exact (plain _ fixed.symm data).elim
    | some bytes =>
      rw [fixupSectionTable_loaded _ noload _ i q stored (describes.loaded bytes data).1, Option.some.injEq] at fixed
      have field : relocsPtr r internal = if relocsPtr q internal ≠ 0 then
          ptrFixup (relocsPtr q internal) (ptrFixup (writtenHeader tool srcElfName).sections base)
          else relocsPtr q internal := by
        rw [← fixed]
        cases internal <;> rfl
      by_cases zero : relocsPtr q internal = 0
      · rw [field, if_neg (not_not_intro zero)] at present
        exact absurd zero present
      · exact ⟨zero, field.trans (if_pos zero)⟩

theorem relocsApart_usoWrite (writable : Writable tool srcElfName) (quiet : ∀ (k : Nat) (info : SectionInfo),
      tool.outSections[k]? = some info → info.data = none → info.internalRelocs = [] ∧ info.externalRelocs = [])
    (base noload : U32) :
    RelocsApart (usoImage (usoWrite tool srcElfName)) base noload
      ((writtenHeader tool srcElfName).sections.toNat + 20 * tool.outSections.length) (dataEnd tool srcElfName) := by
  have part := (boundedParts (bounded_image writable)).sections
  have small := usoImage_lt writable
  have offsets := sectionOffsets small writable.sections_ne_nil writable.alignedData part
  have dataStart := offsets.records
  have order := offsets.order
  obtain ⟨grow, -⟩ := usoGetRelocOfs_le small tool.outSections 0 _ _ writable.alignedData part offsets.data_le
  have records := writeSectionLoop_records tool.outSections 0 _ _ writable.sections_ne_nil part
  have header := readHeader_usoWrite writable
  refine ⟨?_, Nat.min_le_right _ _, ?_⟩
  · unfold dataEnd
    omega
  · intro k r fixed internal present
    have bound := (List.getElem?_eq_some_iff.mp fixed).1
    have at_k : ∃ info, tool.outSections[k]? = some info := by
      rw [fixedSections, fixupSectionTable_length, storedSections, readSections_length, numSections_usoWrite writable] at bound
      exact ⟨_, List.getElem?_eq_getElem bound⟩
    obtain ⟨info, at_k⟩ := at_k
    obtain ⟨q, stored, describes⟩ := forall₂_getElem? (sections_usoWrite writable) at_k
    obtain ⟨q', stored', placed⟩ := forall₂_getElem? (storedSections_placed writable) at_k
    obtain rfl : q = q' := Option.some.inj (stored.symm.trans stored')
    obtain ⟨q', stored', areas⟩ := forall₂_getElem? (storedSections_areas writable) at_k
    obtain rfl : q = q' := Option.some.inj (stored.symm.trans stored')
    rw [header] at describes
    obtain ⟨before, rebased⟩ := relocsPtr_fixed writable at_k (quiet k info at_k) stored describes fixed present
    rw [rebased, ptrFixup_sub]
    cases internal with
    | true => exact relocTable_past describes.internal before areas.internal placed.internal_inside
    | false => exact relocTable_past describes.external before areas.external placed.external_inside

end

/-! ### Relocations -/

section
variable {sort : SymSort} {elf : Elf} {tool : Elf2uso} {srcElfName : Bytes}

/-- An entry the linker goes through comes from a relocation of its section. -/
theorem entry_source (produced : Produced sort elf tool srcElfName) {block : U32}
    (fits : block.toNat + (usoImage (usoWrite tool srcElfName)).length ≤ 2 ^ 32) (search : Bytes → U32) {job : Nat × Bool}
    {sectionBase : U32} {table : List UsoReloc}
    (tabled : jobTable (loadedFile (usoWrite tool srcElfName) search block) job = some (sectionBase, table))
    {e : UsoReloc} (member : e ∈ table) :
    ∃ info r sec, (sectionCollect elf).outSections[job.1]? = some info ∧ r ∈ relocsOf elf info ∧
      (loadedFile (usoWrite tool srcElfName) search block).sections[job.1]? = some sec ∧ sec.data = sectionBase ∧
      (if job.2 then definedEntry elf tool.outSectionMap r = some e
        else undefinedEntry elf tool.importSymMap r = some e) := by
  obtain ⟨sec, found, base, listed⟩ := jobTable_some tabled
  obtain ⟨info, at_k⟩ := collected_of_loaded produced (List.getElem?_eq_some_iff.mp found).1
  obtain ⟨sec', found', loaded⟩ := loadedAs_collected produced fits search at_k
  obtain rfl : sec = sec' := Option.some.inj (found.symm.trans found')
  rw [← listed] at member
  cases internal : job.2 with
  | true =>
    simp only [relocTable, internal, ↓reduceIte, loaded.internal, getD_present] at member
    obtain ⟨r, own, entry⟩ := List.mem_filterMap.mp member
    exact ⟨info, r, sec, at_k, own, found, base, entry⟩
  | false =>
    simp only [relocTable, internal, Bool.false_eq_true, ↓reduceIte, loaded.external, getD_present] at member
    obtain ⟨r, own, entry⟩ := List.mem_filterMap.mp member
    exact ⟨info, r, sec, at_k, own, found, base, entry⟩

/-- The data of a section that is relocated lies between the tables. -/
theorem relocated_place (produced : Produced sort elf tool srcElfName) (inside : RelocsInside elf) {search : Bytes → U32}
    {block : U32} {k : Nat} {info : SectionInfo} (at_k : (sectionCollect elf).outSections[k]? = some info)
    {r : ElfRelocation} (own : r ∈ relocsOf elf info) {sec : LoadedSection}
    (found : (loadedFile (usoWrite tool srcElfName) search block).sections[k]? = some sec) :
    k ≠ 0 ∧ (writtenHeader tool srcElfName).sections.toNat + 20 * tool.outSections.length ≤ (sec.data - block).toNat ∧
      (sec.data - block).toNat + info.size.toNat ≤ dataEnd tool srcElfName := by
  have writable := produced.writable
  have out := withEntries_collected produced.accepted at_k
  have room := relocsInside_collected inside (List.mem_of_getElem? at_k) own
  have size : (withEntries elf tool info).size = info.size := rfl
  have zero : (0 : U32).toNat = 0 := rfl
  have data : (withEntries elf tool info).data.isSome := by
    rw [Option.isSome_iff_ne_none]
    intro absent
    obtain ⟨internal, external⟩ := produced.accepted.quiet out absent
    have names := namesUndefined_of_relocsOf own
    rw [namesDefined_eq elf tool.outSectionMap, namesUndefined_eq elf tool.importSymMap,
      List.filterMap_eq_nil_iff.mp internal r own, List.filterMap_eq_nil_iff.mp external r own] at names
    cases names
  cases k with
  | zero =>
    rw [produced.accepted.dummy, Option.some.injEq] at out
    rw [← out] at data
    cases data
  | succ j =>
    obtain ⟨q, sec', stored, found', start, length⟩ := section_data writable block
      (getUsoNoloadStart (readLoadInfo (usoWrite tool srcElfName)) block) out data
    obtain rfl : sec = sec' := Option.some.inj (found.symm.trans found')
    obtain ⟨q', stored', areas⟩ := forall₂_getElem? (storedSections_areas writable) out
    obtain rfl : q = q' := Option.some.inj (stored.symm.trans stored')
    obtain ⟨above, below⟩ := areas.data data
    obtain ⟨-, last⟩ := data_inside writable out data found' fun empty => by
      rw [size] at empty
      rw [empty, zero] at room
      omega
    rw [length, size, start] at last
    rw [size] at below
    refine ⟨Nat.succ_ne_zero j, ?_, ?_⟩
    · rw [start]
      exact above
    · rw [start]
      unfold dataEnd
      omega

/-- The target words of relocations inside their sections lie in section data. -/
theorem targetsInside (produced : Produced sort elf tool srcElfName) (inside : RelocsInside elf) {block : U32}
    (fits : block.toNat + (usoImage (usoWrite tool srcElfName)).length ≤ 2 ^ 32) (search : Bytes → U32) :
    TargetsInside (loadedFile (usoWrite tool srcElfName) search block) block
      ((writtenHeader tool srcElfName).sections.toNat + 20 * tool.outSections.length) (dataEnd tool srcElfName) where
  inRange := by
    intro job member sectionBase table tabled e inTable
    obtain ⟨info, r, -, -, -, -, -, entry⟩ := entry_source produced fits search tabled inTable
    unfold InRange
    split at entry
    next internal =>
      rw [if_pos internal, length_loadedFile produced]
      exact (definedEntry_target produced.accepted entry).2
    next external =>
      rw [if_neg external]
      intro imports present
      have some : tool.importSyms ≠ [] := by
        intro none
        rw [importSyms_loadedFile produced, none] at present
        cases present
      obtain ⟨imports', present', length⟩ := importSyms_some produced search block some
      obtain rfl : imports = imports' := Option.some.inj (present.symm.trans present')
      rw [length]
      exact (undefinedEntry_target produced.accepted entry).2 some
  targets := by
    intro job member a target
    unfold jobTargets at target
    cases tabled : jobTable (loadedFile (usoWrite tool srcElfName) search block) job with
    | none => simp [tabled] at target
    | some table =>
      obtain ⟨sectionBase, entries⟩ := table
      simp only [tabled] at target
      obtain ⟨e, inTable, rfl⟩ := List.mem_map.mp target
      obtain ⟨info, r, sec, at_k, own, found, rfl, entry⟩ := entry_source produced fits search tabled inTable
      have offset : e.offset = r.offset := by
        split at entry
        · obtain ⟨-, -, -, rfl⟩ := definedEntry_some entry
          rfl
        · obtain ⟨-, -, -, rfl⟩ := undefinedEntry_some entry
          rfl
      have room := relocsInside_collected inside (List.mem_of_getElem? at_k) own
      have small := usoImage_lt produced.writable
      obtain ⟨-, above, below⟩ := relocated_place produced inside at_k own found
      have last : dataEnd tool srcElfName ≤ (usoImage (usoWrite tool srcElfName)).length := Nat.min_le_right _ _
      have cell : sec.data + e.offset - block = (sec.data - block) + r.offset := by
        rw [offset]
        bv_omega
      rw [cell, toNat_add_small (by omega)]
      omega

/-- A file of the tool whose relocations lie inside their sections is linked in its block as on its records. -/
theorem linked_usoWrite (produced : Produced sort elf tool srcElfName) (inside : RelocsInside elf) {block : U32}
    (fits : block.toNat + (usoImage (usoWrite tool srcElfName)).length ≤ 2 ^ 32) (search : Bytes → U32) :
    Linked (usoImage (usoWrite tool srcElfName)) search block
      (getUsoNoloadStart (readLoadInfo (usoWrite tool srcElfName)) block) (afterImports tool srcElfName).toNat
      ((writtenHeader tool srcElfName).sections.toNat + 20 * tool.outSections.length) (dataEnd tool srcElfName) where
  small := usoImage_lt produced.writable
  fits := fits
  tables := tablesApart_usoWrite produced.writable
  relocs := relocsApart_usoWrite produced.writable (fun _ _ at_k => produced.accepted.quiet at_k) block _
  targets := targetsInside produced inside fits search

/-- The image lies in the block once it is read from the file. -/
theorem loadBlock_holds (memory : Memory) {block : U32} {image : Bytes} (small : image.length ≤ 2 ^ 32) (ramSize : U32) :
    HoldsImage (loadBlock memory block ramSize image) block image := by
  intro d _ inside
  rw [loadBlock, distance_field block (by omega), if_pos inside]

/-- The loader's own `fixup_uso`, on the records, is simulated in the block it has read the file into. -/
theorem loadBlock_simulates (produced : Produced sort elf tool srcElfName) (inside : RelocsInside elf) {block : U32}
    (fits : block.toNat + (usoImage (usoWrite tool srcElfName)).length ≤ 2 ^ 32) (search : Bytes → U32) (before : Memory) :
    ∃ memory, memory = loadBlock before block (getUsoRamSize (readLoadInfo (usoWrite tool srcElfName)))
        (usoImage (usoWrite tool srcElfName)) ∧
      Simulates block ((writtenHeader tool srcElfName).sections.toNat + 20 * tool.outSections.length)
        (fixupUso (usoImage (usoWrite tool srcElfName)) search block
          (getUsoNoloadStart (readLoadInfo (usoWrite tool srcElfName)) block) memory)
        (fixupUsoAt search block (getUsoNoloadStart (readLoadInfo (usoWrite tool srcElfName)) block) memory) := by
  have small := usoImage_lt produced.writable
  exact ⟨_, rfl, fixupUsoAt_simulates produced.loadable (linked_usoWrite produced inside fits search)
    (loadBlock_holds before (by omega) _)⟩

end

end DragonUso.TableAreas
