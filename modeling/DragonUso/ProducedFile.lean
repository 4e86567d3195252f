import DragonUso.CollectedTables
import DragonUso.NoloadLayout
import DragonUso.OpenBinding

/-! The files `elf2uso` makes of linker output are files the loader can open: their section numbers
are in range, the block it allocates holds the image, and the tables it follows are the collected
ones. -/

namespace DragonUso.ProducedFile
open ByteOrder SparseFile WordAlign Packing WordMemory Format ElfFile ToolCollect ToolWriter LoaderImage WriterLayout
open FileLayout RoundTrip NoloadLayout Relocation SymbolSearch Loader LoaderSteps OpenBinding CollectedTables

/-- The tool's result for an ELF as linkers write it: section alignments are powers of two, and the
file with the NOLOAD memory it asks for stays below 2 GB. -/
structure Produced (sort : SymSort) (elf : Elf) (tool : Elf2uso) (srcElfName : Bytes) : Prop where
  collected : elf2uso sort elf = .ok tool
  aligned : ∀ s ∈ elf.sections, isAllocated s = true → IsPow2 s.addrAlign
  small : (usoWrite tool srcElfName).length + total (noloadShapes tool.outSections) < 2 ^ 31

section
variable {sort : SymSort} {elf : Elf} {tool : Elf2uso} {srcElfName : Bytes}

/-- Samples are produced by evaluation. -/
theorem sampleTool_produced {importSyms exportSyms : List SymbolInfo}
    (accepted : elfValid elf = true ∧ commonIsUsed elf = false ∧ checkGpRelativeRelocations elf = false)
    (collected : symCollectLoop (sectionCollect elf).outSectionMap 0 elf.symbols { importSyms := [], exportSyms := [] } =
      .ok { importSyms := importSyms, exportSyms := exportSyms })
    (few : importSyms.length ≤ 1 ∧ exportSyms.length ≤ 1)
    (aligned : ∀ s ∈ elf.sections, isAllocated s = true → s.addrAlign = 4)
    (small : (usoWrite (sampleTool elf importSyms exportSyms) srcElfName).length +
      total (noloadShapes (sampleTool elf importSyms exportSyms).outSections) < 2 ^ 31) :
    Produced sort elf (sampleTool elf importSyms exportSyms) srcElfName where
  collected := elf2uso_sampleTool accepted collected few.1 few.2
  aligned := by
    intro s member allocated
    rw [aligned s member allocated]
    exact ⟨2, by decide, rfl⟩
  small := small

/-! ### Symbol tables -/

/-- Names come from the ELF's string table and were checked for length. -/
theorem importSyms_fit (accepted : Accepted sort elf tool) : TableFits tool.importSyms := by
  intro e member
  obtain ⟨i, s, at_i, imported, rfl⟩ := accepted.mem_importSyms.mp member
  have nonlocal : s.bind ≠ STB_LOCAL := by
    simp only [isImported, Bool.and_eq_true, bne_iff_ne] at imported
    exact imported.1
  exact ⟨s.name_terminated, Nat.le_of_lt_succ (accepted.fits s (List.mem_of_getElem? at_i) nonlocal)⟩

theorem exportSyms_fit (accepted : Accepted sort elf tool) : TableFits tool.exportSyms := by
  intro e member
  obtain ⟨i, s, at_i, exported, rfl⟩ := accepted.mem_exportSyms.mp member
  have nonlocal : s.bind ≠ STB_LOCAL := by
    simp only [isExported, Bool.and_eq_true, bne_iff_ne] at exported
    exact exported.1.1
  exact ⟨s.name_terminated, Nat.le_of_lt_succ (accepted.fits s (List.mem_of_getElem? at_i) nonlocal)⟩

theorem Produced.accepted (produced : Produced sort elf tool srcElfName) : Accepted sort elf tool :=
  elf2uso_ok produced.collected

theorem Produced.writable (produced : Produced sort elf tool srcElfName) : Writable tool srcElfName where
  dummy := by
    rw [List.head?_eq_getElem?]
    exact produced.accepted.dummy
  count := by
    have reserved : SHN_LORESERVE = 65280 := rfl
    have few := elf.sections_lt
    have count := (sectionCollect_below elf).count
    rw [produced.accepted.length_outSections]
    omega
  aligned := by
    intro info member
    obtain ⟨k, bound, at_k⟩ := List.mem_iff_getElem.mp member
    have found : tool.outSections[k + 1]? = some info := by
      rw [← List.getElem?_tail]
      exact List.getElem?_eq_some_iff.mpr ⟨bound, at_k⟩
    obtain ⟨index, s, -, at_index, allocated, rfl, -⟩ := produced.accepted.source_of_getElem? (by omega) found
    have pow := produced.aligned s (List.mem_of_getElem? at_index) allocated
    have same : (outSection elf tool s).align = s.addrAlign := by
      simp only [outSection, sectionData]
      split <;> rfl
    rw [same]
    exact pow
  imports := importSyms_fit produced.accepted
  exports := exportSyms_fit produced.accepted
  size := Nat.lt_of_le_of_lt (Nat.le_add_right _ _) produced.small

theorem getD_present {α : Type} (xs : List α) : (present xs).getD [] = xs := by
  unfold present
  split
  next none => rw [none]; rfl
  next => rfl

/-- A written table as the loader reads it, absent or not. -/
theorem entries_present (syms : List SymbolInfo) : entries (present (syms.map loadedSymbol)) = syms.map loadedSymbol :=
  getD_present _

/-- The header of a written file names the special sections. -/
theorem specialSections_usoWrite (writable : Writable tool srcElfName) :
    (readHeader (usoImage (usoWrite tool srcElfName))).ehFrameSection = specialSection tool ehFrameName ∧
    (readHeader (usoImage (usoWrite tool srcElfName))).ctorsSection = specialSection tool ctorsName ∧
    (readHeader (usoImage (usoWrite tool srcElfName))).dtorsSection = specialSection tool dtorsName := by
  rw [readHeader_usoWrite writable]
  exact ⟨rfl, rfl, rfl⟩

theorem Produced.loadable (produced : Produced sort elf tool srcElfName) : LoadableFile (usoWrite tool srcElfName) := by
  obtain ⟨ehFrame, ctors, dtors⟩ := specialSections_usoWrite produced.writable
  have count := numSections_usoWrite produced.writable
  have inside := produced.accepted.sectionOf_lt
  refine
    { room := usoImage_le_ramSize produced.writable produced.small
      exportSections := ?_
      ehFrame := by rw [ehFrame, count]; exact inside _
      ctors := by rw [ctors, count]; exact inside _
      dtors := by rw [dtors, count]; exact inside _ }
  intro s member
  rw [exports_usoWrite produced.writable, entries_present] at member
  obtain ⟨e, exported, rfl⟩ := List.mem_map.mp member
  obtain ⟨i, symbol, -, -, rfl⟩ := produced.accepted.mem_exportSyms.mp exported
  rw [count]
  exact inside _

/-- Sorting distinct names puts them in strictly ascending order for the loader's search. -/
theorem sortedTable_run (sort : SymSort) {syms : List SymbolInfo} (distinct : (syms.map fun e => e.name).Nodup) :
    SortedTable ((sort.run syms).map loadedSymbol) := by
  have nodup : ((sort.run syms).map fun e => e.name).Nodup := ((sort.perm syms).map _).nodup_iff.mpr distinct
  unfold SortedTable
  rw [List.pairwise_map]
  rw [List.Nodup, List.pairwise_map] at nodup
  refine (sort.sorted syms).imp₂ ?_ nodup
  intro a b order differ
  have notGreater : ¬ strcmp b.name a.name = .lt := by
    rw [← stringLess_iff]
    simpa [symCompare] using order
  cases compared : strcmp a.name b.name with
  | lt => exact compared
  | eq => exact absurd ((strcmp_eq_iff _ _).mp compared) differ
  | gt => exact absurd ((strcmp_gt_iff _ _).mp compared) notGreater

/-- A sort that does what the standard asks for. -/
def nameSort : SymSort where
  run symbols := symbols.mergeSort fun a b => !symCompare b a
  perm symbols := List.mergeSort_perm symbols _
  sorted symbols := by
    have order : ∀ a b : SymbolInfo, (!symCompare b a) = true ↔ strcmp b.name a.name ≠ .lt := by
      intro a b
      rw [ne_eq, ← stringLess_iff]
      simp [symCompare]
    suffices ascending : (symbols.mergeSort fun a b => !symCompare b a).Pairwise fun a b => !symCompare b a from
      ascending.imp fun ordered => by simpa using ordered
    apply List.pairwise_mergeSort
    · intro a b c first second
      rw [order] at first second ⊢
      intro below
      cases compared : strcmp c.name b.name with
      | lt => exact second compared
      | eq => exact first ((strcmp_eq_iff _ _).mp compared ▸ below)
      | gt => exact first (strcmp_lt_trans ((strcmp_gt_iff _ _).mp compared) below)
    · intro a b
      rw [Bool.or_eq_true, order, order]
      cases compared : strcmp b.name a.name with
      | lt =>
        right
        intro both
        have same := strcmp_lt_trans compared both
        rw [strcmp_self] at same
        cases same
      | eq => exact .inl (by simp)
      | gt => exact .inl (by simp)

/-- With distinct names the file can be searched as well as opened. -/
theorem Produced.sound (produced : Produced sort elf tool srcElfName)
    (imports : (tool.importSyms.map fun e => e.name).Nodup) (exports : (tool.exportSyms.map fun e => e.name).Nodup) :
    SoundFile (usoWrite tool srcElfName) where
  toLoadableFile := produced.loadable
  imports := by
    have table := imports_usoWrite produced.writable
    rw [table, entries_present, produced.accepted.importSyms]
    rw [produced.accepted.importSyms, ((sort.perm _).map _).nodup_iff] at imports
    exact sortedTable_run sort imports
  exports := by
    have table := exports_usoWrite produced.writable
    rw [table, entries_present, produced.accepted.exportSyms]
    rw [produced.accepted.exportSyms, ((sort.perm _).map _).nodup_iff] at exports
    exact sortedTable_run sort exports

/-! ### The loaded sections -/

/-- An output section as `fixup_uso` leaves it in a block at `base`. -/
structure LoadedAs (image : Bytes) (base : U32) (k : Nat) (info : SectionInfo) (sec : LoadedSection) : Prop where
  size : sec.dataSize = info.size
  internal : sec.internalRelocs = present info.internalRelocs
  external : sec.externalRelocs = present info.externalRelocs
  dummy : k = 0 → sec.data = 0
  data : k ≠ 0 → ∀ bytes, info.data = some bytes → ∃ ofs : U32, sec.data = base + ofs ∧
    0 < ofs.toNat ∧ ofs.toNat ≤ 2 ^ 31 ∧ readAt image ofs.toNat bytes.length = bytes

theorem tableFrom_absent {image : Bytes} {sections ofs : U32} {relocs : List UsoReloc}
    (table : tableFrom image sections ofs = present relocs) (empty : relocs = []) : ofs = 0 := by
  unfold tableFrom present at table
  rw [if_pos empty] at table
  apply Decidable.byContradiction
  intro nonzero
  rw [if_neg nonzero] at table
  cases table

theorem relocTableAt_absent {image : Bytes} {sections ofs base : U32} {relocs : List UsoReloc}
    (table : tableFrom image sections ofs = present relocs) (empty : relocs = []) :
    relocTableAt image base ofs = present relocs := by
  rw [tableFrom_absent table empty, relocTableAt, if_pos rfl, present, if_pos empty]

/-- Every output section is loaded; sections without data have no relocations to follow. -/
theorem loadedSections_usoWrite (writable : Writable tool srcElfName) {base : U32} (noload : U32)
    (fits : base.toNat + (usoImage (usoWrite tool srcElfName)).length ≤ 2 ^ 32) {k : Nat} {info : SectionInfo}
    (at_k : tool.outSections[k]? = some info)
    (quiet : info.data = none → info.internalRelocs = [] ∧ info.externalRelocs = []) :
    ∃ sec, (loadedSections (usoImage (usoWrite tool srcElfName)) base noload)[k]? = some sec ∧
      LoadedAs (usoImage (usoWrite tool srcElfName)) base k info sec := by
  obtain ⟨r, stored, describes⟩ := forall₂_getElem? (sections_usoWrite writable) at_k
  simp only [loadedSections, List.getElem?_map, fixedSections]
  cases k with
  | zero =>
    have none : info.data = none := by
      have first := writable.dummy
      rw [List.head?_eq_getElem?, at_k, Option.some.injEq] at first
      rw [first]
      rfl
    obtain ⟨internal, external⟩ := quiet none
    rw [fixupSectionTable_dummy _ _ _ r stored]
    exact ⟨_, rfl, describes.size, relocTableAt_absent describes.internal internal,
      relocTableAt_absent describes.external external, fun _ => rfl, fun nonzero => absurd rfl nonzero⟩
  | succ i =>
    cases found : info.data with
    | none =>
      obtain ⟨internal, external⟩ := quiet found
      obtain ⟨data, fixed⟩ := fixupSectionTable_noload (ptrFixup (readHeader (usoImage (usoWrite tool srcElfName))).sections base)
        noload _ i r stored (describes.noload found)
      rw [fixed]
      refine ⟨_, rfl, describes.size, relocTableAt_absent describes.internal internal,
        relocTableAt_absent describes.external external, fun zero => absurd zero (by omega), ?_⟩
      intro _ bytes present
      rw [found] at present
      cases present
    | some bytes =>
      have small := usoImage_lt writable
      obtain ⟨loaded, low, high, data⟩ := describes.loaded bytes found
      rw [fixupSectionTable_loaded _ noload _ i r stored loaded]
      refine ⟨_, rfl, describes.size, relocTableAt_fixed fits small describes.internal describes.internal_inside,
        relocTableAt_fixed fits small describes.external describes.external_inside,
        fun zero => absurd zero (by omega), ?_⟩
      intro _ bytes' present
      rw [found, Option.some.injEq] at present
      subst present
      exact ⟨(readHeader (usoImage (usoWrite tool srcElfName))).sections + r.data, BitVec.add_assoc .., low, high, data⟩

end

end DragonUso.ProducedFile
