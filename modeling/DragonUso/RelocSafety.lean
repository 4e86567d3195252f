import DragonUso.Linking
import DragonUso.WeakImports

/-! Whether the loader can apply every relocation the tool emits. The tool passes types on that the
loader has no case for, and a relocation of an undefined symbol without an import entry is written
with target index zero. -/

namespace DragonUso.RelocSafety
open ByteOrder SparseFile WordAlign WordMemory Format ElfFile ToolCollect ToolWriter LoaderImage FileLayout RoundTrip
open NoloadLayout Relocation Linking SymbolSearch Loader LoaderSteps OpenBinding CollectedTables ProducedFile WeakImports

/-! ### Relocations and their entries -/

def namesDefined (elf : Elf) (r : ElfRelocation) : Bool :=
  match elf.symbols[r.symbol]? with
  | some symbol => symbol.shndx.toNat != SHN_UNDEF
  | none => false

def namesUndefined (elf : Elf) (r : ElfRelocation) : Bool :=
  match elf.symbols[r.symbol]? with
  | some symbol => symbol.shndx.toNat == SHN_UNDEF
  | none => false

/-- What a filter keeps stands in order next to what a partial map makes of it. -/
theorem forall₂_filterMap {α β : Type} {keeps : α → Bool} {f : α → Option β} (agree : ∀ x, keeps x = (f x).isSome)
    (xs : List α) :
    List.Forall₂ (fun x y => x ∈ xs ∧ f x = some y) (xs.filter keeps) (xs.filterMap f) := by
  induction xs with
  | nil => exact List.Forall₂.nil
  | cons x rest ih =>
    have later := ih.imp fun _ _ entry => And.intro (List.mem_cons_of_mem x entry.1) entry.2
    cases found : f x with
    | none =>
      rw [List.filterMap_cons_none found, List.filter_cons_of_neg (by simp [agree, found])]
      exact later
    | some y =>
      rw [List.filterMap_cons_some found, List.filter_cons_of_pos (by simp [agree, found])]
      exact List.Forall₂.cons ⟨List.mem_cons_self, found⟩ later

theorem namesDefined_eq (elf : Elf) (outSectionMap : Nat → Option U16) (r : ElfRelocation) :
    namesDefined elf r = (definedEntry elf outSectionMap r).isSome := by
  unfold namesDefined definedEntry
  cases elf.symbols[r.symbol]? with
  | none => rfl
  | some symbol =>
    by_cases undefined : symbol.shndx.toNat = SHN_UNDEF <;> simp [undefined]

theorem namesUndefined_eq (elf : Elf) (importSymMap : Nat → Option Nat) (r : ElfRelocation) :
    namesUndefined elf r = (undefinedEntry elf importSymMap r).isSome := by
  unfold namesUndefined undefinedEntry
  cases elf.symbols[r.symbol]? with
  | none => rfl
  | some symbol =>
    by_cases undefined : symbol.shndx.toNat = SHN_UNDEF <;> simp [undefined]

theorem definedEntry_some {elf : Elf} {outSectionMap : Nat → Option U16} {r : ElfRelocation} {e : UsoReloc}
    (entry : definedEntry elf outSectionMap r = some e) :
    ∃ symbol, elf.symbols[r.symbol]? = some symbol ∧ symbol.shndx.toNat ≠ SHN_UNDEF ∧
      e = packReloc r ((sectionOf outSectionMap symbol.shndx.toNat).setWidth 32) symbol.value := by
  unfold definedEntry at entry
  cases named : elf.symbols[r.symbol]? with
  | none => simp [named] at entry
  | some symbol =>
    by_cases undefined : symbol.shndx.toNat = SHN_UNDEF
    · simp [named, undefined] at entry
    · simp only [named, if_neg undefined, Option.some.injEq] at entry
      exact ⟨symbol, rfl, undefined, entry.symm⟩

theorem undefinedEntry_some {elf : Elf} {importSymMap : Nat → Option Nat} {r : ElfRelocation} {e : UsoReloc}
    (entry : undefinedEntry elf importSymMap r = some e) :
    ∃ symbol, elf.symbols[r.symbol]? = some symbol ∧ symbol.shndx.toNat = SHN_UNDEF ∧
      e = packReloc r (BitVec.ofNat 32 ((importSymMap r.symbol).getD 0)) 0 := by
  unfold undefinedEntry at entry
  cases named : elf.symbols[r.symbol]? with
  | none => simp [named] at entry
  | some symbol =>
    by_cases undefined : symbol.shndx.toNat = SHN_UNDEF
    · simp only [named, if_pos undefined, Option.some.injEq] at entry
      exact ⟨symbol, rfl, undefined, entry.symm⟩
    · simp [named, undefined] at entry

/-- A supported type survives the six bits it is given. -/
theorem supported_packed {type : Byte} (supported : IsSupported type) : type &&& 0x3F = type := by
  rcases supported with rfl | rfl | rfl | rfl <;> decide

section
variable {sort : SymSort} {elf : Elf} {tool : Elf2uso} {srcElfName : Bytes}

/-- The target of an internal entry is a section of the USO. -/
theorem definedEntry_target (accepted : Accepted sort elf tool) {r : ElfRelocation} {e : UsoReloc}
    (entry : definedEntry elf tool.outSectionMap r = some e) :
    usoGetRelocType e = r.type &&& 0x3F ∧ (usoGetRelocTargetIndex e).toNat < tool.outSections.length := by
  obtain ⟨symbol, -, -, rfl⟩ := definedEntry_some entry
  have inside := accepted.sectionOf_lt symbol.shndx.toNat
  have few := (sectionOf tool.outSectionMap symbol.shndx.toNat).isLt
  refine ⟨usoGetRelocType_packed .., ?_⟩
  rw [packReloc, usoGetRelocTargetIndex_packed, index_toNat, BitVec.toNat_setWidth]
  omega

/-- The target of an external entry is an import, provided there is any. -/
theorem undefinedEntry_target (accepted : Accepted sort elf tool) {r : ElfRelocation} {e : UsoReloc}
    (entry : undefinedEntry elf tool.importSymMap r = some e) :
    usoGetRelocType e = r.type &&& 0x3F ∧
      (tool.importSyms ≠ [] → (usoGetRelocTargetIndex e).toNat < tool.importSyms.length) := by
  obtain ⟨symbol, named, undefined, rfl⟩ := undefinedEntry_some entry
  refine ⟨usoGetRelocType_packed .., fun some => ?_⟩
  have positive := List.length_pos_iff.mpr some
  rw [packReloc, usoGetRelocTargetIndex_packed, index_toNat, BitVec.toNat_ofNat]
  cases imported : isImported symbol with
  | true =>
    obtain ⟨k, position, at_k⟩ := accepted.importSymMap_entry named imported
    have inside := (List.getElem?_eq_some_iff.mp at_k).1
    rw [position, Option.getD_some]
    calc
      _ ≤ k % 2 ^ 32 := Nat.mod_le _ _
      _ ≤ k := Nat.mod_le _ _
      _ < _ := inside
  | false =>
    rw [accepted.importSymMap_none named imported]
    simpa using positive

end

/-- An internal entry has the type of its relocation and a section of the USO for its target. -/
def InternalEntry (uso : LoadedUso) (r : ElfRelocation) (e : UsoReloc) : Prop :=
  usoGetRelocType e = r.type ∧ (usoGetRelocTargetIndex e).toNat < uso.sections.length

/-- An external entry has the type of its relocation and an import for its target. -/
def ExternalEntry (uso : LoadedUso) (r : ElfRelocation) (e : UsoReloc) : Prop :=
  usoGetRelocType e = r.type ∧
    ∃ imports, uso.importSyms = some imports ∧ (usoGetRelocTargetIndex e).toNat < imports.length

/-- The tables of a loaded section hold the entries of the ELF's relocations. -/
structure TablesApply (elf : Elf) (uso : LoadedUso) (info : SectionInfo) (sec : LoadedSection) : Prop where
  internal : List.Forall₂ (InternalEntry uso) ((relocsOf elf info).filter (namesDefined elf))
    (sec.internalRelocs.getD [])
  external : List.Forall₂ (ExternalEntry uso) ((relocsOf elf info).filter (namesUndefined elf))
    (sec.externalRelocs.getD [])

/-- The relocations of an ELF section with contents, in the section named `.rel` and its name. -/
def elfRelocs (elf : Elf) (s : ElfSection) : List ElfRelocation :=
  if s.type = SHT_NOBITS ∨ elfFindSection elf (relPrefix ++ s.name) = SHN_UNDEF then []
  else relocationsOf elf (elfFindSection elf (relPrefix ++ s.name))

/-- A relocation of one of the four types; if it names an undefined symbol, something is imported. -/
def SupportedReloc (elf : Elf) (r : ElfRelocation) : Prop :=
  IsSupported r.type ∧ (namesUndefined elf r = true → ∃ s ∈ elf.symbols, isImported s = true)

/-- The relocations of all allocated sections are supported. -/
def RelocsSupported (elf : Elf) : Prop :=
  ∀ s ∈ elf.sections.tail, isAllocated s = true → ∀ r ∈ elfRelocs elf s, SupportedReloc elf r

/-- The relocations of all allocated sections lie inside their sections. The loader does not check it, and follows its
tables through the memory it patches. -/
def RelocsInside (elf : Elf) : Prop :=
  ∀ s ∈ elf.sections.tail, isAllocated s = true → ∀ r ∈ elfRelocs elf s, r.offset.toNat + 4 ≤ s.size.toNat

theorem relocsOf_sectionData (elf : Elf) (s : ElfSection) : relocsOf elf (sectionData elf s) = elfRelocs elf s := by
  unfold relocsOf sectionData elfRelocs
  by_cases noload : s.type = SHT_NOBITS
  · have skipped : s.type = SHT_NOBITS ∨ elfFindSection elf (relPrefix ++ s.name) = SHN_UNDEF := .inl noload
    rw [if_pos noload, if_pos skipped]
    exact if_neg (not_not_intro rfl)
  · rw [if_neg noload]
    by_cases absent : elfFindSection elf (relPrefix ++ s.name) = SHN_UNDEF
    · rw [if_neg (not_not_intro absent), if_pos (.inr absent)]
    · rw [if_pos absent, if_neg (not_or.mpr ⟨noload, absent⟩)]

/-- A relocation the tool goes through is one of an allocated section. -/
theorem relocsOf_source {elf : Elf} {info : SectionInfo} (collected : info ∈ (sectionCollect elf).outSections)
    {r : ElfRelocation} (member : r ∈ relocsOf elf info) :
    ∃ s ∈ elf.sections.tail, isAllocated s = true ∧ info = sectionData elf s ∧ r ∈ elfRelocs elf s := by
  have below := sectionCollect_below elf
  obtain ⟨k, at_k⟩ := List.mem_iff_getElem?.mp collected
  by_cases dummy : k = 0
  · subst dummy
    rw [below.dummy, Option.some.injEq] at at_k
    have none : relocsOf elf dummySection = [] := if_neg (not_not_intro rfl)
    rw [← at_k, none] at member
    exact absurd member List.not_mem_nil
  · obtain ⟨index, s, real, at_index, allocated, rfl, -⟩ := below.source k info dummy at_k
    obtain ⟨i, rfl⟩ : ∃ i, index = i + 1 := Nat.exists_eq_succ_of_ne_zero real
    rw [relocsOf_sectionData] at member
    rw [← List.getElem?_tail] at at_index
    exact ⟨s, List.mem_of_getElem? at_index, allocated, rfl, member⟩

/-- Those are the relocations the tool goes through. -/
theorem relocsSupported_iff (elf : Elf) :
    RelocsSupported elf ↔
      ∀ info ∈ (sectionCollect elf).outSections, ∀ r ∈ relocsOf elf info, SupportedReloc elf r := by
  have below := sectionCollect_below elf
  constructor
  · intro supported info collected r member
    obtain ⟨s, listed, allocated, -, own⟩ := relocsOf_source collected member
    exact supported s listed allocated r own
  · intro supported s inTail allocated r member
    obtain ⟨i, at_i⟩ := List.mem_iff_getElem?.mp inTail
    rw [List.getElem?_tail] at at_i
    have real : i + 1 ≠ SHN_UNDEF := Nat.succ_ne_zero i
    have inside := (List.getElem?_eq_some_iff.mp at_i).1
    obtain ⟨k, found⟩ := below.allocated (i + 1) s real (by omega) at_i allocated
    obtain ⟨-, -, t, at_i', -, stored⟩ := below.mapped (i + 1) k real found
    rw [at_i, Option.some.injEq] at at_i'
    subst t
    exact supported _ (List.mem_of_getElem? stored) r (relocsOf_sectionData elf s ▸ member)

theorem relocsInside_collected {elf : Elf} (inside : RelocsInside elf) {info : SectionInfo}
    (collected : info ∈ (sectionCollect elf).outSections) {r : ElfRelocation} (member : r ∈ relocsOf elf info) :
    r.offset.toNat + 4 ≤ info.size.toNat := by
  obtain ⟨s, listed, allocated, rfl, own⟩ := relocsOf_source collected member
  have size : (sectionData elf s).size = s.size := by
    unfold sectionData
    split <;> rfl
  rw [size]
  exact inside s listed allocated r own

/-- The USO `link_uso` is given for a file in a block. -/
def loadedFile (file : Bytes) (search : Bytes → U32) (block : U32) : LoadedUso :=
  fixedUso (usoImage file) search block (getUsoNoloadStart (readLoadInfo file) block)

/-! ### The loaded tables -/

section
variable {sort : SymSort} {elf : Elf} {tool : Elf2uso} {srcElfName : Bytes}

/-- A collected section with its relocations in two tables. -/
def withEntries (elf : Elf) (tool : Elf2uso) (info : SectionInfo) : SectionInfo :=
  { info with
    internalRelocs := (relocsOf elf info).filterMap (definedEntry elf tool.outSectionMap)
    externalRelocs := (relocsOf elf info).filterMap (undefinedEntry elf tool.importSymMap) }

theorem withEntries_collected (accepted : Accepted sort elf tool) {k : Nat} {info : SectionInfo}
    (at_k : (sectionCollect elf).outSections[k]? = some info) :
    tool.outSections[k]? = some (withEntries elf tool info) := by
  have below := sectionCollect_below elf
  by_cases dummy : k = 0
  · subst dummy
    rw [below.dummy, Option.some.injEq] at at_k
    have none : relocsOf elf dummySection = [] := if_neg (not_not_intro rfl)
    rw [accepted.dummy, ← at_k, withEntries, none]
    rfl
  · obtain ⟨index, s, -, -, -, rfl, -⟩ := below.source k info dummy at_k
    exact accepted.outSection_of_getElem? at_k

/-- Every output section of the tool is loaded. -/
theorem loadedAs_outSection (produced : Produced sort elf tool srcElfName) {block : U32}
    (fits : block.toNat + (usoImage (usoWrite tool srcElfName)).length ≤ 2 ^ 32) (search : Bytes → U32) {k : Nat}
    {info : SectionInfo} (at_k : tool.outSections[k]? = some info) :
    ∃ sec, (loadedFile (usoWrite tool srcElfName) search block).sections[k]? = some sec ∧
      LoadedAs (usoImage (usoWrite tool srcElfName)) block k info sec :=
  loadedSections_usoWrite produced.writable _ fits at_k (produced.accepted.quiet at_k)

theorem loadedAs_collected (produced : Produced sort elf tool srcElfName) {block : U32}
    (fits : block.toNat + (usoImage (usoWrite tool srcElfName)).length ≤ 2 ^ 32) (search : Bytes → U32) {k : Nat}
    {info : SectionInfo} (at_k : (sectionCollect elf).outSections[k]? = some info) :
    ∃ sec, (loadedFile (usoWrite tool srcElfName) search block).sections[k]? = some sec ∧
      LoadedAs (usoImage (usoWrite tool srcElfName)) block k (withEntries elf tool info) sec :=
  loadedAs_outSection produced fits search (withEntries_collected produced.accepted at_k)

theorem length_loadedFile (produced : Produced sort elf tool srcElfName) (search : Bytes → U32) (block : U32) :
    (loadedFile (usoWrite tool srcElfName) search block).sections.length = tool.outSections.length := by
  simp only [loadedFile, fixedUso, loadedSections_length]
  exact numSections_usoWrite produced.writable

theorem importSyms_loadedFile (produced : Produced sort elf tool srcElfName) (search : Bytes → U32) (block : U32) :
    (loadedFile (usoWrite tool srcElfName) search block).importSyms =
      (present (tool.importSyms.map loadedSymbol)).map fun table =>
        table.map fun s => { s with ptr := search s.name } := by
  simp only [loadedFile, fixedUso, fixupImports_eq]
  rw [imports_usoWrite produced.writable]

/-- The import table of a produced file is absent exactly if nothing is imported. -/
theorem importSyms_some (produced : Produced sort elf tool srcElfName) (search : Bytes → U32) (block : U32)
    (some : tool.importSyms ≠ []) : ∃ imports,
      (loadedFile (usoWrite tool srcElfName) search block).importSyms = .some imports ∧
        imports.length = tool.importSyms.length := by
  rw [importSyms_loadedFile produced, present, if_neg (by simpa using some)]
  exact ⟨_, rfl, by simp⟩

/-- Section numbers of the collected sections are those of the loaded ones. -/
theorem collected_of_loaded (produced : Produced sort elf tool srcElfName) {search : Bytes → U32} {block : U32}
    {k : Nat} (inside : k < (loadedFile (usoWrite tool srcElfName) search block).sections.length) :
    ∃ info, (sectionCollect elf).outSections[k]? = some info := by
  rw [length_loadedFile produced, produced.accepted.length_outSections] at inside
  exact ⟨_, List.getElem?_eq_getElem inside⟩

/-! ### Supported relocations -/

theorem tablesApply_of_supported (produced : Produced sort elf tool srcElfName) (supported : RelocsSupported elf)
    {search : Bytes → U32} {block : U32} (fits : block.toNat + (usoImage (usoWrite tool srcElfName)).length ≤ 2 ^ 32)
    {k : Nat} {info : SectionInfo} {sec : LoadedSection} (at_k : (sectionCollect elf).outSections[k]? = some info)
    (found : (loadedFile (usoWrite tool srcElfName) search block).sections[k]? = some sec) :
    TablesApply elf (loadedFile (usoWrite tool srcElfName) search block) info sec := by
  obtain ⟨sec', found', loaded⟩ := loadedAs_collected produced fits search at_k
  rw [found, Option.some.injEq] at found'
  subst sec'
  have own := (relocsSupported_iff elf).mp supported info (List.mem_of_getElem? at_k)
  constructor
  · rw [loaded.internal, getD_present]
    refine (forall₂_filterMap (namesDefined_eq elf _) _).imp fun r e entry => ?_
    obtain ⟨type, target⟩ := definedEntry_target produced.accepted entry.2
    refine ⟨type.trans (supported_packed (own r entry.1).1), ?_⟩
    rw [length_loadedFile produced]
    exact target
  · rw [loaded.external, getD_present]
    refine (forall₂_filterMap (namesUndefined_eq elf _) _).imp fun r e entry => ?_
    obtain ⟨type, target⟩ := undefinedEntry_target produced.accepted entry.2
    have names : namesUndefined elf r = true := by rw [namesUndefined_eq elf tool.importSymMap, entry.2]; rfl
    obtain ⟨s, member, imported⟩ := (own r entry.1).2 names
    obtain ⟨i, at_i⟩ := List.mem_iff_getElem?.mp member
    have some : tool.importSyms ≠ [] :=
      List.ne_nil_of_mem (produced.accepted.mem_importSyms.mpr ⟨i, s, at_i, imported, rfl⟩)
    obtain ⟨imports, present, length⟩ := importSyms_some produced search block some
    exact ⟨type.trans (supported_packed (own r entry.1).1), imports, present, length ▸ target some⟩

/-- A table the linker goes through is that of a loaded section. -/
theorem jobTable_some {uso : LoadedUso} {job : Nat × Bool} {sectionBase : U32} {table : List UsoReloc}
    (tabled : jobTable uso job = some (sectionBase, table)) :
    ∃ sec, uso.sections[job.1]? = some sec ∧ sec.data = sectionBase ∧ (relocTable sec job.2).getD [] = table := by
  unfold jobTable at tabled
  cases found : uso.sections[job.1]? with
  | none => simp [found] at tabled
  | some sec =>
    simp only [found] at tabled
    cases listed : relocTable sec job.2 with
    | none => simp [listed] at tabled
    | some entries =>
      simp only [listed] at tabled
      split at tabled
      · cases tabled
      · rw [Option.some.injEq, Prod.mk.injEq] at tabled
        exact ⟨sec, rfl, tabled.1, by rw [listed, ← tabled.2]; rfl⟩

theorem jobTable_of_mem {uso : LoadedUso} {k : Nat} {internal : Bool} {sec : LoadedSection}
    (found : uso.sections[k]? = some sec) (placed : sec.data ≠ 0) {e : UsoReloc}
    (member : e ∈ (relocTable sec internal).getD []) :
    jobTable uso (k, internal) = some (sec.data, (relocTable sec internal).getD []) := by
  unfold jobTable
  rw [found]
  cases listed : relocTable sec internal with
  | none =>
    rw [listed] at member
    exact absurd member List.not_mem_nil
  | some table =>
    simp only [listed, if_neg placed]
    rfl

theorem exists_right {α β : Type} {R : α → β → Prop} {xs : List α} {ys : List β} (all : List.Forall₂ R xs ys) {x : α}
    (member : x ∈ xs) : ∃ y ∈ ys, R x y := by
  obtain ⟨i, at_i⟩ := List.mem_iff_getElem?.mp member
  obtain ⟨y, found, related⟩ := forall₂_getElem? all at_i
  exact ⟨y, List.mem_of_getElem? found, related⟩

theorem exists_left {α β : Type} {R : α → β → Prop} {xs : List α} {ys : List β} (all : List.Forall₂ R xs ys) {y : β}
    (member : y ∈ ys) : ∃ x ∈ xs, R x y :=
  exists_right (List.Forall₂.flip (R := fun y x => R x y) all) member

/-- Entries with targets in range resolve. -/
theorem TablesApply.resolves {uso : LoadedUso} {info : SectionInfo} {sec : LoadedSection}
    (tables : TablesApply elf uso info sec) (internal : Bool) :
    ∀ e ∈ (relocTable sec internal).getD [], ∃ r ∈ relocsOf elf info, usoGetRelocType e = r.type ∧
      ∃ symAddr, symbolAddress uso internal e = .ok symAddr := by
  intro e member
  cases internal with
  | true =>
    obtain ⟨r, own, type, target⟩ := exists_left tables.internal member
    refine ⟨r, List.mem_of_mem_filter own, type, uso.sections[(usoGetRelocTargetIndex e).toNat].data + e.symOffset, ?_⟩
    simp only [symbolAddress, ↓reduceIte, List.getElem?_eq_getElem target]
  | false =>
    obtain ⟨r, own, type, imports, present, target⟩ := exists_left tables.external member
    refine ⟨r, List.mem_of_mem_filter own, type, imports[(usoGetRelocTargetIndex e).toNat].ptr, ?_⟩
    simp [symbolAddress, present, List.getElem?_eq_getElem target]

/-- The linker gets through a supported file. -/
theorem linkUso_supported (produced : Produced sort elf tool srcElfName) (supported : RelocsSupported elf)
    (search : Bytes → U32) {block : U32} (fits : block.toNat + (usoImage (usoWrite tool srcElfName)).length ≤ 2 ^ 32)
    (memory : Memory) : ∃ after, linkUso (loadedFile (usoWrite tool srcElfName) search block) memory = .ok after := by
  refine ⟨_, applyTables_ok (fun job member => (mem_linkOrder.mp member).2) ?_ memory⟩
  intro job member sectionBase table tabled r inTable
  obtain ⟨info, at_k⟩ := collected_of_loaded produced (mem_linkOrder.mp member).2
  obtain ⟨sec, found, -, rfl⟩ := jobTable_some tabled
  obtain ⟨source, own, type, resolves⟩ :=
    (tablesApply_of_supported produced supported fits at_k found).resolves job.2 r inTable
  have known := (relocsSupported_iff elf).mp supported info (List.mem_of_getElem? at_k) source own
  exact ⟨type ▸ known.1, resolves⟩

/-- Opening a supported file returns, whatever is loaded. -/
theorem usoOpen_returns (produced : Produced sort elf tool srcElfName) (supported : RelocsSupported elf)
    {st : LoaderState} {loaded : Registry} (sound : SoundState st loaded) {filename : Bytes}
    (notLoaded : NotLoaded loaded filename) {alloc : Allocation} (fresh : Fresh st (usoWrite tool srcElfName) alloc) :
    ∃ st' handle, usoOpen st filename (some (usoWrite tool srcElfName)) alloc = .ok (st', handle) := by
  cases opened : usoOpen st filename (some (usoWrite tool srcElfName)) alloc with
  | ok result => exact ⟨result.1, result.2, rfl⟩
  | error fault =>
    have room := produced.loadable.room
    have ends := fresh.block_ends
    have stops := (usoOpen_outcome sound notLoaded produced.loadable fresh).fault fault opened
    have fits : alloc.block.toNat + (usoImage (usoWrite tool srcElfName)).length ≤ 2 ^ 32 := by omega
    obtain ⟨after, links⟩ := linkUso_supported produced supported (resolve st loaded) fits
      (blockMemory st (usoWrite tool srcElfName) alloc)
    exact absurd (stops.symm.trans links) (by simp)

/-- A relocation names a symbol, which is defined or not. -/
theorem namesUndefined_of_relocsOf {info : SectionInfo} {r : ElfRelocation} (member : r ∈ relocsOf elf info) :
    namesUndefined elf r = !namesDefined elf r := by
  have inside : r.symbol < elf.symbols.length := by
    unfold relocsOf relocationsOf at member
    split at member
    · split at member
      next s found => exact elf.relocations_named s (List.mem_of_getElem? found) r member
      · exact absurd member List.not_mem_nil
    · exact absurd member List.not_mem_nil
  unfold namesDefined namesUndefined
  rw [List.getElem?_eq_getElem inside]
  simp only [bne, Bool.not_not]

end

/-! Samples with code and relocations of it. -/

def codeSection : ElfSection :=
  { textSection with
    size := 8
    data := some [0, 0, 0, 0, 0, 0, 0, 0]
    data_length := by simp }

def relSection (relocations : List ElfRelocation) : ElfSection :=
  { nullSection with
    name := relPrefix ++ textSection.name
    type := SHT_REL
    relocations := relocations
    data_present := by decide }

theorem symtabSymbols_relocated (symbols : List ElfSymbol) (relocations : List ElfRelocation) :
    symtabSymbols [nullSection, codeSection, symtabSection symbols, relSection relocations] = symbols := rfl

def relocatedElf (symbols : List ElfSymbol) (relocations : List ElfRelocation) (symbols_le : symbols.length ≤ 2 ^ 24)
    (named : ∀ r ∈ relocations, r.symbol < symbols.length) : Elf :=
  { sampleElf symbols symbols_le with
    sections := [nullSection, codeSection, symtabSection symbols, relSection relocations]
    sections_lt := by simp [SHN_LORESERVE]
    symbols_le := by rw [symtabSymbols_relocated]; exact symbols_le
    relocations_named := by
      rw [symtabSymbols_relocated]
      simpa [nullSection, codeSection, textSection, symtabSection, relSection] using named }

/-- A word with the address of the import `f`, and a jump to the own symbol `g`. -/
def callerElf : Elf :=
  relocatedElf [nullSymbol, importedF, exportedG] [⟨0, 0x102⟩, ⟨4, 0x204⟩] programElf.symbols_le (by decide)

def callerTool : Elf2uso := sampleTool callerElf [importSymbol 1 importedF] [exportSymbol 2 exportedG 1]

theorem callerElf_produced : Produced nameSort callerElf callerTool [99] :=
  sampleTool_produced (by decide +kernel) (by decide +kernel) (by decide) (by decide +kernel) (by decide +kernel)

/-! A sample whose code asks for no alignment. ELF allows it; the offset of the code wraps to the start of
the file, and the tables that follow it are written over others. -/

def unalignedCode : ElfSection := { codeSection with addrAlign := 0 }

theorem symtabSymbols_unaligned (symbols : List ElfSymbol) (relocations : List ElfRelocation) :
    symtabSymbols [nullSection, unalignedCode, symtabSection symbols, relSection relocations] = symbols := rfl

/-- The address of `g` in a pair of instructions. -/
def unalignedRelocs : List ElfRelocation := [⟨0, 0x205⟩, ⟨4, 0x206⟩]

def unalignedElf : Elf :=
  { programElf with
    sections := [nullSection, unalignedCode, symtabSection programElf.symbols, relSection unalignedRelocs]
    sections_lt := by simp [SHN_LORESERVE]
    symbols_le := by rw [symtabSymbols_unaligned]; exact programElf.symbols_le
    relocations_named := by
      rw [symtabSymbols_unaligned]
      simpa [nullSection, unalignedCode, codeSection, textSection, symtabSection, relSection] using
        (by decide : ∀ r ∈ unalignedRelocs, r.symbol < programElf.symbols.length) }

def unalignedTool : Elf2uso := sampleTool unalignedElf [importSymbol 1 importedF] [exportSymbol 2 exportedG 1]

theorem unalignedElf_collected : elf2uso nameSort unalignedElf = .ok unalignedTool :=
  elf2uso_sampleTool (by decide +kernel) (by decide +kernel) (by decide) (by decide)

end DragonUso.RelocSafety
