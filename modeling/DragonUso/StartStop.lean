import DragonUso.ExportLookup
import DragonUso.SectionAlignment

/-! What starting and stopping a USO runs, for the files of the tool. The loader finds the frame
section and the function tables by section numbers the tool wrote, and takes number 0 for a missing
one; the rest it finds by name in the export table. -/

namespace DragonUso.StartStop
open ByteOrder SparseFile WordAlign WordMemory Format ElfFile ToolCollect ToolWriter WriterLayout LoaderImage FileLayout
open RoundTrip SectionAlignment Relocation SymbolSearch Loader LoaderSteps CollectedTables ProducedFile RelocSafety
open RelocBinding ExportLookup

/-! ### Tables of functions -/

/-- `count` words of memory. -/
def words (memory : Memory) : Nat → U32 → List U32
  | 0, _ => []
  | count + 1, ptr => readWord memory ptr :: words memory count (ptr + 4)

theorem ofNat_four_succ (count : Nat) : BitVec.ofNat 32 (4 * (count + 1)) = 4 + BitVec.ofNat 32 (4 * count) := by
  rw [Nat.mul_add, Nat.add_comm, BitVec.ofNat_add]
  rfl

theorem words_succ (memory : Memory) (count : Nat) (ptr : U32) :
    words memory (count + 1) ptr =
      words memory count ptr ++ [readWord memory (ptr + BitVec.ofNat 32 (4 * count))] := by
  induction count generalizing ptr with
  | zero => simp [words]
  | succ count ih =>
    rw [words, ih, ofNat_four_succ, ← BitVec.add_assoc]
    rfl

/-- The pointer that runs down ends below the table, which is not at the bottom of memory. -/
theorem ctorLoop_eq (memory : Memory) (handle start : U32) (count : Nat) (low : 4 ≤ start.toNat)
    (high : start.toNat + 4 * count < 2 ^ 32) :
    ctorLoop memory handle start (count + 1) (start + BitVec.ofNat 32 (4 * count) - 4) =
      (words memory count start).reverse.map (Event.construct handle) := by
  have four : (4 : U32).toNat = 4 := rfl
  induction count with
  | zero =>
    have word : (4 : U32) ≤ start := BitVec.le_def.mpr low
    have below : ¬ start ≤ start + BitVec.ofNat 32 (4 * 0) - 4 := by
      rw [Nat.mul_zero, BitVec.add_zero, BitVec.le_def, BitVec.toNat_sub_of_le word, four]
      omega
    rw [ctorLoop, if_neg below]
    rfl
  | succ count ih =>
    have curr : start + BitVec.ofNat 32 (4 * (count + 1)) - 4 = start + BitVec.ofNat 32 (4 * count) := by
      rw [ofNat_four_succ, BitVec.add_comm 4, ← BitVec.add_assoc, BitVec.add_sub_cancel]
    have offset : (BitVec.ofNat 32 (4 * count)).toNat = 4 * count := by
      rw [BitVec.toNat_ofNat]
      omega
    have inside : start ≤ start + BitVec.ofNat 32 (4 * count) := by
      rw [BitVec.le_def, BitVec.toNat_add, offset]
      omega
    rw [curr, ctorLoop, if_pos inside, ih (by omega), words_succ, List.reverse_append]
    rfl

theorem dtorLoop_eq (memory : Memory) (handle curr : U32) (count : Nat) (high : curr.toNat + 4 * count < 2 ^ 32) :
    dtorLoop memory handle (curr + BitVec.ofNat 32 (4 * count)) (count + 1) curr =
      (words memory count curr).map (Event.destroy handle) := by
  have four : (4 : U32).toNat = 4 := rfl
  induction count generalizing curr with
  | zero =>
    have stops : ¬ curr < curr + BitVec.ofNat 32 (4 * 0) := by
      rw [Nat.mul_zero, BitVec.add_zero]
      exact BitVec.lt_irrefl curr
    rw [dtorLoop, if_neg stops]
    rfl
  | succ count ih =>
    have offset : (BitVec.ofNat 32 (4 * (count + 1))).toNat = 4 * (count + 1) := by
      rw [BitVec.toNat_ofNat]
      omega
    have inside : curr < curr + BitVec.ofNat 32 (4 * (count + 1)) := by
      rw [BitVec.lt_def, BitVec.toNat_add, offset]
      omega
    have next : (curr + 4).toNat = curr.toNat + 4 := by
      rw [BitVec.toNat_add, four]
      omega
    have later := ih (curr + 4) (by omega)
    rw [BitVec.add_assoc, ← ofNat_four_succ] at later
    rw [dtorLoop, if_pos inside, later]
    rfl

/-! ### What is run -/

/-- What starting and stopping a USO goes through, where it is there. -/
structure Pieces where
  frames : Option LoadedSection
  ctors : Option LoadedSection
  dtors : Option LoadedSection
  prolog : Option U32
  epilog : Option U32
  dsoHandle : Option U32

def frameEvents (make : U32 → Event) : Option LoadedSection → List Event
  | some s => if s.dataSize ≠ 0 then [make s.data] else []
  | none => []

def tableWords (memory : Memory) : Option LoadedSection → List U32
  | some s => words memory (s.dataSize.toNat / 4) s.data
  | none => []

/-- Frames are registered, constructors called from the last one up, then `_prolog`. -/
def startTrace (memory : Memory) (handle : U32) (p : Pieces) : List Event :=
  frameEvents (.registerFrame handle) p.frames ++
    ((tableWords memory p.ctors).reverse.map (.construct handle) ++ p.prolog.toList.map (.prolog handle))

/-- `_epilog`, then the registered exit functions, the destructors in order, and the frames; then the
handle is out of the list and freed. -/
def stopTrace (memory : Memory) (handle : U32) (p : Pieces) : List Event :=
  p.epilog.toList.map (.epilog handle) ++
    (p.dsoHandle.toList.map (.finalize handle) ++
      ((tableWords memory p.dtors).map (.destroy handle) ++
        (frameEvents (.deregisterFrame handle) p.frames ++ [.unlinked handle, .freed handle])))

/-- The first section of a name, provided it is loaded. -/
structure Keeps (elf : Elf) (name : Bytes) (s : ElfSection) : Prop where
  named : elfFindSection elf name ≠ SHN_UNDEF
  found : elf.sections[elfFindSection elf name]? = some s
  allocated : isAllocated s = true

/-- The loaded section of a name. -/
inductive NamedSection (elf : Elf) (tool : Elf2uso) (file : Bytes) (uso : LoadedUso) (block : U32) (name : Bytes) :
    Option LoadedSection → Prop where
  | present (s : ElfSection) (sec : LoadedSection) : Keeps elf name s →
    SectionAt tool file uso block (elfFindSection elf name) s sec →
    NamedSection elf tool file uso block name (some sec)
  | missing : (∀ s, ¬ Keeps elf name s) → NamedSection elf tool file uso block name none

/-- The run-time address of an exported name; NULL is no function. -/
inductive NamedFunction (elf : Elf) (tool : Elf2uso) (file : Bytes) (uso : LoadedUso) (block : U32) (name : Bytes) :
    Option U32 → Prop where
  | exported (symbol : ElfSymbol) (address : U32) : symbol ∈ elf.symbols → isExported symbol = true →
    symbol.name = name → DefinedAt elf tool file uso block symbol address → address ≠ 0 →
    NamedFunction elf tool file uso block name (some address)
  | null (symbol : ElfSymbol) : symbol ∈ elf.symbols → isExported symbol = true → symbol.name = name →
    DefinedAt elf tool file uso block symbol 0 → NamedFunction elf tool file uso block name none
  | missing : (∀ symbol ∈ elf.symbols, isExported symbol = true → symbol.name ≠ name) →
    NamedFunction elf tool file uso block name none

/-- The pieces are those the ELF has under their names. -/
structure PiecesOf (elf : Elf) (tool : Elf2uso) (file : Bytes) (uso : LoadedUso) (block : U32) (p : Pieces) : Prop where
  frames : NamedSection elf tool file uso block ehFrameName p.frames
  ctors : NamedSection elf tool file uso block ctorsName p.ctors
  dtors : NamedSection elf tool file uso block dtorsName p.dtors
  prolog : NamedFunction elf tool file uso block prologName p.prolog
  epilog : NamedFunction elf tool file uso block epilogName p.epilog
  dsoHandle : NamedFunction elf tool file uso block dsoHandleName p.dsoHandle

/-! ### The loader's searches -/

/-- The section the loader is led to by a special section number. -/
def sectionPiece (uso : LoadedUso) (index : U16) : Option LoadedSection :=
  if index = 0 then none else uso.sections[index.toNat]?

def functionPiece (uso : LoadedUso) (name : Bytes) : Option U32 :=
  if searchSymbolTable uso.exportSyms name = 0 then none else some (searchSymbolTable uso.exportSyms name)

def piecesAt (uso : LoadedUso) : Pieces where
  frames := sectionPiece uso uso.ehFrameSection
  ctors := sectionPiece uso uso.ctorsSection
  dtors := sectionPiece uso uso.dtorsSection
  prolog := functionPiece uso prologName
  epilog := functionPiece uso epilogName
  dsoHandle := functionPiece uso dsoHandleName

/-- A section the loader can walk without leaving memory at either end. -/
structure Walkable (s : LoadedSection) : Prop where
  low : 4 ≤ s.data.toNat
  high : s.data.toNat + s.dataSize.toNat < 2 ^ 32

/-- What a special section number leads to: section 0, which is at NULL, or a section that can be walked
if it is not empty. -/
structure SpecialSection (uso : LoadedUso) (index : U16) (sec : LoadedSection) : Prop where
  found : sectionAt uso.sections index = .ok sec
  missing : index = 0 → sec.data = 0
  present : index ≠ 0 → sec.dataSize ≠ 0 → Walkable sec

theorem functionPiece_events (uso : LoadedUso) (name : Bytes) (make : U32 → Event) :
    (if searchSymbolTable uso.exportSyms name ≠ 0 then [make (searchSymbolTable uso.exportSyms name)] else []) =
      (functionPiece uso name).toList.map make := by
  unfold functionPiece
  by_cases null : searchSymbolTable uso.exportSyms name = 0
  · rw [if_neg (not_not_intro null), if_pos null]
    rfl
  · rw [if_pos null, if_neg null]
    rfl

section
variable {uso : LoadedUso} {index : U16} {sec : LoadedSection}

theorem SpecialSection.piece (special : SpecialSection uso index sec) :
    sectionPiece uso index = if index = 0 then none else some sec := by
  have found := special.found
  unfold sectionAt at found
  unfold sectionPiece
  split at found
  next s at_index =>
    rw [at_index, Except.ok.inj found]
  next => cases found

theorem positive_iff (size : U32) : 0 < size ↔ size ≠ 0 := by
  have zero : (0 : U32).toNat = 0 := rfl
  rw [BitVec.lt_def, zero, Nat.pos_iff_ne_zero, ne_eq, ne_eq, not_iff_not]
  exact ⟨fun none => BitVec.eq_of_toNat_eq none, fun none => by rw [none]; rfl⟩

theorem Walkable.data_ne_zero (walkable : Walkable sec) : sec.data ≠ 0 := by
  intro null
  have low := walkable.low
  have zero : (0 : U32).toNat = 0 := rfl
  rw [null, zero] at low
  omega

theorem SpecialSection.frames (special : SpecialSection uso index sec) (make : U32 → Event) :
    (if hasFrames sec then [make sec.data] else []) = frameEvents make (sectionPiece uso index) := by
  rw [special.piece]
  by_cases absent : index = 0
  · have null : hasFrames sec = false := by simp [hasFrames, special.missing absent]
    rw [null, if_pos absent]
    rfl
  · rw [if_neg absent, frameEvents]
    by_cases empty : sec.dataSize = 0
    · have none : hasFrames sec = false := by simp [hasFrames, empty]
      rw [none, if_neg (not_not_intro empty)]
      rfl
    · have some : hasFrames sec = true := by
        rw [hasFrames, Bool.and_eq_true, bne_iff_ne, decide_eq_true_iff]
        exact ⟨(special.present absent empty).data_ne_zero, (positive_iff sec.dataSize).mpr empty⟩
      rw [some, if_pos empty]
      rfl

/-- The words of a table that is walked are all of it. -/
theorem size_words (four : 4 ∣ sec.dataSize.toNat) :
    sec.dataSize = BitVec.ofNat 32 (4 * (sec.dataSize.toNat / 4)) := by
  rw [Nat.mul_div_cancel' four, BitVec.ofNat_toNat, BitVec.setWidth_eq]

theorem SpecialSection.ctors (special : SpecialSection uso index sec) (four : 4 ∣ sec.dataSize.toNat) (memory : Memory)
    (handle : U32) :
    runCtors memory handle sec =
      (tableWords memory (sectionPiece uso index)).reverse.map (Event.construct handle) := by
  rw [special.piece, runCtors]
  by_cases absent : index = 0
  · have null : ¬ (sec.data ≠ 0 ∧ 0 < sec.dataSize) := fun some => some.1 (special.missing absent)
    rw [if_neg null, if_pos absent]
    rfl
  · rw [if_neg absent, tableWords]
    by_cases empty : sec.dataSize = 0
    · have none : ¬ (sec.data ≠ 0 ∧ 0 < sec.dataSize) := fun some => (positive_iff _).mp some.2 empty
      rw [if_neg none, empty]
      rfl
    · have walkable := special.present absent empty
      have loop := ctorLoop_eq memory handle sec.data (sec.dataSize.toNat / 4) walkable.low
        (by rw [Nat.mul_div_cancel' four]; exact walkable.high)
      rw [← size_words four] at loop
      rw [if_pos ⟨walkable.data_ne_zero, (positive_iff _).mpr empty⟩, loop]

theorem SpecialSection.dtors (special : SpecialSection uso index sec) (four : 4 ∣ sec.dataSize.toNat) (memory : Memory)
    (handle : U32) :
    (if sec.data ≠ 0 ∧ 0 < sec.dataSize then
      dtorLoop memory handle (sec.data + sec.dataSize) (sec.dataSize.toNat / 4 + 1) sec.data
    else []) = (tableWords memory (sectionPiece uso index)).map (Event.destroy handle) := by
  rw [special.piece]
  by_cases absent : index = 0
  · have null : ¬ (sec.data ≠ 0 ∧ 0 < sec.dataSize) := fun some => some.1 (special.missing absent)
    rw [if_neg null, if_pos absent]
    rfl
  · rw [if_neg absent, tableWords]
    by_cases empty : sec.dataSize = 0
    · have none : ¬ (sec.data ≠ 0 ∧ 0 < sec.dataSize) := fun some => (positive_iff _).mp some.2 empty
      rw [if_neg none, empty]
      rfl
    · have walkable := special.present absent empty
      have loop := dtorLoop_eq memory handle sec.data (sec.dataSize.toNat / 4)
        (by rw [Nat.mul_div_cancel' four]; exact walkable.high)
      rw [← size_words four] at loop
      rw [if_pos ⟨walkable.data_ne_zero, (positive_iff _).mpr empty⟩, loop]

end

/-- The special sections of a USO, with whole words in the function tables. -/
structure Startable (uso : LoadedUso) : Prop where
  frames : ∃ sec, SpecialSection uso uso.ehFrameSection sec
  ctors : ∃ sec, SpecialSection uso uso.ctorsSection sec ∧ 4 ∣ sec.dataSize.toNat
  dtors : ∃ sec, SpecialSection uso uso.dtorsSection sec ∧ 4 ∣ sec.dataSize.toNat

theorem startUso_trace {uso : LoadedUso} (startable : Startable uso) (memory : Memory) (handle : U32) :
    startUso memory handle uso = .ok (startTrace memory handle (piecesAt uso)) := by
  obtain ⟨frames, special⟩ := startable.frames
  obtain ⟨ctors, table, four⟩ := startable.ctors
  rw [startUso, special.found]
  simp only [table.found, startTrace, piecesAt]
  rw [special.frames, table.ctors four, functionPiece_events]

/-- The events of `end_uso` and of the unlinking after it. -/
theorem endUso_trace {uso : LoadedUso} (startable : Startable uso) (memory : Memory) (handle : U32) :
    ∃ events, endUso memory handle uso = .ok events ∧
      events ++ [.unlinked handle, .freed handle] = stopTrace memory handle (piecesAt uso) := by
  obtain ⟨frames, special⟩ := startable.frames
  obtain ⟨dtors, table, four⟩ := startable.dtors
  rw [endUso, special.found]
  simp only [table.found]
  refine ⟨_, rfl, ?_⟩
  simp only [runDtors, stopTrace, piecesAt]
  rw [special.frames, table.dtors four, functionPiece_events, functionPiece_events]
  simp only [List.append_assoc]

/-! ### Files of the tool -/

/-- A file of the tool. A special section that is not empty is stored, and the function tables hold
whole words. -/
structure ToolFile where
  sort : SymSort
  elf : Elf
  tool : Elf2uso
  srcElfName : Bytes
  produced : Produced sort elf tool srcElfName
  stored : ∀ name ∈ [ehFrameName, ctorsName, dtorsName], ∀ s, Keeps elf name s → s.size ≠ 0 → s.type ≠ SHT_NOBITS
  whole : ∀ name ∈ [ctorsName, dtorsName], ∀ s, Keeps elf name s → 4 ∣ s.size.toNat

def ToolFile.bytes (file : ToolFile) : Bytes := usoWrite file.tool file.srcElfName

/-- What the allocator promises of the block of a file. -/
structure BlockFor (file : Bytes) (block : U32) : Prop where
  nonnull : block ≠ 0
  aligned : (getUsoRamAlign (readLoadInfo file)).toNat ∣ block.toNat
  ends : block.toNat + (getUsoRamSize (readLoadInfo file)).toNat < 2 ^ 32

section
variable {sort : SymSort} {elf : Elf} {tool : Elf2uso} {srcElfName : Bytes} {block : U32}

theorem BlockFor.loadedFrom (given : BlockFor (usoWrite tool srcElfName) block)
    (produced : Produced sort elf tool srcElfName) : LoadedFrom sort elf tool srcElfName block := by
  have room := produced.loadable.room
  have ends := given.ends
  exact ⟨produced, by omega⟩

/-- Equal names come out of the sort side by side. -/
theorem ascending_sorted (sort : SymSort) (symbols : List SymbolInfo) :
    AscendingTable ((sort.run symbols).map loadedSymbol) := by
  unfold AscendingTable
  rw [List.pairwise_map]
  refine (sort.sorted _).imp fun {a b} order below => ?_
  have less : symCompare b a = true := (stringLess_iff b.name a.name).mpr below
  rw [order] at less
  cases less

theorem ascending_exportSyms (produced : Produced sort elf tool srcElfName) (search : Bytes → U32) (block : U32) :
    AscendingTable (entries (loadedFile (usoWrite tool srcElfName) search block).exportSyms) := by
  rw [entries_exportSyms_loadedFile produced, produced.accepted.exportSyms]
  have order := ascending_sorted sort (collectFrom isExported (exportEntry tool.outSectionMap) 0 elf.symbols)
  unfold AscendingTable at order ⊢
  rw [List.pairwise_map]
  exact order

theorem namedFunction (loadedFrom : LoadedFrom sort elf tool srcElfName block) (search : Bytes → U32) (name : Bytes) :
    NamedFunction elf tool (usoWrite tool srcElfName) (loadedFile (usoWrite tool srcElfName) search block) block name
      (functionPiece (loadedFile (usoWrite tool srcElfName) search block) name) := by
  have accepted := loadedFrom.produced.accepted
  have table := entries_exportSyms_loadedFile loadedFrom.produced search block
  have source : ∀ t ∈ entries (loadedFile (usoWrite tool srcElfName) search block).exportSyms,
      ∃ symbol ∈ elf.symbols, isExported symbol = true ∧ symbol.name = t.name ∧
        DefinedAt elf tool (usoWrite tool srcElfName) (loadedFile (usoWrite tool srcElfName) search block) block symbol
          t.ptr := by
    intro t member
    rw [table] at member
    obtain ⟨stored, inFile, rfl⟩ := List.mem_map.mp member
    obtain ⟨entry, inTable, rfl⟩ := List.mem_map.mp inFile
    obtain ⟨i, symbol, at_i, kept, rfl⟩ := accepted.mem_exportSyms.mp inTable
    exact ⟨symbol, List.mem_of_getElem? at_i, kept, rfl, exportEntry_definedAt loadedFrom search i kept⟩
  unfold functionPiece
  by_cases exported : ∃ symbol ∈ elf.symbols, isExported symbol = true ∧ symbol.name = name
  · obtain ⟨symbol, member, kept, rfl⟩ := exported
    obtain ⟨i, at_i⟩ := List.mem_iff_getElem?.mp member
    have inTable := accepted.mem_exportSyms.mpr ⟨i, symbol, at_i, kept, rfl⟩
    have entry := List.mem_map_of_mem (f := fun s : UsoSymbol =>
        { s with ptr := ptrFixup s.ptr (exportBase (loadedFile (usoWrite tool srcElfName) search block).sections s) })
      (List.mem_map_of_mem (f := loadedSymbol) inTable)
    rw [← table] at entry
    obtain ⟨t, found, named, pointer⟩ := searchSymbolTable_finds (ascending_exportSyms loadedFrom.produced search block) entry
    obtain ⟨own, inElf, kept', same, address⟩ := source t found
    have result : searchSymbolTable (loadedFile (usoWrite tool srcElfName) search block).exportSyms symbol.name = t.ptr :=
      pointer
    rw [result]
    by_cases null : t.ptr = 0
    · rw [if_pos null]
      exact .null own inElf kept' (same.trans named) (null ▸ address)
    · rw [if_neg null]
      exact .exported own t.ptr inElf kept' (same.trans named) address null
  · have none : searchSymbolTable (loadedFile (usoWrite tool srcElfName) search block).exportSyms name = 0 := by
      apply Decidable.byContradiction
      intro found
      obtain ⟨t, member, named, -⟩ := searchSymbolTable_sound found
      obtain ⟨symbol, inElf, kept, same, -⟩ := source t member
      exact exported ⟨symbol, inElf, kept, same.trans named⟩
    rw [if_pos none]
    exact .missing fun symbol member kept same => exported ⟨symbol, member, kept, same⟩

/-- A stored section that is not empty lies past the first word and below the end of memory. -/
theorem walkable_stored (produced : Produced sort elf tool srcElfName) (given : BlockFor (usoWrite tool srcElfName) block)
    (search : Bytes → U32) {k : U16} (nonzero : k ≠ 0) {s : ElfSection} (allocated : isAllocated s = true)
    (stored : s.type ≠ SHT_NOBITS) (some : s.size ≠ 0) (out : tool.outSections[k.toNat]? = .some (outSection elf tool s))
    {sec : LoadedSection}
    (found : (loadedFile (usoWrite tool srcElfName) search block).sections[k.toNat]? = .some sec)
    (size : sec.dataSize = s.size) : Walkable sec := by
  obtain ⟨i, position⟩ : ∃ i, k.toNat = i + 1 :=
    Nat.exists_eq_succ_of_ne_zero fun zero => nonzero (BitVec.eq_of_toNat_eq zero)
  rw [position] at out found
  obtain ⟨record, fixed, placed, -⟩ := records_placed produced.writable given.aligned i _ out
  obtain ⟨bytes, data⟩ := Option.isSome_iff_exists.mp (s.data_present (by simpa [isAllocated] using allocated) stored)
  have length := s.data_length bytes data
  have positive : 0 < bytes.length := by
    rw [length]
    exact Nat.pos_of_ne_zero fun zero => some (BitVec.eq_of_toNat_eq zero)
  have own : (outSection elf tool s).data = .some bytes := by
    rw [← data]
    simp only [outSection, sectionData, if_neg stored]
  have inside := placed.inside bytes own (List.ne_nil_of_length_pos positive)
  have same : sec.data = record.data := by
    have loaded : (loadedFile (usoWrite tool srcElfName) search block).sections[i + 1]? =
        .some (loadedSection (usoImage (usoWrite tool srcElfName)) block record) := by
      simp only [loadedFile, fixedUso, loadedSections, List.getElem?_map, fixed, Option.map_some]
    rw [found, Option.some.injEq] at loaded
    rw [loaded]
    rfl
  have room := produced.loadable.room
  have ends := given.ends
  have image := usoSize_toNat produced.writable
  obtain ⟨low, high⟩ := (inImage_iff positive (by omega)).mp inside
  obtain ⟨word, -⟩ := block_aligned produced.writable given.aligned
  have some' : block.toNat ≠ 0 := fun zero => given.nonnull (BitVec.eq_of_toNat_eq zero)
  constructor
  · rw [same]
    omega
  · rw [same, size, ← length]
    omega

/-- The number the tool writes for a name leads to the section of that name, or to section 0. -/
theorem specialSection_named (produced : Produced sort elf tool srcElfName)
    (given : BlockFor (usoWrite tool srcElfName) block) (search : Bytes → U32) {name : Bytes}
    (stored : ∀ s, Keeps elf name s → s.size ≠ 0 → s.type ≠ SHT_NOBITS) :
    ∃ sec, SpecialSection (loadedFile (usoWrite tool srcElfName) search block) (specialSection tool name) sec ∧
      NamedSection elf tool (usoWrite tool srcElfName) (loadedFile (usoWrite tool srcElfName) search block) block name
        (sectionPiece (loadedFile (usoWrite tool srcElfName) search block) (specialSection tool name)) ∧
      ((∀ s, Keeps elf name s → 4 ∣ s.size.toNat) → 4 ∣ sec.dataSize.toNat) := by
  have accepted := produced.accepted
  have fits := (given.loadedFrom produced).fits
  rw [specialSection, accepted.source]
  by_cases kept : ∃ s, Keeps elf name s
  · obtain ⟨s, keeps⟩ := kept
    obtain ⟨k, place, nonzero, out⟩ := accepted.mapped keeps.named keeps.found keeps.allocated
    obtain ⟨sec, found, at_sec⟩ := sectionAt_loaded produced fits search keeps.named keeps.found keeps.allocated place
    rw [sectionOf, place, Option.getD_some, sectionPiece, if_neg nonzero, found]
    refine ⟨sec, ⟨?_, ?_, ?_⟩, .present s sec keeps at_sec, ?_⟩
    · simp only [sectionAt, found]
    · exact fun zero => absurd zero nonzero
    · intro _ some
      rw [at_sec.size] at some
      exact walkable_stored produced given search nonzero keeps.allocated (stored s keeps some) some out found at_sec.size
    · intro whole
      rw [at_sec.size]
      exact whole s keeps
  · have missing : elfFindSection elf name ≠ SHN_UNDEF → ∀ s, elf.sections[elfFindSection elf name]? = some s →
        isAllocated s = false := by
      intro named s found
      rw [Bool.eq_false_iff]
      exact fun allocated => kept ⟨s, named, found, allocated⟩
    obtain ⟨sec, found, loaded⟩ := loadedAs_outSection produced fits search accepted.dummy
    have zero : (0 : U16).toNat = 0 := rfl
    rw [accepted.sectionOf_missing missing, sectionPiece, if_pos rfl]
    refine ⟨sec, ⟨?_, ?_, ?_⟩, .missing fun s keeps => kept ⟨s, keeps⟩, ?_⟩
    · simp only [sectionAt, zero, found]
    · exact fun _ => loaded.dummy rfl
    · exact fun nonzero => absurd rfl nonzero
    · intro _
      rw [loaded.size]
      exact Nat.dvd_zero 4

end

/-- What is run of a loaded file is what its ELF has under the special names. -/
theorem ToolFile.pieces (file : ToolFile) {block : U32} (given : BlockFor file.bytes block) (search : Bytes → U32) :
    PiecesOf file.elf file.tool file.bytes (loadedFile file.bytes search block) block
      (piecesAt (loadedFile file.bytes search block)) := by
  obtain ⟨ehFrame, ctorList, dtorList⟩ := specialSections_usoWrite file.produced.writable
  have loadedFrom := given.loadedFrom file.produced
  obtain ⟨-, -, frames, -⟩ := specialSection_named file.produced given search (file.stored ehFrameName (by simp))
  obtain ⟨-, -, ctors, -⟩ := specialSection_named file.produced given search (file.stored ctorsName (by simp))
  obtain ⟨-, -, dtors, -⟩ := specialSection_named file.produced given search (file.stored dtorsName (by simp))
  rw [← ehFrame] at frames
  rw [← ctorList] at ctors
  rw [← dtorList] at dtors
  exact ⟨frames, ctors, dtors, namedFunction loadedFrom search _, namedFunction loadedFrom search _,
    namedFunction loadedFrom search _⟩

theorem ToolFile.startable (file : ToolFile) {block : U32} (given : BlockFor file.bytes block) (search : Bytes → U32) :
    Startable (loadedFile file.bytes search block) := by
  obtain ⟨ehFrame, ctorList, dtorList⟩ := specialSections_usoWrite file.produced.writable
  obtain ⟨frames, frameSection, -, -⟩ :=
    specialSection_named file.produced given search (file.stored ehFrameName (by simp))
  obtain ⟨ctors, ctorSection, -, ctorWords⟩ :=
    specialSection_named file.produced given search (file.stored ctorsName (by simp))
  obtain ⟨dtors, dtorSection, -, dtorWords⟩ :=
    specialSection_named file.produced given search (file.stored dtorsName (by simp))
  rw [← ehFrame] at frameSection
  rw [← ctorList] at ctorSection
  rw [← dtorList] at dtorSection
  exact ⟨⟨frames, frameSection⟩, ⟨ctors, ctorSection, ctorWords (file.whole ctorsName (by simp))⟩,
    ⟨dtors, dtorSection, dtorWords (file.whole dtorsName (by simp))⟩⟩

end DragonUso.StartStop
