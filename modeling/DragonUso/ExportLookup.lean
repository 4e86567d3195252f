import DragonUso.RelocBinding

/-! `uso_sym` on one USO: what a name is found at in the export table of a loaded file. The tool
filters, renumbers and sorts, the loader rebases names and pointers and searches; the result is
the ELF's own symbol table at run-time addresses. -/

namespace DragonUso.ExportLookup
open ByteOrder SparseFile WordMemory Format ElfFile ToolCollect ToolWriter RoundedOffsets LoaderImage FileLayout RoundTrip
open Relocation SymbolSearch Loader HandleList LoaderSteps OpenBinding CollectedTables ProducedFile WeakImports
open RelocSafety RelocBinding

/-- The run-time address of a defined symbol: relative to its section if that is loaded, and as it
stands otherwise. -/
inductive DefinedAt (elf : Elf) (tool : Elf2uso) (file : Bytes) (uso : LoadedUso) (block : U32) (symbol : ElfSymbol) :
    U32 → Prop where
  | loaded (s : ElfSection) (sec : LoadedSection) : elf.sections[symbol.shndx.toNat]? = some s →
    isAllocated s = true → SectionAt tool file uso block symbol.shndx.toNat s sec →
    DefinedAt elf tool file uso block symbol (sec.data + symbol.value)
  | absolute : (∀ s, elf.sections[symbol.shndx.toNat]? = some s → isAllocated s = false) →
    DefinedAt elf tool file uso block symbol symbol.value

/-- The lookup in a USO's export table is the lookup among the ELF's exported symbols. -/
structure ExportsFound (elf : Elf) (tool : Elf2uso) (file : Bytes) (uso : LoadedUso) (block : U32) : Prop where
  ordered : SortedTable (entries uso.exportSyms)
  found : ∀ symbol ∈ elf.symbols, isExported symbol = true →
    ∃ address, DefinedAt elf tool file uso block symbol address ∧
      searchSymbolTable uso.exportSyms symbol.name = address
  absent : ∀ name, (∀ symbol ∈ elf.symbols, isExported symbol = true → symbol.name ≠ name) →
    searchSymbolTable uso.exportSyms name = 0

/-- A valid handle is searched alone. -/
theorem usoSym_handle {st : LoaderState} {loaded : Registry} (represents : Represents st loaded) {handle : U32}
    {r : UsoRecord} (member : (handle, r) ∈ loaded) (single : handle ≠ USO_HANDLE_ANY) (name : Bytes) :
    usoSym st handle name = .ok (searchSymbolTable r.uso.exportSyms name) := by
  have found : loaded.find? (fun h => h.1 == handle) = some (handle, r) := by
    cases result : loaded.find? fun h => h.1 == handle with
    | none =>
      have differs := List.find?_eq_none.mp result _ member
      simp at differs
    | some h =>
      have same : h.1 = handle := by simpa using List.find?_some result
      exact congrArg some (represents.unique (List.mem_of_find?_eq_some result) member same)
  rw [usoSym, usoList_eq represents]
  simp only [if_neg single, found]

section
variable {sort : SymSort} {elf : Elf} {tool : Elf2uso} {srcElfName : Bytes} {block : U32}

/-- The names of the exported symbols are distinct if those of the symbols that are not local are. -/
theorem exportSyms_distinct (accepted : Accepted sort elf tool)
    (distinct : ((elf.symbols.filter fun s => s.bind != STB_LOCAL).map fun s => s.name).Nodup) :
    (tool.exportSyms.map fun e => e.name).Nodup := by
  have named : ∀ i s, (exportEntry tool.outSectionMap i s).name = s.name := fun _ _ => rfl
  rw [accepted.exportSyms, ((sort.perm _).map _).nodup_iff, names_collectFrom named]
  refine List.Nodup.sublist (List.Sublist.map _ ?_) distinct
  have narrower : elf.symbols.filter isExported =
      (elf.symbols.filter fun s => s.bind != STB_LOCAL).filter isExported := by
    rw [List.filter_filter]
    apply List.filter_congr
    intro s _
    cases exported : isExported s with
    | false => rfl
    | true =>
      simp only [isExported, Bool.and_eq_true] at exported
      simp [exported.1.1]
  rw [narrower]
  exact List.filter_sublist

/-- The export table in memory: the written entries with their pointers rebased. -/
theorem entries_exportSyms (fit : SymbolsFit tool srcElfName)
    (offsets : OffsetsFit (writtenHeader tool srcElfName).sections tool.outSections) (search : Bytes → U32) (block : U32) :
    entries (loadedFile (usoWrite tool srcElfName) search block).exportSyms =
      (tool.exportSyms.map loadedSymbol).map fun s =>
        { s with ptr := ptrFixup s.ptr (exportBase (loadedFile (usoWrite tool srcElfName) search block).sections s) } := by
  simp only [loadedFile, fixedUso, fixedExports]
  rw [entries_map, exportTable_usoWrite fit offsets, entries_present]

theorem entries_exportSyms_loadedFile (produced : Produced sort elf tool srcElfName) (search : Bytes → U32) (block : U32) :
    entries (loadedFile (usoWrite tool srcElfName) search block).exportSyms =
      (tool.exportSyms.map loadedSymbol).map fun s =>
        { s with ptr := ptrFixup s.ptr (exportBase (loadedFile (usoWrite tool srcElfName) search block).sections s) } :=
  entries_exportSyms produced.writable.symbolsFit produced.writable.offsetsFit search block

/-- The entry of an exported symbol has the symbol's run-time address. -/
theorem exportEntry_definedAt (loadedFrom : LoadedFrom sort elf tool srcElfName block) (search : Bytes → U32) (i : Nat)
    {symbol : ElfSymbol} (exported : isExported symbol = true) :
    DefinedAt elf tool (usoWrite tool srcElfName) (loadedFile (usoWrite tool srcElfName) search block) block symbol
      (ptrFixup (loadedSymbol (exportEntry tool.outSectionMap i symbol)).ptr
        (exportBase (loadedFile (usoWrite tool srcElfName) search block).sections
          (loadedSymbol (exportEntry tool.outSectionMap i symbol)))) := by
  have accepted := loadedFrom.produced.accepted
  have real : symbol.shndx.toNat ≠ SHN_UNDEF := by
    simp only [isExported, Bool.and_eq_true, bne_iff_ne] at exported
    exact exported.1.2
  have index : (loadedSymbol (exportEntry tool.outSectionMap i symbol)).sectionIndex =
      sectionOf tool.outSectionMap symbol.shndx.toNat := rfl
  have value : (loadedSymbol (exportEntry tool.outSectionMap i symbol)).ptr = symbol.value := exportSymbol_ptr ..
  rw [exportBase, index, value]
  cases place : tool.outSectionMap symbol.shndx.toNat with
  | some k =>
    have mapped := place
    rw [accepted.outSectionMap] at mapped
    obtain ⟨-, -, s, at_index, allocated, -⟩ := (sectionCollect_below elf).mapped _ k real mapped
    obtain ⟨sec, found, at_sec⟩ :=
      sectionAt_loaded loadedFrom.produced loadedFrom.fits search real at_index allocated place
    rw [sectionOf, place, Option.getD_some]
    simp only [found]
    exact .loaded s sec at_index allocated at_sec
  | none =>
    obtain ⟨sec, found, loaded⟩ := loadedAs_outSection loadedFrom.produced loadedFrom.fits search accepted.dummy
    have zero : (0 : U16).toNat = 0 := rfl
    have base : (0 : U32) + symbol.value = symbol.value := BitVec.zero_add _
    rw [sectionOf, place, Option.getD_none, zero]
    simp only [found, ptrFixup, loaded.dummy rfl]
    rw [base]
    refine .absolute fun s at_index => ?_
    rw [Bool.eq_false_iff]
    intro allocated
    obtain ⟨k, mapped, -⟩ := accepted.mapped real at_index allocated
    rw [place] at mapped
    cases mapped

theorem exportsFound_loadedFile (loadedFrom : LoadedFrom sort elf tool srcElfName block)
    (distinct : ((elf.symbols.filter fun s => s.bind != STB_LOCAL).map fun s => s.name).Nodup) (search : Bytes → U32) :
    ExportsFound elf tool (usoWrite tool srcElfName) (loadedFile (usoWrite tool srcElfName) search block) block := by
  have accepted := loadedFrom.produced.accepted
  have exported := entries_exportSyms_loadedFile loadedFrom.produced search block
  have ordered : SortedTable (entries (loadedFile (usoWrite tool srcElfName) search block).exportSyms) := by
    have apart := exportSyms_distinct accepted distinct
    have sorted := sortedTable_run sort
      (((sort.perm (collectFrom isExported (exportEntry tool.outSectionMap) 0 elf.symbols)).map _).nodup_iff.mp
        (accepted.exportSyms ▸ apart))
    rw [exported, accepted.exportSyms]
    refine (sortedTable_map ?_).mpr sorted
    exact fun _ => rfl
  refine ⟨ordered, ?_, ?_⟩
  · intro symbol member kept
    obtain ⟨i, at_i⟩ := List.mem_iff_getElem?.mp member
    have inTable := accepted.mem_exportSyms.mpr ⟨i, symbol, at_i, kept, rfl⟩
    refine ⟨_, exportEntry_definedAt loadedFrom search i kept, ?_⟩
    have complete := fun e => @searchSymbolTable_complete _ ordered e
    rw [exported] at complete
    exact complete _ (List.mem_map_of_mem (List.mem_map_of_mem inTable))
  · intro name other
    apply Decidable.byContradiction
    intro found
    obtain ⟨e, member, named, -⟩ := searchSymbolTable_sound found
    rw [exported] at member
    obtain ⟨stored, inFile, rfl⟩ := List.mem_map.mp member
    obtain ⟨entry, inTable, rfl⟩ := List.mem_map.mp inFile
    obtain ⟨i, symbol, at_i, kept, rfl⟩ := accepted.mem_exportSyms.mp inTable
    exact other symbol (List.mem_of_getElem? at_i) kept named

/-- Once a file is opened, `uso_sym` with its handle answers from an export table that finds the ELF's exported
symbols; so it does in every state that lists the record, whatever its count. -/
def SymbolsFound (elf : Elf) (tool : Elf2uso) (file : Bytes) : Prop :=
  ∀ st loaded filename alloc st' handle, ListedState st loaded → NotLoaded loaded filename → Fresh st file alloc →
    usoOpen st filename (some file) alloc = .ok (st', handle) → handle ≠ 0 → handle ≠ USO_HANDLE_ANY →
    ∃ r, usoList st' = .ok (loaded ++ [(handle, r)]) ∧ ExportsFound elf tool file r.uso alloc.block ∧
      ∀ later list count, Represents later list → (handle, { r with refCount := count }) ∈ list → ∀ name,
        usoSym later handle name = .ok (searchSymbolTable r.uso.exportSyms name)

/-- Wherever a file of the tool is opened, `uso_sym` with its handle finds every exported symbol at its
run-time address and no other name, in the order both string comparisons agree on. -/
theorem usoSym_finds (produced : Produced sort elf tool srcElfName)
    (distinct : ((elf.symbols.filter fun s => s.bind != STB_LOCAL).map fun s => s.name).Nodup) :
    SymbolsFound elf tool (usoWrite tool srcElfName) ∧
    ∀ first second, stringLess first second = true ↔ strcmp first second = .lt := by
  refine ⟨?_, stringLess_iff⟩
  intro st loaded filename alloc st' handle listed notLoaded fresh returned nonnull single
  obtain ⟨loaded', result, listed'⟩ := usoOpen_result listed (fun _ _ => fresh.freshHandle) returned
  cases result with
  | reopened h member named => exact absurd named (notLoaded h member)
  | missing _ none => cases none
  | unresolved => exact absurd rfl nonnull
  | opened bytes linked next _ same =>
    obtain rfl := Option.some.inj same
    have room := produced.loadable.room
    have ends := fresh.block_ends
    have loadedFrom : LoadedFrom sort elf tool srcElfName alloc.block := ⟨produced, by omega⟩
    refine ⟨_, usoList_eq listed'.represents, exportsFound_loadedFile loadedFrom distinct (resolve st loaded), ?_⟩
    intro later list count represents member name
    exact usoSym_handle represents member single name

end

theorem usoSym_finds_callerElf : SymbolsFound callerElf callerTool (usoWrite callerTool [99]) :=
  (usoSym_finds callerElf_produced (by decide)).1

/-! A library whose code asks for no alignment and is written over its export table. -/

def wideLibrary : Elf := wideElf libraryElf.symbols libraryElf.symbols_le

def wideLibraryTool : Elf2uso := sampleTool wideLibrary [] [exportSymbol 1 exportedF 1]

theorem wideLibrary_collected : elf2uso nameSort wideLibrary = .ok wideLibraryTool :=
  elf2uso_sampleTool (by decide +kernel) (by decide +kernel) (by decide) (by decide)

theorem libraryAlloc_freshWide : Fresh (initialState (fun _ => 0) []) (usoWrite wideLibraryTool [108]) libraryAlloc where
  handle_nonnull := by decide
  handle_fresh := List.not_mem_nil
  block_nonnull := by decide
  block_aligned := by decide +kernel
  block_ends := by decide +kernel
  block_apart := fun entry member => absurd member List.not_mem_nil

/-- The file is opened, its code is at the start of the block, and `f` is not found. -/
theorem wideLibrary_facts :
    (usoOpen (initialState (fun _ => 0) []) [108] (some (usoWrite wideLibraryTool [108])) libraryAlloc).map Prod.snd =
        .ok 0x80100000 ∧
    ((usoList (afterOpen (initialState (fun _ => 0) []) [108] (usoWrite wideLibraryTool [108]) libraryAlloc)).map fun loaded =>
      loaded.map fun h => ((h.2.uso.sections[1]?).map fun sec => sec.data, searchSymbolTable h.2.uso.exportSyms exportedF.name)) =
        .ok [(some 0x80200000, 0)] := by decide +kernel

theorem wideLibrary_unfound :
    elf2uso nameSort wideLibrary = .ok wideLibraryTool ∧
    ((wideLibrary.symbols.filter fun s => s.bind != STB_LOCAL).map fun s => s.name).Nodup ∧
    ¬ SymbolsFound wideLibrary wideLibraryTool (usoWrite wideLibraryTool [108]) := by
  refine ⟨wideLibrary_collected, by decide, fun finds => ?_⟩
  obtain ⟨returns, facts⟩ := wideLibrary_facts
  have start : ListedState (initialState (fun _ => 0) []) [] := (initialState_sound (by unfold SortedTable; decide) _).listed
  obtain ⟨r, listed, found, -⟩ := finds _ [] [108] libraryAlloc _ _ start (fun h member => absurd member List.not_mem_nil)
    libraryAlloc_freshWide (usoOpen_afterOpen returns) (by decide) (by decide)
  rw [listed] at facts
  obtain ⟨at_one, null⟩ : (r.uso.sections[1]?).map (fun sec => sec.data) = some 0x80200000 ∧
      searchSymbolTable r.uso.exportSyms exportedF.name = 0 := by simpa [Except.map] using facts
  obtain ⟨address, defined, result⟩ := found.found exportedF (by decide) (by decide)
  rw [null] at result
  cases defined with
  | loaded s sec at_index allocated at_sec =>
    obtain ⟨k, place, numbered, -⟩ := at_sec.numbered
    obtain rfl : k = 1 := Option.some.inj (place.symm.trans (by decide +kernel))
    have at_one' : r.uso.sections[1]? = some sec := numbered
    rw [at_one', Option.map_some, Option.some.injEq] at at_one
    rw [at_one] at result
    exact absurd result (by decide)
  | absolute dropped =>
    have kept := dropped wideCode rfl
    exact absurd kept (by decide)

end DragonUso.ExportLookup
