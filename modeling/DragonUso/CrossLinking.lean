import DragonUso.ExportLookup
import DragonUso.ImportCoherence
import DragonUso.Isolation
import DragonUso.WeakImports

/-! Linking across files. In whatever order files are opened and closed, an undefined symbol of one ELF
has the address at which another ELF that defines it is loaded. -/

namespace DragonUso.CrossLinking
open ByteOrder WordMemory Regions Runs Format ElfFile ToolCollect ToolWriter LoaderImage WriterLayout FileLayout RoundTrip
open Relocation SymbolSearch Loader HandleList LoaderSteps OpenBinding CollectedTables ProducedFile WeakImports RelocSafety
open RelocBinding ExportLookup ImportsAlive ImportCoherence SectionPlacement ElfLinking Isolation

/-- The names other files see are distinct. -/
def DistinctNames (elf : Elf) : Prop := ((elf.symbols.filter fun s => s.bind != STB_LOCAL).map fun s => s.name).Nodup

/-- Where an undefined symbol of a loaded USO leads: to the symbol of that name in the ELF of the first
USO that exports it, to a global symbol, or nowhere if the tool took it for weak. -/
inductive LeadsTo (disk : Bytes → AbiFile → Prop) (st : LoaderState) (loaded : Registry) (symbol : ElfSymbol) :
    U32 → Prop where
  | exported (g : U32 × UsoRecord) (file : AbiFile) (number : Nat) (target : ElfSymbol) : g ∈ loaded →
    exporterOf loaded symbol.name = some g.1 → disk g.2.name file → HoldsFile file g.2 st.memory →
    file.elf.symbols[number]? = some target → isExported target = true → target.name = symbol.name →
    LeadsTo disk st loaded symbol (elfSymbolAddress file.elf file.tool g.2.uso number)
  | global (ptr : U32) : Exports st.globalSyms symbol.name ptr → LeadsTo disk st loaded symbol ptr
  | null : symbol.type = STB_WEAK → LeadsTo disk st loaded symbol 0

/-! ### Tables of loaded files -/

section
variable {sort : SymSort} {elf : Elf} {tool : Elf2uso} {srcElfName : Bytes}

theorem importSyms_distinct (accepted : Accepted sort elf tool) (distinct : DistinctNames elf) :
    (tool.importSyms.map fun e => e.name).Nodup := by
  have named : ∀ i s, (importSymbol i s).name = s.name := fun _ _ => rfl
  rw [accepted.importSyms, ((sort.perm _).map _).nodup_iff, names_collectFrom named]
  refine List.Nodup.sublist (List.Sublist.map _ ?_) distinct
  have narrower : elf.symbols.filter isImported =
      (elf.symbols.filter fun s => s.bind != STB_LOCAL).filter isImported := by
    rw [List.filter_filter]
    apply List.filter_congr
    intro s _
    cases imported : isImported s with
    | false => rfl
    | true =>
      simp only [isImported, Bool.and_eq_true] at imported
      simp [imported.1]
  rw [narrower]
  exact List.filter_sublist

/-- An import entry of a loaded file, with its symbol. -/
theorem importEntry_source (produced : Produced sort elf tool srcElfName) (search : Bytes → U32) (block : U32) {e : UsoSymbol}
    (member : e ∈ entries (loadedFile (usoWrite tool srcElfName) search block).importSyms) :
    ∃ s ∈ elf.symbols, isImported s = true ∧ e.name = s.name ∧ usoIsSymbolWeak e = (s.type == STB_WEAK) := by
  rw [importSyms_loadedFile produced, entries_map, entries_present] at member
  obtain ⟨stored, inFile, rfl⟩ := List.mem_map.mp member
  obtain ⟨entry, inTable, rfl⟩ := List.mem_map.mp inFile
  obtain ⟨i, s, at_i, imported, rfl⟩ := produced.accepted.mem_importSyms.mp inTable
  exact ⟨s, List.mem_of_getElem? at_i, imported, rfl, usoIsSymbolWeak_importSymbol produced at_i imported⟩

/-- An undefined symbol has the pointer of an import entry of its name. -/
theorem elfSymbolAddress_imported (produced : Produced sort elf tool srcElfName) (search : Bytes → U32) (block : U32)
    {number : Nat} {symbol : ElfSymbol} (named : elf.symbols[number]? = some symbol) (imported : isImported symbol = true) :
    ∃ e ∈ entries (loadedFile (usoWrite tool srcElfName) search block).importSyms, e.name = symbol.name ∧
      elfSymbolAddress elf tool (loadedFile (usoWrite tool srcElfName) search block) number = e.ptr := by
  have undefined : symbol.shndx.toNat = SHN_UNDEF := by
    simp only [isImported, Bool.and_eq_true, beq_iff_eq] at imported
    exact imported.2
  have inTable := produced.accepted.mem_importSyms.mpr ⟨number, symbol, named, imported, rfl⟩
  simp only [elfSymbolAddress, named, if_pos undefined, importAddress]
  cases found : (entries (loadedFile (usoWrite tool srcElfName) search block).importSyms).find? fun e =>
      e.name == symbol.name with
  | none =>
    rw [importSyms_loadedFile produced, entries_map, entries_present] at found
    have missed := List.find?_eq_none.mp found _ (List.mem_map_of_mem (List.mem_map_of_mem inTable))
    exact absurd (beq_self_eq_true symbol.name) missed
  | some e => exact ⟨e, List.mem_of_find?_eq_some found, by simpa using List.find?_some found, rfl⟩

/-- An export entry has the run-time address of its symbol. -/
theorem exportEntry_source (produced : Produced sort elf tool srcElfName) (search : Bytes → U32) (block : U32)
    {e : UsoSymbol} (member : e ∈ entries (loadedFile (usoWrite tool srcElfName) search block).exportSyms) :
    ∃ number target, elf.symbols[number]? = some target ∧ isExported target = true ∧ e.name = target.name ∧
      e.ptr = elfSymbolAddress elf tool (loadedFile (usoWrite tool srcElfName) search block) number := by
  rw [entries_exportSyms_loadedFile produced] at member
  obtain ⟨stored, inFile, rfl⟩ := List.mem_map.mp member
  obtain ⟨entry, inTable, rfl⟩ := List.mem_map.mp inFile
  obtain ⟨i, s, at_i, exported, rfl⟩ := produced.accepted.mem_exportSyms.mp inTable
  have real : ¬ s.shndx.toNat = SHN_UNDEF := by
    simp only [isExported, Bool.and_eq_true, bne_iff_ne] at exported
    exact exported.1.2
  have value : (loadedSymbol (exportEntry tool.outSectionMap i s)).ptr = s.value := exportSymbol_ptr ..
  refine ⟨i, s, at_i, exported, rfl, ?_⟩
  simp only [elfSymbolAddress, at_i, if_neg real, ptrFixup, value]
  rfl

end

/-! ### Runs -/

theorem abiFile_sound (file : AbiFile) (distinct : DistinctNames file.elf) : SoundFile file.bytes :=
  file.produced.sound (importSyms_distinct file.produced.accepted distinct)
    (exportSyms_distinct file.produced.accepted distinct)

section
variable {disk : Bytes → AbiFile → Prop} {st st' : LoaderState} {call : Call}

/-- With distinct names the files can be searched as well. -/
theorem diskStep_sound (distinct : ∀ name file, disk name file → DistinctNames file.elf) (step : DiskStep disk st call st') :
    Step st call st' := by
  cases step with
  | @opened _ filename file alloc handle found returned =>
    refine .opened ?_ ?_ returned
    · intro bytes same
      obtain ⟨own, here, rfl⟩ := Option.map_eq_some_iff.mp same
      exact abiFile_sound own (distinct filename own (found own here).1)
    · intro bytes same
      obtain ⟨own, here, rfl⟩ := Option.map_eq_some_iff.mp same
      exact (found own here).2
  | closed returned => exact .closed returned

/-- Strong imports have an address. -/
def StrongResolved (r : UsoRecord) : Prop := ∀ s ∈ entries r.uso.importSyms, usoIsSymbolWeak s = false → s.ptr ≠ 0

/-- A file that is opened had all its strong imports resolved. -/
theorem strongResolved_opened {loaded : Registry} {filename bytes : Bytes} {alloc : Allocation}
    (resolved : importsResolved st loaded bytes = true) : StrongResolved (openedRecord st loaded filename bytes alloc) := by
  intro s member strong
  unfold importsResolved at resolved
  simp only [openedRecord, openedUso, fixedUso, entries_fixupImports] at member
  obtain ⟨stored, inFile, rfl⟩ := List.mem_map.mp member
  rw [fixupImports_eq] at resolved
  have own := List.all_eq_true.mp resolved stored inFile
  have same : usoIsSymbolWeak { stored with ptr := resolve st loaded stored.name } = usoIsSymbolWeak stored := rfl
  rw [same] at strong
  simpa [strong] using own

theorem strongResolved_step (step : Step st call st')
    (before : ∃ loaded, SoundState st loaded ∧ ∀ h ∈ loaded, StrongResolved h.2) :
    ∃ loaded', SoundState st' loaded' ∧ ∀ h ∈ loaded', StrongResolved h.2 := by
  obtain ⟨loaded, sound, strong⟩ := before
  have uncounted : ∀ (r : UsoRecord) count, StrongResolved r → StrongResolved { r with refCount := count } :=
    fun _ _ own => own
  cases step with
  | opened soundFile fresh returned =>
    obtain ⟨loaded', result, sound'⟩ := usoOpen_cases sound soundFile fresh returned
    refine ⟨loaded', sound', ?_⟩
    cases result with
    | reopened h => exact records_withRefCount uncounted strong _ _
    | missing => exact strong
    | unresolved => exact strong
    | opened bytes linked next notLoaded found resolved =>
      refine List.forall_mem_append.mpr ⟨strong, List.forall_mem_singleton.mpr ?_⟩
      exact strongResolved_opened resolved
  | closed returned =>
    obtain ⟨loaded', result, sound'⟩ := usoClose_cases sound returned
    exact ⟨loaded', sound', result.records uncounted strong⟩

/-! ### Where symbols lead -/

variable {loaded : Registry}

theorem leadsTo_of_current (isolated : Isolated disk st loaded) {binding : Binding} {h : U32 × UsoRecord} {e : UsoSymbol}
    {symbol : ElfSymbol} (current : Current loaded st.globalSyms binding h.1 e) (pointer : e.ptr ≠ 0)
    (named : e.name = symbol.name) : LeadsTo disk st loaded symbol e.ptr := by
  unfold Current at current
  cases bound : binding h.1 e.name with
  | none =>
    rw [bound] at current
    refine .global _ (named ▸ ?_)
    have found : searchSymbolTable st.globalSyms e.name ≠ 0 := by
      rw [current]
      exact pointer
    have exported := searchSymbolTable_exports found
    rwa [current] at exported
  | some exporter =>
    rw [bound] at current
    obtain ⟨uso, first, found⟩ := current
    have exporting : exporterOf loaded symbol.name = some exporter := by
      rw [← named, exporterOf_eq, first]
      rfl
    obtain ⟨g, here, same⟩ := Option.map_eq_some_iff.mp first
    obtain ⟨rfl, rfl⟩ := Prod.mk.inj same
    have member := List.mem_of_find?_eq_some here
    obtain ⟨file, onDisk, held⟩ := isolated.housed.held g member
    obtain ⟨search, uso⟩ := held.uso
    have exported : searchSymbolTable g.2.uso.exportSyms e.name ≠ 0 := by
      rw [found]
      exact pointer
    obtain ⟨-, x, inTable, ofName, ptr⟩ := searchSymbolTable_exports exported
    rw [uso] at inTable
    obtain ⟨number, target, at_number, exports, sameName, address⟩ :=
      exportEntry_source file.produced search g.2.block inTable
    have leads : LeadsTo disk st loaded symbol (elfSymbolAddress file.elf file.tool g.2.uso number) :=
      .exported g file number target member exporting onDisk held at_number exports
        (sameName.symm.trans (ofName.trans named))
    have same : elfSymbolAddress file.elf file.tool g.2.uso number = e.ptr := by
      rw [uso]
      exact address.symm.trans (ptr.trans found)
    rwa [same] at leads

/-- Symbols other files see are told apart by their names. -/
theorem imported_unique {elf : Elf} (distinct : DistinctNames elf) {s t : ElfSymbol} (member : s ∈ elf.symbols)
    (member' : t ∈ elf.symbols) (imported : isImported s = true) (imported' : isImported t = true) (same : s.name = t.name) :
    s = t := by
  have visible : ∀ x ∈ elf.symbols, isImported x = true → x ∈ elf.symbols.filter fun s => s.bind != STB_LOCAL := by
    intro x inTable own
    simp only [isImported, Bool.and_eq_true] at own
    exact List.mem_filter.mpr ⟨inTable, own.1⟩
  exact List.inj_on_of_nodup_map distinct (visible s member imported) (visible t member' imported') same

end

/-- After every run over files whose visible names are distinct, each loaded USO is its ELF linked, and
each undefined symbol of the ELF has the run-time address of the symbol of that name in the first
loaded ELF that exports it, or of a global symbol, or is NULL because the tool took it for weak. -/
theorem run_crossLinked {disk : Bytes → AbiFile → Prop} (distinct : ∀ name file, disk name file → DistinctNames file.elf)
    {memory : Memory} {globalSymFile : Bytes} (sorted : SortedTable (readGlobalSyms globalSymFile)) {calls : List Call}
    {st : LoaderState} (run : Run (DiskStep disk) (initialState memory globalSymFile) calls st) :
    ∃ loaded, usoList st = .ok loaded ∧ ∀ h ∈ loaded, ∃ file, disk h.2.name file ∧ HoldsFile file h.2 st.memory ∧
      ∀ number symbol, file.elf.symbols[number]? = some symbol → isImported symbol = true →
        LeadsTo disk st loaded symbol (elfSymbolAddress file.elf file.tool h.2.uso number) := by
  obtain ⟨loaded, isolated⟩ := isolated_of_run run
  have listed := usoList_eq isolated.listed.represents
  have steps : Run Step (initialState memory globalSymFile) calls st :=
    run.refine (P := fun _ => True) (fun _ _ _ step _ => ⟨diskStep_sound distinct step, trivial⟩) trivial
  have start : ∃ loaded, SoundState (initialState memory globalSymFile) loaded := ⟨[], initialState_sound sorted memory⟩
  obtain ⟨binding, traced⟩ := exists_traced steps start fun _ _ => none
  obtain ⟨loaded₁, sound, current⟩ := run_current sorted traced
  obtain rfl := sound.represents.seen listed
  obtain ⟨loaded₂, sound₂, strong⟩ := steps.invariant
    (P := fun st => ∃ loaded, SoundState st loaded ∧ ∀ h ∈ loaded, StrongResolved h.2)
    (fun _ _ _ step before => strongResolved_step step before)
    ⟨[], initialState_sound sorted memory, fun h member => absurd member List.not_mem_nil⟩
  obtain rfl := sound₂.represents.seen listed
  refine ⟨loaded, listed, fun h member => ?_⟩
  obtain ⟨file, onDisk, held⟩ := isolated.housed.held h member
  refine ⟨file, onDisk, held, fun number symbol at_number imported => ?_⟩
  obtain ⟨search, uso⟩ := held.uso
  obtain ⟨e, inTable, named, address⟩ := elfSymbolAddress_imported file.produced search h.2.block at_number imported
  have own : e ∈ entries h.2.uso.importSyms := by
    rw [uso]
    exact inTable
  have same : elfSymbolAddress file.elf file.tool h.2.uso number = e.ptr := by
    rw [uso]
    exact address
  rw [same]
  by_cases null : e.ptr = 0
  · obtain ⟨s, inElf, imported', ofName, weak⟩ := importEntry_source file.produced search h.2.block inTable
    have unique := imported_unique (distinct _ _ onDisk) inElf (List.mem_of_getElem? at_number) imported' imported
      (ofName.symm.trans named)
    have taken : usoIsSymbolWeak e = true := by
      apply Decidable.byContradiction
      intro notWeak
      exact strong h member e own (Bool.eq_false_iff.mpr notWeak) null
    rw [null]
    rw [taken, unique] at weak
    exact .null (by simpa using weak.symm)
  · exact leadsTo_of_current isolated (current h member e own null) null named

theorem sampleDisk_distinct {name : Bytes} {file : AbiFile} (named : sampleDisk name file) : DistinctNames file.elf := by
  unfold DistinctNames
  rcases named with library | address
  · obtain ⟨rfl, rfl⟩ := Prod.mk.inj library
    decide
  · obtain ⟨rfl, rfl⟩ := Prod.mk.inj address
    decide

theorem run_crossLinked_addressOpen : ∃ loaded, usoList addressOpen = .ok loaded ∧ ∀ h ∈ loaded, ∃ file,
    sampleDisk h.2.name file ∧ HoldsFile file h.2 addressOpen.memory ∧
      ∀ number symbol, file.elf.symbols[number]? = some symbol → isImported symbol = true →
        LeadsTo sampleDisk addressOpen loaded symbol (elfSymbolAddress file.elf file.tool h.2.uso number) :=
  run_crossLinked (fun _ _ named => sampleDisk_distinct named) (by unfold SortedTable; decide) run_addressOpen

end DragonUso.CrossLinking
