import DragonUso.GlobalTable
import DragonUso.MakeUsoExterns

/-! The three tools and the loader together. What a file of a set imports is exported by another file
of the set or listed for the main program; the listed names are in the global table, and so the
loader finds every import of a file whose providers are loaded. -/

namespace DragonUso.ExternClosure
open WordMemory Format ElfFile ToolCollect ToolWriter LoaderImage RoundTrip Relocation SymbolSearch Loader HandleList
open LoaderSteps Runs OpenBinding CollectedTables ProducedFile MakeGlobalSyms GlobalTable MakeUsoExterns

/-- A file of the set. Its symbols have names, each of them once in a table. -/
structure UsoFile where
  sort : SymSort
  elf : Elf
  tool : Elf2uso
  srcElfName : Bytes
  produced : Produced sort elf tool srcElfName
  importNames : ∀ s ∈ tool.importSyms, s.name ≠ []
  exportNames : ∀ s ∈ tool.exportSyms, s.name ≠ []
  imports : (tool.importSyms.map fun s => s.name).Nodup
  exports : (tool.exportSyms.map fun s => s.name).Nodup

def UsoFile.bytes (file : UsoFile) : Bytes := usoWrite file.tool file.srcElfName

def UsoFile.info (file : UsoFile) : UsoInfo where
  importSyms := file.tool.importSyms.map readInfo
  exportSyms := file.tool.exportSyms.map readInfo

/-- The program has every listed name as a symbol that `make_global_syms` takes. -/
structure LinkedWith (elf : MainElf) (externs : List Bytes) : Prop where
  distinct : ((elf.symbols.filter fun s => s.bind != STB_LOCAL).map fun s => s.name).Nodup
  short : ∀ s ∈ elf.symbols, s.bind ≠ STB_LOCAL → s.name.length < 32767
  listed : ∀ name ∈ externs, name ∉ unexportedSymbols ∧
    ∃ s ∈ elf.symbols, s.name = name ∧ s.bind ≠ STB_LOCAL ∧ s.value ≠ 0

/-- One file exports what another imports. -/
def Provides (other file : UsoFile) : Prop :=
  ∃ e ∈ other.tool.exportSyms, ∃ s ∈ file.tool.importSyms, e.name = s.name

/-- A USO that was loaded from a file, whatever its imports were bound to. -/
def LoadOf (file : UsoFile) (r : UsoRecord) : Prop :=
  ∃ search base noload, r.uso = fixedUso (usoImage file.bytes) search base noload

/-- Every other file of the set that exports an import of file `i` is loaded. -/
def ProvidersLoaded (usos : List UsoFile) (i : Nat) (file : UsoFile) (loaded : Registry) : Prop :=
  ∀ j other, usos[j]? = some other → j ≠ i → Provides other file → ∃ h ∈ loaded, LoadOf other h.2

/-- No export of a loaded file of the set is at NULL. -/
def ExportsNonNull (usos : List UsoFile) (loaded : Registry) : Prop :=
  ∀ file ∈ usos, ∀ h ∈ loaded, LoadOf file h.2 → ∀ e ∈ entries h.2.uso.exportSyms, e.ptr ≠ 0

/-! ### The list -/

theorem UsoFile.sound (file : UsoFile) : SoundFile file.bytes := file.produced.sound file.imports file.exports

theorem UsoFile.ascend (file : UsoFile) : NamesAscend file.info := by
  have names := file.exports
  rw [file.produced.accepted.exportSyms, ((file.sort.perm _).map _).nodup_iff] at names
  have sorted := sortedTable_run file.sort names
  rw [← file.produced.accepted.exportSyms] at sorted
  refine List.pairwise_map.mpr ((List.pairwise_map.mp sorted).imp fun {a b} order => ?_)
  exact (stringLess_iff a.name b.name).mpr order

theorem usoReadList_usos (usos : List UsoFile) :
    usoReadList (usos.map UsoFile.bytes) = .ok (usos.map UsoFile.info) := by
  induction usos with
  | nil => rfl
  | cons file rest ih =>
    have own := usoRead_produced file.produced file.importNames file.exportNames
    rw [List.map_cons, List.map_cons, usoReadList, UsoFile.bytes, own, ih]
    rfl

/-- The tool reads every set of such files. -/
theorem makeUsoExterns_usos (usos : List UsoFile) :
    makeUsoExterns (usos.map UsoFile.bytes) = .ok (generateUsoExternList (usos.map UsoFile.info)) := by
  rw [makeUsoExterns, usoReadList_usos]

/-- What a file imports comes from another file of the set or is listed. -/
theorem provided_or_listed {usos : List UsoFile} {i : Nat} {file : UsoFile} (at_i : usos[i]? = some file) {s : SymbolInfo}
    (imported : s ∈ file.tool.importSyms) :
    (∃ j other, usos[j]? = some other ∧ j ≠ i ∧ ∃ e ∈ other.tool.exportSyms, e.name = s.name) ∨
      s.name ∈ generateUsoExternList (usos.map UsoFile.info) := by
  have ascend : ∀ info ∈ usos.map UsoFile.info, NamesAscend info := by
    intro info member
    obtain ⟨own, -, rfl⟩ := List.mem_map.mp member
    exact own.ascend
  by_cases provided : ∃ j other, usos[j]? = some other ∧ j ≠ i ∧ ∃ e ∈ other.tool.exportSyms, e.name = s.name
  · exact .inl provided
  · refine .inr ((mem_generateUsoExternList ascend).mpr ⟨i, file.info, ?_, ?_, ?_⟩)
    · rw [List.getElem?_map, at_i]
      rfl
    · exact ⟨readInfo s, List.mem_map_of_mem imported, rfl⟩
    · intro j info at_j other e exported named
      rw [List.getElem?_map] at at_j
      obtain ⟨provider, found, rfl⟩ := Option.map_eq_some_iff.mp at_j
      obtain ⟨own, member, rfl⟩ := List.mem_map.mp exported
      exact provided ⟨j, provider, found, other, own, member, named⟩

/-! ### The searches -/

theorem searchExports_ne_zero {loaded : Registry} {name : Bytes} {h : U32 × UsoRecord} (member : h ∈ loaded)
    (found : searchSymbolTable h.2.uso.exportSyms name ≠ 0) : searchExports loaded name ≠ 0 := by
  induction loaded with
  | nil => exact absurd member List.not_mem_nil
  | cons first rest ih =>
    rw [searchExports]
    split
    next own => exact own
    next none =>
      rcases List.mem_cons.mp member with rfl | later
      · exact absurd found none
      · exact ih later

/-- A loaded file of the set is found to export what its table lists. -/
theorem LoadOf.found {file : UsoFile} {r : UsoRecord} (load : LoadOf file r)
    (nonnull : ∀ e ∈ entries r.uso.exportSyms, e.ptr ≠ 0) {e : SymbolInfo} (exported : e ∈ file.tool.exportSyms) :
    searchSymbolTable r.uso.exportSyms e.name ≠ 0 := by
  obtain ⟨search, base, noload, own⟩ := load
  have table : entries r.uso.exportSyms = (file.tool.exportSyms.map loadedSymbol).map fun s =>
      { s with ptr := ptrFixup s.ptr (exportBase (loadedSections (usoImage file.bytes) base noload) s) } := by
    have written := exports_usoWrite file.produced.writable
    simp only [own, fixedUso, fixedExports, entries_map]
    rw [UsoFile.bytes, written, entries_present]
  have sorted : SortedTable (entries r.uso.exportSyms) := by
    have stored := file.sound.exports
    rw [UsoFile.bytes, exports_usoWrite file.produced.writable, entries_present] at stored
    rw [table]
    refine (sortedTable_map ?_).mpr stored
    exact fun _ => rfl
  have member := List.mem_map_of_mem (f := fun s : UsoSymbol =>
      { s with ptr := ptrFixup s.ptr (exportBase (loadedSections (usoImage file.bytes) base noload) s) })
    (List.mem_map_of_mem (f := loadedSymbol) exported)
  rw [← table] at member
  have found := searchSymbolTable_complete sorted member
  exact fun null => nonnull _ member (found.symm.trans null)

theorem symIsExported_iff (name : Bytes) : symIsExported name = true ↔ name ∉ unexportedSymbols := by
  rw [symIsExported, List.all_eq_true]
  simp only [bne_iff_ne]
  exact ⟨fun all member => all name member rfl, fun out excluded member same => out (same ▸ member)⟩

/-- A listed name is in the global table, at the address it has in the program. -/
theorem globalTable_listed {sort : SymSort} {elf : MainElf} {syms : GlobalSyms} (made : makeGlobalSyms sort elf = .ok syms)
    (small : (globalSymWrite syms.exportSymList).length < 2 ^ 31) {externs : List Bytes} (linked : LinkedWith elf externs)
    {name : Bytes} (listed : name ∈ externs) :
    searchSymbolTable (some (readGlobalSyms (globalSymWrite syms.exportSymList))) name ≠ 0 := by
  have readable : NamesReadable elf := by
    intro s member taken long
    have short := linked.short s member ((isGlobal_iff s).mp taken).1
    omega
  obtain ⟨table, sorted⟩ := readGlobalSyms_readable made linked.distinct small readable
  obtain ⟨exported, s, member, rfl, nonlocal, nonnull⟩ := linked.listed name listed
  obtain ⟨i, at_i⟩ := List.mem_iff_getElem?.mp member
  have taken : isGlobal s = true := (isGlobal_iff s).mpr ⟨nonlocal, nonnull, (symIsExported_iff s.name).mpr exported⟩
  have entry := List.mem_map_of_mem (f := loadedSymbol) ((mem_exportSymList made).mpr ⟨i, s, at_i, taken, rfl⟩)
  rw [← table] at entry
  have order : SortedTable (entries (some (readGlobalSyms (globalSymWrite syms.exportSymList)))) := sorted
  have found := (searchSymbolTable_complete order entry).trans (exportSymbol_ptr i s 0)
  intro null
  exact nonnull (found.symm.trans null)

/-- Every import of a file is resolved if the search finds them all. -/
theorem importsResolved_of_found {st : LoaderState} {loaded : Registry} {file : UsoFile}
    (found : ∀ s ∈ file.tool.importSyms, resolve st loaded s.name ≠ 0) : importsResolved st loaded file.bytes = true := by
  rw [importsResolved, fixupImports_eq]
  simp only
  rw [UsoFile.bytes, imports_usoWrite file.produced.writable, entries_present, List.all_eq_true]
  intro e member
  obtain ⟨s, imported, rfl⟩ := List.mem_map.mp member
  rw [Bool.or_eq_true, bne_iff_ne]
  exact .inr (found s imported)

/-- The list closes the build: after every run of calls on any files, a file of the set whose providers
are loaded opens without an unresolved symbol. -/
theorem externs_close {usos : List UsoFile} {externs : List Bytes}
    (listed : makeUsoExterns (usos.map UsoFile.bytes) = .ok externs) {sort : SymSort} {elf : MainElf} {syms : GlobalSyms}
    (made : makeGlobalSyms sort elf = .ok syms) (linked : LinkedWith elf externs)
    (small : (globalSymWrite syms.exportSymList).length < 2 ^ 31) {memory : Memory} {calls : List Call} {st : LoaderState}
    (run : Run (CallStep fun _ => True) (initialState memory (globalSymWrite syms.exportSymList)) calls st)
    {loaded : Registry} (follows : usoList st = .ok loaded) (nonnull : ExportsNonNull usos loaded) {i : Nat} {file : UsoFile}
    (at_i : usos[i]? = some file) (providers : ProvidersLoaded usos i file loaded) :
    importsResolved st loaded file.bytes = true ∧
      ∀ filename alloc st' handle, FreshHandle st alloc.handle →
        usoOpen st filename (some file.bytes) alloc = .ok (st', handle) → handle ≠ 0 := by
  obtain ⟨loaded', state, globals⟩ := callRun_globals run
  obtain rfl := state.represents.seen follows
  rw [makeUsoExterns_usos, Except.ok.injEq] at listed
  have found : ∀ s ∈ file.tool.importSyms, resolve st loaded s.name ≠ 0 := by
    intro s imported
    rw [resolve, searchLoadedSymbols]
    split
    next exported => exact exported
    next none =>
      rw [if_pos rfl, globals]
      rcases provided_or_listed at_i imported with ⟨j, other, at_j, differ, e, exported, named⟩ | inList
      · obtain ⟨h, member, load⟩ := providers j other at_j differ ⟨e, exported, s, imported, named⟩
        have own := load.found (nonnull other (List.mem_of_getElem? at_j) h member load) exported
        rw [named] at own
        exact absurd (searchExports_ne_zero member own) none
      · exact globalTable_listed made small linked (listed ▸ inList)
  have resolved := importsResolved_of_found found
  refine ⟨resolved, fun filename alloc st' handle fresh returned => ?_⟩
  obtain ⟨after, result, -⟩ := usoOpen_result state (fun _ _ => fresh) returned
  cases result with
  | reopened h member => exact state.represents.nonnull member
  | missing _ absent => cases absent
  | unresolved bytes _ same missed =>
    rw [← Option.some.inj same, resolved] at missed
    cases missed
  | opened => exact fresh.nonnull

/-! The program file alone: what it imports is left to the main program. -/

def programUso : UsoFile where
  sort := nameSort
  elf := programElf
  tool := programTool
  srcElfName := [112]
  produced := sampleTool_produced (by decide +kernel) (by decide +kernel) (by decide) (by decide +kernel) (by decide +kernel)
  importNames := by decide
  exportNames := by decide
  imports := by decide
  exports := by decide

theorem externs_close_programUso :
    makeUsoExterns [programUso.bytes] = .ok [[102]] ∧
    importsResolved (initialState (fun _ => 0) (globalSymWrite [globalSymbol 1 globalF])) [] programUso.bytes = true := by
  have listed : makeUsoExterns ([programUso].map UsoFile.bytes) = .ok [[102]] := by decide +kernel
  have linked : LinkedWith (mainElf [nullSymbol, globalF]) [[102]] := by
    refine ⟨distinct_one (by decide), by decide, ?_⟩
    intro name member
    rw [List.mem_singleton.mp member]
    exact ⟨by decide, globalF, by decide, rfl, by decide, by decide⟩
  have none : ∀ {P : U32 × UsoRecord → Prop}, ∀ h ∈ ([] : Registry), P h := fun h member => absurd member List.not_mem_nil
  refine ⟨listed, (externs_close (i := 0) listed (makeGlobalSyms_one (by decide) nameSort) linked
    (Nat.lt_of_le_of_lt (globalSymWrite_one 1 globalF) (by decide)) (.done _) (by decide +kernel)
    (fun _ _ => none) rfl ?_).1⟩
  intro j other at_j differ
  obtain ⟨j, rfl⟩ : ∃ k, j = k + 1 := Nat.exists_eq_succ_of_ne_zero differ
  cases at_j

end DragonUso.ExternClosure
