import Mathlib.Data.List.Forall2
import DragonUso.CrossLinking
import DragonUso.NameLinker
import DragonUso.PointerLookup
import DragonUso.SymbolOrder

/-! The tools and the loader as a linker of names. Whatever addresses the allocator gives and whatever
memory holds, each answer of the library is that of the linker that knows only the names in the ELFs. -/

namespace DragonUso.NameRefinement
open ByteOrder WordMemory Runs Format ElfFile ToolCollect ToolWriter LoaderImage RoundTrip NoloadLayout Relocation SymbolSearch
open Loader HandleList LoaderSteps OpenBinding ImportsAlive CollectedTables ProducedFile WeakImports
open RelocSafety RelocBinding ExportLookup SectionPlacement ElfLinking Isolation PointerLookup CrossLinking SymbolOrder

/-! ### Files as interfaces -/

/-- The names in an ELF's symbol table. An import counts as weak if the tool takes it for weak, and that tests the
symbol's type. -/
def elfInterface (elf : Elf) : NameLinker.Interface Bytes where
  exports := (elf.symbols.filter isExported).map fun s => s.name
  imports := (elf.symbols.filter isImported).map fun s => (s.name, s.type == STB_WEAK)

/-- A file whose names are told apart and whose exports lie where the loader puts their sections. -/
structure PlainFile (file : AbiFile) : Prop where
  distinct : DistinctNames file.elf
  unpadded : NoPadding file.tool.outSections
  placed : ∀ symbol ∈ file.elf.symbols, isExported symbol = true → ∀ s, Kept file.elf symbol.shndx.toNat s →
    0 < s.size.toNat ∧ symbol.value.toNat ≤ s.size.toNat

section
variable {file : AbiFile} {block : U32}

/-- No export is at NULL: sections are not, and the tool takes no absolute symbol that is. -/
theorem PlainFile.nonnull (plain : PlainFile file) (given : BlockGiven file.bytes block) (search : Bytes → U32)
    {symbol : ElfSymbol} (member : symbol ∈ file.elf.symbols) (exported : isExported symbol = true) {address : U32}
    (at_address : DefinedAt file.elf file.tool file.bytes (loadedFile file.bytes search block) block symbol address) :
    address ≠ 0 := by
  have accepted := file.produced.accepted
  have real : symbol.shndx.toNat ≠ SHN_UNDEF := by
    simp only [isExported, Bool.and_eq_true, bne_iff_ne] at exported
    exact exported.1.2
  cases at_address with
  | loaded s sec at_index allocated at_sec =>
    have kept : Kept file.elf symbol.shndx.toNat s := ⟨real, at_index, allocated⟩
    obtain ⟨k, sec', nonzero, start, jobs⟩ := kept_section file.produced search (BlockGiven.fits file.produced given) kept
    obtain ⟨-, place⟩ := section_inBlock file.produced given plain.unpadded (jobs true).2 nonzero
    obtain ⟨some, within⟩ := plain.placed symbol member exported s kept
    obtain ⟨positive, -, limit⟩ := place some
    have ends : block.toNat + (getUsoRamSize (readLoadInfo (usoWrite file.tool file.srcElfName))).toNat < 2 ^ 32 := given.ends
    have same : sec.data + symbol.value = sec'.data + symbol.value := by
      have own : DefinedAt file.elf file.tool file.bytes (loadedFile file.bytes search block) block symbol
          (sec.data + symbol.value) := .loaded s sec at_index allocated at_sec
      have offset := definedAt_kept kept own
      rw [BitVec.ofNat_toNat, BitVec.setWidth_eq] at offset
      exact offset.trans (congrArg (· + symbol.value) start)
    rw [same]
    bv_omega
  | absolute unloaded =>
    obtain ⟨-, -, -, acceptable⟩ := elf2uso_accepts.mp ⟨file.tool, file.produced.collected⟩
    refine (acceptable symbol member).placed exported ?_
    cases place : (sectionCollect file.elf).outSectionMap symbol.shndx.toNat with
    | none => rfl
    | some k =>
      obtain ⟨-, -, s, at_index, allocated, -⟩ := (sectionCollect_below file.elf).mapped _ k real place
      rw [unloaded s at_index] at allocated
      cases allocated

/-- A name is found in the export table of a loaded file exactly if the ELF exports it. -/
theorem PlainFile.search_exports (plain : PlainFile file) (given : BlockGiven file.bytes block) (search : Bytes → U32)
    (name : Bytes) :
    searchSymbolTable (loadedFile file.bytes search block).exportSyms name ≠ 0 ↔ name ∈ (elfInterface file.elf).exports := by
  obtain ⟨-, found, absent⟩ := exportsFound_loadedFile ⟨file.produced, BlockGiven.fits file.produced given⟩ plain.distinct search
  unfold elfInterface
  constructor
  · intro pointer
    apply Decidable.byContradiction
    intro missing
    refine pointer (absent name fun symbol member exported named => missing ?_)
    exact List.mem_map.mpr ⟨symbol, List.mem_filter.mpr ⟨member, exported⟩, named⟩
  · intro listed
    obtain ⟨symbol, inTable, rfl⟩ := List.mem_map.mp listed
    obtain ⟨member, exported⟩ := List.mem_filter.mp inTable
    obtain ⟨address, at_address, searched⟩ := found symbol member exported
    have same : searchSymbolTable (loadedFile file.bytes search block).exportSyms symbol.name = address := searched
    rw [same]
    exact plain.nonnull given search member exported at_address

theorem exportNames (file : AbiFile) (search : Bytes → U32) (block : U32) {e : UsoSymbol}
    (member : e ∈ entries (loadedFile file.bytes search block).exportSyms) : e.name ∈ (elfInterface file.elf).exports := by
  obtain ⟨number, target, at_number, exported, named, -⟩ := exportEntry_source file.produced search block member
  exact List.mem_map.mpr ⟨target, List.mem_filter.mpr ⟨List.mem_of_getElem? at_number, exported⟩, named.symm⟩

/-- The import entries of a file are the imports of its ELF. -/
theorem mem_imports (file : AbiFile) {name : Bytes} {weak : Bool} :
    (name, weak) ∈ (elfInterface file.elf).imports ↔
      ∃ e ∈ fileImports file.bytes, e.name = name ∧ usoIsSymbolWeak e = weak := by
  have table : fileImports file.bytes = file.tool.importSyms.map loadedSymbol := by
    have stored : readSymbolTable (usoImage file.bytes) (readHeader (usoImage file.bytes)).importSyms = _ :=
      imports_usoWrite file.produced.writable
    rw [fileImports, stored, entries_present]
  rw [table]
  unfold elfInterface
  constructor
  · intro listed
    obtain ⟨s, inTable, same⟩ := List.mem_map.mp listed
    obtain ⟨rfl, rfl⟩ := Prod.mk.inj same
    obtain ⟨member, imported⟩ := List.mem_filter.mp inTable
    obtain ⟨i, at_i⟩ := List.mem_iff_getElem?.mp member
    have inFile := file.produced.accepted.mem_importSyms.mpr ⟨i, s, at_i, imported, rfl⟩
    exact ⟨_, List.mem_map_of_mem inFile, rfl, usoIsSymbolWeak_importSymbol file.produced at_i imported⟩
  · rintro ⟨_, inFile, rfl, rfl⟩
    obtain ⟨entry, inTable, rfl⟩ := List.mem_map.mp inFile
    obtain ⟨i, s, at_i, imported, rfl⟩ := file.produced.accepted.mem_importSyms.mp inTable
    refine List.mem_map.mpr ⟨s, List.mem_filter.mpr ⟨List.mem_of_getElem? at_i, imported⟩, ?_⟩
    rw [usoIsSymbolWeak_importSymbol file.produced at_i imported]
    rfl

/-- A name is found among the imports of a loaded file exactly if the file imports it and the loader found it. -/
theorem PlainFile.search_imports (plain : PlainFile file) (search : Bytes → U32) (block : U32) (name : Bytes) :
    searchSymbolTable (loadedFile file.bytes search block).importSyms name ≠ 0 ↔
      name ∈ (elfInterface file.elf).imports.map Prod.fst ∧ search name ≠ 0 := by
  have sorted := ((abiFile_sound file plain.distinct).record search block
    (getUsoNoloadStart (readLoadInfo file.bytes) block) 0 0 []).imports
  have stored : entries (loadedFile file.bytes search block).importSyms =
      (fileImports file.bytes).map fun s => { s with ptr := search s.name } := entries_fixupImports _ _
  constructor
  · intro pointer
    obtain ⟨e, member, rfl, found⟩ := searchSymbolTable_sound pointer
    rw [← found] at pointer
    rw [stored] at member
    obtain ⟨s, inFile, rfl⟩ := List.mem_map.mp member
    exact ⟨List.mem_map.mpr ⟨_, (mem_imports file).mpr ⟨s, inFile, rfl, rfl⟩, rfl⟩, pointer⟩
  · rintro ⟨listed, pointer⟩
    obtain ⟨⟨_, weak⟩, inTable, rfl⟩ := List.mem_map.mp listed
    obtain ⟨s, inFile, named, -⟩ := (mem_imports file).mp inTable
    simp only at named pointer ⊢
    subst named
    have member : ({ s with ptr := search s.name } : UsoSymbol) ∈ entries (loadedFile file.bytes search block).importSyms := by
      rw [stored]
      exact List.mem_map_of_mem inFile
    have same : searchSymbolTable (loadedFile file.bytes search block).importSyms s.name = search s.name :=
      searchSymbolTable_complete sorted member
    rwa [same]

/-- The loader's verdict on the imports of a file is a test of names. -/
theorem importsResolved_eq (file : AbiFile) (st : LoaderState) (loaded : Registry) :
    importsResolved st loaded file.bytes =
      (elfInterface file.elf).imports.all fun i => i.2 || resolve st loaded i.1 != 0 := by
  have verdict : importsResolved st loaded file.bytes =
      (fileImports file.bytes).all fun s => usoIsSymbolWeak s || resolve st loaded s.name != 0 := by
    rw [importsResolved, fixupImports_eq]
    rfl
  rw [verdict, Bool.eq_iff_iff, List.all_eq_true, List.all_eq_true]
  constructor
  · rintro every ⟨name, weak⟩ listed
    obtain ⟨e, inFile, rfl, rfl⟩ := (mem_imports file).mp listed
    exact every e inFile
  · intro every e inFile
    exact every (e.name, usoIsSymbolWeak e) ((mem_imports file).mpr ⟨e, inFile, rfl, rfl⟩)

end

/-! ### States as tables -/

/-- What a test for unloading that returned has found, with or without an export table. -/
theorem isUsoCloseable_iff {loaded : Registry} {handle : U32} {uso : LoadedUso} {closeable : Bool}
    (tested : isUsoCloseable loaded handle uso = .ok closeable) :
    closeable = true ↔ ∀ g ∈ loaded, g.1 ≠ handle → ∀ e ∈ entries uso.exportSyms,
      searchSymbolTable g.2.uso.importSyms e.name = 0 := by
  unfold isUsoCloseable at tested
  cases exports : uso.exportSyms with
  | none =>
    rw [exports, closeableAmong_none] at tested
    split at tested
    next alone =>
      rw [← Except.ok.inj tested]
      exact iff_of_true rfl fun g member other => absurd (alone g member) other
    next => cases tested
  | some symbols =>
    obtain ⟨answer, same, meaning⟩ := closeableAmong_some handle symbols loaded
    rw [exports, same] at tested
    rw [← Except.ok.inj tested]
    exact meaning

/-- The interface a file on the disk has, as far as its ELF tells. -/
def faces (disk : Bytes → Option AbiFile) (name : Bytes) : Option (NameLinker.Interface Bytes) :=
  (disk name).map fun file => elfInterface file.elf

/-- Whether the global symbol file has an address for the name. -/
def globalNames (globalSyms : Option (List UsoSymbol)) (name : Bytes) : Bool := searchSymbolTable globalSyms name != 0

/-- A loaded USO, seen as a member of the linker's table. -/
structure Shows (h : U32 × UsoRecord) (m : NameLinker.Member Bytes) : Prop where
  name : m.name = h.2.name
  uses : m.uses = h.2.refCount
  exports : ∀ name, searchSymbolTable h.2.uso.exportSyms name ≠ 0 ↔ name ∈ m.exports
  entries : ∀ e ∈ SymbolSearch.entries h.2.uso.exportSyms, e.name ∈ m.exports
  held : ∀ name, searchSymbolTable h.2.uso.importSyms name ≠ 0 ↔ name ∈ m.held

/-- The list of the library, seen as the linker's table. -/
structure Shown (disk : Bytes → Option AbiFile) (globalSyms : Option (List UsoSymbol)) (st : LoaderState) (loaded : Registry)
    (table : List (NameLinker.Member Bytes)) : Prop where
  listed : ListedState st loaded
  globals : st.globalSyms = globalSyms
  members : List.Forall₂ Shows loaded table
  sound : NameLinker.Sound (faces disk) (globalNames globalSyms) table

theorem mem_left {α β : Type} {R : α → β → Prop} {l : List α} {u : List β} (all : List.Forall₂ R l u) {a : α}
    (member : a ∈ l) : ∃ b ∈ u, R a b := by
  induction all with
  | nil => exact absurd member List.not_mem_nil
  | cons first _ ih =>
    rcases List.mem_cons.mp member with rfl | inRest
    · exact ⟨_, List.mem_cons_self, first⟩
    · obtain ⟨b, there, related⟩ := ih inRest
      exact ⟨b, List.mem_cons_of_mem _ there, related⟩

theorem mem_right {α β : Type} {R : α → β → Prop} {l : List α} {u : List β} (all : List.Forall₂ R l u) {b : β}
    (member : b ∈ u) : ∃ a ∈ l, R a b := by
  obtain ⟨a, there, related⟩ := mem_left all.flip member
  exact ⟨a, there, related⟩

section
variable {disk : Bytes → Option AbiFile} {globalSyms : Option (List UsoSymbol)} {st : LoaderState} {loaded : Registry}
  {table : List (NameLinker.Member Bytes)}

theorem Shown.names (shown : Shown disk globalSyms st loaded table) : loaded.map (fun h => h.2.name) = table.map NameLinker.Member.name := by
  have members := shown.members
  clear shown
  induction members with
  | nil => rfl
  | cons first _ ih => rw [List.map_cons, List.map_cons, ih, first.name]

theorem Shown.isLinked (shown : Shown disk globalSyms st loaded table) (name : Bytes) :
    NameLinker.isLinked table name = true ↔ usoGetHandle loaded name ≠ 0 := by
  rw [NameLinker.isLinked_iff, ← shown.names, List.mem_map, ne_eq, usoGetHandle_eq_zero shown.listed.represents]
  unfold NotLoaded
  push Not
  rfl

/-- Handles and names tell the same USOs apart. -/
theorem Shown.handle_iff_name (shown : Shown disk globalSyms st loaded table) {h : U32 × UsoRecord} (member : h ∈ loaded)
    {g : U32 × UsoRecord} (other : g ∈ loaded) : g.1 = h.1 ↔ g.2.name = h.2.name := by
  constructor
  · intro same
    rw [shown.listed.represents.unique other member same]
  · intro same
    have distinct := shown.sound.distinct
    rw [← shown.names] at distinct
    rw [List.inj_on_of_nodup_map distinct other member same]

/-- The members with their place in the list. -/
theorem Shown.together (shown : Shown disk globalSyms st loaded table) :
    List.Forall₂ (fun g m => g ∈ loaded ∧ Shows g m) loaded table :=
  (List.forall₂_and_left loaded table).mpr ⟨fun _ member => member, shown.members⟩

theorem Shown.member (shown : Shown disk globalSyms st loaded table) {h : U32 × UsoRecord} (member : h ∈ loaded) :
    ∃ m, table.find? (fun m => decide (m.name = h.2.name)) = some m ∧ m ∈ table ∧ Shows h m := by
  obtain ⟨m, there, shows⟩ := mem_left shown.members member
  cases found : table.find? fun m => decide (m.name = h.2.name) with
  | none =>
    have other := List.find?_eq_none.mp found m there
    simp [shows.name] at other
  | some m' =>
    have named : m'.name = h.2.name := by simpa using List.find?_some found
    obtain rfl := shown.sound.unique (List.mem_of_find?_eq_some found) there (named.trans shows.name.symm)
    exact ⟨m', rfl, there, shows⟩

theorem Shown.exported (shown : Shown disk globalSyms st loaded table) (name : Bytes) :
    NameLinker.exported table name = true ↔ searchExports loaded name ≠ 0 := by
  rw [searchExports_eq_find, NameLinker.exported, List.any_eq_true]
  simp only [decide_eq_true_eq]
  constructor
  · rintro ⟨m, there, listed⟩
    obtain ⟨h, member, shows⟩ := mem_right shown.members there
    cases found : loaded.find? fun h => searchSymbolTable h.2.uso.exportSyms name != 0 with
    | none =>
      have none := List.find?_eq_none.mp found h member
      exact absurd (bne_iff_ne.mpr ((shows.exports name).mpr listed)) none
    | some g => simpa using List.find?_some found
  · intro pointer
    cases found : loaded.find? fun h => searchSymbolTable h.2.uso.exportSyms name != 0 with
    | none =>
      rw [found] at pointer
      exact absurd rfl pointer
    | some g =>
      obtain ⟨m, there, shows⟩ := mem_left shown.members (List.mem_of_find?_eq_some found)
      rw [found] at pointer
      exact ⟨m, there, (shows.exports name).mp pointer⟩

theorem Shown.offered (shown : Shown disk globalSyms st loaded table) (name : Bytes) :
    NameLinker.offered (globalNames globalSyms) table name = (resolve st loaded name != 0) := by
  have exported := shown.exported name
  unfold NameLinker.offered globalNames resolve searchLoadedSymbols
  rw [shown.globals]
  by_cases found : searchExports loaded name ≠ 0
  · rw [exported.mpr found, if_pos found, bne_iff_ne.mpr found]
    rfl
  · rw [Bool.eq_false_iff.mpr (mt exported.mp found), if_neg found]
    rfl

/-- The handle of a name and the member of that name are the same USO. -/
theorem Shown.ofHandle (shown : Shown disk globalSyms st loaded table) {name : Bytes} (some : usoGetHandle loaded name ≠ 0) :
    ∃ h ∈ loaded, h.1 = usoGetHandle loaded name ∧ h.2.name = name ∧
      ∃ m, table.find? (fun m => decide (m.name = name)) = Option.some m ∧ m ∈ table ∧ Shows h m := by
  obtain ⟨h, member, rfl, same⟩ := usoGetHandle_found some
  exact ⟨h, member, same, rfl, shown.member member⟩

/-- A change of the count of one handle is that change of its member. -/
theorem Shown.setUses (shown : Shown disk globalSyms st loaded table) {h : U32 × UsoRecord} (member : h ∈ loaded)
    (change : U32 → U32) :
    List.Forall₂ Shows (withRefCount loaded h.1 (change h.2.refCount)) (NameLinker.setUses table h.2.name change) := by
  unfold withRefCount NameLinker.setUses
  rw [List.forall₂_map_left_iff, List.forall₂_map_right_iff]
  refine shown.together.imp ?_
  rintro g m ⟨other, shows⟩
  have told := shown.handle_iff_name member other
  rw [← shows.name] at told
  by_cases same : g.1 = h.1
  · rw [if_pos same, if_pos (told.mp same)]
    obtain rfl := shown.listed.represents.unique other member same
    exact { shows with uses := congrArg change shows.uses }
  · rw [if_neg same, if_neg (mt told.mpr same)]
    exact shows

theorem Shown.removed (shown : Shown disk globalSyms st loaded table) {h : U32 × UsoRecord} (member : h ∈ loaded) :
    List.Forall₂ Shows (without loaded h.1) (table.filter fun m => decide (m.name ≠ h.2.name)) := by
  unfold without
  refine List.Forall₂.imp (fun _ _ both => both.2) (List.rel_filter ?_ shown.together)
  rintro g m ⟨other, shows⟩
  simp only [decide_eq_true_eq, shows.name]
  exact not_congr (shown.handle_iff_name member other)

/-- Another file holds a name of this one exactly if another USO has a pointer under an export of this one. -/
theorem Shown.needed_iff (shown : Shown disk globalSyms st loaded table) {h : U32 × UsoRecord} (member : h ∈ loaded)
    {m : NameLinker.Member Bytes} (shows : Shows h m) :
    NameLinker.needed table m = true ↔
      ∃ g ∈ loaded, g.1 ≠ h.1 ∧ ∃ e ∈ entries h.2.uso.exportSyms, searchSymbolTable g.2.uso.importSyms e.name ≠ 0 := by
  simp only [NameLinker.needed, List.any_eq_true, Bool.and_eq_true, decide_eq_true_eq]
  constructor
  · rintro ⟨o, there, other, name, listed, held⟩
    obtain ⟨g, inList, same⟩ := mem_right shown.members there
    have exported := (shows.exports name).mpr listed
    obtain ⟨e, inTable, rfl, -⟩ := searchSymbolTable_sound exported
    refine ⟨g, inList, ?_, e, inTable, (same.held _).mpr held⟩
    rw [same.name, shows.name] at other
    exact mt (shown.handle_iff_name member inList).mp other
  · rintro ⟨g, inList, other, e, inTable, pointer⟩
    obtain ⟨o, there, same⟩ := mem_left shown.members inList
    refine ⟨o, there, ?_, e.name, shows.entries e inTable, (same.held _).mp pointer⟩
    rw [same.name, shows.name]
    exact mt (shown.handle_iff_name member inList).mpr other

/-- A test for unloading that returned says whether the file is still needed. -/
theorem Shown.needed (shown : Shown disk globalSyms st loaded table) {h : U32 × UsoRecord} (member : h ∈ loaded)
    {m : NameLinker.Member Bytes} (shows : Shows h m) {closeable : Bool}
    (tested : isUsoCloseable loaded h.1 h.2.uso = .ok closeable) : NameLinker.needed table m = !closeable := by
  have meaning := isUsoCloseable_iff tested
  have used := shown.needed_iff member shows
  cases closeable with
  | true =>
    apply Bool.eq_false_iff.mpr
    intro needed
    obtain ⟨g, inList, other, e, inTable, pointer⟩ := used.mp needed
    exact pointer (meaning.mp rfl g inList other e inTable)
  | false =>
    apply used.mpr
    apply Decidable.byContradiction
    intro unused
    refine Bool.false_ne_true (meaning.mpr fun g inList other e inTable => ?_)
    apply Decidable.byContradiction
    exact fun pointer => unused ⟨g, inList, other, e, inTable, pointer⟩

end

/-! ### Calls by name -/

/-- A call a program makes by name, with the answer it gets: a handle or a pointer that is not NULL. A
program closes or searches only what it found loaded, and `malloc` never returns the handle that stands for any. -/
inductive Performs (disk : Bytes → Option AbiFile) : LoaderState → NameLinker.Request Bytes × Bool → LoaderState → Prop where
  | load {st st' : LoaderState} {name : Bytes} {alloc : Allocation} {handle : U32} :
    (∀ file, disk name = some file → Fresh st file.bytes alloc) →
    usoOpen st name ((disk name).map AbiFile.bytes) alloc = .ok (st', handle) →
    Performs disk st (.load name, handle != 0) st'
  | drop {st st' : LoaderState} {loaded : Registry} {name : Bytes} :
    usoList st = .ok loaded → usoGetHandle loaded name ≠ 0 → usoClose st (usoGetHandle loaded name) = .ok st' →
    Performs disk st (.drop name, true) st'
  | find {st : LoaderState} {loaded : Registry} {name symbol : Bytes} {ptr : U32} :
    usoList st = .ok loaded → usoGetHandle loaded name ≠ 0 → usoGetHandle loaded name ≠ USO_HANDLE_ANY →
    usoSym st (usoGetHandle loaded name) symbol = .ok ptr → Performs disk st (.find name symbol, ptr != 0) st
  | findAny {st : LoaderState} {symbol : Bytes} {ptr : U32} :
    usoSym st USO_HANDLE_ANY symbol = .ok ptr → Performs disk st (.findAny symbol, ptr != 0) st
  | loaded {st : LoaderState} {loaded : Registry} {name : Bytes} :
    usoList st = .ok loaded → Performs disk st (.loaded name, usoGetHandle loaded name != 0) st

section
variable {disk : Bytes → Option AbiFile} {globalSyms : Option (List UsoSymbol)} {st st' : LoaderState} {loaded : Registry}
  {table : List (NameLinker.Member Bytes)}

/-- A file that was opened shows as the member its names make. -/
theorem shows_opened (shown : Shown disk globalSyms st loaded table) {file : AbiFile} (plain : PlainFile file) {name : Bytes}
    {alloc : Allocation} (fresh : Fresh st file.bytes alloc) :
    Shows (alloc.handle, openedRecord st loaded name file.bytes alloc)
      (NameLinker.link (globalNames globalSyms) table name (elfInterface file.elf)) where
  name := rfl
  uses := rfl
  exports := plain.search_exports (Fresh.blockGiven fresh) _
  entries := fun e member => exportNames file _ _ member
  held := by
    intro symbol
    simp only [NameLinker.link, List.mem_filter, shown.offered, bne_iff_ne]
    exact plain.search_imports (resolve st loaded) alloc.block symbol

/-- `uso_open` is the linker's load. -/
theorem load_served (plain : ∀ name file, disk name = some file → PlainFile file) (shown : Shown disk globalSyms st loaded table)
    {name : Bytes} {alloc : Allocation} {handle : U32} (fresh : ∀ file, disk name = some file → Fresh st file.bytes alloc)
    (returned : usoOpen st name ((disk name).map AbiFile.bytes) alloc = .ok (st', handle)) :
    (handle != 0) = (NameLinker.load (globalNames globalSyms) table name (faces disk name)).2 ∧
      ∃ loaded', ListedState st' loaded' ∧ st'.globalSyms = st.globalSyms ∧
        List.Forall₂ Shows loaded' (NameLinker.load (globalNames globalSyms) table name (faces disk name)).1 := by
  have freshHandle := freshHandle_read fresh
  obtain ⟨loaded', result, listed'⟩ := usoOpen_result shown.listed freshHandle returned
  have globals := result.globals
  have unlinked : NotLoaded loaded name → ¬ NameLinker.isLinked table name = true := fun notLoaded linked =>
    (shown.isLinked name).mp linked ((usoGetHandle_eq_zero shown.listed.represents).mpr notLoaded)
  have missed : ∀ {file : AbiFile}, importsResolved st loaded file.bytes =
      (elfInterface file.elf).imports.all fun i => i.2 || NameLinker.offered (globalNames globalSyms) table i.1 := by
    intro file
    simp only [importsResolved_eq, shown.offered]
  unfold NameLinker.load faces
  cases result with
  | reopened h member named same =>
    have nonnull : h.1 ≠ 0 := shown.listed.represents.nonnull member
    have linked := (shown.isLinked name).mpr (same ▸ nonnull)
    rw [if_pos linked]
    refine ⟨bne_iff_ne.mpr nonnull, _, listed', globals, ?_⟩
    rw [← named]
    exact shown.setUses member (· + 1)
  | missing notLoaded none =>
    rw [if_neg (unlinked notLoaded), Option.map_eq_none_iff.mp none]
    exact ⟨rfl, _, listed', globals, shown.members⟩
  | unresolved bytes notLoaded found unresolved =>
    obtain ⟨file, onDisk, rfl⟩ := Option.map_eq_some_iff.mp found
    rw [missed] at unresolved
    rw [if_neg (unlinked notLoaded), onDisk]
    simp only [Option.map_some, unresolved, Bool.false_eq_true, if_false]
    exact ⟨rfl, _, listed', trivial, shown.members⟩
  | opened bytes linked next notLoaded found resolved links added =>
    obtain ⟨file, onDisk, rfl⟩ := Option.map_eq_some_iff.mp found
    rw [missed] at resolved
    rw [if_neg (unlinked notLoaded), onDisk]
    simp only [Option.map_some, resolved, if_true]
    refine ⟨bne_iff_ne.mpr (fresh file onDisk).handle_nonnull, _, listed', globals, ?_⟩
    refine List.rel_append shown.members (List.Forall₂.cons ?_ .nil)
    exact shows_opened shown (plain name file onDisk) (fresh file onDisk)

theorem fewer_eq (count : U32) : NameLinker.fewer count = closedCount count := rfl

/-- `uso_close` is the linker's drop. -/
theorem drop_served (shown : Shown disk globalSyms st loaded table) {name : Bytes} (found : usoGetHandle loaded name ≠ 0)
    (returned : usoClose st (usoGetHandle loaded name) = .ok st') :
    ∃ loaded', ListedState st' loaded' ∧ st'.globalSyms = st.globalSyms ∧
      List.Forall₂ Shows loaded' (NameLinker.drop table name) := by
  obtain ⟨h, member, same, rfl, m, here, there, shows⟩ := shown.ofHandle found
  rw [← same] at returned
  obtain ⟨loaded', result, listed'⟩ := usoClose_result shown.listed returned
  have globals := result.globals
  refine ⟨loaded', listed', globals, ?_⟩
  unfold NameLinker.drop
  simp only [here, shows.uses, fewer_eq]
  cases result with
  | kept r closeable inList tested stays =>
    obtain rfl : r = h.2 := congrArg Prod.snd (shown.listed.represents.unique inList member rfl)
    rw [shown.needed member shows tested, Bool.not_not, stays]
    exact shown.setUses member closedCount
  | unloaded r next inList tested count gone =>
    obtain rfl : r = h.2 := congrArg Prod.snd (shown.listed.represents.unique inList member rfl)
    rw [shown.needed member shows tested, count]
    exact shown.removed member

/-- `uso_sym` finds a name in the file it is asked about exactly if that file exports it. -/
theorem find_served (shown : Shown disk globalSyms st loaded table) {name symbol : Bytes} {ptr : U32}
    (found : usoGetHandle loaded name ≠ 0) (one : usoGetHandle loaded name ≠ USO_HANDLE_ANY)
    (returned : usoSym st (usoGetHandle loaded name) symbol = .ok ptr) :
    (ptr != 0) = (NameLinker.respond (faces disk) (globalNames globalSyms) table (.find name symbol)).2 := by
  obtain ⟨h, member, same, rfl, m, -, there, shows⟩ := shown.ofHandle found
  rw [← same] at returned one
  rw [usoSym_handle shown.listed.represents member one symbol, Except.ok.injEq] at returned
  rw [← returned, Bool.eq_iff_iff, bne_iff_ne, shows.exports]
  simp only [NameLinker.respond, List.any_eq_true, Bool.and_eq_true, decide_eq_true_eq]
  constructor
  · exact fun listed => ⟨m, there, shows.name, listed⟩
  · rintro ⟨o, other, named, listed⟩
    obtain rfl := shown.sound.unique other there (named.trans shows.name.symm)
    exact listed

theorem findAny_served (shown : Shown disk globalSyms st loaded table) {symbol : Bytes} {ptr : U32}
    (returned : usoSym st USO_HANDLE_ANY symbol = .ok ptr) : (ptr != 0) = NameLinker.exported table symbol := by
  unfold usoSym at returned
  simp only [usoList_eq shown.listed.represents, if_true, searchLoadedSymbols, Bool.false_eq_true, if_false,
    Except.ok.injEq] at returned
  rw [← returned, Bool.eq_iff_iff, bne_iff_ne, shown.exported]
  split
  next some => exact Iff.rfl
  next none => exact ⟨fun some => absurd rfl some, fun some => absurd some none⟩

/-- Every call by name is answered as the linker of names answers it, and leaves what that leaves. -/
theorem performs_served (plain : ∀ name file, disk name = some file → PlainFile file)
    (shown : Shown disk globalSyms st loaded table) {call : NameLinker.Request Bytes × Bool} (performs : Performs disk st call st') :
    call.2 = (NameLinker.respond (faces disk) (globalNames globalSyms) table call.1).2 ∧
      ∃ loaded', Shown disk globalSyms st' loaded' (NameLinker.respond (faces disk) (globalNames globalSyms) table call.1).1 := by
  have sound := shown.sound.respond call.1
  cases performs with
  | load fresh returned =>
    obtain ⟨answer, loaded', listed', kept, members⟩ := load_served plain shown fresh returned
    exact ⟨answer, loaded', listed', kept.trans shown.globals, members, sound⟩
  | drop follows found returned =>
    obtain rfl := shown.listed.represents.seen follows
    obtain ⟨loaded', listed', kept, members⟩ := drop_served shown found returned
    exact ⟨rfl, loaded', listed', kept.trans shown.globals, members, sound⟩
  | find follows found one returned =>
    obtain rfl := shown.listed.represents.seen follows
    exact ⟨find_served shown found one returned, _, shown⟩
  | findAny returned => exact ⟨findAny_served shown returned, loaded, shown⟩
  | loaded follows =>
    obtain rfl := shown.listed.represents.seen follows
    refine ⟨?_, _, shown⟩
    rw [Bool.eq_iff_iff, bne_iff_ne]
    exact (shown.isLinked _).symm

/-- The simulation, from any state that shows a table. -/
theorem runs_served (plain : ∀ name file, disk name = some file → PlainFile file) {calls : List (NameLinker.Request Bytes × Bool)}
    (run : Run (Performs disk) st calls st') (shown : Shown disk globalSyms st loaded table) :
    calls.map Prod.snd = (NameLinker.serve (faces disk) (globalNames globalSyms) (calls.map Prod.fst) table).1 ∧
      ∃ loaded', Shown disk globalSyms st' loaded'
        (NameLinker.serve (faces disk) (globalNames globalSyms) (calls.map Prod.fst) table).2 := by
  induction run generalizing loaded table with
  | done => exact ⟨rfl, loaded, shown⟩
  | @next _ _ _ call rest performs _ ih =>
    obtain ⟨answer, loaded', shown'⟩ := performs_served plain shown performs
    obtain ⟨answers, last⟩ := ih shown'
    refine ⟨?_, last⟩
    simp only [List.map_cons, NameLinker.serve, ← answers, ← answer]

end

theorem initialState_shown (disk : Bytes → Option AbiFile) (memory : Memory) (globalSymFile : Bytes) :
    Shown disk (some (readGlobalSyms globalSymFile)) (initialState memory globalSymFile) [] [] where
  listed := initialState_listed memory globalSymFile
  globals := rfl
  members := .nil
  sound := .empty

/-- Whatever memory holds and whatever addresses are handed out, every answer of a run is the answer of the
linker that knows only names, and the list of loaded USOs always shows that linker's table. -/
theorem run_served {disk : Bytes → Option AbiFile} (plain : ∀ name file, disk name = some file → PlainFile file)
    {memory : Memory} {globalSymFile : Bytes} {calls : List (NameLinker.Request Bytes × Bool)} {st : LoaderState}
    (run : Run (Performs disk) (initialState memory globalSymFile) calls st) :
    let served := NameLinker.serve (faces disk) (globalNames (some (readGlobalSyms globalSymFile))) (calls.map Prod.fst) []
    calls.map Prod.snd = served.1 ∧ ∃ loaded, usoList st = .ok loaded ∧ List.Forall₂ Shows loaded served.2 := by
  obtain ⟨answers, loaded, shown⟩ := runs_served plain run (initialState_shown disk memory globalSymFile)
  exact ⟨answers, loaded, usoList_eq shown.listed.represents, shown.members⟩

/-! The library that exports `f`, and the sample that takes its address, by their names. -/

def sampleNames (name : Bytes) : Option AbiFile :=
  if name = [108] then some libraryAbi else if name = [97] then some addressAbi else none

theorem sampleNames_disk {name : Bytes} {file : AbiFile} (found : sampleNames name = some file) : sampleDisk name file := by
  unfold sampleNames at found
  split at found
  next library => exact .inl (by rw [library, Option.some.inj found])
  next =>
    split at found
    next address => exact .inr (by rw [address, Option.some.inj found])
    next => cases found

theorem sampleNames_plain (name : Bytes) (file : AbiFile) (found : sampleNames name = some file) : PlainFile file := by
  have onDisk := sampleNames_disk found
  refine ⟨sampleDisk_distinct onDisk, sampleDisk_unpadded onDisk, ?_⟩
  have every : ∀ symbol ∈ file.elf.symbols, ∀ s ∈ file.elf.sections, isAllocated s = true →
      0 < s.size.toNat ∧ symbol.value.toNat ≤ s.size.toNat := by
    rcases onDisk with library | address
    · obtain ⟨rfl, rfl⟩ := Prod.mk.inj library
      decide
    · obtain ⟨rfl, rfl⟩ := Prod.mk.inj address
      decide
  intro symbol member _ s kept
  exact every symbol member s (List.mem_of_getElem? kept.at_index) kept.allocated

theorem performs_library : Performs sampleNames (initialState (fun _ => 0) []) (.load [108], true) libraryOpen := by
  refine @Performs.load sampleNames _ _ [108] libraryAlloc 0x80100000 (fun file found => ?_) usoOpen_library
  rw [← Option.some.inj found]
  exact libraryAlloc_fresh

theorem performs_address : Performs sampleNames libraryOpen (.load [97], true) addressOpen := by
  refine @Performs.load sampleNames _ _ [97] programAlloc 0x80110000 (fun file found => ?_) usoOpen_address
  rw [← Option.some.inj found]
  exact programAlloc_freshAddress

theorem run_served_address :
    let served := NameLinker.serve (faces sampleNames) (globalNames (some (readGlobalSyms []))) [.load [108], .load [97]] []
    [true, true] = served.1 ∧ ∃ loaded, usoList addressOpen = .ok loaded ∧ List.Forall₂ Shows loaded served.2 :=
  run_served sampleNames_plain (.next performs_library (.next performs_address (.done _)))

/-- Two loaded USOs that a program cannot tell apart by asking for names. -/
structure Alike (g h : U32 × UsoRecord) : Prop where
  name : g.2.name = h.2.name
  refCount : g.2.refCount = h.2.refCount
  exports : ∀ name, searchSymbolTable g.2.uso.exportSyms name ≠ 0 ↔ searchSymbolTable h.2.uso.exportSyms name ≠ 0
  imports : ∀ name, searchSymbolTable g.2.uso.importSyms name ≠ 0 ↔ searchSymbolTable h.2.uso.importSyms name ≠ 0

theorem Shows.alike {g h : U32 × UsoRecord} {m : NameLinker.Member Bytes} (first : Shows g m) (second : Shows h m) :
    Alike g h where
  name := first.name.symm.trans second.name
  refCount := first.uses.symm.trans second.uses
  exports := fun name => (first.exports name).trans (second.exports name).symm
  imports := fun name => (first.held name).trans (second.held name).symm

theorem alike_of_shows {loaded loaded' : Registry} {table : List (NameLinker.Member Bytes)}
    (members : List.Forall₂ Shows loaded table) (members' : List.Forall₂ Shows loaded' table) :
    List.Forall₂ Alike loaded loaded' := by
  induction members generalizing loaded' with
  | nil =>
    cases members'
    exact .nil
  | cons first _ ih =>
    cases members' with
    | cons second rest => exact .cons (first.alike second) (ih rest)

/-- Two programs with the same loads that succeeded and the same closes end with lists that are alike, whatever
they looked up, whatever loads failed in between, and wherever their files went. -/
theorem runs_agree {disk : Bytes → Option AbiFile} (plain : ∀ name file, disk name = some file → PlainFile file)
    {globalSymFile : Bytes} {memory memory' : Memory} {calls calls' : List (NameLinker.Request Bytes × Bool)}
    {st st' : LoaderState} (run : Run (Performs disk) (initialState memory globalSymFile) calls st)
    (run' : Run (Performs disk) (initialState memory' globalSymFile) calls' st')
    (same : NameLinker.changes calls = NameLinker.changes calls') :
    ∃ loaded loaded', usoList st = .ok loaded ∧ usoList st' = .ok loaded' ∧ List.Forall₂ Alike loaded loaded' := by
  obtain ⟨answers, loaded, shown⟩ := runs_served plain run (initialState_shown disk memory globalSymFile)
  obtain ⟨answers', loaded', shown'⟩ := runs_served plain run' (initialState_shown disk memory' globalSymFile)
  rw [← NameLinker.serve_changes answers] at shown
  rw [← NameLinker.serve_changes answers', ← same] at shown'
  exact ⟨loaded, loaded', usoList_eq shown.listed.represents, usoList_eq shown'.listed.represents,
    alike_of_shows shown.members shown'.members⟩

/-- A load of a file that is not there. -/
theorem performs_absent {disk : Bytes → Option AbiFile} {st : LoaderState} {loaded : Registry} (sound : SoundState st loaded)
    {name : Bytes} (notLoaded : NotLoaded loaded name) (absent : disk name = none) : Performs disk st (.load name, false) st := by
  refine @Performs.load disk _ _ name libraryAlloc 0 (fun file found => ?_) ?_
  · rw [absent] at found
    cases found
  · rw [absent]
    exact usoOpen_notLoaded sound notLoaded none libraryAlloc

theorem performs_missing : Performs sampleNames libraryOpen (.load [120], false) libraryOpen := by
  obtain ⟨loaded, sound⟩ := run_sound (by unfold SortedTable; decide) (.next step_library (.done _))
  obtain rfl := sound.represents.seen (usoList_loadedAt (by decide +kernel))
  have notLoaded : NotLoaded (loadedAt libraryOpen) [120] := by
    unfold NotLoaded
    decide +kernel
  exact performs_absent sound notLoaded rfl

theorem runs_agree_address : ∃ loaded loaded', usoList addressOpen = .ok loaded ∧ usoList addressOpen = .ok loaded' ∧
    List.Forall₂ Alike loaded loaded' :=
  runs_agree sampleNames_plain (.next performs_library (.next performs_address (.done _)))
    (.next performs_library (.next performs_missing (.next performs_address (.done _)))) rfl

end DragonUso.NameRefinement
