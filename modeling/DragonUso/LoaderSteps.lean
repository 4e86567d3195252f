import DragonUso.Library.Runs
import DragonUso.HandleList

/-! What one call of `uso_open` or `uso_close` can do, as a change of the list of loaded USOs, and
the runs such calls make up after one `uso_init`. -/

namespace DragonUso.LoaderSteps
open ByteOrder WordMemory Format LoaderImage Relocation SymbolSearch Loader HandleList Runs

/-! ### Fixups of symbol tables -/

theorem sortedTable_map {table : List UsoSymbol} {change : UsoSymbol → UsoSymbol}
    (named : ∀ s, (change s).name = s.name) : SortedTable (table.map change) ↔ SortedTable table := by
  unfold SortedTable
  rw [List.pairwise_map]
  simp only [named]

/-- The section an export is relative to; section 0 is at NULL. -/
def exportBase (sections : List LoadedSection) (s : UsoSymbol) : U32 :=
  match sections[s.sectionIndex.toNat]? with
  | some target => target.data
  | none => 0

theorem fixupExportSyms_ok {sections : List LoadedSection} {table : List UsoSymbol}
    (inside : ∀ s ∈ table, s.sectionIndex.toNat < sections.length) :
    fixupExportSyms sections table =
      .ok (table.map fun s => { s with ptr := ptrFixup s.ptr (exportBase sections s) }) := by
  induction table with
  | nil => rfl
  | cons s rest ih =>
    have found := List.getElem?_eq_getElem (inside s List.mem_cons_self)
    rw [fixupExportSyms, ih fun t member => inside t (List.mem_cons_of_mem _ member)]
    simp only [sectionAt, found, List.map_cons, exportBase]

/-- A fixup that returned found the section of every export. -/
theorem fixupExportSyms_returned {sections : List LoadedSection} {table fixed : List UsoSymbol}
    (returned : fixupExportSyms sections table = .ok fixed) :
    fixed = table.map fun s => { s with ptr := ptrFixup s.ptr (exportBase sections s) } := by
  induction table generalizing fixed with
  | nil => exact (Except.ok.inj returned).symm
  | cons s rest ih =>
    rw [fixupExportSyms, sectionAt] at returned
    cases found : sections[s.sectionIndex.toNat]? with
    | none => simp [found] at returned
    | some target =>
      simp only [found] at returned
      cases later : fixupExportSyms sections rest with
      | error fault => simp [later] at returned
      | ok others =>
        simp only [later, Except.ok.injEq] at returned
        rw [← returned, ih later, List.map_cons, exportBase, found]

theorem fixupImportLoop_eq (search : Bytes → U32) (table : List UsoSymbol) (result : Bool) :
    fixupImportLoop search table result =
      (table.map fun s => { s with ptr := search s.name },
        result && table.all fun s => usoIsSymbolWeak s || search s.name != 0) := by
  induction table generalizing result with
  | nil => simp [fixupImportLoop]
  | cons s rest ih =>
    rw [fixupImportLoop, ih]
    simp only [List.map_cons, List.all_cons]
    cases usoIsSymbolWeak s <;> cases result <;> cases null : search s.name == 0 <;> simp only [null, bne] <;> rfl

/-- Every import gets the pointer its name resolves to, and a strong NULL is a failure. -/
theorem fixupImports_eq (image : Bytes) (search : Bytes → U32) :
    fixupImports image search =
      ((readSymbolTable image (readHeader image).importSyms).map fun table =>
          table.map fun s => { s with ptr := search s.name },
        (entries (readSymbolTable image (readHeader image).importSyms)).all fun s =>
          usoIsSymbolWeak s || search s.name != 0) := by
  unfold fixupImports
  cases readSymbolTable image (readHeader image).importSyms with
  | none => rfl
  | some table =>
    simp only [fixupImportSyms, fixupImportLoop_eq, Bool.true_and]
    rfl

/-! ### Files -/

/-- What the loader relies on in a file it opens: a load info that makes room for the image, and
section numbers in range. -/
structure LoadableFile (file : Bytes) : Prop where
  room : (usoImage file).length ≤ (getUsoRamSize (readLoadInfo file)).toNat
  exportSections : ∀ s ∈ entries (readSymbolTable (usoImage file) (readHeader (usoImage file)).exportSyms),
    s.sectionIndex.toNat < (readHeader (usoImage file)).numSections.toNat
  ehFrame : (readHeader (usoImage file)).ehFrameSection.toNat < (readHeader (usoImage file)).numSections.toNat
  ctors : (readHeader (usoImage file)).ctorsSection.toNat < (readHeader (usoImage file)).numSections.toNat
  dtors : (readHeader (usoImage file)).dtorsSection.toNat < (readHeader (usoImage file)).numSections.toNat

/-- Later searches rely on sorted symbol tables as well. -/
structure SoundFile (file : Bytes) : Prop extends LoadableFile file where
  imports : SortedTable (entries (readSymbolTable (usoImage file) (readHeader (usoImage file)).importSyms))
  exports : SortedTable (entries (readSymbolTable (usoImage file) (readHeader (usoImage file)).exportSyms))

@[simp] theorem loadedSections_length (image : Bytes) (base noload : U32) :
    (loadedSections image base noload).length = (readHeader image).numSections.toNat := by
  simp [loadedSections, fixedSections, storedSections]

/-- The export table of a file as the fixups leave it. -/
def fixedExports (image : Bytes) (base noload : U32) : Option (List UsoSymbol) :=
  (readSymbolTable image (readHeader image).exportSyms).map fun table =>
    table.map fun s => { s with ptr := ptrFixup s.ptr (exportBase (loadedSections image base noload) s) }

/-- The USO `fixup_uso` leaves in the block, given the pointers its imports resolve to. -/
def fixedUso (image : Bytes) (search : Bytes → U32) (base noload : U32) : LoadedUso where
  sections := loadedSections image base noload
  importSyms := (fixupImports image search).1
  exportSyms := fixedExports image base noload
  ehFrameSection := (readHeader image).ehFrameSection
  ctorsSection := (readHeader image).ctorsSection
  dtorsSection := (readHeader image).dtorsSection

theorem LoadableFile.fixupExports {file : Bytes} (loadable : LoadableFile file) (base noload : U32) :
    fixupExports (usoImage file) (loadedSections (usoImage file) base noload) =
      .ok (fixedExports (usoImage file) base noload) := by
  have inside := loadable.exportSections
  unfold Loader.fixupExports fixedExports
  cases found : readSymbolTable (usoImage file) (readHeader (usoImage file)).exportSyms with
  | none => rfl
  | some table =>
    rw [found] at inside
    have fixed : Loader.fixupExportSyms (loadedSections (usoImage file) base noload) table = _ :=
      fixupExportSyms_ok fun s member => by rw [loadedSections_length]; exact inside s member
    simp only [fixed]
    rfl

/-- The fixups fail for an unresolved strong import and for nothing else; the rest is up to linking. -/
theorem LoadableFile.fixupUso {file : Bytes} (loadable : LoadableFile file) (search : Bytes → U32) (base noload : U32)
    (memory : Memory) :
    fixupUso (usoImage file) search base noload memory =
      if (fixupImports (usoImage file) search).2 then
        match linkUso (fixedUso (usoImage file) search base noload) memory with
        | .error fault => .error fault
        | .ok linked => .ok (some (fixedUso (usoImage file) search base noload, linked))
      else .ok none := by
  unfold Loader.fixupUso
  simp only [loadable.fixupExports]
  rfl

theorem fixupExports_returned {image : Bytes} {base noload : U32} {table : Option (List UsoSymbol)}
    (returned : fixupExports image (loadedSections image base noload) = .ok table) :
    table = fixedExports image base noload := by
  unfold fixupExports at returned
  unfold fixedExports
  cases found : readSymbolTable image (readHeader image).exportSyms with
  | none =>
    simp only [found, Except.ok.injEq] at returned
    exact returned.symm
  | some stored =>
    simp only [found] at returned
    cases exports : fixupExportSyms (loadedSections image base noload) stored with
    | error fault => simp [exports] at returned
    | ok fixed =>
      simp only [exports, Except.ok.injEq] at returned
      rw [← returned, fixupExportSyms_returned exports]
      rfl

/-- Fixups that returned, on a file of any content: an unresolved import, or the USO and its linked memory. -/
theorem fixupUso_returned {image : Bytes} {search : Bytes → U32} {base noload : U32} {memory : Memory}
    {result : Option (LoadedUso × Memory)} (returned : fixupUso image search base noload memory = .ok result) :
    ((fixupImports image search).2 = false ∧ result = none) ∨
      ((fixupImports image search).2 = true ∧ ∃ linked,
        linkUso (fixedUso image search base noload) memory = .ok linked ∧
          result = some (fixedUso image search base noload, linked)) := by
  unfold fixupUso at returned
  cases exports : fixupExports image (loadedSections image base noload) with
  | error fault => simp [exports] at returned
  | ok table =>
    have uso := fixupExports_returned exports
    simp only [exports, uso] at returned
    cases resolved : (fixupImports image search).2 with
    | false =>
      simp only [resolved, Bool.false_eq_true, ↓reduceIte, Except.ok.injEq] at returned
      exact .inl ⟨rfl, returned.symm⟩
    | true =>
      right
      simp only [resolved, ↓reduceIte] at returned
      rw [← fixedUso] at returned
      cases links : linkUso (fixedUso image search base noload) memory with
      | error fault => simp [links] at returned
      | ok linked =>
        simp only [links, Except.ok.injEq] at returned
        exact ⟨rfl, linked, rfl, returned.symm⟩

/-! ### Records -/

/-- What `start_uso` and `end_uso` rely on. -/
structure StartableRecord (r : UsoRecord) : Prop where
  ehFrame : r.uso.ehFrameSection.toNat < r.uso.sections.length
  ctors : r.uso.ctorsSection.toNat < r.uso.sections.length
  dtors : r.uso.dtorsSection.toNat < r.uso.sections.length

/-- What the loader relies on in a loaded USO. -/
structure SoundRecord (r : UsoRecord) : Prop extends StartableRecord r where
  imports : SortedTable (entries r.uso.importSyms)
  exports : SortedTable (entries r.uso.exportSyms)

theorem entries_map (table : Option (List UsoSymbol)) (change : UsoSymbol → UsoSymbol) :
    entries (table.map fun symbols => symbols.map change) = (entries table).map change := by
  cases table <;> rfl

theorem entries_fixupImports (image : Bytes) (search : Bytes → U32) :
    entries (fixupImports image search).1 =
      (entries (readSymbolTable image (readHeader image).importSyms)).map fun s => { s with ptr := search s.name } := by
  rw [fixupImports_eq]
  exact entries_map _ _

theorem LoadableFile.record {file : Bytes} (loadable : LoadableFile file) (search : Bytes → U32)
    (base noload ramSize count : U32) (name : Bytes) :
    StartableRecord
      { uso := fixedUso (usoImage file) search base noload
        block := base, ramSize := ramSize, refCount := count, name := name } where
  ehFrame := by simpa [fixedUso] using loadable.ehFrame
  ctors := by simpa [fixedUso] using loadable.ctors
  dtors := by simpa [fixedUso] using loadable.dtors

theorem SoundFile.record {file : Bytes} (sound : SoundFile file) (search : Bytes → U32) (base noload ramSize count : U32)
    (name : Bytes) :
    SoundRecord
      { uso := fixedUso (usoImage file) search base noload
        block := base, ramSize := ramSize, refCount := count, name := name } where
  toStartableRecord := sound.toLoadableFile.record _ _ _ _ _ _
  imports := by
    simp only [fixedUso, entries_fixupImports]
    refine (sortedTable_map ?_).mpr sound.imports
    exact fun _ => rfl
  exports := by
    simp only [fixedUso, fixedExports, entries_map]
    refine (sortedTable_map ?_).mpr sound.exports
    exact fun _ => rfl

theorem sectionAt_ok {sections : List LoadedSection} {index : U16} (inside : index.toNat < sections.length) :
    sectionAt sections index = .ok sections[index.toNat] := by
  unfold sectionAt
  rw [List.getElem?_eq_getElem inside]

theorem StartableRecord.startUso {r : UsoRecord} (startable : StartableRecord r) (memory : Memory) (handle : U32) :
    ∃ events, startUso memory handle r.uso = .ok events := by
  unfold Loader.startUso
  simp only [sectionAt_ok startable.ehFrame, sectionAt_ok startable.ctors]
  exact ⟨_, rfl⟩

theorem StartableRecord.endUso {r : UsoRecord} (startable : StartableRecord r) (memory : Memory) (handle : U32) :
    ∃ events, endUso memory handle r.uso = .ok events := by
  unfold Loader.endUso
  simp only [sectionAt_ok startable.ehFrame, sectionAt_ok startable.dtors]
  exact ⟨_, rfl⟩

/-! ### States -/

/-- The links represent `loaded`, and every table a search looks at is sorted. -/
structure SoundState (st : LoaderState) (loaded : Registry) : Prop where
  represents : Represents st loaded
  initted : st.initted = true
  globals : SortedTable (entries st.globalSyms)
  records : ∀ h ∈ loaded, SoundRecord h.2

/-- What is known of a state whatever the files contained. -/
structure ListedState (st : LoaderState) (loaded : Registry) : Prop where
  represents : Represents st loaded
  initted : st.initted = true

theorem SoundState.listed {st : LoaderState} {loaded : Registry} (sound : SoundState st loaded) : ListedState st loaded :=
  ⟨sound.represents, sound.initted⟩

/-- `malloc` gives a new handle an address of its own. -/
structure FreshHandle (st : LoaderState) (handle : U32) : Prop where
  nonnull : handle ≠ 0
  fresh : handle ∉ st.heap

/-- What `malloc` and `memalign` promise: live memory is not handed out again. -/
structure Fresh (st : LoaderState) (file : Bytes) (alloc : Allocation) : Prop where
  handle_nonnull : alloc.handle ≠ 0
  handle_fresh : alloc.handle ∉ st.heap
  block_nonnull : alloc.block ≠ 0
  block_aligned : (getUsoRamAlign (readLoadInfo file)).toNat ∣ alloc.block.toNat
  block_ends : alloc.block.toNat + (getUsoRamSize (readLoadInfo file)).toNat < 2 ^ 32
  block_apart : ∀ entry ∈ st.heap.entries,
    entry.2.contents.block.toNat + entry.2.contents.ramSize.toNat ≤ alloc.block.toNat ∨
      alloc.block.toNat + (getUsoRamSize (readLoadInfo file)).toNat ≤ entry.2.contents.block.toNat

theorem Fresh.freshHandle {st : LoaderState} {file : Bytes} {alloc : Allocation} (fresh : Fresh st file alloc) :
    FreshHandle st alloc.handle := ⟨fresh.handle_nonnull, fresh.handle_fresh⟩

/-- The pointer an import of that name is bound to. -/
def resolve (st : LoaderState) (loaded : Registry) (name : Bytes) : U32 :=
  searchLoadedSymbols loaded st.globalSyms name true

def NotLoaded (loaded : Registry) (filename : Bytes) : Prop := ∀ h ∈ loaded, h.2.name ≠ filename

theorem usoGetHandle_found {loaded : Registry} {filename : Bytes} (some : usoGetHandle loaded filename ≠ 0) :
    ∃ h ∈ loaded, h.2.name = filename ∧ h.1 = usoGetHandle loaded filename := by
  unfold usoGetHandle at some ⊢
  cases found : loaded.find? fun h => strcmp h.2.name filename == .eq with
  | none => simp [found] at some
  | some h =>
    have equal := List.find?_some found
    rw [beq_iff_eq, strcmp_eq_iff] at equal
    exact ⟨h, List.mem_of_find?_eq_some found, equal, rfl⟩

theorem usoGetHandle_eq_zero {st : LoaderState} {loaded : Registry} (represents : Represents st loaded)
    {filename : Bytes} : usoGetHandle loaded filename = 0 ↔ NotLoaded loaded filename := by
  constructor
  · intro none h member same
    unfold usoGetHandle at none
    cases found : loaded.find? fun h => strcmp h.2.name filename == .eq with
    | none =>
      have other := List.find?_eq_none.mp found h member
      simp [same, strcmp_self] at other
    | some g =>
      rw [found] at none
      exact represents.nonnull (List.mem_of_find?_eq_some found) none
  · intro notLoaded
    apply Decidable.byContradiction
    intro some
    obtain ⟨h, member, same, -⟩ := usoGetHandle_found some
    exact notLoaded h member same

theorem lookup_contents {st : LoaderState} {loaded : Registry} (represents : Represents st loaded)
    {h : U32 × UsoRecord} (member : h ∈ loaded) : ∃ d, st.heap.lookup h.1 = some d ∧ d.contents = h.2 :=
  Option.map_eq_some_iff.mp (represents.stored h member)

/-- The USO a file becomes in the block it is given. -/
def openedUso (st : LoaderState) (loaded : Registry) (file : Bytes) (alloc : Allocation) : LoadedUso :=
  fixedUso (usoImage file) (resolve st loaded) alloc.block (getUsoNoloadStart (readLoadInfo file) alloc.block)

def openedRecord (st : LoaderState) (loaded : Registry) (filename file : Bytes) (alloc : Allocation) : UsoRecord where
  uso := openedUso st loaded file alloc
  block := alloc.block
  ramSize := getUsoRamSize (readLoadInfo file)
  refCount := 1
  name := filename

/-- Memory with the image in its block and nothing linked yet. -/
def blockMemory (st : LoaderState) (file : Bytes) (alloc : Allocation) : Memory :=
  loadBlock st.memory alloc.block (getUsoRamSize (readLoadInfo file)) (usoImage file)

/-- Whether every strong import of a file is found. -/
def importsResolved (st : LoaderState) (loaded : Registry) (file : Bytes) : Bool :=
  (fixupImports (usoImage file) (resolve st loaded)).2

theorem addUso_ok {st : LoaderState} {loaded : Registry} (represents : Represents st loaded) {handle : U32}
    (fresh : handle ∉ st.heap) (nonnull : handle ≠ 0) {contents : UsoRecord}
    (startable : StartableRecord contents) :
    ∃ next events, addUso st handle contents = .ok next ∧ Represents next (loaded ++ [(handle, contents)]) ∧
      next.initted = st.initted ∧ next.globalSyms = st.globalSyms ∧ next.memory = st.memory ∧
      next.events = st.events ++ events := by
  obtain ⟨events, started⟩ := startable.startUso st.memory handle
  have inserted := represents.insertUso fresh nonnull { next := 0, prev := 0, contents := contents }
  refine ⟨{ Loader.insertUso { st with
      heap := st.heap.insert handle { next := 0, prev := 0, contents := contents } } handle with
    events := st.events ++ events }, events, ?_, inserted.congr rfl rfl rfl, rfl, rfl, rfl, rfl⟩
  unfold addUso
  simp only [show ∀ other : LoaderState, (Loader.insertUso other handle).memory = other.memory from fun _ => rfl,
    started]
  rfl

/-- A handle that was added is at the end of the list, and the events of its start are recorded. -/
theorem addUso_returned {st next : LoaderState} {loaded : Registry} (listed : ListedState st loaded) {handle : U32}
    (fresh : FreshHandle st handle) {contents : UsoRecord} (added : addUso st handle contents = .ok next) :
    ListedState next (loaded ++ [(handle, contents)]) ∧ next.globalSyms = st.globalSyms ∧ next.memory = st.memory ∧
      ∃ events, startUso st.memory handle contents.uso = .ok events ∧ next.events = st.events ++ events := by
  have inserted := listed.represents.insertUso fresh.fresh fresh.nonnull { next := 0, prev := 0, contents := contents }
  unfold addUso at added
  simp only [show ∀ other : LoaderState, (Loader.insertUso other handle).memory = other.memory from fun _ => rfl]
    at added
  cases started : startUso st.memory handle contents.uso with
  | error fault => simp [started] at added
  | ok events =>
    simp only [started, Except.ok.injEq] at added
    subst next
    exact ⟨⟨inserted.congr rfl rfl rfl, listed.initted⟩, rfl, rfl, events, rfl, rfl⟩

/-- What `uso_open` does with a file that is not loaded yet. -/
theorem loadUso_eq {st : LoaderState} {loaded : Registry} {filename file : Bytes} {alloc : Allocation}
    (loadable : LoadableFile file) (fresh : Fresh st file alloc) :
    loadUso st loaded filename file alloc =
      if importsResolved st loaded file then
        match linkUso (openedUso st loaded file alloc) (blockMemory st file alloc) with
        | .error fault => .error fault
        | .ok linked =>
          match addUso { st with memory := linked } alloc.handle (openedRecord st loaded filename file alloc) with
          | .error fault => .error fault
          | .ok next => .ok (next, alloc.handle)
      else .ok ({ st with memory := blockMemory st file alloc }, 0) := by
  have allocated : ¬ (alloc.handle = 0 ∨ alloc.block = 0) := by
    rintro (none | none)
    · exact fresh.handle_nonnull none
    · exact fresh.block_nonnull none
  have search : (fun name => searchLoadedSymbols loaded st.globalSyms name true) = resolve st loaded := rfl
  have resolved : (fixupImports (usoImage file) (resolve st loaded)).2 = importsResolved st loaded file := rfl
  have opened : fixedUso (usoImage file) (resolve st loaded) alloc.block
      (getUsoNoloadStart (readLoadInfo file) alloc.block) = openedUso st loaded file alloc := rfl
  have memory : loadBlock st.memory alloc.block (getUsoRamSize (readLoadInfo file)) (usoImage file) =
      blockMemory st file alloc := rfl
  simp only [loadUso, if_neg allocated, search, loadable.fixupUso, resolved, opened, memory]
  cases importsResolved st loaded file with
  | false => rfl
  | true =>
    cases linkUso (openedUso st loaded file alloc) (blockMemory st file alloc) with
    | error fault => rfl
    | ok linked => rfl

theorem mem_withRefCount {loaded : Registry} {handle count : U32} {g : U32 × UsoRecord} :
    g ∈ withRefCount loaded handle count ↔ ∃ h ∈ loaded, g.1 = h.1 ∧
      g.2 = if h.1 = handle then { h.2 with refCount := count } else h.2 := by
  unfold withRefCount
  rw [List.mem_map]
  constructor
  · rintro ⟨h, member, rfl⟩
    refine ⟨h, member, ?_⟩
    split <;> exact ⟨rfl, rfl⟩
  · rintro ⟨h, member, same, contents⟩
    refine ⟨h, member, ?_⟩
    split
    next own => exact Prod.ext same.symm (by rw [contents, if_pos own])
    next other => exact Prod.ext same.symm (by rw [contents, if_neg other])

theorem mem_withRefCount_self {loaded : Registry} {handle : U32} {r : UsoRecord} (member : (handle, r) ∈ loaded)
    (count : U32) : (handle, { r with refCount := count }) ∈ withRefCount loaded handle count :=
  mem_withRefCount.mpr ⟨_, member, rfl, (if_pos rfl).symm⟩

/-- The ways a call of `uso_open` returns, with the handle it returns and the list it leaves. -/
inductive OpenResult (st : LoaderState) (loaded : Registry) (filename : Bytes) (file : Option Bytes)
    (alloc : Allocation) : LoaderState → U32 → Registry → Prop where
  | reopened (h : U32 × UsoRecord) : h ∈ loaded → h.2.name = filename → h.1 = usoGetHandle loaded filename →
    OpenResult st loaded filename file alloc { st with heap := setRefCount st.heap h.1 (h.2.refCount + 1) } h.1
      (withRefCount loaded h.1 (h.2.refCount + 1))
  | missing : NotLoaded loaded filename → file = none → OpenResult st loaded filename file alloc st 0 loaded
  | unresolved (bytes : Bytes) : NotLoaded loaded filename → file = some bytes →
    importsResolved st loaded bytes = false →
    OpenResult st loaded filename file alloc { st with memory := blockMemory st bytes alloc } 0 loaded
  | opened (bytes : Bytes) (linked : Memory) (next : LoaderState) : NotLoaded loaded filename → file = some bytes →
    importsResolved st loaded bytes = true →
    linkUso (openedUso st loaded bytes alloc) (blockMemory st bytes alloc) = .ok linked →
    addUso { st with memory := linked } alloc.handle (openedRecord st loaded filename bytes alloc) = .ok next →
    OpenResult st loaded filename file alloc next alloc.handle
      (loaded ++ [(alloc.handle, openedRecord st loaded filename bytes alloc)])

theorem ListedState.setRefCount {st : LoaderState} {loaded : Registry} (listed : ListedState st loaded)
    (handle count : U32) :
    ListedState { st with heap := Loader.setRefCount st.heap handle count } (withRefCount loaded handle count) :=
  ⟨listed.represents.setRefCount handle count, listed.initted⟩

/-- Every return of `uso_open` is one of these, whatever the file contains. -/
theorem usoOpen_result {st st' : LoaderState} {loaded : Registry} (listed : ListedState st loaded) {filename : Bytes}
    {file : Option Bytes} {alloc : Allocation} {handle : U32}
    (fresh : ∀ bytes, file = some bytes → FreshHandle st alloc.handle)
    (returned : usoOpen st filename file alloc = .ok (st', handle)) :
    ∃ loaded', OpenResult st loaded filename file alloc st' handle loaded' ∧ ListedState st' loaded' := by
  have initted : ¬ st.initted = false := by simp [listed.initted]
  unfold usoOpen at returned
  simp only [if_neg initted, usoList_eq listed.represents] at returned
  by_cases found : usoGetHandle loaded filename ≠ 0
  · obtain ⟨h, member, named, same⟩ := usoGetHandle_found found
    obtain ⟨d, stored, contents⟩ := lookup_contents listed.represents member
    simp only [if_pos found, same ▸ stored, contents, Except.ok.injEq, Prod.mk.injEq] at returned
    obtain ⟨rfl, rfl⟩ := returned
    rw [← same]
    exact ⟨_, .reopened h member named same, listed.setRefCount _ _⟩
  · have notLoaded := (usoGetHandle_eq_zero listed.represents).mp (Decidable.not_not.mp found)
    simp only [if_neg found] at returned
    cases file with
    | none =>
      simp only [Except.ok.injEq, Prod.mk.injEq] at returned
      obtain ⟨rfl, rfl⟩ := returned
      exact ⟨_, .missing notLoaded rfl, listed⟩
    | some bytes =>
      simp only [loadUso] at returned
      split at returned
      next => cases returned
      next allocated =>
        split at returned
        next => cases returned
        next fixed =>
          obtain ⟨rfl, rfl⟩ : _ ∧ _ := by simpa only [Except.ok.injEq, Prod.mk.injEq] using returned
          rcases fixupUso_returned fixed with ⟨missed, -⟩ | ⟨-, linked, -, same⟩
          · exact ⟨_, .unresolved bytes notLoaded rfl missed, listed.represents.congr rfl rfl rfl, listed.initted⟩
          · cases same
        next uso linked fixed =>
          rcases fixupUso_returned fixed with ⟨-, same⟩ | ⟨resolved, _, links, same⟩
          · cases same
          · obtain ⟨rfl, rfl⟩ : _ ∧ _ := by simpa only [Option.some.injEq, Prod.mk.injEq] using same
            split at returned
            next => cases returned
            next next added =>
              obtain ⟨rfl, rfl⟩ : _ ∧ _ := by simpa only [Except.ok.injEq, Prod.mk.injEq] using returned
              have linking : ListedState { st with memory := linked } loaded :=
                ⟨listed.represents.congr rfl rfl rfl, listed.initted⟩
              exact ⟨_, .opened bytes linked _ notLoaded rfl resolved links added,
                (addUso_returned linking ⟨(fresh bytes rfl).nonnull, (fresh bytes rfl).fresh⟩ added).1⟩

/-! ### The closeability test -/

/-- Without an export table the test is only survived by a USO that is alone. -/
theorem closeableAmong_none (handle : U32) (loaded : Registry) :
    closeableAmong handle none loaded =
      if ∀ g ∈ loaded, g.1 = handle then .ok true else .error .nullExportTable := by
  induction loaded with
  | nil => rfl
  | cons g rest ih =>
    unfold closeableAmong
    by_cases own : g.1 = handle
    · simp only [ih, List.forall_mem_cons, own, true_and, if_true]
    · simp only [List.forall_mem_cons, own, false_and, if_false]

/-- With one it asks whether any other USO has a pointer under a name the table lists. -/
theorem closeableAmong_some (handle : U32) (symbols : List UsoSymbol) (loaded : Registry) :
    ∃ closeable, closeableAmong handle (some symbols) loaded = .ok closeable ∧
      (closeable = true ↔
        ∀ g ∈ loaded, g.1 ≠ handle → ∀ e ∈ symbols, searchSymbolTable g.2.uso.importSyms e.name = 0) := by
  induction loaded with
  | nil => exact ⟨true, rfl, by simp⟩
  | cons g rest ih =>
    obtain ⟨closeable, later, meaning⟩ := ih
    unfold closeableAmong
    by_cases own : g.1 = handle
    · refine ⟨closeable, by rw [if_pos own]; exact later, ?_⟩
      rw [meaning, List.forall_mem_cons]
      exact ⟨fun others => ⟨fun other => absurd own other, others⟩, fun all => all.2⟩
    · rw [if_neg own]
      cases held : symbols.any fun s => searchSymbolTable g.2.uso.importSyms s.name != 0 with
      | true =>
        refine ⟨false, by simp only [held, if_true], ?_⟩
        obtain ⟨e, listed, pointer⟩ := List.any_eq_true.mp held
        refine ⟨fun absurd => Bool.noConfusion absurd, fun all => ?_⟩
        have none := all g List.mem_cons_self own e listed
        simp [none] at pointer
      | false =>
        refine ⟨closeable, by simp only [held, Bool.false_eq_true, if_false, later], ?_⟩
        rw [meaning, List.forall_mem_cons]
        have free : ∀ e ∈ symbols, searchSymbolTable g.2.uso.importSyms e.name = 0 := by
          intro e listed
          simpa using List.any_eq_false.mp held e listed
        exact ⟨fun others => ⟨fun _ => free, others⟩, fun all => all.2⟩

/-- The ways a call of `uso_close` returns, with the list it leaves. -/
inductive CloseResult (st : LoaderState) (loaded : Registry) (handle : U32) : LoaderState → Registry → Prop where
  | kept (r : UsoRecord) (closeable : Bool) : (handle, r) ∈ loaded →
    isUsoCloseable loaded handle r.uso = .ok closeable → (closeable && closedCount r.refCount == 0) = false →
    CloseResult st loaded handle { st with heap := setRefCount st.heap handle (closedCount r.refCount) }
      (withRefCount loaded handle (closedCount r.refCount))
  | unloaded (r : UsoRecord) (next : LoaderState) : (handle, r) ∈ loaded →
    isUsoCloseable loaded handle r.uso = .ok true → closedCount r.refCount = 0 →
    unloadUso { st with heap := setRefCount st.heap handle (closedCount r.refCount) } handle r.uso = .ok next →
    CloseResult st loaded handle next (without loaded handle)

theorem without_withRefCount (loaded : Registry) (handle count : U32) :
    without (withRefCount loaded handle count) handle = without loaded handle := by
  unfold without withRefCount
  rw [List.filter_map]
  have kept : (fun h : U32 × UsoRecord => decide (h.1 ≠ handle)) ∘
      (fun h => if h.1 = handle then (h.1, { h.2 with refCount := count }) else h) =
        fun h => decide (h.1 ≠ handle) := by
    funext h
    simp only [Function.comp_apply]
    split <;> rfl
  rw [kept]
  conv_rhs => rw [← List.map_id (loaded.filter fun h => decide (h.1 ≠ handle))]
  apply List.map_congr_left
  intro h member
  have other : h.1 ≠ handle := by simpa using (List.mem_filter.mp member).2
  simp [other]

theorem mem_without {loaded : Registry} {handle : U32} {h : U32 × UsoRecord} :
    h ∈ without loaded handle ↔ h ∈ loaded ∧ h.1 ≠ handle := by
  simp [without, List.mem_filter]

/-- An unloaded handle is out of the list, and the events of its end are recorded. -/
theorem unloadUso_returned {st next : LoaderState} {loaded : Registry} (listed : ListedState st loaded)
    {h : U32 × UsoRecord} (member : h ∈ loaded) {uso : LoadedUso} (unloaded : unloadUso st h.1 uso = .ok next) :
    ListedState next (without loaded h.1) ∧ next.globalSyms = st.globalSyms ∧ next.memory = st.memory ∧
      ∃ events, endUso st.memory h.1 uso = .ok events ∧
        next.events = st.events ++ events ++ [.unlinked h.1, .freed h.1] := by
  unfold unloadUso at unloaded
  cases ended : endUso st.memory h.1 uso with
  | error fault => simp [ended] at unloaded
  | ok events =>
    simp only [ended, Except.ok.injEq] at unloaded
    subst next
    have ending : Represents { st with events := st.events ++ events } loaded := listed.represents.congr rfl rfl rfl
    exact ⟨⟨(ending.removeUso member).congr rfl rfl rfl, listed.initted⟩, rfl, rfl, events, rfl, rfl⟩

/-- Every return of `uso_close` is one of these, whatever the files contained. -/
theorem usoClose_result {st st' : LoaderState} {loaded : Registry} (listed : ListedState st loaded) {handle : U32}
    (returned : usoClose st handle = .ok st') :
    ∃ loaded', CloseResult st loaded handle st' loaded' ∧ ListedState st' loaded' := by
  unfold usoClose at returned
  simp only [usoList_eq listed.represents] at returned
  cases found : loaded.find? fun h => h.1 == handle with
  | none => simp [found] at returned
  | some h =>
    obtain ⟨address, r⟩ := h
    have member := List.mem_of_find?_eq_some found
    have same : address = handle := by simpa using List.find?_some found
    subst same
    simp only [found] at returned
    cases closes : isUsoCloseable loaded address r.uso with
    | error fault => simp [closes] at returned
    | ok closeable =>
      simp only [closes] at returned
      cases gone : closeable && closedCount r.refCount == 0 with
      | false =>
        simp only [gone, Bool.false_eq_true, ↓reduceIte, Except.ok.injEq] at returned
        subst st'
        exact ⟨_, .kept r closeable member closes gone, listed.setRefCount _ _⟩
      | true =>
        obtain ⟨rfl, count⟩ : closeable = true ∧ closedCount r.refCount = 0 := by simpa using gone
        simp only [gone, ↓reduceIte] at returned
        refine ⟨_, .unloaded r st' member closes count returned, ?_⟩
        have counted := listed.setRefCount address (closedCount r.refCount)
        have result := (unloadUso_returned counted (mem_withRefCount_self member _) returned).1
        rwa [without_withRefCount] at result

/-! The global symbol table is only read. -/

theorem addUso_globals {st next : LoaderState} {handle : U32} {contents : UsoRecord}
    (added : addUso st handle contents = .ok next) : next.globalSyms = st.globalSyms := by
  unfold addUso at added
  dsimp only at added
  split at added
  next => cases added
  next => cases added; rfl

theorem unloadUso_globals {st next : LoaderState} {handle : U32} {uso : LoadedUso}
    (unloaded : unloadUso st handle uso = .ok next) : next.globalSyms = st.globalSyms := by
  unfold unloadUso at unloaded
  split at unloaded
  next => cases unloaded
  next => cases unloaded; rfl

theorem OpenResult.globals {st st' : LoaderState} {loaded loaded' : Registry} {filename : Bytes} {file : Option Bytes}
    {alloc : Allocation} {handle : U32} (result : OpenResult st loaded filename file alloc st' handle loaded') :
    st'.globalSyms = st.globalSyms := by
  cases result with
  | reopened => rfl
  | missing => rfl
  | unresolved => rfl
  | opened _ linked _ _ _ _ _ added =>
    have kept := addUso_globals added
    exact kept

theorem CloseResult.globals {st st' : LoaderState} {loaded loaded' : Registry} {handle : U32}
    (result : CloseResult st loaded handle st' loaded') : st'.globalSyms = st.globalSyms := by
  cases result with
  | kept => rfl
  | unloaded _ _ _ _ _ unloaded =>
    have kept := unloadUso_globals unloaded
    exact kept

/-! ### Records

What holds of a record whatever its count is kept by every call, once it holds of the records of new USOs. -/

theorem records_withRefCount {P : UsoRecord → Prop} (uncounted : ∀ r count, P r → P { r with refCount := count })
    {loaded : Registry} (before : ∀ h ∈ loaded, P h.2) (handle count : U32) :
    ∀ h ∈ withRefCount loaded handle count, P h.2 := by
  intro g member
  obtain ⟨h, inList, -, contents⟩ := mem_withRefCount.mp member
  rw [contents]
  split
  · exact uncounted _ _ (before h inList)
  · exact before h inList

theorem OpenResult.records {P : UsoRecord → Prop} (uncounted : ∀ r count, P r → P { r with refCount := count })
    {st st' : LoaderState} {loaded loaded' : Registry} {filename : Bytes} {file : Option Bytes} {alloc : Allocation}
    {handle : U32} (result : OpenResult st loaded filename file alloc st' handle loaded')
    (opened : ∀ bytes, file = some bytes → P (openedRecord st loaded filename bytes alloc))
    (before : ∀ h ∈ loaded, P h.2) : ∀ h ∈ loaded', P h.2 := by
  cases result with
  | reopened h => exact records_withRefCount uncounted before _ _
  | missing => exact before
  | unresolved => exact before
  | opened bytes linked next notLoaded found =>
    intro h member
    rcases List.mem_append.mp member with old | new
    · exact before h old
    · rw [List.mem_singleton.mp new]
      exact opened bytes found

theorem CloseResult.records {P : UsoRecord → Prop} (uncounted : ∀ r count, P r → P { r with refCount := count })
    {st st' : LoaderState} {loaded loaded' : Registry} {handle : U32}
    (result : CloseResult st loaded handle st' loaded') (before : ∀ h ∈ loaded, P h.2) : ∀ h ∈ loaded', P h.2 := by
  cases result with
  | kept r => exact records_withRefCount uncounted before _ _
  | unloaded => exact fun h inRest => before h (mem_without.mp inRest).1

theorem StartableRecord.uncounted {r : UsoRecord} (startable : StartableRecord r) (count : U32) :
    StartableRecord { r with refCount := count } := ⟨startable.ehFrame, startable.ctors, startable.dtors⟩

theorem SoundRecord.uncounted {r : UsoRecord} (sound : SoundRecord r) (count : U32) :
    SoundRecord { r with refCount := count } :=
  ⟨sound.toStartableRecord.uncounted count, sound.imports, sound.exports⟩

/-! ### Sound states -/

theorem OpenResult.sound {st st' : LoaderState} {loaded loaded' : Registry} (sound : SoundState st loaded)
    {filename : Bytes} {file : Option Bytes} {alloc : Allocation} {handle : U32}
    (soundFile : ∀ bytes, file = some bytes → SoundFile bytes)
    (result : OpenResult st loaded filename file alloc st' handle loaded') (listed : ListedState st' loaded') :
    SoundState st' loaded' where
  represents := listed.represents
  initted := listed.initted
  globals := by rw [result.globals]; exact sound.globals
  records := result.records (fun _ count own => own.uncounted count)
    (fun bytes found => (soundFile bytes found).record _ _ _ _ _ _) sound.records

theorem CloseResult.sound {st st' : LoaderState} {loaded loaded' : Registry} (sound : SoundState st loaded) {handle : U32}
    (result : CloseResult st loaded handle st' loaded') (listed : ListedState st' loaded') : SoundState st' loaded' where
  represents := listed.represents
  initted := listed.initted
  globals := by rw [result.globals]; exact sound.globals
  records := result.records (fun _ count own => own.uncounted count) sound.records

/-- In a sound state `uso_open` leaves a sound state. -/
theorem usoOpen_cases {st st' : LoaderState} {loaded : Registry} (sound : SoundState st loaded) {filename : Bytes}
    {file : Option Bytes} {alloc : Allocation} {handle : U32} (soundFile : ∀ bytes, file = some bytes → SoundFile bytes)
    (fresh : ∀ bytes, file = some bytes → Fresh st bytes alloc)
    (returned : usoOpen st filename file alloc = .ok (st', handle)) :
    ∃ loaded', OpenResult st loaded filename file alloc st' handle loaded' ∧ SoundState st' loaded' := by
  obtain ⟨loaded', result, listed⟩ := usoOpen_result sound.listed (fun bytes found => (fresh bytes found).freshHandle) returned
  exact ⟨loaded', result, result.sound sound soundFile listed⟩

theorem usoClose_cases {st st' : LoaderState} {loaded : Registry} (sound : SoundState st loaded) {handle : U32}
    (returned : usoClose st handle = .ok st') :
    ∃ loaded', CloseResult st loaded handle st' loaded' ∧ SoundState st' loaded' := by
  obtain ⟨loaded', result, listed⟩ := usoClose_result sound.listed returned
  exact ⟨loaded', result, result.sound sound listed⟩

/-! ### Runs -/

/-- A call of a program that uses the library; `file` is what `fopen` finds in an open. -/
inductive Call where
  | usoOpen (filename : Bytes) (file : Option Bytes) (alloc : Allocation)
  | usoClose (handle : U32)

/-- One call that returns. -/
inductive Step : LoaderState → Call → LoaderState → Prop where
  | opened {st st' : LoaderState} {filename : Bytes} {file : Option Bytes} {alloc : Allocation} {handle : U32} :
    (∀ bytes, file = some bytes → SoundFile bytes) → (∀ bytes, file = some bytes → Fresh st bytes alloc) →
    usoOpen st filename file alloc = .ok (st', handle) → Step st (.usoOpen filename file alloc) st'
  | closed {st st' : LoaderState} {handle : U32} :
    usoClose st handle = .ok st' → Step st (.usoClose handle) st'

/-- One call that returns, where the files opened are of some kind and nothing more is asked of memory
than an address of its own for each handle. -/
inductive CallStep (allowed : Bytes → Prop) : LoaderState → Call → LoaderState → Prop where
  | opened {st st' : LoaderState} {filename : Bytes} {file : Option Bytes} {alloc : Allocation} {handle : U32} :
    (∀ bytes, file = some bytes → allowed bytes) → (∀ bytes, file = some bytes → FreshHandle st alloc.handle) →
    usoOpen st filename file alloc = .ok (st', handle) → CallStep allowed st (.usoOpen filename file alloc) st'
  | closed {st st' : LoaderState} {handle : U32} :
    usoClose st handle = .ok st' → CallStep allowed st (.usoClose handle) st'

/-- The state after `uso_init` with a global symbol file. -/
def initialState (memory : Memory) (globalSymFile : Bytes) : LoaderState :=
  usoInit { initted := false, globalSyms := none, heap := ∅, head := 0, tail := 0, memory := memory, events := [] }
    globalSymFile

theorem initialState_listed (memory : Memory) (globalSymFile : Bytes) :
    ListedState (initialState memory globalSymFile) [] where
  represents := by
    refine ⟨⟨List.nodup_nil, List.not_mem_nil, rfl, rfl, trivial⟩, ?_⟩
    exact fun h member => absurd member List.not_mem_nil
  initted := rfl

theorem initialState_sound {globalSymFile : Bytes} (sorted : SortedTable (readGlobalSyms globalSymFile)) (memory : Memory) :
    SoundState (initialState memory globalSymFile) [] where
  represents := (initialState_listed memory globalSymFile).represents
  initted := rfl
  globals := sorted
  records := fun _ member => absurd member List.not_mem_nil

theorem step_sound {st st' : LoaderState} {call : Call} (step : Step st call st')
    (sound : ∃ loaded, SoundState st loaded) : ∃ loaded, SoundState st' loaded := by
  obtain ⟨loaded, sound⟩ := sound
  cases step with
  | opened soundFile fresh returned =>
    obtain ⟨loaded', -, sound'⟩ := usoOpen_cases sound soundFile fresh returned
    exact ⟨loaded', sound'⟩
  | closed returned =>
    obtain ⟨loaded', -, sound'⟩ := usoClose_cases sound returned
    exact ⟨loaded', sound'⟩

/-- Every state a run from `uso_init` reaches is sound. -/
theorem run_sound {memory : Memory} {globalSymFile : Bytes} (sorted : SortedTable (readGlobalSyms globalSymFile))
    {calls : List Call} {st : LoaderState} (run : Run Step (initialState memory globalSymFile) calls st) :
    ∃ loaded, SoundState st loaded :=
  run.invariant (P := fun st => ∃ loaded, SoundState st loaded)
    (fun _ _ _ step sound => step_sound step sound) ⟨[], initialState_sound sorted memory⟩

/-- Every state such a run reaches has a list, with records of the kind the files have. -/
theorem callRun_records {allowed : Bytes → Prop} {P : UsoRecord → Prop}
    (uncounted : ∀ r count, P r → P { r with refCount := count })
    (made : ∀ bytes, allowed bytes → ∀ search base noload ramSize count name,
      P { uso := fixedUso (usoImage bytes) search base noload
          block := base, ramSize := ramSize, refCount := count, name := name })
    {memory : Memory} {globalSymFile : Bytes} {calls : List Call} {st : LoaderState}
    (run : Run (CallStep allowed) (initialState memory globalSymFile) calls st) :
    ∃ loaded, ListedState st loaded ∧ ∀ h ∈ loaded, P h.2 := by
  refine run.invariant (P := fun st => ∃ loaded, ListedState st loaded ∧ ∀ h ∈ loaded, P h.2) ?_
    ⟨[], initialState_listed memory globalSymFile, fun h member => absurd member List.not_mem_nil⟩
  rintro st call st' step ⟨loaded, listed, records⟩
  cases step with
  | opened kind fresh returned =>
    obtain ⟨loaded', result, listed'⟩ := usoOpen_result listed fresh returned
    exact ⟨loaded', listed', result.records uncounted (fun bytes found => made bytes (kind bytes found) _ _ _ _ _ _) records⟩
  | closed returned =>
    obtain ⟨loaded', result, listed'⟩ := usoClose_result listed returned
    exact ⟨loaded', listed', result.records uncounted records⟩

/-- Every state such a run reaches has the global table `uso_init` read. -/
theorem callRun_globals {allowed : Bytes → Prop} {memory : Memory} {globalSymFile : Bytes} {calls : List Call}
    {st : LoaderState} (run : Run (CallStep allowed) (initialState memory globalSymFile) calls st) :
    ∃ loaded, ListedState st loaded ∧ st.globalSyms = some (readGlobalSyms globalSymFile) := by
  refine run.invariant (P := fun st => ∃ loaded, ListedState st loaded ∧ st.globalSyms = some (readGlobalSyms globalSymFile))
    ?_ ⟨[], initialState_listed memory globalSymFile, rfl⟩
  rintro st call st' step ⟨loaded, listed, globals⟩
  cases step with
  | opened _ fresh returned =>
    obtain ⟨loaded', result, listed'⟩ := usoOpen_result listed fresh returned
    exact ⟨loaded', listed', result.globals.trans globals⟩
  | closed returned =>
    obtain ⟨loaded', result, listed'⟩ := usoClose_result listed returned
    exact ⟨loaded', listed', result.globals.trans globals⟩

end DragonUso.LoaderSteps
