import DragonUso.ToolWriter
import DragonUso.LoaderSteps

/-! What `uso_open` does with a file that is not loaded yet: which symbol each import is bound to,
when it fails, and what a failure leaves behind. -/

namespace DragonUso.OpenBinding
open ByteOrder WordMemory Format ElfFile ToolCollect ToolWriter LoaderImage Relocation SymbolSearch Loader HandleList
open LoaderSteps Runs

/-! ### What a name is bound to -/

/-- The table has an entry of that name, at an address other than NULL. -/
def Exports (table : Option (List UsoSymbol)) (name : Bytes) (ptr : U32) : Prop :=
  ptr ≠ 0 ∧ ∃ s ∈ entries table, s.name = name ∧ s.ptr = ptr

/-- No table the loader looks at has an address for the name. -/
structure Unresolved (loaded : Registry) (globalSyms : Option (List UsoSymbol)) (name : Bytes) : Prop where
  loaded : ∀ h ∈ loaded, ∀ ptr, ¬ Exports h.2.uso.exportSyms name ptr
  globals : ∀ ptr, ¬ Exports globalSyms name ptr

/-- Loaded USOs come before the global table, the first loaded one before the others. -/
inductive BoundTo (loaded : Registry) (globalSyms : Option (List UsoSymbol)) (name : Bytes) : U32 → Prop where
  | exported (before after : Registry) (h : U32 × UsoRecord) (ptr : U32) : loaded = before ++ h :: after →
    (∀ g ∈ before, ∀ other, ¬ Exports g.2.uso.exportSyms name other) → Exports h.2.uso.exportSyms name ptr →
    BoundTo loaded globalSyms name ptr
  | global (ptr : U32) : (∀ g ∈ loaded, ∀ other, ¬ Exports g.2.uso.exportSyms name other) →
    Exports globalSyms name ptr → BoundTo loaded globalSyms name ptr
  | null : Unresolved loaded globalSyms name → BoundTo loaded globalSyms name 0

theorem searchSymbolTable_exports {table : Option (List UsoSymbol)} {name : Bytes}
    (found : searchSymbolTable table name ≠ 0) : Exports table name (searchSymbolTable table name) :=
  ⟨found, searchSymbolTable_sound found⟩

theorem searchSymbolTable_eq_zero {table : Option (List UsoSymbol)} (sorted : SortedTable (entries table))
    {name : Bytes} : searchSymbolTable table name = 0 ↔ ∀ ptr, ¬ Exports table name ptr := by
  constructor
  · rintro none ptr ⟨some, present⟩
    exact some ((searchSymbolTable_iff sorted some).mpr present ▸ none)
  · intro absent
    apply Decidable.byContradiction
    intro found
    exact absent _ (searchSymbolTable_exports found)

/-- The export tables of the list can be searched. -/
def SortedExports (loaded : Registry) : Prop := ∀ h ∈ loaded, SortedTable (entries h.2.uso.exportSyms)

theorem searchExports_cons (h : U32 × UsoRecord) (rest : Registry) (name : Bytes) :
    searchExports (h :: rest) name =
      if searchSymbolTable h.2.uso.exportSyms name ≠ 0 then searchSymbolTable h.2.uso.exportSyms name
      else searchExports rest name := rfl

theorem searchExports_eq_zero {loaded : Registry} (sorted : SortedExports loaded) {name : Bytes} :
    searchExports loaded name = 0 ↔ ∀ h ∈ loaded, ∀ ptr, ¬ Exports h.2.uso.exportSyms name ptr := by
  induction loaded with
  | nil => simp [searchExports]
  | cons h rest ih =>
    rw [List.forall_mem_cons, ← searchSymbolTable_eq_zero (sorted h List.mem_cons_self),
      ← ih fun g member => sorted g (List.mem_cons_of_mem _ member), searchExports_cons]
    split
    next found => exact ⟨fun none => absurd none found, fun none => absurd none.1 found⟩
    next none => exact ⟨fun later => ⟨Decidable.not_not.mp none, later⟩, fun both => both.2⟩

/-- A search that succeeds stops at the first USO that has an address for the name. -/
theorem searchExports_first {loaded : Registry} (sorted : SortedExports loaded) {name : Bytes}
    (found : searchExports loaded name ≠ 0) :
    ∃ before h after, loaded = before ++ h :: after ∧
      (∀ g ∈ before, ∀ other, ¬ Exports g.2.uso.exportSyms name other) ∧
      Exports h.2.uso.exportSyms name (searchExports loaded name) := by
  induction loaded with
  | nil => exact absurd rfl found
  | cons h rest ih =>
    rw [searchExports_cons] at found ⊢
    by_cases here : searchSymbolTable h.2.uso.exportSyms name ≠ 0
    · rw [if_pos here]
      exact ⟨[], h, rest, rfl, fun g member => absurd member List.not_mem_nil, searchSymbolTable_exports here⟩
    · rw [if_neg here] at found ⊢
      obtain ⟨before, g, after, split, absent, exported⟩ :=
        ih (fun g member => sorted g (List.mem_cons_of_mem _ member)) found
      refine ⟨h :: before, g, after, by rw [split, List.cons_append], ?_, exported⟩
      rw [List.forall_mem_cons]
      exact ⟨(searchSymbolTable_eq_zero (sorted h List.mem_cons_self)).mp (Decidable.not_not.mp here), absent⟩

theorem searchLoadedSymbols_boundTo {loaded : Registry} (sorted : SortedExports loaded)
    {globalSyms : Option (List UsoSymbol)} (globals : SortedTable (entries globalSyms)) (name : Bytes) :
    BoundTo loaded globalSyms name (searchLoadedSymbols loaded globalSyms name true) := by
  unfold searchLoadedSymbols
  by_cases found : searchExports loaded name ≠ 0
  · rw [if_pos found]
    obtain ⟨before, h, after, split, absent, exported⟩ := searchExports_first sorted found
    exact .exported before after h _ split absent exported
  · rw [if_neg found, if_pos rfl]
    have absent := (searchExports_eq_zero sorted).mp (Decidable.not_not.mp found)
    by_cases global : searchSymbolTable globalSyms name = 0
    · rw [global]
      exact .null ⟨absent, (searchSymbolTable_eq_zero globals).mp global⟩
    · exact .global _ absent (searchSymbolTable_exports global)

theorem searchLoadedSymbols_eq_zero {loaded : Registry} (sorted : SortedExports loaded)
    {globalSyms : Option (List UsoSymbol)} (globals : SortedTable (entries globalSyms)) {name : Bytes} :
    searchLoadedSymbols loaded globalSyms name true = 0 ↔ Unresolved loaded globalSyms name := by
  have bound := searchLoadedSymbols_boundTo sorted globals name
  generalize searchLoadedSymbols loaded globalSyms name true = ptr at bound ⊢
  constructor
  · rintro rfl
    cases bound with
    | exported before after h _ _ _ exported => exact absurd rfl exported.1
    | global _ _ exported => exact absurd rfl exported.1
    | null unresolved => exact unresolved
  · intro unresolved
    cases bound with
    | exported before after h _ split _ exported =>
      exact absurd exported (unresolved.loaded h (by simp [split]) _)
    | global _ _ exported => exact absurd exported (unresolved.globals _)
    | null _ => rfl

theorem sortedExports_of_sound {st : LoaderState} {loaded : Registry} (sound : SoundState st loaded) :
    SortedExports loaded := fun h member => (sound.records h member).exports

theorem resolve_boundTo {st : LoaderState} {loaded : Registry} (sound : SoundState st loaded) (name : Bytes) :
    BoundTo loaded st.globalSyms name (resolve st loaded name) :=
  searchLoadedSymbols_boundTo (sortedExports_of_sound sound) sound.globals name

theorem resolve_eq_zero {st : LoaderState} {loaded : Registry} (sound : SoundState st loaded) {name : Bytes} :
    resolve st loaded name = 0 ↔ Unresolved loaded st.globalSyms name :=
  searchLoadedSymbols_eq_zero (sortedExports_of_sound sound) sound.globals

/-! ### Opening -/

/-- The import entries as they stand in a file. -/
def fileImports (file : Bytes) : List UsoSymbol :=
  entries (readSymbolTable (usoImage file) (readHeader (usoImage file)).importSyms)

/-- Some strong import of the file has no address anywhere. -/
def MissesStrong (st : LoaderState) (loaded : Registry) (file : Bytes) : Prop :=
  ∃ s ∈ fileImports file, usoIsSymbolWeak s = false ∧ Unresolved loaded st.globalSyms s.name

theorem importsResolved_eq_false {st : LoaderState} {loaded : Registry} (sound : SoundState st loaded) (file : Bytes) :
    importsResolved st loaded file = false ↔ MissesStrong st loaded file := by
  unfold importsResolved MissesStrong fileImports
  rw [fixupImports_eq, List.all_eq_false]
  apply exists_congr
  intro s
  apply and_congr_right
  intro _
  rw [← resolve_eq_zero sound]
  simp

/-- The bytes of the block behind a record. -/
def InBlock (r : UsoRecord) (p : U32) : Prop := r.block.toNat ≤ p.toNat ∧ p.toNat < r.block.toNat + r.ramSize.toNat

/-- The list with its counts and tables, every loaded image and the calls made so far are as before. -/
structure Untouched (st st' : LoaderState) (loaded : Registry) : Prop where
  listed : usoList st' = .ok loaded
  handles : st'.heap = st.heap ∧ st'.head = st.head ∧ st'.tail = st.tail
  globals : st'.globalSyms = st.globalSyms
  images : ∀ h ∈ loaded, ∀ p, InBlock h.2 p → st'.memory p = st.memory p
  events : st'.events = st.events

theorem Untouched.refl {st : LoaderState} {loaded : Registry} (listed : usoList st = .ok loaded) : Untouched st st loaded :=
  ⟨listed, ⟨rfl, rfl, rfl⟩, rfl, fun _ _ _ _ => rfl, rfl⟩

/-- Reading a file into its block leaves the blocks of the loaded USOs as they are. -/
theorem blockMemory_outside {st : LoaderState} {loaded : Registry} (sound : SoundState st loaded) {file : Bytes}
    {alloc : Allocation} (loadable : LoadableFile file) (fresh : Fresh st file alloc) {h : U32 × UsoRecord}
    (member : h ∈ loaded) {p : U32} (inside : InBlock h.2 p) : blockMemory st file alloc p = st.memory p := by
  obtain ⟨d, stored, contents⟩ := lookup_contents sound.represents member
  have apart := fresh.block_apart ⟨h.1, d⟩ (AList.mem_lookup_iff.mp stored)
  have ends := fresh.block_ends
  have room := loadable.room
  obtain ⟨low, high⟩ := inside
  simp only [contents] at apart
  have outside : (getUsoRamSize (readLoadInfo file)).toNat ≤ (p - alloc.block).toNat := by
    have bound := p.isLt
    rw [BitVec.toNat_sub]
    omega
  unfold blockMemory loadBlock
  rw [if_neg (by omega), if_neg (by rw [BitVec.lt_def]; omega)]

/-- A record's imports next to the entries of its file. -/
def BoundImports (st : LoaderState) (loaded : Registry) (file : Bytes) (r : UsoRecord) : Prop :=
  List.Forall₂ (fun stored bound => bound.name = stored.name ∧ BoundTo loaded st.globalSyms bound.name bound.ptr)
    (fileImports file) (entries r.uso.importSyms)

theorem boundImports_opened {st : LoaderState} {loaded : Registry} (sound : SoundState st loaded) (filename file : Bytes)
    (alloc : Allocation) : BoundImports st loaded file (openedRecord st loaded filename file alloc) := by
  unfold BoundImports fileImports
  simp only [openedRecord, openedUso, fixedUso, entries_fixupImports]
  rw [List.forall₂_map_right_iff, List.forall₂_same]
  intro s _
  exact ⟨rfl, resolve_boundTo sound s.name⟩

/-- The outcomes of opening a file that is not loaded. -/
structure OpenOutcome (st : LoaderState) (loaded : Registry) (filename file : Bytes) (alloc : Allocation) : Prop where
  null_iff : (∃ st', usoOpen st filename (some file) alloc = .ok (st', 0)) ↔ MissesStrong st loaded file
  untouched : ∀ st', usoOpen st filename (some file) alloc = .ok (st', 0) → Untouched st st' loaded
  opened : ∀ st' handle, usoOpen st filename (some file) alloc = .ok (st', handle) → handle ≠ 0 →
    ∃ r, usoList st' = .ok (loaded ++ [(handle, r)]) ∧ r.refCount = 1 ∧ r.name = filename ∧
      BoundImports st loaded file r
  fault : ∀ fault, usoOpen st filename (some file) alloc = .error fault →
    linkUso (openedUso st loaded file alloc) (blockMemory st file alloc) = .error fault

theorem usoOpen_notLoaded {st : LoaderState} {loaded : Registry} (sound : SoundState st loaded) {filename : Bytes}
    (notLoaded : NotLoaded loaded filename) (file : Option Bytes) (alloc : Allocation) :
    usoOpen st filename file alloc =
      match file with
      | none => .ok (st, 0)
      | some bytes => loadUso st loaded filename bytes alloc := by
  have initted : ¬ st.initted = false := by simp [sound.initted]
  have absent : ¬ usoGetHandle loaded filename ≠ 0 :=
    not_not_intro ((usoGetHandle_eq_zero sound.represents).mpr notLoaded)
  cases file with
  | none => simp only [usoOpen, if_neg initted, usoList_eq sound.represents, if_neg absent]
  | some bytes => simp only [usoOpen, if_neg initted, usoList_eq sound.represents, if_neg absent]

/-- In a sound state a file is either refused before anything but its own block has changed,
or linked and added at the end of the list. -/
theorem usoOpen_outcome {st : LoaderState} {loaded : Registry} (sound : SoundState st loaded) {filename file : Bytes}
    (notLoaded : NotLoaded loaded filename) {alloc : Allocation} (loadable : LoadableFile file)
    (fresh : Fresh st file alloc) : OpenOutcome st loaded filename file alloc := by
  have call : usoOpen st filename (some file) alloc = _ := (usoOpen_notLoaded sound notLoaded _ alloc).trans
    (loadUso_eq loadable fresh)
  cases resolved : importsResolved st loaded file with
  | false =>
    have misses := (importsResolved_eq_false sound file).mp resolved
    have returned : usoOpen st filename (some file) alloc = .ok ({ st with memory := blockMemory st file alloc }, 0) := by
      rw [call, resolved]
      rfl
    refine ⟨⟨fun _ => misses, fun _ => ⟨_, returned⟩⟩, ?_, ?_, ?_⟩
    · intro st' null
      rw [returned, Except.ok.injEq, Prod.mk.injEq] at null
      obtain ⟨rfl, -⟩ := null
      have represents : Represents { st with memory := blockMemory st file alloc } loaded :=
        sound.represents.congr rfl rfl rfl
      exact ⟨usoList_eq represents, ⟨rfl, rfl, rfl⟩, rfl,
        fun h member p inside => blockMemory_outside sound loadable fresh member inside, rfl⟩
    · intro st' handle null some
      rw [returned, Except.ok.injEq, Prod.mk.injEq] at null
      exact absurd null.2.symm some
    · intro fault failed
      rw [returned] at failed
      exact absurd failed (by simp)
  | true =>
    have found : ¬ MissesStrong st loaded file := by
      rw [← importsResolved_eq_false sound, resolved]
      exact Bool.noConfusion
    rw [resolved, if_pos rfl] at call
    cases links : linkUso (openedUso st loaded file alloc) (blockMemory st file alloc) with
    | error fault =>
      simp only [links] at call
      refine ⟨⟨?_, fun misses => absurd misses found⟩, ?_, ?_, ?_⟩
      · rintro ⟨st', null⟩
        simp [call] at null
      · intro st' null
        simp [call] at null
      · intro st' handle returned
        simp [call] at returned
      · intro other failed
        rw [call, Except.error.injEq] at failed
        rw [links, failed]
    | ok linked =>
      have represents : Represents { st with memory := linked } loaded := sound.represents.congr rfl rfl rfl
      have record : StartableRecord (openedRecord st loaded filename file alloc) := loadable.record _ _ _ _ _ _
      obtain ⟨next, events, added, listed, -⟩ :=
        addUso_ok represents fresh.handle_fresh fresh.handle_nonnull record
      simp only [links, added] at call
      refine ⟨⟨?_, fun misses => absurd misses found⟩, ?_, ?_, ?_⟩
      · rintro ⟨st', null⟩
        rw [call, Except.ok.injEq, Prod.mk.injEq] at null
        exact absurd null.2 fresh.handle_nonnull
      · intro st' null
        rw [call, Except.ok.injEq, Prod.mk.injEq] at null
        exact absurd null.2 fresh.handle_nonnull
      · intro st' handle returned _
        rw [call, Except.ok.injEq, Prod.mk.injEq] at returned
        obtain ⟨rfl, rfl⟩ := returned
        exact ⟨_, usoList_eq listed, rfl, rfl, boundImports_opened sound filename file alloc⟩
      · intro fault failed
        simp [call] at failed

/-- After every run: a missing file changes nothing, and a file that opens is bound or refused. -/
theorem usoOpen_binds {memory : Memory} {globalSymFile : Bytes} (sorted : SortedTable (readGlobalSyms globalSymFile))
    {calls : List Call} {st : LoaderState} (run : Run Step (initialState memory globalSymFile) calls st)
    {loaded : Registry} (listed : usoList st = .ok loaded) {filename : Bytes} (notLoaded : NotLoaded loaded filename) :
    (∀ alloc, usoOpen st filename none alloc = .ok (st, 0)) ∧
    ∀ file alloc, LoadableFile file → Fresh st file alloc → OpenOutcome st loaded filename file alloc := by
  obtain ⟨loaded', sound⟩ := run_sound sorted run
  obtain rfl := sound.represents.seen listed
  exact ⟨fun alloc => usoOpen_notLoaded sound notLoaded none alloc,
    fun file alloc loadable fresh => usoOpen_outcome sound notLoaded loadable fresh⟩

/-! A library that exports `f`, and a program that imports `f` and exports `g`. -/

def textSection : ElfSection where
  name := ascii ['.', 't', 'e', 'x', 't']
  type := 1
  flags := SHF_ALLOC
  size := 4
  addrAlign := 4
  data := some [0, 0, 0, 0]
  symbols := []
  relocations := []
  data_length := by simp
  data_present := by decide

def symtabSection (symbols : List ElfSymbol) : ElfSection :=
  { nullSection with name := symtabName, symbols := symbols }

theorem symtabSymbols_sample (symbols : List ElfSymbol) :
    symtabSymbols [nullSection, textSection, symtabSection symbols] = symbols := rfl

def nullSymbol : ElfSymbol where
  name := []
  value := 0
  info := 0
  other := 0
  shndx := 0
  name_terminated := List.not_mem_nil

/-- A symbol named by one letter, in a section or undefined. -/
def letterSymbol (name : Bytes) (info : Byte) (shndx : U16) (name_terminated : 0 ∉ name) : ElfSymbol where
  name := name
  value := 0
  info := info
  other := STV_DEFAULT
  shndx := shndx
  name_terminated := name_terminated

def exportedF : ElfSymbol := letterSymbol [102] 0x12 1 (by decide)

def importedF : ElfSymbol := letterSymbol [102] 0x10 0 (by decide)

def exportedG : ElfSymbol := letterSymbol [103] 0x12 1 (by decide)

def sampleElf (symbols : List ElfSymbol) (symbols_le : symbols.length ≤ 2 ^ 24) : Elf where
  elfClass := ELFCLASS32
  encoding := ELFDATA2MSB
  machine := EM_MIPS
  type := ET_REL
  sections := [nullSection, textSection, symtabSection symbols]
  sections_lt := by simp [SHN_LORESERVE]
  symbols_le := by rw [symtabSymbols_sample]; exact symbols_le
  relocations_named := by simp [nullSection, textSection, symtabSection]

def libraryElf : Elf := sampleElf [nullSymbol, exportedF] (by decide)

def programElf : Elf := sampleElf [nullSymbol, importedF, exportedG] (by decide)

/-- What the tool collects from a sample once its symbol tables are known. -/
def sampleTool (elf : Elf) (importSyms exportSyms : List SymbolInfo) : Elf2uso where
  elf := elf
  outSectionMap := (sectionCollect elf).outSectionMap
  outSections := relocBuild elf (sectionCollect elf).outSectionMap (buildImportSymMap importSyms)
    (sectionCollect elf).outSections
  importSyms := importSyms
  exportSyms := exportSyms
  importSymMap := buildImportSymMap importSyms

def libraryTool : Elf2uso := sampleTool libraryElf [] [exportSymbol 1 exportedF 1]

def programTool : Elf2uso := sampleTool programElf [importSymbol 1 importedF] [exportSymbol 2 exportedG 1]

def libraryFile : Bytes := usoWrite libraryTool [108]

def programFile : Bytes := usoWrite programTool [112]

theorem sort_short (sort : SymSort) {symbols : List SymbolInfo} (short : symbols.length ≤ 1) :
    sort.run symbols = symbols := by
  cases symbols with
  | nil => exact List.perm_nil.mp (sort.perm [])
  | cons symbol rest =>
    obtain rfl : rest = [] := List.eq_nil_of_length_eq_zero (by simpa using short)
    exact List.perm_singleton.mp (sort.perm [symbol])

theorem elf2uso_sampleTool {sort : SymSort} {elf : Elf} {importSyms exportSyms : List SymbolInfo}
    (accepted : elfValid elf = true ∧ commonIsUsed elf = false ∧ checkGpRelativeRelocations elf = false)
    (collected : symCollectLoop (sectionCollect elf).outSectionMap 0 elf.symbols { importSyms := [], exportSyms := [] } =
      .ok { importSyms := importSyms, exportSyms := exportSyms })
    (imports : importSyms.length ≤ 1) (exports : exportSyms.length ≤ 1) :
    elf2uso sort elf = .ok (sampleTool elf importSyms exportSyms) := by
  obtain ⟨valid, common, gpRelative⟩ := accepted
  simp only [elf2uso, valid, common, gpRelative, symCollect, collected, sort_short sort imports, sort_short sort exports]
  rfl

/-- The two files are what the tool makes of the samples, however it sorts. -/
theorem elf2uso_samples (sort : SymSort) :
    elf2uso sort libraryElf = .ok libraryTool ∧ elf2uso sort programElf = .ok programTool :=
  ⟨elf2uso_sampleTool (by decide +kernel) (by decide +kernel) (by decide) (by decide),
    elf2uso_sampleTool (by decide +kernel) (by decide +kernel) (by decide) (by decide)⟩

theorem libraryFile_sound : SoundFile libraryFile where
  room := by decide +kernel
  imports := by unfold SortedTable; decide +kernel
  exports := by unfold SortedTable; decide +kernel
  exportSections := by decide +kernel
  ehFrame := by decide +kernel
  ctors := by decide +kernel
  dtors := by decide +kernel

theorem programFile_sound : SoundFile programFile where
  room := by decide +kernel
  imports := by unfold SortedTable; decide +kernel
  exports := by unfold SortedTable; decide +kernel
  exportSections := by decide +kernel
  ehFrame := by decide +kernel
  ctors := by decide +kernel
  dtors := by decide +kernel

/-- The state a call of `uso_open` leaves. -/
def afterOpen (st : LoaderState) (filename file : Bytes) (alloc : Allocation) : LoaderState :=
  match usoOpen st filename (some file) alloc with
  | .ok (next, _) => next
  | .error _ => st

theorem usoOpen_afterOpen {st : LoaderState} {filename file : Bytes} {alloc : Allocation} {handle : U32}
    (returns : (usoOpen st filename (some file) alloc).map Prod.snd = .ok handle) :
    usoOpen st filename (some file) alloc = .ok (afterOpen st filename file alloc, handle) := by
  unfold afterOpen
  cases call : usoOpen st filename (some file) alloc with
  | error fault =>
    rw [call] at returns
    cases returns
  | ok next =>
    rw [call] at returns
    cases returns
    rfl

def libraryAlloc : Allocation where
  handle := 0x80100000
  block := 0x80200000

def programAlloc : Allocation where
  handle := 0x80110000
  block := 0x80300000

/-- The library is loaded and nothing else; there are no global symbols. -/
@[irreducible] def libraryOpen : LoaderState := afterOpen (initialState (fun _ => 0) []) [108] libraryFile libraryAlloc

def loadedAt (st : LoaderState) : Registry :=
  match usoList st with
  | .ok loaded => loaded
  | .error _ => []

theorem usoList_loadedAt {st : LoaderState} (follows : (usoList st).isOk) : usoList st = .ok (loadedAt st) := by
  unfold loadedAt
  cases listed : usoList st with
  | error fault =>
    rw [listed] at follows
    cases follows
  | ok loaded => rfl

theorem libraryAlloc_fresh : Fresh (initialState (fun _ => 0) []) libraryFile libraryAlloc where
  handle_nonnull := by decide
  handle_fresh := List.not_mem_nil
  block_nonnull := by decide
  block_aligned := by decide +kernel
  block_ends := by decide +kernel
  block_apart := fun entry member => absurd member List.not_mem_nil

theorem usoOpen_library :
    usoOpen (initialState (fun _ => 0) []) [108] (some libraryFile) libraryAlloc = .ok (libraryOpen, 0x80100000) := by
  unfold libraryOpen
  exact usoOpen_afterOpen (by decide +kernel)

theorem step_library :
    Step (initialState (fun _ => 0) []) (.usoOpen [108] (some libraryFile) libraryAlloc) libraryOpen :=
  .opened (fun _ same => Option.some.inj same ▸ libraryFile_sound)
    (fun _ same => Option.some.inj same ▸ libraryAlloc_fresh) usoOpen_library

theorem programAlloc_fresh : Fresh libraryOpen programFile programAlloc where
  handle_nonnull := by decide
  handle_fresh := by decide +kernel
  block_nonnull := by decide
  block_aligned := by decide +kernel
  block_ends := by decide +kernel
  block_apart := by decide +kernel

theorem usoOpen_binds_program :
    (∀ alloc, usoOpen libraryOpen [112] none alloc = .ok (libraryOpen, 0)) ∧
    OpenOutcome libraryOpen (loadedAt libraryOpen) [112] programFile programAlloc := by
  have listed : usoList libraryOpen = .ok (loadedAt libraryOpen) := usoList_loadedAt (by decide +kernel)
  have notLoaded : NotLoaded (loadedAt libraryOpen) [112] := by
    unfold NotLoaded
    decide +kernel
  obtain ⟨missing, opens⟩ := usoOpen_binds (by unfold SortedTable; decide) (.next step_library (.done _)) listed notLoaded
  exact ⟨missing, opens programFile programAlloc programFile_sound.toLoadableFile programAlloc_fresh⟩

end DragonUso.OpenBinding
