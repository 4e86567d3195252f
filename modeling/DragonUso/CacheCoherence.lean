import DragonUso.Library.Caches
import DragonUso.PointerLookup
import DragonUso.Resources

/-! Code is fetched through a cache that does not see what `uso_open` stores, and that still has what was
fetched from the block when another USO was in it. The flush that ends an open is what makes the linked
sections the ones that run. -/

namespace DragonUso.CacheCoherence
open ByteOrder WordMemory Regions Runs Caches Format ElfFile ToolCollect ToolWriter LoaderImage RoundTrip NoloadLayout
open Relocation SymbolSearch Loader HandleList LoaderSteps OpenBinding ProducedFile RelocSafety SectionPlacement ElfLinking
open Isolation PointerLookup Resources

/-! ### What the caches see of a call -/

def cacheOp : Action → Option (Op 32 Byte)
  | .dataCacheHitWritebackInvalidate r => some (.writeBack r)
  | .instCacheHitInvalidate r => some (.invalidate r)
  | _ => none

def cacheOps (actions : List Action) : List (Op 32 Byte) := actions.filterMap cacheOp

/-- The library on a processor with caches. -/
structure Machine where
  state : LoaderState
  caches : CachedMemory 32 Byte

/-- One call that returns, as in `DiskStep`. Its stores come before its flushes, and the hardware does what
it likes before, between and after them. -/
inductive CachedStep (disk : Bytes → AbiFile → Prop) : Machine → Call → Machine → Prop where
  | opened {m : Machine} {st : LoaderState} {filename : Bytes} {file : Option AbiFile} {alloc : Allocation}
    {texts : Nat → Option (Region 32)} {handle : U32} {actions : List Action} {caches : CachedMemory 32 Byte} :
    (∀ own, file = some own → disk filename own ∧ Fresh m.state own.bytes alloc) →
    usoOpenLogged m.state filename (file.map AbiFile.bytes) alloc texts = .ok ((st, handle), actions) →
    Executes (.store st.memory :: cacheOps actions) m.caches caches →
    CachedStep disk m (.usoOpen filename (file.map AbiFile.bytes) alloc) ⟨st, caches⟩
  | closed {m : Machine} {st : LoaderState} {handle : U32} {actions : List Action} {caches : CachedMemory 32 Byte} :
    usoCloseLogged m.state handle = .ok (st, actions) → Executes (.store st.memory :: cacheOps actions) m.caches caches →
    CachedStep disk m (.usoClose handle) ⟨st, caches⟩

/-- What an open flushes. -/
def flushedRegions (st : LoaderState) (loaded : Registry) (file : Option Bytes) (alloc : Allocation) : List (Region 32) :=
  match file with
  | none => []
  | some bytes => if importsResolved st loaded bytes then (openedUso st loaded bytes alloc).sections.tail.map sectionRegion else []

theorem cacheOps_flushUso (uso : LoadedUso) : cacheOps (flushUso uso) = flushOps (uso.sections.tail.map sectionRegion) := by
  unfold flushUso
  induction uso.sections.tail with
  | nil => rfl
  | cons s rest ih => exact congrArg (fun ops => .writeBack (sectionRegion s) :: .invalidate (sectionRegion s) :: ops) ih

theorem cacheOps_demangle (search : Bytes → U32) (texts : Nat → Option (Region 32)) (imports : List UsoSymbol) :
    cacheOps (demangleActions search texts imports) = [] := by
  unfold demangleActions cacheOps
  induction imports.zipIdx.filter _ with
  | nil => rfl
  | cons s rest ih => exact ih

theorem cacheOps_openActions (st : LoaderState) (loaded : Registry) (filename : Bytes) (file : Option Bytes) (alloc : Allocation)
    (texts : Nat → Option (Region 32)) :
    cacheOps (openActions st loaded filename file alloc texts) = flushOps (flushedRegions st loaded file alloc) := by
  cases file with
  | none => rfl
  | some bytes =>
    simp only [openActions, flushedRegions, cacheOps, List.filterMap_append]
    by_cases resolved : importsResolved st loaded bytes = true
    · simp only [if_pos resolved, List.filterMap_append, ← cacheOps_flushUso]
      exact List.append_nil _
    · simp only [if_neg resolved, List.filterMap_append]
      rw [← cacheOps, ← cacheOps, cacheOps_demangle]
      rfl

/-! ### Sections and their regions -/

theorem isPtrInsideSection_region {s : LoadedSection} {ptr : U32} (inside : isPtrInsideSection s ptr = true) :
    (sectionRegion s).Has ptr := by
  simp only [isPtrInsideSection, Bool.and_eq_true, bne_iff_ne, decide_eq_true_eq] at inside
  obtain ⟨-, low, high⟩ := inside
  unfold Region.Has sectionRegion
  bv_omega

/-- Section 0 has no pointers, so what is flushed covers every pointer into a USO. -/
theorem isPtrInsideUso_flushed (file : AbiFile) {search : Bytes → U32} {block : U32} (given : BlockGiven file.bytes block)
    {ptr : U32} (inside : isPtrInsideUso (loadedFile file.bytes search block) ptr = true) :
    ∃ r ∈ (loadedFile file.bytes search block).sections.tail.map sectionRegion, r.Has ptr := by
  obtain ⟨dummy, found, loaded⟩ :=
    loadedAs_outSection file.produced (BlockGiven.fits file.produced given) search file.produced.accepted.dummy
  obtain ⟨s, member, here⟩ := List.any_eq_true.mp inside
  cases sections : (loadedFile file.bytes search block).sections with
  | nil =>
    rw [sections] at member
    exact absurd member List.not_mem_nil
  | cons first rest =>
    have head : first = dummy := by
      have same := found
      rw [← AbiFile.bytes, sections] at same
      exact Option.some.inj same
    rw [sections] at member
    rcases List.mem_cons.mp member with rfl | inRest
    · rw [head, isPtrInsideSection, loaded.dummy rfl] at here
      cases here
    · exact ⟨sectionRegion s, List.mem_map_of_mem inRest, isPtrInsideSection_region here⟩

/-! ### One call -/

/-- The invariant: what the loaded USOs have in their sections is fetched as it is loaded. -/
structure Coherent (disk : Bytes → AbiFile → Prop) (m : Machine) (loaded : Registry) : Prop where
  isolated : Isolated disk m.state loaded
  loads : m.caches.loads = m.state.memory
  clean : ∀ h ∈ loaded, ∀ ptr, isPtrInsideUso h.2.uso ptr = true → Clean m.caches ptr

section
variable {disk : Bytes → AbiFile → Prop} {m : Machine} {st : LoaderState} {loaded loaded' : Registry}

theorem ListedState.unique (listed : ListedState st loaded) (listed' : ListedState st loaded') : loaded = loaded' :=
  Except.ok.inj ((usoList_eq listed.represents).symm.trans (usoList_eq listed'.represents))

theorem inside_withRefCount {handle count : U32} {g : U32 × UsoRecord} (inList : g ∈ withRefCount loaded handle count)
    {ptr : U32} (inside : isPtrInsideUso g.2.uso ptr = true) : ∃ h ∈ loaded, isPtrInsideUso h.2.uso ptr = true := by
  obtain ⟨h, member, -, record⟩ := mem_withRefCount.mp inList
  refine ⟨h, member, ?_⟩
  rw [record] at inside
  split at inside <;> exact inside

/-- A call of `uso_open` stores nothing in the sections of the USOs that are loaded. -/
theorem open_keepsSections (isolated : Isolated disk m.state loaded)
    (unpadded : ∀ name file, disk name file → NoPadding file.tool.outSections) {filename : Bytes} {file : Option AbiFile}
    {alloc : Allocation} (found : ∀ own, file = some own → disk filename own ∧ Fresh m.state own.bytes alloc) {handle : U32}
    (result : OpenResult m.state loaded filename (file.map AbiFile.bytes) alloc st handle loaded') {h : U32 × UsoRecord}
    (member : h ∈ loaded) {ptr : U32} (inside : isPtrInsideUso h.2.uso ptr = true) :
    st.memory ptr = m.state.memory ptr := by
  cases file with
  | none =>
    cases result with
    | reopened => rfl
    | missing => rfl
    | unresolved bytes _ same => cases same
    | opened bytes _ _ _ same => cases same
  | some own =>
    obtain ⟨-, fresh⟩ := found own rfl
    obtain ⟨file, named, held⟩ := isolated.housed.held h member
    have inBlock := (holdsFile_inside held (unpadded _ _ named) ptr).2 inside
    exact open_changesOnly isolated.listed fresh result ptr ((fresh_apart isolated.listed fresh member).outside inBlock)

theorem open_coherent (unpadded : ∀ name file, disk name file → NoPadding file.tool.outSections) {filename : Bytes}
    {file : Option AbiFile} {alloc : Allocation}
    (found : ∀ own, file = some own → disk filename own ∧ Fresh m.state own.bytes alloc) {handle : U32}
    {texts : Nat → Option (Region 32)} {actions : List Action} {caches : CachedMemory 32 Byte}
    (logged : usoOpenLogged m.state filename (file.map AbiFile.bytes) alloc texts = .ok ((st, handle), actions))
    (runs : Executes (.store st.memory :: cacheOps actions) m.caches caches) (before : Coherent disk m loaded) :
    ∃ loaded', Coherent disk ⟨st, caches⟩ loaded' := by
  obtain ⟨isolated, loads, clean⟩ := before
  have returned : usoOpen m.state filename (file.map AbiFile.bytes) alloc = .ok (st, handle) := by
    rw [← usoOpenLogged_result _ _ _ _ texts, logged]
    rfl
  have freshHandle := freshHandle_read fun own here => (found own here).2
  obtain ⟨loaded', result, listed'⟩ := usoOpen_result isolated.listed freshHandle returned
  obtain ⟨other, isolated'⟩ := (DiskStep.opened found returned).isolated ⟨loaded, isolated⟩
  obtain rfl := ListedState.unique isolated'.listed listed'
  have regions : ∃ regions, cacheOps actions = flushOps regions ∧
      (usoGetHandle loaded filename = 0 → regions = flushedRegions m.state loaded (file.map AbiFile.bytes) alloc) := by
    rw [usoOpenLogged_actions isolated.listed logged]
    by_cases open_before : usoGetHandle loaded filename ≠ 0
    · rw [if_pos open_before]
      exact ⟨[], rfl, fun absent => absurd absent open_before⟩
    · rw [if_neg open_before]
      exact ⟨_, cacheOps_openActions .., fun _ => rfl⟩
  obtain ⟨regions, ops, flushed⟩ := regions
  rw [ops] at runs
  obtain ⟨after, cleans⟩ := storeFlush_cleans runs
  -- what was loaded before keeps its cells
  have kept : ∀ h ∈ loaded, ∀ ptr, isPtrInsideUso h.2.uso ptr = true → Clean caches ptr := by
    intro h member ptr inside
    refine cleans ptr (.inl ⟨clean h member ptr inside, ?_⟩)
    rw [loads]
    exact open_keepsSections isolated unpadded found result member inside
  refine ⟨_, isolated', after, ?_⟩
  cases result with
  | reopened =>
    intro g inList ptr inside
    obtain ⟨h, member, before⟩ := inside_withRefCount inList inside
    exact kept h member ptr before
  | missing => exact kept
  | unresolved => exact kept
  | opened bytes linked next notLoaded same resolved =>
    obtain ⟨own, here, rfl⟩ := Option.map_eq_some_iff.mp same
    intro g inList ptr inside
    rcases List.mem_append.mp inList with old | new
    · exact kept g old ptr inside
    · obtain rfl := List.mem_singleton.mp new
      have given := Fresh.blockGiven (found own here).2
      refine cleans ptr (.inr ?_)
      rw [flushed ((usoGetHandle_eq_zero isolated.listed.represents).mpr notLoaded), same, flushedRegions, if_pos resolved]
      exact isPtrInsideUso_flushed own given inside

theorem close_coherent {handle : U32} {actions : List Action} {caches : CachedMemory 32 Byte}
    (logged : usoCloseLogged m.state handle = .ok (st, actions))
    (runs : Executes (.store st.memory :: cacheOps actions) m.caches caches) (before : Coherent disk m loaded) :
    ∃ loaded', Coherent disk ⟨st, caches⟩ loaded' := by
  obtain ⟨isolated, loads, clean⟩ := before
  have returned : usoClose m.state handle = .ok st := by
    rw [← usoCloseLogged_result, logged]
    rfl
  obtain ⟨loaded', result, listed'⟩ := usoClose_result isolated.listed returned
  obtain ⟨other, isolated'⟩ := (DiskStep.closed returned).isolated ⟨loaded, isolated⟩
  obtain rfl := ListedState.unique isolated'.listed listed'
  have memory : st.memory = m.state.memory := by
    cases result with
    | kept => rfl
    | unloaded r next member decides gone unloaded =>
      exact (unloadUso_returned (isolated.listed.setRefCount _ _) (mem_withRefCount_self member _) unloaded).2.2.1
  have ops : cacheOps actions = flushOps [] := by
    cases result with
    | kept r closeable member tested stays =>
      rw [usoCloseLogged_actions isolated.listed logged member tested, stays]
      rfl
    | unloaded r next member tested count gone =>
      rw [usoCloseLogged_actions isolated.listed logged member tested, count]
      rfl
  rw [ops] at runs
  obtain ⟨after, cleans⟩ := storeFlush_cleans runs
  have kept : ∀ h ∈ loaded, ∀ ptr, isPtrInsideUso h.2.uso ptr = true → Clean caches ptr := by
    intro h member ptr inside
    refine cleans ptr (.inl ⟨clean h member ptr inside, ?_⟩)
    rw [loads, memory]
  refine ⟨_, isolated', after, ?_⟩
  cases result with
  | kept =>
    intro g inList ptr inside
    obtain ⟨h, member, before⟩ := inside_withRefCount inList inside
    exact kept h member ptr before
  | unloaded => exact fun g inList => kept g (List.filter_sublist.mem inList)

end

theorem CachedStep.coherent {disk : Bytes → AbiFile → Prop}
    (unpadded : ∀ name file, disk name file → NoPadding file.tool.outSections) {m m' : Machine} {call : Call}
    (step : CachedStep disk m call m') (before : ∃ loaded, Coherent disk m loaded) : ∃ loaded, Coherent disk m' loaded := by
  obtain ⟨loaded, coherent⟩ := before
  cases step with
  | opened found logged runs => exact open_coherent unpadded found logged runs coherent
  | closed logged runs => exact close_coherent logged runs coherent

/-- Sections whose cells are clean are fetched as they are. -/
theorem HoldsFile.fetched {file : AbiFile} {r : UsoRecord} {c : CachedMemory 32 Byte} (held : HoldsFile file r c.loads)
    (unpadded : NoPadding file.tool.outSections)
    (clean : ∀ ptr, isPtrInsideUso r.uso ptr = true → Clean c ptr) : HoldsFile file r c.fetches := by
  have same : ∀ ptr, PointsInSection file.elf file.tool r.uso ptr → c.fetches ptr = c.loads ptr :=
    fun ptr inside => (clean ptr ((holdsFile_inside held unpadded ptr).1.mpr inside)).fetches
  exact held.congr (fun index s ofs kept _ inside => same _ ⟨index, s, ofs, kept, inside, rfl⟩)
    (fun _ index s ofs kept _ inside => same _ ⟨index, s, ofs, kept, inside, rfl⟩)

/-- Whatever is opened and closed, whatever the caches hold at the start and whenever the hardware writes
back, fills or evicts: loads see the memory of the loader, and instruction fetches find the linked ELF of
every USO that is loaded. -/
theorem run_fetches {disk : Bytes → AbiFile → Prop}
    (unpadded : ∀ name file, disk name file → NoPadding file.tool.outSections) {caches : CachedMemory 32 Byte}
    {globalSymFile : Bytes} {calls : List Call} {m : Machine}
    (run : Run (CachedStep disk) ⟨initialState caches.loads globalSymFile, caches⟩ calls m) :
    m.caches.loads = m.state.memory ∧ ∃ loaded, usoList m.state = .ok loaded ∧
      ∀ h ∈ loaded, ∃ file, disk h.2.name file ∧ HoldsFile file h.2 m.caches.fetches := by
  have start : Coherent disk ⟨initialState caches.loads globalSymFile, caches⟩ [] :=
    ⟨⟨initialState_listed caches.loads globalSymFile, Housed.nil⟩, rfl, fun h member => absurd member List.not_mem_nil⟩
  obtain ⟨loaded, isolated, loads, clean⟩ :=
    run.invariant (P := fun m => ∃ loaded, Coherent disk m loaded) (fun _ _ _ step => step.coherent unpadded) ⟨[], start⟩
  refine ⟨loads, loaded, usoList_eq isolated.listed.represents, fun h member => ?_⟩
  obtain ⟨file, named, held⟩ := isolated.housed.held h member
  rw [← loads] at held
  exact ⟨file, named, HoldsFile.fetched held (unpadded _ _ named) (clean h member)⟩

/-! The library is opened where the instruction cache still has other code. -/

def staleCaches : CachedMemory 32 Byte := ⟨fun _ => 0, fun _ => none, fun _ => some 255⟩

def libraryOps : List (Op 32 Byte) :=
  .store libraryOpen.memory ::
    cacheOps (openActions (initialState (fun _ => 0) []) [] [108] (some libraryFile) libraryAlloc fun _ => none)

@[irreducible] def libraryCaches : CachedMemory 32 Byte := libraryOps.foldl CachedMemory.perform staleCaches

theorem executes_library : Executes libraryOps staleCaches libraryCaches := by
  unfold libraryCaches
  exact executes_foldl libraryOps staleCaches

theorem run_fetches_library : libraryCaches.loads = libraryOpen.memory ∧ ∃ loaded, usoList libraryOpen = .ok loaded ∧
    ∀ h ∈ loaded, ∃ file, sampleDisk h.2.name file ∧ HoldsFile file h.2 libraryCaches.fetches := by
  have opens : CachedStep sampleDisk ⟨initialState staleCaches.loads [], staleCaches⟩
      (.usoOpen [108] (some libraryFile) libraryAlloc) ⟨libraryOpen, libraryCaches⟩ :=
    @CachedStep.opened sampleDisk _ _ _ (some libraryAbi) _ _ _ _ _
      (fun own same => Option.some.inj same ▸ ⟨.inl rfl, libraryAlloc_fresh⟩)
      (usoOpenLogged_open (initialState_listed (fun _ => 0) []) rfl usoOpen_library fun _ => none) executes_library
  exact run_fetches (fun _ _ named => sampleDisk_unpadded named) (.next opens (.done _))

end DragonUso.CacheCoherence
