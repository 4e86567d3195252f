import DragonUso.Library.Regions
import DragonUso.ElfLinking

/-! Many USOs in one memory. Files come and go by `uso_open` and `uso_close`; the blocks of those that
are loaded never overlap, and each of them goes on holding the ELF it was made from, linked. -/

namespace DragonUso.Isolation
open ByteOrder WordMemory Regions Runs Format ElfFile ToolCollect ToolWriter LoaderImage WriterLayout FileLayout RoundTrip
open NoloadLayout Relocation Linking SymbolSearch Loader HandleList LoaderSteps OpenBinding ProducedFile RelocSafety
open SectionPlacement ElfLinking

/-! ### Files and runs -/

/-- A file of the tool, made from an ELF with relocations as the ABI has them. -/
structure AbiFile where
  sort : SymSort
  elf : Elf
  tool : Elf2uso
  srcElfName : Bytes
  produced : Produced sort elf tool srcElfName
  abi : AbiElf elf

def AbiFile.bytes (file : AbiFile) : Bytes := usoWrite file.tool file.srcElfName

/-- What is fresh for a file is a fresh handle for its contents. -/
theorem freshHandle_read {st : LoaderState} {file : Option AbiFile} {alloc : Allocation}
    (fresh : ∀ own, file = some own → Fresh st own.bytes alloc) :
    ∀ bytes, file.map AbiFile.bytes = some bytes → FreshHandle st alloc.handle := by
  intro bytes same
  obtain ⟨own, here, rfl⟩ := Option.map_eq_some_iff.mp same
  exact (fresh own here).freshHandle

/-- One call that returns. What an open finds is one of the files the disk has had under the name, and
the allocator hands out no memory that is in use. -/
inductive DiskStep (disk : Bytes → AbiFile → Prop) : LoaderState → Call → LoaderState → Prop where
  | opened {st st' : LoaderState} {filename : Bytes} {file : Option AbiFile} {alloc : Allocation} {handle : U32} :
    (∀ own, file = some own → disk filename own ∧ Fresh st own.bytes alloc) →
    usoOpen st filename (file.map AbiFile.bytes) alloc = .ok (st', handle) →
    DiskStep disk st (.usoOpen filename (file.map AbiFile.bytes) alloc) st'
  | closed {st st' : LoaderState} {handle : U32} :
    usoClose st handle = .ok st' → DiskStep disk st (.usoClose handle) st'

/-- The block of a record. -/
def blockOf (r : UsoRecord) : Region 32 := ⟨r.block, r.ramSize.toNat⟩

/-- A record of the file, in memory that holds its ELF linked. -/
structure HoldsFile (file : AbiFile) (r : UsoRecord) (memory : Memory) : Prop where
  uso : ∃ search, r.uso = loadedFile file.bytes search r.block
  ramSize : r.ramSize = getUsoRamSize (readLoadInfo file.bytes)
  given : BlockGiven file.bytes r.block
  linked : ContentsLinked file.elf file.tool r.uso memory
  cleared : NoPadding file.tool.outSections → Cleared file.elf file.tool r.uso memory

/-- What is expected of the memory of a loaded USO. -/
def HoldsElf (disk : Bytes → AbiFile → Prop) (h : U32 × UsoRecord) (memory : Memory) : Prop :=
  ∃ file, disk h.2.name file ∧ HoldsFile file h.2 memory

/-! ### The footprint of a USO -/

section
variable {sort : SymSort} {elf : Elf} {tool : Elf2uso} {srcElfName : Bytes} (search : Bytes → U32) {block : U32}

/-- A section of the ELF with contents lies in the image of the file. -/
theorem contents_inImage (produced : Produced sort elf tool srcElfName)
    (given : BlockGiven (usoWrite tool srcElfName) block) {index : Nat} {s : ElfSection} (kept : Kept elf index s)
    (contents : s.type ≠ SHT_NOBITS) {ofs : Nat} (inside : ofs < s.size.toNat) :
    (sectionAddress tool (loadedFile (usoWrite tool srcElfName) search block) index + BitVec.ofNat 32 ofs - block).toNat <
      (usoImage (usoWrite tool srcElfName)).length := by
  obtain ⟨k, sec, real, address, jobs⟩ := kept_section produced search (BlockGiven.fits produced given) kept
  have small := usoImage_lt produced.writable
  have within := ((jobs true).2.inside produced real contents (by omega)).2
  have value : (BitVec.ofNat 32 ofs).toNat = ofs := toNat_ofNat_small (by omega)
  rw [address, distance_add (by omega), value]
  omega

/-- A section without contents lies in the rest of the block. -/
theorem cleared_inBlock (produced : Produced sort elf tool srcElfName)
    (given : BlockGiven (usoWrite tool srcElfName) block) (unpadded : NoPadding tool.outSections) {index : Nat}
    {s : ElfSection} (kept : Kept elf index s) (noload : s.type = SHT_NOBITS) {ofs : Nat} (inside : ofs < s.size.toNat) :
    (sectionAddress tool (loadedFile (usoWrite tool srcElfName) search block) index + BitVec.ofNat 32 ofs - block).toNat <
      (getUsoRamSize (readLoadInfo (usoWrite tool srcElfName))).toNat := by
  have fits := BlockGiven.fits produced given
  have ends := given.ends
  obtain ⟨k, sec, real, address, jobs⟩ := kept_section produced search fits kept
  obtain ⟨j, rfl⟩ := Nat.exists_eq_succ_of_ne_zero real
  have at_job := (jobs true).2
  obtain ⟨absent, size⟩ := outSection_cleared elf tool noload
  obtain ⟨above, below⟩ := noload_inside produced unpadded given at_job.out absent at_job.found
  obtain ⟨sec', found, loaded⟩ := loadedAs_outSection produced fits search at_job.out
  obtain rfl : sec = sec' := Option.some.inj (at_job.found.symm.trans found)
  rw [loaded.size, size] at below
  have value : (BitVec.ofNat 32 ofs).toNat = ofs := toNat_ofNat_small (Nat.lt_trans inside s.size.isLt)
  rw [address]
  bv_omega

end

theorem AbiFile.block_fits (file : AbiFile) {block : U32} (given : BlockGiven file.bytes block) :
    block.toNat + (getUsoRamSize (readLoadInfo file.bytes)).toNat ≤ 2 ^ 32 := Nat.le_of_lt given.ends

/-- Memories hold the same file if they agree on its sections. -/
theorem HoldsFile.congr {file : AbiFile} {r : UsoRecord} {m m' : Memory} (held : HoldsFile file r m)
    (contents : ∀ index s ofs, Kept file.elf index s → s.type ≠ SHT_NOBITS → ofs < s.size.toNat →
      m' (sectionAddress file.tool r.uso index + BitVec.ofNat 32 ofs) =
        m (sectionAddress file.tool r.uso index + BitVec.ofNat 32 ofs))
    (noload : NoPadding file.tool.outSections → ∀ index s ofs, Kept file.elf index s → s.type = SHT_NOBITS →
      ofs < s.size.toNat → m' (sectionAddress file.tool r.uso index + BitVec.ofNat 32 ofs) =
        m (sectionAddress file.tool r.uso index + BitVec.ofNat 32 ofs)) : HoldsFile file r m' := by
  refine ⟨held.uso, held.ramSize, held.given, ?_, ?_⟩
  · intro index s bytes kept loaded data
    have before := held.linked index s bytes kept loaded data
    have size := s.data_length bytes data
    refine ⟨fun earlier reloc later split => ?_, fun ofs inside clear => ?_⟩
    · rw [← before.words earlier reloc later split]
      have member : reloc ∈ elfRelocs file.elf s := by rw [split]; simp
      have room := (file.abi index s kept).inside reloc member
      apply readWord_congr
      intro p inside
      have cell := contents index s
        (reloc.offset.toNat + (p - (sectionAddress file.tool r.uso index + reloc.offset)).toNat) kept loaded
        (by simp only [inWord, decide_eq_true_eq] at inside; bv_omega)
      have place : sectionAddress file.tool r.uso index +
          BitVec.ofNat 32 (reloc.offset.toNat + (p - (sectionAddress file.tool r.uso index + reloc.offset)).toNat) = p := by
        rw [BitVec.ofNat_add, BitVec.ofNat_toNat, BitVec.ofNat_toNat, BitVec.setWidth_eq, BitVec.setWidth_eq]
        bv_omega
      rwa [place] at cell
    · rw [contents index s ofs kept loaded (by omega)]
      exact before.others ofs inside clear
  · intro unpadded index s kept cleared ofs inside
    rw [noload unpadded index s ofs kept cleared inside]
    exact held.cleared unpadded index s kept cleared ofs inside

/-- What a record's memory is expected to hold is in its block. -/
theorem holdsElf_reads (disk : Bytes → AbiFile → Prop) (h : U32 × UsoRecord) : Reads (blockOf h.2) (HoldsElf disk h) := by
  rintro m m' agree ⟨file, named, held⟩
  obtain ⟨search, uso⟩ := held.uso
  have fits := file.block_fits held.given
  have room := file.produced.loadable.room
  have same : ∀ p, (p - h.2.block).toNat < (getUsoRamSize (readLoadInfo file.bytes)).toNat → m' p = m p := by
    intro p inside
    apply agree
    rw [Region.has_iff_distance (by rw [blockOf, held.ramSize]; exact fits), blockOf, held.ramSize]
    exact inside
  refine ⟨file, named, held.congr ?_ ?_⟩
  · intro index s ofs kept contents inside
    apply same
    have within := contents_inImage search file.produced held.given kept contents inside
    rw [uso]
    exact Nat.lt_of_lt_of_le within room
  · intro unpadded index s ofs kept noload inside
    apply same
    rw [uso]
    exact cleared_inBlock search file.produced held.given unpadded kept noload inside

/-! ### One call -/

/-- Reading a file in changes its own block only. -/
theorem loadBlock_changesOnly (file : AbiFile) (memory : Memory) {block : U32} (given : BlockGiven file.bytes block) :
    ChangesOnly ⟨block, (getUsoRamSize (readLoadInfo file.bytes)).toNat⟩ memory
      (loadBlock memory block (getUsoRamSize (readLoadInfo file.bytes)) (usoImage file.bytes)) := by
  intro p outside
  rw [Region.has_iff_distance (file.block_fits given)] at outside
  have room : (usoImage file.bytes).length ≤ (getUsoRamSize (readLoadInfo file.bytes)).toNat := file.produced.loadable.room
  simp only [Nat.not_lt] at outside
  rw [loadBlock, if_neg (by omega), if_neg (by rw [BitVec.lt_def]; omega)]

/-- So does linking it. -/
theorem linkUso_changesOnly (file : AbiFile) (search : Bytes → U32) {block : U32} (given : BlockGiven file.bytes block)
    {memory linked : Memory} (links : linkUso (loadedFile file.bytes search block) memory = .ok linked) :
    ChangesOnly ⟨block, (getUsoRamSize (readLoadInfo file.bytes)).toNat⟩ memory linked := by
  intro p outside
  rw [Region.has_iff_distance (file.block_fits given)] at outside
  have fits := BlockGiven.fits file.produced given
  have room : (usoImage file.bytes).length ≤ (getUsoRamSize (readLoadInfo file.bytes)).toNat := file.produced.loadable.room
  have patches := linkUso_patches file.produced file.abi search fits memory
  obtain rfl : linked = _ := Except.ok.inj (links.symm.trans patches)
  refine linked_outside file.produced search fits ?_
  intro job listed index s sec at_job r member
  apply Bool.eq_false_iff.mpr
  intro covered
  obtain ⟨-, -, within⟩ := target_inImage file.produced file.abi listed at_job member covered
  exact outside (Nat.lt_of_lt_of_le within room)

/-- A linked file is what its block is expected to hold. -/
theorem holdsFile_linked (file : AbiFile) (search : Bytes → U32) {block : U32} (given : BlockGiven file.bytes block)
    {memory linked : Memory} (links : linkUso (loadedFile file.bytes search block)
      (loadBlock memory block (getUsoRamSize (readLoadInfo file.bytes)) (usoImage file.bytes)) = .ok linked)
    (count : U32) (name : Bytes) :
    HoldsFile file
      { uso := loadedFile file.bytes search block
        block := block, ramSize := getUsoRamSize (readLoadInfo file.bytes), refCount := count, name := name } linked := by
  have fits := BlockGiven.fits file.produced given
  have patches := linkUso_patches file.produced file.abi search fits
    (loadBlock memory block (getUsoRamSize (readLoadInfo file.bytes)) (usoImage file.bytes))
  obtain rfl : linked = _ := Except.ok.inj (links.symm.trans patches)
  exact
    { uso := ⟨search, rfl⟩
      ramSize := rfl
      given := given
      linked := section_linked file.produced search fits file.abi (holdsImage_loadBlock _ _ _ _)
      cleared := fun unpadded => section_cleared file.produced file.abi search given unpadded memory }

theorem HoldsElf.uncounted {disk : Bytes → AbiFile → Prop} {handle count : U32} {r : UsoRecord} {memory : Memory} :
    HoldsElf disk (handle, { r with refCount := count }) memory ↔ HoldsElf disk (handle, r) memory := by
  constructor <;> rintro ⟨file, named, held⟩ <;>
    exact ⟨file, named, held.uso, held.ramSize, held.given, held.linked, held.cleared⟩

/-- The invariant: the blocks are apart, and each holds its ELF. -/
structure Isolated (disk : Bytes → AbiFile → Prop) (st : LoaderState) (loaded : Registry) : Prop where
  listed : ListedState st loaded
  housed : Housed (fun h => blockOf h.2) (HoldsElf disk) loaded st.memory

section
variable {disk : Bytes → AbiFile → Prop} {loaded : Registry} {memory : Memory}

theorem housed_withRefCount (housed : Housed (fun h => blockOf h.2) (HoldsElf disk) loaded memory) (handle count : U32) :
    Housed (fun h => blockOf h.2) (HoldsElf disk) (withRefCount loaded handle count) memory := by
  refine housed.map _ (fun h => ?_) (fun h m => ?_)
  · split <;> rfl
  · split
    next => exact HoldsElf.uncounted
    next => exact Iff.rfl

/-- A fresh block is apart from every block in the list. -/
theorem fresh_apart {st : LoaderState} (listed : ListedState st loaded) {bytes : Bytes} {alloc : Allocation}
    (fresh : Fresh st bytes alloc) {h : U32 × UsoRecord} (member : h ∈ loaded) :
    (blockOf h.2).Apart ⟨alloc.block, (getUsoRamSize (readLoadInfo bytes)).toNat⟩ := by
  obtain ⟨d, stored, contents⟩ := lookup_contents listed.represents member
  have apart := fresh.block_apart ⟨h.1, d⟩ (AList.mem_lookup_iff.mp stored)
  simp only [contents] at apart
  exact apart

/-- A call of `uso_open` changes memory in the block it is given only. -/
theorem open_changesOnly {st st' : LoaderState} (listed : ListedState st loaded) {filename : Bytes} {own : AbiFile}
    {alloc : Allocation} (fresh : Fresh st own.bytes alloc) {handle : U32} {loaded' : Registry}
    (result : OpenResult st loaded filename (some own.bytes) alloc st' handle loaded') :
    ChangesOnly ⟨alloc.block, (getUsoRamSize (readLoadInfo own.bytes)).toNat⟩ st.memory st'.memory := by
  have given := Fresh.blockGiven fresh
  cases result with
  | reopened => exact fun p _ => rfl
  | missing _ same => cases same
  | unresolved bytes notLoaded same missed =>
    obtain rfl := Option.some.inj same
    exact loadBlock_changesOnly own st.memory given
  | opened bytes linked next notLoaded same resolved links added =>
    obtain rfl := Option.some.inj same
    have linking : ListedState { st with memory := linked } loaded :=
      ⟨listed.represents.congr rfl rfl rfl, listed.initted⟩
    have memory : st'.memory = linked :=
      (addUso_returned linking ⟨fresh.handle_nonnull, fresh.handle_fresh⟩ added).2.2.1
    rw [memory]
    intro p outside
    have unlinked : blockMemory st own.bytes alloc p = st.memory p := loadBlock_changesOnly own st.memory given p outside
    exact (linkUso_changesOnly own (resolve st loaded) given links p outside).trans unlinked

end

theorem DiskStep.isolated {disk : Bytes → AbiFile → Prop} {st st' : LoaderState} {call : Call}
    (step : DiskStep disk st call st') (before : ∃ loaded, Isolated disk st loaded) :
    ∃ loaded', Isolated disk st' loaded' := by
  obtain ⟨loaded, listed, housed⟩ := before
  cases step with
  | @opened _ filename file alloc handle found returned =>
    have freshHandle := freshHandle_read fun own here => (found own here).2
    obtain ⟨loaded', result, listed'⟩ := usoOpen_result listed freshHandle returned
    refine ⟨loaded', listed', ?_⟩
    cases result with
    | reopened h member named same => exact housed_withRefCount housed _ _
    | missing => exact housed
    | unresolved bytes notLoaded same missed =>
      obtain ⟨own, here, rfl⟩ := Option.map_eq_some_iff.mp same
      obtain ⟨-, fresh⟩ := found own here
      exact housed.stores (fun h member => fresh_apart listed fresh member)
        (open_changesOnly listed fresh (.unresolved _ notLoaded rfl missed))
    | opened bytes linked next notLoaded same resolved links added =>
      obtain ⟨own, here, rfl⟩ := Option.map_eq_some_iff.mp same
      obtain ⟨named, fresh⟩ := found own here
      have change := open_changesOnly listed fresh (.opened _ linked st' notLoaded rfl resolved links added)
      have linking : ListedState { st with memory := linked } loaded :=
        ⟨listed.represents.congr rfl rfl rfl, listed.initted⟩
      have memory : st'.memory = linked :=
        (addUso_returned linking ⟨fresh.handle_nonnull, fresh.handle_fresh⟩ added).2.2.1
      refine housed.arrives (fun h member => fresh_apart listed fresh member) change (holdsElf_reads disk _) ?_
      rw [memory]
      exact ⟨own, named, holdsFile_linked own (resolve st loaded) (Fresh.blockGiven fresh) links _ _⟩
  | closed returned =>
    obtain ⟨loaded', result, listed'⟩ := usoClose_result listed returned
    refine ⟨loaded', listed', ?_⟩
    cases result with
    | kept r closeable member decides stays => exact housed_withRefCount housed _ _
    | unloaded r next member decides gone unloaded =>
      have memory : st'.memory = st.memory :=
        (unloadUso_returned (listed.setRefCount _ _) (mem_withRefCount_self member _) unloaded).2.2.1
      rw [memory]
      exact housed.leaves List.filter_sublist

theorem isolated_of_run {disk : Bytes → AbiFile → Prop} {memory : Memory} {globalSymFile : Bytes} {calls : List Call}
    {st : LoaderState} (run : Run (DiskStep disk) (initialState memory globalSymFile) calls st) :
    ∃ loaded, Isolated disk st loaded :=
  run.invariant (P := fun st => ∃ loaded, Isolated disk st loaded) (fun _ _ _ step before => step.isolated before)
    ⟨[], initialState_listed memory globalSymFile, Housed.nil⟩

/-- Whatever is opened and closed in whatever order, the blocks of the loaded USOs are apart, and each
holds a file the disk has had under its name, with its ELF linked at the addresses it was given. -/
theorem run_isolated {disk : Bytes → AbiFile → Prop} {memory : Memory} {globalSymFile : Bytes} {calls : List Call}
    {st : LoaderState} (run : Run (DiskStep disk) (initialState memory globalSymFile) calls st) :
    ∃ loaded, usoList st = .ok loaded ∧ (loaded.Pairwise fun g h => (blockOf g.2).Apart (blockOf h.2)) ∧
      ∀ h ∈ loaded, ∃ file, disk h.2.name file ∧ HoldsFile file h.2 st.memory := by
  obtain ⟨loaded, isolated⟩ := isolated_of_run run
  exact ⟨loaded, usoList_eq isolated.listed.represents, isolated.housed.apart, isolated.housed.held⟩

/-! The library that exports `f`, and then the sample that takes its address. -/

theorem libraryElf_abi : AbiElf libraryElf := by
  intro index s kept
  obtain ⟨real, at_index, allocated⟩ := kept
  have every : ∀ s ∈ libraryElf.sections, elfRelocs libraryElf s = [] := by decide
  have none := every s (List.mem_of_getElem? at_index)
  refine ⟨?_, ?_, ?_, ?_, ?_, ?_⟩ <;> rw [none]
  · exact fun r member => absurd member List.not_mem_nil
  · exact fun r member => absurd member List.not_mem_nil
  · exact fun r member => absurd member List.not_mem_nil
  · exact List.Pairwise.nil
  · exact fun before r later split => by simp at split
  · exact fun before r later lo bytes split => by simp at split

def libraryAbi : AbiFile where
  sort := nameSort
  elf := libraryElf
  tool := libraryTool
  srcElfName := [108]
  produced := sampleTool_produced (by decide +kernel) (by decide +kernel) (by decide) (by decide +kernel) (by decide +kernel)
  abi := libraryElf_abi

def addressAbi : AbiFile where
  sort := nameSort
  elf := addressElf
  tool := addressTool
  srcElfName := [97]
  produced := addressElf_produced
  abi := addressElf_abi

@[irreducible] def addressOpen : LoaderState := afterOpen libraryOpen [97] addressAbi.bytes programAlloc

theorem usoOpen_address : usoOpen libraryOpen [97] (some addressAbi.bytes) programAlloc = .ok (addressOpen, 0x80110000) := by
  unfold addressOpen
  exact usoOpen_afterOpen (by decide +kernel)

theorem programAlloc_freshAddress : Fresh libraryOpen addressAbi.bytes programAlloc where
  handle_nonnull := by decide
  handle_fresh := by decide +kernel
  block_nonnull := by decide
  block_aligned := by decide +kernel
  block_ends := by decide +kernel
  block_apart := by decide +kernel

/-- A disk with these two files. -/
def sampleDisk (name : Bytes) (file : AbiFile) : Prop := (name, file) = ([108], libraryAbi) ∨ (name, file) = ([97], addressAbi)

theorem run_addressOpen : Run (DiskStep sampleDisk) (initialState (fun _ => 0) [])
    [.usoOpen [108] (some libraryFile) libraryAlloc, .usoOpen [97] (some addressAbi.bytes) programAlloc] addressOpen := by
  have first : DiskStep sampleDisk (initialState (fun _ => 0) []) (.usoOpen [108] (some libraryFile) libraryAlloc) libraryOpen :=
    @DiskStep.opened sampleDisk _ _ _ (some libraryAbi) _ _
      (fun own same => Option.some.inj same ▸ ⟨.inl rfl, libraryAlloc_fresh⟩) usoOpen_library
  have second : DiskStep sampleDisk libraryOpen (.usoOpen [97] (some addressAbi.bytes) programAlloc) addressOpen :=
    @DiskStep.opened sampleDisk _ _ _ (some addressAbi) _ _
      (fun own same => Option.some.inj same ▸ ⟨.inr rfl, programAlloc_freshAddress⟩) usoOpen_address
  exact .next first (.next second (.done _))

theorem run_isolated_addressOpen :
    (loadedAt addressOpen).map Prod.fst = [0x80100000, 0x80110000] ∧ ∃ loaded, usoList addressOpen = .ok loaded ∧
      (loaded.Pairwise fun g h => (blockOf g.2).Apart (blockOf h.2)) ∧
      ∀ h ∈ loaded, ∃ file, sampleDisk h.2.name file ∧ HoldsFile file h.2 addressOpen.memory :=
  ⟨by decide +kernel, run_isolated run_addressOpen⟩

end DragonUso.Isolation
