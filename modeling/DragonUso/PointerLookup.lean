import DragonUso.ExportLookup
import DragonUso.Isolation

/-! From a pointer back to its USO. As the blocks of loaded USOs never overlap, a pointer into a
section has one owner, and the search through all sections of all USOs finds it. -/

namespace DragonUso.PointerLookup
open ByteOrder WordMemory Regions Runs Format ElfFile ToolCollect ToolWriter LoaderImage WriterLayout FileLayout RoundTrip
open NoloadLayout Relocation Linking SymbolSearch Loader HandleList LoaderSteps OpenBinding CollectedTables ProducedFile
open RelocSafety RelocBinding ExportLookup SectionPlacement ElfLinking Isolation

/-! ### The search -/

/-- The test for one section; a section that is not loaded has no data. -/
def isPtrInsideSection (s : LoadedSection) (ptr : U32) : Bool :=
  s.data != 0 && (s.data ≤ ptr && ptr < s.data + s.dataSize)

def isPtrInsideUso (uso : LoadedUso) (ptr : U32) : Bool := uso.sections.any fun s => isPtrInsideSection s ptr

/-- The first handle in the list whose USO has the pointer in a section, NULL if there is none. -/
def usoGetHandlePtr (st : LoaderState) (ptr : U32) : Except Fault U32 :=
  match usoList st with
  | .error fault => .error fault
  | .ok loaded =>
    match loaded.find? fun h => isPtrInsideUso h.2.uso ptr with
    | some h => .ok h.1
    | none => .ok 0

/-- The pointer is to a byte of a section of the ELF, where the loader has put it. -/
def PointsInSection (elf : Elf) (tool : Elf2uso) (uso : LoadedUso) (ptr : U32) : Prop :=
  ∃ index s ofs, Kept elf index s ∧ ofs < s.size.toNat ∧ ptr = sectionAddress tool uso index + BitVec.ofNat 32 ofs

/-! ### Where sections lie -/

section
variable {sort : SymSort} {elf : Elf} {tool : Elf2uso} {srcElfName : Bytes} {search : Bytes → U32} {block : U32}

/-- A section that is not empty lies in the block, past its start. -/
theorem section_inBlock (produced : Produced sort elf tool srcElfName)
    (given : BlockGiven (usoWrite tool srcElfName) block) (unpadded : NoPadding tool.outSections) {job : Nat × Bool}
    {index : Nat} {s : ElfSection} {sec : LoadedSection}
    (at_job : JobSection elf tool (loadedFile (usoWrite tool srcElfName) search block) job index s sec) (real : job.1 ≠ 0) :
    sec.dataSize = s.size ∧ (0 < s.size.toNat → 0 < sec.data.toNat ∧ block.toNat ≤ sec.data.toNat ∧
      sec.data.toNat + s.size.toNat ≤ block.toNat + (getUsoRamSize (readLoadInfo (usoWrite tool srcElfName))).toNat) := by
  have fits := BlockGiven.fits produced given
  have ends := given.ends
  have room := produced.loadable.room
  obtain ⟨sec', found, loaded⟩ := loadedAs_outSection produced fits search at_job.out
  obtain rfl : sec = sec' := Option.some.inj (at_job.found.symm.trans found)
  by_cases noload : s.type = SHT_NOBITS
  · obtain ⟨absent, size⟩ := outSection_cleared elf tool noload
    obtain ⟨j, place⟩ := Nat.exists_eq_succ_of_ne_zero real
    have out := at_job.out
    rw [place] at out found
    obtain ⟨above, below⟩ := noload_inside produced unpadded given out absent found
    have same : sec.dataSize = s.size := loaded.size.trans size
    have length := usoImage_length produced.writable
    have body := bodyLength_le produced.writable
    have low := produced.writable.offsets.imports
    have high := produced.writable.offsets.imports_le
    rw [same] at below
    exact ⟨same, fun _ => ⟨by omega, by omega, below⟩⟩
  · have same : sec.dataSize = s.size := loaded.size.trans (outSection_contents elf tool noload).2
    refine ⟨same, fun some => ?_⟩
    obtain ⟨low, high⟩ := at_job.inside produced real noload some
    bv_omega

/-- In memory a section is the interval the loader's test looks at. -/
theorem isPtrInsideSection_iff {s : ElfSection} {sec : LoadedSection} {limit : Nat} (same : sec.dataSize = s.size)
    (small : limit < 2 ^ 32)
    (place : 0 < s.size.toNat → 0 < sec.data.toNat ∧ block.toNat ≤ sec.data.toNat ∧ sec.data.toNat + s.size.toNat ≤ limit)
    (ptr : U32) :
    isPtrInsideSection sec ptr = true ↔ ∃ ofs, ofs < s.size.toNat ∧ ptr = sec.data + BitVec.ofNat 32 ofs := by
  unfold isPtrInsideSection
  rw [same]
  simp only [Bool.and_eq_true, bne_iff_ne, decide_eq_true_eq]
  constructor
  · rintro ⟨nonnull, low, high⟩
    refine ⟨(ptr - sec.data).toNat, ?_, ?_⟩
    · bv_omega
    · rw [BitVec.ofNat_toNat, BitVec.setWidth_eq]
      bv_omega
  · rintro ⟨ofs, inside, rfl⟩
    obtain ⟨positive, above, below⟩ := place (by omega)
    refine ⟨?_, ?_, ?_⟩ <;> bv_omega

/-- The loader's test for a USO, in terms of the ELF. -/
theorem isPtrInsideUso_iff (produced : Produced sort elf tool srcElfName)
    (given : BlockGiven (usoWrite tool srcElfName) block) (unpadded : NoPadding tool.outSections) (ptr : U32) :
    isPtrInsideUso (loadedFile (usoWrite tool srcElfName) search block) ptr = true ↔
      PointsInSection elf tool (loadedFile (usoWrite tool srcElfName) search block) ptr := by
  have fits := BlockGiven.fits produced given
  unfold isPtrInsideUso
  rw [List.any_eq_true]
  constructor
  · rintro ⟨sec, member, inside⟩
    obtain ⟨k, at_k⟩ := List.mem_iff_getElem?.mp member
    have bound := (List.getElem?_eq_some_iff.mp at_k).1
    have real : k ≠ 0 := by
      rintro rfl
      obtain ⟨dummy, found, loaded⟩ := loadedAs_outSection produced fits search produced.accepted.dummy
      obtain rfl : sec = dummy := Option.some.inj (at_k.symm.trans found)
      simp [isPtrInsideSection, loaded.dummy rfl] at inside
    obtain ⟨index, s, sec', at_job⟩ := job_section produced fits search
      (mem_linkOrder.mpr ⟨Nat.pos_of_ne_zero real, bound⟩ : (k, true) ∈ linkOrder _)
    obtain rfl : sec = sec' := Option.some.inj (at_k.symm.trans at_job.found)
    obtain ⟨same, place⟩ := section_inBlock produced given unpadded at_job real
    obtain ⟨ofs, small, here⟩ := (isPtrInsideSection_iff same given.ends place ptr).mp inside
    refine ⟨index, s, ofs, at_job.kept, small, ?_⟩
    have count := produced.writable.count
    rw [length_loadedFile produced] at bound
    rw [here, sectionAddress, sectionOf, at_job.place, Option.getD_some, BitVec.toNat_ofNat, Nat.mod_eq_of_lt (by omega)]
    simp only [at_k]
  · rintro ⟨index, s, ofs, kept, small, rfl⟩
    obtain ⟨k, sec, real, address, jobs⟩ := kept_section produced search fits kept
    obtain ⟨same, place⟩ := section_inBlock produced given unpadded (jobs true).2 real
    refine ⟨sec, List.mem_of_getElem? (jobs true).2.found, ?_⟩
    rw [address]
    exact (isPtrInsideSection_iff same given.ends place _).mpr ⟨ofs, small, rfl⟩

/-- A pointer into a section is a pointer into the block. -/
theorem PointsInSection.inBlock (produced : Produced sort elf tool srcElfName)
    (given : BlockGiven (usoWrite tool srcElfName) block) (unpadded : NoPadding tool.outSections) {ptr : U32}
    (points : PointsInSection elf tool (loadedFile (usoWrite tool srcElfName) search block) ptr) :
    Region.Has ⟨block, (getUsoRamSize (readLoadInfo (usoWrite tool srcElfName))).toNat⟩ ptr := by
  obtain ⟨index, s, ofs, kept, small, rfl⟩ := points
  have room := produced.loadable.room
  rw [Region.has_iff_distance (Nat.le_of_lt given.ends)]
  by_cases noload : s.type = SHT_NOBITS
  · exact cleared_inBlock search produced given unpadded kept noload small
  · exact Nat.lt_of_lt_of_le (contents_inImage search produced given kept noload small) room

end

/-! ### Owners -/

/-- The search stops at a handle if and only if the pointer is in its USO, when no pointer is in two. -/
theorem find?_owner {loaded : Registry} {inside : U32 × UsoRecord → Bool}
    (single : loaded.Pairwise fun g h => ¬ (inside g = true ∧ inside h = true)) {h : U32 × UsoRecord} (member : h ∈ loaded)
    (here : inside h = true) : loaded.find? inside = some h := by
  induction loaded with
  | nil => exact absurd member List.not_mem_nil
  | cons g rest ih =>
    obtain ⟨first, later⟩ := List.pairwise_cons.mp single
    rcases List.mem_cons.mp member with rfl | inRest
    · exact List.find?_cons_of_pos here
    · rw [List.find?_cons_of_neg fun other => first h inRest ⟨other, here⟩]
      exact ih later inRest

/-- What `uso_get_handle_ptr` knows about a loaded USO: the pointers into its sections are its own, and
so are the addresses `uso_sym` finds for the exports that lie in a section. -/
structure Owned (st : LoaderState) (h : U32 × UsoRecord) (file : AbiFile) : Prop where
  pointers : ∀ ptr, usoGetHandlePtr st ptr = .ok h.1 ↔ PointsInSection file.elf file.tool h.2.uso ptr
  exports : h.1 ≠ USO_HANDLE_ANY → ((file.elf.symbols.filter fun s => s.bind != STB_LOCAL).map fun s => s.name).Nodup →
    ∀ symbol ∈ file.elf.symbols, isExported symbol = true → ∀ s, Kept file.elf symbol.shndx.toNat s →
      symbol.value.toNat < s.size.toNat →
      ∃ ptr, usoSym st h.1 symbol.name = .ok ptr ∧ usoGetHandlePtr st ptr = .ok h.1

/-- A symbol of a section that is kept lies at its offset in that section. -/
theorem definedAt_kept {elf : Elf} {tool : Elf2uso} {file : Bytes} {uso : LoadedUso} {block address : U32}
    {symbol : ElfSymbol} {s : ElfSection} (kept : Kept elf symbol.shndx.toNat s)
    (at_address : DefinedAt elf tool file uso block symbol address) :
    address = sectionAddress tool uso symbol.shndx.toNat + BitVec.ofNat 32 symbol.value.toNat := by
  cases at_address with
  | loaded _ sec _ _ at_sec =>
    obtain ⟨k, place, found, -⟩ := at_sec.numbered
    rw [sectionAddress, sectionOf, place, BitVec.ofNat_toNat, BitVec.setWidth_eq]
    simp only [Option.getD_some, found]
  | absolute unloaded =>
    have allocated := kept.allocated
    rw [unloaded s kept.at_index] at allocated
    cases allocated

section
variable {disk : Bytes → AbiFile → Prop} {st : LoaderState} {loaded : Registry}

/-- The tests of loaded USOs, in terms of their ELFs. -/
theorem holdsFile_inside {file : AbiFile} {r : UsoRecord} {memory : Memory} (held : HoldsFile file r memory)
    (unpadded : NoPadding file.tool.outSections) (ptr : U32) :
    (isPtrInsideUso r.uso ptr = true ↔ PointsInSection file.elf file.tool r.uso ptr) ∧
      (isPtrInsideUso r.uso ptr = true → (blockOf r).Has ptr) := by
  obtain ⟨search, uso⟩ := held.uso
  have test : isPtrInsideUso (loadedFile file.bytes search r.block) ptr = true ↔ _ :=
    isPtrInsideUso_iff file.produced held.given unpadded ptr
  rw [uso]
  refine ⟨test, fun inside => ?_⟩
  rw [blockOf, held.ramSize]
  exact (test.mp inside).inBlock file.produced held.given unpadded

/-- No pointer is in two USOs. -/
theorem isolated_single (isolated : Isolated disk st loaded)
    (unpadded : ∀ name file, disk name file → NoPadding file.tool.outSections) (ptr : U32) :
    loaded.Pairwise fun g h => ¬ (isPtrInsideUso g.2.uso ptr = true ∧ isPtrInsideUso h.2.uso ptr = true) := by
  refine isolated.housed.apart.imp_of_mem fun {g h} member member' apart both => ?_
  obtain ⟨file, named, held⟩ := isolated.housed.held g member
  obtain ⟨file', named', held'⟩ := isolated.housed.held h member'
  have here := (holdsFile_inside held (unpadded _ _ named) ptr).2 both.1
  have there := (holdsFile_inside held' (unpadded _ _ named') ptr).2 both.2
  exact apart.outside here there

theorem usoGetHandlePtr_iff (isolated : Isolated disk st loaded)
    (unpadded : ∀ name file, disk name file → NoPadding file.tool.outSections) {h : U32 × UsoRecord} (member : h ∈ loaded)
    (ptr : U32) : usoGetHandlePtr st ptr = .ok h.1 ↔ isPtrInsideUso h.2.uso ptr = true := by
  have represents := isolated.listed.represents
  unfold usoGetHandlePtr
  simp only [usoList_eq represents]
  constructor
  · intro returned
    cases found : loaded.find? fun h => isPtrInsideUso h.2.uso ptr with
    | none =>
      rw [found, Except.ok.injEq] at returned
      exact absurd returned.symm (represents.nonnull member)
    | some g =>
      simp only [found, Except.ok.injEq] at returned
      have own : g = h := represents.unique (List.mem_of_find?_eq_some found) member returned
      have inside : isPtrInsideUso g.2.uso ptr = true :=
        List.find?_some (p := fun h : U32 × UsoRecord => isPtrInsideUso h.2.uso ptr) found
      rwa [own] at inside
  · intro inside
    rw [find?_owner (isolated_single isolated unpadded ptr) member inside]

theorem isolated_owned (isolated : Isolated disk st loaded)
    (unpadded : ∀ name file, disk name file → NoPadding file.tool.outSections) {h : U32 × UsoRecord} (member : h ∈ loaded)
    {file : AbiFile} (named : disk h.2.name file) (held : HoldsFile file h.2 st.memory) : Owned st h file := by
  have test := fun ptr => holdsFile_inside held (unpadded _ _ named) ptr
  refine ⟨fun ptr => (usoGetHandlePtr_iff isolated unpadded member ptr).trans (test ptr).1, ?_⟩
  intro single distinct symbol inTable exported s kept within
  obtain ⟨search, uso⟩ := held.uso
  have fits := BlockGiven.fits file.produced held.given
  obtain ⟨-, found, -⟩ := exportsFound_loadedFile ⟨file.produced, fits⟩ distinct search
  obtain ⟨address, at_address, searched⟩ := found symbol inTable exported
  refine ⟨address, ?_, ?_⟩
  · rw [usoSym_handle isolated.listed.represents member single, uso]
    exact congrArg Except.ok searched
  · rw [usoGetHandlePtr_iff isolated unpadded member, (test address).1]
    refine ⟨symbol.shndx.toNat, s, symbol.value.toNat, kept, within, ?_⟩
    rw [uso]
    exact definedAt_kept kept at_address

end

/-- Whatever is opened and closed, `uso_get_handle_ptr` answers with the USO that has the pointer in a
section of its ELF, of which there is at most one, and with NULL for every other pointer. -/
theorem run_pointers {disk : Bytes → AbiFile → Prop}
    (unpadded : ∀ name file, disk name file → NoPadding file.tool.outSections) {memory : Memory} {globalSymFile : Bytes}
    {calls : List Call} {st : LoaderState} (run : Run (DiskStep disk) (initialState memory globalSymFile) calls st) :
    ∃ loaded, usoList st = .ok loaded ∧
      (∀ ptr, ∃ owner, usoGetHandlePtr st ptr = .ok owner ∧ (owner = 0 ∨ owner ∈ loaded.map Prod.fst)) ∧
      ∀ h ∈ loaded, ∃ file, disk h.2.name file ∧ HoldsFile file h.2 st.memory ∧ Owned st h file := by
  obtain ⟨loaded, isolated⟩ := isolated_of_run run
  have listed := usoList_eq isolated.listed.represents
  refine ⟨loaded, listed, fun ptr => ?_, fun h member => ?_⟩
  · unfold usoGetHandlePtr
    simp only [listed]
    cases found : loaded.find? fun h => isPtrInsideUso h.2.uso ptr with
    | none => exact ⟨0, rfl, .inl rfl⟩
    | some h => exact ⟨h.1, rfl, .inr (List.mem_map_of_mem (List.mem_of_find?_eq_some found))⟩
  · obtain ⟨file, named, held⟩ := isolated.housed.held h member
    exact ⟨file, named, held, isolated_owned isolated unpadded member named held⟩

theorem sampleDisk_unpadded {name : Bytes} {file : AbiFile} (named : sampleDisk name file) :
    NoPadding file.tool.outSections := by
  have none : noloadShapes file.tool.outSections.tail = [] := by
    rcases named with library | address
    · obtain ⟨rfl, rfl⟩ := Prod.mk.inj library
      decide +kernel
    · obtain ⟨rfl, rfl⟩ := Prod.mk.inj address
      decide +kernel
  intro i s at_i
  rw [none] at at_i
  simp at at_i

theorem run_pointers_addressOpen : ∃ loaded, usoList addressOpen = .ok loaded ∧
    (∀ ptr, ∃ owner, usoGetHandlePtr addressOpen ptr = .ok owner ∧ (owner = 0 ∨ owner ∈ loaded.map Prod.fst)) ∧
    ∀ h ∈ loaded, ∃ file, sampleDisk h.2.name file ∧ HoldsFile file h.2 addressOpen.memory ∧ Owned addressOpen h file :=
  run_pointers (fun _ _ named => sampleDisk_unpadded named) run_addressOpen

end DragonUso.PointerLookup
