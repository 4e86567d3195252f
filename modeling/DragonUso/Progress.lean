import DragonUso.CloseFaults
import DragonUso.ExportLookup
import DragonUso.Isolation
import DragonUso.ListConsistency

/-! The library never gets stuck. On files of the tool every call a program may make in a state that a
run has reached returns, whatever was opened, refused and closed before. -/

namespace DragonUso.Progress
open ByteOrder WordMemory Runs Format ElfFile ToolCollect ToolWriter LoaderImage RoundTrip Relocation SymbolSearch Loader
open HandleList LoaderSteps OpenBinding ListConsistency CollectedTables ProducedFile RelocSafety CloseFaults ExportLookup
open SectionPlacement ElfLinking Isolation

/-- The calls a program may make: it opens what is on the disk, or a name that is not, into memory that is
free, and closes handles that are valid. -/
inductive Legal (disk : Bytes → AbiFile → Prop) (st : LoaderState) : Call → Prop where
  | opened {filename : Bytes} {file : Option AbiFile} {alloc : Allocation} :
    (∀ own, file = some own → disk filename own ∧ Fresh st own.bytes alloc) →
    Legal disk st (.usoOpen filename (file.map AbiFile.bytes) alloc)
  | closed {handle : U32} : usoIsHandleValid st handle = .ok true → Legal disk st (.usoClose handle)

section
variable {st : LoaderState} {loaded : Registry}

/-- A load of a file that links returns, with NULL if some strong import is missing. -/
theorem loadUso_returns (listed : ListedState st loaded) (file : AbiFile) (filename : Bytes) {alloc : Allocation}
    (fresh : Fresh st file.bytes alloc) :
    ∃ st', loadUso st loaded filename file.bytes alloc =
      .ok (st', if importsResolved st loaded file.bytes then alloc.handle else 0) := by
  have loadable : LoadableFile file.bytes := file.produced.loadable
  rw [loadUso_eq loadable fresh]
  cases importsResolved st loaded file.bytes with
  | false => exact ⟨_, rfl⟩
  | true =>
    obtain ⟨linked, links⟩ : ∃ linked,
        linkUso (openedUso st loaded file.bytes alloc) (blockMemory st file.bytes alloc) = .ok linked :=
      ⟨_, linkUso_patches file.produced file.abi (resolve st loaded)
        (BlockGiven.fits file.produced (Fresh.blockGiven fresh)) _⟩
    have linking : Represents { st with memory := linked } loaded := listed.represents.congr rfl rfl rfl
    have record : StartableRecord (openedRecord st loaded filename file.bytes alloc) :=
      loadable.record _ _ _ _ _ _
    obtain ⟨next, events, added, -⟩ := addUso_ok linking fresh.handle_fresh fresh.handle_nonnull record
    simp only [links, ↓reduceIte, added]
    exact ⟨next, rfl⟩

theorem usoOpen_returns (listed : ListedState st loaded) (filename : Bytes) {file : Option AbiFile} {alloc : Allocation}
    (fresh : ∀ own, file = some own → Fresh st own.bytes alloc) :
    ∃ st' handle, usoOpen st filename (file.map AbiFile.bytes) alloc = .ok (st', handle) := by
  have initted : ¬ st.initted = false := by simp [listed.initted]
  unfold usoOpen
  simp only [if_neg initted, usoList_eq listed.represents]
  by_cases found : usoGetHandle loaded filename ≠ 0
  · obtain ⟨h, member, -, same⟩ := usoGetHandle_found found
    obtain ⟨d, stored, -⟩ := lookup_contents listed.represents member
    rw [same] at stored
    simp only [if_pos found, stored]
    exact ⟨_, _, rfl⟩
  · simp only [if_neg found]
    cases file with
    | none => exact ⟨_, _, rfl⟩
    | some own =>
      obtain ⟨st', returned⟩ := loadUso_returns listed own filename (fresh own rfl)
      exact ⟨st', _, returned⟩

end

/-- A USO loaded from a file has the sections its start and end look at. -/
theorem holdsFile_startable {file : AbiFile} {r : UsoRecord} {memory : Memory} (held : HoldsFile file r memory) :
    StartableRecord r := by
  obtain ⟨search, uso⟩ := held.uso
  have record := file.produced.loadable.record search r.block
    (getUsoNoloadStart (readLoadInfo (usoWrite file.tool file.srcElfName)) r.block) r.ramSize r.refCount r.name
  have same : fixedUso (usoImage (usoWrite file.tool file.srcElfName)) search r.block
      (getUsoNoloadStart (readLoadInfo (usoWrite file.tool file.srcElfName)) r.block) = r.uso := uso.symm
  rw [same] at record
  exact record

/-- It has an export table if its ELF exports anything. -/
theorem holdsFile_exporting {file : AbiFile} {r : UsoRecord} {memory : Memory} (held : HoldsFile file r memory)
    (exporting : ∃ s ∈ file.elf.symbols, isExported s = true) : r.uso.exportSyms ≠ none := by
  obtain ⟨search, uso⟩ := held.uso
  obtain ⟨s, member, exported⟩ := exporting
  obtain ⟨i, at_i⟩ := List.mem_iff_getElem?.mp member
  have inTable := file.produced.accepted.mem_exportSyms.mpr ⟨i, s, at_i, exported, rfl⟩
  rw [uso]
  intro absent
  have none := (fixedExports_eq_none file.produced r.block _).mp absent
  rw [none] at inTable
  exact absurd inTable List.not_mem_nil

/-- After every run over files of the tool that export something, each call a program may make returns,
so the run goes on, and so does every search for a symbol. -/
theorem run_progress {disk : Bytes → AbiFile → Prop}
    (exporting : ∀ name file, disk name file → ∃ s ∈ file.elf.symbols, isExported s = true) {memory : Memory}
    {globalSymFile : Bytes} {calls : List Call} {st : LoaderState}
    (run : Run (DiskStep disk) (initialState memory globalSymFile) calls st) :
    (∀ call, Legal disk st call → ∃ st', Run (DiskStep disk) (initialState memory globalSymFile) (calls ++ [call]) st') ∧
    ∀ handle name, handle = USO_HANDLE_ANY ∨ usoIsHandleValid st handle = .ok true →
      ∃ ptr, usoSym st handle name = .ok ptr := by
  obtain ⟨loaded, isolated⟩ := isolated_of_run run
  have listed := isolated.listed
  constructor
  · intro call legal
    have goes : ∃ st', DiskStep disk st call st' := by
      cases legal with
      | @opened filename file alloc found =>
        obtain ⟨st', handle, returned⟩ := usoOpen_returns listed filename fun own here => (found own here).2
        exact ⟨st', .opened found returned⟩
      | closed valid =>
        obtain ⟨h, member, rfl⟩ := List.mem_map.mp ((usoIsHandleValid_iff listed _).mp valid)
        obtain ⟨file, onDisk, held⟩ := isolated.housed.held h member
        have table := holdsFile_exporting held (exporting _ _ onDisk)
        obtain ⟨st', returned⟩ := (usoClose_returns_iff listed member (holdsFile_startable held)).mpr (.inl table)
        exact ⟨st', .closed returned⟩
    obtain ⟨st', step⟩ := goes
    exact ⟨st', run.append (.next step (.done st'))⟩
  · intro handle name known
    by_cases any : handle = USO_HANDLE_ANY
    · simp only [usoSym, usoList_eq listed.represents, if_pos any]
      exact ⟨_, rfl⟩
    · obtain ⟨h, member, rfl⟩ := List.mem_map.mp ((usoIsHandleValid_iff listed _).mp (known.resolve_left any))
      exact ⟨_, usoSym_handle listed.represents member any name⟩

theorem sampleDisk_exporting {name : Bytes} {file : AbiFile} (named : sampleDisk name file) :
    ∃ s ∈ file.elf.symbols, isExported s = true := by
  rcases named with library | address
  · obtain ⟨rfl, rfl⟩ := Prod.mk.inj library
    exact ⟨exportedF, by decide, by decide⟩
  · obtain ⟨rfl, rfl⟩ := Prod.mk.inj address
    exact ⟨exportedG, by decide, by decide⟩

theorem run_progress_addressOpen :
    (∀ call, Legal sampleDisk addressOpen call → ∃ st', Run (DiskStep sampleDisk) (initialState (fun _ => 0) [])
      ([.usoOpen [108] (some libraryFile) libraryAlloc, .usoOpen [97] (some addressAbi.bytes) programAlloc] ++ [call]) st') ∧
    ∀ handle name, handle = USO_HANDLE_ANY ∨ usoIsHandleValid addressOpen handle = .ok true →
      ∃ ptr, usoSym addressOpen handle name = .ok ptr :=
  run_progress (fun _ _ named => sampleDisk_exporting named) run_addressOpen

end DragonUso.Progress
