import DragonUso.ProducedFile
import DragonUso.Unloading

/-! Closing a USO without exports. The tool writes no table for an empty export list and only warns
about it; every other use of the table tests the pointer, the closeability test does not. -/

namespace DragonUso.CloseFaults
open ByteOrder WordMemory Format ToolCollect ToolWriter LoaderImage Relocation SymbolSearch Loader HandleList LoaderSteps
open RoundTrip ElfFile OpenBinding ProducedFile Unloading Runs

/-- The file is what the tool makes of some ELF. -/
def MadeByTool (file : Bytes) : Prop :=
  ∃ sort elf tool srcElfName, Produced sort elf tool srcElfName ∧ file = usoWrite tool srcElfName

theorem MadeByTool.loadable {file : Bytes} (made : MadeByTool file) : LoadableFile file := by
  obtain ⟨sort, elf, tool, srcElfName, produced, rfl⟩ := made
  exact produced.loadable

/-- A loaded USO has no export table exactly when its ELF exported nothing. -/
theorem fixedExports_eq_none {sort : SymSort} {elf : Elf} {tool : Elf2uso} {srcElfName : Bytes}
    (produced : Produced sort elf tool srcElfName) (base noload : U32) :
    fixedExports (usoImage (usoWrite tool srcElfName)) base noload = none ↔ tool.exportSyms = [] := by
  rw [fixedExports, Option.map_eq_none_iff, exports_usoWrite produced.writable]
  unfold present
  split
  next none => exact ⟨fun _ => List.map_eq_nil_iff.mp none, fun _ => rfl⟩
  next written =>
    refine ⟨fun absent => ?_, fun none => absurd (List.map_eq_nil_iff.mpr none) written⟩
    cases absent

/-- The USO has an export table, or the test finds no other USO to compare it with. -/
def Comparable (loaded : Registry) (handle : U32) (r : UsoRecord) : Prop :=
  r.uso.exportSyms ≠ none ∨ ∀ g ∈ loaded, g.1 = handle

theorem isUsoCloseable_ok {loaded : Registry} {handle : U32} {r : UsoRecord} (comparable : Comparable loaded handle r) :
    ∃ closeable, isUsoCloseable loaded handle r.uso = .ok closeable := by
  unfold isUsoCloseable
  cases table : r.uso.exportSyms with
  | none =>
    have alone := comparable.resolve_left (not_not_intro table)
    exact ⟨true, by rw [closeableAmong_none, if_pos alone]⟩
  | some symbols =>
    obtain ⟨closeable, tested, -⟩ := closeableAmong_some handle symbols loaded
    exact ⟨closeable, tested⟩

theorem isUsoCloseable_fault {loaded : Registry} {handle : U32} {r : UsoRecord}
    (incomparable : ¬ Comparable loaded handle r) : isUsoCloseable loaded handle r.uso = .error .nullExportTable := by
  have absent : r.uso.exportSyms = none := Decidable.not_not.mp fun table => incomparable (.inl table)
  have company : ¬ ∀ g ∈ loaded, g.1 = handle := fun alone => incomparable (.inr alone)
  rw [isUsoCloseable, absent, closeableAmong_none, if_neg company]

/-- What `uso_close` does with a valid handle, once the closeability test is known. -/
theorem usoClose_valid {st : LoaderState} {loaded : Registry} (listed : ListedState st loaded) {handle : U32}
    {r : UsoRecord} (member : (handle, r) ∈ loaded) :
    usoClose st handle =
      match isUsoCloseable loaded handle r.uso with
      | .error fault => .error fault
      | .ok closeable =>
        if closeable && closedCount r.refCount == 0 then
          unloadUso { st with heap := setRefCount st.heap handle (closedCount r.refCount) } handle r.uso
        else .ok { st with heap := setRefCount st.heap handle (closedCount r.refCount) } := by
  unfold usoClose
  simp only [usoList_eq listed.represents]
  cases found : loaded.find? fun h => h.1 == handle with
  | none =>
    have other := List.find?_eq_none.mp found _ member
    simp at other
  | some h =>
    have same : h.1 = handle := by simpa using List.find?_some found
    obtain rfl : h = (handle, r) :=
      listed.represents.unique (List.mem_of_find?_eq_some found) member same
    rfl

/-- Nothing but the test can fault: the sections `end_uso` reads are there. -/
theorem usoClose_returns_iff {st : LoaderState} {loaded : Registry} (listed : ListedState st loaded) {handle : U32}
    {r : UsoRecord} (member : (handle, r) ∈ loaded) (startable : StartableRecord r) :
    (∃ st', usoClose st handle = .ok st') ↔ Comparable loaded handle r := by
  rw [usoClose_valid listed member]
  constructor
  · rintro ⟨st', returned⟩
    apply Classical.byContradiction
    intro incomparable
    rw [isUsoCloseable_fault incomparable] at returned
    cases returned
  · intro comparable
    obtain ⟨closeable, tested⟩ := isUsoCloseable_ok comparable
    simp only [tested]
    split
    · obtain ⟨events, ended⟩ := startable.endUso st.memory handle
      unfold unloadUso
      simp only [ended]
      exact ⟨_, rfl⟩
    · exact ⟨_, rfl⟩

/-- After every run on files of the tool, closing a valid handle returns exactly when the USO has an
export table or is alone; otherwise the NULL table is followed. -/
theorem usoClose_safe_iff {memory : Memory} {globalSymFile : Bytes} {calls : List Call} {st : LoaderState}
    (run : Run (CallStep MadeByTool) (initialState memory globalSymFile) calls st) {loaded : Registry}
    (follows : usoList st = .ok loaded) {handle : U32} {r : UsoRecord} (member : (handle, r) ∈ loaded) :
    ((∃ st', usoClose st handle = .ok st') ↔ Comparable loaded handle r) ∧
    (usoClose st handle = .error .nullExportTable ↔ ¬ Comparable loaded handle r) := by
  obtain ⟨loaded', listed, startable⟩ := callRun_records (P := StartableRecord) (fun _ count own => own.uncounted count)
    (fun bytes made _ _ _ _ _ _ => made.loadable.record _ _ _ _ _ _) run
  obtain rfl := listed.represents.seen follows
  have returns := usoClose_returns_iff listed member (startable _ member)
  refine ⟨returns, fun fault comparable => ?_, fun incomparable => ?_⟩
  · obtain ⟨st', returned⟩ := returns.mpr comparable
    rw [fault] at returned
    cases returned
  · rw [usoClose_valid listed member, isUsoCloseable_fault incomparable]

/-! A program that imports `f` and exports nothing, loaded after the library. -/

def quietElf : Elf := sampleElf [nullSymbol, importedF] (by decide)

def quietTool : Elf2uso := sampleTool quietElf [importSymbol 1 importedF] []

def quietFile : Bytes := usoWrite quietTool [113]

theorem libraryFile_made : MadeByTool libraryFile :=
  ⟨nameSort, libraryElf, libraryTool, [108],
    sampleTool_produced (by decide +kernel) (by decide +kernel) (by decide) (by decide +kernel) (by decide +kernel), rfl⟩

theorem quietFile_made : MadeByTool quietFile :=
  ⟨nameSort, quietElf, quietTool, [113],
    sampleTool_produced (by decide +kernel) (by decide +kernel) (by decide) (by decide +kernel) (by decide +kernel), rfl⟩

@[irreducible] def quietOpen : LoaderState := afterOpen libraryOpen [113] quietFile programAlloc

def quietCalls : List Call :=
  [.usoOpen [108] (some libraryFile) libraryAlloc, .usoOpen [113] (some quietFile) programAlloc]

theorem quietOpen_run : Run (CallStep MadeByTool) (initialState (fun _ => 0) []) quietCalls quietOpen := by
  have library : CallStep MadeByTool (initialState (fun _ => 0) []) (.usoOpen [108] (some libraryFile) libraryAlloc)
      libraryOpen :=
    .opened (fun _ same => Option.some.inj same ▸ libraryFile_made) (fun _ _ => libraryAlloc_fresh.freshHandle)
      usoOpen_library
  have quiet : usoOpen libraryOpen [113] (some quietFile) programAlloc = .ok (quietOpen, 0x80110000) := by
    unfold quietOpen
    exact usoOpen_afterOpen (by decide +kernel)
  exact .next library (.next (.opened (fun _ same => Option.some.inj same ▸ quietFile_made)
    (fun _ _ => programAlloc_fresh.freshHandle) quiet) (.done _))

theorem usoClose_safe_iff_quiet :
    ∃ r, (0x80110000, r) ∈ loadedAt quietOpen ∧
      ((∃ st', usoClose quietOpen 0x80110000 = .ok st') ↔ Comparable (loadedAt quietOpen) 0x80110000 r) ∧
      (usoClose quietOpen 0x80110000 = .error .nullExportTable ↔ ¬ Comparable (loadedAt quietOpen) 0x80110000 r) := by
  have follows : usoList quietOpen = .ok (loadedAt quietOpen) := usoList_loadedAt (by decide +kernel)
  have present : ∃ h ∈ loadedAt quietOpen, h.1 = 0x80110000 := by decide +kernel
  obtain ⟨⟨handle, r⟩, member, rfl⟩ := present
  exact ⟨r, member, usoClose_safe_iff quietOpen_run follows member⟩

/-- The program's handle is valid, and closing it follows its NULL export table. -/
theorem usoClose_quiet_faults :
    Run (CallStep MadeByTool) (initialState (fun _ => 0) []) quietCalls quietOpen ∧
    usoIsHandleValid quietOpen 0x80110000 = .ok true ∧
    usoClose quietOpen 0x80110000 = .error .nullExportTable := by
  refine ⟨quietOpen_run, by decide +kernel, ?_⟩
  have fault : (usoClose quietOpen 0x80110000).map (fun _ => ()) = .error .nullExportTable := by decide +kernel
  cases closed : usoClose quietOpen 0x80110000 with
  | error other =>
    rw [closed] at fault
    exact congrArg Except.error (Except.error.inj fault)
  | ok st' =>
    rw [closed] at fault
    cases fault

end DragonUso.CloseFaults
