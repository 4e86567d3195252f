import DragonUso.ExternClosure
import DragonUso.Loadability

/-! A whole build: the USO files, the script `make_uso_externs` writes of them, the main program linked with
the script, and its table of global symbols. A program built so can load all its files, unless some of
them wait for each other. -/

namespace DragonUso.BuildClosure
open ByteOrder WordMemory Runs Format ElfFile ToolCollect ToolWriter Relocation SymbolSearch Loader HandleList LoaderSteps
open OpenBinding CollectedTables ProducedFile MakeGlobalSyms GlobalTable MakeUsoExterns ExternClosure ExportLookup Isolation
open CrossLinking NameLinker NameRefinement LoadOrder Loadability

/-! ### The script -/

/-- The text of `EXTERN(%s)`. -/
def externText (name : Bytes) : Bytes := [69, 88, 84, 69, 82, 78, 40] ++ name ++ [41]

/-- The bytes of the file `write_uso_extern_list` leaves: a line for each name. -/
def writeUsoExternList (usoExternList : List Bytes) : Bytes := usoExternList.flatMap fun name => externText name ++ [10]

/-- `main` of `make_uso_externs`. -/
def makeUsoExternsFile (files : List Bytes) : Except ReadFailure Bytes :=
  match makeUsoExterns files with
  | .error failure => .error failure
  | .ok usoExternList => .ok (writeUsoExternList usoExternList)

def scriptLines (script : Bytes) : List Bytes := script.splitOn 10

/-- The lines are those of the list, if no name has a newline. -/
theorem scriptLines_write {externs : List Bytes} (oneLine : ∀ name ∈ externs, 10 ∉ name) :
    scriptLines (writeUsoExternList externs) = externs.map externText ++ [[]] := by
  induction externs with
  | nil => rfl
  | cons name rest ih =>
    obtain ⟨first, later⟩ := List.forall_mem_cons.mp oneLine
    have single : 10 ∉ externText name := by
      intro member
      rcases List.mem_append.mp member with before | last
      · rcases List.mem_append.mp before with start | own
        · exact absurd start (by decide)
        · exact first own
      · exact absurd last (by decide)
    have text : writeUsoExternList (name :: rest) = externText name ++ 10 :: writeUsoExternList rest := by
      simp [writeUsoExternList]
    rw [text, scriptLines, List.splitOn_append_cons_self, List.splitOn_eq_singleton single, ← scriptLines, ih later]
    rfl

theorem externText_injective {name other : Bytes} (same : externText name = externText other) : name = other :=
  List.append_cancel_left (List.append_cancel_right same)

/-- What is read off the script is what was listed. -/
theorem mem_scriptLines {externs : List Bytes} (oneLine : ∀ name ∈ externs, 10 ∉ name) {name : Bytes} :
    externText name ∈ scriptLines (writeUsoExternList externs) ↔ name ∈ externs := by
  rw [scriptLines_write oneLine, List.mem_append, List.mem_map]
  constructor
  · rintro (⟨other, listed, same⟩ | last)
    · rwa [← externText_injective same]
    · simp [externText] at last
  · exact fun listed => .inl ⟨name, listed, rfl⟩

/-- The main program is linked with the script: it has the symbol of each of its lines, as LD promises. -/
structure LinkedWithScript (elf : MainElf) (script : Bytes) : Prop where
  distinct : ((elf.symbols.filter fun s => s.bind != STB_LOCAL).map fun s => s.name).Nodup
  short : ∀ s ∈ elf.symbols, s.bind ≠ STB_LOCAL → s.name.length < 32767
  listed : ∀ name, externText name ∈ scriptLines script → name ∉ unexportedSymbols ∧
    ∃ s ∈ elf.symbols, s.name = name ∧ s.bind ≠ STB_LOCAL ∧ s.value ≠ 0

theorem LinkedWithScript.externs {elf : MainElf} {externs : List Bytes} (oneLine : ∀ name ∈ externs, 10 ∉ name)
    (linked : LinkedWithScript elf (writeUsoExternList externs)) : LinkedWith elf externs :=
  ⟨linked.distinct, linked.short, fun name inList => linked.listed name ((mem_scriptLines oneLine).mpr inList)⟩

/-! ### The build -/

/-- A file of the set under its path. -/
structure SetFile where
  path : Bytes
  file : AbiFile
  plain : PlainFile file
  named : ∀ s ∈ file.elf.symbols, s.bind ≠ STB_LOCAL → s.name ≠ [] ∧ 10 ∉ s.name

/-- The disk of a program has the set and the table of the symbols of a program that was linked with the script. -/
structure Built (set : List SetFile) (disk : Bytes → Option AbiFile) (globalSymFile : Bytes) : Prop where
  disk : ∀ path file, disk path = some file ↔ ∃ f ∈ set, f.path = path ∧ f.file = file
  program : ∃ script sort elf syms, makeUsoExternsFile (set.map fun f => f.file.bytes) = .ok script ∧
    makeGlobalSyms sort elf = .ok syms ∧ LinkedWithScript elf script ∧ globalSymFile = globalSymWrite syms.exportSymList
  small : globalSymFile.length < 2 ^ 31

def SetFile.uso (f : SetFile) : UsoFile where
  sort := f.file.sort
  elf := f.file.elf
  tool := f.file.tool
  srcElfName := f.file.srcElfName
  produced := f.file.produced
  importNames := by
    intro e member
    obtain ⟨i, s, at_i, imported, rfl⟩ := f.file.produced.accepted.mem_importSyms.mp member
    simp only [isImported, Bool.and_eq_true, bne_iff_ne] at imported
    exact (f.named s (List.mem_of_getElem? at_i) imported.1).1
  exportNames := by
    intro e member
    obtain ⟨i, s, at_i, exported, rfl⟩ := f.file.produced.accepted.mem_exportSyms.mp member
    simp only [isExported, Bool.and_eq_true, bne_iff_ne] at exported
    exact (f.named s (List.mem_of_getElem? at_i) exported.1.1).1
  imports := importSyms_distinct f.file.produced.accepted f.plain.distinct
  exports := exportSyms_distinct f.file.produced.accepted f.plain.distinct

section
variable {set : List SetFile} {disk : Bytes → Option AbiFile} {globalSymFile : Bytes}

theorem Built.plain (built : Built set disk globalSymFile) (path : Bytes) (file : AbiFile) (found : disk path = some file) :
    PlainFile file := by
  obtain ⟨f, -, -, rfl⟩ := (built.disk path file).mp found
  exact f.plain

theorem Built.face (built : Built set disk globalSymFile) {path : Bytes} {face : Interface Bytes}
    (found : faces disk path = some face) : ∃ f ∈ set, f.path = path ∧ elfInterface f.file.elf = face := by
  obtain ⟨file, onDisk, same⟩ := Option.map_eq_some_iff.mp found
  obtain ⟨f, member, named, rfl⟩ := (built.disk path file).mp onDisk
  exact ⟨f, member, named, same⟩

theorem Built.found (built : Built set disk globalSymFile) {f : SetFile} (member : f ∈ set) :
    disk f.path = some f.file := (built.disk f.path f.file).mpr ⟨f, member, rfl, rfl⟩

theorem Built.onDisk (built : Built set disk globalSymFile) {f : SetFile} (member : f ∈ set) :
    faces disk f.path = some (elfInterface f.file.elf) := by rw [faces, built.found member, Option.map_some]

theorem Built.exports (built : Built set disk globalSymFile) {f : SetFile} (member : f ∈ set) {symbol : Bytes}
    (listed : symbol ∈ (elfInterface f.file.elf).exports) : Exports (faces disk) f.path symbol :=
  ⟨elfInterface f.file.elf, built.onDisk member, listed⟩

/-- No listed name has a newline: it is the name of an import. -/
theorem externs_oneLine (set : List SetFile) :
    ∀ name ∈ generateUsoExternList ((set.map SetFile.uso).map UsoFile.info), 10 ∉ name := by
  intro name listed
  have ascend : ∀ info ∈ (set.map SetFile.uso).map UsoFile.info, NamesAscend info := by
    intro info member
    obtain ⟨own, -, rfl⟩ := List.mem_map.mp member
    exact own.ascend
  obtain ⟨i, info, at_i, ⟨read, inTable, rfl⟩, -⟩ := (mem_generateUsoExternList ascend).mp listed
  rw [List.map_map, List.getElem?_map] at at_i
  obtain ⟨f, -, rfl⟩ := Option.map_eq_some_iff.mp at_i
  obtain ⟨e, stored, rfl⟩ := List.mem_map.mp inTable
  obtain ⟨k, s, at_k, imported, rfl⟩ := f.file.produced.accepted.mem_importSyms.mp stored
  simp only [isImported, Bool.and_eq_true, bne_iff_ne] at imported
  exact (f.named s (List.mem_of_getElem? at_k) imported.1).2

/-- The build closes: a name that a file requires is exported by a file of the set. -/
theorem Built.supplied (built : Built set disk globalSymFile) :
    Supplied (faces disk) (globalNames (some (readGlobalSyms globalSymFile))) fun _ => True := by
  obtain ⟨script, sort, elf, syms, written, made, linked, rfl⟩ := built.program
  have small := built.small
  rintro path symbol - ⟨face, found, strong, notGlobal⟩
  obtain ⟨f, member, rfl, rfl⟩ := built.face found
  -- the script is that of the list
  have usos : (set.map fun f => f.file.bytes) = (set.map SetFile.uso).map UsoFile.bytes := by
    rw [List.map_map]
    rfl
  rw [makeUsoExternsFile, usos, makeUsoExterns_usos, Except.ok.injEq] at written
  rw [← written] at linked
  -- the symbol is in the import table of its file
  obtain ⟨s, inTable, same⟩ := List.mem_map.mp strong
  obtain ⟨rfl, -⟩ := Prod.mk.inj same
  obtain ⟨inElf, imported⟩ := List.mem_filter.mp inTable
  obtain ⟨k, at_k⟩ := List.mem_iff_getElem?.mp inElf
  have stored : importSymbol k s ∈ f.uso.tool.importSyms :=
    f.file.produced.accepted.mem_importSyms.mpr ⟨k, s, at_k, imported, rfl⟩
  obtain ⟨i, at_i⟩ := List.mem_iff_getElem?.mp member
  have place : (set.map SetFile.uso)[i]? = some f.uso := by rw [List.getElem?_map, at_i, Option.map_some]
  rcases provided_or_listed place stored with ⟨j, other, at_j, -, e, exported, named⟩ | listed
  · rw [List.getElem?_map] at at_j
    obtain ⟨g, at_g, rfl⟩ := Option.map_eq_some_iff.mp at_j
    have inSet := List.mem_of_getElem? at_g
    obtain ⟨n, t, at_n, exports, rfl⟩ := g.file.produced.accepted.mem_exportSyms.mp exported
    have name : t.name = s.name := named
    refine ⟨g.path, trivial, built.exports inSet ?_⟩
    exact List.mem_map.mpr ⟨t, List.mem_filter.mpr ⟨List.mem_of_getElem? at_n, exports⟩, name⟩
  · have pointer := globalTable_listed made small (linked.externs (externs_oneLine set)) listed
    rw [globalNames, bne_eq_false_iff_eq] at notGlobal
    exact absurd notGlobal pointer

end

/-- No file is missing that could be loaded if none is of those that are there. -/
theorem exhausted_everywhere {ν : Type} [DecidableEq ν] {disk : ν → Option (Interface ν)} {globals : ν → Bool}
    {table : List (Member ν)} {wanted : ν → Prop} (covers : ∀ name, (disk name).isSome → wanted name)
    (exhausted : Exhausted disk globals wanted table) : Exhausted disk globals (fun _ => True) table := by
  intro name _ loads
  apply Decidable.byContradiction
  intro absent
  refine absent (exhausted name (covers name ?_) loads)
  unfold load at loads
  rw [if_neg absent] at loads
  cases found : disk name with
  | none => simp [found] at loads
  | some face => rfl

/-- In a built program a file that cannot be loaded waits for a name that only such files have. Once each file of
the set was loaded or has just been refused, every file that is missing cannot do without a name that files of
the set export, none of which is loaded either; and if no files wait for each other in a circle, all are loaded. -/
theorem build_loads {set : List SetFile} {disk : Bytes → Option AbiFile} {globalSymFile : Bytes}
    (built : Built set disk globalSymFile) {memory : Memory} {calls : List (Request Bytes × Bool)} {st : LoaderState}
    (run : Run (Performs disk) (initialState memory globalSymFile) calls st) {loaded : Registry}
    (follows : usoList st = .ok loaded) (tried : Tried disk (fun path => ∃ f ∈ set, f.path = path) st loaded) :
    (∀ f ∈ set, usoGetHandle loaded f.path = 0 → ∃ symbol, (symbol, false) ∈ (elfInterface f.file.elf).imports ∧
      (∃ g ∈ set, symbol ∈ (elfInterface g.file.elf).exports) ∧
      ∀ g ∈ set, symbol ∈ (elfInterface g.file.elf).exports → usoGetHandle loaded g.path = 0) ∧
    (WellFounded (Supplies (faces disk) (globalNames (some (readGlobalSyms globalSymFile)))) →
      ∀ f ∈ set, usoGetHandle loaded f.path ≠ 0) := by
  obtain ⟨-, _, shown⟩ := runs_served built.plain run (initialState_shown disk memory globalSymFile)
  obtain rfl := shown.listed.represents.seen follows
  have covers : ∀ path, (faces disk path).isSome → ∃ f ∈ set, f.path = path := by
    intro path there
    obtain ⟨face, found⟩ := Option.isSome_iff_exists.mp there
    obtain ⟨f, member, named, -⟩ := built.face found
    exact ⟨f, member, named⟩
  have exhausted := exhausted_everywhere covers (exhausted_of_tried built.plain shown tried)
  have meaning : ∀ path, usoGetHandle loaded path ≠ 0 ↔
      Loadable (faces disk) (globalNames (some (readGlobalSyms globalSymFile))) (fun _ => True) path := by
    intro path
    rw [← shown.isLinked path]
    constructor
    · refine serve_loadable (fun r _ => ?_) .empty (fun _ none => absurd none Bool.false_ne_true) path
      cases r <;> trivial
    · exact linked_of_loadable shown.sound exhausted
  refine ⟨fun f member missing => ?_, fun acyclic f member => ?_⟩
  · have never := mt (meaning f.path).mpr (not_not.mpr missing)
    obtain ⟨symbol, ⟨face, found, strong, -⟩, ⟨other, -, face', found', exports⟩, stuck⟩ :=
      waits_of_not_loadable built.supplied trivial (Option.isSome_of_eq_some (built.onDisk member)) never
    rw [built.onDisk member, Option.some.injEq] at found
    obtain ⟨g, inSet, -, rfl⟩ := built.face found'
    refine ⟨symbol, found ▸ strong, ⟨g, inSet, exports⟩, fun g inSet exports => ?_⟩
    exact Decidable.not_not.mp (mt (meaning g.path).mp (stuck g.path (built.exports inSet exports)))
  · exact (meaning f.path).mpr
      (loadable_of_wellFounded built.supplied acyclic trivial (Option.isSome_of_eq_some (built.onDisk member)))

/-! The sample that takes the address of `f` and the library that exports it: there is nothing left for the
main program, and no circle. -/

def sampleSet : List SetFile :=
  [{ path := [108], file := libraryAbi, plain := sampleNames_plain [108] libraryAbi rfl, named := by decide },
    { path := [97], file := addressAbi, plain := sampleNames_plain [97] addressAbi rfl, named := by decide }]

theorem makeGlobalSyms_null (sort : SymSort) :
    makeGlobalSyms sort (mainElf [nullSymbol]) = .ok { exportSymList := [], reported := [] } := by
  have valid : mainElfValid (mainElf [nullSymbol]) = true := rfl
  have skipped : globalCollectLoop 0 (mainElf [nullSymbol]).symbols { exportSymList := [], reported := [] } =
      .ok { exportSymList := [], reported := [] } := rfl
  rw [makeGlobalSyms, if_neg (by simp [valid]), skipped]
  simp only [List.perm_nil.mp (sort.perm [])]

theorem sampleSet_built : Built sampleSet sampleNames (globalSymWrite []) where
  disk := by
    intro path file
    unfold sampleNames sampleSet
    split
    next library => simp [library]
    next other =>
      split
      next address => simp [address]
      next neither =>
        refine iff_of_false (Option.some_ne_none file).symm ?_
        rintro ⟨f, member, rfl, -⟩
        rcases List.mem_pair.mp member with rfl | rfl
        · exact other rfl
        · exact neither rfl
  program := by
    have written : makeUsoExternsFile (sampleSet.map fun f => f.file.bytes) = .ok [] := by decide +kernel
    refine ⟨[], nameSort, mainElf [nullSymbol], _, written, makeGlobalSyms_null nameSort, ⟨?_, ?_, ?_⟩, rfl⟩
    · exact List.nodup_nil
    · decide
    · intro name listed
      simp [scriptLines, externText] at listed
  small := by decide +kernel

theorem sampleSet_acyclic : WellFounded (Supplies (faces sampleNames) (globalNames (some (readGlobalSyms (globalSymWrite []))))) := by
  have before : ∀ other name, Supplies (faces sampleNames) (globalNames (some (readGlobalSyms (globalSymWrite [])))) other name →
      name = [97] ∧ other ≠ [97] := by
    rintro other name ⟨symbol, ⟨face, found, strong, -⟩, face', found', exports⟩
    obtain ⟨file, onDisk, rfl⟩ := Option.map_eq_some_iff.mp found
    rcases sampleNames_disk onDisk with library | address
    · obtain ⟨rfl, rfl⟩ := Prod.mk.inj library
      have none : (elfInterface libraryAbi.elf).imports = [] := by decide
      rw [none] at strong
      exact absurd strong List.not_mem_nil
    · obtain ⟨rfl, rfl⟩ := Prod.mk.inj address
      refine ⟨rfl, ?_⟩
      rintro rfl
      have own : (elfInterface addressAbi.elf).imports = [([102], false)] := by decide
      have exported : (elfInterface addressAbi.elf).exports = [[103]] := by decide
      rw [own, List.mem_singleton] at strong
      obtain rfl : elfInterface addressAbi.elf = face' := Option.some.inj found'
      rw [exported, List.mem_singleton, (Prod.mk.inj strong).1] at exports
      exact absurd exports (by decide)
  refine ⟨fun name => .intro name fun other supplies => .intro other fun third again => ?_⟩
  exact absurd (before third other again).1 (before other name supplies).2

theorem build_loads_sample : usoGetHandle (loadedAt addressOpen) [97] ≠ 0 := by
  have start : initialState (fun _ => 0) (globalSymWrite []) = initialState (fun _ => 0) [] := by
    have same : readGlobalSyms (globalSymWrite []) = readGlobalSyms [] := by decide +kernel
    simp only [initialState, usoInit, same]
  have run : Run (Performs sampleNames) (initialState (fun _ => 0) (globalSymWrite []))
      [(.load [108], true), (.load [97], true)] addressOpen := by
    rw [start]
    exact .next performs_library (.next performs_address (.done _))
  exact (build_loads sampleSet_built run (usoList_loadedAt (by decide +kernel)) (fun name _ => addressOpen_tried name trivial)).2
    sampleSet_acyclic _ (List.mem_pair.mpr (.inr rfl))

end DragonUso.BuildClosure
