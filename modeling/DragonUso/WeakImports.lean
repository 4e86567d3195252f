import DragonUso.ProducedFile

/-! Weak references from the ELF through the tool and the file to the loader's failure rule. The
tool compares a symbol's type with `STB_WEAK` where its binding is meant. -/

namespace DragonUso.WeakImports
open ByteOrder WordAlign Packing WordMemory Format ElfFile ToolCollect ToolWriter LoaderImage FileLayout RoundTrip
open NoloadLayout Relocation SymbolSearch Loader LoaderSteps OpenBinding CollectedTables ProducedFile

/-- The entry of an undefined symbol in the import table of the file. -/
def ImportEntry (tool : Elf2uso) (file : Bytes) (i : Nat) (entry : UsoSymbol) : Prop :=
  ∃ k, tool.importSymMap i = some k ∧ (fileImports file)[k]? = some entry

/-- Weak bits say what the ELF says, opening fails for strong references only, and a weak reference
that is not resolved is bound to NULL. -/
structure WeakSurvives (elf : Elf) (tool : Elf2uso) (file : Bytes) : Prop where
  bit : ∀ i s, elf.symbols[i]? = some s → isImported s = true →
    ∃ entry, ImportEntry tool file i entry ∧ entry.name = s.name ∧
      (usoIsSymbolWeak entry = true ↔ s.bind = STB_WEAK)
  refused : ∀ st loaded filename alloc, SoundState st loaded → NotLoaded loaded filename → Fresh st file alloc →
    ((∃ st', usoOpen st filename (some file) alloc = .ok (st', 0)) ↔
      ∃ s ∈ elf.symbols, isImported s = true ∧ s.bind ≠ STB_WEAK ∧ Unresolved loaded st.globalSyms s.name)
  null : ∀ st loaded filename alloc st' handle, SoundState st loaded → NotLoaded loaded filename → Fresh st file alloc →
    usoOpen st filename (some file) alloc = .ok (st', handle) → handle ≠ 0 →
    ∃ r, usoList st' = .ok (loaded ++ [(handle, r)]) ∧
      ∀ i s, elf.symbols[i]? = some s → isImported s = true → s.bind = STB_WEAK →
        Unresolved loaded st.globalSyms s.name →
        ∃ k entry, tool.importSymMap i = some k ∧ (entries r.uso.importSyms)[k]? = some entry ∧
          entry.name = s.name ∧ entry.ptr = 0

/-- Of the undefined symbols that are not local, just the weak ones have the type that is taken for weak. -/
def InStep (elf : Elf) : Prop :=
  ∀ s ∈ elf.symbols, isImported s = true → (s.type = STT_FUNC ↔ s.bind = STB_WEAK)

section
variable {sort : SymSort} {elf : Elf} {tool : Elf2uso} {srcElfName : Bytes}

theorem fileImports_usoWrite (produced : Produced sort elf tool srcElfName) :
    fileImports (usoWrite tool srcElfName) = tool.importSyms.map loadedSymbol := by
  unfold fileImports
  rw [imports_usoWrite produced.writable, entries_present]

theorem usoIsSymbolWeak_importSymbol (produced : Produced sort elf tool srcElfName) {i : Nat} {s : ElfSymbol}
    (at_i : elf.symbols[i]? = some s) (imported : isImported s = true) :
    usoIsSymbolWeak (loadedSymbol (importSymbol i s)) = (s.type == STB_WEAK) := by
  have member := produced.accepted.mem_importSyms.mpr ⟨i, s, at_i, imported, rfl⟩
  exact usoIsSymbolWeak_loadedSymbol (importSyms_fit produced.accepted _ member).2

/-- The entry written for an undefined symbol has its name, and is weak if the type is two. -/
theorem importEntry_usoWrite (produced : Produced sort elf tool srcElfName) {i : Nat} {s : ElfSymbol}
    (at_i : elf.symbols[i]? = some s) (imported : isImported s = true) :
    ImportEntry tool (usoWrite tool srcElfName) i (loadedSymbol (importSymbol i s)) := by
  obtain ⟨k, position, at_k⟩ := produced.accepted.importSymMap_entry at_i imported
  refine ⟨k, position, ?_⟩
  rw [fileImports_usoWrite produced, List.getElem?_map, at_k]
  rfl

/-- With types and bindings in step, the strong entries are the symbols that are not weak. -/
theorem missesStrong_usoWrite (produced : Produced sort elf tool srcElfName)
    (inStep : InStep elf) (st : LoaderState) (loaded : Registry) :
    MissesStrong st loaded (usoWrite tool srcElfName) ↔
      ∃ s ∈ elf.symbols, isImported s = true ∧ s.bind ≠ STB_WEAK ∧ Unresolved loaded st.globalSyms s.name := by
  have strong : ∀ i s, elf.symbols[i]? = some s → isImported s = true →
      (usoIsSymbolWeak (loadedSymbol (importSymbol i s)) = false ↔ s.bind ≠ STB_WEAK) := by
    intro i s at_i imported
    rw [usoIsSymbolWeak_importSymbol produced at_i imported, ne_eq,
      ← inStep s (List.mem_of_getElem? at_i) imported, beq_eq_false_iff_ne]
    rfl
  unfold MissesStrong
  rw [fileImports_usoWrite produced]
  constructor
  · rintro ⟨entry, member, weak, missing⟩
    obtain ⟨e, inTable, rfl⟩ := List.mem_map.mp member
    obtain ⟨i, s, at_i, imported, rfl⟩ := produced.accepted.mem_importSyms.mp inTable
    exact ⟨s, List.mem_of_getElem? at_i, imported, (strong i s at_i imported).mp weak, missing⟩
  · rintro ⟨s, member, imported, bound, missing⟩
    obtain ⟨i, at_i⟩ := List.mem_iff_getElem?.mp member
    have inTable := produced.accepted.mem_importSyms.mpr ⟨i, s, at_i, imported, rfl⟩
    exact ⟨_, List.mem_map_of_mem inTable, (strong i s at_i imported).mpr bound, missing⟩

/-- The pointer of an unresolved entry is NULL after a successful open. -/
theorem boundImports_null {st : LoaderState} {loaded : Registry} {file : Bytes} {r : UsoRecord}
    (bound : BoundImports st loaded file r) {k : Nat} {stored : UsoSymbol}
    (at_k : (fileImports file)[k]? = some stored) (missing : Unresolved loaded st.globalSyms stored.name) :
    ∃ entry, (entries r.uso.importSyms)[k]? = some entry ∧ entry.name = stored.name ∧ entry.ptr = 0 := by
  obtain ⟨entry, found, named, target⟩ := forall₂_getElem? bound at_k
  refine ⟨entry, found, named, ?_⟩
  rw [named] at target
  generalize entry.ptr = ptr at target ⊢
  cases target with
  | exported before after h _ split _ exported =>
    exact absurd exported (missing.loaded h (by simp [split]) _)
  | global _ _ exported => exact absurd exported (missing.globals _)
  | null _ => rfl

/-- With section alignments the tool supports, in a file below 2 GB, weak references survive exactly if, among
the undefined symbols that are not local, the type is `STT_FUNC` when and only when the binding is weak. -/
theorem weakSurvives_iff (collected : elf2uso sort elf = .ok tool)
    (aligned : ∀ s ∈ elf.sections, isAllocated s = true → IsPow2 s.addrAlign)
    (small : (usoWrite tool srcElfName).length + total (noloadShapes tool.outSections) < 2 ^ 31) :
    WeakSurvives elf tool (usoWrite tool srcElfName) ↔ InStep elf := by
  have produced : Produced sort elf tool srcElfName := ⟨collected, aligned, small⟩
  constructor
  · intro survives s member imported
    obtain ⟨i, at_i⟩ := List.mem_iff_getElem?.mp member
    obtain ⟨entry, ⟨k, position, found⟩, -, weak⟩ := survives.bit i s at_i imported
    obtain ⟨k', position', found'⟩ := importEntry_usoWrite produced at_i imported
    rw [position, Option.some.injEq] at position'
    subst k'
    rw [found, Option.some.injEq] at found'
    rw [← weak, found', usoIsSymbolWeak_importSymbol produced at_i imported, beq_iff_eq]
    rfl
  · intro inStep
    refine ⟨?_, ?_, ?_⟩
    · intro i s at_i imported
      refine ⟨_, importEntry_usoWrite produced at_i imported, rfl, ?_⟩
      rw [usoIsSymbolWeak_importSymbol produced at_i imported, ← inStep s (List.mem_of_getElem? at_i) imported,
        beq_iff_eq]
      rfl
    · intro st loaded filename alloc sound notLoaded fresh
      rw [(usoOpen_outcome sound notLoaded produced.loadable fresh).null_iff, missesStrong_usoWrite produced inStep]
    · intro st loaded filename alloc st' handle sound notLoaded fresh returned some
      obtain ⟨r, listed, -, -, bound⟩ :=
        (usoOpen_outcome sound notLoaded produced.loadable fresh).opened st' handle returned some
      refine ⟨r, listed, ?_⟩
      intro i s at_i imported _ missing
      obtain ⟨k, position, found⟩ := importEntry_usoWrite produced at_i imported
      obtain ⟨entry, at_k, named, null⟩ := boundImports_null bound found missing
      exact ⟨k, entry, position, at_k, named, null⟩

end

theorem programElf_produced : Produced nameSort programElf programTool [112] :=
  sampleTool_produced (by decide +kernel) (by decide +kernel) (by decide) (by decide +kernel) (by decide +kernel)

theorem weakSurvives_iff_programElf :
    WeakSurvives programElf programTool (usoWrite programTool [112]) ↔ InStep programElf :=
  weakSurvives_iff programElf_produced.collected programElf_produced.aligned programElf_produced.small

/-- A weak reference to `f`, of type `STT_NOTYPE` as assemblers write it. -/
def weakF : ElfSymbol := { importedF with info := 0x20 }

def weakElf : Elf := sampleElf [nullSymbol, weakF, exportedG] (by decide)

def weakTool : Elf2uso := sampleTool weakElf [importSymbol 1 weakF] [exportSymbol 2 exportedG 1]

/-! Code that asks for no alignment, which ELF allows. The offset of the code wraps to the start of the file,
where it is written over the symbol tables. -/

def wideCode : ElfSection :=
  { textSection with
    size := 60
    addrAlign := 0
    data := some (List.replicate 60 0)
    data_length := by simp }

theorem symtabSymbols_wide (symbols : List ElfSymbol) :
    symtabSymbols [nullSection, wideCode, symtabSection symbols] = symbols := rfl

theorem wideRelocations (symbols : List ElfSymbol) :
    ∀ s ∈ [nullSection, wideCode, symtabSection symbols], s.relocations = [] := by
  intro s member
  simp only [List.mem_cons, List.not_mem_nil, or_false] at member
  rcases member with rfl | rfl | rfl <;> rfl

def wideElf (symbols : List ElfSymbol) (symbols_le : symbols.length ≤ 2 ^ 24) : Elf :=
  { sampleElf symbols symbols_le with
    sections := [nullSection, wideCode, symtabSection symbols]
    sections_lt := by simp [SHN_LORESERVE]
    symbols_le := by rw [symtabSymbols_wide]; exact symbols_le
    relocations_named := by
      intro s member r listed
      rw [wideRelocations symbols s member] at listed
      exact absurd listed List.not_mem_nil }

def wideProgram : Elf := wideElf programElf.symbols programElf.symbols_le

def wideProgramTool : Elf2uso := sampleTool wideProgram [importSymbol 1 importedF] [exportSymbol 2 exportedG 1]

/-- The weak bit of the reference is lost. Without an alignment so is the entry of a reference that is in step. -/
theorem weakElf_fails :
    (Produced nameSort weakElf weakTool [119] ∧ ¬ WeakSurvives weakElf weakTool (usoWrite weakTool [119])) ∧
    elf2uso nameSort wideProgram = .ok wideProgramTool ∧ InStep wideProgram ∧
      ¬ WeakSurvives wideProgram wideProgramTool (usoWrite wideProgramTool [119]) := by
  have produced : Produced nameSort weakElf weakTool [119] :=
    sampleTool_produced (by decide +kernel) (by decide +kernel) (by decide) (by decide +kernel) (by decide +kernel)
  refine ⟨⟨produced, fun survives => ?_⟩,
    elf2uso_sampleTool (by decide +kernel) (by decide +kernel) (by decide) (by decide), by unfold InStep; decide,
    fun survives => ?_⟩
  · have undefined : isImported weakF = true := by decide
    obtain ⟨found, ⟨k, position, at_k⟩, -, weak⟩ := survives.bit 1 weakF rfl undefined
    obtain ⟨k', position', at_k'⟩ := importEntry_usoWrite produced (i := 1) (s := weakF) rfl undefined
    rw [position, Option.some.injEq] at position'
    rw [← position', at_k, Option.some.injEq] at at_k'
    rw [at_k', usoIsSymbolWeak_importSymbol produced (i := 1) rfl undefined] at weak
    exact absurd (weak.mpr (by decide)) (by decide)
  · obtain ⟨entry, ⟨k, -, at_k⟩, -⟩ := survives.bit 1 importedF rfl (by decide)
    have overwritten : fileImports (usoWrite wideProgramTool [119]) = [] := by decide +kernel
    rw [overwritten] at at_k
    cases at_k

end DragonUso.WeakImports
