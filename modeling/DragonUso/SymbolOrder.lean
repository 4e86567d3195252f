import Mathlib.Data.List.Forall2
import DragonUso.Library.Reordering
import DragonUso.ElfLinking
import DragonUso.MakeUsoExterns

/-! The file `elf2uso` writes does not depend on the order of the ELF's symbols, nor on how
`std::sort` treats the table. The numbers of the symbols reach the file only through
`import_sym_map`, and this leads to positions that the names alone decide. -/

namespace DragonUso.SymbolOrder
open ByteOrder SparseFile Format ElfFile ToolCollect ToolWriter CollectedTables OpenBinding RelocBinding ElfLinking
open RelocSafety MakeUsoExterns ProducedFile Reordering

/-! ### Acceptance -/

/-- What `sym_collect` asks of a symbol. -/
structure Acceptable (outSectionMap : Nat → Option U16) (s : ElfSymbol) : Prop where
  fits : s.bind ≠ STB_LOCAL → s.name.length < 32767
  allowed : isImported s = true → symIsProhibitedImport s.name = false
  placed : isExported s = true → outSectionMap s.shndx.toNat = none → s.value ≠ 0

theorem collectSymbol_accepts (outSectionMap : Nat → Option U16) (i : Nat) (s : ElfSymbol) (tables : SymbolTables) :
    (∃ next, collectSymbol outSectionMap i s tables = .ok next) ↔ Acceptable outSectionMap s := by
  unfold collectSymbol
  by_cases isLocal : s.bind = STB_LOCAL
  · rw [if_pos isLocal]
    refine iff_of_true ⟨tables, rfl⟩ ⟨fun other => absurd isLocal other, ?_, ?_⟩ <;>
      simp [isImported, isExported, isLocal]
  rw [if_neg isLocal]
  by_cases long : 32767 ≤ s.name.length
  · rw [if_pos long]
    refine iff_of_false (by simp) fun acceptable => ?_
    have fits := acceptable.fits isLocal
    omega
  rw [if_neg long]
  have fits : s.bind ≠ STB_LOCAL → s.name.length < 32767 := fun _ => Nat.not_le.mp long
  by_cases undefined : s.shndx.toNat = SHN_UNDEF
  · have notExported : isExported s ≠ true := by simp [isExported, undefined]
    rw [if_pos undefined]
    cases prohibited : symIsProhibitedImport s.name with
    | true =>
      refine iff_of_false (by simp) fun acceptable => ?_
      have allowed := acceptable.allowed (by simp [isImported, isLocal, undefined])
      rw [prohibited] at allowed
      cases allowed
    | false => exact iff_of_true ⟨_, rfl⟩ ⟨fits, fun _ => prohibited, fun exported => absurd exported notExported⟩
  rw [if_neg undefined]
  have allowed : isImported s = true → symIsProhibitedImport s.name = false := by simp [isImported, undefined]
  by_cases visible : (symIsHideable s.name || s.other == STV_DEFAULT) = true
  · have exported : isExported s = true := by simp [isExported, isLocal, undefined, visible]
    rw [if_pos visible]
    cases place : outSectionMap s.shndx.toNat with
    | some k => exact iff_of_true ⟨_, rfl⟩ ⟨fits, allowed, fun _ missing => by simp [place] at missing⟩
    | none =>
      by_cases null : s.value = 0
      · simp only [if_pos null]
        exact iff_of_false (by simp) fun acceptable => acceptable.placed exported place null
      · simp only [if_neg null]
        exact iff_of_true ⟨_, rfl⟩ ⟨fits, allowed, fun _ _ => null⟩
  · rw [if_neg visible]
    exact iff_of_true ⟨tables, rfl⟩ ⟨fits, allowed, by simp [isExported, visible]⟩

theorem symCollectLoop_accepts {outSectionMap : Nat → Option U16} (symbols : List ElfSymbol) (i : Nat)
    (tables : SymbolTables) :
    (∃ result, symCollectLoop outSectionMap i symbols tables = .ok result) ↔
      ∀ s ∈ symbols, Acceptable outSectionMap s := by
  induction symbols generalizing i tables with
  | nil => simp [symCollectLoop]
  | cons s rest ih =>
    rw [List.forall_mem_cons, symCollectLoop]
    have one := collectSymbol_accepts outSectionMap i s tables
    cases collected : collectSymbol outSectionMap i s tables with
    | error reason =>
      rw [collected] at one
      simp only [reduceCtorEq, exists_false, false_iff] at one ⊢
      exact fun both => one both.1
    | ok next =>
      rw [collected] at one
      exact (ih (i + 1) next).trans (and_iff_right (one.mp ⟨next, rfl⟩)).symm

/-- An ELF is taken exactly when the file as a whole passes the three checks and each of its symbols
its own; the order of the symbols decides only which complaint comes first. -/
theorem elf2uso_accepts {sort : SymSort} {elf : Elf} :
    (∃ tool, elf2uso sort elf = .ok tool) ↔
      elfValid elf = true ∧ commonIsUsed elf = false ∧ checkGpRelativeRelocations elf = false ∧
        ∀ s ∈ elf.symbols, Acceptable (sectionCollect elf).outSectionMap s := by
  constructor
  · rintro ⟨tool, collected⟩
    have accepted := elf2uso_ok collected
    refine ⟨accepted.valid, accepted.noCommon, accepted.noGpRelative, ?_⟩
    rw [← symCollectLoop_accepts _ 0 { importSyms := [], exportSyms := [] }]
    unfold elf2uso symCollect at collected
    rw [if_neg (by simp [accepted.valid]), if_neg (by simp [accepted.noCommon]),
      if_neg (by simp [accepted.noGpRelative])] at collected
    cases pass : symCollectLoop (sectionCollect elf).outSectionMap 0 elf.symbols
        { importSyms := [], exportSyms := [] } with
    | ok result => exact ⟨result, rfl⟩
    | error reason => simp [pass] at collected
  · rintro ⟨valid, noCommon, noGpRelative, acceptable⟩
    obtain ⟨result, pass⟩ := (symCollectLoop_accepts elf.symbols 0 { importSyms := [], exportSyms := [] }).mpr acceptable
    unfold elf2uso symCollect
    rw [if_neg (by simp [valid]), if_neg (by simp [noCommon]), if_neg (by simp [noGpRelative])]
    simp only [pass]
    exact ⟨_, rfl⟩

/-! ### The other order -/

/-- A relocation of the same ELF after its symbols were renumbered. -/
structure SameReloc (order : Equiv.Perm ℕ) (r r' : ElfRelocation) : Prop where
  offset : r'.offset = r.offset
  type : r'.type = r.type
  symbol : r'.symbol = order r.symbol

/-- A section of the same ELF after its symbols were renumbered. Only sections that take memory need
the same contents: those of the symbol table and of the relocations are numbered anew. -/
structure SameSection (order : Equiv.Perm ℕ) (s s' : ElfSection) : Prop where
  name : s'.name = s.name
  type : s'.type = s.type
  flags : s'.flags = s.flags
  size : s'.size = s.size
  addrAlign : s'.addrAlign = s.addrAlign
  data : isAllocated s = true → s'.data = s.data
  relocations : List.Forall₂ (SameReloc order) s.relocations s'.relocations

/-- The same ELF with its symbols in another order. -/
structure SameElf (order : Equiv.Perm ℕ) (elf elf' : Elf) : Prop where
  elfClass : elf'.elfClass = elf.elfClass
  encoding : elf'.encoding = elf.encoding
  machine : elf'.machine = elf.machine
  type : elf'.type = elf.type
  symbols : Reordered order elf.symbols elf'.symbols
  sections : List.Forall₂ (SameSection order) elf.sections elf'.sections

/-- Imports are told apart by their names, and so are exports. -/
structure NamesApart (elf : Elf) : Prop where
  imports : ((elf.symbols.filter isImported).map fun s => s.name).Nodup
  exports : ((elf.symbols.filter isExported).map fun s => s.name).Nodup

section
variable {order : Equiv.Perm ℕ} {elf elf' : Elf}

theorem SameSection.allocated {s s' : ElfSection} (same : SameSection order s s') : isAllocated s' = isAllocated s := by
  rw [isAllocated, isAllocated, same.flags]

theorem any_same {α : Type} {R : α → α → Prop} {p : α → Bool} {l l' : List α} (same : List.Forall₂ R l l')
    (blind : ∀ a b, R a b → p b = p a) : l'.any p = l.any p := by
  induction same with
  | nil => rfl
  | cons first _ ih => rw [List.any_cons, List.any_cons, blind _ _ first, ih]

theorem findIdx?_same {p : ElfSection → Bool} {sections sections' : List ElfSection}
    (same : List.Forall₂ (SameSection order) sections sections')
    (blind : ∀ s s', SameSection order s s' → p s' = p s) : sections'.findIdx? p = sections.findIdx? p := by
  induction same with
  | nil => rfl
  | cons first _ ih => rw [List.findIdx?_cons, List.findIdx?_cons, blind _ _ first, ih]

theorem SameElf.findSection (same : SameElf order elf elf') (name : Bytes) :
    elfFindSection elf' name = elfFindSection elf name := by
  have found := findIdx?_same (p := fun s => s.name = name) (List.forall₂_drop 1 same.sections)
    fun s s' here => by simp only [here.name]
  rw [elfFindSection, elfFindSection, ElfFile.findSection, ElfFile.findSection, found]

/-- Section headers and contents are all that `section_collect` reads. -/
theorem SameElf.sectionData (same : SameElf order elf elf') {s s' : ElfSection} (here : SameSection order s s')
    (allocated : isAllocated s = true) : sectionData elf' s' = sectionData elf s := by
  have find := same.findSection (relPrefix ++ s.name)
  have data := here.data allocated
  obtain ⟨name, type, flags, size, addrAlign, -, -⟩ := here
  obtain ⟨⟩ := s
  obtain ⟨⟩ := s'
  simp only at name type flags size addrAlign data find
  subst name type flags size addrAlign data
  simp only [ToolCollect.sectionData, find]

theorem SameElf.sectionCollectLoop (same : SameElf order elf elf') {sections sections' : List ElfSection}
    (rest : List.Forall₂ (SameSection order) sections sections') (i : Nat) (tables : SectionTables) :
    sectionCollectLoop elf' i sections' tables = sectionCollectLoop elf i sections tables := by
  induction rest generalizing i tables with
  | nil => rfl
  | @cons s s' _ _ here _ ih =>
    have step : collectSection elf' tables i s' = collectSection elf tables i s := by
      unfold collectSection
      rw [here.allocated]
      split
      next allocated => rw [same.sectionData here allocated]
      next other => rfl
    rw [ToolCollect.sectionCollectLoop, ToolCollect.sectionCollectLoop, step]
    exact ih (i + 1) _

theorem SameElf.sectionCollect (same : SameElf order elf elf') : sectionCollect elf' = sectionCollect elf :=
  same.sectionCollectLoop (List.forall₂_drop 1 same.sections) 1 _

theorem SameElf.accepts (same : SameElf order elf elf') {sort : SymSort} (sort' : SymSort) {tool : Elf2uso}
    (collected : elf2uso sort elf = .ok tool) : ∃ tool', elf2uso sort' elf' = .ok tool' := by
  obtain ⟨valid, noCommon, noGpRelative, acceptable⟩ := elf2uso_accepts.mp ⟨tool, collected⟩
  have perm := same.symbols.perm
  refine elf2uso_accepts.mpr ⟨?_, ?_, ?_, ?_⟩
  · rw [elfValid] at valid ⊢
    rwa [same.findSection, same.elfClass, same.encoding, same.machine, same.type]
  · rw [commonIsUsed] at noCommon ⊢
    rwa [← perm.any_eq]
  · rw [checkGpRelativeRelocations] at noGpRelative ⊢
    rw [← noGpRelative]
    refine any_same same.sections fun s s' here => ?_
    rw [here.type, any_same here.relocations fun r r' reloc => by rw [reloc.type]]
  · rw [same.sectionCollect]
    exact fun s member => acceptable s (perm.mem_iff.mpr member)

/-! ### The tables -/

/-- What the writer sees of an entry. -/
def unnumbered (s : SymbolInfo) : SymbolInfo := { s with srcSymbol := 0 }

theorem collectFrom_unnumbered (keeps : ElfSymbol → Bool) {make : Nat → ElfSymbol → SymbolInfo}
    (blind : ∀ i s, unnumbered (make i s) = make 0 s) (i : Nat) (symbols : List ElfSymbol) :
    (collectFrom keeps make i symbols).map unnumbered = (symbols.filter keeps).map (make 0) := by
  induction symbols generalizing i with
  | nil => rfl
  | cons s rest ih =>
    rw [collectFrom, List.filter_cons]
    split
    · rw [List.map_cons, List.map_cons, ih, blind]
    · exact ih (i + 1)

theorem sorted_same {keeps : ElfSymbol → Bool} {make : Nat → ElfSymbol → SymbolInfo}
    (blind : ∀ i s, unnumbered (make i s) = make 0 s) (named : ∀ s, (make 0 s).name = s.name)
    (perm : elf.symbols.Perm elf'.symbols) (distinct : ((elf.symbols.filter keeps).map fun s => s.name).Nodup)
    (sort sort' : SymSort) :
    (sort.run (collectFrom keeps make 0 elf.symbols)).map unnumbered =
      (sort'.run (collectFrom keeps make 0 elf'.symbols)).map unnumbered := by
  have shown := collectFrom_unnumbered keeps blind 0 elf.symbols
  have shown' := collectFrom_unnumbered keeps blind 0 elf'.symbols
  have sorted := (sort.perm (collectFrom keeps make 0 elf.symbols)).map unnumbered
  have sorted' := (sort'.perm (collectFrom keeps make 0 elf'.symbols)).map unnumbered
  rw [shown] at sorted
  rw [shown'] at sorted'
  have names : (((elf.symbols.filter keeps).map (make 0)).map fun e => e.name).Nodup := by
    rw [List.map_map]
    exact (List.map_congr_left fun s _ => (named s).symm) ▸ distinct
  have antisymm (a b : Bytes) (ab : ¬ stringLess a b = true) (ba : ¬ stringLess b a = true) : a = b :=
    (stringLess_neither a b).mp ⟨Bool.eq_false_iff.mpr ab, Bool.eq_false_iff.mpr ba⟩
  refine map_eq_of_sorted (fun a b => stringLess a b = true) antisymm (fun e : SymbolInfo => e.name) unnumbered
    (sorted.trans (((perm.filter keeps).map (make 0)).trans sorted'.symm)) ?_ ?_ ?_
  · exact ((sorted.map _).nodup_iff).mpr names
  · exact (sort.sorted _).imp fun below => Bool.eq_false_iff.mp below
  · exact (sort'.sorted _).imp fun below => Bool.eq_false_iff.mp below

section
variable {sort sort' : SymSort} {tool tool' : Elf2uso}

theorem SameElf.outSectionMap (same : SameElf order elf elf') (accepted : Accepted sort elf tool)
    (accepted' : Accepted sort' elf' tool') : tool'.outSectionMap = tool.outSectionMap := by
  rw [accepted.outSectionMap, accepted'.outSectionMap, same.sectionCollect]

theorem SameElf.importSyms (same : SameElf order elf elf') (apart : NamesApart elf) (accepted : Accepted sort elf tool)
    (accepted' : Accepted sort' elf' tool') : tool'.importSyms.map unnumbered = tool.importSyms.map unnumbered := by
  rw [accepted.importSyms, accepted'.importSyms]
  exact (sorted_same (fun _ _ => rfl) (fun _ => rfl) same.symbols.perm apart.imports sort sort').symm

theorem SameElf.exportSyms (same : SameElf order elf elf') (apart : NamesApart elf) (accepted : Accepted sort elf tool)
    (accepted' : Accepted sort' elf' tool') : tool'.exportSyms.map unnumbered = tool.exportSyms.map unnumbered := by
  rw [accepted.exportSyms, accepted'.exportSyms, same.outSectionMap accepted accepted']
  exact (sorted_same (fun _ _ => rfl) (fun _ => rfl) same.symbols.perm apart.exports sort sort').symm

/-- The place of an import is the place of its name, whatever number its symbol has. -/
theorem SameElf.importSymMap (same : SameElf order elf elf') (apart : NamesApart elf) (accepted : Accepted sort elf tool)
    (accepted' : Accepted sort' elf' tool') {i : Nat} {s : ElfSymbol} (at_i : elf.symbols[i]? = some s) :
    tool'.importSymMap (order i) = tool.importSymMap i := by
  have at_i' : elf'.symbols[order i]? = some s := (same.symbols i).trans at_i
  cases imported : isImported s with
  | false => rw [accepted.importSymMap_none at_i imported, accepted'.importSymMap_none at_i' imported]
  | true =>
    obtain ⟨k, number, at_k⟩ := accepted.importSymMap_entry at_i imported
    obtain ⟨k', number', at_k'⟩ := accepted'.importSymMap_entry at_i' imported
    have shown : (tool.importSyms.map unnumbered)[k]? = some (importSymbol 0 s) := by
      rw [List.getElem?_map, at_k]
      rfl
    have shown' : (tool.importSyms.map unnumbered)[k']? = some (importSymbol 0 s) := by
      rw [← same.importSyms apart accepted accepted', List.getElem?_map, at_k']
      rfl
    have names : (tool.importSyms.map unnumbered).Nodup := by
      have distinct : (tool.importSyms.map fun e => e.name).Nodup := by
        rw [accepted.importSyms, ((sort.perm _).map _).nodup_iff, names_collectFrom (fun _ _ => rfl)]
        exact apart.imports
      have view : (tool.importSyms.map unnumbered).map (fun e => e.name) = tool.importSyms.map fun e => e.name := by
        rw [List.map_map]
        rfl
      exact List.Nodup.of_map _ (view ▸ distinct)
    obtain ⟨inside, here⟩ := List.getElem?_eq_some_iff.mp shown
    obtain ⟨inside', here'⟩ := List.getElem?_eq_some_iff.mp shown'
    rw [number, number', (names.getElem_inj_iff).mp (here'.trans here.symm)]

/-! ### The sections -/

theorem SameElf.definedEntry (same : SameElf order elf elf') (map : Nat → Option U16) {r r' : ElfRelocation}
    (reloc : SameReloc order r r') :
    definedEntry elf' map r' = definedEntry elf map r := by
  simp only [CollectedTables.definedEntry, packReloc, reloc.offset, reloc.type, reloc.symbol, same.symbols r.symbol]

theorem SameElf.undefinedEntry (same : SameElf order elf elf') (apart : NamesApart elf) (accepted : Accepted sort elf tool)
    (accepted' : Accepted sort' elf' tool') {r r' : ElfRelocation}
    (reloc : SameReloc order r r') :
    undefinedEntry elf' tool'.importSymMap r' = undefinedEntry elf tool.importSymMap r := by
  simp only [CollectedTables.undefinedEntry, packReloc, reloc.offset, reloc.type, reloc.symbol, same.symbols r.symbol]
  cases named : elf.symbols[r.symbol]? with
  | none => rfl
  | some s => simp only [same.importSymMap apart accepted accepted' named]

theorem filterMap_same {entry entry' : ElfRelocation → Option UsoReloc} {relocs relocs' : List ElfRelocation}
    (same : List.Forall₂ (SameReloc order) relocs relocs') (entries : ∀ r r', SameReloc order r r' → entry' r' = entry r) :
    relocs'.filterMap entry' = relocs.filterMap entry := by
  induction same with
  | nil => rfl
  | cons first _ ih => rw [List.filterMap_cons, List.filterMap_cons, entries _ _ first, ih]

theorem SameElf.relocsOf (same : SameElf order elf elf') (s : SectionInfo) :
    List.Forall₂ (SameReloc order) (relocsOf elf s) (relocsOf elf' s) := by
  unfold CollectedTables.relocsOf
  split
  · unfold relocationsOf
    have lengths := same.sections.length_eq
    cases here : elf.sections[s.relocElfSection]? with
    | none =>
      have outside : elf'.sections[s.relocElfSection]? = none := by
        rw [List.getElem?_eq_none_iff] at here ⊢
        omega
      rw [outside]
      exact .nil
    | some section_ =>
      obtain ⟨inside, rfl⟩ := List.getElem?_eq_some_iff.mp here
      rw [List.getElem?_eq_getElem (lengths ▸ inside)]
      exact (same.sections.get inside (lengths ▸ inside)).relocations
  · exact .nil

theorem SameElf.outSections (same : SameElf order elf elf') (apart : NamesApart elf) (accepted : Accepted sort elf tool)
    (accepted' : Accepted sort' elf' tool') : tool'.outSections = tool.outSections := by
  rw [accepted.outSections, accepted'.outSections, same.sectionCollect, same.outSectionMap accepted accepted']
  refine List.map_congr_left fun s _ => ?_
  rw [relocBuildSection_eq, relocBuildSection_eq,
    filterMap_same (same.relocsOf s) fun _ _ => same.definedEntry tool.outSectionMap,
    filterMap_same (same.relocsOf s) fun _ _ => same.undefinedEntry apart accepted accepted']

end

/-! ### The file -/

theorem symGetDataSizeLoop_unnumbered (syms : List SymbolInfo) (size : U32) :
    symGetDataSizeLoop (syms.map unnumbered) size = symGetDataSizeLoop syms size := by
  induction syms generalizing size with
  | nil => rfl
  | cons s rest ih => exact ih _

theorem writeSymbolLoop_unnumbered (ofs : U32) (syms : List SymbolInfo) (i : Nat) (nameOfs : U32) :
    writeSymbolLoop ofs i nameOfs (syms.map unnumbered) = writeSymbolLoop ofs i nameOfs syms := by
  induction syms generalizing i nameOfs with
  | nil => rfl
  | cons s rest ih =>
    rw [List.map_cons, writeSymbolLoop, writeSymbolLoop]
    exact congrArg (fun later => _ :: _ :: later) (ih (i + 1) (nextNameOfs nameOfs s))

/-- The numbers of the symbols are not written. -/
theorem writeOptionalTable_unnumbered (dataOfs : U32) (syms : List SymbolInfo) :
    writeOptionalTable dataOfs (syms.map unnumbered) = writeOptionalTable dataOfs syms := by
  unfold writeOptionalTable usoWriteSymbolTable symGetDataSize
  simp only [List.length_map, symGetDataSizeLoop_unnumbered, writeSymbolLoop_unnumbered]

theorem writeOptionalTable_same {syms syms' : List SymbolInfo} (same : syms'.map unnumbered = syms.map unnumbered)
    (dataOfs : U32) : writeOptionalTable dataOfs syms' = writeOptionalTable dataOfs syms := by
  rw [← writeOptionalTable_unnumbered dataOfs syms', same, writeOptionalTable_unnumbered]

/-- However the symbols of an ELF are numbered and whatever sort the tool is built with, it writes the
same file. -/
theorem elf2uso_orderBlind (same : SameElf order elf elf') (apart : NamesApart elf) {sort : SymSort} (sort' : SymSort)
    {tool : Elf2uso} (collected : elf2uso sort elf = .ok tool) :
    ∃ tool', elf2uso sort' elf' = .ok tool' ∧ ∀ srcElfName, usoWrite tool' srcElfName = usoWrite tool srcElfName := by
  obtain ⟨tool', collected'⟩ := same.accepts sort' collected
  have accepted := elf2uso_ok collected
  have accepted' := elf2uso_ok collected'
  refine ⟨tool', collected', fun srcElfName => ?_⟩
  have special (name : Bytes) : specialSection tool' name = specialSection tool name := by
    rw [specialSection, specialSection, same.outSectionMap accepted accepted', accepted.source, accepted'.source,
      same.findSection]
  have body : usoWriteBody tool' srcElfName = usoWriteBody tool srcElfName := by
    unfold usoWriteBody
    simp only [writeOptionalTable_same (same.importSyms apart accepted accepted'),
      writeOptionalTable_same (same.exportSyms apart accepted accepted'), same.outSections apart accepted accepted', special]
  rw [usoWrite, usoWrite, body, same.outSections apart accepted accepted']

end

/-! The sample with its import and its export in the other order. -/

def turnedElf : Elf :=
  relocatedElf [nullSymbol, exportedG, importedF] [⟨0, 0x205⟩, ⟨4, 0x206⟩] programElf.symbols_le (by decide)

theorem turnedElf_same : SameElf (Equiv.swap 1 2) addressElf turnedElf where
  elfClass := rfl
  encoding := rfl
  machine := rfl
  type := rfl
  symbols i := by
    match i with
    | 0 => rfl
    | 1 => rfl
    | 2 => rfl
    | i + 3 =>
      rw [Equiv.swap_apply_of_ne_of_ne (by omega) (by omega)]
      rfl
  sections := by
    have unmoved {s : ElfSection} (none : s.relocations = []) : SameSection (Equiv.swap 1 2) s s :=
      ⟨rfl, rfl, rfl, rfl, rfl, fun _ => rfl, by rw [none]; exact .nil⟩
    refine .cons (unmoved rfl) (.cons (unmoved rfl) (.cons ?_ (.cons ?_ .nil)))
    · exact ⟨rfl, rfl, rfl, rfl, rfl, fun _ => rfl, .nil⟩
    · exact ⟨rfl, rfl, rfl, rfl, rfl, fun _ => rfl, .cons ⟨rfl, rfl, rfl⟩ (.cons ⟨rfl, rfl, rfl⟩ .nil)⟩

theorem elf2uso_orderBlind_turned :
    ∃ tool, elf2uso nameSort turnedElf = .ok tool ∧ ∀ srcElfName, usoWrite tool srcElfName = usoWrite addressTool srcElfName :=
  elf2uso_orderBlind turnedElf_same ⟨by decide, by decide⟩ nameSort addressElf_produced.collected

end DragonUso.SymbolOrder
