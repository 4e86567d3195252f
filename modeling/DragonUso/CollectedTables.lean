import DragonUso.ToolCollect

/-! What the collecting loops of `elf2uso` leave behind: which ELF section became which output
section, which symbols are imported and exported, where each import ended up after the sort, and
which relocation became which entry. -/

namespace DragonUso.CollectedTables
open ByteOrder Format ElfFile ToolCollect

/-! ### Sections -/

/-- The tables after the ELF sections below `i`: section 0 is the dummy, the map leads from every
allocated section to its own output section, and every other output section comes from one. -/
structure SectionsBelow (elf : Elf) (i : Nat) (tables : SectionTables) : Prop where
  dummy : tables.outSections[0]? = some dummySection
  count : tables.outSections.length ≤ i
  null : tables.outSectionMap SHN_UNDEF = some 0
  mapped : ∀ index k, index ≠ SHN_UNDEF → tables.outSectionMap index = some k →
    index < i ∧ k ≠ 0 ∧ ∃ s, elf.sections[index]? = some s ∧ isAllocated s = true ∧
      tables.outSections[k.toNat]? = some (sectionData elf s)
  injective : ∀ index other k, index ≠ SHN_UNDEF → other ≠ SHN_UNDEF → tables.outSectionMap index = some k →
    tables.outSectionMap other = some k → index = other
  allocated : ∀ index s, index ≠ SHN_UNDEF → index < i → elf.sections[index]? = some s → isAllocated s = true →
    ∃ k, tables.outSectionMap index = some k
  source : ∀ k info, k ≠ 0 → tables.outSections[k]? = some info →
    ∃ index s, index ≠ SHN_UNDEF ∧ elf.sections[index]? = some s ∧ isAllocated s = true ∧ info = sectionData elf s ∧
      tables.outSectionMap index = some (BitVec.ofNat 16 k)

theorem collectSection_skipped {elf : Elf} {tables : SectionTables} {i : Nat} {s : ElfSection}
    (skipped : isAllocated s = false) : collectSection elf tables i s = tables := by
  simp [collectSection, skipped]

theorem collectSection_outSections {elf : Elf} {tables : SectionTables} {i : Nat} {s : ElfSection}
    (kept : isAllocated s = true) :
    (collectSection elf tables i s).outSections = tables.outSections ++ [sectionData elf s] := by
  simp [collectSection, kept]

theorem collectSection_outSectionMap {elf : Elf} {tables : SectionTables} {i : Nat} {s : ElfSection}
    (kept : isAllocated s = true) (index : Nat) :
    (collectSection elf tables i s).outSectionMap index =
      if index = i then some (BitVec.ofNat 16 tables.outSections.length) else tables.outSectionMap index := by
  simp [collectSection, kept, Function.update_apply]

theorem SectionsBelow.skipped {elf : Elf} {i : Nat} {tables : SectionTables} (below : SectionsBelow elf i tables)
    {s : ElfSection} (at_i : elf.sections[i]? = some s) (skipped : isAllocated s = false) :
    SectionsBelow elf (i + 1) (collectSection elf tables i s) := by
  have count := below.count
  rw [collectSection_skipped skipped]
  refine { below with count := by omega, mapped := ?_, allocated := ?_ }
  · intro index k real found
    obtain ⟨before, rest⟩ := below.mapped index k real found
    exact ⟨by omega, rest⟩
  · intro index t real bounded at_index allocated
    rcases Nat.lt_succ_iff_lt_or_eq.mp bounded with before | rfl
    · exact below.allocated index t real before at_index allocated
    · rw [at_i, Option.some.injEq] at at_index
      rw [← at_index, skipped] at allocated
      exact absurd allocated (by simp)

/-- The new number is above all numbers given so far. -/
theorem SectionsBelow.number_new {elf : Elf} {i : Nat} {tables : SectionTables} (below : SectionsBelow elf i tables)
    (small : tables.outSections.length < 2 ^ 16) {index : Nat} (real : index ≠ SHN_UNDEF) :
    tables.outSectionMap index ≠ some (BitVec.ofNat 16 tables.outSections.length) := by
  intro found
  obtain ⟨-, -, t, -, -, stored⟩ := below.mapped index _ real found
  have inside := (List.getElem?_eq_some_iff.mp stored).1
  rw [BitVec.toNat_ofNat, Nat.mod_eq_of_lt small] at inside
  omega

theorem SectionsBelow.collected {elf : Elf} {i : Nat} {tables : SectionTables} (below : SectionsBelow elf i tables)
    (positive : 0 < i) {s : ElfSection} (at_i : elf.sections[i]? = some s) (kept : isAllocated s = true) :
    SectionsBelow elf (i + 1) (collectSection elf tables i s) := by
  have reserved : SHN_LORESERVE = 65280 := rfl
  have undefined : SHN_UNDEF = 0 := rfl
  have bound := (List.getElem?_eq_some_iff.mp at_i).1
  have few := elf.sections_lt
  have count := below.count
  have place : (BitVec.ofNat 16 tables.outSections.length).toNat = tables.outSections.length := by
    rw [BitVec.toNat_ofNat, Nat.mod_eq_of_lt (by omega)]
  have old : ∀ (k : Nat) info, tables.outSections[k]? = some info →
      (tables.outSections ++ [sectionData elf s])[k]? = some info := by
    intro k info found
    rw [List.getElem?_append_left (List.getElem?_eq_some_iff.mp found).1, found]
  have new : (tables.outSections ++ [sectionData elf s])[tables.outSections.length]? = some (sectionData elf s) :=
    List.getElem?_concat_length
  have present := (List.getElem?_eq_some_iff.mp below.dummy).1
  refine
    { dummy := by rw [collectSection_outSections kept]; exact old _ _ below.dummy
      count := by rw [collectSection_outSections kept, List.length_append, List.length_singleton]; omega
      null := by rw [collectSection_outSectionMap kept, if_neg (by omega), below.null]
      mapped := ?_
      injective := ?_
      allocated := ?_
      source := ?_ }
  · intro index k real found
    rw [collectSection_outSectionMap kept] at found
    rw [collectSection_outSections kept]
    by_cases same : index = i
    · subst same
      rw [if_pos rfl, Option.some.injEq] at found
      subst found
      refine ⟨by omega, ?_, s, at_i, kept, by rw [place]; exact new⟩
      intro zero
      rw [zero] at place
      have none : (0 : U16).toNat = 0 := rfl
      omega
    · rw [if_neg same] at found
      obtain ⟨before, nonzero, t, at_index, allocated, stored⟩ := below.mapped index k real found
      exact ⟨by omega, nonzero, t, at_index, allocated, old _ _ stored⟩
  · intro index other k real real' found found'
    rw [collectSection_outSectionMap kept] at found found'
    by_cases same : index = i <;> by_cases same' : other = i
    · rw [same, same']
    · rw [if_pos same, Option.some.injEq] at found
      rw [if_neg same', ← found] at found'
      exact absurd found' (below.number_new (by omega) real')
    · rw [if_pos same', Option.some.injEq] at found'
      rw [if_neg same, ← found'] at found
      exact absurd found (below.number_new (by omega) real)
    · rw [if_neg same] at found
      rw [if_neg same'] at found'
      exact below.injective index other k real real' found found'
  · intro index t real bounded at_index allocated
    rw [collectSection_outSectionMap kept]
    by_cases same : index = i
    · exact ⟨_, if_pos same⟩
    · rw [if_neg same]
      exact below.allocated index t real (by omega) at_index allocated
  · intro k info nonzero found
    rw [collectSection_outSections kept] at found
    simp only [collectSection_outSectionMap kept]
    rcases Nat.lt_or_ge k tables.outSections.length with before | after
    · rw [List.getElem?_append_left before] at found
      obtain ⟨index, t, real, at_index, allocated, same, mapped⟩ := below.source k info nonzero found
      have earlier := (below.mapped index _ real mapped).1
      exact ⟨index, t, real, at_index, allocated, same, by rw [if_neg (by omega), mapped]⟩
    · have last : k = tables.outSections.length := by
        have inside := (List.getElem?_eq_some_iff.mp found).1
        rw [List.length_append, List.length_singleton] at inside
        omega
      subst last
      rw [new, Option.some.injEq] at found
      exact ⟨i, s, by omega, at_i, kept, found.symm, if_pos rfl⟩

theorem SectionsBelow.step {elf : Elf} {i : Nat} {tables : SectionTables} (below : SectionsBelow elf i tables)
    (positive : 0 < i) {s : ElfSection} (at_i : elf.sections[i]? = some s) :
    SectionsBelow elf (i + 1) (collectSection elf tables i s) := by
  cases kept : isAllocated s with
  | false => exact below.skipped at_i kept
  | true => exact below.collected positive at_i kept

theorem sectionCollectLoop_below {elf : Elf} (rest : List ElfSection) (i : Nat) (tables : SectionTables)
    (positive : 0 < i) (suffix : elf.sections.drop i = rest) (below : SectionsBelow elf i tables) :
    SectionsBelow elf (i + rest.length) (sectionCollectLoop elf i rest tables) := by
  induction rest generalizing i tables with
  | nil => exact below
  | cons s later ih =>
    have at_i : elf.sections[i]? = some s := by
      rw [← List.head?_drop, suffix, List.head?_cons]
    have next := ih (i + 1) (collectSection elf tables i s) (by omega)
      (by rw [← List.drop_drop, suffix, List.drop_one, List.tail_cons]) (below.step positive at_i)
    rw [sectionCollectLoop, List.length_cons, show i + (later.length + 1) = i + 1 + later.length by omega]
    exact next

/-- Every section is covered by the loop of `section_collect`. -/
theorem sectionCollect_below (elf : Elf) :
    SectionsBelow elf (1 + (elf.sections.length - 1)) (sectionCollect elf) := by
  have result := sectionCollectLoop_below (elf.sections.drop 1) 1
    { outSectionMap := Function.update (fun _ => none) SHN_UNDEF (some 0), outSections := [dummySection] }
    (by decide) rfl
    { dummy := rfl
      count := by simp
      null := by simp
      mapped := by
        intro index k real found
        dsimp only at found
        rw [Function.update_of_ne real] at found
        cases found
      injective := by
        intro index other k real real' found
        dsimp only at found
        rw [Function.update_of_ne real] at found
        cases found
      allocated := by
        intro index s real bounded
        have undefined : SHN_UNDEF = 0 := rfl
        omega
      source := by
        intro k info nonzero found
        rw [List.getElem?_eq_none (by simp; omega)] at found
        cases found }
  rw [List.length_drop] at result
  exact result

/-! ### Symbols -/

/-- The entries a pass over the symbols makes of those it keeps, numbered from `i`. -/
def collectFrom (keeps : ElfSymbol → Bool) (make : Nat → ElfSymbol → SymbolInfo) : Nat → List ElfSymbol → List SymbolInfo
  | _, [] => []
  | i, s :: rest => if keeps s then make i s :: collectFrom keeps make (i + 1) rest else collectFrom keeps make (i + 1) rest

def isImported (s : ElfSymbol) : Bool := s.bind != STB_LOCAL && s.shndx.toNat == SHN_UNDEF

def isExported (s : ElfSymbol) : Bool :=
  s.bind != STB_LOCAL && s.shndx.toNat != SHN_UNDEF && (symIsHideable s.name || s.other == STV_DEFAULT)

theorem mem_collectFrom {keeps : ElfSymbol → Bool} {make : Nat → ElfSymbol → SymbolInfo} {i : Nat}
    {symbols : List ElfSymbol} {e : SymbolInfo} :
    e ∈ collectFrom keeps make i symbols ↔
      ∃ j s, symbols[j]? = some s ∧ keeps s = true ∧ e = make (i + j) s := by
  induction symbols generalizing i with
  | nil => simp [collectFrom]
  | cons s rest ih =>
    have later : e ∈ collectFrom keeps make (i + 1) rest ↔
        ∃ j t, (s :: rest)[j + 1]? = some t ∧ keeps t = true ∧ e = make (i + (j + 1)) t := by
      simp only [ih, List.getElem?_cons_succ, Nat.add_right_comm, Nat.add_assoc]
    unfold collectFrom
    constructor
    · intro member
      by_cases kept : keeps s = true
      · rw [if_pos kept] at member
        rcases List.mem_cons.mp member with rfl | inRest
        · exact ⟨0, s, rfl, kept, rfl⟩
        · obtain ⟨j, t, found⟩ := later.mp inRest
          exact ⟨j + 1, t, found⟩
      · rw [if_neg kept] at member
        obtain ⟨j, t, found⟩ := later.mp member
        exact ⟨j + 1, t, found⟩
    · rintro ⟨j, t, found, kept, same⟩
      cases j with
      | zero =>
        rw [List.getElem?_cons_zero, Option.some.injEq] at found
        subst found
        rw [if_pos kept, same]
        exact List.mem_cons_self
      | succ j =>
        have inRest := later.mpr ⟨j, t, found, kept, same⟩
        split
        · exact List.mem_cons_of_mem _ inRest
        · exact inRest

theorem collectFrom_length_le (keeps : ElfSymbol → Bool) (make : Nat → ElfSymbol → SymbolInfo) (i : Nat)
    (symbols : List ElfSymbol) : (collectFrom keeps make i symbols).length ≤ symbols.length := by
  induction symbols generalizing i with
  | nil => exact Nat.le_refl _
  | cons s rest ih =>
    have later := ih (i + 1)
    unfold collectFrom
    split
    · rw [List.length_cons, List.length_cons]
      omega
    · rw [List.length_cons]
      omega

/-- Entries keep the numbers of their symbols, so no number occurs twice. -/
theorem collectFrom_nodup {keeps : ElfSymbol → Bool} {make : Nat → ElfSymbol → SymbolInfo}
    (numbered : ∀ i s, (make i s).srcSymbol = i) (i : Nat) (symbols : List ElfSymbol) :
    ((collectFrom keeps make i symbols).map fun e => e.srcSymbol).Nodup := by
  induction symbols generalizing i with
  | nil => exact List.nodup_nil
  | cons s rest ih =>
    unfold collectFrom
    split
    · rw [List.map_cons, List.nodup_cons]
      refine ⟨?_, ih (i + 1)⟩
      intro again
      obtain ⟨e, member, same⟩ := List.mem_map.mp again
      obtain ⟨j, t, -, -, rfl⟩ := mem_collectFrom.mp member
      rw [numbered, numbered] at same
      omega
    · exact ih (i + 1)

/-- The names of the entries are those of the symbols that are kept. -/
theorem names_collectFrom {keeps : ElfSymbol → Bool} {make : Nat → ElfSymbol → SymbolInfo}
    (named : ∀ i s, (make i s).name = s.name) (i : Nat) (symbols : List ElfSymbol) :
    ((collectFrom keeps make i symbols).map fun e => e.name) = (symbols.filter keeps).map fun s => s.name := by
  induction symbols generalizing i with
  | nil => rfl
  | cons s rest ih =>
    rw [collectFrom, List.filter_cons]
    split
    · rw [List.map_cons, List.map_cons, ih, named]
    · exact ih (i + 1)

/-- The export entry of a symbol, section 0 standing in for sections that were not kept. -/
def exportEntry (outSectionMap : Nat → Option U16) (i : Nat) (s : ElfSymbol) : SymbolInfo :=
  exportSymbol i s (sectionOf outSectionMap s.shndx.toNat)

theorem collectSymbol_ok {outSectionMap : Nat → Option U16} {i : Nat} {s : ElfSymbol} {tables next : SymbolTables}
    (collected : collectSymbol outSectionMap i s tables = .ok next) :
    next.importSyms = tables.importSyms ++ collectFrom isImported importSymbol i [s] ∧
    next.exportSyms = tables.exportSyms ++ collectFrom isExported (exportEntry outSectionMap) i [s] ∧
    (s.bind ≠ STB_LOCAL → s.name.length < 32767) := by
  unfold collectSymbol at collected
  by_cases isLocal : s.bind = STB_LOCAL
  · rw [if_pos isLocal, Except.ok.injEq] at collected
    subst next
    simp [collectFrom, isImported, isExported, isLocal]
  · rw [if_neg isLocal] at collected
    by_cases long : 32767 ≤ s.name.length
    · simp [if_pos long] at collected
    · rw [if_neg long] at collected
      have fits : s.bind ≠ STB_LOCAL → s.name.length < 32767 := fun _ => by omega
      by_cases undefined : s.shndx.toNat = SHN_UNDEF
      · rw [if_pos undefined] at collected
        split at collected
        · simp at collected
        · rw [Except.ok.injEq] at collected
          subst next
          simp [collectFrom, isImported, isExported, isLocal, undefined, fits]
      · rw [if_neg undefined] at collected
        by_cases visible : (symIsHideable s.name || s.other == STV_DEFAULT) = true
        · rw [if_pos visible] at collected
          cases place : outSectionMap s.shndx.toNat with
          | some k =>
            simp only [place, Except.ok.injEq] at collected
            subst next
            simp [collectFrom, isImported, isExported, isLocal, undefined, fits, visible, exportEntry, sectionOf, place]
          | none =>
            simp only [place] at collected
            split at collected
            · simp at collected
            · rw [Except.ok.injEq] at collected
              subst next
              simp [collectFrom, isImported, isExported, isLocal, undefined, fits, visible, exportEntry, sectionOf,
                place]
        · rw [if_neg visible, Except.ok.injEq] at collected
          subst next
          simp [collectFrom, isImported, isExported, isLocal, undefined, fits, visible]

theorem collectFrom_cons (keeps : ElfSymbol → Bool) (make : Nat → ElfSymbol → SymbolInfo) (i : Nat) (s : ElfSymbol)
    (rest : List ElfSymbol) :
    collectFrom keeps make i (s :: rest) = collectFrom keeps make i [s] ++ collectFrom keeps make (i + 1) rest := by
  simp only [collectFrom]
  split <;> rfl

/-- The tables of an accepted ELF before they are sorted. -/
theorem symCollectLoop_ok {outSectionMap : Nat → Option U16} {symbols : List ElfSymbol} {i : Nat}
    {tables result : SymbolTables} (collected : symCollectLoop outSectionMap i symbols tables = .ok result) :
    result.importSyms = tables.importSyms ++ collectFrom isImported importSymbol i symbols ∧
    result.exportSyms = tables.exportSyms ++ collectFrom isExported (exportEntry outSectionMap) i symbols ∧
    ∀ s ∈ symbols, s.bind ≠ STB_LOCAL → s.name.length < 32767 := by
  induction symbols generalizing i tables with
  | nil =>
    rw [symCollectLoop, Except.ok.injEq] at collected
    subst result
    simp [collectFrom]
  | cons s rest ih =>
    unfold symCollectLoop at collected
    cases one : collectSymbol outSectionMap i s tables with
    | error reason => simp [one] at collected
    | ok next =>
      simp only [one] at collected
      obtain ⟨imports, exports, fits⟩ := collectSymbol_ok one
      obtain ⟨imports', exports', fits'⟩ := ih collected
      rw [collectFrom_cons isImported, collectFrom_cons isExported, ← List.append_assoc, ← List.append_assoc,
        ← imports, ← exports]
      exact ⟨imports', exports', List.forall_mem_cons.mpr ⟨fits, fits'⟩⟩

/-! ### Positions of imports -/

theorem importSymMapLoop_other {syms : List SymbolInfo} {number : Nat}
    (absent : number ∉ syms.map fun e => e.srcSymbol) (i : Nat) (map : Nat → Option Nat) :
    importSymMapLoop i syms map number = map number := by
  induction syms generalizing i map with
  | nil => rfl
  | cons e rest ih =>
    rw [List.map_cons, List.mem_cons, not_or] at absent
    rw [importSymMapLoop, ih absent.2, Function.update_of_ne absent.1]

theorem importSymMapLoop_position {syms : List SymbolInfo} (nodup : (syms.map fun e => e.srcSymbol).Nodup) {k : Nat}
    {e : SymbolInfo} (at_k : syms[k]? = some e) (i : Nat) (map : Nat → Option Nat) :
    importSymMapLoop i syms map e.srcSymbol = some (i + k) := by
  induction syms generalizing i k map with
  | nil => simp at at_k
  | cons first rest ih =>
    rw [List.map_cons, List.nodup_cons] at nodup
    rw [importSymMapLoop]
    cases k with
    | zero =>
      rw [List.getElem?_cons_zero, Option.some.injEq] at at_k
      subst at_k
      rw [importSymMapLoop_other nodup.1, Function.update_self, Nat.add_zero]
    | succ k =>
      rw [List.getElem?_cons_succ] at at_k
      rw [ih nodup.2 at_k, Nat.add_right_comm, Nat.add_assoc]

/-! ### Relocations -/

/-- An entry with type and target index packed into one word. -/
def packReloc (r : ElfRelocation) (index symOffset : U32) : UsoReloc where
  offset := r.offset
  info := r.type.setWidth 32 <<< 26 ||| (index &&& 0x3FFFFFF)
  symOffset := symOffset

/-- The internal entry of a relocation whose symbol is defined. -/
def definedEntry (elf : Elf) (outSectionMap : Nat → Option U16) (r : ElfRelocation) : Option UsoReloc :=
  match elf.symbols[r.symbol]? with
  | some symbol =>
    if symbol.shndx.toNat = SHN_UNDEF then none
    else some (packReloc r ((sectionOf outSectionMap symbol.shndx.toNat).setWidth 32) symbol.value)
  | none => none

/-- The external entry of a relocation whose symbol is not defined. -/
def undefinedEntry (elf : Elf) (importSymMap : Nat → Option Nat) (r : ElfRelocation) : Option UsoReloc :=
  match elf.symbols[r.symbol]? with
  | some symbol =>
    if symbol.shndx.toNat = SHN_UNDEF then
      some (packReloc r (BitVec.ofNat 32 ((importSymMap r.symbol).getD 0)) 0)
    else none
  | none => none

theorem definedEntry_of_defined {elf : Elf} {outSectionMap : Nat → Option U16} {r : ElfRelocation} {symbol : ElfSymbol}
    (named : elf.symbols[r.symbol]? = some symbol) (defined : symbol.shndx.toNat ≠ SHN_UNDEF) :
    definedEntry elf outSectionMap r =
      some (packReloc r ((sectionOf outSectionMap symbol.shndx.toNat).setWidth 32) symbol.value) := by
  rw [definedEntry, named]
  exact if_neg defined

theorem undefinedEntry_of_undefined {elf : Elf} {importSymMap : Nat → Option Nat} {r : ElfRelocation}
    {symbol : ElfSymbol} (named : elf.symbols[r.symbol]? = some symbol) (undefined : symbol.shndx.toNat = SHN_UNDEF) :
    undefinedEntry elf importSymMap r = some (packReloc r (BitVec.ofNat 32 ((importSymMap r.symbol).getD 0)) 0) := by
  rw [undefinedEntry, named]
  exact if_pos undefined

/-- The entries keep the order of the relocations, in two tables. -/
theorem relocBuildLoop_eq (elf : Elf) (outSectionMap : Nat → Option U16) (importSymMap : Nat → Option Nat)
    (relocs : List ElfRelocation) (s : SectionInfo) :
    relocBuildLoop elf outSectionMap importSymMap relocs s =
      { s with
        internalRelocs := s.internalRelocs ++ relocs.filterMap (definedEntry elf outSectionMap)
        externalRelocs := s.externalRelocs ++ relocs.filterMap (undefinedEntry elf importSymMap) } := by
  induction relocs generalizing s with
  | nil => simp [relocBuildLoop]
  | cons r rest ih =>
    rw [relocBuildLoop]
    cases named : elf.symbols[r.symbol]? with
    | none =>
      simp only
      rw [ih, List.filterMap_cons_none (by simp [definedEntry, named]),
        List.filterMap_cons_none (by simp [undefinedEntry, named])]
    | some symbol =>
      simp only
      rw [ih]
      by_cases undefined : symbol.shndx.toNat = SHN_UNDEF
      · have absent : definedEntry elf outSectionMap r = none := by simp [definedEntry, named, undefined]
        rw [List.filterMap_cons_none absent, List.filterMap_cons_some (undefinedEntry_of_undefined named undefined)]
        simp [buildReloc, undefined, packReloc]
      · have absent : undefinedEntry elf importSymMap r = none := by simp [undefinedEntry, named, undefined]
        rw [List.filterMap_cons_none absent, List.filterMap_cons_some (definedEntry_of_defined named undefined)]
        simp [buildReloc, undefined, packReloc]

/-- The relocations `reloc_build` goes through for an output section. -/
def relocsOf (elf : Elf) (s : SectionInfo) : List ElfRelocation :=
  if s.relocElfSection ≠ SHN_UNDEF then relocationsOf elf s.relocElfSection else []

theorem relocBuildSection_eq (elf : Elf) (outSectionMap : Nat → Option U16) (importSymMap : Nat → Option Nat)
    (s : SectionInfo) :
    relocBuildSection elf outSectionMap importSymMap s =
      { s with
        internalRelocs := s.internalRelocs ++ (relocsOf elf s).filterMap (definedEntry elf outSectionMap)
        externalRelocs := s.externalRelocs ++ (relocsOf elf s).filterMap (undefinedEntry elf importSymMap) } := by
  unfold relocBuildSection relocsOf
  split
  · exact relocBuildLoop_eq elf outSectionMap importSymMap _ s
  · simp

/-! ### Acceptance -/

/-- What an accepted ELF turns into. -/
structure Accepted (sort : SymSort) (elf : Elf) (tool : Elf2uso) : Prop where
  valid : elfValid elf = true
  noCommon : commonIsUsed elf = false
  noGpRelative : checkGpRelativeRelocations elf = false
  fits : ∀ s ∈ elf.symbols, s.bind ≠ STB_LOCAL → s.name.length < 32767
  source : tool.elf = elf
  outSectionMap : tool.outSectionMap = (sectionCollect elf).outSectionMap
  outSections : tool.outSections =
    relocBuild elf tool.outSectionMap tool.importSymMap (sectionCollect elf).outSections
  importSyms : tool.importSyms = sort.run (collectFrom isImported importSymbol 0 elf.symbols)
  exportSyms : tool.exportSyms = sort.run (collectFrom isExported (exportEntry tool.outSectionMap) 0 elf.symbols)
  importSymMap : tool.importSymMap = buildImportSymMap tool.importSyms

theorem elf2uso_ok {sort : SymSort} {elf : Elf} {tool : Elf2uso} (collected : elf2uso sort elf = .ok tool) :
    Accepted sort elf tool := by
  unfold elf2uso at collected
  split at collected
  · simp at collected
  next valid =>
    split at collected
    · simp at collected
    next noCommon =>
      split at collected
      · simp at collected
      next noGpRelative =>
        unfold symCollect at collected
        cases pass : symCollectLoop (sectionCollect elf).outSectionMap 0 elf.symbols
            { importSyms := [], exportSyms := [] } with
        | error reason => simp [pass] at collected
        | ok tables =>
          obtain ⟨imports, exports, fits⟩ := symCollectLoop_ok pass
          simp only [pass, Except.ok.injEq] at collected
          subst tool
          exact
            { valid := by simpa using valid
              noCommon := by simpa using noCommon
              noGpRelative := by simpa using noGpRelative
              fits := fits
              source := rfl
              outSectionMap := rfl
              outSections := rfl
              importSyms := by simp [imports]
              exportSyms := by simp [exports]
              importSymMap := rfl }

section
variable {sort : SymSort} {elf : Elf} {tool : Elf2uso}

theorem Accepted.mem_importSyms (accepted : Accepted sort elf tool) {e : SymbolInfo} :
    e ∈ tool.importSyms ↔ ∃ i s, elf.symbols[i]? = some s ∧ isImported s = true ∧ e = importSymbol i s := by
  rw [accepted.importSyms, (sort.perm _).mem_iff, mem_collectFrom]
  simp only [Nat.zero_add]

theorem Accepted.mem_exportSyms (accepted : Accepted sort elf tool) {e : SymbolInfo} :
    e ∈ tool.exportSyms ↔
      ∃ i s, elf.symbols[i]? = some s ∧ isExported s = true ∧ e = exportEntry tool.outSectionMap i s := by
  rw [accepted.exportSyms, (sort.perm _).mem_iff, mem_collectFrom]
  simp only [Nat.zero_add]

/-- Import numbers fit the index field of an entry. -/
theorem Accepted.importSyms_length_le (accepted : Accepted sort elf tool) : tool.importSyms.length ≤ 2 ^ 24 := by
  rw [accepted.importSyms, (sort.perm _).length_eq]
  calc
    _ ≤ elf.symbols.length := collectFrom_length_le ..
    _ ≤ 2 ^ 24 := elf.symbols_le

/-- `import_sym_map` leads from an undefined symbol to its entry in the sorted table. -/
theorem Accepted.importSymMap_entry (accepted : Accepted sort elf tool) {i : Nat} {s : ElfSymbol}
    (at_i : elf.symbols[i]? = some s) (imported : isImported s = true) :
    ∃ k, tool.importSymMap i = some k ∧ tool.importSyms[k]? = some (importSymbol i s) := by
  have member := accepted.mem_importSyms.mpr ⟨i, s, at_i, imported, rfl⟩
  obtain ⟨k, at_k⟩ := List.mem_iff_getElem?.mp member
  have nodup : (tool.importSyms.map fun e => e.srcSymbol).Nodup := by
    rw [accepted.importSyms, ((sort.perm _).map _).nodup_iff]
    exact collectFrom_nodup (fun _ _ => rfl) 0 elf.symbols
  have position := importSymMapLoop_position nodup at_k 0 fun _ => none
  rw [Nat.zero_add] at position
  exact ⟨k, by rw [accepted.importSymMap]; exact position, at_k⟩

/-- Other symbols have no entry in the map. -/
theorem Accepted.importSymMap_none (accepted : Accepted sort elf tool) {i : Nat} {s : ElfSymbol}
    (at_i : elf.symbols[i]? = some s) (other : isImported s = false) : tool.importSymMap i = none := by
  rw [accepted.importSymMap]
  apply importSymMapLoop_other
  intro present
  obtain ⟨e, member, same⟩ := List.mem_map.mp present
  obtain ⟨j, t, at_j, imported, rfl⟩ := accepted.mem_importSyms.mp member
  have number : j = i := same
  rw [number, at_i, Option.some.injEq] at at_j
  rw [← at_j, other] at imported
  exact absurd imported (by simp)

/-! The output sections. -/

theorem Accepted.getElem?_outSections (accepted : Accepted sort elf tool) (k : Nat) :
    tool.outSections[k]? = ((sectionCollect elf).outSections[k]?).map fun s =>
      { s with
        internalRelocs := s.internalRelocs ++ (relocsOf elf s).filterMap (definedEntry elf tool.outSectionMap)
        externalRelocs := s.externalRelocs ++ (relocsOf elf s).filterMap (undefinedEntry elf tool.importSymMap) } := by
  rw [accepted.outSections, relocBuild, List.getElem?_map]
  cases (sectionCollect elf).outSections[k]? with
  | none => rfl
  | some s => exact congrArg some (relocBuildSection_eq elf _ _ s)

/-- The output section of an ELF section, with its relocations split into two tables. -/
def outSection (elf : Elf) (tool : Elf2uso) (s : ElfSection) : SectionInfo :=
  { sectionData elf s with
    internalRelocs := (relocsOf elf (sectionData elf s)).filterMap (definedEntry elf tool.outSectionMap)
    externalRelocs := (relocsOf elf (sectionData elf s)).filterMap (undefinedEntry elf tool.importSymMap) }

theorem sectionData_relocs (elf : Elf) (s : ElfSection) :
    (sectionData elf s).internalRelocs = [] ∧ (sectionData elf s).externalRelocs = [] := by
  unfold sectionData
  split <;> exact ⟨rfl, rfl⟩

theorem Accepted.outSection_of_getElem? (accepted : Accepted sort elf tool) {k : Nat} {s : ElfSection}
    (found : (sectionCollect elf).outSections[k]? = some (sectionData elf s)) :
    tool.outSections[k]? = some (outSection elf tool s) := by
  obtain ⟨internal, external⟩ := sectionData_relocs elf s
  rw [accepted.getElem?_outSections, found]
  simp only [Option.map_some, internal, external, List.nil_append]
  rfl

theorem Accepted.dummy (accepted : Accepted sort elf tool) : tool.outSections[0]? = some dummySection := by
  have none : relocsOf elf dummySection = [] := if_neg (not_not_intro rfl)
  rw [accepted.getElem?_outSections, (sectionCollect_below elf).dummy]
  simp only [Option.map_some, none]
  rfl

/-- Every section but the dummy comes from an allocated ELF section. -/
theorem Accepted.source_of_getElem? (accepted : Accepted sort elf tool) {k : Nat} (nonzero : k ≠ 0) {info : SectionInfo}
    (at_k : tool.outSections[k]? = some info) :
    ∃ index s, index ≠ SHN_UNDEF ∧ elf.sections[index]? = some s ∧ isAllocated s = true ∧
      info = outSection elf tool s ∧ tool.outSectionMap index = some (BitVec.ofNat 16 k) := by
  have collected := accepted.getElem?_outSections k
  rw [at_k] at collected
  obtain ⟨base, found, -⟩ := Option.map_eq_some_iff.mp collected.symm
  obtain ⟨index, s, real, at_index, allocated, rfl, mapped⟩ := (sectionCollect_below elf).source k base nonzero found
  have result := accepted.outSection_of_getElem? found
  rw [at_k, Option.some.injEq] at result
  exact ⟨index, s, real, at_index, allocated, result, by rw [accepted.outSectionMap, mapped]⟩

/-- The map leads from an allocated ELF section to its output section. -/
theorem Accepted.mapped (accepted : Accepted sort elf tool) {index : Nat} (real : index ≠ SHN_UNDEF) {s : ElfSection}
    (at_index : elf.sections[index]? = some s) (allocated : isAllocated s = true) :
    ∃ k, tool.outSectionMap index = some k ∧ k ≠ 0 ∧ tool.outSections[k.toNat]? = some (outSection elf tool s) := by
  have inside := (List.getElem?_eq_some_iff.mp at_index).1
  obtain ⟨k, found⟩ := (sectionCollect_below elf).allocated index s real (by omega) at_index allocated
  obtain ⟨-, nonzero, t, at_index', -, stored⟩ := (sectionCollect_below elf).mapped index k real found
  rw [at_index, Option.some.injEq] at at_index'
  subst t
  exact ⟨k, by rw [accepted.outSectionMap, found], nonzero, accepted.outSection_of_getElem? stored⟩

/-- A number that is no allocated section's is mapped to section 0. -/
theorem Accepted.sectionOf_missing (accepted : Accepted sort elf tool) {index : Nat}
    (missing : index ≠ SHN_UNDEF → ∀ s, elf.sections[index]? = some s → isAllocated s = false) :
    sectionOf tool.outSectionMap index = 0 := by
  unfold sectionOf
  rw [accepted.outSectionMap]
  by_cases null : index = SHN_UNDEF
  · rw [null, (sectionCollect_below elf).null]
    rfl
  · cases found : (sectionCollect elf).outSectionMap index with
    | none => rfl
    | some k =>
      obtain ⟨-, -, s, at_index, allocated, -⟩ := (sectionCollect_below elf).mapped index k null found
      rw [missing null s at_index] at allocated
      cases allocated

/-- Different ELF sections have different output sections. -/
theorem Accepted.outSectionMap_injective (accepted : Accepted sort elf tool) {index other : Nat} {k : U16}
    (real : index ≠ SHN_UNDEF) (real' : other ≠ SHN_UNDEF) (found : tool.outSectionMap index = some k)
    (found' : tool.outSectionMap other = some k) : index = other := by
  rw [accepted.outSectionMap] at found found'
  exact (sectionCollect_below elf).injective index other k real real' found found'

theorem Accepted.length_outSections (accepted : Accepted sort elf tool) :
    tool.outSections.length = (sectionCollect elf).outSections.length := by
  rw [accepted.outSections, relocBuild, List.length_map]

/-- Whatever section number is looked up, the result numbers an output section. -/
theorem Accepted.sectionOf_lt (accepted : Accepted sort elf tool) (index : Nat) :
    (sectionOf tool.outSectionMap index).toNat < tool.outSections.length := by
  have first := (List.getElem?_eq_some_iff.mp accepted.dummy).1
  have zero : (0 : U16).toNat = 0 := rfl
  unfold sectionOf
  cases found : tool.outSectionMap index with
  | none => simpa using first
  | some k =>
    by_cases null : index = SHN_UNDEF
    · rw [null, accepted.outSectionMap, (sectionCollect_below elf).null, Option.some.injEq] at found
      rw [← found]
      simpa using first
    · rw [accepted.outSectionMap] at found
      obtain ⟨-, -, s, -, -, stored⟩ := (sectionCollect_below elf).mapped index k null found
      rw [accepted.length_outSections]
      exact (List.getElem?_eq_some_iff.mp stored).1

/-- A section without data has no relocations. -/
theorem Accepted.quiet (accepted : Accepted sort elf tool) {k : Nat} {info : SectionInfo}
    (at_k : tool.outSections[k]? = some info) (absent : info.data = none) :
    info.internalRelocs = [] ∧ info.externalRelocs = [] := by
  by_cases dummy : k = 0
  · subst dummy
    rw [accepted.dummy, Option.some.injEq] at at_k
    rw [← at_k]
    exact ⟨rfl, rfl⟩
  · obtain ⟨index, s, -, -, allocated, rfl, -⟩ := accepted.source_of_getElem? dummy at_k
    have empty : relocsOf elf (sectionData elf s) = [] := by
      unfold relocsOf
      by_cases noload : s.type = SHT_NOBITS
      · rw [sectionData, if_pos noload]
        exact if_neg (not_not_intro rfl)
      · have some : s.data.isSome := s.data_present (by simpa [isAllocated] using allocated) noload
        simp only [outSection, sectionData, if_neg noload] at absent
        simp [absent] at some
    simp [outSection, empty]

end

end DragonUso.CollectedTables
