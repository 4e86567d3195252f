import DragonUso.RelocBinding

/-! Splitting a relocation section into two tables. The loader pairs a HI16 with the next LO16 of its
table without looking at symbols; the tool keeps such pairs together because it splits by symbol
and keeps the order. -/

namespace DragonUso.HiLoSplit
open ByteOrder WordMemory Format ElfFile ToolCollect ToolWriter LoaderImage RoundTrip Relocation OpenBinding CollectedTables
open ProducedFile RelocSafety RelocBinding

/-- The order in which assemblers write pairs: after a HI16 comes a LO16, and the first one names
the same symbol. -/
structure NextLo (hi : ElfRelocation) (rest between : List ElfRelocation) (lo : ElfRelocation)
    (after : List ElfRelocation) : Prop where
  split : rest = between ++ lo :: after
  first : ∀ r ∈ between, r.type ≠ R_MIPS_LO16
  type : lo.type = R_MIPS_LO16
  symbol : lo.symbol = hi.symbol

def Paired (relocations : List ElfRelocation) : Prop :=
  ∀ before hi rest, relocations = before ++ hi :: rest → hi.type = R_MIPS_HI16 →
    ∃ between lo after, NextLo hi rest between lo after

/-- The entry of a relocation in the internal or the external table, if it goes there. -/
def tableEntry (elf : Elf) (tool : Elf2uso) (internal : Bool) (r : ElfRelocation) : Option UsoReloc :=
  if internal then definedEntry elf tool.outSectionMap r else undefinedEntry elf tool.importSymMap r

/-- The high half the loader works out from `later` is the one for the LO16 at this place of the section. -/
def PairsWith (later : List UsoReloc) (lo : ElfRelocation) : Prop :=
  ∀ memory sectionBase symAddr half, relocatedHi memory sectionBase symAddr half later =
    carriedHi (hiLoAddress half (lowHalf (readWord memory (sectionBase + lo.offset))) symAddr)

/-- In the table that takes `hi`, the loader's search from its entry passes over the entries that come
between, stops at the entry of `lo`, and that is the LO16 it calculates with. -/
structure PartnerFound (elf : Elf) (tool : Elf2uso) (internal : Bool) (before : List ElfRelocation) (hi : ElfRelocation)
    (between : List ElfRelocation) (lo : ElfRelocation) (after : List ElfRelocation) (table : List UsoReloc) : Prop where
  found : ∃ hiEntry loEntry later, tableEntry elf tool internal hi = some hiEntry ∧
    tableEntry elf tool internal lo = some loEntry ∧
    table = before.filterMap (tableEntry elf tool internal) ++ hiEntry :: later ∧
    later = between.filterMap (tableEntry elf tool internal) ++ loEntry :: after.filterMap (tableEntry elf tool internal) ∧
    searchLo16 later = some loEntry ∧ searchLo16 (between.filterMap (tableEntry elf tool internal)) = none ∧
    PairsWith later lo
  elsewhere : tableEntry elf tool (!internal) hi = none ∧ tableEntry elf tool (!internal) lo = none

section
variable {sort : SymSort} {elf : Elf} {tool : Elf2uso} {srcElfName : Bytes}

/-- Entries keep the type of their relocation. -/
theorem isLo16_tableEntry {internal : Bool} {r : ElfRelocation} {e : UsoReloc}
    (entry : tableEntry elf tool internal r = some e) (supported : IsSupported r.type) :
    isLo16 e = (r.type == R_MIPS_LO16) := by
  have type : usoGetRelocType e = r.type := by
    cases internal with
    | true =>
      obtain ⟨symbol, -, -, rfl⟩ := definedEntry_some entry
      exact (usoGetRelocType_packed ..).trans (supported_packed supported)
    | false =>
      obtain ⟨symbol, -, -, rfl⟩ := undefinedEntry_some entry
      exact (usoGetRelocType_packed ..).trans (supported_packed supported)
  rw [isLo16, type]

theorem tableEntry_offset {internal : Bool} {r : ElfRelocation} {e : UsoReloc}
    (entry : tableEntry elf tool internal r = some e) : e.offset = r.offset := by
  cases internal with
  | true =>
    obtain ⟨symbol, -, -, rfl⟩ := definedEntry_some entry
    rfl
  | false =>
    obtain ⟨symbol, -, -, rfl⟩ := undefinedEntry_some entry
    rfl

/-- Which table takes a relocation depends on its symbol alone. -/
theorem tableEntry_isSome (elf : Elf) (tool : Elf2uso) {r other : ElfRelocation} (same : other.symbol = r.symbol) (internal : Bool) :
    (tableEntry elf tool internal other).isSome = (tableEntry elf tool internal r).isSome := by
  cases internal with
  | true =>
    have kinds := fun r => (namesDefined_eq elf tool.outSectionMap r).symm
    simp only [tableEntry, ↓reduceIte]
    rw [kinds, kinds, namesDefined, namesDefined, same]
  | false =>
    have kinds := fun r => (namesUndefined_eq elf tool.importSymMap r).symm
    simp only [tableEntry, Bool.false_eq_true, ↓reduceIte]
    rw [kinds, kinds, namesUndefined, namesUndefined, same]

/-- A relocation that names a symbol goes into exactly one table. -/
theorem exists_table (tool : Elf2uso) {r : ElfRelocation} (named : r.symbol < elf.symbols.length) :
    ∃ internal, (tableEntry elf tool internal r).isSome ∧ tableEntry elf tool (!internal) r = none := by
  have found := List.getElem?_eq_getElem named
  by_cases undefined : (elf.symbols[r.symbol]).shndx.toNat = SHN_UNDEF
  · refine ⟨false, ?_, ?_⟩
    · simp [tableEntry, undefinedEntry, found, undefined]
    · simp [tableEntry, definedEntry, found, undefined]
  · refine ⟨true, ?_, ?_⟩
    · simp [tableEntry, definedEntry, found, undefined]
    · simp [tableEntry, undefinedEntry, found, undefined]

/-- The split keeps the order, so nothing comes between the entries that was not between the pair. -/
theorem partnerFound_split (tool : Elf2uso) {relocations before rest between after : List ElfRelocation} {hi lo : ElfRelocation}
    (supported : ∀ r ∈ relocations, IsSupported r.type) (split : relocations = before ++ hi :: rest)
    (next : NextLo hi rest between lo after) (named : hi.symbol < elf.symbols.length) :
    ∃ internal, PartnerFound elf tool internal before hi between lo after
      (relocations.filterMap (tableEntry elf tool internal)) := by
  obtain ⟨internal, inside, outside⟩ := exists_table tool named
  obtain ⟨hiEntry, at_hi⟩ := Option.isSome_iff_exists.mp inside
  have inside' := tableEntry_isSome elf tool next.symbol internal
  rw [inside] at inside'
  obtain ⟨loEntry, at_lo⟩ := Option.isSome_iff_exists.mp inside'
  have outside' := tableEntry_isSome elf tool next.symbol !internal
  rw [outside, Option.isSome_none, Option.isSome_eq_false_iff, Option.isNone_iff_eq_none] at outside'
  have members : ∀ r ∈ between ++ lo :: after, r ∈ relocations := by
    intro r member
    rw [split, next.split]
    exact List.mem_append_right _ (List.mem_cons_of_mem _ member)
  have skipped : (between.filterMap (tableEntry elf tool internal)).find? isLo16 = none := by
    refine List.find?_eq_none.mpr fun e member => ?_
    obtain ⟨r, inside, entry⟩ := List.mem_filterMap.mp member
    rw [isLo16_tableEntry entry (supported r (members r (List.mem_append_left _ inside))), beq_iff_eq]
    exact next.first r inside
  have stops : isLo16 loEntry = true := by
    rw [isLo16_tableEntry at_lo (supported lo (members lo (by simp))), beq_iff_eq]
    exact next.type
  have search : searchLo16 (between.filterMap (tableEntry elf tool internal) ++
      loEntry :: after.filterMap (tableEntry elf tool internal)) = some loEntry := by
    rw [searchLo16_eq, List.find?_append, skipped, Option.none_or, List.find?_cons_of_pos stops]
  refine ⟨internal, ⟨hiEntry, loEntry, _, at_hi, at_lo, ?_, rfl, search, ?_, ?_⟩, outside, outside'⟩
  · rw [split, next.split, List.filterMap_append, List.filterMap_cons_some at_hi, List.filterMap_append,
      List.filterMap_cons_some at_lo]
  · rw [searchLo16_eq, skipped]
  · intro memory sectionBase symAddr half
    simp only [relocatedHi, search, tableEntry_offset at_lo]

theorem elfRelocs_named {s : ElfSection} {r : ElfRelocation} (member : r ∈ elfRelocs elf s) :
    r.symbol < elf.symbols.length := by
  unfold elfRelocs relocationsOf at member
  split at member
  · exact absurd member List.not_mem_nil
  · split at member
    next t found => exact elf.relocations_named t (List.mem_of_getElem? found) r member
    next => exact absurd member List.not_mem_nil

/-- The loaded table of a section is what the split makes of its ELF relocations. -/
theorem relocTable_loaded (produced : Produced sort elf tool srcElfName) {block : U32}
    (fits : block.toNat + (usoImage (usoWrite tool srcElfName)).length ≤ 2 ^ 32) (search : Bytes → U32) {k : Nat}
    {s : ElfSection} (at_k : tool.outSections[k]? = some (outSection elf tool s)) (internal : Bool) :
    ∃ sec, (loadedFile (usoWrite tool srcElfName) search block).sections[k]? = some sec ∧
      relocTable sec internal = present ((elfRelocs elf s).filterMap (tableEntry elf tool internal)) := by
  obtain ⟨sec, found, loaded⟩ := loadedAs_outSection produced fits search at_k
  refine ⟨sec, found, ?_⟩
  cases internal with
  | true =>
    rw [relocTable, if_pos rfl, loaded.internal, outSection, relocsOf_sectionData]
    rfl
  | false =>
    rw [relocTable, if_neg Bool.false_ne_true, loaded.external, outSection, relocsOf_sectionData]
    rfl

/-- Each HI16 of the section has the LO16 that belongs to it for its partner in the table that is read
back, wherever the file is loaded. -/
def PairsKept (elf : Elf) (tool : Elf2uso) (file : Bytes) (i : Nat) (s : ElfSection) : Prop :=
  ∃ k, tool.outSectionMap i = some k ∧
  ∀ before hi rest, elfRelocs elf s = before ++ hi :: rest → hi.type = R_MIPS_HI16 →
    ∃ between lo after internal, NextLo hi rest between lo after ∧
    ∀ search block, block.toNat + (usoImage file).length ≤ 2 ^ 32 →
      ∃ sec table, (loadedFile file search block).sections[k.toNat]? = some sec ∧ relocTable sec internal = some table ∧
        PartnerFound elf tool internal before hi between lo after table

/-- In relocation sections as assemblers write them, the LO16 the loader finds for a HI16 is the ELF
entry that belongs to it. -/
theorem pairs_kept (produced : Produced sort elf tool srcElfName) {i : Nat} {s : ElfSection} (real : i ≠ SHN_UNDEF)
    (at_i : elf.sections[i]? = some s) (allocated : isAllocated s = true)
    (supported : ∀ r ∈ elfRelocs elf s, IsSupported r.type) (paired : Paired (elfRelocs elf s)) :
    PairsKept elf tool (usoWrite tool srcElfName) i s := by
  obtain ⟨k, place, -, out⟩ := produced.accepted.mapped real at_i allocated
  refine ⟨k, place, ?_⟩
  intro before hi rest split high
  obtain ⟨between, lo, after, next⟩ := paired before hi rest split high
  have named : hi.symbol < elf.symbols.length := elfRelocs_named (s := s) (by rw [split]; simp)
  obtain ⟨internal, partner⟩ := partnerFound_split tool supported split next named
  refine ⟨between, lo, after, internal, next, ?_⟩
  intro search block fits
  obtain ⟨sec, found, table⟩ := relocTable_loaded produced fits search out internal
  refine ⟨sec, _, found, ?_, partner⟩
  obtain ⟨hiEntry, loEntry, later, -, -, entries, -⟩ := partner.found
  rw [table, present, if_neg]
  rw [entries]
  simp

end

/-- A HI16 of the import `f`, a word with the address of `g`, and the LO16 of the HI16. -/
def pairRelocs : List ElfRelocation := [⟨0, 0x105⟩, ⟨0, 0x202⟩, ⟨4, 0x106⟩]

def pairElf : Elf :=
  relocatedElf [nullSymbol, importedF, exportedG] pairRelocs programElf.symbols_le (by decide)

def pairTool : Elf2uso := sampleTool pairElf [importSymbol 1 importedF] [exportSymbol 2 exportedG 1]

theorem pairElf_produced : Produced nameSort pairElf pairTool [104] :=
  sampleTool_produced (by decide +kernel) (by decide +kernel) (by decide) (by decide +kernel) (by decide +kernel)

theorem pairRelocs_paired : Paired pairRelocs := by
  intro before hi rest split high
  rcases before with _ | ⟨first, _ | ⟨second, _ | ⟨third, before⟩⟩⟩
  · obtain ⟨rfl, rfl⟩ := List.cons.inj split
    exact ⟨[⟨0, 0x202⟩], ⟨4, 0x106⟩, [], rfl, by decide, by decide, by decide⟩
  · obtain ⟨-, tail⟩ := List.cons.inj split
    obtain ⟨rfl, -⟩ := List.cons.inj tail
    exact absurd high (by decide)
  · obtain ⟨-, tail⟩ := List.cons.inj split
    obtain ⟨-, tail⟩ := List.cons.inj tail
    obtain ⟨rfl, -⟩ := List.cons.inj tail
    exact absurd high (by decide)
  · have size := congrArg List.length split
    simp [pairRelocs] at size

theorem pairs_kept_pairElf : PairsKept pairElf pairTool (usoWrite pairTool [104]) 1 codeSection := by
  have own : elfRelocs pairElf codeSection = pairRelocs := by decide
  exact pairs_kept (i := 1) (s := codeSection) pairElf_produced (by decide) rfl (by decide) (by rw [own]; decide)
    (by rw [own]; exact pairRelocs_paired)

theorem unalignedRelocs_paired : Paired unalignedRelocs := by
  intro before hi rest split high
  rcases before with _ | ⟨first, _ | ⟨second, before⟩⟩
  · obtain ⟨rfl, rfl⟩ := List.cons.inj split
    exact ⟨[], ⟨4, 0x206⟩, [], rfl, by decide, by decide, by decide⟩
  · obtain ⟨-, tail⟩ := List.cons.inj split
    obtain ⟨rfl, -⟩ := List.cons.inj tail
    exact absurd high (by decide)
  · have size := congrArg List.length split
    simp [unalignedRelocs] at size

/-- The header is written over the table, whose first entry is then not the one of the HI16. -/
theorem unalignedElf_unpaired :
    elf2uso nameSort unalignedElf = .ok unalignedTool ∧ isAllocated unalignedCode = true ∧
    (∀ r ∈ elfRelocs unalignedElf unalignedCode, IsSupported r.type) ∧ Paired (elfRelocs unalignedElf unalignedCode) ∧
    ¬ PairsKept unalignedElf unalignedTool (usoWrite unalignedTool [104]) 1 unalignedCode := by
  have own : elfRelocs unalignedElf unalignedCode = unalignedRelocs := by decide
  refine ⟨unalignedElf_collected, by decide, by rw [own]; decide, by rw [own]; exact unalignedRelocs_paired, ?_⟩
  rintro ⟨k, place, pairs⟩
  obtain rfl : k = 1 := Option.some.inj (place.symm.trans (by decide +kernel))
  obtain ⟨between, lo, after, internal, -, found⟩ := pairs [] ⟨0, 0x205⟩ [⟨4, 0x206⟩] own rfl
  obtain ⟨sec, table, at_one, tabled, partner⟩ := found (fun _ => 16) 0x80200000 (by decide +kernel)
  obtain ⟨hiEntry, loEntry, later, entry, -, split, -⟩ := partner.found
  have first : ((loadedFile (usoWrite unalignedTool [104]) (fun _ => 16) 0x80200000).sections[1]?.bind fun sec =>
      (relocTable sec internal).bind List.head?) = tableEntry unalignedElf unalignedTool internal ⟨0, 0x205⟩ := by
    rw [entry]
    have at_one' : (loadedFile (usoWrite unalignedTool [104]) (fun _ => 16) 0x80200000).sections[1]? = some sec := at_one
    rw [at_one', Option.bind_some, tabled, split]
    rfl
  cases internal with
  | true => exact absurd first (by decide +kernel)
  | false => cases entry

end DragonUso.HiLoSplit
