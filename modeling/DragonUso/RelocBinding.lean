import DragonUso.RelocSafety

/-! Which symbol a relocation is applied with. Between the ELF and the loaded USO symbols are
numbered by the ELF and by the sorted import table, sections by the ELF and by the output; a
relocation is bound to the symbol it names through all four. -/

namespace DragonUso.RelocBinding
open ByteOrder SparseFile WordAlign WordMemory Format ElfFile ToolCollect ToolWriter LoaderImage FileLayout RoundTrip
open NoloadLayout Relocation SymbolSearch Loader LoaderSteps OpenBinding CollectedTables ProducedFile RelocSafety

/-- Symbols whose run-time address follows from the ELF and the import table. -/
inductive Meaningful (elf : Elf) (symbol : ElfSymbol) : Prop where
  | allocated (s : ElfSection) : symbol.shndx.toNat ≠ SHN_UNDEF → elf.sections[symbol.shndx.toNat]? = some s →
    isAllocated s = true → Meaningful elf symbol
  | absolute : symbol.shndx.toNat = SHN_ABS → Meaningful elf symbol
  | imported : isImported symbol = true → Meaningful elf symbol

/-- The loaded section an ELF section has become, and no other ELF section has. -/
structure SectionAt (tool : Elf2uso) (file : Bytes) (uso : LoadedUso) (block : U32) (index : Nat) (s : ElfSection)
    (sec : LoadedSection) : Prop where
  numbered : ∃ k, tool.outSectionMap index = some k ∧ uso.sections[k.toNat]? = some sec ∧
    ∀ other, other ≠ SHN_UNDEF → tool.outSectionMap other = some k → other = index
  size : sec.dataSize = s.size
  contents : s.type ≠ SHT_NOBITS → ∀ bytes, s.data = some bytes →
    readAt (usoImage file) (sec.data - block).toNat bytes.length = bytes

/-- The run-time address of a symbol in a USO whose imports were searched for. -/
inductive SymbolAt (elf : Elf) (tool : Elf2uso) (file : Bytes) (search : Bytes → U32) (uso : LoadedUso) (block : U32)
    (symbol : ElfSymbol) : U32 → Prop where
  | allocated (s : ElfSection) (sec : LoadedSection) : symbol.shndx.toNat ≠ SHN_UNDEF →
    elf.sections[symbol.shndx.toNat]? = some s → isAllocated s = true →
    SectionAt tool file uso block symbol.shndx.toNat s sec →
    SymbolAt elf tool file search uso block symbol (sec.data + symbol.value)
  | absolute : symbol.shndx.toNat = SHN_ABS → SymbolAt elf tool file search uso block symbol symbol.value
  | imported (imports : List UsoSymbol) (entry : UsoSymbol) : symbol.shndx.toNat = SHN_UNDEF →
    uso.importSyms = some imports → entry ∈ imports → entry.name = symbol.name → entry.ptr = search symbol.name →
    SymbolAt elf tool file search uso block symbol entry.ptr

/-- A file of the tool that is loaded in a block, whatever its imports resolve to. -/
structure LoadedFrom (sort : SymSort) (elf : Elf) (tool : Elf2uso) (srcElfName : Bytes) (block : U32) : Prop where
  produced : Produced sort elf tool srcElfName
  fits : block.toNat + (usoImage (usoWrite tool srcElfName)).length ≤ 2 ^ 32

/-- An entry keeps offset and type, and is applied with the address of the symbol its relocation
names, wherever the file is loaded. -/
structure EntryBound (elf : Elf) (tool : Elf2uso) (file : Bytes) (internal : Bool) (r : ElfRelocation) (e : UsoReloc) :
    Prop where
  offset : e.offset = r.offset
  type : usoGetRelocType e = r.type
  symbol : ∃ symbol, elf.symbols[r.symbol]? = some symbol ∧
    ∀ search block, block.toNat + (usoImage file).length ≤ 2 ^ 32 →
      ∃ address, symbolAddress (loadedFile file search block) internal e = .ok address ∧
        SymbolAt elf tool file search (loadedFile file search block) block symbol address

theorem findIdx?_distinct {sections : List ElfSection} (distinct : (sections.map fun s => s.name).Nodup)
    {i : Nat} {t : ElfSection} (at_i : sections[i]? = some t) : sections.findIdx? (fun s => s.name = t.name) = some i := by
  obtain ⟨inside, found⟩ := List.getElem?_eq_some_iff.mp at_i
  rw [List.findIdx?_eq_some_iff_getElem]
  refine ⟨inside, by simp [found], fun before earlier same => ?_⟩
  have names : (sections.map fun s => s.name)[before]? = (sections.map fun s => s.name)[i]? := by
    rw [List.getElem?_map, List.getElem?_map, at_i, List.getElem?_eq_getElem (Nat.lt_trans earlier inside)]
    simpa using same
  have place := (List.getElem?_inj (by simpa using Nat.lt_trans earlier inside) distinct).mp names
  omega

/-- With distinct names the search finds a section under its own. -/
theorem elfFindSection_eq {elf : Elf} (distinct : (elf.sections.map fun s => s.name).Nodup) {j : Nat}
    (real : j ≠ SHN_UNDEF) {t : ElfSection} (at_j : elf.sections[j]? = some t) : elfFindSection elf t.name = j := by
  obtain ⟨i, rfl⟩ : ∃ i, j = i + 1 := Nat.exists_eq_succ_of_ne_zero real
  rw [Nat.add_comm, ← List.getElem?_drop] at at_j
  have apart : ((elf.sections.drop 1).map fun s => s.name).Nodup := by
    rw [List.map_drop]
    exact (List.drop_sublist 1 _).nodup distinct
  rw [elfFindSection, findSection, findIdx?_distinct apart at_j]

section
variable {sort : SymSort} {elf : Elf} {tool : Elf2uso} {srcElfName : Bytes}

theorem targetIndex_packReloc (r : ElfRelocation) (index symOffset : U32) (small : index.toNat < 2 ^ 26) :
    (usoGetRelocTargetIndex (packReloc r index symOffset)).toNat = index.toNat := by
  rw [packReloc, usoGetRelocTargetIndex_packed, index_toNat, Nat.mod_eq_of_lt small]

/-- An allocated ELF section is loaded under the number the map gives it. -/
theorem sectionAt_loaded (produced : Produced sort elf tool srcElfName) {block : U32}
    (fits : block.toNat + (usoImage (usoWrite tool srcElfName)).length ≤ 2 ^ 32) (search : Bytes → U32) {index : Nat}
    (real : index ≠ SHN_UNDEF) {s : ElfSection} (at_index : elf.sections[index]? = some s)
    (allocated : isAllocated s = true) {k : U16} (place : tool.outSectionMap index = some k) :
    ∃ sec, (loadedFile (usoWrite tool srcElfName) search block).sections[k.toNat]? = some sec ∧
      SectionAt tool (usoWrite tool srcElfName) (loadedFile (usoWrite tool srcElfName) search block) block index s
        sec := by
  obtain ⟨k', place', nonzero, out⟩ := produced.accepted.mapped real at_index allocated
  rw [place, Option.some.injEq] at place'
  subst k'
  obtain ⟨sec, found, loaded⟩ := loadedAs_outSection produced fits search out
  have position : k.toNat ≠ 0 := fun zero => nonzero (BitVec.eq_of_toNat_eq zero)
  refine ⟨sec, found, ⟨⟨k, place, found, ?_⟩, ?_, ?_⟩⟩
  · intro other real' mapped
    exact produced.accepted.outSectionMap_injective real' real mapped place
  · rw [loaded.size]
    simp only [outSection, sectionData]
    split <;> rfl
  · intro kept bytes some
    have data : (outSection elf tool s).data = .some bytes := by
      rw [← some]
      simp only [outSection, sectionData, if_neg kept]
    obtain ⟨ofs, at_ofs, -, -, read⟩ := loaded.data position bytes data
    rw [at_ofs, BitVec.add_comm, BitVec.add_sub_cancel]
    exact read

/-- Absolute symbols are relative to section 0, which is at NULL. -/
theorem sectionOf_absolute (accepted : Accepted sort elf tool) : sectionOf tool.outSectionMap SHN_ABS = 0 := by
  have absolute : SHN_ABS = 65521 := rfl
  have undefined : SHN_UNDEF = 0 := rfl
  have reserved : SHN_LORESERVE = 65280 := rfl
  have few := elf.sections_lt
  unfold sectionOf
  cases found : tool.outSectionMap SHN_ABS with
  | none => rfl
  | some k =>
    rw [accepted.outSectionMap] at found
    have inside := ((sectionCollect_below elf).mapped SHN_ABS k (by omega) found).1
    omega

theorem definedEntry_bound (produced : Produced sort elf tool srcElfName) {r : ElfRelocation} {e : UsoReloc}
    (entry : definedEntry elf tool.outSectionMap r = some e) (supported : IsSupported r.type)
    (meaningful : ∀ symbol, elf.symbols[r.symbol]? = some symbol → Meaningful elf symbol) :
    EntryBound elf tool (usoWrite tool srcElfName) true r e := by
  have accepted := produced.accepted
  obtain ⟨symbol, named, defined, rfl⟩ := definedEntry_some entry
  refine ⟨rfl, (usoGetRelocType_packed ..).trans (supported_packed supported), symbol, named, ?_⟩
  intro search block fits
  have index : (usoGetRelocTargetIndex (packReloc r ((sectionOf tool.outSectionMap symbol.shndx.toNat).setWidth 32)
      symbol.value)).toNat = (sectionOf tool.outSectionMap symbol.shndx.toNat).toNat := by
    have few := (sectionOf tool.outSectionMap symbol.shndx.toNat).isLt
    have same : ((sectionOf tool.outSectionMap symbol.shndx.toNat).setWidth 32 : U32).toNat =
        (sectionOf tool.outSectionMap symbol.shndx.toNat).toNat := by
      rw [BitVec.toNat_setWidth]
      omega
    calc
      _ = ((sectionOf tool.outSectionMap symbol.shndx.toNat).setWidth 32 : U32).toNat :=
        targetIndex_packReloc r _ _ (by omega)
      _ = _ := same
  have address : ∀ sec, (loadedFile (usoWrite tool srcElfName) search block).sections[
      (sectionOf tool.outSectionMap symbol.shndx.toNat).toNat]? = some sec →
      symbolAddress (loadedFile (usoWrite tool srcElfName) search block) true
        (packReloc r ((sectionOf tool.outSectionMap symbol.shndx.toNat).setWidth 32) symbol.value) =
          .ok (sec.data + symbol.value) := by
    intro sec found
    simp only [symbolAddress, ↓reduceIte, index, found]
    rfl
  cases meaningful symbol named with
  | allocated s real at_index allocated =>
    obtain ⟨k, place, -, -⟩ := accepted.mapped real at_index allocated
    obtain ⟨sec, found, at_sec⟩ := sectionAt_loaded produced fits search real at_index allocated place
    refine ⟨_, address sec ?_, .allocated s sec real at_index allocated at_sec⟩
    rw [sectionOf, place]
    exact found
  | absolute absolute =>
    obtain ⟨sec, found, loaded⟩ := loadedAs_outSection produced fits search accepted.dummy
    have none : sec.data + symbol.value = symbol.value := by
      calc
        _ = 0 + symbol.value := by rw [loaded.dummy rfl]
        _ = symbol.value := BitVec.zero_add _
    refine ⟨symbol.value, ?_, .absolute absolute⟩
    rw [address sec, none]
    rw [absolute, sectionOf_absolute accepted]
    exact found
  | imported imported =>
    simp only [isImported, Bool.and_eq_true, beq_iff_eq] at imported
    exact absurd imported.2 defined

theorem undefinedEntry_bound (produced : Produced sort elf tool srcElfName) {r : ElfRelocation} {e : UsoReloc}
    (entry : undefinedEntry elf tool.importSymMap r = some e) (supported : IsSupported r.type)
    (meaningful : ∀ symbol, elf.symbols[r.symbol]? = some symbol → Meaningful elf symbol) :
    EntryBound elf tool (usoWrite tool srcElfName) false r e := by
  have accepted := produced.accepted
  obtain ⟨symbol, named, undefined, rfl⟩ := undefinedEntry_some entry
  refine ⟨rfl, (usoGetRelocType_packed ..).trans (supported_packed supported), symbol, named, ?_⟩
  intro search block fits
  cases meaningful symbol named with
  | allocated s real => exact absurd undefined real
  | absolute absolute =>
    have different : SHN_ABS ≠ SHN_UNDEF := by decide
    exact absurd (absolute.symm.trans undefined) different
  | imported imported =>
    obtain ⟨k, position, at_k⟩ := accepted.importSymMap_entry named imported
    have inside := (List.getElem?_eq_some_iff.mp at_k).1
    have few := accepted.importSyms_length_le
    have index : (usoGetRelocTargetIndex (packReloc r (BitVec.ofNat 32 ((tool.importSymMap r.symbol).getD 0)) 0)).toNat =
        k := by
      have same : (BitVec.ofNat 32 ((tool.importSymMap r.symbol).getD 0)).toNat = k := by
        rw [position, Option.getD_some, BitVec.toNat_ofNat]
        omega
      rw [targetIndex_packReloc r _ _ (by omega), same]
    have some : tool.importSyms.map loadedSymbol ≠ [] := by
      simpa using List.ne_nil_of_length_pos (Nat.lt_of_le_of_lt (Nat.zero_le k) inside)
    have table := importSyms_loadedFile produced search block
    rw [present, if_neg some, Option.map_some] at table
    have found : ((tool.importSyms.map loadedSymbol).map fun s => { s with ptr := search s.name })[k]? =
        .some { loadedSymbol (importSymbol r.symbol symbol) with ptr := search symbol.name } := by
      rw [List.getElem?_map, List.getElem?_map, at_k]
      rfl
    refine ⟨search symbol.name, ?_, ?_⟩
    · simp only [symbolAddress, table, index, found]
      rfl
    · exact .imported _ _ undefined table (List.mem_of_getElem? found) rfl rfl

/-- The entries of a collected section are bound to the symbols that its relocations name. -/
theorem entries_bound (produced : Produced sort elf tool srcElfName) {info : SectionInfo}
    (supported : ∀ r ∈ relocsOf elf info, IsSupported r.type)
    (meaningful : ∀ r ∈ relocsOf elf info, ∀ symbol, elf.symbols[r.symbol]? = some symbol → Meaningful elf symbol) :
    List.Forall₂ (EntryBound elf tool (usoWrite tool srcElfName) true) ((relocsOf elf info).filter (namesDefined elf))
        (withEntries elf tool info).internalRelocs ∧
      List.Forall₂ (EntryBound elf tool (usoWrite tool srcElfName) false)
        ((relocsOf elf info).filter (namesUndefined elf)) (withEntries elf tool info).externalRelocs := by
  constructor
  · exact (forall₂_filterMap (namesDefined_eq elf _) _).imp fun r e entry =>
      definedEntry_bound produced entry.2 (supported r entry.1) (meaningful r entry.1)
  · exact (forall₂_filterMap (namesUndefined_eq elf _) _).imp fun r e entry =>
      undefinedEntry_bound produced entry.2 (supported r entry.1) (meaningful r entry.1)

/-- The relocations of a section are those of the section named for it. -/
theorem relocsOf_named (distinct : (elf.sections.map fun s => s.name).Nodup) {s t : ElfSection}
    (kept : s.type ≠ SHT_NOBITS) {j : Nat} (real : j ≠ SHN_UNDEF) (at_j : elf.sections[j]? = some t)
    (named : t.name = relPrefix ++ s.name) : relocsOf elf (sectionData elf s) = t.relocations := by
  rw [relocsOf_sectionData, elfRelocs, ← named, elfFindSection_eq distinct real at_j,
    if_neg (not_or.mpr ⟨kept, real⟩), relocationsOf, at_j]

/-- The two lists take every relocation once, in order. -/
theorem perm_filters (info : SectionInfo) :
    ((relocsOf elf info).filter (namesDefined elf) ++ (relocsOf elf info).filter (namesUndefined elf)).Perm
      (relocsOf elf info) := by
  have other : ∀ r ∈ relocsOf elf info, namesUndefined elf r = !namesDefined elf r :=
    fun r member => namesUndefined_of_relocsOf member
  rw [List.filter_congr other]
  exact List.filter_append_perm ..

end

end DragonUso.RelocBinding
