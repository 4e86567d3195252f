import DragonUso.InPlaceFixups

/-! All of the fixups on a block that holds an image whose tables lie apart: the names after the import
records, the export records after the names, then the section table. What the fixups leave in the
block are the records of the loaded USO. -/

namespace DragonUso.FixedImage
open ByteOrder SparseFile WordMemory Records CountedLoop Format LoaderImage Relocation SymbolSearch Loader LoaderSteps
open InPlace InPlaceLinking HeldImage InPlaceFixups

/-! ### Records of an image -/

theorem readSections_getElem? (image : Bytes) (ofs count : Nat) {k : Nat} (inside : k < count) :
    (readSections image ofs count)[k]? = some (readSection image (ofs + 20 * k)) := by
  induction count generalizing ofs k with
  | zero => omega
  | succ count ih =>
    rw [readSections]
    cases k with
    | zero => rfl
    | succ k =>
      rw [List.getElem?_cons_succ, ih (ofs + 20) (by omega)]
      congr 2
      omega

theorem readRelocs_getElem? (image : Bytes) (ofs count : Nat) {k : Nat} (inside : k < count) :
    (readRelocs image ofs count)[k]? = some (readReloc image (ofs + 12 * k)) := by
  induction count generalizing ofs k with
  | zero => omega
  | succ count ih =>
    rw [readRelocs]
    cases k with
    | zero => rfl
    | succ k =>
      rw [List.getElem?_cons_succ, ih (ofs + 12) (by omega)]
      congr 2
      omega

theorem readSymbols_getElem? (image : Bytes) (table : U32) (ofs count : Nat) {k : Nat} (inside : k < count) :
    (readSymbols image table ofs count)[k]? = some (readSymbol image table (ofs + 12 * k)) := by
  induction count generalizing ofs k with
  | zero => omega
  | succ count ih =>
    rw [readSymbols]
    cases k with
    | zero => rfl
    | succ k =>
      rw [List.getElem?_cons_succ, ih (ofs + 12) (by omega)]
      congr 2
      omega

theorem readRelocs_length (image : Bytes) (ofs count : Nat) : (readRelocs image ofs count).length = count := by
  induction count generalizing ofs with
  | zero => rfl
  | succ count ih => rw [readRelocs, List.length_cons, ih]

theorem readSymbols_length (image : Bytes) (table : U32) (ofs count : Nat) :
    (readSymbols image table ofs count).length = count := by
  induction count generalizing ofs with
  | zero => rfl
  | succ count ih => rw [readSymbols, List.length_cons, ih]

/-- An offset of the image, made a pointer into the block. -/
theorem ptrFixup_field (ofs base : U32) : ptrFixup ofs base = field base ofs.toNat := by
  rw [ptrFixup, field, BitVec.ofNat_toNat, BitVec.setWidth_eq]

/-- A pointer relative to a table of the image. -/
theorem ptrFixup_table (ofs table base : U32) : ptrFixup ofs (field base table.toNat) = field base (table + ofs).toNat := by
  rw [← ptrFixup_field, ← ptrFixup_field]
  exact BitVec.add_assoc ..

/-! ### Where the tables lie -/

/-- The length of a table at an offset of the image. -/
def storedLength (image : Bytes) (table : U32) : Nat := (readU32 image table.toNat).toNat

/-- The offset of the name of symbol `k` of a table. -/
def storedName (image : Bytes) (table : U32) (k : Nat) : U32 := table + readU32 image (table.toNat + 4 + 12 * k)

/-- Header, import records, import names, export records and sections one after the other, the last
below an offset of the image. -/
structure TablesApart (image : Bytes) (mid low : Nat) : Prop where
  counted : 0 < (readHeader image).numSections.toNat
  header : 20 ≤ mid
  imports : (readHeader image).importSyms ≠ 0 → 20 ≤ (readHeader image).importSyms.toNat ∧
    (readHeader image).importSyms.toNat + 4 + 12 * storedLength image (readHeader image).importSyms ≤ mid
  names : (readHeader image).importSyms ≠ 0 → ∀ k, k < storedLength image (readHeader image).importSyms →
    (readHeader image).importSyms.toNat + 4 + 12 * storedLength image (readHeader image).importSyms ≤
        (storedName image (readHeader image).importSyms k).toNat ∧
      (storedName image (readHeader image).importSyms k).toNat +
        (cString image (storedName image (readHeader image).importSyms k).toNat).length < mid
  exports : (readHeader image).exportSyms ≠ 0 → mid ≤ (readHeader image).exportSyms.toNat ∧
    (readHeader image).exportSyms.toNat + 4 + 12 * storedLength image (readHeader image).exportSyms ≤
      (readHeader image).sections.toNat
  middle : mid ≤ (readHeader image).sections.toNat
  sections : (readHeader image).sections.toNat + 20 * (readHeader image).numSections.toNat ≤ low
  inside : low ≤ image.length

/-- What the fixups leave in the block. -/
structure FixedUp (image : Bytes) (search : Bytes → U32) (base noload : U32) (low : Nat) (before after : Memory) :
    Prop where
  count : readHalf after base = (readHeader image).numSections
  table : headerSections after base = field base (readHeader image).sections.toNat
  sections : ∀ k r, (fixedSections image base noload)[k]? = some r →
    sectionIn base (readHeader image).sections.toNat after k = r
  absent : (readHeader image).importSyms = 0 → headerImportSyms after base = 0
  present : (readHeader image).importSyms ≠ 0 →
    headerImportSyms after base = field base (readHeader image).importSyms.toNat
  imports : ∀ symbols, (fixupImports image search).1 = some symbols → ∀ k s, symbols[k]? = some s →
    symbolIn base (readHeader image).importSyms.toNat after k = s
  others : SameBytes base low (2 ^ 32) before after

section
variable {image : Bytes} {mid low : Nat} {base : U32} {memory : Memory}

theorem TablesApart.bounds (apart : TablesApart image mid low) (small : image.length < 2 ^ 31) :
    20 ≤ mid ∧ mid ≤ (readHeader image).sections.toNat ∧
      (readHeader image).sections.toNat + 20 * (readHeader image).numSections.toNat ≤ low ∧ low < 2 ^ 31 :=
  ⟨apart.header, apart.middle, apart.sections, Nat.lt_of_le_of_lt apart.inside small⟩

/-- The exports are fixed up between the names and the sections, apart from their pointer in the header. -/
theorem fixupExportsAt_same (apart : TablesApart image mid low) (small : image.length < 2 ^ 31)
    (pointer : headerExportSyms memory base = (readHeader image).exportSyms)
    (table : (readHeader image).exportSyms ≠ 0 → Holds memory base image (readHeader image).exportSyms.toNat
      ((readHeader image).exportSyms.toNat + 4)) :
    ∃ m', fixupExportsAt base memory = .ok m' ∧ SameBytes base 0 12 memory m' ∧ SameBytes base 16 mid memory m' ∧
      SameBytes base (readHeader image).sections.toNat (2 ^ 32) memory m' := by
  have bounds := apart.bounds small
  unfold fixupExportsAt
  rw [pointer]
  by_cases absent : (readHeader image).exportSyms = 0
  · rw [if_neg (not_not_intro absent)]
    exact ⟨memory, rfl, fun _ _ _ => rfl, fun _ _ _ => rfl, fun _ _ _ => rfl⟩
  · rw [if_pos absent]
    obtain ⟨above, below⟩ := apart.exports absent
    have around := fixupPtr_around base memory base (show 12 + 4 ≤ 2 ^ 32 by omega)
    have read := (fixupPtr_stored memory (field base 12) base).read
    have stored : readWord memory (field base 12) = (readHeader image).exportSyms := pointer
    rw [stored, ptrFixup_field] at read
    have length := ((table absent).same (around.same (by omega) (by omega))).readWord
    have place : headerExportSyms (fixupPtr memory (field base 12) base) base =
        field base (readHeader image).exportSyms.toNat := read
    have count : tableLength (fixupPtr memory (field base 12) base) (field base (readHeader image).exportSyms.toNat) =
        storedLength image (readHeader image).exportSyms := congrArg BitVec.toNat length
    simp only [place]
    obtain ⟨m', returns, records⟩ := fixupExportSymsAt_around count (by omega)
      (headerSections (fixupPtr memory (field base 12) base) base)
    exact ⟨m', returns, (around.same (by omega) (by omega)).trans (records.same (by omega) (by omega)),
      (around.same (by omega) (by omega)).trans (records.same (by omega) (by omega)),
      (around.same (by omega) (by omega)).trans (records.same (by omega) (by omega))⟩

/-- The import table is read as it lies in the image. -/
theorem showsSymbols_of_holds (apart : TablesApart image mid low) (small : image.length < 2 ^ 31)
    (present : (readHeader image).importSyms ≠ 0) (holds : Holds memory base image 20 mid) :
    ShowsSymbols base (readHeader image).importSyms.toNat memory
      (readSymbols image (readHeader image).importSyms ((readHeader image).importSyms.toNat + 4)
        (storedLength image (readHeader image).importSyms)) := by
  obtain ⟨above, below⟩ := apart.imports present
  have names := apart.names present
  have inside : mid ≤ image.length := by
    have bounds := apart.bounds small
    have inside := apart.inside
    omega
  generalize (readHeader image).importSyms = table at *
  have entry : ∀ k s, (readSymbols image table (table.toNat + 4) (storedLength image table))[k]? = some s →
      k < storedLength image table ∧ s = readSymbol image table (table.toNat + 4 + 12 * k) := by
    intro k s found
    have bound := (List.getElem?_eq_some_iff.mp found).1
    rw [readSymbols_length] at bound
    rw [readSymbols_getElem? image table _ _ bound, Option.some.injEq] at found
    exact ⟨bound, found.symm⟩
  refine ⟨?_, ?_, ?_, ?_, ?_, ?_⟩
  · rw [readSymbols_length, tableLength, (holds.within above (by omega)).readWord]
    rfl
  · rw [readSymbols_length]
    omega
  · intro k s found m same
    obtain ⟨bound, rfl⟩ := entry k s found
    obtain ⟨first, last⟩ := names k bound
    rw [readSymbols_length] at same
    have pointer : ptrFixup (nameIn base table.toNat memory k) (field base table.toNat) =
        field base (storedName image table k).toNat := by
      have word : nameIn base table.toNat memory k = readU32 image (table.toNat + 4 + 12 * k) :=
        (holds.within (by omega) (by omega)).readWord
      rw [word, ptrFixup_table]
      rfl
    rw [pointer]
    exact ((holds.within (by omega) (by omega)).same (same.within first (by omega))).cString (by omega) (by omega)
  · intro k s found
    obtain ⟨bound, rfl⟩ := entry k s found
    exact (holds.within (by omega) (by omega)).readWord
  · intro k s found
    obtain ⟨bound, rfl⟩ := entry k s found
    exact (holds.within (by omega) (by omega)).readHalf
  · intro k s found
    obtain ⟨bound, rfl⟩ := entry k s found
    exact (holds.within (by omega) (by omega)).readHalf

/-- The imports are fixed up before the names, apart from their pointer in the header. -/
theorem fixupImportsAt_eq (apart : TablesApart image mid low) (small : image.length < 2 ^ 31)
    (pointer : headerImportSyms memory base = (readHeader image).importSyms) (holds : Holds memory base image 20 mid)
    (search : Bytes → U32) :
    ∃ m', fixupImportsAt search base memory = .ok (m', (fixupImports image search).2) ∧
      SameBytes base 0 8 memory m' ∧ SameBytes base mid (2 ^ 32) memory m' ∧
      ((readHeader image).importSyms = 0 → headerImportSyms m' base = 0) ∧
      ((readHeader image).importSyms ≠ 0 → headerImportSyms m' base = field base (readHeader image).importSyms.toNat) ∧
      ∀ symbols, (fixupImports image search).1 = some symbols → ∀ k s, symbols[k]? = some s →
        symbolIn base (readHeader image).importSyms.toNat m' k = s := by
  have bounds := apart.bounds small
  unfold fixupImportsAt
  rw [pointer]
  by_cases absent : (readHeader image).importSyms = 0
  · have none : fixupImports image search = (none, true) := by
      simp only [fixupImports, readSymbolTable, if_pos absent]
    rw [if_neg (not_not_intro absent), none]
    refine ⟨memory, rfl, fun _ _ _ => rfl, fun _ _ _ => rfl, fun _ => pointer.trans absent, fun some => absurd absent some, ?_⟩
    intro symbols found
    cases found
  · rw [if_pos absent]
    obtain ⟨above, below⟩ := apart.imports absent
    have around := fixupPtr_around base memory base (show 8 + 4 ≤ 2 ^ 32 by omega)
    have read := (fixupPtr_stored memory (field base 8) base).read
    have stored : readWord memory (field base 8) = (readHeader image).importSyms := pointer
    rw [stored, ptrFixup_field] at read
    have place : headerImportSyms (fixupPtr memory (field base 8) base) base =
        field base (readHeader image).importSyms.toNat := read
    simp only [place]
    have shows := showsSymbols_of_holds apart small absent (holds.same (around.same (by omega) (by omega)))
    have length := readSymbols_length image (readHeader image).importSyms ((readHeader image).importSyms.toNat + 4)
      (storedLength image (readHeader image).importSyms)
    obtain ⟨m', returns, records, change⟩ := fixupImportSymsAt_eq shows search
    rw [length] at change
    have table : fixupImports image search = (some (fixupImportSyms search (readSymbols image (readHeader image).importSyms
        ((readHeader image).importSyms.toNat + 4) (storedLength image (readHeader image).importSyms))).1,
        (fixupImportSyms search (readSymbols image (readHeader image).importSyms
          ((readHeader image).importSyms.toNat + 4) (storedLength image (readHeader image).importSyms))).2) := by
      simp only [fixupImports, readSymbolTable, if_neg absent]
      rfl
    rw [table]
    refine ⟨m', returns, (around.same (by omega) (by omega)).trans (change.same (by omega) (by omega)),
      (around.same (by omega) (by omega)).trans (change.same (by omega) (by omega)), fun none => absurd none absent,
      fun _ => ?_, ?_⟩
    · rw [← place]
      exact change.word (by omega) (by omega)
    · intro symbols found
      rw [← Option.some.inj found]
      exact records

/-- What the fixups of the section table leave in the block, after the header's pointer to it. -/
structure SectionsFixed (image : Bytes) (base noload : U32) (low : Nat) (before after : Memory) : Prop where
  count : readHalf after base = (readHeader image).numSections
  table : headerSections after base = field base (readHeader image).sections.toNat
  sections : ∀ k r, (fixedSections image base noload)[k]? = some r →
    sectionIn base (readHeader image).sections.toNat after k = r
  tables : SameBytes base 8 (readHeader image).sections.toNat before after
  others : SameBytes base low (2 ^ 32) before after

theorem fixupSectionsAt_eq (apart : TablesApart image mid low) (small : image.length < 2 ^ 31)
    (holds : HoldsImage memory base image) (noload : U32) :
    ∃ m', fixupSectionTableAt (headerSections (fixupPtr memory (field base 4) base) base) noload
        (readHalf (fixupPtr memory (field base 4) base) base).toNat (fixupPtr memory (field base 4) base) = .ok m' ∧
      SectionsFixed image base noload low memory m' := by
  have bounds := apart.bounds small
  have inside := apart.inside
  -- The header's pointer to the section table.
  have first := fixupPtr_around base memory base (show 4 + 4 ≤ 2 ^ 32 by omega)
  have read := (fixupPtr_stored memory (field base 4) base).read
  have stored : readWord memory (field base 4) = (readHeader image).sections :=
    (holds.within (Nat.zero_le _) (by omega)).readWord
  rw [stored, ptrFixup_field] at read
  have counted : readHalf memory (field base 0) = readU16 image 0 :=
    (holds.within (Nat.zero_le _) (by omega)).readHalf
  generalize fixupPtr memory (field base 4) base = m₁ at first read ⊢
  have table : headerSections m₁ base = field base (readHeader image).sections.toNat := read
  have count : readHalf m₁ base = (readHeader image).numSections := by
    have same := (first.half (show 0 + 2 ≤ 2 ^ 32 by omega) (by omega)).trans counted
    rw [field_zero] at same
    exact same
  -- The section table.
  have length : (storedSections image).length = (readHeader image).numSections.toNat := readSections_length ..
  have shows : ∀ k r, (storedSections image)[k]? = some r → sectionIn base (readHeader image).sections.toNat m₁ k = r := by
    intro k r found
    have bound := (List.getElem?_eq_some_iff.mp found).1
    rw [length] at bound
    rw [storedSections, readSections_getElem? image _ _ bound, Option.some.injEq] at found
    rw [← found]
    exact ((holds.within (by omega) (by omega)).same (first.same (by omega) (by omega))).sectionRecord
  obtain ⟨m₂, returns, sections, second⟩ := fixupSectionTableAt_eq apart.counted (by omega) length shows noload
  refine ⟨m₂, by rw [table, count, returns], ⟨?_, ?_, ?_, ?_, ?_⟩⟩
  · have same : readHalf m₂ (field base 0) = readHalf m₁ (field base 0) := second.half (by omega) (by omega)
    rw [field_zero] at same
    exact same.trans count
  · exact (second.word (by omega) (by omega)).trans read
  · intro k r found
    rw [fixedSections, ptrFixup_field] at found
    exact sections k r found
  · exact (first.same (by omega) (by omega)).trans (second.same (by omega) (by omega))
  · exact (first.same (Nat.le_refl _) (by omega)).trans (second.same (Nat.le_refl _) (by omega))

/-- The fixups of a block that holds an image. -/
theorem fixupTablesAt_eq (apart : TablesApart image mid low) (small : image.length < 2 ^ 31)
    (holds : HoldsImage memory base image) (search : Bytes → U32) (noload : U32) :
    ∃ m', fixupTablesAt search base noload memory = .ok (m', (fixupImports image search).2) ∧
      FixedUp image search base noload low memory m' := by
  have bounds := apart.bounds small
  have inside := apart.inside
  obtain ⟨m₂, sectionsReturn, second⟩ := fixupSectionsAt_eq apart small holds noload
  have word : ∀ k, 8 ≤ k → k + 4 ≤ 20 → readWord m₂ (field base k) = readU32 image k := fun k above header =>
    (readWord_same (second.tables.within above (by omega))).trans (holds.within (Nat.zero_le _) (by omega)).readWord
  -- The symbol tables.
  have exportPointer : headerExportSyms m₂ base = (readHeader image).exportSyms := word 12 (by omega) (by omega)
  obtain ⟨m₃, exportsReturn, low₃, mid₃, high₃⟩ := fixupExportsAt_same apart small exportPointer fun present => by
    obtain ⟨above, below⟩ := apart.exports present
    exact (holds.within (by omega) (by omega)).same (second.tables.within (by omega) (by omega))
  have importPointer : headerImportSyms m₃ base = (readHeader image).importSyms := by
    have same : readWord m₃ (field base 8) = readWord m₂ (field base 8) :=
      readWord_same (low₃.within (by omega) (by omega))
    exact same.trans (word 8 (by omega) (by omega))
  have held : Holds m₃ base image 20 mid :=
    ((holds.within (by omega) (by omega)).same (second.tables.within (by omega) (by omega))).same
      (mid₃.within (by omega) (by omega))
  obtain ⟨m₄, importsReturn, low₄, high₄, absent, present, imports⟩ :=
    fixupImportsAt_eq apart small importPointer held search
  unfold fixupTablesAt
  refine ⟨m₄, ?_, ⟨?_, ?_, ?_, absent, present, imports, ?_⟩⟩
  · simp only [sectionsReturn, exportsReturn, importsReturn]
  · have same : readHalf m₄ (field base 0) = readHalf m₂ (field base 0) :=
      (readHalf_same (low₄.within (by omega) (by omega))).trans (readHalf_same (low₃.within (by omega) (by omega)))
    rw [field_zero] at same
    exact same.trans second.count
  · have same : readWord m₄ (field base 4) = readWord m₂ (field base 4) :=
      (readWord_same (low₄.within (by omega) (by omega))).trans (readWord_same (low₃.within (by omega) (by omega)))
    exact same.trans second.table
  · intro k r found
    have bound := (List.getElem?_eq_some_iff.mp found).1
    rw [fixedSections, fixupSectionTable_length, storedSections, readSections_length] at bound
    rw [← second.sections k r found, sectionIn, sectionIn]
    exact sectionRecord_same ((high₃.within (by omega) (by omega)).trans (high₄.within (by omega) (by omega)))
  · exact (second.others.trans (high₃.within (by omega) (Nat.le_refl _))).trans (high₄.within (by omega) (Nat.le_refl _))

end

end DragonUso.FixedImage
