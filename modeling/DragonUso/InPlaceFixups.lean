import DragonUso.HeldImage
import DragonUso.LoaderSteps

/-! `fixup_uso` in the block: each loop changes the records of its own table, and what it makes of them
is what the fixups make of the records read from the image. -/

namespace DragonUso.InPlaceFixups
open ByteOrder SparseFile WordMemory Records CountedLoop Format LoaderImage Relocation SymbolSearch Loader LoaderSteps
open InPlace InPlaceLinking HeldImage

/-! ### One pointer -/

section
variable {base : U32} {memory : Memory}

theorem fixupPtr_stored (memory : Memory) (place origin : U32) :
    Stored place (ptrFixup (readWord memory place) origin) memory (fixupPtr memory place origin) :=
  storeWord_stored memory place _

theorem fixupPtr_around (base : U32) (memory : Memory) (origin : U32) {ofs : Nat} (room : ofs + 4 ≤ 2 ^ 32) :
    Around base ofs (ofs + 4) memory (fixupPtr memory (field base ofs) origin) := Around.stored (fixupPtr_stored ..) room

theorem fixupPtrIfSet_around (base : U32) (memory : Memory) (origin : U32) {ofs : Nat} (room : ofs + 4 ≤ 2 ^ 32) :
    Around base ofs (ofs + 4) memory (fixupPtrIfSet memory (field base ofs) origin) := by
  unfold fixupPtrIfSet
  split
  · exact fixupPtr_around base memory origin room
  · exact Around.refl ..

theorem fixupPtrIfSet_read (memory : Memory) (place origin : U32) : readWord (fixupPtrIfSet memory place origin) place =
    if readWord memory place ≠ 0 then ptrFixup (readWord memory place) origin else readWord memory place := by
  unfold fixupPtrIfSet
  split
  · exact (fixupPtr_stored memory place origin).read
  · rfl

/-! ### Sections -/

/-- What `fixup_section_table` makes of one record, and the NOLOAD pointer after it. -/
def fixupStep (sections noload : U32) (s : UsoSection) : UsoSection × U32 :=
  if s.data ≠ 0 then (fixupSection sections s, noload)
  else ({ s with data := alignNoload noload s }, alignNoload noload s + s.dataSize)

theorem threadMap_fixupStep (sections noload : U32) (records : List UsoSection) :
    (threadMap (fixupStep sections) noload records).1 = fixupSectionLoop sections noload records := by
  induction records generalizing noload with
  | nil => rfl
  | cons s rest ih =>
    rw [threadMap, fixupSectionLoop, ih]
    unfold fixupStep
    split <;> rfl

/-- A section with contents, in the block. -/
theorem fixupSectionAt_loaded (memory : Memory) {ofs i : Nat} {sections : U32} (place : sectionPtr sections i = field base ofs)
    (room : ofs + 20 ≤ 2 ^ 32) (noload : U32) (loaded : readWord memory (field base ofs) ≠ 0) :
    sectionRecordAt (fixupSectionAt sections i memory noload).1 (field base ofs) =
        fixupSection sections (sectionRecordAt memory (field base ofs)) ∧
      (fixupSectionAt sections i memory noload).2 = noload ∧
      Around base ofs (ofs + 20) memory (fixupSectionAt sections i memory noload).1 := by
  have fixed : fixupSectionAt sections i memory noload =
      (fixupPtrIfSet (fixupPtrIfSet (fixupPtr memory (field base ofs) sections) (field base (ofs + 12)) sections)
        (field base (ofs + 16)) sections, noload) := by
    simp only [fixupSectionAt, place, field_field, if_pos loaded]
  rw [fixed]
  have data := fixupPtr_around base memory sections (show ofs + 4 ≤ 2 ^ 32 by omega)
  have dataRead := (fixupPtr_stored memory (field base ofs) sections).read
  generalize fixupPtr memory (field base ofs) sections = m₁ at data dataRead ⊢
  have internal := fixupPtrIfSet_around base m₁ sections (show ofs + 12 + 4 ≤ 2 ^ 32 by omega)
  have internalRead := fixupPtrIfSet_read m₁ (field base (ofs + 12)) sections
  generalize fixupPtrIfSet m₁ (field base (ofs + 12)) sections = m₂ at internal internalRead ⊢
  have external := fixupPtrIfSet_around base m₂ sections (show ofs + 16 + 4 ≤ 2 ^ 32 by omega)
  have externalRead := fixupPtrIfSet_read m₂ (field base (ofs + 16)) sections
  generalize fixupPtrIfSet m₂ (field base (ofs + 16)) sections = m₃ at external externalRead ⊢
  rw [data.word (by omega) (by omega)] at internalRead
  rw [internal.word (by omega) (by omega), data.word (by omega) (by omega)] at externalRead
  refine ⟨?_, rfl, ?_⟩
  · simp only [sectionRecordAt, fixupSection, field_field, externalRead]
    rw [external.word (by omega) (by omega), internal.word (by omega) (by omega), dataRead,
      external.word (by omega) (by omega), internal.word (by omega) (by omega), data.word (by omega) (by omega),
      external.word (by omega) (by omega), internal.word (by omega) (by omega), data.word (by omega) (by omega),
      external.word (by omega) (by omega), internalRead]
  · exact ((data.mono (by omega) (by omega)).trans (internal.mono (by omega) (by omega))).trans
      (external.mono (by omega) (by omega))

/-- A section without contents, in the block. -/
theorem fixupSectionAt_noload (memory : Memory) {ofs i : Nat} {sections : U32} (place : sectionPtr sections i = field base ofs)
    (room : ofs + 20 ≤ 2 ^ 32) (noload : U32) (empty : readWord memory (field base ofs) = 0) :
    sectionRecordAt (fixupSectionAt sections i memory noload).1 (field base ofs) =
        { sectionRecordAt memory (field base ofs) with
          data := alignNoload noload (sectionRecordAt memory (field base ofs)) } ∧
      (fixupSectionAt sections i memory noload).2 = alignNoload noload (sectionRecordAt memory (field base ofs)) +
        (sectionRecordAt memory (field base ofs)).dataSize ∧
      Around base ofs (ofs + 20) memory (fixupSectionAt sections i memory noload).1 := by
  have start : alignNoload noload (sectionRecordAt memory (field base ofs)) =
      if 0 < readWord memory (field base (ofs + 8)) then roundupPtr noload (readWord memory (field base (ofs + 8)))
      else noload := by
    simp only [alignNoload, sectionRecordAt, field_field]
  have fixed : fixupSectionAt sections i memory noload =
      (storeWord memory (field base ofs) (alignNoload noload (sectionRecordAt memory (field base ofs))),
        alignNoload noload (sectionRecordAt memory (field base ofs)) + readWord (storeWord memory (field base ofs)
          (alignNoload noload (sectionRecordAt memory (field base ofs)))) (field base (ofs + 4))) := by
    simp only [fixupSectionAt, place, field_field, start, if_neg (not_not_intro empty)]
  rw [fixed]
  generalize alignNoload noload (sectionRecordAt memory (field base ofs)) = start
  have stored := storeWord_stored memory (field base ofs) start
  generalize storeWord memory (field base ofs) start = m₁ at stored ⊢
  have around := Around.stored stored (show ofs + 4 ≤ 2 ^ 32 by omega)
  refine ⟨?_, ?_, around.mono (Nat.le_refl _) (by omega)⟩
  · simp only [sectionRecordAt, field_field, stored.read]
    rw [around.word (by omega) (by omega), around.word (by omega) (by omega), around.word (by omega) (by omega),
      around.word (by omega) (by omega)]
  · simp only [sectionRecordAt, field_field]
    rw [around.word (by omega) (by omega)]

/-- One section in the block. -/
theorem fixupSectionAt_record (memory : Memory) {ofs i : Nat} {sections : U32} (place : sectionPtr sections i = field base ofs)
    (room : ofs + 20 ≤ 2 ^ 32) (noload : U32) :
    sectionRecordAt (fixupSectionAt sections i memory noload).1 (field base ofs) =
        (fixupStep sections noload (sectionRecordAt memory (field base ofs))).1 ∧
      (fixupSectionAt sections i memory noload).2 =
        (fixupStep sections noload (sectionRecordAt memory (field base ofs))).2 ∧
      Around base ofs (ofs + 20) memory (fixupSectionAt sections i memory noload).1 := by
  unfold fixupStep
  by_cases empty : readWord memory (field base ofs) = 0
  · have known : ¬ (sectionRecordAt memory (field base ofs)).data ≠ 0 := not_not_intro empty
    rw [if_neg known]
    exact fixupSectionAt_noload memory place room noload empty
  · have known : (sectionRecordAt memory (field base ofs)).data ≠ 0 := empty
    rw [if_pos known]
    exact fixupSectionAt_loaded memory place room noload empty

/-- A pointer to a record of a table that lies in the block. -/
theorem sectionPtr_field (base : U32) (ofs i : Nat) : sectionPtr (field base ofs) i = field base (ofs + 20 * i) :=
  field_field ..

theorem entryPtr_field (base : U32) (ofs i : Nat) : entryPtr (field base ofs) i = field base (ofs + 4 + 12 * i) := by
  rw [entryPtr, field_field, Nat.add_assoc]

theorem sectionRecord_same {ofs : Nat} {m m' : Memory} (same : SameBytes base ofs (ofs + 20) m m') :
    sectionRecordAt m' (field base ofs) = sectionRecordAt m (field base ofs) := by
  have word : ∀ k, k + 4 ≤ 20 → readWord m' (field base (ofs + k)) = readWord m (field base (ofs + k)) :=
    fun k inside => readWord_same (same.within (Nat.le_add_right _ _) (by omega))
  have first : readWord m' (field base ofs) = readWord m (field base ofs) := word 0 (by omega)
  simp only [sectionRecordAt, field_field, first, word 4 (by omega), word 8 (by omega), word 12 (by omega),
    word 16 (by omega)]

/-- Record `i` of a section table in the block. -/
def sectionIn (base : U32) (ofs : Nat) (memory : Memory) (i : Nat) : UsoSection :=
  sectionRecordAt memory (field base (ofs + 20 * i))

/-- One round of the loop over the sections. -/
theorem fixupSectionAt_round {ofs count k : Nat} (inside : 1 + k < count) (room : ofs + 20 * count ≤ 2 ^ 32)
    {r : UsoSection} {m : Memory} (noload : U32) (around : Around base (ofs + 20) (ofs + 20 * count) memory m)
    (shown : sectionIn base ofs m (1 + k) = r) :
    ∃ m', Round (ε := Fault) (sectionIn base ofs) (fixupStep (field base ofs))
      (fun i s => .ok (fixupSectionAt (field base ofs) i s.1 s.2))
      (Around base (ofs + 20) (ofs + 20 * count) memory) count (1 + k) r m noload m' := by
  obtain ⟨own, running, changes⟩ := fixupSectionAt_record m (sectionPtr_field base ofs (1 + k)) (by omega) noload
  have here : sectionRecordAt m (field base (ofs + 20 * (1 + k))) = r := shown
  rw [here] at own running
  refine ⟨_, ?_, own, fun j below other => ?_, around.trans (changes.mono (by omega) (by omega))⟩
  · rw [← running]
  · exact sectionRecord_same (changes.same (by omega) (by omega))

/-- The pointer of the dummy section is cleared, and nothing else of it. -/
theorem sectionIn_dummy {ofs : Nat} (room : ofs + 20 ≤ 2 ^ 32) {m : Memory}
    (same : SameBytes base ofs (ofs + 20) memory m) :
    sectionIn base ofs (storeWord m (field base ofs) 0) 0 = { sectionIn base ofs memory 0 with data := 0 } := by
  have stored := storeWord_stored m (field base ofs) 0
  have last := Around.stored stored (show ofs + 4 ≤ 2 ^ 32 by omega)
  have others : ∀ d, 4 ≤ d → d + 4 ≤ 20 →
      readWord (storeWord m (field base ofs) 0) (field base (ofs + d)) = readWord memory (field base (ofs + d)) :=
    fun d low high => (last.word (by omega) (by omega)).trans (readWord_same (same.within (by omega) (by omega)))
  rw [sectionIn, sectionIn, Nat.mul_zero, Nat.add_zero]
  simp only [sectionRecordAt, field_field, stored.read, others 4 (by omega) (by omega), others 8 (by omega) (by omega),
    others 12 (by omega) (by omega), others 16 (by omega) (by omega)]

/-- The section table in the block. -/
theorem fixupSectionTableAt_eq {ofs count : Nat} (positive : 0 < count) (room : ofs + 20 * count ≤ 2 ^ 32)
    {records : List UsoSection} (length : records.length = count)
    (shows : ∀ k r, records[k]? = some r → sectionIn base ofs memory k = r) (noload : U32) :
    ∃ m', fixupSectionTableAt (field base ofs) noload count memory = .ok m' ∧
      (∀ k r, (fixupSectionTable (field base ofs) noload records)[k]? = some r →
        sectionIn base ofs m' k = r) ∧
      Around base ofs (ofs + 20 * count) memory m' := by
  cases records with
  | nil => exact absurd (length.symm.trans rfl) (Nat.ne_of_gt positive)
  | cons dummy rest =>
    rw [List.length_cons] at length
    have loop : ∃ m, countUp (fun _ => count) (fun i s => .ok (fixupSectionAt (field base ofs) i s.1 s.2)) rounds 1
        (memory, noload) = Except.ok (ε := Fault) (m, (threadMap (fixupStep (field base ofs)) noload rest).2) ∧ _ :=
      countUp_threadMap (fun _ _ _ => rfl) (show 1 + rest.length = count by omega)
        (fun k r found m a around shown => by
          have inside := (List.getElem?_eq_some_iff.mp found).1
          exact fixupSectionAt_round (by omega) room a around shown)
        (show rest.length ≤ rounds by rw [rounds]; omega) (Around.refl base (ofs + 20) (ofs + 20 * count) memory)
        (fun k r found => by rw [Nat.add_comm 1 k]; exact shows (k + 1) r found)
    obtain ⟨m, returns, around, fixed, -⟩ := loop
    have dummyPlace : sectionPtr (field base ofs) 0 = field base ofs := field_zero _
    have last := Around.stored (storeWord_stored m (field base ofs) 0) (show ofs + 4 ≤ 2 ^ 32 by omega)
    refine ⟨storeWord m (field base ofs) 0, ?_, ?_, ?_⟩
    · unfold fixupSectionTableAt
      rw [returns, dummyPlace]
    · intro k r found
      cases k with
      | zero =>
        rw [fixupSectionTable, List.getElem?_cons_zero, Option.some.injEq] at found
        rw [sectionIn_dummy (by omega) (around.same (by omega) (by omega)), shows 0 dummy rfl, found]
      | succ k =>
        rw [fixupSectionTable, List.getElem?_cons_succ, ← threadMap_fixupStep] at found
        have inside := (List.getElem?_eq_some_iff.mp found).1
        rw [threadMap_length] at inside
        rw [sectionIn, sectionRecord_same (last.same (by omega) (by omega)), Nat.add_comm k 1]
        exact fixed k r found
    · exact (around.mono (by omega) (Nat.le_refl _)).trans (last.mono (Nat.le_refl _) (by omega))

/-! ### Symbol tables -/

/-- The name pointer of symbol `i` of a table in the block. -/
def nameIn (base : U32) (ofs : Nat) (memory : Memory) (i : Nat) : U32 := readWord memory (field base (ofs + 4 + 12 * i))

/-- Only the name pointers of a table change. -/
structure NamesChange (base : U32) (ofs count : Nat) (m m' : Memory) : Prop where
  around : Around base (ofs + 4) (ofs + 4 + 12 * count) m m'
  others : ∀ k, k < count → SameBytes base (ofs + 4 + 12 * k + 4) (ofs + 4 + 12 * k + 12) m m'

theorem NamesChange.refl (base : U32) (ofs count : Nat) (m : Memory) : NamesChange base ofs count m m :=
  ⟨Around.refl .., fun _ _ => SameBytes.refl base _ _ m⟩

theorem tableLength_same {ofs : Nat} {m m' : Memory} {high : Nat} (around : Around base (ofs + 4) high m m')
    (room : ofs + 4 ≤ 2 ^ 32) : tableLength m' (field base ofs) = tableLength m (field base ofs) := by
  rw [tableLength, tableLength, around.word room (.inl (Nat.le_refl _))]

theorem fixupSymbolTableNamesAt_eq {ofs count : Nat} (length : tableLength memory (field base ofs) = count)
    (room : ofs + 4 + 12 * count ≤ 2 ^ 32) :
    ∃ m', fixupSymbolTableNamesAt (field base ofs) memory = .ok (m', ()) ∧ NamesChange base ofs count memory m' ∧
      ∀ k, k < count → nameIn base ofs m' k = ptrFixup (nameIn base ofs memory k) (field base ofs) := by
  have few : count < 2 ^ 32 := length ▸ (readWord memory (field base ofs)).isLt
  refine countUp_map (g := fun p => ptrFixup p (field base ofs))
    (fun m _ change => (tableLength_same change.around (by omega)).trans length) ?_ (by rw [rounds]; omega)
    (NamesChange.refl base ofs count memory)
  intro k inside m a change
  have place : fixupName (field base ofs) k m = fixupPtr m (field base (ofs + 4 + 12 * k)) (field base ofs) := by
    rw [fixupName, entryPtr_field]
  have own := (fixupPtr_stored m (field base (ofs + 4 + 12 * k)) (field base ofs)).read
  have around := fixupPtr_around base m (field base ofs)
    (show ofs + 4 + 12 * k + 4 ≤ 2 ^ 32 by omega)
  rw [← place] at own around
  refine ⟨_, rfl, own, fun j below other => ?_, ⟨change.around.trans (around.mono (by omega) (by omega)), fun j below => ?_⟩⟩
  · exact around.word (by omega) (by omega)
  · exact (change.others j below).trans (around.same (by omega) (by omega))

/-- The fixups of the exports change records of their table only. -/
theorem fixupExportSymsAt_around {ofs count : Nat} (length : tableLength memory (field base ofs) = count)
    (room : ofs + 4 + 12 * count ≤ 2 ^ 32) (sections : U32) :
    ∃ m', fixupExportSymsAt (field base ofs) sections memory = .ok m' ∧
      Around base (ofs + 4) (ofs + 4 + 12 * count) memory m' := by
  obtain ⟨named, names, change, -⟩ := fixupSymbolTableNamesAt_eq length room
  have step : ∀ i (s : Memory × Unit), i < lengthIn (field base ofs) s →
      Around base (ofs + 4) (ofs + 4 + 12 * count) memory s.1 →
      ∃ next, Except.ok (ε := Fault) (fixupExportAt sections (field base ofs) i s.1, ()) = .ok next ∧
        Around base (ofs + 4) (ofs + 4 + 12 * count) memory next.1 := by
    intro i s inside around
    have bound : lengthIn (field base ofs) s = count := (tableLength_same around (by omega)).trans length
    refine ⟨_, rfl, around.trans ?_⟩
    have place : field (entryPtr (field base ofs) i) 4 = field base (ofs + 4 + 12 * i + 4) := by
      rw [entryPtr_field, field_field]
    rw [fixupExportAt, place]
    exact (fixupPtr_around _ _ _ (by omega)).mono (by omega) (by omega)
  have loop : ∃ last, countUp (lengthIn (field base ofs)) (fun i s => .ok (fixupExportAt sections (field base ofs) i s.1, ()))
      rounds 0 (named, ()) = .ok last ∧ Around base (ofs + 4) (ofs + 4 + 12 * count) memory last.1 :=
    countUp_keeps step change.around
  obtain ⟨last, returns, around⟩ := loop
  refine ⟨last.1, ?_, around⟩
  simp only [fixupExportSymsAt, names, returns]

/-- Symbol `i` of a table in the block. -/
def symbolIn (base : U32) (ofs : Nat) (memory : Memory) (i : Nat) : UsoSymbol :=
  symbolRecordAt memory (field base (ofs + 4 + 12 * i))

theorem symbolIn_eq (base : U32) (ofs : Nat) (memory : Memory) (i : Nat) : symbolIn base ofs memory i =
    { name := (symbolIn base ofs memory i).name
      ptr := readWord memory (field base (ofs + 4 + 12 * i + 4))
      sectionIndex := readHalf memory (field base (ofs + 4 + 12 * i + 8))
      nameLen := readHalf memory (field base (ofs + 4 + 12 * i + 10)) } := by
  simp only [symbolIn, symbolRecordAt, field_field]

/-- What `fixup_import_syms` makes of one symbol, and its result so far. -/
def importStep (search : Bytes → U32) (result : Bool) (s : UsoSymbol) : UsoSymbol × Bool :=
  ({ s with ptr := search s.name }, if !usoIsSymbolWeak s && search s.name == 0 then false else result)

theorem threadMap_importStep (search : Bytes → U32) (result : Bool) (symbols : List UsoSymbol) :
    threadMap (importStep search) result symbols = fixupImportLoop search symbols result := by
  induction symbols generalizing result with
  | nil => rfl
  | cons s rest ih =>
    rw [threadMap, ih, fixupImportLoop]
    rfl

/-- A symbol table in the block: its records, and after them the names they point to. -/
structure ShowsSymbols (base : U32) (ofs : Nat) (memory : Memory) (symbols : List UsoSymbol) : Prop where
  length : tableLength memory (field base ofs) = symbols.length
  room : ofs + 4 + 12 * symbols.length ≤ 2 ^ 32
  named : ∀ k s, symbols[k]? = some s → ∀ m, SameBytes base (ofs + 4 + 12 * symbols.length) (2 ^ 32) memory m →
    cStringAt m (ptrFixup (nameIn base ofs memory k) (field base ofs)) = s.name
  ptr : ∀ k s, symbols[k]? = some s → readWord memory (field base (ofs + 4 + 12 * k + 4)) = s.ptr
  sectionIndex : ∀ k s, symbols[k]? = some s → readHalf memory (field base (ofs + 4 + 12 * k + 8)) = s.sectionIndex
  nameLen : ∀ k s, symbols[k]? = some s → readHalf memory (field base (ofs + 4 + 12 * k + 10)) = s.nameLen

/-- Records of a table change, but not their name pointers. -/
structure NamesKept (base : U32) (ofs count : Nat) (m m' : Memory) : Prop where
  around : Around base (ofs + 4) (ofs + 4 + 12 * count) m m'
  names : ∀ k, k < count → nameIn base ofs m' k = nameIn base ofs m k

theorem ShowsSymbols.name {ofs : Nat} {symbols : List UsoSymbol} (shows : ShowsSymbols base ofs memory symbols)
    {m₁ m : Memory} (change : NamesChange base ofs symbols.length memory m₁)
    (fixed : ∀ k, k < symbols.length → nameIn base ofs m₁ k = ptrFixup (nameIn base ofs memory k) (field base ofs))
    (kept : NamesKept base ofs symbols.length m₁ m) {k : Nat} {s : UsoSymbol} (at_k : symbols[k]? = some s) :
    (symbolIn base ofs m k).name = s.name := by
  have inside := (List.getElem?_eq_some_iff.mp at_k).1
  rw [← shows.named k s at_k m (change.around.after.trans kept.around.after), ← fixed k inside, ← kept.names k inside]
  rfl

/-- Once the names are fixed up, the block shows the symbols. -/
theorem ShowsSymbols.afterNames {ofs : Nat} {symbols : List UsoSymbol} (shows : ShowsSymbols base ofs memory symbols)
    {m₁ : Memory} (change : NamesChange base ofs symbols.length memory m₁)
    (fixed : ∀ k, k < symbols.length → nameIn base ofs m₁ k = ptrFixup (nameIn base ofs memory k) (field base ofs))
    {k : Nat} {s : UsoSymbol} (at_k : symbols[k]? = some s) : symbolIn base ofs m₁ k = s := by
  have room := shows.room
  have inside := (List.getElem?_eq_some_iff.mp at_k).1
  have others := change.others k inside
  have name := shows.name change fixed ⟨Around.refl .., fun _ _ => rfl⟩ at_k
  have ptr := readWord_same (others.within (Nat.le_refl _) (by omega))
  have sectionIndex : readHalf m₁ (field base (ofs + 4 + 12 * k + 8)) = _ :=
    readHalf_same (others.within (by omega) (by omega))
  have nameLen : readHalf m₁ (field base (ofs + 4 + 12 * k + 10)) = _ :=
    readHalf_same (others.within (by omega) (by omega))
  rw [shows.ptr k s at_k] at ptr
  rw [shows.sectionIndex k s at_k] at sectionIndex
  rw [shows.nameLen k s at_k] at nameLen
  rw [symbolIn_eq, name, ptr, sectionIndex, nameLen]

/-- One round of the loop over the imports. -/
theorem fixupImportAt_round {ofs : Nat} {symbols : List UsoSymbol} (shows : ShowsSymbols base ofs memory symbols)
    {m₁ : Memory} (change : NamesChange base ofs symbols.length memory m₁)
    (fixed : ∀ k, k < symbols.length → nameIn base ofs m₁ k = ptrFixup (nameIn base ofs memory k) (field base ofs))
    (search : Bytes → U32) {k : Nat} {s : UsoSymbol} (at_k : symbols[k]? = some s) {m : Memory} (result : Bool)
    (kept : NamesKept base ofs symbols.length m₁ m) (shown : symbolIn base ofs m k = s) :
    ∃ m', Round (ε := Fault) (symbolIn base ofs) (importStep search)
      (fun i s => .ok (fixupImportAt search (field base ofs) i s.1 s.2)) (NamesKept base ofs symbols.length m₁)
      symbols.length k s m result m' := by
  have room := shows.room
  have inside := (List.getElem?_eq_some_iff.mp at_k).1
  have here : symbolRecordAt m (entryPtr (field base ofs) k) = s := by
    rw [entryPtr_field]
    exact shown
  have place : field (entryPtr (field base ofs) k) 4 = field base (ofs + 4 + 12 * k + 4) := by
    rw [entryPtr_field, field_field]
  have stored := storeWord_stored m (field base (ofs + 4 + 12 * k + 4)) (search s.name)
  have around := Around.stored stored (show ofs + 4 + 12 * k + 4 + 4 ≤ 2 ^ 32 by omega)
  have kept' : NamesKept base ofs symbols.length m₁ (storeWord m (field base (ofs + 4 + 12 * k + 4)) (search s.name)) :=
    ⟨kept.around.trans (around.mono (by omega) (by omega)), fun j below =>
      (around.word (by omega) (by omega)).trans (kept.names j below)⟩
  refine ⟨_, ?_, ?_, fun j below other => ?_, kept'⟩
  · simp only [fixupImportAt, here, place]
    rfl
  · have fields := symbolIn_eq base ofs m k
    rw [shown] at fields
    have sectionIndex : s.sectionIndex = readHalf m _ := congrArg UsoSymbol.sectionIndex fields
    have nameLen : s.nameLen = readHalf m _ := congrArg UsoSymbol.nameLen fields
    rw [symbolIn_eq, shows.name change fixed kept' at_k, stored.read, around.half (by omega) (by omega), ← sectionIndex,
      around.half (by omega) (by omega), ← nameLen]
    rfl
  · have at_j := List.getElem?_eq_getElem below
    rw [symbolIn_eq, shows.name change fixed kept' at_j, symbolIn_eq base ofs m, shows.name change fixed kept at_j,
      around.word (by omega) (by omega), around.half (by omega) (by omega), around.half (by omega) (by omega)]

/-- The import table in the block. -/
theorem fixupImportSymsAt_eq {ofs : Nat} {symbols : List UsoSymbol} (shows : ShowsSymbols base ofs memory symbols)
    (search : Bytes → U32) :
    ∃ m', fixupImportSymsAt search (field base ofs) memory = .ok (m', (fixupImportSyms search symbols).2) ∧
      (∀ k s, (fixupImportSyms search symbols).1[k]? = some s → symbolIn base ofs m' k = s) ∧
      Around base (ofs + 4) (ofs + 4 + 12 * symbols.length) memory m' := by
  have room := shows.room
  have few : symbols.length < 2 ^ 32 := shows.length ▸ (readWord memory (field base ofs)).isLt
  obtain ⟨m₁, names, change, fixed⟩ := fixupSymbolTableNamesAt_eq shows.length room
  have loop : ∃ m, countUp (lengthIn (field base ofs)) (fun i s => .ok (fixupImportAt search (field base ofs) i s.1 s.2))
      rounds 0 (m₁, true) = Except.ok (ε := Fault) (m, (threadMap (importStep search) true symbols).2) ∧ _ :=
    countUp_threadMap (fun m _ kept => ((tableLength_same kept.around (by omega)).trans
        (tableLength_same change.around (by omega))).trans shows.length)
      (show 0 + symbols.length = symbols.length by omega)
      (fun k s at_k m result kept shown => by
        rw [Nat.zero_add] at shown ⊢
        exact fixupImportAt_round shows change fixed search at_k result kept shown)
      (by rw [rounds]; omega) (⟨Around.refl .., fun _ _ => rfl⟩ : NamesKept base ofs symbols.length m₁ m₁)
      (fun k s at_k => by
        rw [Nat.zero_add]
        exact shows.afterNames change fixed at_k)
  obtain ⟨m, returns, kept, records, -⟩ := loop
  rw [threadMap_importStep] at returns records
  refine ⟨m, ?_, fun k s at_k => ?_, change.around.trans kept.around⟩
  · simp only [fixupImportSymsAt, names]
    exact returns
  · rw [← Nat.zero_add k]
    exact records k s at_k

end

end DragonUso.InPlaceFixups
