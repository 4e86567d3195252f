import DragonUso.Relocation

/-! One table on its own: with disjoint target words every entry leaves a word computed from the
memory before the table was applied. A HI16 and its LO16 then make up an address together. -/

namespace DragonUso.HiLoPair
open ByteOrder PatchSet WordMemory Format Relocation

/-- The target words of a table have no byte in common. -/
def TargetsApart (sectionBase : U32) (table : List UsoReloc) : Prop :=
  table.Pairwise fun a b => WordsApart (sectionBase + a.offset) (sectionBase + b.offset)

theorem tablePatches_mem {uso : LoadedUso} {internal : Bool} {sectionBase : U32} {table : List UsoReloc}
    {p : Patch U32 Byte} (member : p ∈ tablePatches uso internal sectionBase table) :
    ∃ (i : Nat) (r : UsoReloc), table[i]? = some r ∧
      p = relocPatch sectionBase (symAddrD uso internal r) r (table.drop (i + 1)) := by
  induction table with
  | nil => exact absurd member List.not_mem_nil
  | cons reloc later ih =>
    rcases List.mem_cons.mp member with rfl | member
    · exact ⟨0, reloc, rfl, rfl⟩
    · obtain ⟨i, r, at_i, same⟩ := ih member
      exact ⟨i + 1, r, at_i, same⟩

theorem mem_tablePatches {uso : LoadedUso} {internal : Bool} {sectionBase : U32} {table : List UsoReloc}
    {i : Nat} {r : UsoReloc} (at_i : table[i]? = some r) :
    relocPatch sectionBase (symAddrD uso internal r) r (table.drop (i + 1)) ∈
      tablePatches uso internal sectionBase table := by
  induction table generalizing i with
  | nil => simp at at_i
  | cons reloc later ih =>
    cases i with
    | zero =>
      rw [List.getElem?_cons_zero, Option.some.injEq] at at_i
      subst reloc
      exact List.mem_cons_self
    | succ i => exact List.mem_cons_of_mem _ (ih at_i)

/-- Everything an entry of a table reads is a target of the table. -/
theorem reads_target {sectionBase : U32} {table : List UsoReloc} {i : Nat} {r : UsoReloc} {p : U32}
    (at_i : table[i]? = some r) (read : relocReads sectionBase r (table.drop (i + 1)) p) :
    ∃ q ∈ table, inWord (sectionBase + q.offset) p := by
  unfold relocReads at read
  rcases Bool.or_eq_true_iff.mp read with own | ahead
  · exact ⟨r, List.mem_of_getElem? at_i, own⟩
  · cases found : searchLo16 (table.drop (i + 1)) with
    | none => simp [found] at ahead
    | some loReloc =>
      simp only [found] at ahead
      rw [searchLo16_eq] at found
      exact ⟨loReloc, List.mem_of_mem_drop (List.mem_of_find?_eq_some found), ahead⟩

/-- No entry writes what a later one reads: the LO16 word is still unpatched when a HI16 looks. -/
theorem tablePatches_spares {uso : LoadedUso} {internal : Bool} {sectionBase : U32} {table : List UsoReloc}
    (apart : TargetsApart sectionBase table) : (tablePatches uso internal sectionBase table).Pairwise Spares := by
  induction table with
  | nil => exact List.Pairwise.nil
  | cons reloc later ih =>
    obtain ⟨first, rest⟩ := List.pairwise_cons.mp apart
    refine List.Pairwise.cons ?_ (ih rest)
    intro p member
    obtain ⟨i, r, at_i, rfl⟩ := tablePatches_mem member
    refine ⟨fun a inside => first r (List.mem_of_getElem? at_i) a inside, fun a inside => ?_⟩
    cases read : (relocPatch sectionBase (symAddrD uso internal r) r (later.drop (i + 1))).reads a with
    | false => rfl
    | true =>
      obtain ⟨q, target, cell⟩ := reads_target at_i read
      exact absurd cell (by simp [first q target a inside])

/-- The word of an entry after its table was applied. -/
theorem readWord_tablePatches {uso : LoadedUso} {internal : Bool} {sectionBase : U32} {table : List UsoReloc}
    (apart : TargetsApart sectionBase table) (memory : Memory) {i : Nat} {r : UsoReloc} (at_i : table[i]? = some r) :
    readWord (run (tablePatches uso internal sectionBase table) memory) (sectionBase + r.offset) =
      relocatedWord memory sectionBase (symAddrD uso internal r) r (table.drop (i + 1)) := by
  apply readWord_of_wordByte
  intro p inside
  exact run_inside (tablePatches_spares apart) memory (mem_tablePatches at_i) inside

/-! ### The pair as a number -/

/-- The address a HI16 half and a LO16 half stand for: the low one is sign-extended. -/
def hiLoValue (hi lo : U16) : U32 := (hi.setWidth 32 <<< 16) + lo.signExtend 32

theorem hiLoValue_toNat (hi lo : U16) :
    (hiLoValue hi lo).toNat =
      (hi.toNat * 65536 + (lo.toNat + if lo.toNat < 32768 then 0 else 4294901760)) % 4294967296 := by
  have msb : lo.msb = decide (32768 ≤ lo.toNat) := by rw [BitVec.msb_eq_decide]
  have low := lo.isLt
  have high := hi.isLt
  unfold hiLoValue
  rw [BitVec.toNat_add, BitVec.toNat_shiftLeft, BitVec.toNat_setWidth, BitVec.toNat_signExtend,
    BitVec.toNat_setWidth, msb, Nat.shiftLeft_eq]
  simp only [decide_eq_true_eq]
  split <;> split <;> omega

theorem carriedHi_toNat (addr : U32) :
    (carriedHi addr).toNat = (addr.toNat / 65536 + if addr.toNat % 65536 < 32768 then 0 else 1) % 65536 := by
  have bound := addr.isLt
  have shifted : ((addr >>> 16).setWidth 16 : U16).toNat = addr.toNat / 65536 := by
    rw [BitVec.toNat_setWidth, BitVec.toNat_ushiftRight, Nat.shiftRight_eq_div_pow]
    omega
  have bit : addr &&& 0x8000 ≠ 0 ↔ ¬ addr.toNat % 65536 < 32768 := by
    have top : (0x8000 : U32) = BitVec.twoPow 32 15 := by decide
    rw [top, BitVec.and_twoPow, BitVec.getLsbD, Nat.testBit_eq_decide_div_mod_eq]
    by_cases set : addr.toNat / 2 ^ 15 % 2 = 1
    · simp only [set, decide_true, ↓reduceIte]
      refine iff_of_true (by decide) (by omega)
    · simp only [set, decide_false, Bool.false_eq_true, ↓reduceIte]
      refine iff_of_false (by simp) (by omega)
  have one : (1 : U16).toNat = 1 := rfl
  unfold carriedHi
  by_cases set : addr &&& 0x8000 ≠ 0
  · rw [if_pos set, if_neg (bit.mp set), BitVec.toNat_add, shifted, one]
  · rw [if_neg set, if_pos (Decidable.not_not.mp fun high => set (bit.mpr high)), shifted]
    omega

theorem lowHalf_toNat (word : U32) : (lowHalf word).toNat = word.toNat % 65536 := BitVec.toNat_setWidth ..

/-- The carried high half and the low half of an address stand for the address. -/
theorem hiLoValue_carriedHi (addr : U32) : hiLoValue (carriedHi addr) (lowHalf addr) = addr := by
  apply BitVec.eq_of_toNat_eq
  have bound := addr.isLt
  rw [hiLoValue_toNat, carriedHi_toNat, lowHalf_toNat]
  split <;> omega

/-- What the loader adds for the most negative low half, whose sign it does not see. -/
def missedSign (lo : U16) : U32 := if lo = 0x8000 then 0x10000 else 0

theorem missedSign_toNat (lo : U16) : (missedSign lo).toNat = if lo.toNat = 32768 then 65536 else 0 := by
  have edge : (0x8000 : U16).toNat = 32768 := rfl
  unfold missedSign
  by_cases same : lo = 0x8000
  · rw [if_pos same, same, edge]
    rfl
  · have different : lo.toNat ≠ 32768 := fun equal => same (BitVec.eq_of_toNat_eq (by rw [equal, edge]))
    rw [if_neg same, if_neg different]
    rfl

theorem signCorrected (hi lo : U16) :
    (let addr : U32 := (hi.setWidth 32 <<< 16) + lo.setWidth 32
      if 0x8000 < lo then addr - 0x10000 else addr) = hiLoValue hi lo + missedSign lo := by
  have step : (0x10000 : U32).toNat = 65536 := rfl
  have low := lo.isLt
  have high := hi.isLt
  have sum : ((hi.setWidth 32 <<< 16) + lo.setWidth 32 : U32).toNat = hi.toNat * 65536 + lo.toNat := by
    rw [BitVec.toNat_add, BitVec.toNat_shiftLeft, BitVec.toNat_setWidth, BitVec.toNat_setWidth,
      Nat.shiftLeft_eq]
    omega
  apply BitVec.eq_of_toNat_eq
  rw [BitVec.toNat_add, hiLoValue_toNat, missedSign_toNat]
  by_cases above : 0x8000 < lo
  · have order : 32768 < lo.toNat := above
    simp only [if_pos above]
    rw [BitVec.toNat_sub, sum, step, if_neg (by omega), if_neg (by omega)]
    omega
  · have order : ¬ 32768 < lo.toNat := above
    simp only [if_neg above, sum]
    split <;> split <;> omega

/-- The loader's address is the right one except for the most negative low half. -/
theorem hiLoAddress_eq (hi lo : U16) (symAddr : U32) :
    hiLoAddress hi lo symAddr = hiLoValue hi lo + symAddr + missedSign lo := by
  have corrected := signCorrected hi lo
  simp only at corrected
  calc
    _ = hiLoValue hi lo + missedSign lo + symAddr := by
      unfold hiLoAddress
      simp only [corrected]
    _ = hiLoValue hi lo + (symAddr + missedSign lo) := by rw [BitVec.add_assoc, BitVec.add_comm (missedSign lo)]
    _ = _ := (BitVec.add_assoc ..).symm

theorem lowHalf_hiLoAddress (hi lo : U16) (symAddr : U32) :
    lowHalf (hiLoAddress hi lo symAddr) = lo + lowHalf symAddr := by
  apply BitVec.eq_of_toNat_eq
  have low := lo.isLt
  rw [hiLoAddress_eq, lowHalf_toNat, BitVec.toNat_add, BitVec.toNat_add, hiLoValue_toNat, BitVec.toNat_add,
    lowHalf_toNat]
  have extra : (missedSign lo).toNat % 65536 = 0 := by
    rw [missedSign_toNat]
    split <;> rfl
  split <;> omega

theorem missedSign_eq_zero (lo : U16) : missedSign lo = 0 ↔ lo ≠ 0x8000 := by
  unfold missedSign
  by_cases same : lo = 0x8000
  · rw [if_pos same]
    exact iff_of_false (by decide) (fun different => different same)
  · rw [if_neg same]
    exact iff_of_true rfl same

theorem lowHalf_withLowHalf (word : U32) (low : U16) : lowHalf (withLowHalf word low) = low := by
  apply BitVec.eq_of_getLsbD_eq
  intro i bound
  have mask : (0xFFFF0000 : U32) = BitVec.allOnes 32 <<< 16 := by decide
  simp only [lowHalf, withLowHalf, mask, BitVec.getLsbD_setWidth, BitVec.getLsbD_or, BitVec.getLsbD_and,
    BitVec.getLsbD_shiftLeft]
  simp [bound]
  omega

theorem highHalf_withLowHalf (word : U32) (low : U16) :
    (withLowHalf word low).extractLsb' 16 16 = word.extractLsb' 16 16 := by
  apply BitVec.eq_of_getLsbD_eq
  intro i bound
  have mask : (0xFFFF0000 : U32) = BitVec.allOnes 32 <<< 16 := by decide
  simp only [withLowHalf, mask, BitVec.getLsbD_extractLsb', BitVec.getLsbD_or, BitVec.getLsbD_and,
    BitVec.getLsbD_shiftLeft, BitVec.getLsbD_setWidth, BitVec.getLsbD_allOnes]
  simp [bound]
  omega

/-! ### The pair in a table -/

/-- Entry `i` is a HI16 and entry `j` is the first LO16 after it. -/
structure IsPair (table : List UsoReloc) (i j : Nat) (hiReloc loReloc : UsoReloc) : Prop where
  at_i : table[i]? = some hiReloc
  at_j : table[j]? = some loReloc
  hi : usoGetRelocType hiReloc = R_MIPS_HI16
  lo : usoGetRelocType loReloc = R_MIPS_LO16
  after : i < j
  first : ∀ k r, i < k → k < j → table[k]? = some r → usoGetRelocType r ≠ R_MIPS_LO16

theorem IsPair.find {table : List UsoReloc} {i j : Nat} {hiReloc loReloc : UsoReloc}
    (pair : IsPair table i j hiReloc loReloc) : searchLo16 (table.drop (i + 1)) = some loReloc := by
  rw [searchLo16_eq]
  have later := pair.after
  obtain ⟨bound, at_j⟩ := List.getElem?_eq_some_iff.mp pair.at_j
  apply List.find?_eq_some_iff_getElem.mpr
  refine ⟨by simp [isLo16, pair.lo], j - (i + 1), by rw [List.length_drop]; omega, ?_, ?_⟩
  · rw [List.getElem_drop]
    have place : i + 1 + (j - (i + 1)) = j := by omega
    simp only [place, at_j]
  · intro k below
    rw [List.getElem_drop]
    have none := pair.first (i + 1 + k) table[i + 1 + k] (by omega) (by omega) (List.getElem?_eq_getElem _)
    simpa [isLo16] using none

/-- The address a pair of words holds in a memory. -/
def pairValue (memory : Memory) (hiTarget loTarget : U32) : U32 :=
  hiLoValue (lowHalf (readWord memory hiTarget)) (lowHalf (readWord memory loTarget))

theorem relocatedWord_hi {memory : Memory} {sectionBase symAddr : U32} {reloc loReloc : UsoReloc}
    {later : List UsoReloc} (type : usoGetRelocType reloc = R_MIPS_HI16) (found : searchLo16 later = some loReloc) :
    lowHalf (relocatedWord memory sectionBase symAddr reloc later) =
      carriedHi (hiLoAddress (lowHalf (readWord memory (sectionBase + reloc.offset)))
        (lowHalf (readWord memory (sectionBase + loReloc.offset))) symAddr) := by
  simp only [relocatedWord, type, relocatedHi, found]
  exact lowHalf_withLowHalf _ _

theorem relocatedWord_lo {memory : Memory} {sectionBase symAddr : U32} {reloc : UsoReloc} {later : List UsoReloc}
    (type : usoGetRelocType reloc = R_MIPS_LO16) :
    lowHalf (relocatedWord memory sectionBase symAddr reloc later) =
      lowHalf (readWord memory (sectionBase + reloc.offset)) + lowHalf symAddr := by
  simp only [relocatedWord, type]
  exact lowHalf_withLowHalf _ _

theorem applyUsoRelocs_ok {uso : LoadedUso} {targetSection : Nat} {internal : Bool} {s : LoadedSection}
    {table : List UsoReloc} (found : uso.sections[targetSection]? = some s) (loaded : s.data ≠ 0)
    (tabled : relocTable s internal = some table) (applicable : ∀ r ∈ table, Applicable uso internal r)
    (memory : Memory) :
    applyUsoRelocs uso targetSection internal memory =
      .ok (run (tablePatches uso internal s.data table) memory) := by
  unfold applyUsoRelocs
  simp only [found, tabled, if_neg loaded]
  exact applyRelocLoop_ok applicable s.data memory

/-- A table is applied to its end, and a pair in it is moved by the symbol's address exactly when
the LO16 half was not the most negative one. -/
theorem pairValue_applied_iff {uso : LoadedUso} {targetSection : Nat} {internal : Bool} {s : LoadedSection}
    {table : List UsoReloc} (found : uso.sections[targetSection]? = some s) (loaded : s.data ≠ 0)
    (tabled : relocTable s internal = some table) (applicable : ∀ r ∈ table, Applicable uso internal r)
    (apart : TargetsApart s.data table) (memory : Memory) :
    ∃ after, applyUsoRelocs uso targetSection internal memory = .ok after ∧
      ∀ i j hiReloc loReloc symAddr, IsPair table i j hiReloc loReloc →
        symbolAddress uso internal hiReloc = .ok symAddr → symbolAddress uso internal loReloc = .ok symAddr →
        (pairValue after (s.data + hiReloc.offset) (s.data + loReloc.offset) =
            pairValue memory (s.data + hiReloc.offset) (s.data + loReloc.offset) + symAddr ↔
          lowHalf (readWord memory (s.data + loReloc.offset)) ≠ 0x8000) := by
  refine ⟨_, applyUsoRelocs_ok found loaded tabled applicable memory, ?_⟩
  intro i j hiReloc loReloc symAddr pair hiSymbol loSymbol
  have hiAddr : symAddrD uso internal hiReloc = symAddr := by simp only [symAddrD, hiSymbol]
  have loAddr : symAddrD uso internal loReloc = symAddr := by simp only [symAddrD, loSymbol]
  have moved : pairValue (run (tablePatches uso internal s.data table) memory) (s.data + hiReloc.offset)
      (s.data + loReloc.offset) =
        pairValue memory (s.data + hiReloc.offset) (s.data + loReloc.offset) + symAddr +
          missedSign (lowHalf (readWord memory (s.data + loReloc.offset))) := by
    unfold pairValue
    rw [readWord_tablePatches apart memory pair.at_i, readWord_tablePatches apart memory pair.at_j, hiAddr, loAddr,
      relocatedWord_hi pair.hi pair.find, relocatedWord_lo pair.lo, ← lowHalf_hiLoAddress, hiLoValue_carriedHi,
      hiLoAddress_eq]
  rw [moved, ← missedSign_eq_zero]
  exact BitVec.add_right_eq_self

/-- A section of two words: a HI16 and its LO16, both against the section itself. -/
def pairUso : LoadedUso where
  sections :=
    [⟨0, 0, 0, none, none⟩,
      ⟨0x80001000, 8, 4, some [⟨0, 0x14000001, 0⟩, ⟨4, 0x18000001, 0⟩], none⟩]
  importSyms := none
  exportSyms := none
  ehFrameSection := 0
  ctorsSection := 0
  dtorsSection := 0

def pairTable : List UsoReloc := [⟨0, 0x14000001, 0⟩, ⟨4, 0x18000001, 0⟩]

/-- The low half of the second word is `0x8000` and everything else is zero. -/
def edgeMemory : Memory := fun p => if p = 0x80001006 then 0x80 else 0

theorem pairTable_applicable : ∀ r ∈ pairTable, Applicable pairUso true r := by
  intro r member
  simp only [pairTable, List.mem_cons, List.not_mem_nil, or_false] at member
  rcases member with rfl | rfl
  · exact ⟨by decide, _, rfl⟩
  · exact ⟨by decide, _, rfl⟩

theorem pairTable_apart : TargetsApart 0x80001000 pairTable := by
  refine List.Pairwise.cons ?_ (List.pairwise_singleton ..)
  intro r member
  rw [List.mem_singleton.mp member]
  exact wordsApart_of_le (by decide) (by decide)

theorem pairTable_isPair : IsPair pairTable 0 1 ⟨0, 0x14000001, 0⟩ ⟨4, 0x18000001, 0⟩ where
  at_i := rfl
  at_j := rfl
  hi := by decide
  lo := by decide
  after := by decide
  first := by
    intro k r above below
    omega

theorem pairValue_applied_iff_pairTable :
    ∃ after, applyUsoRelocs pairUso 1 true edgeMemory = .ok after ∧
      ∀ i j hiReloc loReloc symAddr, IsPair pairTable i j hiReloc loReloc →
        symbolAddress pairUso true hiReloc = .ok symAddr → symbolAddress pairUso true loReloc = .ok symAddr →
        (pairValue after (0x80001000 + hiReloc.offset) (0x80001000 + loReloc.offset) =
            pairValue edgeMemory (0x80001000 + hiReloc.offset) (0x80001000 + loReloc.offset) + symAddr ↔
          lowHalf (readWord edgeMemory (0x80001000 + loReloc.offset)) ≠ 0x8000) :=
  pairValue_applied_iff (s := ⟨0x80001000, 8, 4, some pairTable, none⟩) rfl (by decide) rfl
    pairTable_applicable pairTable_apart edgeMemory

/-- The pair ends up `0x10000` too high. -/
theorem pairValue_edge :
    ∃ after, applyUsoRelocs pairUso 1 true edgeMemory = .ok after ∧
      IsPair pairTable 0 1 ⟨0, 0x14000001, 0⟩ ⟨4, 0x18000001, 0⟩ ∧ TargetsApart 0x80001000 pairTable ∧
      symbolAddress pairUso true ⟨0, 0x14000001, 0⟩ = .ok 0x80001000 ∧
      symbolAddress pairUso true ⟨4, 0x18000001, 0⟩ = .ok 0x80001000 ∧
      pairValue after 0x80001000 0x80001004 ≠ pairValue edgeMemory 0x80001000 0x80001004 + 0x80001000 := by
  refine ⟨_, applyUsoRelocs_ok (s := ⟨0x80001000, 8, 4, some pairTable, none⟩) rfl (by decide) rfl
    pairTable_applicable edgeMemory, pairTable_isPair, pairTable_apart, rfl, rfl, ?_⟩
  decide +kernel

end DragonUso.HiLoPair
