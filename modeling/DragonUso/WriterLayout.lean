import DragonUso.ToolWriter

/-! Where the writes of `uso_write` land. Every function's writes stay in areas of their own as
long as no write passes a limit below `2 ^ 31`; the limit also rules out every wrap of the
`uint32_t` offsets, because an offset that wrapped would have been written past the limit first. -/

namespace DragonUso.WriterLayout
open ByteOrder SparseFile WordAlign Format ToolCollect ToolWriter

/-- No write that stores a byte passes `limit`. -/
def Bounded (limit : Nat) (writes : List Write) : Prop := ∀ w ∈ writes, w.data ≠ [] → w.stop ≤ limit

theorem Bounded.left {limit : Nat} {first second : List Write} (bounded : Bounded limit (first ++ second)) :
    Bounded limit first := fun w member => bounded w (List.mem_append_left _ member)

theorem Bounded.right {limit : Nat} {first second : List Write} (bounded : Bounded limit (first ++ second)) :
    Bounded limit second := fun w member => bounded w (List.mem_append_right _ member)

theorem Bounded.head {limit : Nat} {w : Write} {rest : List Write} (bounded : Bounded limit (w :: rest))
    (some : w.data ≠ []) : w.stop ≤ limit := bounded w List.mem_cons_self some

theorem Bounded.tail {limit : Nat} {w : Write} {rest : List Write} (bounded : Bounded limit (w :: rest)) :
    Bounded limit rest := fun v member => bounded v (List.mem_cons_of_mem _ member)

theorem toNat_add_small {x y : U32} (fits : x.toNat + y.toNat < 2 ^ 32) :
    (x + y).toNat = x.toNat + y.toNat := by
  rw [BitVec.toNat_add, Nat.mod_eq_of_lt fits]

theorem toNat_ofNat_small {n : Nat} (fits : n < 2 ^ 32) : (BitVec.ofNat 32 n).toNat = n := by
  rw [BitVec.toNat_ofNat, Nat.mod_eq_of_lt fits]

theorem pow2_four : IsPow2 (4 : U32) := ⟨2, by decide, rfl⟩

/-- Aligning an offset of at most `2 ^ 31` cannot wrap, whatever the power of two. -/
theorem alignVal_toNat {x unit : U32} (pow : IsPow2 unit) (bound : x.toNat ≤ 2 ^ 31) :
    (alignVal x unit).toNat = alignUp x.toNat unit.toNat ∧ alignUp x.toNat unit.toNat ≤ 2 ^ 31 := by
  obtain ⟨k, small, value⟩ := id pow
  have divides : unit.toNat ∣ 2 ^ 31 := value ▸ Nat.pow_dvd_pow 2 (by omega)
  have limit := alignUp_le bound divides
  exact ⟨roundMask_toNat_of_lt pow (by omega), limit⟩

/-! ### Symbol tables -/

/-- Names that fit the length field beside the weak bit. -/
def NameFits (name : Bytes) : Prop := name.length ≤ 32766

theorem nameLen_toNat {name : Bytes} (fits : NameFits name) :
    (BitVec.ofNat 16 name.length).toNat = name.length := by
  unfold NameFits at fits
  rw [BitVec.toNat_ofNat, Nat.mod_eq_of_lt (by omega)]

theorem symbolNameBytes_eq {s : SymbolInfo} (fits : NameFits s.name) :
    symbolNameBytes s = s.name ++ [0] := by
  unfold symbolNameBytes
  rw [nameLen_toNat fits]
  apply List.take_of_length_le
  simp

/-- A name takes its length cut to 16 bits, and one byte more. -/
@[simp] theorem symbolNameBytes_length (s : SymbolInfo) :
    (symbolNameBytes s).length = s.name.length % 65536 + 1 := by
  have cut := Nat.mod_le s.name.length 65536
  have width : (2 : Nat) ^ 16 = 65536 := rfl
  rw [symbolNameBytes, List.length_take, List.length_append, List.length_singleton, BitVec.toNat_ofNat, width]
  omega

theorem nextNameOfs_toNat {nameOfs : U32} {s : SymbolInfo}
    (room : nameOfs.toNat + (symbolNameBytes s).length < 2 ^ 32) :
    (nextNameOfs nameOfs s).toNat = nameOfs.toNat + (symbolNameBytes s).length := by
  have width : (2 : Nat) ^ 16 = 65536 := rfl
  have one : (1 : U32).toNat = 1 := rfl
  have wide : ((BitVec.ofNat 16 s.name.length).setWidth 32 : U32).toNat = s.name.length % 65536 := by
    rw [BitVec.toNat_setWidth, BitVec.toNat_ofNat, width, Nat.mod_eq_of_lt (by omega)]
  have step : ((BitVec.ofNat 16 s.name.length).setWidth 32 + 1 : U32).toNat = (symbolNameBytes s).length := by
    rw [toNat_add_small (by omega), wide, one, symbolNameBytes_length]
  rw [nextNameOfs, toNat_add_small (by rw [step]; exact room), step]

/-- Bytes the names of a table take in the file. -/
def storedSize : List SymbolInfo → Nat
  | [] => 0
  | s :: rest => (symbolNameBytes s).length + storedSize rest

/-- Bytes taken by the names of a table, terminators included. -/
def namesSize : List SymbolInfo → Nat
  | [] => 0
  | s :: rest => s.name.length + 1 + namesSize rest

def tableSize (syms : List SymbolInfo) : Nat := 4 + 12 * syms.length + namesSize syms

@[simp] theorem symbolBytes_length (nameOfs : U32) (s : SymbolInfo) : (symbolBytes nameOfs s).length = 12 := rfl

/-- Records advance through `[recLo, recHi)` and names through `[nameLo, nameHi)`. -/
def InTwoAreas (recLo recHi nameLo nameHi : Nat) (w : Write) : Prop :=
  (recLo ≤ w.ofs ∧ w.stop ≤ recHi) ∨ (nameLo ≤ w.ofs ∧ w.stop ≤ nameHi)

theorem storedSize_eq {syms : List SymbolInfo} (names : ∀ s ∈ syms, NameFits s.name) :
    storedSize syms = namesSize syms := by
  induction syms with
  | nil => rfl
  | cons s rest ih =>
    rw [storedSize, namesSize, ih fun t member => names t (List.mem_cons_of_mem _ member),
      symbolNameBytes_eq (names s List.mem_cons_self), List.length_append, List.length_singleton]

theorem writeSymbolLoop_areas {ofs : U32} {limit : Nat} (small : limit < 2 ^ 31) (syms : List SymbolInfo)
    (i : Nat) (nameOfs : U32) (bounded : Bounded limit (writeSymbolLoop ofs i nameOfs syms))
    (start : ofs.toNat + nameOfs.toNat ≤ limit)
    (records : 4 + 12 * (i + syms.length) ≤ nameOfs.toNat) :
    ofs.toNat + nameOfs.toNat + storedSize syms ≤ limit ∧
    (∀ w ∈ writeSymbolLoop ofs i nameOfs syms, InTwoAreas (ofs.toNat + 4 + 12 * i)
      (ofs.toNat + 4 + 12 * (i + syms.length)) (ofs.toNat + nameOfs.toNat)
      (ofs.toNat + nameOfs.toNat + storedSize syms) w) ∧
    (writeSymbolLoop ofs i nameOfs syms).Pairwise Apart := by
  induction syms generalizing i nameOfs with
  | nil => exact ⟨by simpa [storedSize] using start, by simp [writeSymbolLoop], List.Pairwise.nil⟩
  | cons s rest ih =>
    have four : (4 : U32).toNat = 4 := rfl
    have header : (4 + ofs).toNat = 4 + ofs.toNat := toNat_add_small (by omega)
    have place : (ofs + nameOfs).toNat = ofs.toNat + nameOfs.toNat := toNat_add_small (by omega)
    have stored : 0 < (symbolNameBytes s).length := by
      rw [symbolNameBytes_length]
      exact Nat.succ_pos _
    simp only [List.length_cons] at records
    unfold writeSymbolLoop at bounded ⊢
    -- the name write is bounded, so the next name offset is again inside the file
    have nameStop := bounded.tail.head (List.ne_nil_of_length_pos stored)
    simp only [Write.stop, place] at nameStop
    have next : (nextNameOfs nameOfs s).toNat = nameOfs.toNat + (symbolNameBytes s).length :=
      nextNameOfs_toNat (by omega)
    obtain ⟨last, areas, apart⟩ := ih (i + 1) (nextNameOfs nameOfs s) bounded.tail.tail (by omega) (by omega)
    rw [next] at last areas
    simp only [storedSize, List.length_cons]
    have recordStop : (⟨(4 + ofs).toNat + i * 12, symbolBytes nameOfs s⟩ : Write).stop =
        ofs.toNat + 4 + 12 * i + 12 := by
      simp only [Write.stop, symbolBytes_length, header]
      omega
    have nameEnd : (⟨(ofs + nameOfs).toNat, symbolNameBytes s⟩ : Write).stop =
        ofs.toNat + nameOfs.toNat + (symbolNameBytes s).length := by
      simp only [Write.stop, place]
    refine ⟨by omega, ?_, ?_⟩
    · intro w member
      rcases List.mem_cons.mp member with rfl | member
      · left
        rw [recordStop]
        simp only [header]
        omega
      · rcases List.mem_cons.mp member with rfl | member
        · right
          rw [nameEnd]
          simp only [place]
          omega
        · rcases areas w member with record | name
          · left
            omega
          · right
            omega
    · refine List.Pairwise.cons ?_ (List.Pairwise.cons ?_ apart)
      · intro w member
        rcases List.mem_cons.mp member with rfl | member
        · left
          rw [recordStop]
          simp only [place]
          omega
        · left
          rw [recordStop]
          rcases areas w member with record | name <;> omega
      · intro w member
        rcases areas w member with record | name
        · right
          simp only [place]
          omega
        · left
          rw [nameEnd]
          omega

/-- Record offsets are computed without wrapping, so the last record bounds their number. -/
theorem writeSymbolLoop_records {ofs : U32} {limit : Nat} (syms : List SymbolInfo) (i : Nat) (nameOfs : U32)
    (some : syms ≠ []) (bounded : Bounded limit (writeSymbolLoop ofs i nameOfs syms)) :
    (4 + ofs).toNat + 12 * (i + syms.length) ≤ limit := by
  induction syms generalizing i nameOfs with
  | nil => exact absurd rfl some
  | cons s rest ih =>
    unfold writeSymbolLoop at bounded
    have own := bounded.head (by simp [symbolBytes, be32])
    simp only [Write.stop, symbolBytes_length] at own
    rw [List.length_cons]
    by_cases last : rest = []
    · subst last
      rw [List.length_nil]
      omega
    · have later := ih (i + 1) _ last bounded.tail.tail
      omega

theorem symGetDataSizeLoop_toNat (syms : List SymbolInfo) (size : U32)
    (room : size.toNat + namesSize syms < 2 ^ 32) :
    (symGetDataSizeLoop syms size).toNat = size.toNat + namesSize syms := by
  induction syms generalizing size with
  | nil => rfl
  | cons s rest ih =>
    simp only [namesSize] at room ⊢
    have length := toNat_ofNat_small (n := s.name.length + 1) (by omega)
    have step : (size + BitVec.ofNat 32 (s.name.length + 1)).toNat = size.toNat + (s.name.length + 1) := by
      rw [toNat_add_small (by omega), length]
    rw [symGetDataSizeLoop, ih _ (by omega), step]
    omega

/-- A bounded symbol table is its count, its records and its stored names, one after the other. -/
theorem usoWriteSymbolTable_stored {ofs : U32} {limit : Nat} {syms : List SymbolInfo} (small : limit < 2 ^ 31)
    (some : syms ≠ []) (bounded : Bounded limit (usoWriteSymbolTable ofs syms)) :
    (4 + BitVec.ofNat 32 (syms.length * 12) : U32).toNat = 4 + 12 * syms.length ∧
    ofs.toNat + (4 + 12 * syms.length + storedSize syms) ≤ limit ∧
    Within ofs.toNat (ofs.toNat + (4 + 12 * syms.length + storedSize syms)) (usoWriteSymbolTable ofs syms) ∧
    (usoWriteSymbolTable ofs syms).Pairwise Apart := by
  have four : (4 : U32).toNat = 4 := rfl
  have count := bounded.left.head (by simp [be32])
  simp only [Write.stop, be32_length] at count
  have records := writeSymbolLoop_records syms 0 _ some bounded.right
  have header : (4 + ofs).toNat = 4 + ofs.toNat := toNat_add_small (by omega)
  have twelve : (BitVec.ofNat 32 (syms.length * 12)).toNat = syms.length * 12 :=
    toNat_ofNat_small (by omega)
  have nameStart : (4 + BitVec.ofNat 32 (syms.length * 12) : U32).toNat = 4 + 12 * syms.length := by
    rw [toNat_add_small (by omega), twelve, four]
    omega
  obtain ⟨last, areas, apart⟩ := writeSymbolLoop_areas small syms 0 _ bounded.right (by omega) (by omega)
  rw [nameStart] at last areas
  refine ⟨nameStart, by omega, ?_, ?_⟩
  · intro w member
    rcases List.mem_append.mp member with first | later
    · rw [List.mem_singleton.mp first]
      simp only [Write.stop, be32_length]
      omega
    · rcases areas w later with record | name <;> omega
  · rw [usoWriteSymbolTable, List.pairwise_append]
    refine ⟨List.pairwise_singleton .., apart, ?_⟩
    intro w first v later
    left
    rw [List.mem_singleton.mp first]
    simp only [Write.stop, be32_length]
    rcases areas v later with record | name <;> omega

/-- A bounded symbol table ends where `sym_get_data_size` says, and its writes do not overlap. -/
theorem usoWriteSymbolTable_areas {ofs : U32} {limit : Nat} {syms : List SymbolInfo} (small : limit < 2 ^ 31)
    (some : syms ≠ []) (names : ∀ s ∈ syms, NameFits s.name)
    (bounded : Bounded limit (usoWriteSymbolTable ofs syms)) :
    ofs.toNat + tableSize syms ≤ limit ∧ (symGetDataSize syms).toNat = tableSize syms ∧
    Within ofs.toNat (ofs.toNat + tableSize syms) (usoWriteSymbolTable ofs syms) ∧
    (usoWriteSymbolTable ofs syms).Pairwise Apart := by
  obtain ⟨nameStart, last, within, apart⟩ := usoWriteSymbolTable_stored small some bounded
  rw [storedSize_eq names, ← tableSize] at last within
  refine ⟨last, ?_, within, apart⟩
  have base : (4 + BitVec.ofNat 32 (12 * syms.length) : U32).toNat = 4 + 12 * syms.length := by
    rw [Nat.mul_comm 12, nameStart]
    omega
  unfold tableSize at last
  unfold symGetDataSize tableSize
  rw [symGetDataSizeLoop_toNat syms _ (by omega), base]

/-! ### Sections -/

@[simp] theorem relocBytes_length (r : UsoReloc) : (relocBytes r).length = 12 := rfl

@[simp] theorem sectionBytes_length (s : UsoSection) : (sectionBytes s).length = 20 := rfl

theorem flatMap_relocBytes_length (relocs : List UsoReloc) :
    (relocs.flatMap relocBytes).length = 12 * relocs.length := by
  induction relocs with
  | nil => rfl
  | cons r rest ih =>
    simp only [List.flatMap_cons, List.length_append, relocBytes_length, ih, List.length_cons]
    omega

/-- A bounded relocation table fills the bytes from `relocsOfs` to the next offset. -/
theorem writeRelocTable_area {sectionsOfs relocsOfs : U32} {limit : Nat} {relocs : List UsoReloc}
    (small : limit < 2 ^ 31) (start : relocsOfs.toNat ≤ 2 ^ 31)
    (bounded : Bounded limit (writeRelocTable sectionsOfs relocsOfs relocs).1) :
    relocsOfs.toNat ≤ (writeRelocTable sectionsOfs relocsOfs relocs).2.2.toNat ∧
    (writeRelocTable sectionsOfs relocsOfs relocs).2.2.toNat ≤ 2 ^ 31 ∧
    Within relocsOfs.toNat (writeRelocTable sectionsOfs relocsOfs relocs).2.2.toNat
      (writeRelocTable sectionsOfs relocsOfs relocs).1 ∧
    (writeRelocTable sectionsOfs relocsOfs relocs).1.Pairwise Apart := by
  have four : (4 : U32).toNat = 4 := rfl
  unfold writeRelocTable at bounded ⊢
  by_cases present : relocs.length > 0
  · simp only [if_pos present] at bounded ⊢
    have countStop := bounded.left.head (by simp [be32])
    simp only [Write.stop, be32_length] at countStop
    have entries : (relocsOfs + 4).toNat = relocsOfs.toNat + 4 := toNat_add_small (by omega)
    have size := flatMap_relocBytes_length relocs
    have entriesStop := bounded.right.head (List.ne_nil_of_length_pos (by
      change 0 < (relocs.flatMap relocBytes).length
      omega))
    simp only [Write.stop, size, entries] at entriesStop
    have twelve : (BitVec.ofNat 32 (relocs.length * 12)).toNat = relocs.length * 12 :=
      toNat_ofNat_small (by omega)
    have table : (usoGetRelocTableSize relocs).toNat = 4 + relocs.length * 12 := by
      unfold usoGetRelocTableSize
      rw [toNat_add_small (by omega), twelve, four]
    have next : (relocsOfs + usoGetRelocTableSize relocs).toNat = relocsOfs.toNat + (4 + relocs.length * 12) := by
      rw [toNat_add_small (by omega), table]
    rw [next]
    refine ⟨by omega, by omega, ?_, ?_⟩
    · intro w member
      rcases List.mem_append.mp member with first | second
      · rw [List.mem_singleton.mp first]
        simp only [Write.stop, be32_length]
        omega
      · rw [List.mem_singleton.mp second]
        simp only [Write.stop, size, entries]
        omega
    · rw [usoWriteRelocations, List.pairwise_append]
      refine ⟨List.pairwise_singleton .., List.pairwise_singleton .., ?_⟩
      intro w first v second
      left
      rw [List.mem_singleton.mp first, List.mem_singleton.mp second]
      simp only [Write.stop, be32_length]
      omega
  · simp only [if_neg present]
    exact ⟨Nat.le_refl _, start, fun w member => absurd member List.not_mem_nil, List.Pairwise.nil⟩

/-- Alignments are powers of two wherever there is data. -/
def AlignedData (outSections : List SectionInfo) : Prop :=
  ∀ s ∈ outSections, s.data.isSome → IsPow2 s.align

/-- A bounded data write fills the bytes from the aligned start to the next offset. -/
theorem writeSectionData_area {sectionsOfs dataOfs : U32} {limit : Nat} {s : SectionInfo}
    (small : limit < 2 ^ 31) (aligned : s.data.isSome → IsPow2 s.align) (start : dataOfs.toNat ≤ 2 ^ 31)
    (bounded : Bounded limit (writeSectionData sectionsOfs dataOfs s).1) :
    dataOfs.toNat ≤ (writeSectionData sectionsOfs dataOfs s).2.2.toNat ∧
    (writeSectionData sectionsOfs dataOfs s).2.2.toNat ≤ 2 ^ 31 ∧
    Within dataOfs.toNat (writeSectionData sectionsOfs dataOfs s).2.2.toNat
      (writeSectionData sectionsOfs dataOfs s).1 ∧
    (writeSectionData sectionsOfs dataOfs s).1.Pairwise Apart := by
  unfold writeSectionData at bounded ⊢
  cases found : s.data with
  | none => exact ⟨Nat.le_refl _, start, fun w member => absurd member List.not_mem_nil, List.Pairwise.nil⟩
  | some bytes =>
    rw [found] at bounded
    have pow := aligned (by simp [found])
    obtain ⟨value, top⟩ := alignVal_toNat pow start
    have above := le_alignUp dataOfs.toNat pow.pos
    have size := s.data_length bytes found
    have room : alignUp dataOfs.toNat s.align.toNat + s.size.toNat ≤ 2 ^ 31 := by
      by_cases empty : bytes = []
      · rw [← size, empty]
        simpa using top
      · have stop := bounded.head empty
        simp only [Write.stop, size, value] at stop
        omega
    have next : (alignVal dataOfs s.align + s.size).toNat =
        alignUp dataOfs.toNat s.align.toNat + s.size.toNat := by
      rw [toNat_add_small (by omega), value]
    simp only [next]
    refine ⟨by omega, room, ?_, List.pairwise_singleton ..⟩
    intro w member
    rw [List.mem_singleton.mp member]
    simp only [Write.stop, size, value]
    omega

/-- Offset after the internal relocation table of a section. -/
def afterInternal (sectionsOfs relocsOfs : U32) (s : SectionInfo) : U32 :=
  (writeRelocTable sectionsOfs relocsOfs s.internalRelocs).2.2

def afterExternal (sectionsOfs relocsOfs : U32) (s : SectionInfo) : U32 :=
  (writeRelocTable sectionsOfs (afterInternal sectionsOfs relocsOfs s) s.externalRelocs).2.2

def afterData (sectionsOfs dataOfs : U32) (s : SectionInfo) : U32 := (writeSectionData sectionsOfs dataOfs s).2.2

/-- The record written for a section when the running offsets stand at these values. -/
def sectionRecord (sectionsOfs dataOfs relocsOfs : U32) (s : SectionInfo) : UsoSection where
  data := (writeSectionData sectionsOfs dataOfs s).2.1
  dataSize := s.size
  dataAlign := s.align
  internalRelocs := (writeRelocTable sectionsOfs relocsOfs s.internalRelocs).2.1
  externalRelocs := (writeRelocTable sectionsOfs (afterInternal sectionsOfs relocsOfs s) s.externalRelocs).2.1

theorem writeSectionLoop_cons (sectionsOfs dataOfs relocsOfs : U32) (i : Nat) (s : SectionInfo)
    (rest : List SectionInfo) :
    writeSectionLoop sectionsOfs i dataOfs relocsOfs (s :: rest) =
      (writeSectionData sectionsOfs dataOfs s).1 ++
        ((writeRelocTable sectionsOfs relocsOfs s.internalRelocs).1 ++
          ((writeRelocTable sectionsOfs (afterInternal sectionsOfs relocsOfs s) s.externalRelocs).1 ++
            (⟨sectionsOfs.toNat + i * 20, sectionBytes (sectionRecord sectionsOfs dataOfs relocsOfs s)⟩ ::
              writeSectionLoop sectionsOfs (i + 1) (afterData sectionsOfs dataOfs s)
                (afterExternal sectionsOfs relocsOfs s) rest))) := rfl

/-- Section records, section data and everything from the relocation tables on. -/
def InThreeAreas (recLo recHi dataLo dataHi relocLo : Nat) (w : Write) : Prop :=
  (recLo ≤ w.ofs ∧ w.stop ≤ recHi) ∨ (dataLo ≤ w.ofs ∧ w.stop ≤ dataHi) ∨ relocLo ≤ w.ofs

/-- The offset recomputed by `uso_get_reloc_ofs` follows the offsets of the writing loop. -/
theorem usoGetRelocOfs_cons (sectionsOfs dataOfs : U32) (s : SectionInfo) (rest : List SectionInfo) :
    usoGetRelocOfs (s :: rest) dataOfs = usoGetRelocOfs rest (afterData sectionsOfs dataOfs s) := by
  rw [usoGetRelocOfs, afterData, writeSectionData]
  cases s.data <;> simp

/-- The data offsets never pass `2 ^ 31`, and only grow. -/
theorem usoGetRelocOfs_le {sectionsOfs : U32} {limit : Nat} (small : limit < 2 ^ 31)
    (outSections : List SectionInfo) (i : Nat) (dataOfs relocsOfs : U32) (aligned : AlignedData outSections)
    (bounded : Bounded limit (writeSectionLoop sectionsOfs i dataOfs relocsOfs outSections))
    (dataStart : dataOfs.toNat ≤ 2 ^ 31) :
    dataOfs.toNat ≤ (usoGetRelocOfs outSections dataOfs).toNat ∧
      (usoGetRelocOfs outSections dataOfs).toNat ≤ 2 ^ 31 := by
  induction outSections generalizing i dataOfs relocsOfs with
  | nil => exact ⟨Nat.le_refl _, dataStart⟩
  | cons s rest ih =>
    rw [writeSectionLoop_cons] at bounded
    rw [usoGetRelocOfs_cons sectionsOfs]
    obtain ⟨up, top, -, -⟩ := writeSectionData_area small (aligned s List.mem_cons_self) dataStart bounded.left
    obtain ⟨later, bound⟩ := ih (i + 1) (afterData sectionsOfs dataOfs s) _
      (fun t member => aligned t (List.mem_cons_of_mem _ member)) bounded.right.right.right.tail top
    exact ⟨Nat.le_trans up later, bound⟩

/-- Record offsets are computed without wrapping, so the last record bounds their number. -/
theorem writeSectionLoop_records {sectionsOfs : U32} {limit : Nat} (outSections : List SectionInfo) (i : Nat)
    (dataOfs relocsOfs : U32) (some : outSections ≠ [])
    (bounded : Bounded limit (writeSectionLoop sectionsOfs i dataOfs relocsOfs outSections)) :
    sectionsOfs.toNat + 20 * (i + outSections.length) ≤ limit := by
  induction outSections generalizing i dataOfs relocsOfs with
  | nil => exact absurd rfl some
  | cons s rest ih =>
    rw [writeSectionLoop_cons] at bounded
    have own := bounded.right.right.right.head (by simp [sectionBytes, be32])
    simp only [Write.stop, sectionBytes_length] at own
    rw [List.length_cons]
    by_cases last : rest = []
    · subst last
      rw [List.length_nil]
      omega
    · have later := ih (i + 1) _ _ last bounded.right.right.right.tail
      omega

theorem writeSectionLoop_areas {sectionsOfs : U32} {limit : Nat} (small : limit < 2 ^ 31)
    (outSections : List SectionInfo) (i : Nat) (dataOfs relocsOfs : U32) (aligned : AlignedData outSections)
    (bounded : Bounded limit (writeSectionLoop sectionsOfs i dataOfs relocsOfs outSections))
    (dataStart : dataOfs.toNat ≤ 2 ^ 31) (relocStart : relocsOfs.toNat ≤ 2 ^ 31)
    (records : sectionsOfs.toNat + 20 * (i + outSections.length) ≤ dataOfs.toNat)
    (order : (usoGetRelocOfs outSections dataOfs).toNat ≤ relocsOfs.toNat) :
    dataOfs.toNat ≤ (usoGetRelocOfs outSections dataOfs).toNat ∧
    (∀ w ∈ writeSectionLoop sectionsOfs i dataOfs relocsOfs outSections,
      InThreeAreas (sectionsOfs.toNat + 20 * i) (sectionsOfs.toNat + 20 * (i + outSections.length))
        dataOfs.toNat (usoGetRelocOfs outSections dataOfs).toNat relocsOfs.toNat w) ∧
    (writeSectionLoop sectionsOfs i dataOfs relocsOfs outSections).Pairwise Apart := by
  induction outSections generalizing i dataOfs relocsOfs with
  | nil => exact ⟨Nat.le_refl _, by simp [writeSectionLoop], List.Pairwise.nil⟩
  | cons s rest ih =>
    rw [usoGetRelocOfs_cons sectionsOfs] at order ⊢
    rw [writeSectionLoop_cons] at bounded ⊢
    obtain ⟨dataUp, dataTop, dataIn, dataApart⟩ := writeSectionData_area small
      (aligned s List.mem_cons_self) dataStart bounded.left
    obtain ⟨intUp, intTop, intIn, intApart⟩ := writeRelocTable_area small relocStart bounded.right.left
    obtain ⟨extUp, extTop, extIn, extApart⟩ := writeRelocTable_area small intTop bounded.right.right.left
    rw [← afterData] at dataUp dataTop dataIn
    rw [← afterInternal] at intUp intTop intIn
    rw [← afterInternal, ← afterExternal] at extUp extTop extIn
    simp only [List.length_cons] at records ⊢
    obtain ⟨later, areas, apart⟩ := ih (i + 1) _ _
      (fun t member => aligned t (List.mem_cons_of_mem _ member)) bounded.right.right.right.tail
      dataTop extTop (by omega) (by omega)
    refine ⟨by omega, ?_, ?_⟩
    · intro w member
      rcases List.mem_append.mp member with data | member
      · have own := dataIn w data
        exact Or.inr (Or.inl (by omega))
      rcases List.mem_append.mp member with internal | member
      · exact Or.inr (Or.inr (intIn w internal).1)
      rcases List.mem_append.mp member with external | member
      · have own := extIn w external
        exact Or.inr (Or.inr (by omega))
      rcases List.mem_cons.mp member with rfl | tail
      · left
        simp only [Write.stop, sectionBytes_length]
        omega
      · rcases areas w tail with record | data | reloc
        · exact Or.inl (by omega)
        · exact Or.inr (Or.inl (by omega))
        · exact Or.inr (Or.inr (by omega))
    · -- the head's writes precede the tail's in each of the three areas
      have recordApart : ∀ w : Write, (dataOfs.toNat ≤ w.ofs ∨ relocsOfs.toNat ≤ w.ofs ∨
          sectionsOfs.toNat + 20 * (i + 1) ≤ w.ofs) → sectionsOfs.toNat + i * 20 + 20 ≤ w.ofs := by
        intro w place
        omega
      have relocApart : ∀ w : Write, relocsOfs.toNat ≤ w.ofs → w.stop ≤ (afterExternal sectionsOfs relocsOfs s).toNat →
          ∀ v ∈ ⟨sectionsOfs.toNat + i * 20, sectionBytes (sectionRecord sectionsOfs dataOfs relocsOfs s)⟩ ::
            writeSectionLoop sectionsOfs (i + 1) (afterData sectionsOfs dataOfs s) (afterExternal sectionsOfs relocsOfs s)
              rest, Apart w v := by
        intro w low high v member
        rcases List.mem_cons.mp member with rfl | tail
        · right
          simp only [Write.stop, sectionBytes_length]
          exact recordApart w (by omega)
        · rcases areas v tail with record | data | reloc
          · exact Or.inr (by omega)
          · exact Or.inr (by omega)
          · exact Or.inl (by omega)
      refine List.pairwise_append.mpr ⟨dataApart, List.pairwise_append.mpr ⟨intApart,
        List.pairwise_append.mpr ⟨extApart, List.Pairwise.cons ?_ apart, ?_⟩, ?_⟩, ?_⟩
      · intro w tail
        left
        simp only [Write.stop, sectionBytes_length]
        apply recordApart
        rcases areas w tail with record | data | reloc <;> omega
      · intro w external
        have own := extIn w external
        exact relocApart w (by omega) own.2
      · intro w internal v member
        have own := intIn w internal
        rcases List.mem_append.mp member with external | member
        · have next := extIn v external
          exact Or.inl (by omega)
        · exact relocApart w own.1 (by omega) v member
      · intro w data v member
        have own := dataIn w data
        rcases List.mem_append.mp member with internal | member
        · have next := intIn v internal
          exact Or.inl (by omega)
        rcases List.mem_append.mp member with external | member
        · have next := extIn v external
          exact Or.inl (by omega)
        rcases List.mem_cons.mp member with rfl | tail
        · right
          simp only [Write.stop, sectionBytes_length]
          exact recordApart w (by omega)
        · rcases areas v tail with record | next | reloc
          · exact Or.inr (by omega)
          · exact Or.inl (by omega)
          · exact Or.inl (by omega)

theorem dataStart_pow2 (outSections : List SectionInfo) (aligned : AlignedData outSections) :
    IsPow2 (usoCalcDataStartAlignment outSections) := by
  induction outSections with
  | nil => exact ⟨0, by decide, rfl⟩
  | cons s rest ih =>
    unfold usoCalcDataStartAlignment
    split
    next present => exact aligned s List.mem_cons_self present
    next => exact ih (fun t member => aligned t (List.mem_cons_of_mem _ member))

/-- Offsets of a bounded section table: records, then data, then relocation tables. -/
structure SectionOffsets (sectionsOfs : U32) (outSections : List SectionInfo) : Prop where
  records : sectionsOfs.toNat + 20 * outSections.length ≤ (dataStartOfs sectionsOfs outSections).toNat
  data_le : (dataStartOfs sectionsOfs outSections).toNat ≤ 2 ^ 31
  relocs_le : (relocsStartOfs sectionsOfs outSections).toNat ≤ 2 ^ 31
  order : (usoGetRelocOfs outSections (dataStartOfs sectionsOfs outSections)).toNat ≤
    (relocsStartOfs sectionsOfs outSections).toNat

theorem sectionOffsets {sectionsOfs : U32} {limit : Nat} {outSections : List SectionInfo} (small : limit < 2 ^ 31)
    (some : outSections ≠ []) (aligned : AlignedData outSections)
    (bounded : Bounded limit (usoWriteSections sectionsOfs outSections)) :
    SectionOffsets sectionsOfs outSections := by
  have records := writeSectionLoop_records outSections 0 _ _ some bounded
  have count : (BitVec.ofNat 32 (outSections.length * 20)).toNat = outSections.length * 20 :=
    toNat_ofNat_small (by omega)
  have table : (sectionsOfs + BitVec.ofNat 32 (outSections.length * 20)).toNat =
      sectionsOfs.toNat + outSections.length * 20 := by
    rw [toNat_add_small (by omega), count]
  have pow := dataStart_pow2 outSections aligned
  obtain ⟨value, top⟩ := alignVal_toNat (x := sectionsOfs + BitVec.ofNat 32 (outSections.length * 20)) pow
    (by omega)
  have above := le_alignUp (sectionsOfs + BitVec.ofNat 32 (outSections.length * 20)).toNat pow.pos
  have dataTop : (dataStartOfs sectionsOfs outSections).toNat ≤ 2 ^ 31 := by
    unfold dataStartOfs
    omega
  obtain ⟨-, dataEnd⟩ := usoGetRelocOfs_le small outSections 0 _ _ aligned bounded dataTop
  obtain ⟨relocValue, relocTop⟩ := alignVal_toNat pow2_four dataEnd
  have relocAbove := le_alignUp (usoGetRelocOfs outSections (dataStartOfs sectionsOfs outSections)).toNat
    pow2_four.pos
  refine ⟨?_, dataTop, ?_, ?_⟩
  · unfold dataStartOfs
    omega
  · unfold relocsStartOfs
    omega
  · unfold relocsStartOfs
    omega

/-- The whole section part of the file: nothing before the table, and no overlap. -/
theorem usoWriteSections_areas {sectionsOfs : U32} {limit : Nat} {outSections : List SectionInfo}
    (small : limit < 2 ^ 31) (some : outSections ≠ []) (aligned : AlignedData outSections)
    (bounded : Bounded limit (usoWriteSections sectionsOfs outSections)) :
    (∀ w ∈ usoWriteSections sectionsOfs outSections, sectionsOfs.toNat ≤ w.ofs) ∧
    (usoWriteSections sectionsOfs outSections).Pairwise Apart := by
  have offsets := sectionOffsets small some aligned bounded
  have records := offsets.records
  have order := offsets.order
  obtain ⟨grow, areas, apart⟩ := writeSectionLoop_areas small outSections 0 _ _ aligned bounded
    offsets.data_le offsets.relocs_le (by omega) offsets.order
  refine ⟨?_, apart⟩
  intro w member
  rcases areas w member with record | data | reloc <;> omega

end DragonUso.WriterLayout
