import Mathlib.Data.List.Forall2
import DragonUso.FileLayout

/-! Reading a USO file back: every record, table, name and section of the image decodes to what
`uso_write` was given, through the offsets the loader follows. -/

namespace DragonUso.RoundTrip
open ByteOrder SparseFile WordAlign Format ToolCollect ToolWriter WriterLayout RoundedOffsets LoaderImage FileLayout
open ElfFile

/-! ### Relocation tables -/

theorem readReloc_written {image rest : Bytes} {ofs n : Nat} {r : UsoReloc}
    (read : readAt image ofs n = relocBytes r ++ rest) :
    readReloc image ofs = r ∧ readAt image (ofs + 12) rest.length = rest := by
  simp only [relocBytes, List.append_assoc] at read
  obtain ⟨offset, read⟩ := readAt_be32 read
  obtain ⟨info, read⟩ := readAt_be32 read
  obtain ⟨symOffset, read⟩ := readAt_be32 read
  exact ⟨by rw [readReloc, offset, info, symOffset], read⟩

theorem readRelocs_written {image : Bytes} (relocs : List UsoReloc) (ofs : Nat)
    (read : readAt image ofs (relocs.flatMap relocBytes).length = relocs.flatMap relocBytes) :
    readRelocs image ofs relocs.length = relocs := by
  induction relocs generalizing ofs with
  | nil => rfl
  | cons r rest ih =>
    rw [List.flatMap_cons] at read
    obtain ⟨first, later⟩ := readReloc_written read
    rw [List.length_cons, readRelocs, first, ih (ofs + 12) later]

theorem readRelocTable_written {image : Bytes} {ofs : U32} {relocs : List UsoReloc}
    (room : ofs.toNat + 4 < 2 ^ 32) (count : relocs.length < 2 ^ 32)
    (survives : Survives image (usoWriteRelocations ofs relocs)) :
    readRelocTable image ofs.toNat = relocs := by
  have length := survives.left.head
  have entries := survives.right.head
  simp only [be32_length] at length
  have four : (4 : U32).toNat = 4 := rfl
  rw [toNat_add_small (by omega), four] at entries
  rw [readRelocTable, readU32, length, fromBe32_be32, toNat_ofNat_small count]
  exact readRelocs_written relocs _ entries

/-! ### Symbol tables -/

theorem byteAt_of_readAt {image rest : Bytes} {ofs n : Nat} {b : Byte}
    (read : readAt image ofs n = b :: rest) :
    byteAt image ofs = b ∧ readAt image (ofs + 1) rest.length = rest := by
  have pieces : readAt image ofs n = [b] ++ rest := read
  obtain ⟨first, later⟩ := readAt_split pieces
  exact ⟨by simpa [readAt] using first, later⟩

/-- A terminated name is read back up to its terminator. -/
theorem cString_written {image : Bytes} (name : Bytes) (ofs : Nat) (terminated : 0 ∉ name)
    (read : readAt image ofs (name ++ [0]).length = name ++ [0]) : cString image ofs = name := by
  induction name generalizing ofs with
  | nil =>
    obtain ⟨stop, -⟩ := byteAt_of_readAt read
    unfold cString
    cases tail : image.drop ofs with
    | nil => rfl
    | cons b rest =>
      have here : byteAt image ofs = b := by
        have head := congrArg (fun l => l.getD 0 0) tail
        simpa [byteAt, List.getD_eq_getElem?_getD, List.getElem?_drop] using head
      rw [stop] at here
      simp [← here]
  | cons c rest ih =>
    obtain ⟨here, later⟩ := byteAt_of_readAt read
    have some : c ≠ 0 := fun zero => terminated (by rw [zero]; exact List.mem_cons_self)
    have inside : ofs < image.length := by
      apply Nat.lt_of_not_le
      intro outside
      apply some
      rw [← here, byteAt, List.getD_eq_getElem?_getD, List.getElem?_eq_none outside]
      rfl
    have head : image[ofs] = c := by
      rw [← here, byteAt, List.getD_eq_getElem?_getD, List.getElem?_eq_getElem inside]
      rfl
    have next := ih (ofs + 1) (fun member => terminated (List.mem_cons_of_mem _ member)) later
    unfold cString at next ⊢
    rw [List.drop_eq_getElem_cons inside, head, List.takeWhile_cons_of_pos (by simpa using some), next]

/-- The run-time symbol a tool symbol becomes before its pointer is fixed up. -/
def loadedSymbol (s : SymbolInfo) : UsoSymbol where
  name := s.name
  ptr := s.addr.setWidth 32
  sectionIndex := s.sectionIndex
  nameLen := symbolNameLen s

/-- A value of 32 bits is kept on its way through the tool's 64. -/
theorem exportSymbol_ptr (i : Nat) (s : ElfSymbol) (outSection : U16) :
    (loadedSymbol (exportSymbol i s outSection)).ptr = s.value := by
  simp [loadedSymbol, exportSymbol]

theorem readSymbols_written {image : Bytes} {ofs : U32} {limit : Nat} (small : limit < 2 ^ 31)
    (syms : List SymbolInfo) (i : Nat) (nameOfs : U32) (names : TableFits syms)
    (survives : Survives image (writeSymbolLoop ofs i nameOfs syms)) (header : ofs.toNat + 4 ≤ limit) :
    readSymbols image ofs (ofs.toNat + 4 + 12 * i) syms.length = syms.map loadedSymbol := by
  induction syms generalizing i nameOfs with
  | nil => rfl
  | cons s rest ih =>
    unfold writeSymbolLoop at survives
    have four : (4 : U32).toNat = 4 := rfl
    have place : (4 + ofs).toNat + i * 12 = ofs.toNat + 4 + 12 * i := by
      rw [toNat_add_small (by omega)]
      omega
    obtain ⟨terminated, fits⟩ := names s List.mem_cons_self
    have record := survives.head
    have name := survives.tail.head
    simp only [place, symbolBytes] at record
    simp only [symbolNameBytes_eq fits] at name
    obtain ⟨nameField, record⟩ := readAt_be32 record
    obtain ⟨addr, record⟩ := readAt_be32 record
    obtain ⟨sectionIndex, record⟩ := readAt_be16 record
    have length : readU16 image (ofs.toNat + 4 + 12 * i + 4 + 4 + 2) = symbolNameLen s := by
      rw [readU16]
      rw [be16_length] at record
      rw [record, fromBe16_be16]
    have text := cString_written s.name _ terminated name
    have next := ih (i + 1) _ (fun t member => names t (List.mem_cons_of_mem _ member)) survives.tail.tail
    rw [show ofs.toNat + 4 + 12 * (i + 1) = ofs.toNat + 4 + 12 * i + 12 by omega] at next
    rw [List.length_cons, readSymbols, next, List.map_cons, readSymbol, nameField, text, addr]
    rw [show ofs.toNat + 4 + 12 * i + 8 = ofs.toNat + 4 + 12 * i + 4 + 4 by omega,
      show ofs.toNat + 4 + 12 * i + 10 = ofs.toNat + 4 + 12 * i + 4 + 4 + 2 by omega, sectionIndex, length]
    rfl

/-- A list as an optional table: an empty one is not written. -/
def present {α : Type} (entries : List α) : Option (List α) := if entries = [] then none else some entries

theorem readSymbolTable_written {image : Bytes} {dataOfs : U32} {limit : Nat} {syms : List SymbolInfo}
    (small : limit < 2 ^ 31) (names : TableFits syms) (positive : 0 < dataOfs.toNat) (start : dataOfs.toNat ≤ limit)
    (bounded : Bounded limit (writeOptionalTable dataOfs syms).1)
    (survives : Survives image (writeOptionalTable dataOfs syms).1) :
    readSymbolTable image (writeOptionalTable dataOfs syms).2.1 = present (syms.map loadedSymbol) := by
  have place := writeOptionalTable_area small (fun s member => (names s member).2) start bounded
  obtain ⟨-, -, -, -, place⟩ := place
  unfold present
  by_cases empty : syms = []
  · subst empty
    rfl
  · have place := place empty
    have count : syms.length ≠ 0 := fun zero => empty (List.length_eq_zero_iff.mp zero)
    unfold writeOptionalTable at bounded survives place ⊢
    simp only [if_pos count] at bounded survives place ⊢
    have some : syms.map loadedSymbol ≠ [] := by simpa using empty
    have nonzero : alignVal dataOfs 4 ≠ 0 := by
      intro zero
      have none : (0 : U32).toNat = 0 := rfl
      rw [zero] at place
      omega
    have stop := bounded.left.head (by simp [be32])
    simp only [Write.stop, be32_length] at stop
    have records := writeSymbolLoop_records syms 0 _ empty bounded.right
    have stored := survives.left.head
    simp only [be32_length] at stored
    rw [if_neg some, readSymbolTable, if_neg nonzero, readU32, stored, fromBe32_be32,
      toNat_ofNat_small (by omega)]
    have entries := readSymbols_written small syms 0 _ names survives.right stop
    rw [Nat.mul_zero, Nat.add_zero] at entries
    rw [entries]

/-! ### Sections -/

/-- A relocation table `ofs` bytes past the section table; offset zero is an absent table. -/
def tableFrom (image : Bytes) (sections ofs : U32) : Option (List UsoReloc) :=
  if ofs = 0 then none else some (readRelocTable image (sections + ofs).toNat)

/-- A record of the section table describes a section: sizes and alignment are copied, offsets lead
from the section table to the data and the relocation tables, zero stands for absent, and
whatever is present starts inside the image. -/
structure Describes (image : Bytes) (limit : Nat) (sections : U32) (s : SectionInfo) (r : UsoSection) : Prop where
  size : r.dataSize = s.size
  align : r.dataAlign = s.align
  noload : s.data = none → r.data = 0
  loaded : ∀ bytes, s.data = some bytes → r.data ≠ 0 ∧ 0 < (sections + r.data).toNat ∧
    (sections + r.data).toNat ≤ 2 ^ 31 ∧ readAt image (sections + r.data).toNat bytes.length = bytes
  internal : tableFrom image sections r.internalRelocs = present s.internalRelocs
  external : tableFrom image sections r.externalRelocs = present s.externalRelocs
  internal_inside : r.internalRelocs ≠ 0 → 0 < (sections + r.internalRelocs).toNat ∧
    (sections + r.internalRelocs).toNat + 4 ≤ limit
  external_inside : r.externalRelocs ≠ 0 → 0 < (sections + r.externalRelocs).toNat ∧
    (sections + r.externalRelocs).toNat + 4 ≤ limit

theorem add_sub_back (x y : U32) : x + (y - x) = y := by
  rw [BitVec.add_comm, BitVec.sub_add_cancel]

theorem sub_ne_zero_of_lt {x y : U32} (order : x.toNat < y.toNat) : y - x ≠ 0 := by
  intro same
  have back := add_sub_back x y
  rw [same] at back
  have equal : x = y := by simpa using back
  rw [equal] at order
  exact Nat.lt_irrefl _ order

theorem writeRelocTable_describes {image : Bytes} {sections relocsOfs : U32} {limit : Nat}
    {relocs : List UsoReloc} (small : limit < 2 ^ 31) (order : sections.toNat < relocsOfs.toNat)
    (bounded : Bounded limit (writeRelocTable sections relocsOfs relocs).1)
    (survives : Survives image (writeRelocTable sections relocsOfs relocs).1) :
    tableFrom image sections (writeRelocTable sections relocsOfs relocs).2.1 = present relocs ∧
    ((writeRelocTable sections relocsOfs relocs).2.1 ≠ 0 →
      0 < (sections + (writeRelocTable sections relocsOfs relocs).2.1).toNat ∧
      (sections + (writeRelocTable sections relocsOfs relocs).2.1).toNat + 4 ≤ limit) := by
  unfold writeRelocTable at bounded survives ⊢
  by_cases some : relocs.length > 0
  · simp only [if_pos some] at bounded survives ⊢
    have four : (4 : U32).toNat = 4 := rfl
    have entries : relocs ≠ [] := List.ne_nil_of_length_pos some
    have stop := bounded.left.head (by simp [be32])
    simp only [Write.stop, be32_length] at stop
    have last := bounded.right.head (List.ne_nil_of_length_pos (by
      change 0 < (relocs.flatMap relocBytes).length
      rw [flatMap_relocBytes_length]
      omega))
    simp only [Write.stop, flatMap_relocBytes_length] at last
    rw [add_sub_back]
    refine ⟨?_, fun _ => ⟨by omega, stop⟩⟩
    rw [tableFrom, if_neg (sub_ne_zero_of_lt order), add_sub_back, present, if_neg entries,
      readRelocTable_written (by omega) (by omega) survives]
  · have empty : relocs = [] := List.length_eq_zero_iff.mp (by omega)
    simp only [empty]
    exact ⟨rfl, fun absurd => (absurd rfl).elim⟩

theorem readSection_written {image : Bytes} {ofs : Nat} {r : UsoSection}
    (read : readAt image ofs (sectionBytes r).length = sectionBytes r) : readSection image ofs = r := by
  unfold sectionBytes at read
  obtain ⟨data, read⟩ := readAt_be32 read
  obtain ⟨size, read⟩ := readAt_be32 read
  obtain ⟨align, read⟩ := readAt_be32 read
  obtain ⟨internal, read⟩ := readAt_be32 read
  rw [be32_length] at read
  have external : readU32 image (ofs + 4 + 4 + 4 + 4) = r.externalRelocs := by
    rw [readU32, read, fromBe32_be32]
  unfold readSection
  rw [data, size, show ofs + 8 = ofs + 4 + 4 by omega, align, show ofs + 12 = ofs + 4 + 4 + 4 by omega,
    internal, show ofs + 16 = ofs + 4 + 4 + 4 + 4 by omega, external]

/-- The record the loop writes describes its section, from the writes of this round alone. -/
theorem sectionRecord_describes {image : Bytes} {sections dataOfs relocsOfs : U32} {limit : Nat} {s : SectionInfo}
    (small : limit < 2 ^ 31) (aligned : s.data.isSome → IsPow2 s.align) (dataStart : dataOfs.toNat ≤ 2 ^ 31)
    (relocStart : relocsOfs.toNat ≤ 2 ^ 31) (dataAfter : sections.toNat < dataOfs.toNat)
    (relocAfter : sections.toNat < relocsOfs.toNat)
    (dataSurvives : Survives image (writeSectionData sections dataOfs s).1)
    (intBounded : Bounded limit (writeRelocTable sections relocsOfs s.internalRelocs).1)
    (intSurvives : Survives image (writeRelocTable sections relocsOfs s.internalRelocs).1)
    (extBounded : Bounded limit
      (writeRelocTable sections (afterInternal sections relocsOfs s) s.externalRelocs).1)
    (extSurvives : Survives image
      (writeRelocTable sections (afterInternal sections relocsOfs s) s.externalRelocs).1) :
    Describes image limit sections s (sectionRecord sections dataOfs relocsOfs s) := by
  obtain ⟨intUp, -, -, -⟩ := writeRelocTable_area small relocStart intBounded
  rw [← afterInternal] at intUp
  obtain ⟨internal, internalInside⟩ := writeRelocTable_describes small relocAfter intBounded intSurvives
  obtain ⟨external, externalInside⟩ := writeRelocTable_describes small (Nat.lt_of_lt_of_le relocAfter intUp)
    extBounded extSurvives
  refine ⟨rfl, rfl, ?_, ?_, internal, external, internalInside, externalInside⟩
  · intro none
    simp only [sectionRecord, writeSectionData, none]
  · intro bytes found
    have pow := aligned (by simp [found])
    obtain ⟨value, top⟩ := alignVal_toNat pow dataStart
    have above := le_alignUp dataOfs.toNat pow.pos
    simp only [writeSectionData, found] at dataSurvives
    have stored := dataSurvives.head
    simp only [sectionRecord, writeSectionData, found]
    rw [add_sub_back]
    exact ⟨sub_ne_zero_of_lt (by omega), by omega, by omega, stored⟩

theorem readSections_written {image : Bytes} {sections : U32} {limit : Nat} (small : limit < 2 ^ 31)
    (outSections : List SectionInfo) (i : Nat) (dataOfs relocsOfs : U32) (aligned : AlignedData outSections)
    (bounded : Bounded limit (writeSectionLoop sections i dataOfs relocsOfs outSections))
    (survives : Survives image (writeSectionLoop sections i dataOfs relocsOfs outSections))
    (dataStart : dataOfs.toNat ≤ 2 ^ 31) (relocStart : relocsOfs.toNat ≤ 2 ^ 31)
    (dataAfter : sections.toNat < dataOfs.toNat) (relocAfter : sections.toNat < relocsOfs.toNat) :
    List.Forall₂ (Describes image limit sections) outSections
      (readSections image (sections.toNat + 20 * i) outSections.length) := by
  induction outSections generalizing i dataOfs relocsOfs with
  | nil => exact List.Forall₂.nil
  | cons s rest ih =>
    rw [writeSectionLoop_cons] at bounded survives
    have own := aligned s List.mem_cons_self
    obtain ⟨dataUp, dataTop, -, -⟩ := writeSectionData_area small own dataStart bounded.left
    obtain ⟨intUp, intTop, -, -⟩ := writeRelocTable_area small relocStart bounded.right.left
    obtain ⟨extUp, extTop, -, -⟩ := writeRelocTable_area small intTop bounded.right.right.left
    have record := survives.right.right.right.head
    simp only [Nat.mul_comm i 20] at record
    have describes := sectionRecord_describes small own dataStart relocStart dataAfter relocAfter
      survives.left bounded.right.left survives.right.left bounded.right.right.left survives.right.right.left
    have later := ih (i + 1) (afterData sections dataOfs s) (afterExternal sections relocsOfs s)
      (fun t member => aligned t (List.mem_cons_of_mem _ member))
      bounded.right.right.right.tail survives.right.right.right.tail dataTop extTop
      (Nat.lt_of_lt_of_le dataAfter dataUp)
      (Nat.lt_of_lt_of_le relocAfter (Nat.le_trans intUp extUp))
    rw [show sections.toNat + 20 * (i + 1) = sections.toNat + 20 * i + 20 by omega] at later
    rw [List.length_cons, readSections, readSection_written record]
    exact List.Forall₂.cons describes later

/-! ### The weak bit -/

theorem nameLen_lt {name : Bytes} (fits : NameFits name) : (BitVec.ofNat 16 name.length).toNat < 2 ^ 15 := by
  rw [nameLen_toNat fits]
  unfold NameFits at fits
  omega

theorem usoIsSymbolWeak_loadedSymbol {s : SymbolInfo} (fits : NameFits s.name) :
    usoIsSymbolWeak (loadedSymbol s) = s.weak := by
  have top : (0x8000 : U16) = BitVec.twoPow 16 15 := by decide
  have clear : (BitVec.ofNat 16 s.name.length).getLsbD 15 = false := by
    rw [BitVec.getLsbD, Nat.testBit_lt_two_pow (nameLen_lt fits)]
  unfold usoIsSymbolWeak loadedSymbol symbolNameLen
  cases s.weak with
  | true =>
    simp only [↓reduceIte, top, BitVec.and_twoPow, BitVec.getLsbD_or, clear, BitVec.getLsbD_twoPow]
    decide
  | false =>
    simp only [Bool.false_eq_true, ↓reduceIte, top, BitVec.and_twoPow, clear]
    decide

theorem usoSymbolGetNameLength_loadedSymbol {s : SymbolInfo} (fits : NameFits s.name) :
    (usoSymbolGetNameLength (loadedSymbol s)).toNat = s.name.length := by
  have low : (0x7FFF : U16).toNat = 2 ^ 15 - 1 := rfl
  have high : (0x8000 : U16).toNat % 2 ^ 15 = 0 := rfl
  have small := nameLen_lt fits
  unfold usoSymbolGetNameLength loadedSymbol symbolNameLen
  rw [BitVec.toNat_and, low, Nat.and_two_pow_sub_one_eq_mod]
  cases s.weak with
  | true =>
    simp only [↓reduceIte]
    rw [BitVec.toNat_or, Nat.or_mod_two_pow, high, Nat.or_zero, Nat.mod_eq_of_lt small, nameLen_toNat fits]
  | false =>
    simp only [Bool.false_eq_true, ↓reduceIte]
    rw [Nat.mod_eq_of_lt small, nameLen_toNat fits]

/-! ### The whole file -/

theorem readHeader_written {image : Bytes} {h : UsoHeader} (survives : Survives image (usoWriteHeader h)) :
    readHeader image = h := by
  have read := survives.head
  simp only [headerBytes] at read
  obtain ⟨numSections, read⟩ := readAt_be16 read
  obtain ⟨ehFrame, read⟩ := readAt_be16 read
  obtain ⟨sections, read⟩ := readAt_be32 read
  obtain ⟨imports, read⟩ := readAt_be32 read
  obtain ⟨exports, read⟩ := readAt_be32 read
  obtain ⟨ctors, read⟩ := readAt_be16 read
  rw [be16_length] at read
  have dtors : readU16 image (0 + 2 + 2 + 4 + 4 + 4 + 2) = h.dtorsSection := by
    rw [readU16, read, fromBe16_be16]
  simp only [Nat.zero_add, Nat.reduceAdd] at numSections ehFrame sections imports exports ctors dtors
  unfold readHeader
  rw [numSections, ehFrame, sections, imports, exports, ctors, dtors]

/-- Everything the loader reads from `file` is what the tool was given: the load info, the section
count and the special sections, both symbol tables, and the section table with the data and
relocation tables it leads to, before the fixups and after them in any block that ends in memory. -/
structure ReadsBack (tool : Elf2uso) (file : Bytes) : Prop where
  info : readLoadInfo file =
    { usoSize := BitVec.ofNat 32 (usoImage file).length
      usoAlign := usoGetAlign tool.outSections
      noloadSize := usoGetNoloadSize tool.outSections
      noloadAlign := usoGetNoloadAlign tool.outSections }
  image_length : (usoImage file).length + 16 = file.length
  count : (readHeader (usoImage file)).numSections.toNat = tool.outSections.length
  ehFrame : (readHeader (usoImage file)).ehFrameSection = specialSection tool ehFrameName
  ctors : (readHeader (usoImage file)).ctorsSection = specialSection tool ctorsName
  dtors : (readHeader (usoImage file)).dtorsSection = specialSection tool dtorsName
  imports : readSymbolTable (usoImage file) (readHeader (usoImage file)).importSyms =
    present (tool.importSyms.map loadedSymbol)
  exports : readSymbolTable (usoImage file) (readHeader (usoImage file)).exportSyms =
    present (tool.exportSyms.map loadedSymbol)
  lengths : ∀ s ∈ tool.importSyms ++ tool.exportSyms, usoIsSymbolWeak (loadedSymbol s) = s.weak ∧
    (usoSymbolGetNameLength (loadedSymbol s)).toNat = s.name.length
  sections : List.Forall₂
    (Describes (usoImage file) (usoImage file).length (readHeader (usoImage file)).sections)
    tool.outSections (storedSections (usoImage file))
  fixed : ∀ base noload : U32, base.toNat + (usoImage file).length ≤ 2 ^ 32 →
    ∀ (i : Nat) (s : SectionInfo) (bytes : Bytes), tool.outSections[i + 1]? = some s → s.data = some bytes →
      ∃ r, (fixedSections (usoImage file) base noload)[i + 1]? = some r ∧
        readAt (usoImage file) (r.data - base).toNat bytes.length = bytes ∧
        relocTableAt (usoImage file) base r.internalRelocs = present s.internalRelocs ∧
        relocTableAt (usoImage file) base r.externalRelocs = present s.externalRelocs

theorem forall₂_getElem? {α β : Type} {R : α → β → Prop} {xs : List α} {ys : List β} (all : List.Forall₂ R xs ys)
    {i : Nat} {x : α} (at_i : xs[i]? = some x) : ∃ y, ys[i]? = some y ∧ R x y := by
  induction all generalizing i with
  | nil => simp at at_i
  | @cons a b xs ys related _ ih =>
    cases i with
    | zero =>
      rw [List.getElem?_cons_zero, Option.some.injEq] at at_i
      exact ⟨b, rfl, at_i ▸ related⟩
    | succ i => exact ih at_i

/-- A present relocation table is reached through its rebased pointer. -/
theorem relocTableAt_fixed {image : Bytes} {base sections ofs : U32} {relocs : List UsoReloc}
    (fits : base.toNat + image.length ≤ 2 ^ 32) (small : image.length < 2 ^ 31)
    (table : tableFrom image sections ofs = present relocs)
    (inside : ofs ≠ 0 → 0 < (sections + ofs).toNat ∧ (sections + ofs).toNat + 4 ≤ image.length) :
    relocTableAt image base (if ofs ≠ 0 then ptrFixup ofs (ptrFixup sections base) else ofs) = present relocs := by
  by_cases zero : ofs = 0
  · subst zero
    exact table
  · obtain ⟨positive, stop⟩ := inside zero
    have moved : ptrFixup ofs (ptrFixup sections base) = base + (sections + ofs) := BitVec.add_assoc ..
    have value : (base + (sections + ofs)).toNat = base.toNat + (sections + ofs).toNat :=
      toNat_add_small (by omega)
    have nonzero : base + (sections + ofs) ≠ 0 := by
      intro same
      have none : (0 : U32).toNat = 0 := rfl
      rw [same] at value
      omega
    have back : base + (sections + ofs) - base = sections + ofs := by
      rw [BitVec.add_comm, BitVec.add_sub_cancel]
    rw [if_pos zero, moved, relocTableAt, if_neg nonzero, back, ← table, tableFrom, if_neg zero]

theorem usoImage_usoWrite {tool : Elf2uso} {srcElfName : Bytes} (writable : Writable tool srcElfName) :
    usoImage (usoWrite tool srcElfName) = paddedBody (run (usoWriteBody tool srcElfName).1) :=
  usoImage_usoWriteLoadInfo _ _ writable.size

theorem usoImage_length {tool : Elf2uso} {srcElfName : Bytes} (writable : Writable tool srcElfName) :
    (usoImage (usoWrite tool srcElfName)).length + 16 = (usoWrite tool srcElfName).length := by
  rw [usoImage_usoWrite writable, usoWrite, usoWriteLoadInfo_length]

theorem usoImage_lt {tool : Elf2uso} {srcElfName : Bytes} (writable : Writable tool srcElfName) :
    (usoImage (usoWrite tool srcElfName)).length < 2 ^ 31 := by
  have total := usoImage_length writable
  have size := writable.size
  omega

/-- No write of the body leaves the image. -/
theorem bounded_image {tool : Elf2uso} {srcElfName : Bytes} (writable : Writable tool srcElfName) :
    Bounded (usoImage (usoWrite tool srcElfName)).length (usoWriteBody tool srcElfName).1 := by
  intro w member some
  rw [usoImage_usoWrite writable]
  calc
    _ ≤ bodyLength tool srcElfName := bounded_body tool srcElfName w member some
    _ ≤ _ := paddedBody_length _

theorem bodyLength_le {tool : Elf2uso} {srcElfName : Bytes} (writable : Writable tool srcElfName) :
    bodyLength tool srcElfName ≤ (usoImage (usoWrite tool srcElfName)).length := by
  rw [usoImage_usoWrite writable]
  exact paddedBody_length _

theorem readHeader_usoWrite {tool : Elf2uso} {srcElfName : Bytes} (writable : Writable tool srcElfName) :
    readHeader (usoImage (usoWrite tool srcElfName)) = writtenHeader tool srcElfName :=
  readHeader_written (holdsBody_usoImage writable.size).header

theorem numSections_usoWrite {tool : Elf2uso} {srcElfName : Bytes} (writable : Writable tool srcElfName) :
    (readHeader (usoImage (usoWrite tool srcElfName))).numSections.toNat = tool.outSections.length := by
  have count := writable.count
  rw [readHeader_usoWrite writable, writtenHeader, BitVec.toNat_ofNat, Nat.mod_eq_of_lt (by omega)]

section
variable {tool : Elf2uso} {srcElfName : Bytes}

/-- The import table is read from the image, whatever the sections are. -/
theorem importTable_usoWrite (fit : SymbolsFit tool srcElfName)
    (offsets : OffsetsFit (writtenHeader tool srcElfName).sections tool.outSections) :
    readSymbolTable (usoImage (usoWrite tool srcElfName))
      (readHeader (usoImage (usoWrite tool srcElfName))).importSyms =
        present (tool.importSyms.map loadedSymbol) := by
  have image := holdsBody_usoImage fit.size
  have bounded := boundedParts (bounded_body tool srcElfName)
  have first := fit.offsets.name
  rw [readHeader_written image.header]
  exact readSymbolTable_written fit.body_lt fit.imports (by omega) fit.offsets.name_le bounded.imports
    (fit.survives offsets image).left

theorem exportTable_usoWrite (fit : SymbolsFit tool srcElfName)
    (offsets : OffsetsFit (writtenHeader tool srcElfName).sections tool.outSections) :
    readSymbolTable (usoImage (usoWrite tool srcElfName))
      (readHeader (usoImage (usoWrite tool srcElfName))).exportSyms =
        present (tool.exportSyms.map loadedSymbol) := by
  have image := holdsBody_usoImage fit.size
  have bounded := boundedParts (bounded_body tool srcElfName)
  have first := fit.offsets.name
  have order := fit.offsets.imports
  rw [readHeader_written image.header]
  exact readSymbolTable_written fit.body_lt fit.exports (by omega) fit.offsets.imports_le bounded.exports
    (fit.survives offsets image).right

theorem imports_usoWrite (writable : Writable tool srcElfName) :
    readSymbolTable (usoImage (usoWrite tool srcElfName))
      (readHeader (usoImage (usoWrite tool srcElfName))).importSyms =
        present (tool.importSyms.map loadedSymbol) := importTable_usoWrite writable.symbolsFit writable.offsetsFit

theorem exports_usoWrite (writable : Writable tool srcElfName) :
    readSymbolTable (usoImage (usoWrite tool srcElfName))
      (readHeader (usoImage (usoWrite tool srcElfName))).exportSyms =
        present (tool.exportSyms.map loadedSymbol) := exportTable_usoWrite writable.symbolsFit writable.offsetsFit

end

theorem sections_usoWrite {tool : Elf2uso} {srcElfName : Bytes} (writable : Writable tool srcElfName) :
    List.Forall₂ (Describes (usoImage (usoWrite tool srcElfName)) (usoImage (usoWrite tool srcElfName)).length
      (readHeader (usoImage (usoWrite tool srcElfName))).sections)
      tool.outSections (storedSections (usoImage (usoWrite tool srcElfName))) := by
  have survives := writable.survives.parts
  have part := (boundedParts (bounded_image writable)).sections
  have small := usoImage_lt writable
  have count := numSections_usoWrite writable
  unfold storedSections
  rw [count, readHeader_usoWrite writable]
  have offsets := sectionOffsets small writable.sections_ne_nil writable.alignedData part
  have records := offsets.records
  have order := offsets.order
  have some := List.length_pos_iff.mpr writable.sections_ne_nil
  obtain ⟨grow, -⟩ := usoGetRelocOfs_le small tool.outSections 0 _ _ writable.alignedData part offsets.data_le
  exact readSections_written small tool.outSections 0 _ _ writable.alignedData part
    survives.sections offsets.data_le offsets.relocs_le (by omega) (by omega)

theorem readLoadInfo_usoWrite {tool : Elf2uso} {srcElfName : Bytes} (writable : Writable tool srcElfName) :
    readLoadInfo (usoWrite tool srcElfName) =
      { usoSize := BitVec.ofNat 32 (usoImage (usoWrite tool srcElfName)).length
        usoAlign := usoGetAlign tool.outSections
        noloadSize := usoGetNoloadSize tool.outSections
        noloadAlign := usoGetNoloadAlign tool.outSections } := by
  rw [usoImage_usoWrite writable, usoWrite, readLoadInfo_usoWriteLoadInfo]
  rfl

/-- The fixups lead from a section with data to its bytes and its relocation tables. -/
theorem fixedSections_usoWrite {tool : Elf2uso} {srcElfName : Bytes} (writable : Writable tool srcElfName)
    {base : U32} (noload : U32)
    (fits : base.toNat + (usoImage (usoWrite tool srcElfName)).length ≤ 2 ^ 32)
    {i : Nat} {s : SectionInfo} {bytes : Bytes} (at_i : tool.outSections[i + 1]? = some s)
    (found : s.data = some bytes) :
    ∃ r, (fixedSections (usoImage (usoWrite tool srcElfName)) base noload)[i + 1]? = some r ∧
      readAt (usoImage (usoWrite tool srcElfName)) (r.data - base).toNat bytes.length = bytes ∧
      relocTableAt (usoImage (usoWrite tool srcElfName)) base r.internalRelocs = present s.internalRelocs ∧
      relocTableAt (usoImage (usoWrite tool srcElfName)) base r.externalRelocs = present s.externalRelocs := by
  have small := usoImage_lt writable
  obtain ⟨r, stored, describes⟩ := forall₂_getElem? (sections_usoWrite writable) at_i
  obtain ⟨loaded, -, -, data⟩ := describes.loaded bytes found
  refine ⟨_, fixupSectionTable_loaded _ noload _ i r stored loaded, ?_, ?_, ?_⟩
  · have moved : (fixupSection (ptrFixup (readHeader (usoImage (usoWrite tool srcElfName))).sections base) r).data
        - base = (readHeader (usoImage (usoWrite tool srcElfName))).sections + r.data := by
      simp only [fixupSection, ptrFixup]
      rw [BitVec.add_assoc, BitVec.add_comm base, BitVec.add_sub_cancel]
    rw [moved]
    exact data
  · exact relocTableAt_fixed fits small describes.internal describes.internal_inside
  · exact relocTableAt_fixed fits small describes.external describes.external_inside

/-- Everything the loader reads from a file of the tool is what the tool wrote. -/
theorem usoWrite_readsBack {tool : Elf2uso} {srcElfName : Bytes} (writable : Writable tool srcElfName) :
    ReadsBack tool (usoWrite tool srcElfName) := by
  have header := readHeader_usoWrite writable
  refine
    { info := readLoadInfo_usoWrite writable
      image_length := usoImage_length writable
      count := numSections_usoWrite writable
      ehFrame := by rw [header]; rfl
      ctors := by rw [header]; rfl
      dtors := by rw [header]; rfl
      imports := imports_usoWrite writable
      exports := exports_usoWrite writable
      lengths := ?_
      sections := sections_usoWrite writable
      fixed := fun _ noload fits _ _ _ at_i found => fixedSections_usoWrite writable noload fits at_i found }
  intro s member
  have fits : NameFits s.name := by
    rcases List.mem_append.mp member with imported | exported
    · exact (writable.imports s imported).2
    · exact (writable.exports s exported).2
  exact ⟨usoIsSymbolWeak_loadedSymbol fits, usoSymbolGetNameLength_loadedSymbol fits⟩

/-- A tool state with one section of each kind and one symbol each way. -/
def smallTool : Elf2uso where
  elf :=
    { elfClass := ELFCLASS32, encoding := ELFDATA2MSB, machine := EM_MIPS, type := ET_REL
      sections := [], sections_lt := by decide, symbols_le := by decide, relocations_named := by simp }
  outSectionMap := fun i => if i = 0 then some 0 else none
  outSections :=
    [dummySection,
      { relocElfSection := 0, internalRelocs := [⟨0, 0x08000001, 4⟩], externalRelocs := []
        data := some [1, 2, 3, 4, 5], size := 5, align := 4, data_length := by simp },
      { dummySection with size := 3, align := 2, data_length := by simp [dummySection] }]
  importSyms := [⟨1, [97, 98], 0, true, 0⟩]
  exportSyms := [⟨2, [99], 1, false, 4⟩]
  importSymMap := fun _ => none

theorem smallTool_writable : Writable smallTool [109] where
  dummy := rfl
  count := by decide
  aligned := by
    intro s member
    simp only [smallTool, List.tail_cons, List.mem_cons, List.not_mem_nil, or_false] at member
    rcases member with rfl | rfl
    · exact ⟨2, by decide, rfl⟩
    · exact ⟨1, by decide, rfl⟩
  imports := by unfold TableFits NameFits; decide
  exports := by unfold TableFits NameFits; decide
  size := by decide +kernel

theorem usoWrite_readsBack_smallTool : ReadsBack smallTool (usoWrite smallTool [109]) :=
  usoWrite_readsBack smallTool_writable

end DragonUso.RoundTrip
