import DragonUso.LoaderImage
import DragonUso.RoundedOffsets

/-! The file as a whole: the writes of `uso_write` do not overlap, so all of them are found again
in the image, the part of the file before the load info. -/

namespace DragonUso.FileLayout
open ByteOrder SparseFile WordAlign Format ToolCollect ToolWriter WriterLayout RoundedOffsets LoaderImage

def TableFits (syms : List SymbolInfo) : Prop := ∀ s ∈ syms, 0 ∉ s.name ∧ NameFits s.name

/-- What the tool is given: dummy section first, a section count of 16 bits, power-of-two
alignments past the dummy, NUL-free names that fit, and a file below `2 ^ 31` bytes. -/
structure Writable (tool : Elf2uso) (srcElfName : Bytes) : Prop where
  dummy : tool.outSections.head? = some dummySection
  count : tool.outSections.length ≤ 65535
  aligned : ∀ s ∈ tool.outSections.tail, IsPow2 s.align
  imports : TableFits tool.importSyms
  exports : TableFits tool.exportSyms
  size : (usoWrite tool srcElfName).length < 2 ^ 31

theorem Writable.sections_ne_nil {tool : Elf2uso} {srcElfName : Bytes} (writable : Writable tool srcElfName) :
    tool.outSections ≠ [] := by
  intro none
  have first := writable.dummy
  rw [none] at first
  simp at first

theorem Writable.alignedData {tool : Elf2uso} {srcElfName : Bytes} (writable : Writable tool srcElfName) :
    AlignedData tool.outSections := by
  intro s member present
  have first := writable.dummy
  cases sections : tool.outSections with
  | nil => exact absurd sections writable.sections_ne_nil
  | cons head rest =>
    rw [sections] at first member
    rcases List.mem_cons.mp member with rfl | later
    · rw [Option.some.inj first] at present
      simp [dummySection] at present
    · exact writable.aligned s (by rw [sections]; exact later)

/-- Every write of a list can be read from `image`. -/
def Survives (image : Bytes) (writes : List Write) : Prop :=
  ∀ w ∈ writes, readAt image w.ofs w.data.length = w.data

theorem Survives.left {image : Bytes} {first second : List Write} (survives : Survives image (first ++ second)) :
    Survives image first := fun w member => survives w (List.mem_append_left _ member)

theorem Survives.right {image : Bytes} {first second : List Write} (survives : Survives image (first ++ second)) :
    Survives image second := fun w member => survives w (List.mem_append_right _ member)

theorem Survives.head {image : Bytes} {w : Write} {rest : List Write} (survives : Survives image (w :: rest)) :
    readAt image w.ofs w.data.length = w.data := survives w List.mem_cons_self

theorem Survives.tail {image : Bytes} {w : Write} {rest : List Write} (survives : Survives image (w :: rest)) :
    Survives image rest := fun v member => survives v (List.mem_cons_of_mem _ member)

/-! ### The trailer -/

theorem paddedBody_length (body : Bytes) : body.length ≤ (paddedBody body).length := by
  unfold paddedBody
  split <;> simp

@[simp] theorem loadInfoBytes_length (info : UsoLoadInfo) : (loadInfoBytes info).length = 16 := rfl

theorem usoWriteLoadInfo_length (body : Bytes) (outSections : List SectionInfo) :
    (usoWriteLoadInfo body outSections).length = (paddedBody body).length + 16 := by
  rw [usoWriteLoadInfo, List.length_append, loadInfoBytes_length]

theorem readAt_be32 {file rest : Bytes} {ofs n : Nat} {x : U32}
    (read : readAt file ofs n = be32 x ++ rest) :
    readU32 file ofs = x ∧ readAt file (ofs + 4) rest.length = rest := by
  obtain ⟨first, later⟩ := readAt_split read
  rw [be32_length] at first later
  exact ⟨by rw [readU32, first, fromBe32_be32], later⟩

theorem readAt_be16 {file rest : Bytes} {ofs n : Nat} {x : U16}
    (read : readAt file ofs n = be16 x ++ rest) :
    readU16 file ofs = x ∧ readAt file (ofs + 2) rest.length = rest := by
  obtain ⟨first, later⟩ := readAt_split read
  rw [be16_length] at first later
  exact ⟨by rw [readU16, first, fromBe16_be16], later⟩

/-- The last 16 bytes decode to the load info that was written. -/
theorem readLoadInfo_usoWriteLoadInfo (body : Bytes) (outSections : List SectionInfo) :
    readLoadInfo (usoWriteLoadInfo body outSections) = loadInfo body outSections := by
  have tail := readAt_append_right (paddedBody body) (loadInfoBytes (loadInfo body outSections))
  rw [← usoWriteLoadInfo] at tail
  obtain ⟨size, tail⟩ := readAt_be32 tail
  obtain ⟨align, tail⟩ := readAt_be32 tail
  obtain ⟨noload, tail⟩ := readAt_be32 tail
  have last : readU32 (usoWriteLoadInfo body outSections) ((paddedBody body).length + 4 + 4 + 4) =
      (loadInfo body outSections).noloadAlign := by
    rw [readU32]
    rw [be32_length] at tail
    rw [tail, fromBe32_be32]
  unfold readLoadInfo
  rw [usoWriteLoadInfo_length, Nat.add_sub_cancel]
  rw [show (paddedBody body).length + 16 - 12 = (paddedBody body).length + 4 by omega,
    show (paddedBody body).length + 16 - 8 = (paddedBody body).length + 4 + 4 by omega,
    show (paddedBody body).length + 16 - 4 = (paddedBody body).length + 4 + 4 + 4 by omega,
    size, align, noload, last]

/-- The image is the padded body. -/
theorem usoImage_usoWriteLoadInfo (body : Bytes) (outSections : List SectionInfo)
    (small : (usoWriteLoadInfo body outSections).length < 2 ^ 31) :
    usoImage (usoWriteLoadInfo body outSections) = paddedBody body := by
  rw [usoWriteLoadInfo_length] at small
  unfold usoImage
  rw [readLoadInfo_usoWriteLoadInfo]
  simp only [loadInfo]
  rw [toNat_ofNat_small (by omega), usoWriteLoadInfo, List.take_left]

/-! ### The body -/

/-- A bounded optional table starts where its header field says and ends at the next offset. -/
theorem writeOptionalTable_area {dataOfs : U32} {limit : Nat} {syms : List SymbolInfo} (small : limit < 2 ^ 31)
    (names : ∀ s ∈ syms, NameFits s.name) (start : dataOfs.toNat ≤ limit)
    (bounded : Bounded limit (writeOptionalTable dataOfs syms).1) :
    dataOfs.toNat ≤ (writeOptionalTable dataOfs syms).2.2.toNat ∧
    (writeOptionalTable dataOfs syms).2.2.toNat ≤ limit ∧
    Within dataOfs.toNat (writeOptionalTable dataOfs syms).2.2.toNat (writeOptionalTable dataOfs syms).1 ∧
    (writeOptionalTable dataOfs syms).1.Pairwise Apart ∧
    (syms ≠ [] → dataOfs.toNat ≤ (writeOptionalTable dataOfs syms).2.1.toNat) := by
  unfold writeOptionalTable at bounded ⊢
  by_cases present : syms.length ≠ 0
  · simp only [if_pos present] at bounded ⊢
    obtain ⟨value, top⟩ := alignVal_toNat (x := dataOfs) pow2_four (by omega)
    have above := le_alignUp dataOfs.toNat pow2_four.pos
    have some : syms ≠ [] := fun none => present (by rw [none]; rfl)
    obtain ⟨last, size, within, apart⟩ := usoWriteSymbolTable_areas small some names bounded
    have next : (alignVal dataOfs 4 + symGetDataSize syms).toNat =
        (alignVal dataOfs 4).toNat + tableSize syms := by
      rw [toNat_add_small (by omega), size]
    rw [next]
    exact ⟨by omega, last, within.mono (by omega) (Nat.le_refl _), apart, fun _ => by omega⟩
  · simp only [if_neg present]
    refine ⟨Nat.le_refl _, start, fun w member => absurd member List.not_mem_nil, List.Pairwise.nil, ?_⟩
    intro some
    exact absurd (List.length_eq_zero_iff.mp (by omega)) some

@[simp] theorem headerBytes_length (h : UsoHeader) : (headerBytes h).length = 20 := rfl

def afterName (srcElfName : Bytes) : U32 := 20 + BitVec.ofNat 32 (srcElfName.length + 1)

def afterImports (tool : Elf2uso) (srcElfName : Bytes) : U32 :=
  (writeOptionalTable (afterName srcElfName) tool.importSyms).2.2

def afterExports (tool : Elf2uso) (srcElfName : Bytes) : U32 :=
  (writeOptionalTable (afterImports tool srcElfName) tool.exportSyms).2.2

/-- The header `uso_write` leaves at the start of the file. -/
def writtenHeader (tool : Elf2uso) (srcElfName : Bytes) : UsoHeader where
  numSections := BitVec.ofNat 16 tool.outSections.length
  ehFrameSection := specialSection tool ehFrameName
  sections := alignVal (afterExports tool srcElfName) 4
  importSyms := (writeOptionalTable (afterName srcElfName) tool.importSyms).2.1
  exportSyms := (writeOptionalTable (afterImports tool srcElfName) tool.exportSyms).2.1
  ctorsSection := specialSection tool ctorsName
  dtorsSection := specialSection tool dtorsName

theorem usoWriteBody_writes (tool : Elf2uso) (srcElfName : Bytes) :
    (usoWriteBody tool srcElfName).1 =
      usoWriteElfName 20 srcElfName ++
        ((writeOptionalTable (afterName srcElfName) tool.importSyms).1 ++
          ((writeOptionalTable (afterImports tool srcElfName) tool.exportSyms).1 ++
            (usoWriteSections (writtenHeader tool srcElfName).sections tool.outSections ++
              usoWriteHeader (writtenHeader tool srcElfName)))) := rfl

/-- Length of the file before padding and load info. -/
def bodyLength (tool : Elf2uso) (srcElfName : Bytes) : Nat := (run (usoWriteBody tool srcElfName).1).length

theorem bounded_body (tool : Elf2uso) (srcElfName : Bytes) :
    Bounded (bodyLength tool srcElfName) (usoWriteBody tool srcElfName).1 :=
  fun _ member some => stop_le_length member some

/-- A property of the writes of each part of the body. -/
structure BodyParts (tool : Elf2uso) (srcElfName : Bytes) (property : List Write → Prop) : Prop where
  name : property (usoWriteElfName 20 srcElfName)
  imports : property (writeOptionalTable (afterName srcElfName) tool.importSyms).1
  exports : property (writeOptionalTable (afterImports tool srcElfName) tool.exportSyms).1
  sections : property (usoWriteSections (writtenHeader tool srcElfName).sections tool.outSections)
  header : property (usoWriteHeader (writtenHeader tool srcElfName))

theorem boundedParts {tool : Elf2uso} {srcElfName : Bytes} {limit : Nat}
    (bounded : Bounded limit (usoWriteBody tool srcElfName).1) : BodyParts tool srcElfName (Bounded limit) := by
  rw [usoWriteBody_writes] at bounded
  exact
    { name := bounded.left
      imports := bounded.right.left
      exports := bounded.right.right.left
      sections := bounded.right.right.right.left
      header := bounded.right.right.right.right }

theorem Survives.parts {tool : Elf2uso} {srcElfName image : Bytes}
    (survives : Survives image (usoWriteBody tool srcElfName).1) : BodyParts tool srcElfName (Survives image) := by
  rw [usoWriteBody_writes] at survives
  exact
    { name := survives.left
      imports := survives.right.left
      exports := survives.right.right.left
      sections := survives.right.right.right.left
      header := survives.right.right.right.right }

/-- Symbol lists with names that fit, in a file below `2 ^ 31` bytes; the sections may be any. -/
structure SymbolsFit (tool : Elf2uso) (srcElfName : Bytes) : Prop where
  imports : TableFits tool.importSyms
  exports : TableFits tool.exportSyms
  size : (usoWrite tool srcElfName).length < 2 ^ 31

theorem Writable.symbolsFit {tool : Elf2uso} {srcElfName : Bytes} (writable : Writable tool srcElfName) :
    SymbolsFit tool srcElfName := ⟨writable.imports, writable.exports, writable.size⟩

theorem SymbolsFit.body_lt {tool : Elf2uso} {srcElfName : Bytes} (fit : SymbolsFit tool srcElfName) :
    bodyLength tool srcElfName < 2 ^ 31 := by
  have size := fit.size
  have padded := paddedBody_length (run (usoWriteBody tool srcElfName).1)
  rw [usoWrite, usoWriteLoadInfo_length] at size
  unfold bodyLength
  omega

/-- Where the ELF name and the symbol tables lie, in front of the section table. -/
structure TableOffsets (tool : Elf2uso) (srcElfName : Bytes) : Prop where
  name : 20 < (afterName srcElfName).toNat
  name_le : (afterName srcElfName).toNat ≤ bodyLength tool srcElfName
  nameIn : Within 20 (afterName srcElfName).toNat (usoWriteElfName 20 srcElfName)
  imports : (afterName srcElfName).toNat ≤ (afterImports tool srcElfName).toNat
  imports_le : (afterImports tool srcElfName).toNat ≤ bodyLength tool srcElfName
  importsIn : Within (afterName srcElfName).toNat (afterImports tool srcElfName).toNat
    (writeOptionalTable (afterName srcElfName) tool.importSyms).1
  importsApart : (writeOptionalTable (afterName srcElfName) tool.importSyms).1.Pairwise Apart
  exports : (afterImports tool srcElfName).toNat ≤ (afterExports tool srcElfName).toNat
  exportsIn : Within (afterImports tool srcElfName).toNat (afterExports tool srcElfName).toNat
    (writeOptionalTable (afterImports tool srcElfName) tool.exportSyms).1
  exportsApart : (writeOptionalTable (afterImports tool srcElfName) tool.exportSyms).1.Pairwise Apart
  sections : (afterExports tool srcElfName).toNat ≤ (writtenHeader tool srcElfName).sections.toNat
  sections_le : (writtenHeader tool srcElfName).sections.toNat ≤ 2 ^ 31
  importSyms : tool.importSyms ≠ [] → 20 < (writtenHeader tool srcElfName).importSyms.toNat
  exportSyms : tool.exportSyms ≠ [] → 20 < (writtenHeader tool srcElfName).exportSyms.toNat

theorem SymbolsFit.offsets {tool : Elf2uso} {srcElfName : Bytes} (fit : SymbolsFit tool srcElfName) :
    TableOffsets tool srcElfName := by
  have small := fit.body_lt
  have bounded := boundedParts (bounded_body tool srcElfName)
  have twenty : (20 : U32).toNat = 20 := rfl
  have nameStop := bounded.name.head (by simp)
  simp only [Write.stop, List.length_append, List.length_singleton, twenty] at nameStop
  have after : (afterName srcElfName).toNat = 20 + (srcElfName.length + 1) := by
    have length := toNat_ofNat_small (n := srcElfName.length + 1) (by omega)
    rw [afterName, toNat_add_small (by omega), length, twenty]
  have nameIn : Within 20 (afterName srcElfName).toNat (usoWriteElfName 20 srcElfName) := by
    intro w member
    rw [List.mem_singleton.mp member]
    simp only [Write.stop, List.length_append, List.length_singleton, twenty]
    omega
  obtain ⟨importUp, importTop, importIn, importApart, importStart⟩ := writeOptionalTable_area small
    (fun s member => (fit.imports s member).2) (by omega) bounded.imports
  rw [← afterImports] at importUp importTop importIn
  obtain ⟨exportUp, exportTop, exportIn, exportApart, exportStart⟩ := writeOptionalTable_area small
    (fun s member => (fit.exports s member).2) importTop bounded.exports
  rw [← afterExports] at exportUp exportTop exportIn
  obtain ⟨tableValue, tableTop⟩ := alignVal_toNat (x := afterExports tool srcElfName) pow2_four (by omega)
  have tableAbove := le_alignUp (afterExports tool srcElfName).toNat pow2_four.pos
  refine ⟨by omega, by omega, nameIn, importUp, importTop, importIn, importApart, exportUp, exportIn, exportApart,
    ?_, ?_, ?_, ?_⟩
  · simp only [writtenHeader]
    omega
  · simp only [writtenHeader]
    omega
  · intro some
    have place := importStart some
    simp only [writtenHeader]
    omega
  · intro some
    have place := exportStart some
    simp only [writtenHeader]
    omega

/-- Where the parts of a writable file lie, one after the other. -/
structure BodyOffsets (tool : Elf2uso) (srcElfName : Bytes) : Prop where
  imports : 20 < (afterName srcElfName).toNat
  imports_le : (afterName srcElfName).toNat ≤ bodyLength tool srcElfName
  exports : (afterName srcElfName).toNat ≤ (afterImports tool srcElfName).toNat
  exports_le : (afterImports tool srcElfName).toNat ≤ bodyLength tool srcElfName
  table : (afterImports tool srcElfName).toNat ≤ (writtenHeader tool srcElfName).sections.toNat
  importSyms : tool.importSyms ≠ [] → 20 < (writtenHeader tool srcElfName).importSyms.toNat
  exportSyms : tool.exportSyms ≠ [] → 20 < (writtenHeader tool srcElfName).exportSyms.toNat
  apart : (usoWriteBody tool srcElfName).1.Pairwise Apart

theorem Writable.offsets {tool : Elf2uso} {srcElfName : Bytes} (writable : Writable tool srcElfName) :
    BodyOffsets tool srcElfName := by
  have tables := writable.symbolsFit.offsets
  have bounded := boundedParts (bounded_body tool srcElfName)
  obtain ⟨sectionsIn, sectionsApart⟩ := usoWriteSections_areas writable.symbolsFit.body_lt writable.sections_ne_nil
    writable.alignedData bounded.sections
  have first := tables.name
  have importUp := tables.imports
  have exportUp := tables.exports
  have table := tables.sections
  -- the header comes last in time and first in the file
  have header : ∀ w ∈ usoWriteHeader (writtenHeader tool srcElfName), w.stop ≤ 20 := by
    intro w member
    rw [List.mem_singleton.mp member]
    simp [Write.stop]
  refine ⟨first, tables.name_le, importUp, tables.imports_le, by omega, tables.importSyms, tables.exportSyms, ?_⟩
  rw [usoWriteBody_writes]
  refine List.pairwise_append.mpr ⟨List.pairwise_singleton .., List.pairwise_append.mpr ⟨tables.importsApart,
    List.pairwise_append.mpr ⟨tables.exportsApart, List.pairwise_append.mpr ⟨sectionsApart,
      List.pairwise_singleton .., ?_⟩, ?_⟩, ?_⟩, ?_⟩
  · intro w own v last
    have low := sectionsIn w own
    have high := header v last
    exact Or.inr (by omega)
  · intro w own v later
    have low := tables.exportsIn w own
    rcases List.mem_append.mp later with sections | last
    · have next := sectionsIn v sections
      exact Or.inl (by omega)
    · have high := header v last
      exact Or.inr (by omega)
  · intro w own v later
    have low := tables.importsIn w own
    rcases List.mem_append.mp later with exports | later
    · have next := tables.exportsIn v exports
      exact Or.inl (by omega)
    rcases List.mem_append.mp later with sections | last
    · have next := sectionsIn v sections
      exact Or.inl (by omega)
    · have high := header v last
      exact Or.inr (by omega)
  · intro w own v later
    have low := tables.nameIn w own
    rcases List.mem_append.mp later with imports | later
    · have next := tables.importsIn v imports
      exact Or.inl (by omega)
    rcases List.mem_append.mp later with exports | later
    · have next := tables.exportsIn v exports
      exact Or.inl (by omega)
    rcases List.mem_append.mp later with sections | last
    · have next := sectionsIn v sections
      exact Or.inl (by omega)
    · have high := header v last
      exact Or.inr (by omega)

theorem readAt_paddedBody (body : Bytes) {ofs n : Nat} (inside : ofs + n ≤ body.length) :
    readAt (paddedBody body) ofs n = readAt body ofs n := by
  unfold paddedBody
  split
  · apply readAt_ext
    intro p _ upper
    exact byteAt_append_left body [0] (by omega)
  · rfl

/-- A file that begins with the body. -/
def HoldsBody (tool : Elf2uso) (srcElfName image : Bytes) : Prop :=
  ∀ ofs n, ofs + n ≤ bodyLength tool srcElfName →
    readAt image ofs n = readAt (run (usoWriteBody tool srcElfName).1) ofs n

theorem holdsBody_usoImage {tool : Elf2uso} {srcElfName : Bytes} (size : (usoWrite tool srcElfName).length < 2 ^ 31) :
    HoldsBody tool srcElfName (usoImage (usoWrite tool srcElfName)) := by
  have image : usoImage (usoWrite tool srcElfName) = paddedBody (run (usoWriteBody tool srcElfName).1) :=
    usoImage_usoWriteLoadInfo _ _ size
  intro ofs n inside
  rw [image, readAt_paddedBody _ inside]

theorem holdsBody_usoWrite (tool : Elf2uso) (srcElfName : Bytes) :
    HoldsBody tool srcElfName (usoWrite tool srcElfName) := by
  have padded := paddedBody_length (run (usoWriteBody tool srcElfName).1)
  intro ofs n inside
  rw [← readAt_paddedBody _ inside]
  apply readAt_ext
  intro p _ upper
  unfold bodyLength at inside
  exact byteAt_append_left _ _ (by omega)

/-- A write that is found in the body is found in the file. -/
theorem HoldsBody.read {tool : Elf2uso} {srcElfName image : Bytes} (holds : HoldsBody tool srcElfName image) {w : Write}
    (member : w ∈ (usoWriteBody tool srcElfName).1)
    (stored : readAt (run (usoWriteBody tool srcElfName).1) w.ofs w.data.length = w.data) :
    readAt image w.ofs w.data.length = w.data := by
  by_cases empty : w.data = []
  · rw [empty]
    rfl
  · rw [holds _ _ (bounded_body tool srcElfName w member empty), stored]

/-- Everything `uso_write` wrote is in the image. -/
theorem Writable.survives {tool : Elf2uso} {srcElfName : Bytes} (writable : Writable tool srcElfName) :
    Survives (usoImage (usoWrite tool srcElfName)) (usoWriteBody tool srcElfName).1 :=
  fun _ member => (holdsBody_usoImage writable.size).read member (readAt_run writable.offsets.apart member)

/-! ### The symbol tables alone -/

/-- The header is written last. -/
theorem HoldsBody.header {tool : Elf2uso} {srcElfName image : Bytes} (holds : HoldsBody tool srcElfName image) :
    Survives image (usoWriteHeader (writtenHeader tool srcElfName)) := by
  intro w member
  have last : (usoWriteBody tool srcElfName).1 = (usoWriteElfName 20 srcElfName ++
      ((writeOptionalTable (afterName srcElfName) tool.importSyms).1 ++
        ((writeOptionalTable (afterImports tool srcElfName) tool.exportSyms).1 ++
          usoWriteSections (writtenHeader tool srcElfName).sections tool.outSections))) ++ [w] := by
    rw [usoWriteBody_writes, List.mem_singleton.mp member]
    simp only [usoWriteHeader, List.append_assoc]
  apply holds.read
  · rw [last]
    exact List.mem_append_right _ List.mem_cons_self
  · rw [last, run, List.foldl_append]
    exact w.readAt_apply _

/-- If no section offset is rounded past the modulus, the symbol tables are found in the file. -/
theorem SymbolsFit.survives {tool : Elf2uso} {srcElfName image : Bytes} (fit : SymbolsFit tool srcElfName)
    (offsets : OffsetsFit (writtenHeader tool srcElfName).sections tool.outSections)
    (holds : HoldsBody tool srcElfName image) :
    Survives image ((writeOptionalTable (afterName srcElfName) tool.importSyms).1 ++
      (writeOptionalTable (afterImports tool srcElfName) tool.exportSyms).1) := by
  have tables := fit.offsets
  have bounded := boundedParts (bounded_body tool srcElfName)
  have sectionsFrom := usoWriteSections_from fit.body_lt offsets bounded.sections
  have first := tables.name
  have importUp := tables.imports
  have exportUp := tables.exports
  have table := tables.sections
  have body : (usoWriteBody tool srcElfName).1 = (usoWriteElfName 20 srcElfName ++
      ((writeOptionalTable (afterName srcElfName) tool.importSyms).1 ++
        (writeOptionalTable (afterImports tool srcElfName) tool.exportSyms).1)) ++
          (usoWriteSections (writtenHeader tool srcElfName).sections tool.outSections ++
            usoWriteHeader (writtenHeader tool srcElfName)) := by
    rw [usoWriteBody_writes]
    simp only [List.append_assoc]
  have tablesIn : Within (afterName srcElfName).toNat (afterExports tool srcElfName).toNat
      ((writeOptionalTable (afterName srcElfName) tool.importSyms).1 ++
        (writeOptionalTable (afterImports tool srcElfName) tool.exportSyms).1) := by
    intro w member
    rcases List.mem_append.mp member with imported | exported
    · exact (tables.importsIn.mono (Nat.le_refl _) exportUp) w imported
    · exact (tables.exportsIn.mono importUp (Nat.le_refl _)) w exported
  have apart : (usoWriteElfName 20 srcElfName ++ ((writeOptionalTable (afterName srcElfName) tool.importSyms).1 ++
      (writeOptionalTable (afterImports tool srcElfName) tool.exportSyms).1)).Pairwise Apart := by
    refine List.pairwise_append.mpr ⟨List.pairwise_singleton .., List.pairwise_append.mpr ⟨tables.importsApart,
      tables.exportsApart, ?_⟩, ?_⟩
    · intro w imported v exported
      have low := tables.importsIn w imported
      have high := tables.exportsIn v exported
      exact Or.inl (by omega)
    · intro w name v later
      have low := tables.nameIn w name
      have high := tablesIn v later
      exact Or.inl (by omega)
  intro w member
  have inFront := List.mem_append_right (usoWriteElfName 20 srcElfName) member
  apply holds.read
  · rw [body]
    exact List.mem_append_left _ inFront
  · rw [body]
    apply readAt_run_append apart inFront
    intro v later some
    have place := tablesIn w member
    rcases List.mem_append.mp later with sections | last
    · have start := sectionsFrom v sections some
      exact Or.inl (by omega)
    · have stop : v.stop = 20 := by
        rw [List.mem_singleton.mp last]
        simp [Write.stop]
      exact Or.inr (by omega)

theorem SymbolsFit.offsetsFit {tool : Elf2uso} {srcElfName : Bytes} (fit : SymbolsFit tool srcElfName)
    (aligned : AlignedData tool.outSections) :
    OffsetsFit (writtenHeader tool srcElfName).sections tool.outSections :=
  offsetsFit_of_aligned fit.body_lt fit.offsets.sections_le aligned (boundedParts (bounded_body tool srcElfName)).sections

theorem Writable.offsetsFit {tool : Elf2uso} {srcElfName : Bytes} (writable : Writable tool srcElfName) :
    OffsetsFit (writtenHeader tool srcElfName).sections tool.outSections :=
  writable.symbolsFit.offsetsFit writable.alignedData

end DragonUso.FileLayout
