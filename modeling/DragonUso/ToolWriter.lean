import DragonUso.Library.Align
import DragonUso.Library.SparseFile
import DragonUso.ToolCollect

/-! The second half of `elf2uso`: layout and output. Each writing function is the list of its
`fseek`/`fwrite` pairs in order, with offsets in the `uint32_t` arithmetic of the source. -/

namespace DragonUso.ToolWriter
open ByteOrder SparseFile WordAlign Format ToolCollect ElfFile

/-- `swap_u32`; `need_swap` is true on a little-endian host. -/
def swapU32 (needSwap : Bool) (x : U32) : U32 :=
  if needSwap then
    (((x >>> 24) &&& 0xFF) <<< 0) ||| (((x >>> 16) &&& 0xFF) <<< 8) |||
      (((x >>> 8) &&& 0xFF) <<< 16) ||| (((x >>> 0) &&& 0xFF) <<< 24)
  else x

def swapU16 (needSwap : Bool) (x : U16) : U16 :=
  if needSwap then (((x >>> 8) &&& 0xFF) <<< 0) ||| (((x >>> 0) &&& 0xFF) <<< 8) else x

/-- Storing a swapped word writes it big-endian on either kind of host, which is why the
writers below emit `be32` directly. -/
theorem swapU32_stored (needSwap : Bool) (x : U32) :
    hostBytes32 needSwap (swapU32 needSwap x) = be32 x := by
  cases needSwap with
  | false => rfl
  | true =>
    simp only [hostBytes32, swapU32, be32, ↓reduceIte, List.reverse_cons, List.reverse_nil,
      List.nil_append, List.cons_append, List.cons.injEq, and_true]
    refine ⟨?_, ?_, ?_, ?_⟩ <;>
    · apply BitVec.eq_of_getLsbD_eq
      intro i bound
      have cases : i = 0 ∨ i = 1 ∨ i = 2 ∨ i = 3 ∨ i = 4 ∨ i = 5 ∨ i = 6 ∨ i = 7 := by omega
      rcases cases with rfl | rfl | rfl | rfl | rfl | rfl | rfl | rfl <;> simp

theorem swapU16_stored (needSwap : Bool) (x : U16) :
    hostBytes16 needSwap (swapU16 needSwap x) = be16 x := by
  cases needSwap with
  | false => rfl
  | true =>
    simp only [hostBytes16, swapU16, be16, ↓reduceIte, List.reverse_cons, List.reverse_nil,
      List.nil_append, List.cons_append, List.cons.injEq, and_true]
    refine ⟨?_, ?_⟩ <;>
    · apply BitVec.eq_of_getLsbD_eq
      intro i bound
      have cases : i = 0 ∨ i = 1 ∨ i = 2 ∨ i = 3 ∨ i = 4 ∨ i = 5 ∨ i = 6 ∨ i = 7 := by omega
      rcases cases with rfl | rfl | rfl | rfl | rfl | rfl | rfl | rfl <;> simp

def alignVal (val unit : U32) : U32 := roundMask val unit

/-- The maximum search `uso_get_align` and `uso_get_noload_align` share. -/
def maxAlignLoop (counts : SectionInfo → Bool) : List SectionInfo → U32 → U32
  | [], align => align
  | s :: rest, align => maxAlignLoop counts rest (if counts s ∧ align < s.align then s.align else align)

def usoGetAlign (outSections : List SectionInfo) : U32 := maxAlignLoop (fun s => s.data.isSome) outSections 4

def usoGetNoloadAlign (outSections : List SectionInfo) : U32 :=
  maxAlignLoop (fun s => s.data.isNone) outSections 1

def usoGetNoloadSizeLoop : List SectionInfo → U32 → U32
  | [], size => size
  | s :: rest, size => usoGetNoloadSizeLoop rest (if s.data.isNone then size + s.size else size)

/-- The plain sum of the sizes; nothing is added for the alignment between sections. -/
def usoGetNoloadSize (outSections : List SectionInfo) : U32 := usoGetNoloadSizeLoop outSections 0

/-- Alignment of the first section with data. -/
def usoCalcDataStartAlignment : List SectionInfo → U32
  | [] => 1
  | s :: rest => if s.data.isSome then s.align else usoCalcDataStartAlignment rest

def usoGetRelocOfs : List SectionInfo → U32 → U32
  | [], dataOfs => dataOfs
  | s :: rest, dataOfs =>
    usoGetRelocOfs rest (if s.data.isSome then alignVal dataOfs s.align + s.size else dataOfs)

def usoGetRelocTableSize (relocs : List UsoReloc) : U32 := 4 + BitVec.ofNat 32 (relocs.length * 12)

def symGetDataSizeLoop : List SymbolInfo → U32 → U32
  | [], size => size
  | s :: rest, size => symGetDataSizeLoop rest (size + BitVec.ofNat 32 (s.name.length + 1))

def symGetDataSize (syms : List SymbolInfo) : U32 :=
  symGetDataSizeLoop syms (4 + BitVec.ofNat 32 (12 * syms.length))

def usoWriteElfName (ofs : U32) (name : Bytes) : List Write := [⟨ofs.toNat, name ++ [0]⟩]

def usoWriteU32 (ofs value : U32) : List Write := [⟨ofs.toNat, be32 value⟩]

/-- `name_len`: the name's length cut to 16 bits, with the weak bit set. -/
def symbolNameLen (s : SymbolInfo) : U16 :=
  let nameLen := BitVec.ofNat 16 s.name.length
  if s.weak then nameLen ||| 0x8000 else nameLen

def symbolBytes (nameOfs : U32) (s : SymbolInfo) : Bytes :=
  be32 nameOfs ++ (be32 (s.addr.setWidth 32) ++ (be16 s.sectionIndex ++ be16 (symbolNameLen s)))

/-- The bytes `fwrite` takes from `c_str()`: the name and its terminator. -/
def symbolNameBytes (s : SymbolInfo) : Bytes :=
  (s.name ++ [0]).take ((BitVec.ofNat 16 s.name.length).toNat + 1)

def nextNameOfs (nameOfs : U32) (s : SymbolInfo) : U32 :=
  nameOfs + ((BitVec.ofNat 16 s.name.length).setWidth 32 + 1)

def writeSymbolLoop (ofs : U32) : Nat → U32 → List SymbolInfo → List Write
  | _, _, [] => []
  | i, nameOfs, s :: rest =>
    ⟨(4 + ofs).toNat + i * 12, symbolBytes nameOfs s⟩ ::
      ⟨(ofs + nameOfs).toNat, symbolNameBytes s⟩ ::
        writeSymbolLoop ofs (i + 1) (nextNameOfs nameOfs s) rest

def usoWriteSymbolTable (ofs : U32) (syms : List SymbolInfo) : List Write :=
  usoWriteU32 ofs (BitVec.ofNat 32 syms.length) ++
    writeSymbolLoop ofs 0 (4 + BitVec.ofNat 32 (syms.length * 12)) syms

def relocBytes (r : UsoReloc) : Bytes := be32 r.offset ++ (be32 r.info ++ be32 r.symOffset)

/-- The entries follow one seek, so they are written as one run of bytes. -/
def usoWriteRelocations (ofs : U32) (relocs : List UsoReloc) : List Write :=
  usoWriteU32 ofs (BitVec.ofNat 32 relocs.length) ++ [⟨(ofs + 4).toNat, relocs.flatMap relocBytes⟩]

/-- `uso_section_info_t` in the file. -/
def sectionBytes (s : UsoSection) : Bytes :=
  be32 s.data ++ (be32 s.dataSize ++ (be32 s.dataAlign ++ (be32 s.internalRelocs ++ be32 s.externalRelocs)))

/-- Writes one relocation table unless it is empty, giving its offset field and the next offset. -/
def writeRelocTable (sectionsOfs relocsOfs : U32) (relocs : List UsoReloc) : List Write × U32 × U32 :=
  if relocs.length > 0 then
    (usoWriteRelocations relocsOfs relocs, relocsOfs - sectionsOfs, relocsOfs + usoGetRelocTableSize relocs)
  else ([], 0, relocsOfs)

/-- Writes a section's data if it has any, giving its offset field and the next offset. -/
def writeSectionData (sectionsOfs dataOfs : U32) (s : SectionInfo) : List Write × U32 × U32 :=
  match s.data with
  | some bytes =>
    let start := alignVal dataOfs s.align
    ([⟨start.toNat, bytes⟩], start - sectionsOfs, start + s.size)
  | none => ([], 0, dataOfs)

def writeSectionLoop (sectionsOfs : U32) : Nat → U32 → U32 → List SectionInfo → List Write
  | _, _, _, [] => []
  | i, dataOfs, relocsOfs, s :: rest =>
    let (dataWrites, data, dataOfs) := writeSectionData sectionsOfs dataOfs s
    let (internalWrites, internal, relocsOfs) := writeRelocTable sectionsOfs relocsOfs s.internalRelocs
    let (externalWrites, external, relocsOfs) := writeRelocTable sectionsOfs relocsOfs s.externalRelocs
    let record : UsoSection :=
      { data := data, dataSize := s.size, dataAlign := s.align
        internalRelocs := internal, externalRelocs := external }
    dataWrites ++ (internalWrites ++ (externalWrites ++
      (⟨sectionsOfs.toNat + i * 20, sectionBytes record⟩ ::
        writeSectionLoop sectionsOfs (i + 1) dataOfs relocsOfs rest)))

def dataStartOfs (sectionsOfs : U32) (outSections : List SectionInfo) : U32 :=
  alignVal (sectionsOfs + BitVec.ofNat 32 (outSections.length * 20)) (usoCalcDataStartAlignment outSections)

def relocsStartOfs (sectionsOfs : U32) (outSections : List SectionInfo) : U32 :=
  alignVal (usoGetRelocOfs outSections (dataStartOfs sectionsOfs outSections)) 4

def usoWriteSections (sectionsOfs : U32) (outSections : List SectionInfo) : List Write :=
  writeSectionLoop sectionsOfs 0 (dataStartOfs sectionsOfs outSections)
    (relocsStartOfs sectionsOfs outSections) outSections

def headerBytes (h : UsoHeader) : Bytes :=
  be16 h.numSections ++ (be16 h.ehFrameSection ++ (be32 h.sections ++ (be32 h.importSyms ++
    (be32 h.exportSyms ++ (be16 h.ctorsSection ++ be16 h.dtorsSection)))))

def usoWriteHeader (h : UsoHeader) : List Write := [⟨0, headerBytes h⟩]

def loadInfoBytes (info : UsoLoadInfo) : Bytes :=
  be32 info.usoSize ++ (be32 info.usoAlign ++ (be32 info.noloadSize ++ be32 info.noloadAlign))

/-- The body padded to an even length. -/
def paddedBody (body : Bytes) : Bytes := if body.length % 2 ≠ 0 then body ++ [0] else body

def loadInfo (body : Bytes) (outSections : List SectionInfo) : UsoLoadInfo where
  usoSize := BitVec.ofNat 32 (paddedBody body).length
  usoAlign := usoGetAlign outSections
  noloadSize := usoGetNoloadSize outSections
  noloadAlign := usoGetNoloadAlign outSections

/-- Written after a seek to the end of the file, so nothing before it changes. -/
def usoWriteLoadInfo (body : Bytes) (outSections : List SectionInfo) : Bytes :=
  paddedBody body ++ loadInfoBytes (loadInfo body outSections)

/-- One optional symbol table of `uso_write`: its writes, header field and the next offset. -/
def writeOptionalTable (dataOfs : U32) (syms : List SymbolInfo) : List Write × U32 × U32 :=
  if syms.length ≠ 0 then
    let ofs := alignVal dataOfs 4
    (usoWriteSymbolTable ofs syms, ofs, ofs + symGetDataSize syms)
  else ([], 0, dataOfs)

def ehFrameName : Bytes := ascii ['.', 'e', 'h', '_', 'f', 'r', 'a', 'm', 'e']
def ctorsName : Bytes := ascii ['.', 'c', 't', 'o', 'r', 's']
def dtorsName : Bytes := ascii ['.', 'd', 't', 'o', 'r', 's']

def specialSection (tool : Elf2uso) (name : Bytes) : U16 :=
  sectionOf tool.outSectionMap (elfFindSection tool.elf name)

/-- Everything `uso_write` writes before the load info, with the header it wrote. -/
def usoWriteBody (tool : Elf2uso) (srcElfName : Bytes) : List Write × UsoHeader :=
  let dataOfs : U32 := 20
  let nameWrites := usoWriteElfName dataOfs srcElfName
  let dataOfs := dataOfs + BitVec.ofNat 32 (srcElfName.length + 1)
  let (importWrites, importSyms, dataOfs) := writeOptionalTable dataOfs tool.importSyms
  let (exportWrites, exportSyms, dataOfs) := writeOptionalTable dataOfs tool.exportSyms
  let sections := alignVal dataOfs 4
  let header : UsoHeader :=
    { numSections := BitVec.ofNat 16 tool.outSections.length
      ehFrameSection := specialSection tool ehFrameName
      sections := sections
      importSyms := importSyms
      exportSyms := exportSyms
      ctorsSection := specialSection tool ctorsName
      dtorsSection := specialSection tool dtorsName }
  (nameWrites ++ (importWrites ++ (exportWrites ++ (usoWriteSections sections tool.outSections ++
    usoWriteHeader header))), header)

/-- The bytes of the file `uso_write` leaves. -/
def usoWrite (tool : Elf2uso) (srcElfName : Bytes) : Bytes :=
  usoWriteLoadInfo (run (usoWriteBody tool srcElfName).1) tool.outSections

end DragonUso.ToolWriter
