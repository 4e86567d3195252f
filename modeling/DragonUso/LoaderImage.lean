import DragonUso.Library.Align
import DragonUso.Library.SparseFile
import DragonUso.Format

/-! What the loader finds in a USO file: the trailing load info, and in the image the records
reached by following offsets. Pointers are rebased as `PTR_FIXUP` does; a pointer into the block
is followed by subtracting the block's address. -/

namespace DragonUso.LoaderImage
open ByteOrder SparseFile WordAlign Format

def readU16 (image : Bytes) (ofs : Nat) : U16 := fromBe16 (readAt image ofs 2)

def readU32 (image : Bytes) (ofs : Nat) : U32 := fromBe32 (readAt image ofs 4)

/-- A C string: the bytes up to the first terminator. -/
def cString (image : Bytes) (ofs : Nat) : Bytes := (image.drop ofs).takeWhile (· != 0)

/-- `fseek(file, -sizeof(uso_load_info_t), SEEK_END)` and one read. -/
def readLoadInfo (file : Bytes) : UsoLoadInfo where
  usoSize := readU32 file (file.length - 16)
  usoAlign := readU32 file (file.length - 12)
  noloadSize := readU32 file (file.length - 8)
  noloadAlign := readU32 file (file.length - 4)

/-- The part of the file that is read into memory. -/
def usoImage (file : Bytes) : Bytes := file.take (readLoadInfo file).usoSize.toNat

def readHeader (image : Bytes) : UsoHeader where
  numSections := readU16 image 0
  ehFrameSection := readU16 image 2
  sections := readU32 image 4
  importSyms := readU32 image 8
  exportSyms := readU32 image 12
  ctorsSection := readU16 image 16
  dtorsSection := readU16 image 18

def readSection (image : Bytes) (ofs : Nat) : UsoSection where
  data := readU32 image ofs
  dataSize := readU32 image (ofs + 4)
  dataAlign := readU32 image (ofs + 8)
  internalRelocs := readU32 image (ofs + 12)
  externalRelocs := readU32 image (ofs + 16)

def readSections (image : Bytes) (ofs : Nat) : Nat → List UsoSection
  | 0 => []
  | count + 1 => readSection image ofs :: readSections image (ofs + 20) count

def readReloc (image : Bytes) (ofs : Nat) : UsoReloc where
  offset := readU32 image ofs
  info := readU32 image (ofs + 4)
  symOffset := readU32 image (ofs + 8)

def readRelocs (image : Bytes) (ofs : Nat) : Nat → List UsoReloc
  | 0 => []
  | count + 1 => readReloc image ofs :: readRelocs image (ofs + 12) count

/-- A `uso_reloc_table_t`: its length, then its entries. -/
def readRelocTable (image : Bytes) (ofs : Nat) : List UsoReloc :=
  readRelocs image (ofs + 4) (readU32 image ofs).toNat

/-- A symbol whose name is relative to the table, as `fixup_symbol_table_names` makes it. -/
def readSymbol (image : Bytes) (table : U32) (ofs : Nat) : UsoSymbol where
  name := cString image (table + readU32 image ofs).toNat
  ptr := readU32 image (ofs + 4)
  sectionIndex := readU16 image (ofs + 8)
  nameLen := readU16 image (ofs + 10)

def readSymbols (image : Bytes) (table : U32) (ofs : Nat) : Nat → List UsoSymbol
  | 0 => []
  | count + 1 => readSymbol image table ofs :: readSymbols image table (ofs + 12) count

/-- A `uso_symbol_table_t` at an offset of the image; offset zero is an absent table. -/
def readSymbolTable (image : Bytes) (table : U32) : Option (List UsoSymbol) :=
  if table = 0 then none
  else some (readSymbols image table (table.toNat + 4) (readU32 image table.toNat).toNat)

def ptrFixup (ptr base : U32) : U32 := base + ptr

def roundupValue (value unit : U32) : U32 := roundMask value unit

/-- The pointer version, on the target's 32-bit pointers. -/
def roundupPtr (ptr unit : U32) : U32 := roundMask ptr unit

def getUsoNoloadStartOfs (info : UsoLoadInfo) : U32 := roundupValue info.usoSize info.noloadAlign

def getUsoNoloadStart (info : UsoLoadInfo) (base : U32) : U32 := base + getUsoNoloadStartOfs info

def getUsoRamSize (info : UsoLoadInfo) : U32 := getUsoNoloadStartOfs info + info.noloadSize

def getUsoRamAlign (info : UsoLoadInfo) : U32 :=
  if info.noloadAlign < info.usoAlign then info.usoAlign else info.noloadAlign

/-- The fixups of a section with data; absent relocation tables stay NULL. -/
def fixupSection (sections : U32) (s : UsoSection) : UsoSection :=
  { s with
    data := ptrFixup s.data sections
    internalRelocs := if s.internalRelocs ≠ 0 then ptrFixup s.internalRelocs sections else s.internalRelocs
    externalRelocs := if s.externalRelocs ≠ 0 then ptrFixup s.externalRelocs sections else s.externalRelocs }

/-- Where a NOLOAD section starts; alignment zero leaves the pointer alone. -/
def alignNoload (noload : U32) (s : UsoSection) : U32 :=
  if 0 < s.dataAlign then roundupPtr noload s.dataAlign else noload

/-- The loop of `fixup_section_table` with the running NOLOAD pointer. -/
def fixupSectionLoop (sections : U32) : U32 → List UsoSection → List UsoSection
  | _, [] => []
  | noload, s :: rest =>
    if s.data ≠ 0 then fixupSection sections s :: fixupSectionLoop sections noload rest
    else
      { s with data := alignNoload noload s } ::
        fixupSectionLoop sections (alignNoload noload s + s.dataSize) rest

/-- Section 0 is skipped by the loop and made NULL at the end. -/
def fixupSectionTable (sections noloadBase : U32) : List UsoSection → List UsoSection
  | [] => []
  | dummy :: rest => { dummy with data := 0 } :: fixupSectionLoop sections noloadBase rest

/-- The section table as it stands in the image, before any fixup. -/
def storedSections (image : Bytes) : List UsoSection :=
  readSections image (readHeader image).sections.toNat (readHeader image).numSections.toNat

/-- The section table after `fixup_section_table`, for a block at `base`. -/
def fixedSections (image : Bytes) (base noload : U32) : List UsoSection :=
  fixupSectionTable (ptrFixup (readHeader image).sections base) noload (storedSections image)

/-- A relocation table through a pointer into the block at `base`. -/
def relocTableAt (image : Bytes) (base ptr : U32) : Option (List UsoReloc) :=
  if ptr = 0 then none else some (readRelocTable image (ptr - base).toNat)

@[simp] theorem readSections_length (image : Bytes) (ofs count : Nat) :
    (readSections image ofs count).length = count := by
  induction count generalizing ofs with
  | zero => rfl
  | succ count ih => simp [readSections, ih]

@[simp] theorem fixupSectionLoop_length (sections noload : U32) (table : List UsoSection) :
    (fixupSectionLoop sections noload table).length = table.length := by
  induction table generalizing noload with
  | nil => rfl
  | cons s rest ih =>
    unfold fixupSectionLoop
    split <;> simp [ih]

@[simp] theorem fixupSectionTable_length (sections noload : U32) (table : List UsoSection) :
    (fixupSectionTable sections noload table).length = table.length := by
  cases table <;> simp [fixupSectionTable]

theorem fixupSectionLoop_loaded (sections noload : U32) (table : List UsoSection) (i : Nat)
    (s : UsoSection) (at_i : table[i]? = some s) (loaded : s.data ≠ 0) :
    (fixupSectionLoop sections noload table)[i]? = some (fixupSection sections s) := by
  induction table generalizing noload i with
  | nil => simp at at_i
  | cons head rest ih =>
    cases i with
    | zero =>
      simp only [List.getElem?_cons_zero, Option.some.injEq] at at_i
      subst head
      rw [fixupSectionLoop, if_pos loaded]
      rfl
    | succ i =>
      rw [List.getElem?_cons_succ] at at_i
      unfold fixupSectionLoop
      split
      · rw [List.getElem?_cons_succ, ih noload i at_i]
      · rw [List.getElem?_cons_succ, ih _ i at_i]

/-- Every section with data is rebased by the section table's address. -/
theorem fixupSectionTable_loaded (sections noload : U32) (table : List UsoSection) (i : Nat)
    (s : UsoSection) (at_i : table[i + 1]? = some s) (loaded : s.data ≠ 0) :
    (fixupSectionTable sections noload table)[i + 1]? = some (fixupSection sections s) := by
  cases table with
  | nil => simp at at_i
  | cons dummy rest =>
    rw [List.getElem?_cons_succ] at at_i
    simp only [fixupSectionTable, List.getElem?_cons_succ]
    exact fixupSectionLoop_loaded sections noload rest i s at_i loaded

theorem fixupSectionLoop_noload (sections noload : U32) (table : List UsoSection) (i : Nat)
    (s : UsoSection) (at_i : table[i]? = some s) (absent : s.data = 0) :
    ∃ pointer, (fixupSectionLoop sections noload table)[i]? = some { s with data := alignNoload pointer s } := by
  induction table generalizing noload i with
  | nil => simp at at_i
  | cons head rest ih =>
    cases i with
    | zero =>
      simp only [List.getElem?_cons_zero, Option.some.injEq] at at_i
      subst head
      rw [fixupSectionLoop, if_neg (not_not_intro absent)]
      exact ⟨noload, rfl⟩
    | succ i =>
      rw [List.getElem?_cons_succ] at at_i
      unfold fixupSectionLoop
      split
      · exact ih noload i at_i
      · exact ih _ i at_i

/-- A section without data gets the NOLOAD pointer rounded for it and keeps the rest of its record. -/
theorem fixupSectionTable_noload (sections noload : U32) (table : List UsoSection) (i : Nat)
    (s : UsoSection) (at_i : table[i + 1]? = some s) (absent : s.data = 0) :
    ∃ pointer, (fixupSectionTable sections noload table)[i + 1]? =
      some { s with data := alignNoload pointer s } := by
  cases table with
  | nil => simp at at_i
  | cons dummy rest =>
    rw [List.getElem?_cons_succ] at at_i
    exact fixupSectionLoop_noload sections noload rest i s at_i absent

theorem fixupSectionTable_dummy (sections noload : U32) (table : List UsoSection) (s : UsoSection)
    (at_zero : table[0]? = some s) : (fixupSectionTable sections noload table)[0]? = some { s with data := 0 } := by
  cases table with
  | nil => simp at at_zero
  | cons dummy rest =>
    rw [List.getElem?_cons_zero, Option.some.injEq] at at_zero
    rw [fixupSectionTable, List.getElem?_cons_zero, at_zero]

end DragonUso.LoaderImage
