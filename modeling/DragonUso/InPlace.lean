import DragonUso.Library.CountedLoop
import DragonUso.Library.Records
import DragonUso.Loader

/-! The fixups and `link_uso` on one memory: every record is read where it lies, at every use, and so
as the stores before have left it. The loops look their bounds up again in every round. -/

namespace DragonUso.InPlace
open ByteOrder WordMemory Records CountedLoop Format LoaderImage Relocation

/-! ### Records -/

def headerSections (memory : Memory) (uso : U32) : U32 := readWord memory (field uso 4)

def headerImportSyms (memory : Memory) (uso : U32) : U32 := readWord memory (field uso 8)

def headerExportSyms (memory : Memory) (uso : U32) : U32 := readWord memory (field uso 12)

/-- `&sections[i]`. -/
def sectionPtr (sections : U32) (i : Nat) : U32 := field sections (20 * i)

/-- `&table->data[i]`, for symbols as for relocations. -/
def entryPtr (table : U32) (i : Nat) : U32 := field table (4 + 12 * i)

def tableLength (memory : Memory) (table : U32) : Nat := (readWord memory table).toNat

/-- The bound of a loop over a table, whatever else the loop carries along. -/
def lengthIn {σ : Type} (table : U32) (s : Memory × σ) : Nat := tableLength s.1 table

def numSectionsIn {σ : Type} (uso : U32) (s : Memory × σ) : Nat := (readHalf s.1 uso).toNat

def sectionRecordAt (memory : Memory) (ptr : U32) : UsoSection where
  data := readWord memory ptr
  dataSize := readWord memory (field ptr 4)
  dataAlign := readWord memory (field ptr 8)
  internalRelocs := readWord memory (field ptr 12)
  externalRelocs := readWord memory (field ptr 16)

def relocRecordAt (memory : Memory) (ptr : U32) : UsoReloc where
  offset := readWord memory ptr
  info := readWord memory (field ptr 4)
  symOffset := readWord memory (field ptr 8)

/-- The bytes from a pointer up to the first terminator. -/
def cStringFrom (memory : Memory) : Nat → U32 → Bytes
  | 0, _ => []
  | fuel + 1, ptr => if memory ptr = 0 then [] else memory ptr :: cStringFrom memory fuel (field ptr 1)

/-- No string is longer than the address space. -/
def cStringAt (memory : Memory) (ptr : U32) : Bytes := cStringFrom memory (2 ^ 32) ptr

/-- A symbol with its name pointer followed. -/
def symbolRecordAt (memory : Memory) (ptr : U32) : UsoSymbol where
  name := cStringAt memory (readWord memory ptr)
  ptr := readWord memory (field ptr 4)
  sectionIndex := readHalf memory (field ptr 8)
  nameLen := readHalf memory (field ptr 10)

/-! ### Fixups -/

/-- `PTR_FIXUP` of the pointer that lies at `place`. -/
def fixupPtr (memory : Memory) (place base : U32) : Memory := storeWord memory place (ptrFixup (readWord memory place) base)

/-- `PTR_FIXUP` of a pointer that is not NULL. -/
def fixupPtrIfSet (memory : Memory) (place base : U32) : Memory :=
  if readWord memory place ≠ 0 then fixupPtr memory place base else memory

/-- The loops below run over tables with lengths of 32 bits. -/
def rounds : Nat := 2 ^ 32

theorem lengthIn_le_rounds {σ : Type} (table : U32) (s : Memory × σ) : lengthIn table s ≤ rounds := by
  have bound := (readWord s.1 table).isLt
  rw [lengthIn, tableLength, rounds]
  omega

theorem numSectionsIn_le_rounds {σ : Type} (uso : U32) (s : Memory × σ) : numSectionsIn uso s ≤ rounds := by
  have bound := (readHalf s.1 uso).isLt
  rw [numSectionsIn, rounds]
  omega

theorem rounds_complete {σ : Type} {bound : Memory × σ → Nat} (small : ∀ s, bound s ≤ rounds)
    (body : Nat → Memory × σ → Except Fault (Memory × σ)) (more i : Nat) (s : Memory × σ) :
    countUp bound body (rounds + more) i s = countUp bound body rounds i s := by
  revert small
  generalize rounds = limit
  exact fun small => countUp_limit small (Nat.le_add_left _ i) more s

/-- So no loop over a table is cut short, whatever its rounds do to the length. -/
theorem lengthIn_complete {σ : Type} (table : U32) (body : Nat → Memory × σ → Except Fault (Memory × σ)) (more i : Nat)
    (s : Memory × σ) :
    countUp (lengthIn table) body (rounds + more) i s = countUp (lengthIn table) body rounds i s :=
  rounds_complete (lengthIn_le_rounds table) body more i s

/-- Nor is the one over the sections. -/
theorem numSectionsIn_complete {σ : Type} (uso : U32) (body : Nat → Memory × σ → Except Fault (Memory × σ))
    (more i : Nat) (s : Memory × σ) :
    countUp (numSectionsIn uso) body (rounds + more) i s = countUp (numSectionsIn uso) body rounds i s :=
  rounds_complete (numSectionsIn_le_rounds uso) body more i s

def fixupName (table : U32) (i : Nat) (memory : Memory) : Memory := fixupPtr memory (entryPtr table i) table

def fixupSymbolTableNamesAt (table : U32) (memory : Memory) : Except Fault (Memory × Unit) :=
  countUp (lengthIn table) (fun i s => .ok (fixupName table i s.1, ())) rounds 0 (memory, ())

/-- One section of `fixup_section_table`, with the running NOLOAD pointer. -/
def fixupSectionAt (sections : U32) (i : Nat) (memory : Memory) (noload : U32) : Memory × U32 :=
  let ptr := sectionPtr sections i
  if readWord memory ptr ≠ 0 then
    let memory := fixupPtr memory ptr sections
    let memory := fixupPtrIfSet memory (field ptr 12) sections
    let memory := fixupPtrIfSet memory (field ptr 16) sections
    (memory, noload)
  else
    let dataAlign := readWord memory (field ptr 8)
    let noload := if 0 < dataAlign then roundupPtr noload dataAlign else noload
    let memory := storeWord memory ptr noload
    (memory, noload + readWord memory (field ptr 4))

def fixupSectionTableAt (sections noloadBase : U32) (numSections : Nat) (memory : Memory) : Except Fault Memory :=
  match countUp (fun _ => numSections) (fun i s => .ok (fixupSectionAt sections i s.1 s.2)) rounds 1
      (memory, noloadBase) with
  | .error fault => .error fault
  | .ok (memory, _) => .ok (storeWord memory (sectionPtr sections 0) 0)

/-- The pointer of one export, relative to the data of its section. -/
def fixupExportAt (sections table : U32) (i : Nat) (memory : Memory) : Memory :=
  let index := (readHalf memory (field (entryPtr table i) 8)).toNat
  fixupPtr memory (field (entryPtr table i) 4) (readWord memory (sectionPtr sections index))

def fixupExportSymsAt (table sections : U32) (memory : Memory) : Except Fault Memory :=
  match fixupSymbolTableNamesAt table memory with
  | .error fault => .error fault
  | .ok (memory, _) =>
    match countUp (lengthIn table) (fun i s => .ok (fixupExportAt sections table i s.1, ())) rounds 0
        (memory, ()) with
    | .error fault => .error fault
    | .ok (memory, _) => .ok memory

/-- One import: the symbol is searched under the name its record points to. -/
def fixupImportAt (search : Bytes → U32) (table : U32) (i : Nat) (memory : Memory) (result : Bool) : Memory × Bool :=
  let symbol := symbolRecordAt memory (entryPtr table i)
  let ptr := search symbol.name
  let result := if !usoIsSymbolWeak symbol && ptr == 0 then false else result
  (storeWord memory (field (entryPtr table i) 4) ptr, result)

def fixupImportSymsAt (search : Bytes → U32) (table : U32) (memory : Memory) : Except Fault (Memory × Bool) :=
  match fixupSymbolTableNamesAt table memory with
  | .error fault => .error fault
  | .ok (memory, _) =>
    countUp (lengthIn table) (fun i s => .ok (fixupImportAt search table i s.1 s.2)) rounds 0
      (memory, true)

/-! ### Relocations -/

/-- A relocation as it was applied: the call it belongs to, its record and its symbol's address. -/
structure Applied where
  targetSection : Nat
  internal : Bool
  entry : UsoReloc
  symAddr : U32
  deriving DecidableEq, Repr

/-- The section or import an entry refers to, through the tables as they stand. -/
def symbolAddressAt (memory : Memory) (uso : U32) (internal : Bool) (reloc : UsoReloc) : Except Fault U32 :=
  let targetIndex := (usoGetRelocTargetIndex reloc).toNat
  if internal then .ok (readWord memory (sectionPtr (headerSections memory uso) targetIndex) + reloc.symOffset)
  else if headerImportSyms memory uso = 0 then .error .nullImportTable
  else .ok (readWord memory (field (entryPtr (headerImportSyms memory uso) targetIndex) 4))

/-- The entries a HI16 at `i` looks through. -/
def laterRelocs (memory : Memory) (table : U32) (i : Nat) : List UsoReloc :=
  (List.range' (i + 1) (tableLength memory table - (i + 1))).map fun j => relocRecordAt memory (entryPtr table j)

/-- One round of the loop over a relocation table. -/
def applyRelocAt (uso : U32) (targetSection : Nat) (internal : Bool) (sectionBase table : U32) (i : Nat)
    (s : Memory × List Applied) : Except Fault (Memory × List Applied) :=
  let reloc := relocRecordAt s.1 (entryPtr table i)
  match symbolAddressAt s.1 uso internal reloc with
  | .error fault => .error fault
  | .ok symAddr =>
    if IsSupported (usoGetRelocType reloc) then
      .ok (storeWord s.1 (sectionBase + reloc.offset)
          (relocatedWord s.1 sectionBase symAddr reloc (laterRelocs s.1 table i)),
        s.2 ++ [⟨targetSection, internal, reloc, symAddr⟩])
    else .error (.invalidRelocType (usoGetRelocType reloc))

/-- `apply_uso_relocs`; the section's pointers are read before the loop, the entries inside it. -/
def applyUsoRelocsAt (uso : U32) (targetSection : Nat) (internal : Bool) (s : Memory × List Applied) :
    Except Fault (Memory × List Applied) :=
  let record := sectionRecordAt s.1 (sectionPtr (headerSections s.1 uso) targetSection)
  let table := if internal then record.internalRelocs else record.externalRelocs
  if record.data = 0 ∨ table = 0 then .ok s
  else
    countUp (lengthIn table) (applyRelocAt uso targetSection internal record.data table) rounds 0 s

def linkSectionAt (uso : U32) (i : Nat) (s : Memory × List Applied) : Except Fault (Memory × List Applied) :=
  match applyUsoRelocsAt uso i true s with
  | .error fault => .error fault
  | .ok next => applyUsoRelocsAt uso i false next

def linkUsoAt (uso : U32) (memory : Memory) : Except Fault (Memory × List Applied) :=
  countUp (numSectionsIn uso) (linkSectionAt uso) rounds 1 (memory, [])

/-! ### All of `fixup_uso` -/

/-- The export table after its pointer; an absent table is skipped. -/
def fixupExportsAt (uso : U32) (memory : Memory) : Except Fault Memory :=
  if headerExportSyms memory uso ≠ 0 then
    let memory := fixupPtr memory (field uso 12) uso
    fixupExportSymsAt (headerExportSyms memory uso) (headerSections memory uso) memory
  else .ok memory

/-- The import table after its pointer, with whether every strong import was resolved. -/
def fixupImportsAt (search : Bytes → U32) (uso : U32) (memory : Memory) : Except Fault (Memory × Bool) :=
  if headerImportSyms memory uso ≠ 0 then
    let memory := fixupPtr memory (field uso 8) uso
    fixupImportSymsAt search (headerImportSyms memory uso) memory
  else .ok (memory, true)

/-- The fixups before linking. -/
def fixupTablesAt (search : Bytes → U32) (uso noloadBase : U32) (memory : Memory) : Except Fault (Memory × Bool) :=
  let memory := fixupPtr memory (field uso 4) uso
  match fixupSectionTableAt (headerSections memory uso) noloadBase (readHalf memory uso).toNat memory with
  | .error fault => .error fault
  | .ok memory =>
    match fixupExportsAt uso memory with
    | .error fault => .error fault
    | .ok memory => fixupImportsAt search uso memory

/-- `fixup_uso`; nothing is linked when the symbol resolution failed. -/
def fixupUsoAt (search : Bytes → U32) (uso noloadBase : U32) (memory : Memory) :
    Except Fault (Option (Memory × List Applied)) :=
  match fixupTablesAt search uso noloadBase memory with
  | .error fault => .error fault
  | .ok (memory, resolved) =>
    if resolved then
      match linkUsoAt uso memory with
      | .error fault => .error fault
      | .ok linked => .ok (some linked)
    else .ok none

end DragonUso.InPlace
