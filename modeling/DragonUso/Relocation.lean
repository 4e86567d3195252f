import DragonUso.Library.PatchSet
import DragonUso.Library.WordMemory
import DragonUso.Format

/-! `apply_uso_relocs` and `link_uso` on a USO whose pointers have been fixed up: its tables are
followed to their records, and the sections it patches are cells of the target's memory. The
tables lie outside the sections, so patching a section leaves them as they are. A relocation may lie
outside its section all the same; `InPlace` has the linker that follows the tables in the memory it patches. -/

namespace DragonUso.Relocation
open ByteOrder PatchSet WordMemory Format

/-- Where the loader stops or leaves defined behaviour instead of returning. -/
inductive Fault where
  | invalidRelocType (type : Byte)
  | nullImportTable
  | nullExportTable
  | sectionIndex (index : U32)
  | importIndex (index : U32)
  | notInitialized
  | invalidHandle
  | danglingHandle
  | endlessList
  | outOfMemory
  deriving DecidableEq, Repr

structure LoadedSection where
  data : U32
  dataSize : U32
  dataAlign : U32
  internalRelocs : Option (List UsoReloc)
  externalRelocs : Option (List UsoReloc)
  deriving DecidableEq, Repr

/-- A `uso_header_t` after `fixup_uso`, with its pointers followed. -/
structure LoadedUso where
  sections : List LoadedSection
  importSyms : Option (List UsoSymbol)
  exportSyms : Option (List UsoSymbol)
  ehFrameSection : U16
  ctorsSection : U16
  dtorsSection : U16
  deriving DecidableEq, Repr

/-- The address an entry refers to: an offset into a section, or an import's resolved pointer. -/
def symbolAddress (uso : LoadedUso) (internal : Bool) (reloc : UsoReloc) : Except Fault U32 :=
  let targetIndex := usoGetRelocTargetIndex reloc
  if internal then
    match uso.sections[targetIndex.toNat]? with
    | some s => .ok (s.data + reloc.symOffset)
    | none => .error (.sectionIndex targetIndex)
  else
    match uso.importSyms with
    | none => .error .nullImportTable
    | some table =>
      match table[targetIndex.toNat]? with
      | some symbol => .ok symbol.ptr
      | none => .error (.importIndex targetIndex)

/-- The low half of a word, `*target & 0xFFFF`. -/
def lowHalf (word : U32) : U16 := word.setWidth 16

def withLowHalf (word : U32) (low : U16) : U32 := (word &&& 0xFFFF0000) ||| low.setWidth 32

/-- The target address of a HI16 from its own half and the LO16 half, corrected for the sign. -/
def hiLoAddress (hi lo : U16) (symAddr : U32) : U32 :=
  let addr : U32 := (hi.setWidth 32 <<< 16) + lo.setWidth 32
  let addr := if 0x8000 < lo then addr - 0x10000 else addr
  addr + symAddr

/-- The high half that makes up `addr` together with a sign-extended low half. -/
def carriedHi (addr : U32) : U16 :=
  let hi : U16 := (addr >>> 16).setWidth 16
  if addr &&& 0x8000 ≠ 0 then hi + 1 else hi

def isLo16 (reloc : UsoReloc) : Bool := usoGetRelocType reloc == R_MIPS_LO16

/-- The loop over the later entries of a table, which stops at the first LO16. -/
def searchLo16 : List UsoReloc → Option UsoReloc
  | [] => none
  | newReloc :: later => if isLo16 newReloc then some newReloc else searchLo16 later

/-- The new high half from the LO16 that is found; without one nothing changes. -/
def relocatedHi (memory : Memory) (sectionBase symAddr : U32) (hi : U16) (later : List UsoReloc) : U16 :=
  match searchLo16 later with
  | some loReloc =>
    carriedHi (hiLoAddress hi (lowHalf (readWord memory (sectionBase + loReloc.offset))) symAddr)
  | none => hi

def jumpTarget (word symAddr : U32) : U32 := ((word &&& 0x3FFFFFF : U32) <<< 2) + symAddr

/-- The opcode of the old word with the index field of a target address. -/
def jumpWord (word target : U32) : U32 :=
  (word &&& (0xFC000000 : U32)) ||| ((target &&& (0xFFFFFFC : U32)) >>> 2)

/-- The word one entry stores at its target; `later` are the entries after it in its table. -/
def relocatedWord (memory : Memory) (sectionBase symAddr : U32) (reloc : UsoReloc) (later : List UsoReloc) : U32 :=
  let target := readWord memory (sectionBase + reloc.offset)
  let type := usoGetRelocType reloc
  if type = R_MIPS_32 then target + symAddr
  else if type = R_MIPS_26 then jumpWord target (jumpTarget target symAddr)
  else if type = R_MIPS_HI16 then
    withLowHalf target (relocatedHi memory sectionBase symAddr (lowHalf target) later)
  else withLowHalf target (lowHalf target + lowHalf symAddr)

def storeWord (memory : Memory) (a value : U32) : Memory := fun p =>
  if inWord a p then wordByte value a p else memory p

/-- One round of the loop: the symbol is resolved before the type is looked at. -/
def applyReloc (uso : LoadedUso) (internal : Bool) (sectionBase : U32) (reloc : UsoReloc)
    (later : List UsoReloc) (memory : Memory) : Except Fault Memory :=
  match symbolAddress uso internal reloc with
  | .error fault => .error fault
  | .ok symAddr =>
    if IsSupported (usoGetRelocType reloc) then
      .ok (storeWord memory (sectionBase + reloc.offset) (relocatedWord memory sectionBase symAddr reloc later))
    else .error (.invalidRelocType (usoGetRelocType reloc))

def applyRelocLoop (uso : LoadedUso) (internal : Bool) (sectionBase : U32) :
    List UsoReloc → Memory → Except Fault Memory
  | [], memory => .ok memory
  | reloc :: later, memory =>
    match applyReloc uso internal sectionBase reloc later memory with
    | .error fault => .error fault
    | .ok next => applyRelocLoop uso internal sectionBase later next

def relocTable (s : LoadedSection) (internal : Bool) : Option (List UsoReloc) :=
  if internal then s.internalRelocs else s.externalRelocs

/-- Sections at NULL and absent tables are skipped. -/
def applyUsoRelocs (uso : LoadedUso) (targetSection : Nat) (internal : Bool) (memory : Memory) :
    Except Fault Memory :=
  match uso.sections[targetSection]? with
  | none => .error (.sectionIndex (BitVec.ofNat 32 targetSection))
  | some s =>
    match relocTable s internal with
    | none => .ok memory
    | some table => if s.data = 0 then .ok memory else applyRelocLoop uso internal s.data table memory

/-- One call of `apply_uso_relocs` after the other. -/
def applyTables (uso : LoadedUso) : List (Nat × Bool) → Memory → Except Fault Memory
  | [], memory => .ok memory
  | (targetSection, internal) :: rest, memory =>
    match applyUsoRelocs uso targetSection internal memory with
    | .error fault => .error fault
    | .ok next => applyTables uso rest next

/-- The calls `link_uso` makes: ascending sections past the dummy, internal before external. -/
def linkOrder (uso : LoadedUso) : List (Nat × Bool) :=
  (List.range' 1 (uso.sections.length - 1)).flatMap fun i => [(i, true), (i, false)]

def linkUso (uso : LoadedUso) (memory : Memory) : Except Fault Memory := applyTables uso (linkOrder uso) memory

/-! ### Entries as patches -/

theorem searchLo16_eq (later : List UsoReloc) : searchLo16 later = later.find? isLo16 := by
  induction later with
  | nil => rfl
  | cons newReloc later ih =>
    rw [searchLo16, List.find?_cons, ih]
    cases isLo16 newReloc <;> rfl

theorem relocatedWord_congr {m n : Memory} {sectionBase symAddr : U32} {reloc : UsoReloc} {later : List UsoReloc}
    (target : readWord m (sectionBase + reloc.offset) = readWord n (sectionBase + reloc.offset))
    (lo : ∀ loReloc, searchLo16 later = some loReloc →
      readWord m (sectionBase + loReloc.offset) = readWord n (sectionBase + loReloc.offset)) :
    relocatedWord m sectionBase symAddr reloc later = relocatedWord n sectionBase symAddr reloc later := by
  have hi : ∀ half, relocatedHi m sectionBase symAddr half later = relocatedHi n sectionBase symAddr half later := by
    intro half
    unfold relocatedHi
    cases found : searchLo16 later with
    | none => rfl
    | some loReloc => simp only [lo loReloc found]
  unfold relocatedWord
  simp only [target, hi]

/-- The cells an entry reads: its target, and the LO16 word a HI16 looks ahead to. -/
def relocReads (sectionBase : U32) (reloc : UsoReloc) (later : List UsoReloc) (p : U32) : Bool :=
  inWord (sectionBase + reloc.offset) p ||
    match searchLo16 later with
    | some loReloc => inWord (sectionBase + loReloc.offset) p
    | none => false

def relocPatch (sectionBase symAddr : U32) (reloc : UsoReloc) (later : List UsoReloc) : Patch U32 Byte where
  writes := inWord (sectionBase + reloc.offset)
  reads := relocReads sectionBase reloc later
  value := fun memory => wordByte (relocatedWord memory sectionBase symAddr reloc later) (sectionBase + reloc.offset)
  value_congr := by
    intro m n same p _
    rw [relocatedWord_congr (m := m) (n := n)]
    · apply readWord_congr
      intro q inside
      exact same q (by simp [relocReads, inside])
    · intro loReloc found
      apply readWord_congr
      intro q inside
      exact same q (by simp [relocReads, found, inside])

/-- The symbol address of an entry, zero where it has none. -/
def symAddrD (uso : LoadedUso) (internal : Bool) (reloc : UsoReloc) : U32 :=
  match symbolAddress uso internal reloc with
  | .ok symAddr => symAddr
  | .error _ => 0

def tablePatches (uso : LoadedUso) (internal : Bool) (sectionBase : U32) : List UsoReloc → List (Patch U32 Byte)
  | [] => []
  | reloc :: later =>
    relocPatch sectionBase (symAddrD uso internal reloc) reloc later :: tablePatches uso internal sectionBase later

/-- An entry the loop can get past. -/
structure Applicable (uso : LoadedUso) (internal : Bool) (reloc : UsoReloc) : Prop where
  supported : IsSupported (usoGetRelocType reloc)
  resolves : ∃ symAddr, symbolAddress uso internal reloc = .ok symAddr

theorem applyReloc_ok {uso : LoadedUso} {internal : Bool} {reloc : UsoReloc} (applicable : Applicable uso internal reloc)
    (sectionBase : U32) (later : List UsoReloc) (memory : Memory) :
    applyReloc uso internal sectionBase reloc later memory =
      .ok ((relocPatch sectionBase (symAddrD uso internal reloc) reloc later).apply memory) := by
  obtain ⟨symAddr, resolved⟩ := applicable.resolves
  simp only [applyReloc, resolved, if_pos applicable.supported, symAddrD]
  rfl

theorem applyRelocLoop_ok {uso : LoadedUso} {internal : Bool} {table : List UsoReloc}
    (applicable : ∀ r ∈ table, Applicable uso internal r) (sectionBase : U32) (memory : Memory) :
    applyRelocLoop uso internal sectionBase table memory =
      .ok (run (tablePatches uso internal sectionBase table) memory) := by
  induction table generalizing memory with
  | nil => rfl
  | cons reloc later ih =>
    rw [applyRelocLoop, applyReloc_ok (applicable reloc List.mem_cons_self)]
    exact ih (fun r member => applicable r (List.mem_cons_of_mem _ member)) _

/-- An entry that cannot be applied stops the loop, wherever it stands. -/
theorem applyRelocLoop_error {uso : LoadedUso} {internal : Bool} {table : List UsoReloc} {sectionBase : U32}
    {memory next : Memory} (returns : applyRelocLoop uso internal sectionBase table memory = .ok next) :
    ∀ r ∈ table, Applicable uso internal r := by
  induction table generalizing memory with
  | nil => exact fun r member => absurd member List.not_mem_nil
  | cons reloc later ih =>
    unfold applyRelocLoop applyReloc at returns
    cases resolved : symbolAddress uso internal reloc with
    | error fault => simp [resolved] at returns
    | ok symAddr =>
      by_cases supported : IsSupported (usoGetRelocType reloc)
      · simp only [resolved, if_pos supported] at returns
        exact List.forall_mem_cons.mpr ⟨⟨supported, symAddr, resolved⟩, ih returns⟩
      · simp [resolved, if_neg supported] at returns

end DragonUso.Relocation
