import Mathlib.Logic.Function.Basic
import DragonUso.ElfFile

/-! The first half of `elf2uso`: acceptance checks, and the tables it collects from the ELF
before anything is written. The globals of the tool become the fields of `Elf2uso`. -/

namespace DragonUso.ToolCollect
open ByteOrder Format ElfFile

/-- `struct section_info`. A section with data has exactly `size` bytes of it. -/
structure SectionInfo where
  relocElfSection : Nat
  internalRelocs : List UsoReloc
  externalRelocs : List UsoReloc
  data : Option Bytes
  size : U32
  align : U32
  data_length : ∀ bytes, data = some bytes → bytes.length = size.toNat

/-- `struct symbol_info`. -/
structure SymbolInfo where
  srcSymbol : Nat
  name : Bytes
  sectionIndex : U16
  weak : Bool
  addr : Elf64Addr
  deriving DecidableEq, Repr

/-- The ways `main` stops without writing a file. -/
inductive Rejection where
  | invalidElf
  | commonUsed
  | gpRelative
  | nameTooLong (symbolId : Nat)
  | disallowedImport (name : Bytes)
  | nullAbsolute
  deriving DecidableEq, Repr

def dsoHandleName : Bytes := ascii ['_', '_', 'd', 's', 'o', '_', 'h', 'a', 'n', 'd', 'l', 'e']
def initName : Bytes := ascii ['_', 'i', 'n', 'i', 't']
def finiName : Bytes := ascii ['_', 'f', 'i', 'n', 'i']
def prologName : Bytes := ascii ['_', 'p', 'r', 'o', 'l', 'o', 'g']
def epilogName : Bytes := ascii ['_', 'e', 'p', 'i', 'l', 'o', 'g']
def relPrefix : Bytes := ascii ['.', 'r', 'e', 'l']

def prohibitedImportSymbols : List Bytes :=
  [dsoHandleName, initName, finiName, prologName, epilogName]

def hideableSymbols : List Bytes := [dsoHandleName, prologName, epilogName]

def symIsProhibitedImport (name : Bytes) : Bool := decide (name ∈ prohibitedImportSymbols)

def symIsHideable (name : Bytes) : Bool := decide (name ∈ hideableSymbols)

def elfValid (elf : Elf) : Bool :=
  elfFindSection elf symtabName != SHN_UNDEF && elf.elfClass == ELFCLASS32 &&
    elf.encoding == ELFDATA2MSB && elf.machine == EM_MIPS && elf.type == ET_REL

def commonIsUsed (elf : Elf) : Bool := elf.symbols.any fun s => s.shndx.toNat == SHN_COMMON

/-- Types that address through the GP register. -/
def isGpRelative (type : Byte) : Bool :=
  type == 7 || type == 9 || type == 11 || type == 30 || type == 31

/-- Only sections of type `SHT_REL` are looked at. -/
def checkGpRelativeRelocations (elf : Elf) : Bool :=
  elf.sections.any fun s => s.type == SHT_REL && s.relocations.any fun r => isGpRelative r.type

/-- `operator<` of `std::string`: bytes compared as unsigned, a proper prefix first. -/
def stringLess : Bytes → Bytes → Bool
  | _, [] => false
  | [], _ :: _ => true
  | a :: as, b :: bs => a < b || (a == b && stringLess as bs)

def symCompare (first second : SymbolInfo) : Bool := stringLess first.name second.name

/-- What the standard promises of `std::sort` with `symCompare`; equal names come in any order. -/
structure SymSort where
  run : List SymbolInfo → List SymbolInfo
  perm : ∀ symbols, (run symbols).Perm symbols
  sorted : ∀ symbols, (run symbols).Pairwise fun a b => symCompare b a = false

/-- The maps read with `operator[]`, which gives zero for a missing key. The key it inserts
on the way is read back as the same zero, so the insertion is left out. -/
def sectionOf (outSectionMap : Nat → Option U16) (index : Nat) : U16 := (outSectionMap index).getD 0

structure SectionTables where
  outSectionMap : Nat → Option U16
  outSections : List SectionInfo

/-- The absolute fallback section. -/
def dummySection : SectionInfo where
  relocElfSection := SHN_UNDEF
  internalRelocs := []
  externalRelocs := []
  data := none
  size := 0
  align := 0
  data_length := nullSection.data_length

def isAllocated (s : ElfSection) : Bool := s.flags &&& SHF_ALLOC != 0

def sectionData (elf : Elf) (s : ElfSection) : SectionInfo :=
  if s.type = SHT_NOBITS then
    { dummySection with size := s.size, align := s.addrAlign, data_length := by simp [dummySection] }
  else
    { relocElfSection := elfFindSection elf (relPrefix ++ s.name)
      internalRelocs := []
      externalRelocs := []
      data := s.data
      size := s.size
      align := s.addrAlign
      data_length := s.data_length }

def collectSection (elf : Elf) (tables : SectionTables) (i : Nat) (s : ElfSection) : SectionTables :=
  if isAllocated s then
    { outSectionMap := Function.update tables.outSectionMap i (some (BitVec.ofNat 16 tables.outSections.length))
      outSections := tables.outSections ++ [sectionData elf s] }
  else tables

/-- The loop of `section_collect` from ELF section `i` on. -/
def sectionCollectLoop (elf : Elf) : Nat → List ElfSection → SectionTables → SectionTables
  | _, [], tables => tables
  | i, s :: rest, tables => sectionCollectLoop elf (i + 1) rest (collectSection elf tables i s)

def sectionCollect (elf : Elf) : SectionTables :=
  sectionCollectLoop elf 1 (elf.sections.drop 1)
    { outSectionMap := Function.update (fun _ => none) SHN_UNDEF (some 0)
      outSections := [dummySection] }

structure SymbolTables where
  importSyms : List SymbolInfo
  exportSyms : List SymbolInfo
  deriving DecidableEq, Repr

/-- The import entry of an undefined symbol. The weak flag is taken from the symbol's type. -/
def importSymbol (i : Nat) (s : ElfSymbol) : SymbolInfo where
  srcSymbol := i
  name := s.name
  sectionIndex := 0
  weak := s.type == STB_WEAK
  addr := s.value.setWidth 64

def exportSymbol (i : Nat) (s : ElfSymbol) (outSection : U16) : SymbolInfo where
  srcSymbol := i
  name := s.name
  sectionIndex := outSection
  weak := false
  addr := s.value.setWidth 64

/-- One round of the loop of `sym_collect`. -/
def collectSymbol (outSectionMap : Nat → Option U16) (i : Nat) (s : ElfSymbol) (tables : SymbolTables) :
    Except Rejection SymbolTables :=
  if s.bind = STB_LOCAL then .ok tables
  else if 32767 ≤ s.name.length then .error (.nameTooLong i)
  else if s.shndx.toNat = SHN_UNDEF then
    if symIsProhibitedImport s.name then .error (.disallowedImport s.name)
    else .ok { tables with importSyms := tables.importSyms ++ [importSymbol i s] }
  else if symIsHideable s.name || s.other == STV_DEFAULT then
    match outSectionMap s.shndx.toNat with
    | some k => .ok { tables with exportSyms := tables.exportSyms ++ [exportSymbol i s k] }
    | none =>
      if s.value = 0 then .error .nullAbsolute
      else .ok { tables with exportSyms := tables.exportSyms ++ [exportSymbol i s 0] }
  else .ok tables

def symCollectLoop (outSectionMap : Nat → Option U16) : Nat → List ElfSymbol → SymbolTables →
    Except Rejection SymbolTables
  | _, [], tables => .ok tables
  | i, s :: rest, tables =>
    match collectSymbol outSectionMap i s tables with
    | .error reason => .error reason
    | .ok next => symCollectLoop outSectionMap (i + 1) rest next

/-- `import_sym_map`, filled from the sorted table. -/
def importSymMapLoop : Nat → List SymbolInfo → (Nat → Option Nat) → Nat → Option Nat
  | _, [], map => map
  | i, s :: rest, map => importSymMapLoop (i + 1) rest (Function.update map s.srcSymbol (some i))

def buildImportSymMap (importSyms : List SymbolInfo) : Nat → Option Nat :=
  importSymMapLoop 0 importSyms fun _ => none

/-- One round of the inner loop of `reloc_build`, given the symbol the relocation names. -/
def buildReloc (outSectionMap : Nat → Option U16) (importSymMap : Nat → Option Nat)
    (symbol : ElfSymbol) (r : ElfRelocation) (s : SectionInfo) : SectionInfo :=
  let info : U32 := r.type.setWidth 32 <<< 26
  if symbol.shndx.toNat = SHN_UNDEF then
    { s with externalRelocs := s.externalRelocs ++
        [{ offset := r.offset
           info := info ||| (BitVec.ofNat 32 ((importSymMap r.symbol).getD 0) &&& 0x3FFFFFF)
           symOffset := 0 }] }
  else
    { s with internalRelocs := s.internalRelocs ++
        [{ offset := r.offset
           info := info ||| ((sectionOf outSectionMap symbol.shndx.toNat).setWidth 32 &&& 0x3FFFFFF)
           symOffset := symbol.value }] }

def relocBuildLoop (elf : Elf) (outSectionMap : Nat → Option U16) (importSymMap : Nat → Option Nat) :
    List ElfRelocation → SectionInfo → SectionInfo
  | [], s => s
  | r :: rest, s =>
    match elf.symbols[r.symbol]? with
    | some symbol =>
      relocBuildLoop elf outSectionMap importSymMap rest (buildReloc outSectionMap importSymMap symbol r s)
    | none => relocBuildLoop elf outSectionMap importSymMap rest s

/-- Relocations of the ELF section with this index. -/
def relocationsOf (elf : Elf) (index : Nat) : List ElfRelocation :=
  match elf.sections[index]? with
  | some s => s.relocations
  | none => []

def relocBuildSection (elf : Elf) (outSectionMap : Nat → Option U16) (importSymMap : Nat → Option Nat)
    (s : SectionInfo) : SectionInfo :=
  if s.relocElfSection ≠ SHN_UNDEF then
    relocBuildLoop elf outSectionMap importSymMap (relocationsOf elf s.relocElfSection) s
  else s

def relocBuild (elf : Elf) (outSectionMap : Nat → Option U16) (importSymMap : Nat → Option Nat)
    (outSections : List SectionInfo) : List SectionInfo :=
  outSections.map (relocBuildSection elf outSectionMap importSymMap)

/-- The tool's globals once everything is collected. -/
structure Elf2uso where
  elf : Elf
  outSectionMap : Nat → Option U16
  outSections : List SectionInfo
  importSyms : List SymbolInfo
  exportSyms : List SymbolInfo
  importSymMap : Nat → Option Nat

/-- `sym_collect` with `sym_sort`. -/
def symCollect (sort : SymSort) (elf : Elf) (outSectionMap : Nat → Option U16) :
    Except Rejection SymbolTables :=
  match symCollectLoop outSectionMap 0 elf.symbols { importSyms := [], exportSyms := [] } with
  | .error reason => .error reason
  | .ok tables => .ok { importSyms := sort.run tables.importSyms, exportSyms := sort.run tables.exportSyms }

/-- `main` up to the call of `uso_write`. -/
def elf2uso (sort : SymSort) (elf : Elf) : Except Rejection Elf2uso :=
  if elfValid elf = false then .error .invalidElf
  else if commonIsUsed elf then .error .commonUsed
  else if checkGpRelativeRelocations elf then .error .gpRelative
  else
    let sections := sectionCollect elf
    match symCollect sort elf sections.outSectionMap with
    | .error reason => .error reason
    | .ok symbols =>
      let importSymMap := buildImportSymMap symbols.importSyms
      .ok { elf := elf
            outSectionMap := sections.outSectionMap
            outSections := relocBuild elf sections.outSectionMap importSymMap sections.outSections
            importSyms := symbols.importSyms
            exportSyms := symbols.exportSyms
            importSymMap := importSymMap }

end DragonUso.ToolCollect
