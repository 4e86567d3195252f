import DragonUso.Format

/-! The view of an ELF file that the accessors under `tools/elfio` give to the host tools:
sections by index, and for each section the symbols and relocations decoded from it. -/

namespace DragonUso.ElfFile
open ByteOrder Format

/-- The accessors give addresses of either class as 64 bits. -/
abbrev Elf64Addr := BitVec 64

def STB_LOCAL : Byte := 0
def STB_WEAK : Byte := 2
def STT_FUNC : Byte := 2
def STV_DEFAULT : Byte := 0
def SHN_UNDEF : Nat := 0
def SHN_LORESERVE : Nat := 0xFF00
def SHN_ABS : Nat := 0xFFF1
def SHN_COMMON : Nat := 0xFFF2
def SHT_NOBITS : U32 := 8
def SHT_REL : U32 := 9
def SHF_ALLOC : U32 := 2
def ELFCLASS32 : Byte := 1
def ELFDATA2MSB : Byte := 2
def EM_MIPS : U16 := 8
def ET_REL : U16 := 1

def ascii (text : List Char) : Bytes := text.map fun c => BitVec.ofNat 8 c.toNat

/-- One `Elf32_Sym`. Names come out of a string table, so they hold no terminator. -/
structure ElfSymbol where
  name : Bytes
  value : U32
  info : Byte
  other : Byte
  shndx : U16
  name_terminated : 0 ∉ name
  deriving DecidableEq, Repr

/-- `ELF_ST_BIND`. -/
def ElfSymbol.bind (symbol : ElfSymbol) : Byte := symbol.info >>> 4

/-- `ELF_ST_TYPE`. -/
def ElfSymbol.type (symbol : ElfSymbol) : Byte := symbol.info &&& 0xF

/-- One `Elf32_Rel`; the addend of an `Elf32_Rela` is never used. -/
structure ElfRelocation where
  offset : U32
  info : U32
  deriving DecidableEq, Repr

/-- `ELF32_R_SYM`. -/
def ElfRelocation.symbol (reloc : ElfRelocation) : Nat := (reloc.info >>> 8).toNat

/-- `ELF32_R_TYPE`. -/
def ElfRelocation.type (reloc : ElfRelocation) : Byte := reloc.info.setWidth 8

/-- A section header with its contents. A buffer has the section's size, and every section that
takes memory has one, empty sections included, unless it is `SHT_NOBITS`. -/
structure ElfSection where
  name : Bytes
  type : U32
  flags : U32
  size : U32
  addrAlign : U32
  data : Option Bytes
  symbols : List ElfSymbol
  relocations : List ElfRelocation
  data_length : ∀ bytes, data = some bytes → bytes.length = size.toNat
  data_present : flags &&& SHF_ALLOC ≠ 0 → type ≠ SHT_NOBITS → data.isSome

/-- Section 0 of every file. -/
def nullSection : ElfSection where
  name := []
  type := 0
  flags := 0
  size := 0
  addrAlign := 0
  data := none
  symbols := []
  relocations := []
  data_length := by simp
  data_present := by decide

/-- `elf_find_section`: the search starts after the null section, and zero means not found. -/
def findSection (sections : List ElfSection) (name : Bytes) : Nat :=
  match (sections.drop 1).findIdx? fun s => s.name = name with
  | some i => i + 1
  | none => SHN_UNDEF

def symtabName : Bytes := ascii ['.', 's', 'y', 'm', 't', 'a', 'b']

/-- Symbols of the section the tools pick as the symbol table. -/
def symtabSymbols (sections : List ElfSection) : List ElfSymbol :=
  match sections[findSection sections symtabName]? with
  | some symtab => symtab.symbols
  | none => []

/-- Section numbers stay below the reserved range, symbol numbers fit the 24 bits of `ELF32_R_SYM`,
and relocations name symbols of the table. -/
structure Elf where
  elfClass : Byte
  encoding : Byte
  machine : U16
  type : U16
  sections : List ElfSection
  sections_lt : sections.length < SHN_LORESERVE
  symbols_le : (symtabSymbols sections).length ≤ 2 ^ 24
  relocations_named : ∀ s ∈ sections, ∀ r ∈ s.relocations, r.symbol < (symtabSymbols sections).length

def elfFindSection (elf : Elf) (name : Bytes) : Nat := findSection elf.sections name

def Elf.symbols (elf : Elf) : List ElfSymbol := symtabSymbols elf.sections

end DragonUso.ElfFile
