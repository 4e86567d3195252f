import DragonUso.CollectedTables
import DragonUso.ToolWriter

/-! `make_global_syms`: the symbols of the main program that USOs may import, collected from its ELF
and written as one symbol table. Sorting and writing are the functions `elf2uso` has. -/

namespace DragonUso.MakeGlobalSyms
open ByteOrder SparseFile Format ElfFile ToolCollect ToolWriter CollectedTables

def ET_EXEC : U16 := 2

/-- A linked program. No relocation has to number its symbols. -/
structure MainElf where
  elfClass : Byte
  encoding : Byte
  machine : U16
  type : U16
  sections : List ElfSection

def MainElf.symbols (elf : MainElf) : List ElfSymbol := symtabSymbols elf.sections

/-- The ways `main` stops without writing a file. -/
inductive GlobalRejection where
  | invalidElf
  | nullAddress (name : Bytes)
  deriving DecidableEq, Repr

def kseg0StartName : Bytes := ascii ['_', '_', 'k', 's', 'e', 'g', '0', '_', 's', 't', 'a', 'r', 't']
def libdragonTextStartName : Bytes :=
  ascii ['_', '_', 'l', 'i', 'b', 'd', 'r', 'a', 'g', 'o', 'n', '_', 't', 'e', 'x', 't', '_', 's', 't', 'a', 'r', 't']
def textStartName : Bytes := ascii ['_', '_', 't', 'e', 'x', 't', '_', 's', 't', 'a', 'r', 't']
def textEndName : Bytes := ascii ['_', '_', 't', 'e', 'x', 't', '_', 'e', 'n', 'd']
def ehFrameBeginName : Bytes :=
  ascii ['_', '_', 'E', 'H', '_', 'F', 'R', 'A', 'M', 'E', '_', 'B', 'E', 'G', 'I', 'N', '_', '_']
def ctorListName : Bytes := ascii ['_', '_', 'C', 'T', 'O', 'R', '_', 'L', 'I', 'S', 'T', '_', '_']
def ctorEndName : Bytes := ascii ['_', '_', 'C', 'T', 'O', 'R', '_', 'E', 'N', 'D', '_', '_']
def dataStartName : Bytes := ascii ['_', '_', 'd', 'a', 't', 'a', '_', 's', 't', 'a', 'r', 't']
def gpName : Bytes := ascii ['_', 'g', 'p']
def dataEndName : Bytes := ascii ['_', '_', 'd', 'a', 't', 'a', '_', 'e', 'n', 'd']
def bssStartName : Bytes := ascii ['_', '_', 'b', 's', 's', '_', 's', 't', 'a', 'r', 't']
def bssEndName : Bytes := ascii ['_', '_', 'b', 's', 's', '_', 'e', 'n', 'd']
def romEndName : Bytes := ascii ['_', '_', 'r', 'o', 'm', '_', 'e', 'n', 'd']
def endName : Bytes := ascii ['e', 'n', 'd']

def unexportedSymbols : List Bytes :=
  [dsoHandleName, initName, finiName, kseg0StartName, libdragonTextStartName, textStartName, textEndName,
    ehFrameBeginName, ctorListName, ctorEndName, dataStartName, gpName, dataEndName, bssStartName, bssEndName,
    romEndName, endName]

def symIsExported (name : Bytes) : Bool := unexportedSymbols.all fun excluded => excluded != name

def mainElfValid (elf : MainElf) : Bool :=
  findSection elf.sections symtabName != SHN_UNDEF && elf.elfClass == ELFCLASS32 &&
    elf.encoding == ELFDATA2MSB && elf.machine == EM_MIPS && elf.type == ET_EXEC

/-- The export list, and the numbers of the symbols whose names were reported as too long. -/
structure GlobalSyms where
  exportSymList : List SymbolInfo
  reported : List Nat
  deriving DecidableEq, Repr

/-- Global symbols use section 0 and are never weak. -/
def globalSymbol (i : Nat) (s : ElfSymbol) : SymbolInfo := exportSymbol i s 0

/-- One round of the loop of `sym_collect`. A name that is too long is reported and kept. -/
def collectGlobal (i : Nat) (s : ElfSymbol) (syms : GlobalSyms) : Except GlobalRejection GlobalSyms :=
  if s.bind = STB_LOCAL then .ok syms
  else if s.shndx.toNat ≠ SHN_UNDEF ∧ s.value = 0 then .error (.nullAddress s.name)
  else if s.value = 0 then .ok syms
  else
    let reported := if 32767 ≤ s.name.length then syms.reported ++ [i] else syms.reported
    if symIsExported s.name then
      .ok { exportSymList := syms.exportSymList ++ [globalSymbol i s], reported := reported }
    else .ok { syms with reported := reported }

def globalCollectLoop : Nat → List ElfSymbol → GlobalSyms → Except GlobalRejection GlobalSyms
  | _, [], syms => .ok syms
  | i, s :: rest, syms =>
    match collectGlobal i s syms with
    | .error reason => .error reason
    | .ok next => globalCollectLoop (i + 1) rest next

/-- `main` up to the call of `global_sym_write`. -/
def makeGlobalSyms (sort : SymSort) (elf : MainElf) : Except GlobalRejection GlobalSyms :=
  if mainElfValid elf = false then .error .invalidElf
  else
    match globalCollectLoop 0 elf.symbols { exportSymList := [], reported := [] } with
    | .error reason => .error reason
    | .ok syms => .ok { syms with exportSymList := sort.run syms.exportSymList }

/-- The bytes of the file `global_sym_write` leaves. -/
def globalSymWrite (exportSymList : List SymbolInfo) : Bytes := run (usoWriteSymbolTable 0 exportSymList)

/-! ### What is collected -/

/-- A symbol that gets an entry. -/
def isGlobal (s : ElfSymbol) : Bool := s.bind != STB_LOCAL && s.value != 0 && symIsExported s.name

theorem isGlobal_iff (s : ElfSymbol) :
    isGlobal s = true ↔ s.bind ≠ STB_LOCAL ∧ s.value ≠ 0 ∧ symIsExported s.name = true := by
  rw [isGlobal, Bool.and_eq_true, Bool.and_eq_true, bne_iff_ne, bne_iff_ne, and_assoc]

theorem collectGlobal_ok {i : Nat} {s : ElfSymbol} {syms next : GlobalSyms}
    (collected : collectGlobal i s syms = .ok next) :
    next.exportSymList = syms.exportSymList ++ if isGlobal s then [globalSymbol i s] else [] := by
  unfold collectGlobal at collected
  by_cases isLocal : s.bind = STB_LOCAL
  · have skipped : ¬ isGlobal s = true := fun taken => ((isGlobal_iff s).mp taken).1 isLocal
    rw [if_pos isLocal, Except.ok.injEq] at collected
    rw [if_neg skipped, List.append_nil, collected]
  · rw [if_neg isLocal] at collected
    by_cases rejected : s.shndx.toNat ≠ SHN_UNDEF ∧ s.value = 0
    · rw [if_pos rejected] at collected
      cases collected
    · rw [if_neg rejected] at collected
      by_cases null : s.value = 0
      · have skipped : ¬ isGlobal s = true := fun taken => ((isGlobal_iff s).mp taken).2.1 null
        rw [if_pos null, Except.ok.injEq] at collected
        rw [if_neg skipped, List.append_nil, collected]
      · simp only [if_neg null] at collected
        by_cases exported : symIsExported s.name = true
        · rw [if_pos exported, Except.ok.injEq] at collected
          rw [if_pos ((isGlobal_iff s).mpr ⟨isLocal, null, exported⟩), ← collected]
        · have skipped : ¬ isGlobal s = true := fun taken => exported ((isGlobal_iff s).mp taken).2.2
          rw [if_neg exported, Except.ok.injEq] at collected
          rw [if_neg skipped, List.append_nil, ← collected]

theorem globalCollectLoop_ok {symbols : List ElfSymbol} {i : Nat} {syms result : GlobalSyms}
    (collected : globalCollectLoop i symbols syms = .ok result) :
    result.exportSymList = syms.exportSymList ++ collectFrom isGlobal globalSymbol i symbols := by
  induction symbols generalizing i syms with
  | nil =>
    rw [globalCollectLoop, Except.ok.injEq] at collected
    simp [← collected, collectFrom]
  | cons s rest ih =>
    unfold globalCollectLoop at collected
    cases one : collectGlobal i s syms with
    | error reason => simp [one] at collected
    | ok next =>
      simp only [one] at collected
      rw [ih collected, collectGlobal_ok one, List.append_assoc, collectFrom]
      split <;> rfl

/-- The list of a tool that succeeds is the sorted list of the symbols it takes. -/
theorem makeGlobalSyms_ok {sort : SymSort} {elf : MainElf} {syms : GlobalSyms}
    (made : makeGlobalSyms sort elf = .ok syms) :
    syms.exportSymList = sort.run (collectFrom isGlobal globalSymbol 0 elf.symbols) := by
  unfold makeGlobalSyms at made
  split at made
  next => cases made
  next =>
    cases collected : globalCollectLoop 0 elf.symbols { exportSymList := [], reported := [] } with
    | error reason => simp [collected] at made
    | ok result =>
      simp only [collected, Except.ok.injEq] at made
      rw [← made]
      exact congrArg sort.run (globalCollectLoop_ok collected)

end DragonUso.MakeGlobalSyms
