import DragonUso.MakeUsoExterns
import DragonUso.ExportLookup

/-! The two readers of a written symbol table. `make_uso_externs` takes the names by their stored
length with the weak bit masked off, the loader by their terminator; both see what `elf2uso`
collected, with any sections behind the tables. -/

namespace DragonUso.SymbolReadBack
open ByteOrder Format ElfFile ToolCollect ToolWriter WriterLayout RoundedOffsets LoaderImage FileLayout RoundTrip
open SymbolSearch Loader LoaderSteps ProducedFile RelocSafety ExportLookup MakeUsoExterns

/-- A name and a weak flag, as the loader has them. -/
def loaderView (symbol : UsoSymbol) : Bytes × Bool := (symbol.name, usoIsSymbolWeak symbol)

def toolView (symbol : UsoSymbolInfo) : Bytes × Bool := (symbol.name, symbol.weak)

/-- The tool reads the written lists, and wherever the file is loaded the loader agrees with it on
names and weak flags. -/
structure SymbolsReadBack (tool : Elf2uso) (file : Bytes) : Prop where
  read : usoRead file = .ok { importSyms := tool.importSyms.map readInfo, exportSyms := tool.exportSyms.map readInfo }
  agree : ∀ info search block, usoRead file = .ok info →
    (entries (loadedFile file search block).importSyms).map loaderView = info.importSyms.map toolView ∧
    (entries (loadedFile file search block).exportSyms).map loaderView = info.exportSyms.map toolView

/-- A written symbol looks the same to both, also once its pointer is fixed up. -/
theorem loaderView_loadedSymbol {syms : List SymbolInfo} (names : TableFits syms) (fixup : UsoSymbol → U32) :
    ((syms.map loadedSymbol).map fun s => { s with ptr := fixup s }).map loaderView = (syms.map readInfo).map toolView := by
  simp only [List.map_map]
  apply List.map_congr_left
  intro s member
  have weak := usoIsSymbolWeak_loadedSymbol (names s member).2
  rw [usoIsSymbolWeak] at weak
  simp only [Function.comp, loaderView, usoIsSymbolWeak, toolView, readInfo, weak]
  rfl

section
variable {tool : Elf2uso} {srcElfName : Bytes}

theorem entries_importSyms (fit : SymbolsFit tool srcElfName)
    (offsets : OffsetsFit (writtenHeader tool srcElfName).sections tool.outSections) (search : Bytes → U32) (block : U32) :
    entries (loadedFile (usoWrite tool srcElfName) search block).importSyms =
      (tool.importSyms.map loadedSymbol).map fun s => { s with ptr := search s.name } := by
  simp only [loadedFile, fixedUso]
  rw [entries_fixupImports, importTable_usoWrite fit offsets, entries_present]

/-- Whatever the sections are, as long as no section offset is rounded past the modulus, the symbol
lists are read back. With power-of-two alignments, all that `align_val` supports, none is. -/
theorem symbols_readBack (fit : SymbolsFit tool srcElfName)
    (named : ∀ s ∈ tool.importSyms ++ tool.exportSyms, s.name ≠ []) :
    (AlignedData tool.outSections → OffsetsFit (writtenHeader tool srcElfName).sections tool.outSections) ∧
    (OffsetsFit (writtenHeader tool srcElfName).sections tool.outSections →
      SymbolsReadBack tool (usoWrite tool srcElfName)) := by
  refine ⟨fit.offsetsFit, ?_⟩
  intro offsets
  have read := usoRead_usoWrite fit offsets (fun s member => named s (List.mem_append_left _ member))
    (fun s member => named s (List.mem_append_right _ member))
  refine ⟨read, ?_⟩
  intro info search block same
  obtain rfl := Except.ok.inj (read.symm.trans same)
  rw [entries_importSyms fit offsets, entries_exportSyms fit offsets]
  exact ⟨loaderView_loadedSymbol fit.imports _, loaderView_loadedSymbol fit.exports _⟩

end

theorem symbols_readBack_smallTool : SymbolsReadBack smallTool (usoWrite smallTool [109]) := by
  have both := symbols_readBack smallTool_writable.symbolsFit (by decide)
  exact both.2 (both.1 smallTool_writable.alignedData)

/-- One section of this alignment whose data is 32 zeros, behind the tables of `smallTool`. -/
def zerosTool (align : U32) : Elf2uso :=
  { smallTool with
    outSections :=
      [dummySection,
        { relocElfSection := 0, internalRelocs := [], externalRelocs := []
          data := some (List.replicate 32 0), size := 32, align := align, data_length := by simp }] }

/-- The written lists are allowed, and what is read back are others. -/
def Unread (tool : Elf2uso) (srcElfName : Bytes) : Prop :=
  SymbolsFit tool srcElfName ∧ (∀ s ∈ tool.importSyms ++ tool.exportSyms, s.name ≠ []) ∧
    ¬ SymbolsReadBack tool (usoWrite tool srcElfName)

theorem zerosTool_unread {align : U32} (size : (usoWrite (zerosTool align) [109]).length < 2 ^ 31)
    (lost : (usoRead (usoWrite (zerosTool align) [109])).toOption.map UsoInfo.importSyms = some []) :
    Unread (zerosTool align) [109] := by
  refine ⟨⟨smallTool_writable.imports, smallTool_writable.exports, size⟩, ?_, ?_⟩
  · exact (by decide : ∀ s ∈ smallTool.importSyms ++ smallTool.exportSyms, s.name ≠ [])
  · intro whole
    rw [whole.read] at lost
    simp [Except.toOption, zerosTool, smallTool] at lost

/-- With an alignment that is no power of two, and with none at all, the data can be rounded to the start
of the file, where it overwrites the tables. -/
theorem misaligned_unread : Unread (zerosTool 0xFFFFFFFF) [109] ∧ Unread (zerosTool 0) [109] :=
  ⟨zerosTool_unread (by decide +kernel) (by decide +kernel), zerosTool_unread (by decide +kernel) (by decide +kernel)⟩

end DragonUso.SymbolReadBack
