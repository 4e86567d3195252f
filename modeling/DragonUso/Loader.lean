import Mathlib.Data.List.AList
import DragonUso.LoaderImage
import DragonUso.Relocation
import DragonUso.SymbolSearch

/-! The run-time library's state and its entry points. Handles are kept in a heap of
`struct uso_handle_data` linked both ways; a pointer is an address and zero is NULL. Calls into a
USO's own code are recorded as events. That code changes none of the library's records. -/

namespace DragonUso.Loader
open ByteOrder SparseFile WordMemory Format LoaderImage Relocation SymbolSearch ToolCollect

/-- What a handle holds besides its links: the block behind `uso` with its records followed. -/
structure UsoRecord where
  uso : LoadedUso
  block : U32
  ramSize : U32
  refCount : U32
  name : Bytes
  deriving DecidableEq, Repr

/-- `struct uso_handle_data`. -/
structure HandleData where
  next : U32
  prev : U32
  contents : UsoRecord
  deriving DecidableEq, Repr

abbrev Heap := AList fun _ : U32 => HandleData

inductive Event where
  | registerFrame (handle data : U32)
  | construct (handle function : U32)
  | prolog (handle function : U32)
  | epilog (handle function : U32)
  | finalize (handle dsoHandle : U32)
  | destroy (handle function : U32)
  | deregisterFrame (handle data : U32)
  | unlinked (handle : U32)
  | freed (handle : U32)
  deriving DecidableEq, Repr

structure LoaderState where
  initted : Bool
  globalSyms : Option (List UsoSymbol)
  heap : Heap
  head : U32
  tail : U32
  memory : Memory
  events : List Event

/-- The addresses `malloc` and `memalign` return in one `uso_open`. -/
structure Allocation where
  handle : U32
  block : U32
  deriving DecidableEq, Repr

/-! ### The list of handles -/

/-- A store through a pointer to a handle. -/
def modifyHandle (heap : Heap) (handle : U32) (change : HandleData → HandleData) : Heap :=
  match heap.lookup handle with
  | some d => heap.insert handle (change d)
  | none => heap

def setNext (heap : Heap) (handle next : U32) : Heap := modifyHandle heap handle fun d => { d with next := next }

def setPrev (heap : Heap) (handle prev : U32) : Heap := modifyHandle heap handle fun d => { d with prev := prev }

def setRefCount (heap : Heap) (handle count : U32) : Heap :=
  modifyHandle heap handle fun d => { d with contents := { d.contents with refCount := count } }

def nextOf (heap : Heap) (handle : U32) : U32 :=
  match heap.lookup handle with
  | some d => d.next
  | none => 0

def prevOf (heap : Heap) (handle : U32) : U32 :=
  match heap.lookup handle with
  | some d => d.prev
  | none => 0

def insertUso (st : LoaderState) (handle : U32) : LoaderState :=
  let prev := st.tail
  let heap := if prev = 0 then st.heap else setNext st.heap prev handle
  { st with
    head := if prev = 0 then handle else st.head
    heap := setNext (setPrev heap handle prev) handle 0
    tail := handle }

def removeUso (st : LoaderState) (handle : U32) : LoaderState :=
  let next := nextOf st.heap handle
  let prev := prevOf st.heap handle
  let heap := if next = 0 then st.heap else setPrev st.heap next prev
  { st with
    tail := if next = 0 then prev else st.tail
    heap := if prev = 0 then heap else setNext heap prev next
    head := if prev = 0 then next else st.head }

abbrev Registry := List (U32 × UsoRecord)

/-- The loop `while(curr)` over the handles, which every search below shares. -/
def walkHandles (heap : Heap) : Nat → U32 → Except Fault Registry
  | 0, _ => .error .endlessList
  | fuel + 1, curr =>
    if curr = 0 then .ok []
    else
      match heap.lookup curr with
      | none => .error .danglingHandle
      | some d =>
        match walkHandles heap fuel d.next with
        | .error fault => .error fault
        | .ok rest => .ok ((curr, d.contents) :: rest)

def usoList (st : LoaderState) : Except Fault Registry :=
  walkHandles st.heap (st.heap.keys.length + 1) st.head

/-! ### Searches -/

/-- The handle with a name, NULL if there is none. -/
def usoGetHandle (loaded : Registry) (filename : Bytes) : U32 :=
  match loaded.find? fun h => strcmp h.2.name filename == .eq with
  | some h => h.1
  | none => 0

/-- The first export of that name with an address, in load order. -/
def searchExports : Registry → Bytes → U32
  | [], _ => 0
  | h :: rest, name =>
    if searchSymbolTable h.2.uso.exportSyms name ≠ 0 then searchSymbolTable h.2.uso.exportSyms name
    else searchExports rest name

def searchLoadedSymbols (loaded : Registry) (globalSyms : Option (List UsoSymbol)) (name : Bytes)
    (searchGlobal : Bool) : U32 :=
  if searchExports loaded name ≠ 0 then searchExports loaded name
  else if searchGlobal then searchSymbolTable globalSyms name
  else 0

/-! ### Fixups -/

def loadedSection (image : Bytes) (base : U32) (s : UsoSection) : LoadedSection where
  data := s.data
  dataSize := s.dataSize
  dataAlign := s.dataAlign
  internalRelocs := relocTableAt image base s.internalRelocs
  externalRelocs := relocTableAt image base s.externalRelocs

def loadedSections (image : Bytes) (base noload : U32) : List LoadedSection :=
  (fixedSections image base noload).map (loadedSection image base)

def sectionAt (sections : List LoadedSection) (index : U16) : Except Fault LoadedSection :=
  match sections[index.toNat]? with
  | some s => .ok s
  | none => .error (.sectionIndex (index.setWidth 32))

def fixupExportSyms (sections : List LoadedSection) : List UsoSymbol → Except Fault (List UsoSymbol)
  | [] => .ok []
  | s :: rest =>
    match sectionAt sections s.sectionIndex with
    | .error fault => .error fault
    | .ok target =>
      match fixupExportSyms sections rest with
      | .error fault => .error fault
      | .ok fixed => .ok ({ s with ptr := ptrFixup s.ptr target.data } :: fixed)

/-- The loop goes on after a failure; `result` remembers it. -/
def fixupImportLoop (search : Bytes → U32) : List UsoSymbol → Bool → List UsoSymbol × Bool
  | [], result => ([], result)
  | s :: rest, result =>
    let ptr := search s.name
    let result := if !usoIsSymbolWeak s && ptr == 0 then false else result
    let (fixed, result) := fixupImportLoop search rest result
    ({ s with ptr := ptr } :: fixed, result)

def fixupImportSyms (search : Bytes → U32) (table : List UsoSymbol) : List UsoSymbol × Bool :=
  fixupImportLoop search table true

/-- The export table after its fixup; an absent table is skipped. -/
def fixupExports (image : Bytes) (sections : List LoadedSection) : Except Fault (Option (List UsoSymbol)) :=
  match readSymbolTable image (readHeader image).exportSyms with
  | none => .ok none
  | some table =>
    match fixupExportSyms sections table with
    | .error fault => .error fault
    | .ok fixed => .ok (some fixed)

/-- The import table after its fixup, with whether every strong import was resolved. -/
def fixupImports (image : Bytes) (search : Bytes → U32) : Option (List UsoSymbol) × Bool :=
  match readSymbolTable image (readHeader image).importSyms with
  | none => (none, true)
  | some table => ((fixupImportSyms search table).1, (fixupImportSyms search table).2)

/-- `fixup_uso`; no USO means that the symbol resolution failed. -/
def fixupUso (image : Bytes) (search : Bytes → U32) (base noload : U32) (memory : Memory) :
    Except Fault (Option (LoadedUso × Memory)) :=
  let header := readHeader image
  let sections := loadedSections image base noload
  match fixupExports image sections with
  | .error fault => .error fault
  | .ok exportSyms =>
    let (importSyms, resolved) := fixupImports image search
    if resolved then
      let uso : LoadedUso :=
        { sections := sections
          importSyms := importSyms
          exportSyms := exportSyms
          ehFrameSection := header.ehFrameSection
          ctorsSection := header.ctorsSection
          dtorsSection := header.dtorsSection }
      match linkUso uso memory with
      | .error fault => .error fault
      | .ok linked => .ok (some (uso, linked))
    else .ok none

/-! ### Start and end -/

/-- Constructors from the last stored one down to the first. -/
def ctorLoop (memory : Memory) (handle start : U32) : Nat → U32 → List Event
  | 0, _ => []
  | fuel + 1, curr =>
    if start ≤ curr then .construct handle (readWord memory curr) :: ctorLoop memory handle start fuel (curr - 4)
    else []

def runCtors (memory : Memory) (handle : U32) (s : LoadedSection) : List Event :=
  if s.data ≠ 0 ∧ 0 < s.dataSize then
    ctorLoop memory handle s.data (s.dataSize.toNat / 4 + 1) (s.data + s.dataSize - 4)
  else []

/-- Destructors in stored order. -/
def dtorLoop (memory : Memory) (handle stop : U32) : Nat → U32 → List Event
  | 0, _ => []
  | fuel + 1, curr =>
    if curr < stop then .destroy handle (readWord memory curr) :: dtorLoop memory handle stop fuel (curr + 4)
    else []

def runDtors (memory : Memory) (handle : U32) (exportSyms : Option (List UsoSymbol)) (s : LoadedSection) :
    List Event :=
  let dsoHandle := searchSymbolTable exportSyms dsoHandleName
  (if dsoHandle ≠ 0 then [.finalize handle dsoHandle] else []) ++
    if s.data ≠ 0 ∧ 0 < s.dataSize then
      dtorLoop memory handle (s.data + s.dataSize) (s.dataSize.toNat / 4 + 1) s.data
    else []

/-- Whether there is a frame section to register. -/
def hasFrames (s : LoadedSection) : Bool := s.data != 0 && 0 < s.dataSize

def startUso (memory : Memory) (handle : U32) (uso : LoadedUso) : Except Fault (List Event) :=
  match sectionAt uso.sections uso.ehFrameSection with
  | .error fault => .error fault
  | .ok ehFrame =>
    match sectionAt uso.sections uso.ctorsSection with
    | .error fault => .error fault
    | .ok ctors =>
      let prologFunc := searchSymbolTable uso.exportSyms prologName
      .ok ((if hasFrames ehFrame then [.registerFrame handle ehFrame.data] else []) ++
        (runCtors memory handle ctors ++ if prologFunc ≠ 0 then [.prolog handle prologFunc] else []))

def endUso (memory : Memory) (handle : U32) (uso : LoadedUso) : Except Fault (List Event) :=
  match sectionAt uso.sections uso.ehFrameSection with
  | .error fault => .error fault
  | .ok ehFrame =>
    match sectionAt uso.sections uso.dtorsSection with
    | .error fault => .error fault
    | .ok dtors =>
      let epilogFunc := searchSymbolTable uso.exportSyms epilogName
      .ok ((if epilogFunc ≠ 0 then [.epilog handle epilogFunc] else []) ++
        (runDtors memory handle uso.exportSyms dtors ++
          if hasFrames ehFrame then [.deregisterFrame handle ehFrame.data] else []))

/-! ### Entry points -/

/-- The symbol table of the global symbol file, whose only content is the table. -/
def readGlobalSyms (file : Bytes) : List UsoSymbol := readSymbols file 0 4 (readU32 file 0).toNat

def usoInit (st : LoaderState) (globalSymFile : Bytes) : LoaderState :=
  { st with initted := true, globalSyms := some (readGlobalSyms globalSymFile), head := 0, tail := 0 }

/-- `memset` of the block, then the image read over its start. -/
def loadBlock (memory : Memory) (block ramSize : U32) (image : Bytes) : Memory := fun p =>
  if (p - block).toNat < image.length then byteAt image (p - block).toNat
  else if p - block < ramSize then 0
  else memory p

/-- A new handle in the heap, at the end of the list, with the USO started. -/
def addUso (st : LoaderState) (handle : U32) (contents : UsoRecord) : Except Fault LoaderState :=
  let st := insertUso { st with heap := st.heap.insert handle { next := 0, prev := 0, contents := contents } } handle
  match startUso st.memory handle contents.uso with
  | .error fault => .error fault
  | .ok events => .ok { st with events := st.events ++ events }

/-- `uso_open` from the point where the file is open. -/
def loadUso (st : LoaderState) (loaded : Registry) (filename file : Bytes) (alloc : Allocation) :
    Except Fault (LoaderState × U32) :=
  let info := readLoadInfo file
  let search := fun name => searchLoadedSymbols loaded st.globalSyms name true
  if alloc.handle = 0 ∨ alloc.block = 0 then .error .outOfMemory
  else
    let memory := loadBlock st.memory alloc.block (getUsoRamSize info) (usoImage file)
    match fixupUso (usoImage file) search alloc.block (getUsoNoloadStart info alloc.block) memory with
    | .error fault => .error fault
    | .ok none => .ok ({ st with memory := memory }, 0)
    | .ok (some (uso, linked)) =>
      let contents : UsoRecord :=
        { uso := uso, block := alloc.block, ramSize := getUsoRamSize info, refCount := 1, name := filename }
      match addUso { st with memory := linked } alloc.handle contents with
      | .error fault => .error fault
      | .ok next => .ok (next, alloc.handle)

/-- `file` is what `fopen` finds under the name. -/
def usoOpen (st : LoaderState) (filename : Bytes) (file : Option Bytes) (alloc : Allocation) :
    Except Fault (LoaderState × U32) :=
  if st.initted = false then .error .notInitialized
  else
    match usoList st with
    | .error fault => .error fault
    | .ok loaded =>
      let handle := usoGetHandle loaded filename
      if handle ≠ 0 then
        match st.heap.lookup handle with
        | some d => .ok ({ st with heap := setRefCount st.heap handle (d.contents.refCount + 1) }, handle)
        | none => .error .danglingHandle
      else
        match file with
        | none => .ok (st, 0)
        | some bytes => loadUso st loaded filename bytes alloc

/-- One pass of `is_uso_closeable` over the handles; the export table is read only in its inner loop. -/
def closeableAmong (handle : U32) (exportSyms : Option (List UsoSymbol)) : Registry → Except Fault Bool
  | [] => .ok true
  | h :: rest =>
    if h.1 = handle then closeableAmong handle exportSyms rest
    else
      match exportSyms with
      | none => .error .nullExportTable
      | some symbols =>
        if symbols.any fun s => searchSymbolTable h.2.uso.importSyms s.name != 0 then .ok false
        else closeableAmong handle exportSyms rest

def isUsoCloseable (loaded : Registry) (handle : U32) (uso : LoadedUso) : Except Fault Bool :=
  closeableAmong handle uso.exportSyms loaded

/-- `end_uso`, then unlinking and freeing. -/
def unloadUso (st : LoaderState) (handle : U32) (uso : LoadedUso) : Except Fault LoaderState :=
  match endUso st.memory handle uso with
  | .error fault => .error fault
  | .ok events =>
    let st := removeUso { st with events := st.events ++ events } handle
    .ok { st with
      heap := st.heap.erase handle
      events := st.events ++ [.unlinked handle, .freed handle] }

/-- The count after a close saturates at zero. -/
def closedCount (count : U32) : U32 := if count ≠ 0 then count - 1 else count

/-- The test for unloading runs before the count is looked at. -/
def usoClose (st : LoaderState) (handle : U32) : Except Fault LoaderState :=
  match usoList st with
  | .error fault => .error fault
  | .ok loaded =>
    match loaded.find? fun h => h.1 == handle with
    | none => .error .invalidHandle
    | some (_, contents) =>
      let count := closedCount contents.refCount
      let st := { st with heap := setRefCount st.heap handle count }
      match isUsoCloseable loaded handle contents.uso with
      | .error fault => .error fault
      | .ok closeable => if closeable && count == 0 then unloadUso st handle contents.uso else .ok st

def usoIsHandleValid (st : LoaderState) (handle : U32) : Except Fault Bool :=
  match usoList st with
  | .error fault => .error fault
  | .ok loaded => .ok (loaded.any fun h => h.1 == handle)

def USO_HANDLE_ANY : U32 := 0xFFFFFFFF

def usoSym (st : LoaderState) (handle : U32) (name : Bytes) : Except Fault U32 :=
  match usoList st with
  | .error fault => .error fault
  | .ok loaded =>
    if handle = USO_HANDLE_ANY then .ok (searchLoadedSymbols loaded st.globalSyms name false)
    else
      match loaded.find? fun h => h.1 == handle with
      | none => .error .invalidHandle
      | some (_, contents) => .ok (searchSymbolTable contents.uso.exportSyms name)

end DragonUso.Loader
