import DragonUso.ProducedFile

/-! `make_uso_externs`: the names a set of USO files imports from outside the set, for the main program
to be linked with. The tool reads the symbol tables back from the files; its words are swapped
like those of `elf2uso`, so the readers decode big-endian words directly. -/

namespace DragonUso.MakeUsoExterns
open ByteOrder SparseFile SortedSearch Format ElfFile ToolCollect ToolWriter WriterLayout RoundedOffsets LoaderImage
open FileLayout RoundTrip SymbolSearch CollectedTables ProducedFile

/-- `struct uso_symbol_info`. -/
structure UsoSymbolInfo where
  name : Bytes
  addr : U32
  sectionIndex : U16
  weak : Bool
  deriving DecidableEq, Repr

structure UsoInfo where
  importSyms : List UsoSymbolInfo
  exportSyms : List UsoSymbolInfo
  deriving DecidableEq, Repr

/-- The ways reading a file stops the tool. -/
inductive ReadFailure where
  | header
  | symbol
  | symbolName
  | symbolTableSize
  deriving DecidableEq, Repr

/-- One `fseek` and one `fread` of a single item, which fails for an item of no bytes. -/
def fileRead (file : Bytes) (ofs : U32) (size : Nat) : Option Bytes :=
  if size ≠ 0 ∧ ofs.toNat + size ≤ file.length then some (readAt file ofs.toNat size) else none

def usoReadHeader (file : Bytes) : Except ReadFailure UsoHeader :=
  match fileRead file 0 20 with
  | some bytes => .ok (readHeader bytes)
  | none => .error .header

/-- `uso_symbol_t` of the tool. -/
structure RawSymbol where
  nameOfs : U32
  addr : U32
  sectionIndex : U16
  nameLen : U16

def usoReadSymbol (file : Bytes) (ofs : U32) : Except ReadFailure RawSymbol :=
  match fileRead file ofs 12 with
  | some bytes =>
    .ok { nameOfs := readU32 bytes 0, addr := readU32 bytes 4, sectionIndex := readU16 bytes 8, nameLen := readU16 bytes 10 }
  | none => .error .symbol

/-- The buffer is read as a C string. -/
def usoReadSymbolName (file : Bytes) (ofs : U32) (len : Nat) : Except ReadFailure Bytes :=
  match fileRead file ofs len with
  | some bytes => .ok (bytes.takeWhile (· != 0))
  | none => .error .symbolName

def usoGetSymTableCount (file : Bytes) (symTableOfs : U32) : Except ReadFailure U32 :=
  match fileRead file symTableOfs 4 with
  | some bytes => .ok (readU32 bytes 0)
  | none => .error .symbolTableSize

/-- The loop of `uso_read_symbol_table` from symbol `i` on. -/
def usoReadSymbols (file : Bytes) (ofs : U32) : Nat → Nat → Except ReadFailure (List UsoSymbolInfo)
  | _, 0 => .ok []
  | i, count + 1 =>
    match usoReadSymbol file (4 + ofs + BitVec.ofNat 32 (i * 12)) with
    | .error failure => .error failure
    | .ok symbol =>
      match usoReadSymbolName file (ofs + symbol.nameOfs) (symbol.nameLen &&& 0x7FFF).toNat with
      | .error failure => .error failure
      | .ok name =>
        match usoReadSymbols file ofs (i + 1) count with
        | .error failure => .error failure
        | .ok rest =>
          .ok ({ name := name, addr := symbol.addr, sectionIndex := symbol.sectionIndex
                 weak := symbol.nameLen &&& 0x8000 != 0 } :: rest)

/-- A table at offset zero is absent. -/
def usoReadSymbolTable (file : Bytes) (ofs : U32) : Except ReadFailure (List UsoSymbolInfo) :=
  if ofs = 0 then .ok []
  else
    match usoGetSymTableCount file ofs with
    | .error failure => .error failure
    | .ok count => usoReadSymbols file ofs 0 count.toNat

def usoRead (file : Bytes) : Except ReadFailure UsoInfo :=
  match usoReadHeader file with
  | .error failure => .error failure
  | .ok header =>
    match usoReadSymbolTable file header.importSyms with
    | .error failure => .error failure
    | .ok importSyms =>
      match usoReadSymbolTable file header.exportSyms with
      | .error failure => .error failure
      | .ok exportSyms => .ok { importSyms := importSyms, exportSyms := exportSyms }

def usoReadList : List Bytes → Except ReadFailure (List UsoInfo)
  | [] => .ok []
  | file :: rest =>
    match usoRead file with
    | .error failure => .error failure
    | .ok info =>
      match usoReadList rest with
      | .error failure => .error failure
      | .ok usoList => .ok (info :: usoList)

def usoSymCompare (first second : UsoSymbolInfo) : Bool := stringLess first.name second.name

/-- The loop of `uso_sym_is_extern` from USO `i` on. -/
def usoSymIsExternLoop (usoId : Nat) (symbol : UsoSymbolInfo) : Nat → List UsoInfo → Bool
  | _, [] => true
  | i, uso :: rest =>
    if i = usoId then usoSymIsExternLoop usoId symbol (i + 1) rest
    else if binarySearch usoSymCompare uso.exportSyms symbol then false
    else usoSymIsExternLoop usoId symbol (i + 1) rest

def usoSymIsExtern (usoList : List UsoInfo) (usoId : Nat) (name : Bytes) : Bool :=
  usoSymIsExternLoop usoId { name := name, addr := 0, sectionIndex := 0, weak := false } 0 usoList

/-- The outer loop of `generate_uso_extern_list` from USO `i` on. -/
def usoExternLoop (usoList : List UsoInfo) : Nat → List UsoInfo → List Bytes
  | _, [] => []
  | i, uso :: rest =>
    (uso.importSyms.map fun s => s.name).filter (usoSymIsExtern usoList i) ++ usoExternLoop usoList (i + 1) rest

def generateUsoExternList (usoList : List UsoInfo) : List Bytes := usoExternLoop usoList 0 usoList

/-- `main` up to the writing of the list. -/
def makeUsoExterns (files : List Bytes) : Except ReadFailure (List Bytes) :=
  match usoReadList files with
  | .error failure => .error failure
  | .ok usoList => .ok (generateUsoExternList usoList)

/-! ### Reading what was written -/

/-- A symbol of `elf2uso` as this tool reads it. -/
def readInfo (s : SymbolInfo) : UsoSymbolInfo where
  name := s.name
  addr := s.addr.setWidth 32
  sectionIndex := s.sectionIndex
  weak := s.weak

theorem fileRead_eq {file data : Bytes} {ofs : U32} (some : data ≠ [])
    (read : readAt file ofs.toNat data.length = data) (inside : ofs.toNat + data.length ≤ file.length) :
    fileRead file ofs data.length = .some data := by
  have positive : data.length ≠ 0 := fun zero => some (List.length_eq_zero_iff.mp zero)
  rw [fileRead, if_pos ⟨positive, inside⟩, read]

theorem usoReadSymbol_written {file : Bytes} {ofs nameOfs : U32} {s : SymbolInfo}
    (read : readAt file ofs.toNat 12 = symbolBytes nameOfs s) (inside : ofs.toNat + 12 ≤ file.length) :
    usoReadSymbol file ofs =
      .ok { nameOfs := nameOfs, addr := s.addr.setWidth 32, sectionIndex := s.sectionIndex, nameLen := symbolNameLen s } := by
  have some : symbolBytes nameOfs s ≠ [] := List.cons_ne_nil _ _
  have record : fileRead file ofs 12 = .some (symbolBytes nameOfs s) := fileRead_eq some read inside
  have fields : readAt (symbolBytes nameOfs s) 0 (symbolBytes nameOfs s).length = symbolBytes nameOfs s :=
    readAt_append_right [] _
  rw [symbolBytes] at fields
  obtain ⟨name, fields⟩ := readAt_be32 fields
  obtain ⟨addr, fields⟩ := readAt_be32 fields
  obtain ⟨sectionIndex, fields⟩ := readAt_be16 fields
  have length : readU16 (symbolBytes nameOfs s) 10 = symbolNameLen s := by
    rw [be16_length] at fields
    rw [symbolBytes, readU16]
    exact (congrArg fromBe16 fields).trans (fromBe16_be16 _)
  rw [usoReadSymbol, record]
  simp only [length]
  rw [← symbolBytes] at name addr sectionIndex
  rw [name, addr, sectionIndex]

theorem usoReadSymbolName_written {file : Bytes} {ofs : U32} {name : Bytes} (terminated : 0 ∉ name) (some : name ≠ [])
    (read : readAt file ofs.toNat (name ++ [0]).length = name ++ [0])
    (inside : ofs.toNat + (name ++ [0]).length ≤ file.length) : usoReadSymbolName file ofs name.length = .ok name := by
  rw [List.length_append, List.length_singleton] at inside
  have whole : name.takeWhile (· != 0) = name := by
    rw [← List.append_nil name, List.takeWhile_append_of_pos]
    · simp
    · intro b member
      rw [bne_iff_ne]
      exact fun zero => terminated (zero ▸ member)
  rw [usoReadSymbolName, fileRead_eq some (readAt_split read).1 (by omega)]
  simp only [whole]

/-- The symbols are read back with their own names, in order. -/
theorem usoReadSymbols_written {file : Bytes} {ofs : U32} (small : file.length < 2 ^ 31) (syms : List SymbolInfo) (i : Nat)
    (nameOfs : U32) (names : TableFits syms) (some : ∀ s ∈ syms, s.name ≠ [])
    (survives : Survives file (writeSymbolLoop ofs i nameOfs syms))
    (bounded : Bounded file.length (writeSymbolLoop ofs i nameOfs syms)) :
    usoReadSymbols file ofs i syms.length = .ok (syms.map readInfo) := by
  induction syms generalizing i nameOfs with
  | nil => rfl
  | cons s rest ih =>
    unfold writeSymbolLoop at survives bounded
    obtain ⟨terminated, fits⟩ := names s List.mem_cons_self
    have record := survives.head
    have recordStop := bounded.head (List.cons_ne_nil _ _)
    have name := survives.tail.head
    have nameStop := bounded.tail.head (by rw [symbolNameBytes_eq fits]; simp)
    simp only [Write.stop, symbolBytes_length] at recordStop
    simp only [symbolNameBytes_eq fits] at name
    simp only [Write.stop, symbolNameBytes_eq fits] at nameStop
    have offset : (BitVec.ofNat 32 (i * 12)).toNat = i * 12 := toNat_ofNat_small (by omega)
    have place : (4 + ofs + BitVec.ofNat 32 (i * 12)).toNat = (4 + ofs).toNat + i * 12 := by
      rw [toNat_add_small (by omega), offset]
    rw [← place] at record recordStop
    have symbol := usoReadSymbol_written record recordStop
    have text := usoReadSymbolName_written terminated (some s List.mem_cons_self) name nameStop
    have length := usoSymbolGetNameLength_loadedSymbol fits
    have weak := usoIsSymbolWeak_loadedSymbol fits
    rw [usoSymbolGetNameLength] at length
    rw [usoIsSymbolWeak] at weak
    have later := ih (i + 1) _ (fun t member => names t (List.mem_cons_of_mem _ member))
      (fun t member => some t (List.mem_cons_of_mem _ member)) survives.tail.tail bounded.tail.tail
    have field : (loadedSymbol s).nameLen = symbolNameLen s := rfl
    rw [field] at length weak
    rw [List.length_cons, usoReadSymbols, symbol]
    simp only [length, text, later, weak]
    rfl

theorem usoReadSymbolTable_written {file : Bytes} {dataOfs : U32} (small : file.length < 2 ^ 31) {syms : List SymbolInfo}
    (names : TableFits syms) (some : ∀ s ∈ syms, s.name ≠ [])
    (nonzero : syms ≠ [] → (writeOptionalTable dataOfs syms).2.1 ≠ 0)
    (survives : Survives file (writeOptionalTable dataOfs syms).1)
    (bounded : Bounded file.length (writeOptionalTable dataOfs syms).1) :
    usoReadSymbolTable file (writeOptionalTable dataOfs syms).2.1 = .ok (syms.map readInfo) := by
  by_cases empty : syms = []
  · subst empty
    rfl
  · have place := nonzero empty
    have count : syms.length ≠ 0 := fun zero => empty (List.length_eq_zero_iff.mp zero)
    unfold writeOptionalTable at survives bounded place ⊢
    simp only [if_pos count] at survives bounded place ⊢
    have stored := survives.left.head
    have stop := bounded.left.head (List.cons_ne_nil _ _)
    have records := writeSymbolLoop_records syms 0 _ empty bounded.right
    have filled : be32 (BitVec.ofNat 32 syms.length) ≠ [] := List.cons_ne_nil _ _
    have size : fileRead file (alignVal dataOfs 4) 4 = .some (be32 (BitVec.ofNat 32 syms.length)) :=
      fileRead_eq filled stored stop
    have value : readU32 (be32 (BitVec.ofNat 32 syms.length)) 0 = BitVec.ofNat 32 syms.length := by
      have whole : readAt (be32 (BitVec.ofNat 32 syms.length)) 0 4 = be32 (BitVec.ofNat 32 syms.length) :=
        readAt_append_right [] (be32 (BitVec.ofNat 32 syms.length))
      rw [readU32, whole, fromBe32_be32]
    have entries := usoReadSymbols_written small syms 0 _ names some survives.right bounded.right
    rw [usoReadSymbolTable, if_neg place, usoGetSymTableCount, size]
    simp only [value]
    rw [toNat_ofNat_small (by omega), entries]

/-- No write leaves the file. -/
theorem bounded_usoWrite (tool : Elf2uso) (srcElfName : Bytes) :
    Bounded (usoWrite tool srcElfName).length (usoWriteBody tool srcElfName).1 := by
  have padded := paddedBody_length (run (usoWriteBody tool srcElfName).1)
  intro w member some
  have stop := bounded_body tool srcElfName w member some
  rw [usoWrite, usoWriteLoadInfo_length]
  unfold bodyLength at stop
  omega

theorem usoReadHeader_usoWrite (tool : Elf2uso) (srcElfName : Bytes) :
    usoReadHeader (usoWrite tool srcElfName) = .ok (writtenHeader tool srcElfName) := by
  have bounded := boundedParts (bounded_usoWrite tool srcElfName)
  have filled : headerBytes (writtenHeader tool srcElfName) ≠ [] := List.cons_ne_nil _ _
  have header : fileRead (usoWrite tool srcElfName) 0 20 = some (headerBytes (writtenHeader tool srcElfName)) :=
    fileRead_eq filled (holdsBody_usoWrite tool srcElfName).header.head
      (bounded.header.head (List.cons_ne_nil _ _))
  have own : Survives (headerBytes (writtenHeader tool srcElfName)) (usoWriteHeader (writtenHeader tool srcElfName)) := by
    intro w member
    rw [usoWriteHeader, List.mem_singleton] at member
    rw [member]
    exact readAt_append_right [] _
  rw [usoReadHeader, header]
  simp only [readHeader_written own]

/-- The tool reads the tables that were written, whatever the sections are, if no name is empty and no
section offset is rounded past the modulus. -/
theorem usoRead_usoWrite {tool : Elf2uso} {srcElfName : Bytes} (fit : SymbolsFit tool srcElfName)
    (offsets : OffsetsFit (writtenHeader tool srcElfName).sections tool.outSections)
    (imports : ∀ s ∈ tool.importSyms, s.name ≠ []) (exports : ∀ s ∈ tool.exportSyms, s.name ≠ []) :
    usoRead (usoWrite tool srcElfName) =
      .ok { importSyms := tool.importSyms.map readInfo, exportSyms := tool.exportSyms.map readInfo } := by
  have places := fit.offsets
  have zero : (0 : U32).toNat = 0 := rfl
  have survives := fit.survives offsets (holdsBody_usoWrite tool srcElfName)
  have bounded := boundedParts (bounded_usoWrite tool srcElfName)
  have importTable : usoReadSymbolTable (usoWrite tool srcElfName) (writtenHeader tool srcElfName).importSyms =
      .ok (tool.importSyms.map readInfo) := by
    refine usoReadSymbolTable_written fit.size fit.imports imports ?_ survives.left bounded.imports
    intro some null
    have place := places.importSyms some
    rw [show (writtenHeader tool srcElfName).importSyms = 0 from null, zero] at place
    omega
  have exportTable : usoReadSymbolTable (usoWrite tool srcElfName) (writtenHeader tool srcElfName).exportSyms =
      .ok (tool.exportSyms.map readInfo) := by
    refine usoReadSymbolTable_written fit.size fit.exports exports ?_ survives.right bounded.exports
    intro some null
    have place := places.exportSyms some
    rw [show (writtenHeader tool srcElfName).exportSyms = 0 from null, zero] at place
    omega
  rw [usoRead, usoReadHeader_usoWrite]
  simp only [importTable, exportTable]

/-- The tool reads the tables `elf2uso` collected. -/
theorem usoRead_produced {sort : SymSort} {elf : Elf} {tool : Elf2uso} {srcElfName : Bytes}
    (produced : Produced sort elf tool srcElfName) (imports : ∀ s ∈ tool.importSyms, s.name ≠ [])
    (exports : ∀ s ∈ tool.exportSyms, s.name ≠ []) :
    usoRead (usoWrite tool srcElfName) =
      .ok { importSyms := tool.importSyms.map readInfo, exportSyms := tool.exportSyms.map readInfo } :=
  usoRead_usoWrite produced.writable.symbolsFit produced.writable.offsetsFit imports exports

/-! ### The list -/

/-- The exports are in the order of their names. -/
def NamesAscend (info : UsoInfo) : Prop := info.exportSyms.Pairwise fun a b => usoSymCompare a b = true

theorem stringLess_trans {first second third : Bytes} (below : stringLess first second = true)
    (above : stringLess second third = true) : stringLess first third = true := by
  rw [stringLess_iff] at below above ⊢
  exact strcmp_lt_trans below above

theorem stringLess_neither (first second : Bytes) :
    stringLess first second = false ∧ stringLess second first = false ↔ first = second := by
  rw [Bool.eq_false_iff, Bool.eq_false_iff, ne_eq, ne_eq, stringLess_iff, stringLess_iff, ← strcmp_gt_iff first second,
    ← strcmp_eq_iff]
  cases strcmp first second <;> simp

/-- In a sorted table the search tells whether the name is there. -/
theorem binarySearch_exports {info : UsoInfo} (sorted : NamesAscend info) (symbol : UsoSymbolInfo) :
    binarySearch usoSymCompare info.exportSyms symbol = true ↔ ∃ e ∈ info.exportSyms, e.name = symbol.name := by
  have below : Partitioned (fun e => usoSymCompare e symbol) info.exportSyms :=
    sorted.imp fun order later => stringLess_trans order later
  have ascending : info.exportSyms.Pairwise fun a b => usoSymCompare symbol a = true → usoSymCompare symbol b = true :=
    sorted.imp fun order earlier => stringLess_trans earlier order
  rw [binarySearch_iff below ascending]
  simp only [usoSymCompare, stringLess_neither]

theorem usoSymIsExternLoop_iff {usoId : Nat} {symbol : UsoSymbolInfo} {usoList : List UsoInfo}
    (sorted : ∀ info ∈ usoList, NamesAscend info) (i : Nat) :
    usoSymIsExternLoop usoId symbol i usoList = true ↔
      ∀ j info, usoList[j]? = some info → i + j ≠ usoId → ∀ e ∈ info.exportSyms, e.name ≠ symbol.name := by
  induction usoList generalizing i with
  | nil => simp [usoSymIsExternLoop]
  | cons uso rest ih =>
    have later := ih (fun info member => sorted info (List.mem_cons_of_mem _ member)) (i + 1)
    have shift : (∀ j info, rest[j]? = some info → i + 1 + j ≠ usoId → ∀ e ∈ info.exportSyms, e.name ≠ symbol.name) ↔
        ∀ j info, (uso :: rest)[j + 1]? = some info → i + (j + 1) ≠ usoId → ∀ e ∈ info.exportSyms,
          e.name ≠ symbol.name := by
      simp only [List.getElem?_cons_succ, Nat.add_assoc, Nat.add_comm 1]
    have found := binarySearch_exports (sorted uso List.mem_cons_self) symbol
    rw [usoSymIsExternLoop]
    by_cases own : i = usoId
    · rw [if_pos own, later, shift]
      refine ⟨fun others j info at_j => ?_, fun all j => all (j + 1)⟩
      cases j with
      | zero => exact fun other => absurd own other
      | succ j => exact others j info at_j
    · rw [if_neg own]
      by_cases exported : binarySearch usoSymCompare uso.exportSyms symbol = true
      · obtain ⟨e, member, named⟩ := found.mp exported
        rw [if_pos exported]
        exact ⟨fun absurd => Bool.noConfusion absurd, fun all => absurd named (all 0 uso rfl own e member)⟩
      · rw [if_neg exported, later, shift]
        refine ⟨fun others j info at_j => ?_, fun all j => all (j + 1)⟩
        cases j with
        | zero =>
          obtain rfl := Option.some.inj at_j
          exact fun _ e member named => exported (found.mpr ⟨e, member, named⟩)
        | succ j => exact others j info at_j

/-- A name is external for a USO exactly if no other USO exports it. -/
theorem usoSymIsExtern_iff {usoList : List UsoInfo} (sorted : ∀ info ∈ usoList, NamesAscend info) (usoId : Nat)
    (name : Bytes) :
    usoSymIsExtern usoList usoId name = true ↔
      ∀ j info, usoList[j]? = some info → j ≠ usoId → ∀ e ∈ info.exportSyms, e.name ≠ name := by
  rw [usoSymIsExtern, usoSymIsExternLoop_iff sorted]
  simp only [Nat.zero_add]

theorem mem_usoExternLoop {usoList rest : List UsoInfo} {i : Nat} {name : Bytes} :
    name ∈ usoExternLoop usoList i rest ↔
      ∃ j info, rest[j]? = some info ∧ (∃ s ∈ info.importSyms, s.name = name) ∧
        usoSymIsExtern usoList (i + j) name = true := by
  induction rest generalizing i with
  | nil => simp [usoExternLoop]
  | cons uso rest ih =>
    rw [usoExternLoop, List.mem_append, List.mem_filter, List.mem_map, ih]
    constructor
    · rintro (⟨imported, external⟩ | ⟨j, info, at_j, imported, external⟩)
      · exact ⟨0, uso, rfl, imported, external⟩
      · exact ⟨j + 1, info, at_j, imported, by rw [Nat.add_assoc, Nat.add_comm 1] at external; exact external⟩
    · rintro ⟨j, info, at_j, imported, external⟩
      cases j with
      | zero =>
        obtain rfl := Option.some.inj at_j
        exact .inl ⟨imported, external⟩
      | succ j => exact .inr ⟨j, info, at_j, imported, by rw [Nat.add_assoc, Nat.add_comm 1]; exact external⟩

/-- The list holds the imports that no other USO of the set exports. -/
theorem mem_generateUsoExternList {usoList : List UsoInfo} (sorted : ∀ info ∈ usoList, NamesAscend info) {name : Bytes} :
    name ∈ generateUsoExternList usoList ↔
      ∃ (i : Nat) (uso : UsoInfo), usoList[i]? = some uso ∧ (∃ s ∈ uso.importSyms, s.name = name) ∧
        ∀ j info, usoList[j]? = some info → j ≠ i → ∀ e ∈ info.exportSyms, e.name ≠ name := by
  rw [generateUsoExternList, mem_usoExternLoop]
  simp only [Nat.zero_add, usoSymIsExtern_iff sorted]

end DragonUso.MakeUsoExterns
