import DragonUso.Library.Ledger
import DragonUso.Isolation
import DragonUso.Reinitialization

/-! What the library asks of its surroundings: files it opens and closes, memory it allocates and frees,
caches it flushes, and the debugger's hooks. In every run it closes each file and frees only what it holds,
so that the promise of `malloc` alone is enough for what the other results assume of the addresses they
are given. What it does not free are the texts it has `__cxa_demangle` make for its messages. -/

namespace DragonUso.Resources
open ByteOrder WordMemory Regions Runs Format LoaderImage Relocation SymbolSearch Loader HandleList LoaderSteps OpenBinding
open ToolCollect RoundTrip Reinitialization Isolation

/-- The hooks are called if the debugger has set them. `__cxa_demangle` allocates the text it returns, if the
name is one it can read. -/
inductive Action where
  | fopen
  | fclose
  | transfer (t : Transfer 32)
  | demangle (text : Option (Region 32))
  | dataCacheHitWritebackInvalidate (r : Region 32)
  | instCacheHitInvalidate (r : Region 32)
  | notifyAdd
  | notifyRemove

def malloc (r : Region 32) : Action := .transfer (.take 1 r)

def memalign (align : U32) (r : Region 32) : Action := .transfer (.take align.toNat r)

def free (ptr : U32) : Action := .transfer (.give ptr)

/-- `sizeof(struct uso_handle_data)`. -/
def handleDataSize : Nat := 40

/-- A handle is followed by its name. -/
def handleRegion (handle : U32) (filename : Bytes) : Region 32 := ⟨handle, handleDataSize + filename.length + 1⟩

/-! ### The entry points with their actions -/

def sectionRegion (s : LoadedSection) : Region 32 := ⟨s.data, s.dataSize.toNat⟩

/-- Section 0 is passed over. -/
def flushUso (uso : LoadedUso) : List Action :=
  uso.sections.tail.flatMap fun s =>
    [.dataCacheHitWritebackInvalidate (sectionRegion s), .instCacheHitInvalidate (sectionRegion s)]

/-- The table stays allocated for good. -/
def usoInitActions (table : U32) (globalSymFile : Bytes) : List Action :=
  [.fopen, malloc ⟨table, globalSymFile.length⟩, .fclose]

/-- What `fixup_import_syms` asks for: a text for each entry it reports. `texts` has them by the place of the entry. -/
def demangleActions (search : Bytes → U32) (texts : Nat → Option (Region 32)) (imports : List UsoSymbol) : List Action :=
  (imports.zipIdx.filter fun s => !usoIsSymbolWeak s.1 && search s.1.name == 0).map fun s => .demangle (texts s.2)

def loadUsoLogged (st : LoaderState) (loaded : Registry) (filename file : Bytes) (alloc : Allocation)
    (texts : Nat → Option (Region 32)) : Except Fault ((LoaderState × U32) × List Action) :=
  let info := readLoadInfo file
  let search := fun name => searchLoadedSymbols loaded st.globalSyms name true
  let actions := [malloc (handleRegion alloc.handle filename),
    memalign (getUsoRamAlign info) ⟨alloc.block, (getUsoRamSize info).toNat⟩, .fclose] ++
    demangleActions search texts (fileImports file)
  if alloc.handle = 0 ∨ alloc.block = 0 then .error .outOfMemory
  else
    let memory := loadBlock st.memory alloc.block (getUsoRamSize info) (usoImage file)
    match fixupUso (usoImage file) search alloc.block (getUsoNoloadStart info alloc.block) memory with
    | .error fault => .error fault
    | .ok none => .ok (({ st with memory := memory }, 0), actions ++ [free alloc.block, free alloc.handle])
    | .ok (some (uso, linked)) =>
      let contents : UsoRecord :=
        { uso := uso, block := alloc.block, ramSize := getUsoRamSize info, refCount := 1, name := filename }
      match addUso { st with memory := linked } alloc.handle contents with
      | .error fault => .error fault
      | .ok next => .ok ((next, alloc.handle), actions ++ (flushUso uso ++ [.notifyAdd]))

def usoOpenLogged (st : LoaderState) (filename : Bytes) (file : Option Bytes) (alloc : Allocation)
    (texts : Nat → Option (Region 32)) : Except Fault ((LoaderState × U32) × List Action) :=
  if st.initted = false then .error .notInitialized
  else
    match usoList st with
    | .error fault => .error fault
    | .ok loaded =>
      let handle := usoGetHandle loaded filename
      if handle ≠ 0 then
        match st.heap.lookup handle with
        | some d => .ok (({ st with heap := setRefCount st.heap handle (d.contents.refCount + 1) }, handle), [])
        | none => .error .danglingHandle
      else
        match file with
        | none => .ok ((st, 0), [])
        | some bytes =>
          match loadUsoLogged st loaded filename bytes alloc texts with
          | .error fault => .error fault
          | .ok (result, actions) => .ok (result, .fopen :: actions)

def usoCloseLogged (st : LoaderState) (handle : U32) : Except Fault (LoaderState × List Action) :=
  match usoList st with
  | .error fault => .error fault
  | .ok loaded =>
    match loaded.find? fun h => h.1 == handle with
    | none => .error .invalidHandle
    | some (_, contents) =>
      let count := closedCount contents.refCount
      let st := { st with heap := setRefCount st.heap handle count }
      match isUsoCloseable loaded handle contents.uso with
      | .error fault => .error fault
      | .ok closeable =>
        if closeable && count == 0 then
          match unloadUso st handle contents.uso with
          | .error fault => .error fault
          | .ok next => .ok (next, [.notifyRemove, free contents.block, free handle])
        else .ok (st, [])

/-! ### Their results and their actions apart -/

section
variable {st st' : LoaderState} {loaded : Registry}

theorem loadUsoLogged_result (st : LoaderState) (loaded : Registry) (filename file : Bytes) (alloc : Allocation)
    (texts : Nat → Option (Region 32)) :
    (loadUsoLogged st loaded filename file alloc texts).map Prod.fst = loadUso st loaded filename file alloc := by
  unfold loadUsoLogged loadUso
  by_cases null : alloc.handle = 0 ∨ alloc.block = 0
  · simp only [if_pos null]
    rfl
  simp only [if_neg null]
  cases fixupUso (usoImage file) (fun name => searchLoadedSymbols loaded st.globalSyms name true) alloc.block
      (getUsoNoloadStart (readLoadInfo file) alloc.block)
      (loadBlock st.memory alloc.block (getUsoRamSize (readLoadInfo file)) (usoImage file)) with
  | error fault => rfl
  | ok fixed =>
    cases fixed with
    | none => rfl
    | some pair =>
      obtain ⟨uso, linked⟩ := pair
      simp only
      cases addUso { st with memory := linked } alloc.handle
          { uso := uso, block := alloc.block, ramSize := getUsoRamSize (readLoadInfo file), refCount := 1, name := filename } with
      | error fault => rfl
      | ok next => rfl

/-- The actions are recorded beside what `uso_open` does. -/
theorem usoOpenLogged_result (st : LoaderState) (filename : Bytes) (file : Option Bytes) (alloc : Allocation)
    (texts : Nat → Option (Region 32)) :
    (usoOpenLogged st filename file alloc texts).map Prod.fst = usoOpen st filename file alloc := by
  unfold usoOpenLogged usoOpen
  by_cases initted : st.initted = false
  · simp only [if_pos initted]
    rfl
  simp only [if_neg initted]
  cases usoList st with
  | error fault => rfl
  | ok loaded =>
    simp only
    by_cases found : usoGetHandle loaded filename ≠ 0
    · simp only [if_pos found]
      cases st.heap.lookup (usoGetHandle loaded filename) with
      | none => rfl
      | some d => rfl
    simp only [if_neg found]
    cases file with
    | none => rfl
    | some bytes =>
      simp only [← loadUsoLogged_result st loaded filename bytes alloc texts]
      cases loadUsoLogged st loaded filename bytes alloc texts with
      | error fault => rfl
      | ok logged => rfl

/-- So are those of `uso_close`. -/
theorem usoCloseLogged_result (st : LoaderState) (handle : U32) :
    (usoCloseLogged st handle).map Prod.fst = usoClose st handle := by
  unfold usoCloseLogged usoClose
  cases usoList st with
  | error fault => rfl
  | ok loaded =>
    simp only
    cases loaded.find? fun h => h.1 == handle with
    | none => rfl
    | some h =>
      obtain ⟨_, contents⟩ := h
      simp only
      cases isUsoCloseable loaded handle contents.uso with
      | error fault => rfl
      | ok closeable =>
        simp only
        by_cases gone : (closeable && closedCount contents.refCount == 0) = true
        · simp only [if_pos gone]
          cases unloadUso { st with heap := setRefCount st.heap handle (closedCount contents.refCount) } handle contents.uso with
          | error fault => rfl
          | ok next => rfl
        · simp only [if_neg gone]
          rfl

/-- What an open takes for a file that is there and not loaded yet. -/
def takeActions (filename bytes : Bytes) (alloc : Allocation) : List Action :=
  [.fopen, malloc (handleRegion alloc.handle filename),
    memalign (getUsoRamAlign (readLoadInfo bytes)) ⟨alloc.block, (getUsoRamSize (readLoadInfo bytes)).toNat⟩, .fclose]

def giveActions (block handle : U32) : List Action := [free block, free handle]

/-- A refused file gives its handle and its block back, but not the texts of the messages. -/
def openActions (st : LoaderState) (loaded : Registry) (filename : Bytes) (file : Option Bytes) (alloc : Allocation)
    (texts : Nat → Option (Region 32)) : List Action :=
  match file with
  | none => []
  | some bytes =>
    takeActions filename bytes alloc ++
      if importsResolved st loaded bytes then flushUso (openedUso st loaded bytes alloc) ++ [.notifyAdd]
      else demangleActions (resolve st loaded) texts (fileImports bytes) ++ giveActions alloc.block alloc.handle

/-- Nothing is reported of a file that is loaded. -/
theorem demangleActions_resolved {bytes : Bytes} (resolved : importsResolved st loaded bytes = true)
    (texts : Nat → Option (Region 32)) : demangleActions (resolve st loaded) texts (fileImports bytes) = [] := by
  unfold demangleActions
  rw [List.map_eq_nil_iff, List.filter_eq_nil_iff]
  intro s member reported
  have inTable : s.1 ∈ fileImports bytes := List.fst_mem_of_mem_zipIdx member
  unfold importsResolved at resolved
  rw [fixupImports_eq, List.all_eq_true] at resolved
  have found := resolved s.1 inTable
  simp only [Bool.and_eq_true, Bool.not_eq_true', beq_iff_eq] at reported
  simp [reported] at found

theorem loadUsoLogged_actions {filename bytes : Bytes} {alloc : Allocation} {texts : Nat → Option (Region 32)}
    {result : LoaderState × U32} {actions : List Action}
    (logged : loadUsoLogged st loaded filename bytes alloc texts = .ok (result, actions)) :
    .fopen :: actions = openActions st loaded filename (some bytes) alloc texts := by
  unfold loadUsoLogged at logged
  simp only [openActions]
  by_cases null : alloc.handle = 0 ∨ alloc.block = 0
  · rw [if_pos null] at logged
    cases logged
  simp only [if_neg null] at logged
  split at logged
  next => cases logged
  next fixed =>
    rcases fixupUso_returned fixed with ⟨missed, -⟩ | ⟨-, linked, -, same⟩
    · have unresolved : importsResolved st loaded bytes = false := missed
      obtain ⟨-, rfl⟩ := Prod.mk.inj (Except.ok.inj logged)
      rw [unresolved]
      rfl
    · cases same
  next uso linked fixed =>
    rcases fixupUso_returned fixed with ⟨-, same⟩ | ⟨found, _, -, same⟩
    · cases same
    · have resolved : importsResolved st loaded bytes = true := found
      have silent := demangleActions_resolved resolved texts
      unfold resolve at silent
      obtain ⟨rfl, rfl⟩ := Prod.mk.inj (Option.some.inj same)
      split at logged
      next => cases logged
      next =>
        obtain ⟨-, rfl⟩ := Prod.mk.inj (Except.ok.inj logged)
        rw [resolved, silent]
        rfl

theorem usoOpenLogged_actions (listed : ListedState st loaded) {filename : Bytes} {file : Option Bytes} {alloc : Allocation}
    {texts : Nat → Option (Region 32)} {result : LoaderState × U32} {actions : List Action}
    (logged : usoOpenLogged st filename file alloc texts = .ok (result, actions)) :
    actions = if usoGetHandle loaded filename ≠ 0 then [] else openActions st loaded filename file alloc texts := by
  have initted : ¬ st.initted = false := by simp [listed.initted]
  unfold usoOpenLogged at logged
  simp only [if_neg initted, usoList_eq listed.represents] at logged
  by_cases found : usoGetHandle loaded filename ≠ 0
  · rw [if_pos found] at logged ⊢
    split at logged
    next => exact (Prod.mk.inj (Except.ok.inj logged)).2.symm
    next => cases logged
  rw [if_neg found] at logged ⊢
  cases file with
  | none => exact (Prod.mk.inj (Except.ok.inj logged)).2.symm
  | some bytes =>
    simp only at logged
    cases loads : loadUsoLogged st loaded filename bytes alloc texts with
    | error fault => simp [loads] at logged
    | ok outcome =>
      obtain ⟨own, taken⟩ := outcome
      simp only [loads, Except.ok.injEq, Prod.mk.injEq] at logged
      rw [← logged.2]
      exact loadUsoLogged_actions loads

theorem usoOpenLogged_open (listed : ListedState st loaded) {filename : Bytes} {file : Option Bytes} {alloc : Allocation}
    {result : LoaderState × U32} (unloaded : usoGetHandle loaded filename = 0)
    (returned : usoOpen st filename file alloc = .ok result) (texts : Nat → Option (Region 32)) :
    usoOpenLogged st filename file alloc texts = .ok (result, openActions st loaded filename file alloc texts) := by
  rw [← usoOpenLogged_result st filename file alloc texts] at returned
  cases logged : usoOpenLogged st filename file alloc texts with
  | error fault =>
    rw [logged] at returned
    cases returned
  | ok outcome =>
    obtain ⟨own, actions⟩ := outcome
    rw [logged] at returned
    obtain rfl : own = result := Except.ok.inj returned
    rw [usoOpenLogged_actions listed logged, if_neg (not_not_intro unloaded)]

theorem usoCloseLogged_actions (listed : ListedState st loaded) {handle : U32} {actions : List Action}
    (logged : usoCloseLogged st handle = .ok (st', actions)) {r : UsoRecord} (member : (handle, r) ∈ loaded)
    {closeable : Bool} (tested : isUsoCloseable loaded handle r.uso = .ok closeable) :
    actions = if closeable && closedCount r.refCount == 0 then .notifyRemove :: giveActions r.block handle else [] := by
  have own : loaded.find? (fun h => h.1 == handle) = some (handle, r) := by
    cases found : loaded.find? fun h => h.1 == handle with
    | none => exact absurd (beq_self_eq_true handle) (List.find?_eq_none.mp found _ member)
    | some h =>
      have same : h.1 = handle := by simpa using List.find?_some found
      rw [listed.represents.unique (List.mem_of_find?_eq_some found) member same]
  unfold usoCloseLogged at logged
  simp only [usoList_eq listed.represents, own, tested] at logged
  split at logged
  next gone =>
    rw [if_pos gone]
    split at logged
    next => cases logged
    next => exact (Prod.mk.inj (Except.ok.inj logged)).2.symm
  next stays =>
    rw [if_neg stays]
    exact (Prod.mk.inj (Except.ok.inj logged)).2.symm

end

/-! ### The library and the C library -/

def Action.text : Action → Option (Region 32)
  | .demangle text => text
  | _ => none

def Action.transferOf : Action → Option (Transfer 32)
  | .transfer t => some t
  | .demangle text => text.map (.take 1)
  | _ => none

def Action.files (files : Int) : Action → Int
  | .fopen => files + 1
  | .fclose => files - 1
  | _ => files

def transfersOf (actions : List Action) : List (Transfer 32) := actions.filterMap Action.transferOf

/-- The texts of the messages. -/
def textsOf (actions : List Action) : List (Region 32) := actions.filterMap Action.text

/-- The library with the memory it has not given back, the number of files it has open, and the texts of all
messages it has written. -/
structure System where
  state : LoaderState
  ledger : Ledger 32
  files : Int
  texts : List (Region 32)

def System.after (s : System) (st : LoaderState) (actions : List Action) : System where
  state := st
  ledger := s.ledger.postAll (transfersOf actions)
  files := actions.foldl Action.files s.files
  texts := textsOf actions ++ s.texts

def powerOn (memory : Memory) : System where
  state := { initted := false, globalSyms := none, heap := ∅, head := 0, tail := 0, memory := memory, events := [] }
  ledger := { live := [], wrong := false }
  files := 0
  texts := []

/-- The system after `uso_init`. -/
def systemStart (memory : Memory) (table : U32) (globalSymFile : Bytes) : System :=
  (powerOn memory).after (initialState memory globalSymFile) (usoInitActions table globalSymFile)

/-- One call that returns. Of the addresses it is given nothing is known but what `malloc` and `memalign`
promise, and they only for memory that was given back to them as they expect. -/
inductive ResourceStep (disk : Bytes → AbiFile → Prop) : System → Call → System → Prop where
  | opened {s : System} {st : LoaderState} {filename : Bytes} {file : Option AbiFile} {alloc : Allocation}
    {texts : Nat → Option (Region 32)} {handle : U32} {actions : List Action} :
    (∀ own, file = some own → disk filename own) →
    usoOpenLogged s.state filename (file.map AbiFile.bytes) alloc texts = .ok ((st, handle), actions) →
    Promised s.ledger (transfersOf actions) →
    ResourceStep disk s (.usoOpen filename (file.map AbiFile.bytes) alloc) (s.after st actions)
  | closed {s : System} {st : LoaderState} {handle : U32} {actions : List Action} :
    usoCloseLogged s.state handle = .ok (st, actions) → ResourceStep disk s (.usoClose handle) (s.after st actions)

/-- What the library should hold beside the texts: the global symbols, and for each USO its handle and its block. -/
def owned (table : Region 32) (loaded : Registry) : List (Region 32) :=
  table :: loaded.flatMap fun h => [handleRegion h.1 h.2.name, blockOf h.2]

theorem owned_perm (table : Region 32) {loaded loaded' : Registry} (same : loaded.Perm loaded') :
    (owned table loaded).Perm (owned table loaded') := (same.flatMap_right _).cons table

theorem owned_cons (table : Region 32) (h : U32 × UsoRecord) (loaded : Registry) :
    (owned table (h :: loaded)).Perm (blockOf h.2 :: handleRegion h.1 h.2.name :: owned table loaded) := by
  have turned := (List.reverse_perm [table, handleRegion h.1 h.2.name, blockOf h.2]).symm
  exact turned.append_right (loaded.flatMap fun h => [handleRegion h.1 h.2.name, blockOf h.2])

theorem owned_withRefCount (table : Region 32) (loaded : Registry) (handle count : U32) :
    owned table (withRefCount loaded handle count) = owned table loaded := by
  unfold owned withRefCount
  rw [List.flatMap_map]
  congr 2
  funext h
  split <;> rfl

theorem perm_without {st : LoaderState} {loaded : Registry} (represents : Represents st loaded) {h : U32 × UsoRecord}
    (member : h ∈ loaded) : loaded.Perm (h :: without loaded h.1) := by
  obtain ⟨xs, ys, rfl⟩ := List.append_of_mem member
  rw [without_eq represents.linked.nodup]
  exact List.perm_middle

/-- The invariant: the list is in order, the heap holds its handles, and the books balance. -/
structure Settled (table : Region 32) (s : System) (loaded : Registry) : Prop where
  listed : ListedState s.state loaded
  heap : ∀ a, a ∈ s.state.heap ↔ a ∈ loaded.map Prod.fst
  books : Books s.ledger (owned table loaded ++ s.texts)
  files : s.files = 0

section
variable {disk : Bytes → AbiFile → Prop} {table : Region 32} {s : System} {loaded : Registry}

theorem mem_owned {h : U32 × UsoRecord} (member : h ∈ loaded) :
    handleRegion h.1 h.2.name ∈ owned table loaded ∧ blockOf h.2 ∈ owned table loaded := by
  constructor
  · exact List.mem_cons_of_mem _ (List.mem_flatMap.mpr ⟨h, member, List.mem_cons_self⟩)
  · exact List.mem_cons_of_mem _ (List.mem_flatMap.mpr ⟨h, member, List.mem_cons_of_mem _ List.mem_cons_self⟩)

/-- The promises for a handle and a block are what the loader assumes of them. -/
theorem Settled.fresh (settled : Settled table s loaded) {filename bytes : Bytes} {alloc : Allocation} {rest : List Action}
    (promised : Promised s.ledger (transfersOf (takeActions filename bytes alloc ++ rest))) : Fresh s.state bytes alloc := by
  obtain ⟨handle, block, -⟩ := promised
  have held : ∀ q, q ∈ owned table loaded → q ∈ s.ledger.live :=
    fun q member => settled.books.live.mem_iff.mpr (List.mem_append_left _ member)
  refine ⟨handle.nonnull, ?_, block.nonnull, block.aligned, block.ends, ?_⟩
  · intro inHeap
    obtain ⟨h, member, same⟩ := List.mem_map.mp ((settled.heap _).mp inHeap)
    exact (handle.apart _ (held _ (mem_owned member).1)).2 same
  · intro entry inHeap
    obtain ⟨a, d⟩ := entry
    have stored : s.state.heap.lookup a = some d := AList.mem_lookup_iff.mpr inHeap
    have inList : a ∈ loaded.map Prod.fst := (settled.heap a).mp (AList.lookup_isSome.mp (by rw [stored]; rfl))
    obtain ⟨h, member, rfl⟩ := List.mem_map.mp inList
    obtain ⟨d', stored', contents⟩ := lookup_contents settled.listed.represents member
    obtain rfl : d = d' := Option.some.inj (stored.symm.trans stored')
    rw [contents]
    exact (block.apart _ (List.mem_append_left _ (held _ (mem_owned member).2))).1

theorem transfersOf_flushUso (uso : LoadedUso) : transfersOf (flushUso uso) = [] := by
  unfold flushUso transfersOf
  induction uso.sections.tail with
  | nil => rfl
  | cons s rest ih => exact ih

theorem textsOf_flushUso (uso : LoadedUso) : textsOf (flushUso uso) = [] := by
  unfold flushUso textsOf
  induction uso.sections.tail with
  | nil => rfl
  | cons s rest ih => exact ih

theorem files_flushUso (uso : LoadedUso) (files : Int) : (flushUso uso).foldl Action.files files = files := by
  unfold flushUso
  induction uso.sections.tail with
  | nil => rfl
  | cons s rest ih => exact ih

/-- Messages allocate their texts. -/
theorem transfersOf_demangle (search : Bytes → U32) (texts : Nat → Option (Region 32)) (imports : List UsoSymbol) :
    transfersOf (demangleActions search texts imports) =
      (textsOf (demangleActions search texts imports)).map (.take 1) := by
  unfold demangleActions transfersOf textsOf
  rw [List.filterMap_map, List.filterMap_map, List.map_filterMap]
  rfl

theorem files_demangle (search : Bytes → U32) (texts : Nat → Option (Region 32)) (imports : List UsoSymbol) (files : Int) :
    (demangleActions search texts imports).foldl Action.files files = files := by
  unfold demangleActions
  induction imports.zipIdx.filter _ with
  | nil => rfl
  | cons s rest ih => exact ih

theorem textsOf_append (first second : List Action) : textsOf (first ++ second) = textsOf first ++ textsOf second :=
  List.filterMap_append

theorem after_texts (s : System) (st : LoaderState) (actions : List Action) :
    (s.after st actions).texts = textsOf actions ++ s.texts := rfl

theorem after_ledger (s : System) (st : LoaderState) (actions more : List Action) :
    (s.after st (actions ++ more)).ledger = (s.after st actions).ledger.postAll (transfersOf more) := by
  simp only [System.after, transfersOf, List.filterMap_append, Ledger.postAll_append]

/-- A handle and a block are taken. -/
theorem Settled.takes (settled : Settled table s loaded) {filename bytes : Bytes} {alloc : Allocation} {rest : List Action}
    (promised : Promised s.ledger (transfersOf (takeActions filename bytes alloc ++ rest))) (st : LoaderState) :
    Books (s.after st (takeActions filename bytes alloc)).ledger
      (⟨alloc.block, (getUsoRamSize (readLoadInfo bytes)).toNat⟩ :: handleRegion alloc.handle filename ::
        (owned table loaded ++ s.texts)) := by
  obtain ⟨handle, block, -⟩ := promised
  exact (settled.books.take handle).take block

/-- The texts of the messages are taken. -/
theorem books_demangle {ledger : Ledger 32} {held : List (Region 32)} (books : Books ledger held) {search : Bytes → U32}
    {texts : Nat → Option (Region 32)} {imports : List UsoSymbol} {rest : List Action}
    (promised : Promised ledger (transfersOf (demangleActions search texts imports ++ rest))) :
    Books (ledger.postAll (transfersOf (demangleActions search texts imports)))
      (held ++ textsOf (demangleActions search texts imports)) := by
  rw [transfersOf, List.filterMap_append, ← transfersOf, transfersOf_demangle] at promised
  rw [transfersOf_demangle]
  exact books.takeAll (promised_append.mp promised).1

/-- They are given back, the block first. -/
theorem books_give {ledger : Ledger 32} {block handle : Region 32} {rest : List (Region 32)}
    (books : Books ledger (block :: handle :: rest)) :
    Books (ledger.postAll (transfersOf (giveActions block.start handle.start))) rest := books.give.give

theorem usoOpen_found {st : LoaderState} (listed : ListedState st loaded) {filename : Bytes}
    (found : usoGetHandle loaded filename ≠ 0) (file file' : Option Bytes) (alloc : Allocation) :
    usoOpen st filename file alloc = usoOpen st filename file' alloc := by
  unfold usoOpen
  simp only [usoList_eq listed.represents, if_pos found]

theorem Settled.keptHeap (settled : Settled table s loaded) {st : LoaderState} {loaded' : Registry}
    (keeps : CallKeeps s.state st loaded loaded') (a : U32) : a ∈ st.heap ↔ a ∈ loaded'.map Prod.fst := by
  refine (keeps.heap a).trans (or_iff_left ?_)
  rintro ⟨inHeap, other⟩
  exact other ((settled.heap a).mp inHeap)

/-- Where no file is found, or none is looked for, nothing is asked of the C library. -/
theorem quiet_settles (settled : Settled table s loaded) {st : LoaderState} {filename : Bytes} {alloc : Allocation}
    {handle : U32} (returned : usoOpen s.state filename none alloc = .ok (st, handle)) :
    ∃ loaded', Settled table (s.after st []) loaded' := by
  have fresh : ∀ bytes, (none : Option Bytes) = some bytes → FreshHandle s.state alloc.handle := fun _ same => nomatch same
  obtain ⟨loaded', result, listed'⟩ := usoOpen_result settled.listed fresh returned
  have heap := settled.keptHeap (OpenResult.keeps settled.listed fresh result)
  refine ⟨loaded', listed', heap, ?_, ?_⟩
  · cases result with
    | reopened h => exact (owned_withRefCount table loaded _ _).symm ▸ settled.books
    | missing => exact settled.books
    | unresolved bytes _ same => cases same
    | opened bytes _ _ _ same => cases same
  · exact settled.files

/-- A file that is not loaded is refused, and all but the texts given back, or loaded, with its memory in the books. -/
theorem load_settles (settled : Settled table s loaded) {st : LoaderState} {filename bytes : Bytes} {alloc : Allocation}
    {texts : Nat → Option (Region 32)} {handle : U32} (unloaded : usoGetHandle loaded filename = 0)
    (promised : Promised s.ledger (transfersOf (openActions s.state loaded filename (some bytes) alloc texts)))
    (returned : usoOpen s.state filename (some bytes) alloc = .ok (st, handle)) :
    ∃ loaded', Settled table (s.after st (openActions s.state loaded filename (some bytes) alloc texts)) loaded' := by
  have fresh := settled.fresh promised
  have freshHandle : ∀ other, some bytes = some other → FreshHandle s.state alloc.handle := fun _ _ => fresh.freshHandle
  obtain ⟨loaded', result, listed'⟩ := usoOpen_result settled.listed freshHandle returned
  have heap := settled.keptHeap (OpenResult.keeps settled.listed freshHandle result)
  have books := settled.takes promised st
  have taken : textsOf (takeActions filename bytes alloc) = [] := rfl
  refine ⟨loaded', listed', heap, ?_, ?_⟩
  · cases result with
    | reopened h member named same =>
      exact absurd (same ▸ unloaded) (settled.listed.represents.nonnull member)
    | missing _ same => cases same
    | unresolved other notLoaded same missed =>
      obtain rfl := Option.some.inj same
      simp only [openActions, missed, Bool.false_eq_true, if_false] at promised ⊢
      rw [transfersOf, List.filterMap_append, ← transfersOf, ← transfersOf] at promised
      have reported := books_demangle books (promised_append.mp promised).2
      have given : textsOf (giveActions alloc.block alloc.handle) = [] := rfl
      rw [← List.append_assoc, after_ledger, after_texts, textsOf_append, textsOf_append, taken, given, List.nil_append,
        List.append_nil]
      have turned (reports : List (Region 32)) :
          (owned table loaded ++ s.texts ++ reports).Perm (owned table loaded ++ (reports ++ s.texts)) := by
        rw [List.append_assoc]
        exact List.perm_append_comm.append_left _
      exact (books_give reported).perm (turned _)
    | opened other linked next notLoaded same resolved links added =>
      obtain rfl := Option.some.inj same
      have none : transfersOf (flushUso (openedUso s.state loaded bytes alloc) ++ [.notifyAdd]) = [] := by
        rw [transfersOf, List.filterMap_append, ← transfersOf, transfersOf_flushUso]
        rfl
      have silent : textsOf (flushUso (openedUso s.state loaded bytes alloc) ++ [.notifyAdd]) = [] := by
        rw [textsOf_append, textsOf_flushUso]
        rfl
      simp only [openActions, resolved, if_true, after_ledger, after_texts, textsOf_append, none, taken]
      rw [← textsOf_append, silent]
      refine Books.perm books ?_
      have last := owned_perm table (List.perm_append_singleton (alloc.handle, openedRecord s.state loaded filename bytes alloc) loaded)
      exact ((last.trans (owned_cons table _ loaded)).append_right s.texts).symm
  · have balanced : (openActions s.state loaded filename (some bytes) alloc texts).foldl Action.files s.files = s.files := by
      have taken : (takeActions filename bytes alloc).foldl Action.files s.files = s.files := Int.add_sub_cancel s.files 1
      rw [openActions, List.foldl_append, taken]
      split
      · rw [List.foldl_append, files_flushUso]
        rfl
      · rw [List.foldl_append, files_demangle]
        rfl
    exact balanced.trans settled.files

theorem open_settles {st : LoaderState} {filename : Bytes} {file : Option AbiFile} {alloc : Allocation}
    {texts : Nat → Option (Region 32)} {handle : U32} {actions : List Action}
    (onDisk : ∀ own, file = some own → disk filename own)
    (logged : usoOpenLogged s.state filename (file.map AbiFile.bytes) alloc texts = .ok ((st, handle), actions))
    (promised : Promised s.ledger (transfersOf actions)) (settled : Settled table s loaded) :
    (∃ call, DiskStep disk s.state call st) ∧ ∃ loaded', Settled table (s.after st actions) loaded' := by
  have returned : usoOpen s.state filename (file.map AbiFile.bytes) alloc = .ok (st, handle) := by
    rw [← usoOpenLogged_result _ _ _ _ texts, logged]
    rfl
  have taken := usoOpenLogged_actions settled.listed logged
  by_cases found : usoGetHandle loaded filename ≠ 0
  · rw [if_pos found] at taken
    subst taken
    rw [usoOpen_found settled.listed found _ none alloc] at returned
    exact ⟨⟨_, @DiskStep.opened disk _ _ filename none alloc handle (fun _ same => nomatch same) returned⟩,
      quiet_settles settled returned⟩
  · rw [if_neg found] at taken
    subst taken
    have unloaded := Decidable.not_not.mp found
    cases file with
    | none =>
      exact ⟨⟨_, @DiskStep.opened disk _ _ filename none alloc handle (fun _ same => nomatch same) returned⟩,
        quiet_settles settled returned⟩
    | some own =>
      refine ⟨⟨_, .opened (fun other same => ?_) returned⟩, load_settles settled unloaded promised returned⟩
      obtain rfl := Option.some.inj same
      exact ⟨onDisk own rfl, settled.fresh promised⟩

theorem close_settles {st : LoaderState} {handle : U32} {actions : List Action}
    (logged : usoCloseLogged s.state handle = .ok (st, actions)) (settled : Settled table s loaded) :
    DiskStep disk s.state (.usoClose handle) st ∧ ∃ loaded', Settled table (s.after st actions) loaded' := by
  have returned : usoClose s.state handle = .ok st := by
    rw [← usoCloseLogged_result, logged]
    rfl
  refine ⟨.closed returned, ?_⟩
  obtain ⟨loaded', result, listed'⟩ := usoClose_result settled.listed returned
  have heap := settled.keptHeap (CloseResult.keeps settled.listed result)
  cases result with
  | kept r closeable member tested stays =>
    have none := usoCloseLogged_actions settled.listed logged member tested
    rw [stays] at none
    subst none
    refine ⟨_, listed', heap, ?_, settled.files⟩
    exact (owned_withRefCount table loaded _ _).symm ▸ settled.books
  | unloaded r next member tested count gone =>
    have given := usoCloseLogged_actions settled.listed logged member tested
    rw [count] at given
    subst given
    refine ⟨_, listed', heap, ?_, settled.files⟩
    have apart := (owned_perm table (perm_without settled.listed.represents member)).trans (owned_cons table _ _)
    exact books_give (settled.books.perm (apart.append_right s.texts))

end

theorem systemStart_settled {memory : Memory} {table : U32} {globalSymFile : Bytes}
    (granted : Granted [] 1 ⟨table, globalSymFile.length⟩) :
    Settled ⟨table, globalSymFile.length⟩ (systemStart memory table globalSymFile) [] where
  listed := initialState_listed memory globalSymFile
  heap := fun a => iff_of_false (AList.notMem_empty a) List.not_mem_nil
  books := Books.take ⟨.nil, List.nodup_nil, rfl⟩ granted
  files := rfl

/-- The promises of `malloc` and `memalign` are all that the results about runs rest on. After every run in
which they are kept, all files are closed, nothing was ever freed that was not held, what is held is the global
symbols, one handle and one block for each loaded USO, and the texts of all messages about references that were not
resolved, which nothing frees; and the state is one that a run of calls with fresh memory reaches. -/
theorem run_resources {disk : Bytes → AbiFile → Prop} {memory : Memory} {table : U32} {globalSymFile : Bytes}
    (granted : Granted [] 1 ⟨table, globalSymFile.length⟩) {calls : List Call} {s : System}
    (run : Run (ResourceStep disk) (systemStart memory table globalSymFile) calls s) :
    s.files = 0 ∧ s.ledger.wrong = false ∧
      (∃ loaded, usoList s.state = .ok loaded ∧
        s.ledger.live.Perm (owned ⟨table, globalSymFile.length⟩ loaded ++ s.texts)) ∧
      ∃ calls', Run (DiskStep disk) (initialState memory globalSymFile) calls' s.state := by
  have kept : ∀ s call t, ResourceStep disk s call t → (∃ loaded, Settled ⟨table, globalSymFile.length⟩ s loaded) →
      (∃ call', DiskStep disk s.state call' t.state) ∧ ∃ loaded, Settled ⟨table, globalSymFile.length⟩ t loaded := by
    rintro s call t step ⟨loaded, settled⟩
    cases step with
    | opened onDisk logged promised => exact open_settles onDisk logged promised settled
    | closed logged => exact (close_settles logged settled).imp_left fun step => ⟨_, step⟩
  obtain ⟨calls', loaded, settled⟩ := run.simulate kept ⟨[], systemStart_settled granted⟩
  exact ⟨settled.files, settled.books.right, ⟨loaded, usoList_eq settled.listed.represents, settled.books.live⟩, calls'⟩

/-! Without the library, opening the sample that takes the address of `f` fails. The handle and the block are given
back, the text of the message is not. -/

def messageText (_ : Nat) : Option (Region 32) := some ⟨0x80300000, 9⟩

@[irreducible] def refusedOpen : LoaderState := afterOpen (initialState (fun _ => 0) []) [97] addressAbi.bytes libraryAlloc

def refusedActions : List Action :=
  openActions (initialState (fun _ => 0) []) [] [97] (some addressAbi.bytes) libraryAlloc messageText

theorem usoOpen_refused :
    usoOpen (initialState (fun _ => 0) []) [97] (some addressAbi.bytes) libraryAlloc = .ok (refusedOpen, 0) := by
  unfold refusedOpen
  exact usoOpen_afterOpen (by decide +kernel)

theorem refusedActions_eq : refusedActions = takeActions [97] addressAbi.bytes libraryAlloc ++
    ([.demangle (messageText 0)] ++ giveActions libraryAlloc.block libraryAlloc.handle) := by
  have imports : fileImports addressAbi.bytes = [loadedSymbol (importSymbol 1 importedF)] := by decide +kernel
  have refused : importsResolved (initialState (fun _ => 0) []) [] addressAbi.bytes = false := by decide +kernel
  simp only [refusedActions, openActions, refused, Bool.false_eq_true, if_false, imports]
  rfl

theorem promised_refused : Promised (systemStart (fun _ => 0) 0x80080000 []).ledger (transfersOf refusedActions) := by
  rw [refusedActions_eq]
  refine ⟨⟨by decide, by decide, by decide, ?_⟩, ⟨by decide, by decide +kernel, by decide +kernel, ?_⟩,
    ⟨by decide, by decide, by decide, ?_⟩, trivial⟩
  · decide +kernel
  · decide +kernel
  · decide +kernel

theorem run_resources_refused :
    let s := (systemStart (fun _ => 0) 0x80080000 []).after refusedOpen refusedActions
    s.texts = [⟨0x80300000, 9⟩] ∧ s.files = 0 ∧ s.ledger.wrong = false ∧
      (∃ loaded, usoList s.state = .ok loaded ∧ s.ledger.live.Perm (owned ⟨0x80080000, 0⟩ loaded ++ s.texts)) ∧
      ∃ calls', Run (DiskStep sampleDisk) (initialState (fun _ => 0) []) calls' s.state := by
  have logged := usoOpenLogged_open (initialState_listed (fun _ => 0) []) rfl usoOpen_refused messageText
  have opens : ResourceStep sampleDisk (systemStart (fun _ => 0) 0x80080000 []) _ _ :=
    @ResourceStep.opened _ _ _ _ (some addressAbi) _ _ _ _ (fun own same => Option.some.inj same ▸ .inr rfl) logged
      promised_refused
  have granted : Granted [] 1 (⟨0x80080000, ([] : Bytes).length⟩ : Region 32) :=
    ⟨by decide, by decide, by decide, fun q member => absurd member List.not_mem_nil⟩
  have told : textsOf refusedActions = [⟨0x80300000, 9⟩] := by
    rw [refusedActions_eq]
    rfl
  exact ⟨by rw [after_texts, told]; rfl, run_resources granted (.next opens (.done _))⟩

end DragonUso.Resources
