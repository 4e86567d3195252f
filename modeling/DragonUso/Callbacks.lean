import DragonUso.StartStop

/-! Calls of the loader from the code of the USOs. `uso_open` and `uso_close` call constructors,
destructors and the functions around them, and each of these may call the loader again before it
returns; the calls that wait for a function are kept as frames, the innermost first. -/

namespace DragonUso.Callbacks
open WordMemory Format LoaderImage SymbolSearch Relocation Loader HandleList LoaderSteps ToolCollect StartStop

/-- A function of a USO that `start_uso` or `end_uso` has called and that has not returned. -/
inductive Running where
  | ctor (curr : U32)
  | prolog
  | epilog
  | finalize
  | dtor (curr : U32)
  deriving DecidableEq, Repr

/-- Whether the function is one `end_uso` calls. -/
def Running.stops : Running → Bool
  | .ctor _ => false
  | .prolog => false
  | .epilog => true
  | .finalize => true
  | .dtor _ => true

structure Frame where
  handle : U32
  running : Running
  deriving DecidableEq, Repr

structure Nested where
  state : LoaderState
  frames : List Frame

/-! ### The functions in their order -/

def prologCall (uso : LoadedUso) : Option Running :=
  if searchSymbolTable uso.exportSyms prologName ≠ 0 then some .prolog else none

/-- The loop of `run_ctors` where it looks at `curr`. -/
def ctorCall (uso : LoadedUso) (ctors : LoadedSection) (curr : U32) : Option Running :=
  if ctors.data ≤ curr then some (.ctor curr) else prologCall uso

/-- The first function `start_uso` calls. -/
def startCall (uso : LoadedUso) : Except Fault (Option Running) :=
  match sectionAt uso.sections uso.ctorsSection with
  | .error fault => .error fault
  | .ok ctors =>
    if ctors.data ≠ 0 ∧ 0 < ctors.dataSize then .ok (ctorCall uso ctors (ctors.data + ctors.dataSize - 4))
    else .ok (prologCall uso)

/-- The loop of `run_dtors` where it looks at `curr`. -/
def dtorCall (dtors : LoadedSection) (curr : U32) : Option Running :=
  if curr < dtors.data + dtors.dataSize then some (.dtor curr) else none

def dtorsCall (uso : LoadedUso) : Except Fault (Option Running) :=
  match sectionAt uso.sections uso.dtorsSection with
  | .error fault => .error fault
  | .ok dtors => if dtors.data ≠ 0 ∧ 0 < dtors.dataSize then .ok (dtorCall dtors dtors.data) else .ok none

def finalizeCall (uso : LoadedUso) : Except Fault (Option Running) :=
  if searchSymbolTable uso.exportSyms dsoHandleName ≠ 0 then .ok (some .finalize) else dtorsCall uso

/-- The first function `end_uso` calls. -/
def endCall (uso : LoadedUso) : Except Fault (Option Running) :=
  if searchSymbolTable uso.exportSyms epilogName ≠ 0 then .ok (some .epilog) else finalizeCall uso

/-- The function that is called when this one returns. -/
def nextCall (uso : LoadedUso) : Running → Except Fault (Option Running)
  | .ctor curr =>
    match sectionAt uso.sections uso.ctorsSection with
    | .error fault => .error fault
    | .ok ctors => .ok (ctorCall uso ctors (curr - 4))
  | .prolog => .ok none
  | .epilog => finalizeCall uso
  | .finalize => dtorsCall uso
  | .dtor curr =>
    match sectionAt uso.sections uso.dtorsSection with
    | .error fault => .error fault
    | .ok dtors => .ok (dtorCall dtors (curr + 4))

/-- The call of a function; a table is read when its function is called. -/
def Running.event (memory : Memory) (handle : U32) (uso : LoadedUso) : Running → Event
  | .ctor curr => .construct handle (readWord memory curr)
  | .prolog => .prolog handle (searchSymbolTable uso.exportSyms prologName)
  | .epilog => .epilog handle (searchSymbolTable uso.exportSyms epilogName)
  | .finalize => .finalize handle (searchSymbolTable uso.exportSyms dsoHandleName)
  | .dtor curr => .destroy handle (readWord memory curr)

/-! ### Calls up to the next function -/

def Nested.record (n : Nested) (events : List Event) : Nested :=
  { n with state := { n.state with events := n.state.events ++ events } }

def enter (n : Nested) (handle : U32) (uso : LoadedUso) (running : Running) : Nested :=
  { n.record [running.event n.state.memory handle uso] with frames := ⟨handle, running⟩ :: n.frames }

/-- The rest of `uso_close` after the last function of `end_uso`. -/
def finishClose (n : Nested) (handle : U32) (uso : LoadedUso) : Except Fault Nested :=
  match sectionAt uso.sections uso.ehFrameSection with
  | .error fault => .error fault
  | .ok ehFrame =>
    let n := n.record (if hasFrames ehFrame then [.deregisterFrame handle ehFrame.data] else [])
    let st := removeUso n.state handle
    .ok (Nested.record { n with state := { st with heap := st.heap.erase handle } } [.unlinked handle, .freed handle])

/-- The next function is called, or the call of the loader ends. -/
def goOn (n : Nested) (handle : U32) (uso : LoadedUso) (stops : Bool) : Option Running → Except Fault Nested
  | some running => .ok (enter n handle uso running)
  | none => if stops then finishClose n handle uso else .ok n

/-- A function returns to the call that waits for it, which follows its handle again. -/
def returnTo (n : Nested) (frame : Frame) : Except Fault Nested :=
  match n.state.heap.lookup frame.handle with
  | none => .error .danglingHandle
  | some d =>
    match nextCall d.contents.uso frame.running with
    | .error fault => .error fault
    | .ok call => goOn n frame.handle d.contents.uso frame.running.stops call

/-- A new handle in the heap, at the end of the list, with `start_uso` begun. -/
def beginAdd (n : Nested) (handle : U32) (contents : UsoRecord) : Except Fault Nested :=
  let st := insertUso { n.state with
    heap := n.state.heap.insert handle { next := 0, prev := 0, contents := contents } } handle
  match sectionAt contents.uso.sections contents.uso.ehFrameSection with
  | .error fault => .error fault
  | .ok ehFrame =>
    let n := Nested.record { n with state := st } (if hasFrames ehFrame then [.registerFrame handle ehFrame.data] else [])
    match startCall contents.uso with
    | .error fault => .error fault
    | .ok call => goOn n handle contents.uso false call

def beginLoad (n : Nested) (loaded : Registry) (filename file : Bytes) (alloc : Allocation) :
    Except Fault (Nested × U32) :=
  let info := readLoadInfo file
  let search := fun name => searchLoadedSymbols loaded n.state.globalSyms name true
  if alloc.handle = 0 ∨ alloc.block = 0 then .error .outOfMemory
  else
    let memory := loadBlock n.state.memory alloc.block (getUsoRamSize info) (usoImage file)
    match fixupUso (usoImage file) search alloc.block (getUsoNoloadStart info alloc.block) memory with
    | .error fault => .error fault
    | .ok none => .ok ({ n with state := { n.state with memory := memory } }, 0)
    | .ok (some (uso, linked)) =>
      let contents : UsoRecord :=
        { uso := uso, block := alloc.block, ramSize := getUsoRamSize info, refCount := 1, name := filename }
      match beginAdd { n with state := { n.state with memory := linked } } alloc.handle contents with
      | .error fault => .error fault
      | .ok next => .ok (next, alloc.handle)

/-- `uso_open` up to the first function of the new USO. -/
def beginOpen (n : Nested) (filename : Bytes) (file : Option Bytes) (alloc : Allocation) :
    Except Fault (Nested × U32) :=
  if n.state.initted = false then .error .notInitialized
  else
    match usoList n.state with
    | .error fault => .error fault
    | .ok loaded =>
      let handle := usoGetHandle loaded filename
      if handle ≠ 0 then
        match n.state.heap.lookup handle with
        | some d =>
          .ok ({ n with state := { n.state with heap := setRefCount n.state.heap handle (d.contents.refCount + 1) } },
            handle)
        | none => .error .danglingHandle
      else
        match file with
        | none => .ok (n, 0)
        | some bytes => beginLoad n loaded filename bytes alloc

/-- `uso_close` as far as its test: the counted state, and the USO if it is to be ended. -/
def closeTest (st : LoaderState) (handle : U32) : Except Fault (LoaderState × Option LoadedUso) :=
  match usoList st with
  | .error fault => .error fault
  | .ok loaded =>
    match loaded.find? fun h => h.1 == handle with
    | none => .error .invalidHandle
    | some (_, contents) =>
      let count := closedCount contents.refCount
      let st := { st with heap := setRefCount st.heap handle count }
      match isUsoCloseable loaded handle contents.uso with
      | .error fault => .error fault
      | .ok closeable => .ok (st, if closeable && count == 0 then some contents.uso else none)

def beginEnd (n : Nested) (handle : U32) (uso : LoadedUso) : Except Fault Nested :=
  match endCall uso with
  | .error fault => .error fault
  | .ok call => goOn n handle uso true call

/-- `uso_close` up to the first function of the USO it ends. -/
def beginClose (n : Nested) (handle : U32) : Except Fault Nested :=
  match closeTest n.state handle with
  | .error fault => .error fault
  | .ok (st, none) => .ok { n with state := st }
  | .ok (st, some uso) => beginEnd { n with state := st } handle uso

/-! ### Without calls from inside -/

/-- The functions return one after the other, and none calls the loader. -/
def quietly : Nat → Nested → Except Fault Nested
  | 0, n => .ok n
  | count + 1, n =>
    match n.frames with
    | [] => .ok n
    | frame :: rest =>
      match returnTo { n with frames := rest } frame with
      | .error fault => .error fault
      | .ok next => quietly count next

def ComesTo (n n' : Nested) : Prop := ∃ count, quietly count n = .ok n'

/-- The same from the call of a function on. -/
def Goes (n : Nested) (handle : U32) (uso : LoadedUso) (stops : Bool) (call : Option Running) (n' : Nested) : Prop :=
  ∃ next, goOn n handle uso stops call = .ok next ∧ ComesTo next n'

/-- The handle leads to the USO. -/
def Holds (n : Nested) (handle : U32) (uso : LoadedUso) : Prop :=
  ∃ d, n.state.heap.lookup handle = some d ∧ d.contents.uso = uso

theorem record_nil (n : Nested) : n.record [] = n := by
  simp [Nested.record]

theorem record_record (n : Nested) (first second : List Event) :
    (n.record first).record second = n.record (first ++ second) := by
  simp [Nested.record]

section
variable {n n' : Nested} {handle : U32} {uso : LoadedUso}

theorem Holds.record (held : Holds n handle uso) (events : List Event) : Holds (n.record events) handle uso := held

theorem Goes.enter (held : Holds n handle uso) {running : Running} {call : Option Running}
    (next : nextCall uso running = .ok call) (stops : Bool)
    (later : Goes (n.record [running.event n.state.memory handle uso]) handle uso running.stops call n') :
    Goes n handle uso stops (some running) n' := by
  obtain ⟨m, on, count, quiet⟩ := later
  obtain ⟨d, stored, rfl⟩ := held
  have returns : returnTo (n.record [running.event n.state.memory handle d.contents.uso]) ⟨handle, running⟩ = .ok m := by
    have kept : (n.record [running.event n.state.memory handle d.contents.uso]).state.heap.lookup handle = some d := stored
    simp only [returnTo, kept, next]
    exact on
  refine ⟨_, rfl, count + 1, ?_⟩
  rw [quietly, Callbacks.enter]
  simp only
  exact returns ▸ quiet

/-- The call of `_prolog`, if there is one. -/
def prologEvents (handle : U32) (uso : LoadedUso) : List Event :=
  if searchSymbolTable uso.exportSyms prologName ≠ 0 then [.prolog handle (searchSymbolTable uso.exportSyms prologName)]
  else []

theorem goes_prolog (held : Holds n handle uso) :
    Goes n handle uso false (prologCall uso) (n.record (prologEvents handle uso)) := by
  unfold prologCall prologEvents
  by_cases present : searchSymbolTable uso.exportSyms prologName ≠ 0
  · rw [if_pos present, if_pos present]
    exact Goes.enter held rfl false ⟨_, rfl, 0, rfl⟩
  · rw [if_neg present, if_neg present, record_nil]
    exact ⟨n, rfl, 0, rfl⟩

/-- The pointer to the constructors runs down without leaving memory. -/
theorem goes_ctors {ctors : LoadedSection} (found : sectionAt uso.sections uso.ctorsSection = .ok ctors)
    (low : 4 ≤ ctors.data.toNat) (held : Holds n handle uso) (fuel : Nat) (curr : U32)
    (enough : curr.toNat < ctors.data.toNat + 4 * fuel) :
    Goes n handle uso false (ctorCall uso ctors curr)
      (n.record (ctorLoop n.state.memory handle ctors.data (fuel + 1) curr ++ prologEvents handle uso)) := by
  have four : (4 : U32).toNat = 4 := rfl
  induction fuel generalizing n curr with
  | zero =>
    have below : ¬ ctors.data ≤ curr := by
      rw [BitVec.le_def]
      omega
    rw [ctorCall, if_neg below, ctorLoop, if_neg below]
    exact goes_prolog held
  | succ fuel ih =>
    rw [ctorCall, ctorLoop]
    by_cases inside : ctors.data ≤ curr
    · have reach := BitVec.le_def.mp inside
      have word : (4 : U32) ≤ curr := by
        rw [BitVec.le_def]
        omega
      have down : (curr - 4).toNat = curr.toNat - 4 := by rw [BitVec.toNat_sub_of_le word, four]
      have next : nextCall uso (.ctor curr) = .ok (ctorCall uso ctors (curr - 4)) := by simp only [nextCall, found]
      have later := ih (held.record [(Running.ctor curr).event n.state.memory handle uso]) (curr - 4) (by omega)
      rw [record_record] at later
      rw [if_pos inside, if_pos inside]
      exact Goes.enter held next false later
    · rw [if_neg inside, if_neg inside]
      exact goes_prolog held

theorem goes_start (startable : Startable uso) (held : Holds n handle uso) :
    ∃ call ctors, startCall uso = .ok call ∧ sectionAt uso.sections uso.ctorsSection = .ok ctors ∧
      Goes n handle uso false call (n.record (runCtors n.state.memory handle ctors ++ prologEvents handle uso)) := by
  obtain ⟨ctors, special, -⟩ := startable.ctors
  unfold startCall runCtors
  simp only [special.found]
  by_cases some : ctors.data ≠ 0 ∧ 0 < ctors.dataSize
  · have nonzero : uso.ctorsSection ≠ 0 := fun zero => some.1 (special.missing zero)
    have walkable := special.present nonzero ((positive_iff _).mp some.2)
    have low := walkable.low
    have high := walkable.high
    have four : (4 : U32).toNat = 4 := rfl
    have stop : (ctors.data + ctors.dataSize).toNat = ctors.data.toNat + ctors.dataSize.toNat := by
      rw [BitVec.toNat_add]
      omega
    have word : (4 : U32) ≤ ctors.data + ctors.dataSize := by
      rw [BitVec.le_def, four]
      omega
    have last : (ctors.data + ctors.dataSize - 4).toNat = ctors.data.toNat + ctors.dataSize.toNat - 4 := by
      rw [BitVec.toNat_sub_of_le word, stop, four]
    refine ⟨_, ctors, by rw [if_pos some], rfl, ?_⟩
    rw [if_pos some]
    exact goes_ctors special.found low held _ _ (by omega)
  · refine ⟨_, ctors, by rw [if_neg some], rfl, ?_⟩
    rw [if_neg some]
    exact goes_prolog held

/-- The pointer to the destructors runs up to the end of the table. -/
theorem goes_dtors {dtors : LoadedSection} (found : sectionAt uso.sections uso.dtorsSection = .ok dtors)
    (held : Holds n handle uso) (fuel : Nat) (curr : U32)
    (enough : (dtors.data + dtors.dataSize).toNat ≤ curr.toNat + 4 * fuel) (room : curr.toNat + 4 * fuel < 2 ^ 32)
    (finish : finishClose (n.record (dtorLoop n.state.memory handle (dtors.data + dtors.dataSize) (fuel + 1) curr)) handle
      uso = .ok n') : Goes n handle uso true (dtorCall dtors curr) n' := by
  have four : (4 : U32).toNat = 4 := rfl
  induction fuel generalizing n curr with
  | zero =>
    have beyond : ¬ curr < dtors.data + dtors.dataSize := by
      rw [BitVec.lt_def]
      omega
    rw [dtorLoop, if_neg beyond, record_nil] at finish
    rw [dtorCall, if_neg beyond]
    exact ⟨n', finish, 0, rfl⟩
  | succ fuel ih =>
    rw [dtorLoop] at finish
    rw [dtorCall]
    by_cases inside : curr < dtors.data + dtors.dataSize
    · have up : (curr + 4).toNat = curr.toNat + 4 := by
        rw [BitVec.toNat_add, four]
        omega
      have next : nextCall uso (.dtor curr) = .ok (dtorCall dtors (curr + 4)) := by simp only [nextCall, found]
      rw [if_pos inside] at finish ⊢
      refine Goes.enter held next true (ih (held.record _) (curr + 4) (by omega) (by omega) ?_)
      rw [record_record]
      exact finish
    · rw [if_neg inside, record_nil] at finish
      rw [if_neg inside]
      exact ⟨n', finish, 0, rfl⟩

/-- The calls of the destructors in the table. -/
def dtorEvents (memory : Memory) (handle : U32) (dtors : LoadedSection) : List Event :=
  if dtors.data ≠ 0 ∧ 0 < dtors.dataSize then
    dtorLoop memory handle (dtors.data + dtors.dataSize) (dtors.dataSize.toNat / 4 + 1) dtors.data
  else []

theorem goes_dtorsCall (startable : Startable uso) {dtors : LoadedSection}
    (found : sectionAt uso.sections uso.dtorsSection = .ok dtors) (held : Holds n handle uso)
    (finish : finishClose (n.record (dtorEvents n.state.memory handle dtors)) handle uso = .ok n') :
    ∃ call, dtorsCall uso = .ok call ∧ Goes n handle uso true call n' := by
  obtain ⟨own, special, whole⟩ := startable.dtors
  obtain rfl : own = dtors := by
    have same := special.found
    rw [found, Except.ok.injEq] at same
    exact same.symm
  unfold dtorEvents at finish
  unfold dtorsCall
  simp only [found]
  by_cases some : own.data ≠ 0 ∧ 0 < own.dataSize
  · have nonzero : uso.dtorsSection ≠ 0 := fun zero => some.1 (special.missing zero)
    have high := (special.present nonzero ((positive_iff _).mp some.2)).high
    have stop : (own.data + own.dataSize).toNat = own.data.toNat + own.dataSize.toNat := by
      rw [BitVec.toNat_add]
      omega
    rw [if_pos some] at finish
    refine ⟨_, by rw [if_pos some], ?_⟩
    exact goes_dtors found held (own.dataSize.toNat / 4) own.data (by omega) (by omega) finish
  · rw [if_neg some] at finish
    refine ⟨none, by rw [if_neg some], n', ?_, 0, rfl⟩
    rw [record_nil] at finish
    exact finish

theorem goes_finalize (startable : Startable uso) {dtors : LoadedSection}
    (found : sectionAt uso.sections uso.dtorsSection = .ok dtors) (held : Holds n handle uso)
    (finish : finishClose (n.record (runDtors n.state.memory handle uso.exportSyms dtors)) handle uso = .ok n') :
    ∃ call, finalizeCall uso = .ok call ∧ Goes n handle uso true call n' := by
  unfold runDtors at finish
  unfold finalizeCall
  by_cases present : searchSymbolTable uso.exportSyms dsoHandleName ≠ 0
  · simp only [if_pos present, ← record_record] at finish
    obtain ⟨call, first, later⟩ := goes_dtorsCall startable found
      (held.record [.finalize handle (searchSymbolTable uso.exportSyms dsoHandleName)]) finish
    have next : nextCall uso .finalize = .ok call := first
    refine ⟨_, by rw [if_pos present], ?_⟩
    exact Goes.enter held next true later
  · simp only [if_neg present, List.nil_append] at finish
    rw [if_neg present]
    exact goes_dtorsCall startable found held finish

/-- The events before the frames are deregistered. -/
def endEvents (memory : Memory) (handle : U32) (uso : LoadedUso) (dtors : LoadedSection) : List Event :=
  (if searchSymbolTable uso.exportSyms epilogName ≠ 0 then
    [.epilog handle (searchSymbolTable uso.exportSyms epilogName)] else []) ++
      runDtors memory handle uso.exportSyms dtors

theorem goes_epilog (startable : Startable uso) {dtors : LoadedSection}
    (found : sectionAt uso.sections uso.dtorsSection = .ok dtors) (held : Holds n handle uso)
    (finish : finishClose (n.record (endEvents n.state.memory handle uso dtors)) handle uso = .ok n') :
    ∃ call, endCall uso = .ok call ∧ Goes n handle uso true call n' := by
  unfold endEvents at finish
  unfold endCall
  by_cases present : searchSymbolTable uso.exportSyms epilogName ≠ 0
  · simp only [if_pos present, ← record_record] at finish
    obtain ⟨call, first, later⟩ := goes_finalize startable found
      (held.record [.epilog handle (searchSymbolTable uso.exportSyms epilogName)]) finish
    have next : nextCall uso .epilog = .ok call := first
    refine ⟨_, by rw [if_pos present], ?_⟩
    exact Goes.enter held next true later
  · simp only [if_neg present, List.nil_append] at finish
    rw [if_neg present]
    exact goes_finalize startable found held finish

/-- An ended USO is unlinked and freed as in the calls without frames. -/
theorem unloadUso_finishClose {st' : LoaderState} (unloaded : unloadUso n.state handle uso = .ok st') :
    ∃ dtors, sectionAt uso.sections uso.dtorsSection = .ok dtors ∧
      finishClose (n.record (endEvents n.state.memory handle uso dtors)) handle uso = .ok ⟨st', n.frames⟩ := by
  unfold unloadUso endUso at unloaded
  unfold finishClose
  cases frames : sectionAt uso.sections uso.ehFrameSection with
  | error fault => simp [frames] at unloaded
  | ok ehFrame =>
    cases table : sectionAt uso.sections uso.dtorsSection with
    | error fault => simp [frames, table] at unloaded
    | ok dtors =>
      simp only [frames, table, Except.ok.injEq] at unloaded
      refine ⟨dtors, rfl, ?_⟩
      rw [← unloaded]
      simp [Nested.record, endEvents, removeUso]

theorem beginEnd_comesTo (startable : Startable uso) (held : Holds n handle uso) {st' : LoaderState}
    (unloaded : unloadUso n.state handle uso = .ok st') :
    ∃ m, beginEnd n handle uso = .ok m ∧ ComesTo m ⟨st', n.frames⟩ := by
  obtain ⟨dtors, found, finish⟩ := unloadUso_finishClose unloaded
  obtain ⟨call, first, m, on, later⟩ := goes_epilog startable found held finish
  refine ⟨m, ?_, later⟩
  simp only [beginEnd, first]
  exact on

/-- Begun and undisturbed, a start leaves what the start in one piece leaves. -/
theorem beginAdd_comesTo {contents : UsoRecord} {loaded : Registry} (listed : ListedState n.state loaded)
    (fresh : FreshHandle n.state handle) (startable : Startable contents.uso) {next : LoaderState}
    (added : addUso n.state handle contents = .ok next) :
    ∃ m, beginAdd n handle contents = .ok m ∧ ComesTo m ⟨next, n.frames⟩ := by
  obtain ⟨frames, special⟩ := startable.frames
  have inserted := listed.represents.insertUso fresh.fresh fresh.nonnull { next := 0, prev := 0, contents := contents }
  obtain ⟨d, stored, own⟩ := lookup_contents inserted (List.mem_append_right _ (List.mem_singleton.mpr rfl))
  have held : Holds (Nested.record { n with state := insertUso { n.state with
      heap := n.state.heap.insert handle { next := 0, prev := 0, contents := contents } } handle }
      (if hasFrames frames then [.registerFrame handle frames.data] else [])) handle contents.uso :=
    ⟨d, stored, congrArg UsoRecord.uso own⟩
  obtain ⟨call, ctors, first, table, m, on, later⟩ := goes_start startable held
  refine ⟨m, ?_, ?_⟩
  · simp only [beginAdd, special.found, first]
    exact on
  · unfold addUso startUso at added
    simp only [special.found, table, Except.ok.injEq] at added
    rw [record_record] at later
    rw [← added]
    exact later

end

section
variable {n : Nested} {loaded : Registry}

theorem beginLoad_comesTo (listed : ListedState n.state loaded) {filename file : Bytes} {alloc : Allocation}
    (fresh : FreshHandle n.state alloc.handle) (startable : Startable (openedUso n.state loaded file alloc))
    {st' : LoaderState} {handle : U32} (returned : loadUso n.state loaded filename file alloc = .ok (st', handle)) :
    ∃ m, beginLoad n loaded filename file alloc = .ok (m, handle) ∧ ComesTo m ⟨st', n.frames⟩ := by
  unfold loadUso at returned
  unfold beginLoad
  by_cases allocated : alloc.handle = 0 ∨ alloc.block = 0
  · simp only [if_pos allocated, reduceCtorEq] at returned
  · simp only [if_neg allocated] at returned ⊢
    cases fixed : fixupUso (usoImage file) (fun name => searchLoadedSymbols loaded n.state.globalSyms name true)
        alloc.block (getUsoNoloadStart (readLoadInfo file) alloc.block)
        (loadBlock n.state.memory alloc.block (getUsoRamSize (readLoadInfo file)) (usoImage file)) with
    | error fault => simp [fixed] at returned
    | ok result =>
      cases result with
      | none =>
        simp only [fixed, Except.ok.injEq, Prod.mk.injEq] at returned ⊢
        obtain ⟨rfl, rfl⟩ := returned
        exact ⟨_, ⟨rfl, rfl⟩, 0, rfl⟩
      | some result =>
        obtain ⟨uso, linked⟩ := result
        have own : uso = openedUso n.state loaded file alloc := by
          rcases fixupUso_returned fixed with ⟨-, same⟩ | ⟨-, _, -, same⟩
          · cases same
          · exact congrArg Prod.fst (Option.some.inj same)
        have linking : ListedState { n.state with memory := linked } loaded :=
          ⟨listed.represents.congr rfl rfl rfl, listed.initted⟩
        have new : FreshHandle { n.state with memory := linked } alloc.handle := ⟨fresh.nonnull, fresh.fresh⟩
        cases added : addUso { n.state with memory := linked } alloc.handle
            { uso := uso, block := alloc.block, ramSize := getUsoRamSize (readLoadInfo file), refCount := 1
              name := filename } with
        | error fault => simp only [fixed, added, reduceCtorEq] at returned
        | ok next =>
          obtain ⟨m, begun, later⟩ := beginAdd_comesTo (n := { n with state := { n.state with memory := linked } })
            linking new (own ▸ startable) added
          simp only [fixed, added, Except.ok.injEq, Prod.mk.injEq] at returned
          simp only [begun]
          obtain ⟨rfl, rfl⟩ := returned
          exact ⟨m, rfl, later⟩

/-- A call of `uso_open` in which no function calls the loader is a call of the loader without frames. -/
theorem beginOpen_comesTo (listed : ListedState n.state loaded) {filename : Bytes} {file : Option Bytes}
    {alloc : Allocation} (fresh : ∀ bytes, file = some bytes → FreshHandle n.state alloc.handle)
    (startable : ∀ bytes, file = some bytes → Startable (openedUso n.state loaded bytes alloc)) {st' : LoaderState}
    {handle : U32} (returned : usoOpen n.state filename file alloc = .ok (st', handle)) :
    ∃ m, beginOpen n filename file alloc = .ok (m, handle) ∧ ComesTo m ⟨st', n.frames⟩ := by
  have initted : ¬ n.state.initted = false := by simp [listed.initted]
  unfold usoOpen at returned
  unfold beginOpen
  simp only [if_neg initted, usoList_eq listed.represents] at returned ⊢
  by_cases found : usoGetHandle loaded filename ≠ 0
  · cases stored : n.state.heap.lookup (usoGetHandle loaded filename) with
    | none => simp only [if_pos found, stored, reduceCtorEq] at returned
    | some d =>
      simp only [if_pos found, stored, Except.ok.injEq, Prod.mk.injEq] at returned ⊢
      obtain ⟨rfl, rfl⟩ := returned
      exact ⟨_, ⟨rfl, rfl⟩, 0, rfl⟩
  · simp only [if_neg found] at returned ⊢
    cases file with
    | none =>
      obtain ⟨rfl, rfl⟩ : _ ∧ _ := by simpa only [Except.ok.injEq, Prod.mk.injEq] using returned
      exact ⟨_, rfl, 0, rfl⟩
    | some bytes => exact beginLoad_comesTo listed (fresh bytes rfl) (startable bytes rfl) returned

/-- And so is a call of `uso_close`. -/
theorem beginClose_comesTo (listed : ListedState n.state loaded) (startable : ∀ h ∈ loaded, Startable h.2.uso)
    {handle : U32} {st' : LoaderState} (returned : usoClose n.state handle = .ok st') :
    ∃ m, beginClose n handle = .ok m ∧ ComesTo m ⟨st', n.frames⟩ := by
  unfold usoClose at returned
  unfold beginClose closeTest
  simp only [usoList_eq listed.represents] at returned ⊢
  cases found : loaded.find? fun h => h.1 == handle with
  | none => simp [found] at returned
  | some h =>
    obtain ⟨address, contents⟩ := h
    have member := List.mem_of_find?_eq_some found
    obtain rfl : address = handle := by simpa using List.find?_some found
    cases closes : isUsoCloseable loaded address contents.uso with
    | error fault => simp [found, closes] at returned
    | ok closeable =>
      simp only [found, closes] at returned ⊢
      cases gone : closeable && closedCount contents.refCount == 0 with
      | true =>
        obtain ⟨d, stored, own⟩ := lookup_contents
          (listed.setRefCount address (closedCount contents.refCount)).represents
          (mem_withRefCount_self member (closedCount contents.refCount))
        have held : Holds { n with state := { n.state with
            heap := setRefCount n.state.heap address (closedCount contents.refCount) } } address contents.uso :=
          ⟨d, stored, by rw [own]⟩
        simp only [gone, if_true] at returned ⊢
        exact beginEnd_comesTo (startable _ member) held returned
      | false =>
        simp only [gone, Bool.false_eq_true, if_false, Except.ok.injEq] at returned ⊢
        subst returned
        exact ⟨_, rfl, 0, rfl⟩

end

end DragonUso.Callbacks
