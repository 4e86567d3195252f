import DragonUso.ListConsistency
import DragonUso.StartStop
import DragonUso.Unloading

/-! The events of every load over whole runs. A handle can be given to one load after another; beside
the state a history keeps the loads each handle was given to, and the events under the handle are
the traces of these loads, one after the other. -/

namespace DragonUso.LifeCycle
open WordMemory Format ElfFile ToolCollect LoaderImage Relocation SymbolSearch Loader HandleList LoaderSteps Runs
open RelocSafety ProducedFile OpenBinding ToolWriter Unloading ListConsistency StartStop

def Event.handle : Event → U32
  | .registerFrame handle _ => handle
  | .construct handle _ => handle
  | .prolog handle _ => handle
  | .epilog handle _ => handle
  | .finalize handle _ => handle
  | .destroy handle _ => handle
  | .deregisterFrame handle _ => handle
  | .unlinked handle => handle
  | .freed handle => handle

def eventsOf (handle : U32) (events : List Event) : List Event := events.filter fun e => Event.handle e == handle

/-! ### Runs with their loads -/

/-- One load of a file, with the memory it was started in. -/
structure Load where
  file : ToolFile
  block : U32
  started : Memory

/-- A load that was ended, with the memory it was stopped in. -/
structure EndedLoad extends Load where
  stopped : Memory

/-- For each handle the loads that were ended, in order, and the one that is loaded. -/
structure Lives where
  state : LoaderState
  past : U32 → List EndedLoad
  live : U32 → Option Load

inductive LifeCall where
  | usoOpen (filename : Bytes) (file : Option ToolFile) (alloc : Allocation)
  | usoClose (handle : U32)

/-- An open that returns a handle that was not in the list has loaded the file. -/
def recordLoad (l : Lives) (loaded : Registry) (filename : Bytes) (file : Option ToolFile) (alloc : Allocation)
    (st' : LoaderState) (handle : U32) : Lives where
  state := st'
  past := l.past
  live :=
    if handle ≠ 0 ∧ usoGetHandle loaded filename = 0 then
      Function.update l.live handle (file.map fun own => ⟨own, alloc.block, st'.memory⟩)
    else l.live

/-- A close that frees the handle has ended its load. -/
def recordEnd (l : Lives) (st' : LoaderState) (handle : U32) : Lives :=
  if .freed handle ∈ st'.events.drop l.state.events.length then
    { state := st'
      past := Function.update l.past handle
        (l.past handle ++ (l.live handle).toList.map fun load => ⟨load, l.state.memory⟩)
      live := Function.update l.live handle none }
  else { l with state := st' }

/-- A call that returns. -/
inductive LifeStep : Lives → LifeCall → Lives → Prop where
  | opened {l : Lives} {st' : LoaderState} {loaded : Registry} {filename : Bytes} {file : Option ToolFile}
      {alloc : Allocation} {handle : U32} : (∀ own, file = some own → Fresh l.state own.bytes alloc) →
    usoList l.state = .ok loaded → usoOpen l.state filename (file.map ToolFile.bytes) alloc = .ok (st', handle) →
    LifeStep l (.usoOpen filename file alloc) (recordLoad l loaded filename file alloc st' handle)
  | closed {l : Lives} {st' : LoaderState} {handle : U32} : usoClose l.state handle = .ok st' →
    LifeStep l (.usoClose handle) (recordEnd l st' handle)

/-- The pieces of a load are those its ELF has under the special names, wherever its imports lead. -/
def Load.Has (load : Load) (p : Pieces) : Prop :=
  ∀ search, PiecesOf load.file.elf load.file.tool load.file.bytes (loadedFile load.file.bytes search load.block)
    load.block p

/-- What is run for a load that is over. -/
def wholeTrace (pieces : Load → Pieces) (handle : U32) (load : EndedLoad) : List Event :=
  startTrace load.started handle (pieces load.toLoad) ++ stopTrace load.stopped handle (pieces load.toLoad)

/-- What has been run for a load that is not. -/
def openTrace (pieces : Load → Pieces) (handle : U32) (load : Load) : List Event :=
  startTrace load.started handle (pieces load)

theorem eventsOf_append (handle : U32) (first second : List Event) :
    eventsOf handle (first ++ second) = eventsOf handle first ++ eventsOf handle second := List.filter_append ..

theorem eventsOf_own {handle : U32} {events : List Event} (own : ∀ e ∈ events, Event.handle e = handle) :
    eventsOf handle events = events := by
  apply List.filter_eq_self.mpr
  intro e member
  exact beq_iff_eq.mpr (own e member)

theorem eventsOf_other {handle other : U32} (differ : other ≠ handle) {events : List Event}
    (own : ∀ e ∈ events, Event.handle e = other) : eventsOf handle events = [] := by
  apply List.filter_eq_nil_iff.mpr
  intro e member same
  exact differ ((own e member).symm.trans (beq_iff_eq.mp same))

/-- The shape every event of one handle has. -/
def Labels (make : U32 → Event) (handle : U32) : Prop := ∀ word, Event.handle (make word) = handle

theorem Labels.frames {make : U32 → Event} {handle : U32} (own : Labels make handle) (frames : Option LoadedSection) :
    ∀ e ∈ frameEvents make frames, Event.handle e = handle := by
  intro e member
  cases frames with
  | none => exact absurd member List.not_mem_nil
  | some s =>
    rw [frameEvents] at member
    split at member
    next => exact List.mem_singleton.mp member ▸ own s.data
    next => exact absurd member List.not_mem_nil

theorem Labels.map {make : U32 → Event} {handle : U32} (own : Labels make handle) (values : List U32) :
    ∀ e ∈ values.map make, Event.handle e = handle := by
  intro e member
  obtain ⟨value, -, rfl⟩ := List.mem_map.mp member
  exact own value

theorem startTrace_handle (memory : Memory) (handle : U32) (p : Pieces) :
    ∀ e ∈ startTrace memory handle p, Event.handle e = handle := by
  have registers : Labels (.registerFrame handle) handle := fun _ => rfl
  have constructs : Labels (.construct handle) handle := fun _ => rfl
  have starts : Labels (.prolog handle) handle := fun _ => rfl
  exact List.forall_mem_append.mpr
    ⟨registers.frames _, List.forall_mem_append.mpr ⟨constructs.map _, starts.map _⟩⟩

theorem stopTrace_handle (memory : Memory) (handle : U32) (p : Pieces) :
    ∀ e ∈ stopTrace memory handle p, Event.handle e = handle := by
  have stops : Labels (.epilog handle) handle := fun _ => rfl
  have finalizes : Labels (.finalize handle) handle := fun _ => rfl
  have destroys : Labels (.destroy handle) handle := fun _ => rfl
  have deregisters : Labels (.deregisterFrame handle) handle := fun _ => rfl
  have leaves : ∀ e ∈ [Event.unlinked handle, .freed handle], Event.handle e = handle := by
    intro e member
    rcases List.mem_cons.mp member with rfl | last
    · rfl
    · exact List.mem_singleton.mp last ▸ rfl
  exact List.forall_mem_append.mpr ⟨stops.map _, List.forall_mem_append.mpr ⟨finalizes.map _,
    List.forall_mem_append.mpr ⟨destroys.map _, List.forall_mem_append.mpr ⟨deregisters.frames _, leaves⟩⟩⟩⟩

/-! ### The invariant -/

/-- The pieces by the loader's own searches, which do not depend on the imports. -/
def Load.pieces (load : Load) : Pieces := piecesAt (loadedFile load.file.bytes (fun _ => 0) load.block)

/-- What the history says of every handle, and of the USOs in the list. -/
structure Living (l : Lives) (loaded : Registry) : Prop where
  state : ListedState l.state loaded
  loads : ∀ h ∈ loaded, ∃ load search, l.live h.1 = some load ∧ BlockFor load.file.bytes load.block ∧
    h.2.uso = loadedFile load.file.bytes search load.block
  idle : ∀ a, a ∉ loaded.map Prod.fst → l.live a = none
  ended : ∀ a, ∀ load ∈ l.past a, BlockFor load.file.bytes load.block
  events : ∀ a, eventsOf a l.state.events =
    (l.past a).flatMap (wholeTrace Load.pieces a) ++ (l.live a).toList.flatMap (openTrace Load.pieces a)

/-- A call that loads and unloads nothing changes nothing of it. -/
theorem Living.withRefCount {l : Lives} {loaded : Registry} (living : Living l loaded) {st' : LoaderState}
    {handle count : U32} (state : ListedState st' (withRefCount loaded handle count))
    (events : st'.events = l.state.events) : Living { l with state := st' } (withRefCount loaded handle count) where
  state := state
  loads := by
    intro g member
    obtain ⟨h, inList, same, contents⟩ := mem_withRefCount.mp member
    obtain ⟨load, search, running, given, own⟩ := living.loads h inList
    refine ⟨load, search, by rw [same]; exact running, given, ?_⟩
    rw [contents, ← own]
    split <;> rfl
  idle := by
    intro a absent
    rw [mem_handles_withRefCount] at absent
    exact living.idle a absent
  ended := living.ended
  events := by
    intro a
    rw [events]
    exact living.events a

/-- A failed open changes nothing of it either. -/
theorem Living.unchanged {l : Lives} {loaded : Registry} (living : Living l loaded) {st' : LoaderState}
    (state : ListedState st' loaded) (events : st'.events = l.state.events) : Living { l with state := st' } loaded where
  state := state
  loads := living.loads
  idle := living.idle
  ended := living.ended
  events := fun a => events ▸ living.events a

theorem recordLoad_idle (l : Lives) {loaded : Registry} {filename : Bytes} {handle : U32}
    (idle : handle = 0 ∨ usoGetHandle loaded filename ≠ 0) (file : Option ToolFile) (alloc : Allocation)
    (st' : LoaderState) : recordLoad l loaded filename file alloc st' handle = { l with state := st' } := by
  have none : ¬ (handle ≠ 0 ∧ usoGetHandle loaded filename = 0) := by
    rintro ⟨nonnull, absent⟩
    rcases idle with null | found
    · exact nonnull null
    · exact found absent
  rw [recordLoad, if_neg none]

/-- A file that is loaded starts a load of its handle, which had none. -/
theorem Living.loaded {l : Lives} {loaded : Registry} (living : Living l loaded) {handle : U32} {r : UsoRecord}
    (absent : handle ∉ loaded.map Prod.fst) (load : Load) (given : BlockFor load.file.bytes load.block)
    {search : Bytes → U32} (own : r.uso = loadedFile load.file.bytes search load.block) {st' : LoaderState}
    (state : ListedState st' (loaded ++ [(handle, r)]))
    (events : st'.events = l.state.events ++ startTrace load.started handle load.pieces) :
    Living { state := st', past := l.past, live := Function.update l.live handle (some load) }
      (loaded ++ [(handle, r)]) where
  state := state
  loads := by
    intro h member
    rcases List.mem_append.mp member with old | new
    · have other : h.1 ≠ handle := fun same => absent (same ▸ List.mem_map_of_mem old)
      simp only [Function.update_of_ne other]
      exact living.loads h old
    · obtain rfl := List.mem_singleton.mp new
      exact ⟨load, search, Function.update_self .., given, own⟩
  idle := by
    intro a out
    rw [List.map_append, List.mem_append, not_or] at out
    have other : a ≠ handle := fun same => out.2 (List.mem_singleton.mpr same)
    simp only [Function.update_of_ne other]
    exact living.idle a out.1
  ended := living.ended
  events := by
    intro a
    have started := startTrace_handle load.started handle load.pieces
    simp only [events, eventsOf_append]
    by_cases ours : a = handle
    · have idle := living.idle handle absent
      rw [ours, living.events handle, idle, eventsOf_own started, Function.update_self]
      simp [openTrace]
    · rw [living.events a, eventsOf_other (Ne.symm ours) started, Function.update_of_ne ours, List.append_nil]

/-- An unloaded USO ends the load of its handle. -/
theorem Living.unloaded {l : Lives} {loaded : Registry} (living : Living l loaded) {handle : U32} {load : Load}
    (running : l.live handle = some load) (given : BlockFor load.file.bytes load.block) {st' : LoaderState}
    (state : ListedState st' (without loaded handle))
    (events : st'.events = l.state.events ++ stopTrace l.state.memory handle load.pieces) :
    Living
      { state := st'
        past := Function.update l.past handle (l.past handle ++ [⟨load, l.state.memory⟩])
        live := Function.update l.live handle none } (without loaded handle) where
  state := state
  loads := by
    intro h inRest
    obtain ⟨member, other⟩ := mem_without.mp inRest
    simp only [Function.update_of_ne other]
    exact living.loads h member
  idle := by
    intro a out
    by_cases ours : a = handle
    · simp only [ours, Function.update_self]
    · simp only [Function.update_of_ne ours]
      refine living.idle a fun listed => out ?_
      obtain ⟨h, member, rfl⟩ := List.mem_map.mp listed
      exact List.mem_map_of_mem (mem_without.mpr ⟨member, ours⟩)
  ended := by
    intro a other member
    by_cases ours : a = handle
    · simp only [ours, Function.update_self] at member
      rcases List.mem_append.mp member with old | new
      · exact living.ended handle other old
      · exact List.mem_singleton.mp new ▸ given
    · simp only [Function.update_of_ne ours] at member
      exact living.ended a other member
  events := by
    intro a
    have stopped := stopTrace_handle l.state.memory handle load.pieces
    simp only [events, eventsOf_append]
    by_cases ours : a = handle
    · rw [ours, living.events handle, running, eventsOf_own stopped, Function.update_self, Function.update_self]
      simp [openTrace, wholeTrace]
    · rw [living.events a, eventsOf_other (Ne.symm ours) stopped, Function.update_of_ne ours,
        Function.update_of_ne ours, List.append_nil]

/-- What an open leaves of the history. -/
theorem Living.afterOpen {l : Lives} {loaded loaded' : Registry} (living : Living l loaded) {filename : Bytes}
    {file : Option ToolFile} {alloc : Allocation} {st' : LoaderState} {handle : U32}
    (fresh : ∀ own, file = some own → Fresh l.state own.bytes alloc)
    (result : OpenResult l.state loaded filename (file.map ToolFile.bytes) alloc st' handle loaded')
    (state : ListedState st' loaded') : Living (recordLoad l loaded filename file alloc st' handle) loaded' := by
  cases result with
  | reopened h member _ found =>
    rw [recordLoad_idle l (.inr (found ▸ living.state.represents.nonnull member))]
    exact living.withRefCount state rfl
  | missing =>
    rw [recordLoad_idle l (.inl rfl)]
    exact living.unchanged state rfl
  | unresolved =>
    rw [recordLoad_idle l (.inl rfl)]
    exact living.unchanged state rfl
  | opened bytes linked next notLoaded found _ _ added =>
    obtain ⟨own, rfl, rfl⟩ := Option.map_eq_some_iff.mp found
    have new := fresh own rfl
    have given : BlockFor own.bytes alloc.block := ⟨new.block_nonnull, new.block_aligned, new.block_ends⟩
    have absent : alloc.handle ∉ loaded.map Prod.fst := by
      intro listed
      obtain ⟨h, member, same⟩ := List.mem_map.mp listed
      exact new.handle_fresh (same ▸ living.state.represents.mem_heap member)
    have linking : ListedState { l.state with memory := linked } loaded :=
      ⟨living.state.represents.congr rfl rfl rfl, living.state.initted⟩
    obtain ⟨-, -, memory, events, started, appended⟩ :=
      addUso_returned linking ⟨new.handle_nonnull, new.handle_fresh⟩ added
    have startable := own.startable given (resolve l.state loaded)
    have trace := startUso_trace startable linked alloc.handle
    rw [show (openedRecord l.state loaded filename own.bytes alloc).uso =
      loadedFile own.bytes (resolve l.state loaded) alloc.block from rfl, trace, Except.ok.injEq] at started
    rw [recordLoad, if_pos ⟨new.handle_nonnull, (usoGetHandle_eq_zero living.state.represents).mpr notLoaded⟩, memory]
    exact living.loaded absent ⟨own, alloc.block, linked⟩ given rfl state (by rw [appended, ← started]; rfl)

/-- What a close leaves of it. -/
theorem Living.afterClose {l : Lives} {loaded loaded' : Registry} (living : Living l loaded) {st' : LoaderState}
    {handle : U32} (result : CloseResult l.state loaded handle st' loaded') (state : ListedState st' loaded') :
    Living (recordEnd l st' handle) loaded' := by
  cases result with
  | kept r closeable member =>
    rw [recordEnd, List.drop_length, if_neg List.not_mem_nil]
    exact living.withRefCount state rfl
  | unloaded r next member closes counted unloaded =>
    have counting := living.state.setRefCount handle (closedCount r.refCount)
    obtain ⟨-, -, -, events, ended, added⟩ :=
      unloadUso_returned counting (mem_withRefCount_self member (closedCount r.refCount)) unloaded
    obtain ⟨load, search, running, given, own⟩ := living.loads _ member
    obtain ⟨events', stops, trace⟩ := endUso_trace (load.file.startable given search) l.state.memory handle
    have uso : r.uso = loadedFile load.file.bytes search load.block := own
    rw [show ({ r with refCount := closedCount r.refCount } : UsoRecord).uso = r.uso from rfl] at ended
    rw [uso] at ended
    obtain rfl : events = events' := Except.ok.inj (ended.symm.trans stops)
    have appended : st'.events = l.state.events ++ stopTrace l.state.memory handle load.pieces := by
      rw [added, List.append_assoc, trace]
      rfl
    have freed : .freed handle ∈ st'.events.drop l.state.events.length := by
      rw [added, List.append_assoc, List.drop_left]
      simp
    rw [recordEnd, if_pos freed, running]
    exact living.unloaded running given state appended

theorem Living.step {l l' : Lives} {loaded : Registry} (living : Living l loaded) {call : LifeCall}
    (step : LifeStep l call l') : ∃ loaded', Living l' loaded' := by
  cases step with
  | @opened st' loaded₀ filename file alloc handle fresh seen returned =>
    obtain rfl := living.state.represents.seen seen
    have freshHandle : ∀ bytes, file.map ToolFile.bytes = some bytes → FreshHandle l.state alloc.handle := by
      intro bytes found
      obtain ⟨own, some, -⟩ := Option.map_eq_some_iff.mp found
      exact (fresh own some).freshHandle
    obtain ⟨loaded', result, state⟩ := usoOpen_result living.state freshHandle returned
    exact ⟨loaded', living.afterOpen fresh result state⟩
  | closed returned =>
    obtain ⟨loaded', result, state⟩ := usoClose_result living.state returned
    exact ⟨loaded', living.afterClose result state⟩

def epilogSymbol : ElfSymbol :=
  { exportedF with name := epilogName, name_terminated := by decide }

end DragonUso.LifeCycle
