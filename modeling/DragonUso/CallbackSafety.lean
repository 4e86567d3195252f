import DragonUso.Callbacks
import DragonUso.CloseFaults
import DragonUso.LifeCycle

/-! Ownership while functions of the USOs call the loader. `uso_close` tests a USO, runs its functions
and only then unlinks and frees it. What the test found still holds at the end if no call in between
opens the USO, closes it, or binds an import to it. -/

namespace DragonUso.CallbackSafety
open UseCount WordMemory Format LoaderImage Relocation SymbolSearch Loader HandleList LoaderSteps OpenBinding Runs
open ElfFile ToolCollect ToolWriter RoundTrip ProducedFile StartStop CloseFaults ImportsAlive ListConsistency Unloading
open LifeCycle Callbacks

/-! ### What the functions of the loader do with the frames -/

/-- The handles `end_uso` runs for, the innermost first. -/
def stopping (frames : List Frame) : List U32 := (frames.filter fun frame => frame.running.stops).map Frame.handle

/-- Whether a handle was freed between two states. -/
def Freed (before after : LoaderState) (handle : U32) : Prop := .freed handle ∈ after.events.drop before.events.length

instance (before after : LoaderState) (handle : U32) : Decidable (Freed before after handle) :=
  inferInstanceAs (Decidable (_ ∈ _))

section
variable {n m : Nested} {handle : U32} {uso : LoadedUso} {call : Option Running} {running : Running}

theorem startCall_stops (called : startCall uso = .ok (some running)) : running.stops = false := by
  grind [startCall, ctorCall, prologCall, Running.stops]

theorem endCall_stops (called : endCall uso = .ok (some running)) : running.stops = true := by
  grind [endCall, finalizeCall, dtorsCall, dtorCall, Running.stops]

/-- A start goes on with functions of the start, an end with functions of the end. -/
theorem nextCall_stops {before : Running} (called : nextCall uso before = .ok (some running)) :
    running.stops = before.stops := by
  cases before <;> grind [nextCall, ctorCall, prologCall, finalizeCall, dtorsCall, dtorCall, Running.stops]

theorem stopping_enter (n : Nested) (handle : U32) (uso : LoadedUso) (running : Running) :
    stopping (enter n handle uso running).frames =
      if running.stops then handle :: stopping n.frames else stopping n.frames := by
  unfold stopping enter
  cases stops : running.stops <;> simp [stops]

/-- The state is the given one, and the events recorded on the way to it free nothing. -/
structure Records (st st' next : LoaderState) : Prop where
  same : next = { st' with events := next.events }
  events : ∃ added, next.events = st.events ++ added ∧ ∀ a, .freed a ∉ added

theorem Records.not_freed {st st' next : LoaderState} (records : Records st st' next) (a : U32) : ¬ Freed st next a := by
  obtain ⟨added, events, quiet⟩ := records.events
  rw [Freed, events, List.drop_left]
  exact quiet a

theorem Records.listed {st st' next : LoaderState} (records : Records st st' next) {loaded : Registry}
    (listed : ListedState st' loaded) : ListedState next loaded := by
  rw [records.same]
  exact ⟨listed.represents.congr rfl rfl rfl, listed.initted⟩

theorem Records.globals {st st' next : LoaderState} (records : Records st st' next) :
    next.globalSyms = st'.globalSyms := by
  rw [records.same]

theorem records_enter (n : Nested) (handle : U32) (uso : LoadedUso) (running : Running) :
    Records n.state n.state (enter n handle uso running).state := by
  refine ⟨rfl, _, rfl, fun a member => ?_⟩
  have called := List.mem_singleton.mp member
  cases running <;> cases called

theorem goOn_started (starts : ∀ running, call = some running → running.stops = false)
    (went : goOn n handle uso false call = .ok m) :
    Records n.state n.state m.state ∧ stopping m.frames = stopping n.frames := by
  cases call with
  | none =>
    obtain rfl := Except.ok.inj went
    exact ⟨⟨rfl, [], (List.append_nil _).symm, fun _ => List.not_mem_nil⟩, rfl⟩
  | some running =>
    obtain rfl := Except.ok.inj went
    rw [stopping_enter, starts running rfl]
    exact ⟨records_enter n handle uso running, rfl⟩

/-- An end calls its next function, or the handle is unlinked and freed. -/
theorem goOn_ended (stops : ∀ running, call = some running → running.stops = true)
    (went : goOn n handle uso true call = .ok m) :
    (Records n.state n.state m.state ∧ stopping m.frames = handle :: stopping n.frames) ∨
      finishClose n handle uso = .ok m := by
  cases call with
  | none => exact .inr went
  | some running =>
    obtain rfl := Except.ok.inj went
    rw [stopping_enter, stops running rfl]
    exact .inl ⟨records_enter n handle uso running, rfl⟩

/-- The list without the handle that was freed. -/
structure Finished (n : Nested) (loaded : Registry) (handle : U32) (m : Nested) : Prop where
  listed : ListedState m.state (without loaded handle)
  frames : m.frames = n.frames
  globals : m.state.globalSyms = n.state.globalSyms
  freed : ∀ a, Freed n.state m.state a ↔ a = handle

theorem finishClose_finished {loaded : Registry} (listed : ListedState n.state loaded) {r : UsoRecord}
    (member : (handle, r) ∈ loaded) (finished : finishClose n handle uso = .ok m) : Finished n loaded handle m := by
  unfold finishClose at finished
  split at finished
  next => cases finished
  next ehFrame found =>
    obtain rfl := Except.ok.inj finished
    have ending : Represents (n.record
        (if hasFrames ehFrame then [.deregisterFrame handle ehFrame.data] else [])).state loaded :=
      listed.represents.congr rfl rfl rfl
    refine ⟨⟨(ending.removeUso member).congr rfl rfl rfl, listed.initted⟩, rfl, rfl, fun a => ?_⟩
    simp only [Freed, Nested.record, removeUso, List.append_assoc, List.drop_left, List.mem_append]
    split <;> simp [eq_comm]

theorem beginAdd_added {contents : UsoRecord} (begun : beginAdd n handle contents = .ok m) :
    ∃ next, addUso n.state handle contents = .ok next ∧ Records n.state next m.state ∧
      stopping m.frames = stopping n.frames := by
  unfold beginAdd at begun
  cases frames : sectionAt contents.uso.sections contents.uso.ehFrameSection with
  | error fault => simp [frames] at begun
  | ok ehFrame =>
    cases first : startCall contents.uso with
    | error fault => simp [frames, first] at begun
    | ok call =>
      simp only [frames, first] at begun
      obtain ⟨records, same⟩ := goOn_started (fun running some => startCall_stops (some ▸ first)) begun
      cases found : sectionAt contents.uso.sections contents.uso.ctorsSection with
      | error fault => simp [startCall, found] at first
      | ok ctors =>
        simp only [addUso, startUso, frames, found]
        refine ⟨_, rfl, ⟨records.same, ?_⟩, same⟩
        obtain ⟨added, events, quiet⟩ := records.events
        refine ⟨(if hasFrames ehFrame then [.registerFrame handle ehFrame.data] else []) ++ added, ?_, fun a member => ?_⟩
        · rw [events, ← List.append_assoc]
          rfl
        · rcases List.mem_append.mp member with registered | later
          · split at registered
            next => simp at registered
            next => cases registered
          · exact quiet a later

theorem records_same {st st' : LoaderState} (same : st'.events = st.events) : Records st st' st' :=
  ⟨rfl, [], by rw [same, List.append_nil], fun _ => List.not_mem_nil⟩

theorem beginLoad_loaded {loaded : Registry} {filename file : Bytes} {alloc : Allocation}
    (begun : beginLoad n loaded filename file alloc = .ok (m, handle)) :
    ∃ st', loadUso n.state loaded filename file alloc = .ok (st', handle) ∧ Records n.state st' m.state ∧
      stopping m.frames = stopping n.frames := by
  unfold beginLoad at begun
  unfold loadUso
  by_cases allocated : alloc.handle = 0 ∨ alloc.block = 0
  · simp only [if_pos allocated, reduceCtorEq] at begun
  · simp only [if_neg allocated] at begun ⊢
    cases fixed : fixupUso (usoImage file) (fun name => searchLoadedSymbols loaded n.state.globalSyms name true)
        alloc.block (getUsoNoloadStart (readLoadInfo file) alloc.block)
        (loadBlock n.state.memory alloc.block (getUsoRamSize (readLoadInfo file)) (usoImage file)) with
    | error fault => simp [fixed] at begun
    | ok result =>
      cases result with
      | none =>
        simp only [fixed, Except.ok.injEq, Prod.mk.injEq] at begun ⊢
        obtain ⟨rfl, rfl⟩ := begun
        exact ⟨_, ⟨rfl, rfl⟩, records_same rfl, rfl⟩
      | some result =>
        obtain ⟨uso, linked⟩ := result
        cases started : beginAdd { n with state := { n.state with memory := linked } } alloc.handle
            { uso := uso, block := alloc.block, ramSize := getUsoRamSize (readLoadInfo file), refCount := 1
              name := filename } with
        | error fault => simp only [fixed, started, reduceCtorEq] at begun
        | ok next =>
          obtain ⟨st', added, records, same⟩ := beginAdd_added started
          simp only [fixed, started, Except.ok.injEq, Prod.mk.injEq] at begun
          simp only [added]
          obtain ⟨rfl, rfl⟩ := begun
          exact ⟨st', rfl, ⟨records.same, records.events⟩, same⟩

/-- An open that has begun has done to the list what an open in one piece does. -/
theorem beginOpen_opened {filename : Bytes} {file : Option Bytes} {alloc : Allocation}
    (begun : beginOpen n filename file alloc = .ok (m, handle)) :
    ∃ st', usoOpen n.state filename file alloc = .ok (st', handle) ∧ Records n.state st' m.state ∧
      stopping m.frames = stopping n.frames := by
  unfold beginOpen at begun
  unfold usoOpen
  by_cases initted : n.state.initted = false
  · simp [initted] at begun
  · cases listed : usoList n.state with
    | error fault => simp [initted, listed] at begun
    | ok loaded =>
      simp only [if_neg initted, listed] at begun ⊢
      by_cases found : usoGetHandle loaded filename ≠ 0
      · cases stored : n.state.heap.lookup (usoGetHandle loaded filename) with
        | none => simp only [if_pos found, stored, reduceCtorEq] at begun
        | some d =>
          simp only [if_pos found, stored, Except.ok.injEq, Prod.mk.injEq] at begun ⊢
          obtain ⟨rfl, rfl⟩ := begun
          exact ⟨_, ⟨rfl, rfl⟩, records_same rfl, rfl⟩
      · simp only [if_neg found] at begun ⊢
        cases file with
        | none =>
          obtain ⟨rfl, rfl⟩ : _ ∧ _ := by simpa only [Except.ok.injEq, Prod.mk.injEq] using begun
          exact ⟨_, rfl, records_same rfl, rfl⟩
        | some bytes => exact beginLoad_loaded begun

end

/-! ### Runs with their history -/

/-- A call of the loader by the function that runs, or by the program if none does; or the function returns. -/
inductive Move where
  | call (call : Call)
  | returned

/-- For each handle the opens and closes since its load, what its imports were bound to, and how often
its USO was ended and freed since. -/
structure History where
  uses : Uses
  binding : Binding
  ends : U32 → Nat
  frees : U32 → Nat

structure Watched where
  nested : Nested
  history : History

/-- A load starts a history of its own. -/
def History.added (h : History) (loaded : Registry) (handle : U32) : History where
  uses := Function.update h.uses handle (some [.opened])
  binding := Function.update h.binding handle (exporterOf loaded)
  ends := Function.update h.ends handle 0
  frees := Function.update h.frees handle 0

def History.opened (h : History) (loaded : Registry) (filename : Bytes) (handle : U32) : History :=
  if handle = 0 then h
  else if usoGetHandle loaded filename = 0 then h.added loaded handle
  else { h with uses := addUse h.uses handle .opened }

def History.closed (h : History) (handle : U32) : History := { h with uses := addUse h.uses handle .closed }

def History.ended (h : History) (handle : U32) : History :=
  { h with ends := Function.update h.ends handle (h.ends handle + 1) }

def History.freed (h : History) (handle : U32) : History :=
  { h with frees := Function.update h.frees handle (h.frees handle + 1) }

/-- What the step from one state to the other freed. -/
def recordFree (before after : LoaderState) (handle : U32) (h : History) : History :=
  if Freed before after handle then h.freed handle else h

/-- The import table of a file is in order, as the tool writes it. -/
def ImportsAscend (file : Bytes) : Prop := AscendingTable (fileImports file)

theorem importsAscend_made {file : Bytes} (made : MadeByTool file) : ImportsAscend file := by
  obtain ⟨sort, elf, tool, srcElfName, produced, rfl⟩ := made
  rw [ImportsAscend, fileImports, imports_usoWrite produced.writable, entries_present, produced.accepted.importSyms]
  exact ascending_sorted sort _

/-- A move that returns to the function that made it, or enters another one. -/
inductive NestedStep : Watched → Move → Watched → Prop where
  | opened {w : Watched} {n' : Nested} {loaded : Registry} {filename : Bytes} {file : Option Bytes} {alloc : Allocation}
      {handle : U32} : (∀ bytes, file = some bytes → ImportsAscend bytes) →
    (∀ bytes, file = some bytes → FreshHandle w.nested.state alloc.handle) → usoList w.nested.state = .ok loaded →
    beginOpen w.nested filename file alloc = .ok (n', handle) →
    NestedStep w (.call (.usoOpen filename file alloc)) ⟨n', w.history.opened loaded filename handle⟩
  | kept {w : Watched} {st' : LoaderState} {handle : U32} : closeTest w.nested.state handle = .ok (st', none) →
    NestedStep w (.call (.usoClose handle)) ⟨{ w.nested with state := st' }, w.history.closed handle⟩
  | ended {w : Watched} {st' : LoaderState} {handle : U32} {uso : LoadedUso} {n' : Nested} :
    closeTest w.nested.state handle = .ok (st', some uso) →
    beginEnd { w.nested with state := st' } handle uso = .ok n' →
    NestedStep w (.call (.usoClose handle))
      ⟨n', recordFree w.nested.state n'.state handle ((w.history.closed handle).ended handle)⟩
  | returned {w : Watched} {frame : Frame} {rest : List Frame} {n' : Nested} : w.nested.frames = frame :: rest →
    returnTo { w.nested with frames := rest } frame = .ok n' →
    NestedStep w .returned ⟨n', recordFree w.nested.state n'.state frame.handle w.history⟩

/-- Nothing is loaded after `uso_init`, and no function runs. -/
def nestedStart (memory : Memory) (globalSymFile : Bytes) : Watched where
  nested := ⟨initialState memory globalSymFile, []⟩
  history := ⟨fun _ => none, fun _ _ => none, fun _ => 0, fun _ => 0⟩

/-- A call that leaves the USOs being stopped alone: it neither opens nor closes one, and a file it loads
has no import bound to one. -/
def LeavesAlone (st : LoaderState) (loaded : Registry) (stopped : List U32) : Call → Prop
  | .usoOpen filename file _ => usoGetHandle loaded filename ∉ stopped ∧
      ∀ bytes, file = some bytes → usoGetHandle loaded filename = 0 → importsResolved st loaded bytes = true →
        ∀ s ∈ fileImports bytes, ∀ exporter, exporterOf loaded s.name = some exporter → exporter ∉ stopped
  | .usoClose handle => handle ∉ stopped

/-- The condition on a move, in the state it is made in. -/
def Undisturbed (w : Watched) : Move → Prop
  | .call call => ∀ loaded, usoList w.nested.state = .ok loaded →
      LeavesAlone w.nested.state loaded (stopping w.nested.frames) call ∧ RoomFor loaded call
  | .returned => True

/-! ### The invariant -/

/-- The USOs being stopped are different ones; nobody has them open or is bound to them. -/
structure Guarded (globalSyms : Option (List UsoSymbol)) (loaded : Registry) (stopped : List U32) (h : History) :
    Prop where
  found : ∀ g ∈ loaded, ∀ s ∈ entries g.2.uso.importSyms, searchSymbolTable g.2.uso.importSyms s.name = s.ptr
  provided : AllProvided loaded globalSyms h.binding
  counts : CountsMatch h.uses loaded
  distinct : stopped.Nodup
  condemned : ∀ a ∈ stopped, (∃ r, (a, r) ∈ loaded ∧ r.refCount = 0) ∧ ¬ InUse loaded h.binding a
  fresh : ∀ g ∈ loaded, h.frees g.1 = 0 ∧ h.ends g.1 = if g.1 ∈ stopped then 1 else 0
  once : ∀ a, h.ends a ≤ 1 ∧ h.frees a ≤ 1

section
variable {globalSyms : Option (List UsoSymbol)} {loaded : Registry} {stopped : List U32} {h : History} {handle : U32}

/-- One more open or close of a USO that is not being stopped. -/
theorem Guarded.counted (guarded : Guarded globalSyms loaded stopped h) {count : U32} {use : Use}
    (alone : handle ∉ stopped) (tallied : ∀ own, h.uses handle = some own → count.toNat = counted (tally own) use) :
    Guarded globalSyms (withRefCount loaded handle count) stopped { h with uses := addUse h.uses handle use } where
  found := by
    intro g member
    obtain ⟨r, inList, same, -⟩ := mem_of_mem_withRefCount member
    rw [same]
    exact guarded.found _ inList
  provided := guarded.provided.withRefCount handle count
  counts := guarded.counts.addUse tallied
  distinct := guarded.distinct
  condemned := by
    intro a stops
    obtain ⟨⟨r, member, zero⟩, unused⟩ := guarded.condemned a stops
    have other : a ≠ handle := fun same => alone (same ▸ stops)
    have stays : (a, r) ∈ withRefCount loaded handle count := mem_withRefCount.mpr ⟨_, member, rfl, (if_neg other).symm⟩
    exact ⟨⟨r, stays, zero⟩, mt inUse_withRefCount.mp unused⟩
  fresh := by
    intro g member
    obtain ⟨r, inList, -⟩ := mem_of_mem_withRefCount member
    exact guarded.fresh (g.1, r) inList
  once := guarded.once

theorem Guarded.closed (guarded : Guarded globalSyms loaded stopped h) {r : UsoRecord} (member : (handle, r) ∈ loaded)
    (alone : handle ∉ stopped) :
    Guarded globalSyms (withRefCount loaded handle (closedCount r.refCount)) stopped (h.closed handle) := by
  refine guarded.counted alone fun own history => ?_
  obtain ⟨own', history', number⟩ := guarded.counts _ member
  rw [history, Option.some.injEq] at history'
  rw [closedCount_toNat, number, history']
  rfl

theorem Guarded.reopened (guarded : Guarded globalSyms loaded stopped h) {g : U32 × UsoRecord} (member : g ∈ loaded)
    (alone : g.1 ∉ stopped) (room : g.2.refCount ≠ 0xFFFFFFFF) :
    Guarded globalSyms (withRefCount loaded g.1 (g.2.refCount + 1)) stopped
      { h with uses := addUse h.uses g.1 .opened } := by
  refine guarded.counted alone fun own history => ?_
  obtain ⟨own', history', number⟩ := guarded.counts g member
  rw [history, Option.some.injEq] at history'
  rw [(succ_toNat_iff _).mpr room, number, history']
  rfl

/-- A new USO that is bound to none of those being stopped. -/
theorem Guarded.added (guarded : Guarded globalSyms loaded stopped h) (new : ∀ g ∈ loaded, g.1 ≠ handle) {r : UsoRecord}
    (one : r.refCount = 1)
    (found : ∀ s ∈ entries r.uso.importSyms, searchSymbolTable r.uso.importSyms s.name = s.ptr)
    (bound : ∀ s ∈ entries r.uso.importSyms, s.ptr = searchLoadedSymbols loaded globalSyms s.name true)
    (alone : ∀ s ∈ entries r.uso.importSyms, ∀ exporter, exporterOf loaded s.name = some exporter → exporter ∉ stopped) :
    Guarded globalSyms (loaded ++ [(handle, r)]) stopped (h.added loaded handle) where
  found := by
    intro g member
    rcases List.mem_append.mp member with old | own
    · exact guarded.found g old
    · rw [List.mem_singleton.mp own]
      exact found
  provided := guarded.provided.added new bound
  counts := guarded.counts.added new one
  distinct := guarded.distinct
  condemned := by
    intro a stops
    obtain ⟨⟨r', member, zero⟩, unused⟩ := guarded.condemned a stops
    refine ⟨⟨r', List.mem_append_left _ member, zero⟩, ?_⟩
    rintro ⟨g, inList, other, s, imported, pointer, recorded⟩
    rcases List.mem_append.mp inList with old | own
    · simp only [History.added, Function.update_of_ne (new g old)] at recorded
      exact unused ⟨g, old, other, s, imported, pointer, recorded⟩
    · obtain rfl := List.mem_singleton.mp own
      simp only [History.added, Function.update_self] at recorded
      exact alone s imported a recorded stops
  fresh := by
    intro g member
    rcases List.mem_append.mp member with old | own
    · simp only [History.added, Function.update_of_ne (new g old)]
      exact guarded.fresh g old
    · have running : handle ∉ stopped := by
        intro stops
        obtain ⟨⟨r', inList, -⟩, -⟩ := guarded.condemned handle stops
        exact new _ inList rfl
      rw [List.mem_singleton.mp own]
      simp only [History.added, Function.update_self, if_neg running, and_self]
  once := by
    intro a
    unfold History.added
    by_cases own : a = handle
    · simp only [own, Function.update_self]
      omega
    · simp only [Function.update_of_ne own]
      exact guarded.once a

/-- The test of `uso_close` finds that no import of another USO is bound to this one. -/
theorem Guarded.unused (guarded : Guarded globalSyms loaded stopped h) {st : LoaderState}
    (represents : Represents st loaded) {r : UsoRecord} (member : (handle, r) ∈ loaded) (closes : isUsoCloseable loaded handle r.uso = .ok true) :
    ¬ InUse loaded h.binding handle := by
  rintro ⟨g, user, other, s, imported, pointer, recorded⟩
  have provided := guarded.provided g user s imported pointer
  unfold Provided at provided
  rw [recorded] at provided
  obtain ⟨r', inList, exported⟩ := provided
  obtain rfl : r' = r := congrArg Prod.snd (represents.unique inList member rfl)
  have searched : searchSymbolTable g.2.uso.importSyms s.name ≠ 0 := by
    rw [guarded.found g user s imported]
    exact pointer
  exact closeable_unsearched closes user other searched s.ptr exported

theorem Guarded.ended (guarded : Guarded globalSyms loaded stopped h) (alone : handle ∉ stopped) {r : UsoRecord}
    (member : (handle, r) ∈ loaded) (zero : r.refCount = 0) (unused : ¬ InUse loaded h.binding handle) :
    Guarded globalSyms loaded (handle :: stopped) (h.ended handle) where
  found := guarded.found
  provided := guarded.provided
  counts := guarded.counts
  distinct := List.nodup_cons.mpr ⟨alone, guarded.distinct⟩
  condemned := by
    intro a stops
    rcases List.mem_cons.mp stops with rfl | before
    · exact ⟨⟨r, member, zero⟩, unused⟩
    · exact guarded.condemned a before
  fresh := by
    intro g inList
    obtain ⟨frees, ends⟩ := guarded.fresh g inList
    refine ⟨frees, ?_⟩
    unfold History.ended
    by_cases own : g.1 = handle
    · rw [own, if_neg alone] at ends
      simp only [own, Function.update_self, ends, List.mem_cons, true_or, if_true]
    · simp only [Function.update_of_ne own, ends, List.mem_cons, own, false_or]
  once := by
    intro a
    unfold History.ended
    by_cases own : a = handle
    · have before := (guarded.fresh _ member).2
      rw [if_neg alone] at before
      simp only [own, Function.update_self, before]
      exact ⟨le_refl 1, (guarded.once handle).2⟩
    · simp only [Function.update_of_ne own]
      exact guarded.once a

/-- A USO whose end is through is free to go. -/
theorem Guarded.freed (guarded : Guarded globalSyms loaded (handle :: stopped) h) :
    Guarded globalSyms (without loaded handle) stopped (h.freed handle) where
  found := fun g inRest => guarded.found g (mem_without.mp inRest).1
  provided := by
    have unused := (guarded.condemned handle List.mem_cons_self).2
    exact guarded.provided.without_unused unused
  counts := fun g inRest => guarded.counts g (mem_without.mp inRest).1
  distinct := (List.nodup_cons.mp guarded.distinct).2
  condemned := by
    intro a stops
    obtain ⟨⟨r, member, zero⟩, unused⟩ := guarded.condemned a (List.mem_cons_of_mem _ stops)
    have other : a ≠ handle := fun same => (List.nodup_cons.mp guarded.distinct).1 (same ▸ stops)
    refine ⟨⟨r, mem_without.mpr ⟨member, other⟩, zero⟩, ?_⟩
    rintro ⟨g, inRest, bound⟩
    exact unused ⟨g, (mem_without.mp inRest).1, bound⟩
  fresh := by
    intro g inRest
    obtain ⟨member, other⟩ := mem_without.mp inRest
    obtain ⟨frees, ends⟩ := guarded.fresh g member
    simp only [List.mem_cons, other, false_or] at ends
    simp only [History.freed, Function.update_of_ne other]
    exact ⟨frees, ends⟩
  once := by
    intro a
    unfold History.freed
    by_cases own : a = handle
    · obtain ⟨⟨r, member, -⟩, -⟩ := guarded.condemned handle List.mem_cons_self
      have before := (guarded.fresh _ member).1
      simp only [own, Function.update_self, before]
      exact ⟨(guarded.once handle).1, le_refl 1⟩
    · simp only [Function.update_of_ne own]
      exact guarded.once a

end

/-! ### What a move keeps -/

theorem closeTest_tested {st st' : LoaderState} {loaded : Registry} (listed : ListedState st loaded) {handle : U32}
    {ended : Option LoadedUso} (tested : closeTest st handle = .ok (st', ended)) :
    ∃ r closeable, (handle, r) ∈ loaded ∧ isUsoCloseable loaded handle r.uso = .ok closeable ∧
      st' = { st with heap := setRefCount st.heap handle (closedCount r.refCount) } ∧
      ended = if closeable && closedCount r.refCount == 0 then some r.uso else none := by
  unfold closeTest at tested
  simp only [usoList_eq listed.represents] at tested
  split at tested
  next => cases tested
  next address r found =>
    have member := List.mem_of_find?_eq_some found
    obtain rfl : address = handle := by simpa using List.find?_some found
    split at tested
    next => cases tested
    next closeable closes =>
      obtain ⟨rfl, rfl⟩ : _ ∧ _ := by simpa only [Except.ok.injEq, Prod.mk.injEq] using tested
      exact ⟨r, closeable, member, closes, rfl, rfl⟩

/-- A search in the import table of a new USO finds the pointer the name was resolved to. -/
theorem found_openedRecord (st : LoaderState) (loaded : Registry) (filename : Bytes) {file : Bytes}
    (ascend : ImportsAscend file) (alloc : Allocation) :
    ∀ s ∈ entries (openedRecord st loaded filename file alloc).uso.importSyms,
      searchSymbolTable (openedRecord st loaded filename file alloc).uso.importSyms s.name = s.ptr := by
  have bound := boundImports_openedRecord st loaded filename file alloc
  have table : AscendingTable (entries (openedRecord st loaded filename file alloc).uso.importSyms) := by
    simp only [openedRecord, openedUso, fixedUso, entries_fixupImports, AscendingTable, List.pairwise_map]
    exact ascend
  intro s imported
  obtain ⟨t, inTable, named, pointer⟩ := searchSymbolTable_finds table imported
  rw [pointer, bound t inTable, named, ← bound s imported]

theorem importNames_openedRecord {st : LoaderState} {loaded : Registry} {filename file : Bytes} {alloc : Allocation}
    {s : UsoSymbol} (imported : s ∈ entries (openedRecord st loaded filename file alloc).uso.importSyms) :
    ∃ stored ∈ fileImports file, stored.name = s.name := by
  simp only [openedRecord, openedUso, fixedUso, entries_fixupImports, List.mem_map] at imported
  obtain ⟨stored, member, rfl⟩ := imported
  exact ⟨stored, member, rfl⟩

section
variable {loaded : Registry} {h : History} {handle : U32}

theorem Guarded.opened {st st' : LoaderState} (listed : ListedState st loaded) {stopped : List U32}
    (guarded : Guarded st.globalSyms loaded stopped h) {filename : Bytes} {file : Option Bytes} {alloc : Allocation}
    (ascend : ∀ bytes, file = some bytes → ImportsAscend bytes)
    (fresh : ∀ bytes, file = some bytes → FreshHandle st alloc.handle)
    (leaves : LeavesAlone st loaded stopped (.usoOpen filename file alloc))
    (room : RoomFor loaded (.usoOpen filename file alloc)) {loaded' : Registry}
    (result : OpenResult st loaded filename file alloc st' handle loaded') :
    Guarded st.globalSyms loaded' stopped (h.opened loaded filename handle) := by
  obtain ⟨notOpened, notBound⟩ := leaves
  cases result with
  | reopened g member named found =>
    have nonnull := listed.represents.nonnull member
    rw [History.opened, if_neg nonnull, if_neg (found ▸ nonnull)]
    exact guarded.reopened member (found ▸ notOpened) (room g member found)
  | missing =>
    rw [History.opened, if_pos rfl]
    exact guarded
  | unresolved =>
    rw [History.opened, if_pos rfl]
    exact guarded
  | opened bytes linked next notLoaded found resolved =>
    have absent := (usoGetHandle_eq_zero listed.represents).mpr notLoaded
    have own := fresh bytes found
    rw [History.opened, if_neg own.nonnull, if_pos absent]
    refine guarded.added ?_ rfl (found_openedRecord _ _ _ (ascend bytes found) _) (boundImports_openedRecord _ _ _ _ _) ?_
    · exact fun g member same => own.fresh (same ▸ listed.represents.mem_heap member)
    · intro s imported exporter bound
      obtain ⟨stored, inFile, named⟩ := importNames_openedRecord imported
      exact notBound bytes found absent resolved stored inFile exporter (named ▸ bound)

/-- What a move frees is not open any more, and nothing that is loaded is bound to it. -/
def FreesUnused (loaded : Registry) (w w' : Watched) : Prop :=
  ∀ a, Freed w.nested.state w'.nested.state a →
    (∃ own, w'.history.uses a = some own ∧ tally own = 0) ∧ ¬ InUse loaded w'.history.binding a

theorem recordFree_uses (before after : LoaderState) (handle : U32) (h : History) :
    (recordFree before after handle h).uses = h.uses := by
  unfold recordFree
  split <;> rfl

theorem recordFree_binding (before after : LoaderState) (handle : U32) (h : History) :
    (recordFree before after handle h).binding = h.binding := by
  unfold recordFree
  split <;> rfl

/-- The last step of an end. -/
theorem Guarded.finish {n m : Nested} {uso : LoadedUso} (listed : ListedState n.state loaded)
    (guarded : Guarded n.state.globalSyms loaded (handle :: stopping n.frames) h)
    (finished : finishClose n handle uso = .ok m) :
    (∀ a, Freed n.state m.state a → (∃ own, h.uses a = some own ∧ tally own = 0) ∧ ¬ InUse loaded h.binding a) ∧
      ListedState m.state (without loaded handle) ∧
      Guarded m.state.globalSyms (without loaded handle) (stopping m.frames) (recordFree n.state m.state handle h) := by
  obtain ⟨⟨r, member, zero⟩, unused⟩ := guarded.condemned handle List.mem_cons_self
  have result := finishClose_finished listed member finished
  refine ⟨fun a gone => ?_, result.listed, ?_⟩
  · obtain rfl := (result.freed a).mp gone
    obtain ⟨own, history, number⟩ := guarded.counts _ member
    refine ⟨⟨own, history, ?_⟩, unused⟩
    rw [← number, zero]
    rfl
  · rw [recordFree, if_pos ((result.freed handle).mpr rfl), result.globals, result.frames]
    exact guarded.freed

/-- The list a watched state stands for, with its invariant. -/
structure Invariant (w : Watched) (loaded : Registry) : Prop where
  listed : ListedState w.nested.state loaded
  guarded : Guarded w.nested.state.globalSyms loaded (stopping w.nested.frames) w.history

/-- The invariant after a move that frees nothing. -/
theorem Invariant.records {before st' : LoaderState} {m : Nested} (records : Records before st' m.state)
    (listed : ListedState st' loaded) (guarded : Guarded st'.globalSyms loaded (stopping m.frames) h) :
    Invariant ⟨m, recordFree before m.state handle h⟩ loaded := by
  rw [recordFree, if_neg (records.not_freed handle)]
  exact ⟨records.listed listed, records.globals ▸ guarded⟩

/-- An end goes on with its next function or is through. -/
theorem Invariant.goOn {n m : Nested} {uso : LoadedUso} {call : Option Running} (listed : ListedState n.state loaded)
    (guarded : Guarded n.state.globalSyms loaded (handle :: stopping n.frames) h)
    (stops : ∀ running, call = some running → running.stops = true) (went : goOn n handle uso true call = .ok m) :
    (∀ a, Freed n.state m.state a → (∃ own, h.uses a = some own ∧ tally own = 0) ∧ ¬ InUse loaded h.binding a) ∧
      ∃ loaded', Invariant ⟨m, recordFree n.state m.state handle h⟩ loaded' := by
  rcases goOn_ended stops went with ⟨records, same⟩ | finished
  · refine ⟨fun a gone => absurd gone (records.not_freed a), loaded, Invariant.records records listed ?_⟩
    rw [same]
    exact guarded
  · obtain ⟨safe, listed', guarded'⟩ := Guarded.finish listed guarded finished
    exact ⟨safe, _, listed', guarded'⟩

theorem Invariant.kept {w : Watched} (invariant : Invariant w loaded) {st' : LoaderState} {ended : Option LoadedUso}
    (tested : closeTest w.nested.state handle = .ok (st', ended)) (alone : handle ∉ stopping w.nested.frames) :
    FreesUnused loaded w ⟨{ w.nested with state := st' }, w.history.closed handle⟩ ∧
      ∃ loaded', Invariant ⟨{ w.nested with state := st' }, w.history.closed handle⟩ loaded' := by
  obtain ⟨r, closeable, member, -, rfl, -⟩ := closeTest_tested invariant.listed tested
  refine ⟨fun a gone => ?_, _, invariant.listed.setRefCount handle (closedCount r.refCount),
    invariant.guarded.closed member alone⟩
  rw [Freed, List.drop_length] at gone
  cases gone

theorem Invariant.ended {w : Watched} (invariant : Invariant w loaded) {st' : LoaderState} {uso : LoadedUso} {n' : Nested}
    (tested : closeTest w.nested.state handle = .ok (st', some uso))
    (begun : beginEnd { w.nested with state := st' } handle uso = .ok n')
    (alone : handle ∉ stopping w.nested.frames) :
    FreesUnused loaded w ⟨n', recordFree w.nested.state n'.state handle ((w.history.closed handle).ended handle)⟩ ∧
      ∃ loaded', Invariant
        ⟨n', recordFree w.nested.state n'.state handle ((w.history.closed handle).ended handle)⟩ loaded' := by
  obtain ⟨listed, guarded⟩ := invariant
  obtain ⟨r, closeable, member, closes, rfl, gone⟩ := closeTest_tested listed tested
  obtain ⟨rfl, zero⟩ : closeable = true ∧ closedCount r.refCount = 0 := by
    split at gone
    next both => simpa using both
    next => cases gone
  have counting := listed.setRefCount handle (closedCount r.refCount)
  have unused := guarded.unused listed.represents member closes
  have stopped := (guarded.closed member alone).ended alone (mem_withRefCount_self member _) zero
    (mt inUse_withRefCount.mp unused)
  unfold beginEnd at begun
  split at begun
  next => cases begun
  next call first =>
    obtain ⟨safe, after⟩ := Invariant.goOn (n := { w.nested with state := { w.nested.state with
      heap := setRefCount w.nested.state.heap handle (closedCount r.refCount) } }) counting stopped
      (fun running some => endCall_stops (some ▸ first)) begun
    refine ⟨fun a freed => ?_, after⟩
    obtain ⟨own, free⟩ := safe a freed
    rw [recordFree_uses, recordFree_binding]
    exact ⟨own, mt inUse_withRefCount.mpr free⟩

theorem Invariant.returned {w : Watched} (invariant : Invariant w loaded) {frame : Frame} {rest : List Frame} {n' : Nested}
    (top : w.nested.frames = frame :: rest) (returns : returnTo { w.nested with frames := rest } frame = .ok n') :
    FreesUnused loaded w ⟨n', recordFree w.nested.state n'.state frame.handle w.history⟩ ∧
      ∃ loaded', Invariant ⟨n', recordFree w.nested.state n'.state frame.handle w.history⟩ loaded' := by
  obtain ⟨listed, guarded⟩ := invariant
  unfold returnTo at returns
  split at returns
  next => cases returns
  next d stored =>
    split at returns
    next => cases returns
    next call next =>
      have kind : ∀ running, call = some running → running.stops = frame.running.stops :=
        fun running some => nextCall_stops (some ▸ next)
      cases stops : frame.running.stops with
      | false =>
        have frames : stopping w.nested.frames = stopping rest := by simp [stopping, top, stops]
        rw [stops] at returns kind
        obtain ⟨records, same⟩ := goOn_started kind returns
        refine ⟨fun a gone => absurd gone (records.not_freed a), loaded, Invariant.records records listed ?_⟩
        rw [same]
        exact frames ▸ guarded
      | true =>
        have frames : stopping w.nested.frames = frame.handle :: stopping rest := by simp [stopping, top, stops]
        rw [stops] at returns kind
        rw [frames] at guarded
        obtain ⟨safe, after⟩ := Invariant.goOn (n := { w.nested with frames := rest }) listed guarded kind returns
        refine ⟨fun a gone => ?_, after⟩
        rw [recordFree_uses, recordFree_binding]
        exact safe a gone

theorem Invariant.step {w w' : Watched} {move : Move} (invariant : Invariant w loaded) (step : NestedStep w move w')
    (undisturbed : Undisturbed w move) : FreesUnused loaded w w' ∧ ∃ loaded', Invariant w' loaded' := by
  have follows := usoList_eq invariant.listed.represents
  cases step with
  | @opened n' loaded₀ filename file alloc handle ascend fresh seen begun =>
    obtain rfl := (invariant.listed.represents.seen seen).symm
    obtain ⟨leaves, room⟩ := undisturbed loaded follows
    obtain ⟨st', returned, records, same⟩ := beginOpen_opened begun
    obtain ⟨loaded', result, listed'⟩ := usoOpen_result invariant.listed fresh returned
    refine ⟨fun a gone => absurd gone (records.not_freed a), loaded', records.listed listed', ?_⟩
    rw [records.globals, result.globals, same]
    exact invariant.guarded.opened invariant.listed ascend fresh leaves room result
  | kept tested => exact invariant.kept tested (undisturbed loaded follows).1
  | ended tested begun => exact invariant.ended tested begun (undisturbed loaded follows).1
  | returned top returns => exact invariant.returned top returns

end

theorem invariant_start (memory : Memory) (globalSymFile : Bytes) : Invariant (nestedStart memory globalSymFile) [] where
  listed := initialState_listed memory globalSymFile
  guarded :=
    { found := fun _ member => absurd member List.not_mem_nil
      provided := fun _ member => absurd member List.not_mem_nil
      counts := fun _ member => absurd member List.not_mem_nil
      distinct := List.nodup_nil
      condemned := fun _ member => absurd member List.not_mem_nil
      fresh := fun _ member => absurd member List.not_mem_nil
      once := fun _ => ⟨Nat.zero_le 1, Nat.zero_le 1⟩ }

/-- In every run in which calls leave the USOs being stopped alone, nested to any depth, no USO is ended
or freed twice for one load, and what is freed is neither open nor in use. -/
theorem callbacks_safe {memory : Memory} {globalSymFile : Bytes} {moves : List Move} {w : Watched}
    (always : Always NestedStep Undisturbed (nestedStart memory globalSymFile) moves w) :
    (∀ a, w.history.ends a ≤ 1 ∧ w.history.frees a ≤ 1) ∧
    ∀ move w' loaded, NestedStep w move w' → Undisturbed w move → usoList w.nested.state = .ok loaded →
      FreesUnused loaded w w' := by
  have kept : ∀ w move w', NestedStep w move w' → Undisturbed w move → (∃ loaded, Invariant w loaded) →
      ∃ loaded, Invariant w' loaded := by
    rintro w move w' step undisturbed ⟨loaded, invariant⟩
    exact (invariant.step step undisturbed).2
  obtain ⟨loaded₀, invariant⟩ := always.invariant kept ⟨[], invariant_start memory globalSymFile⟩
  refine ⟨invariant.guarded.once, fun move w' loaded step undisturbed seen => ?_⟩
  obtain rfl := invariant.listed.represents.seen seen
  exact (invariant.step step undisturbed).1

/-! A library with an `_epilog`, closed after one open. In the first run its `_epilog` opens the library
again, in the second another one. -/

def againElf : Elf := sampleElf [nullSymbol, epilogSymbol] (by decide)

def againTool : Elf2uso := sampleTool againElf [] [exportSymbol 1 epilogSymbol 1]

def againFile : Bytes := usoWrite againTool [97]

/-- What a call that returns leaves. -/
def outcome {α : Type} (other : α) : Except Fault α → α
  | .ok value => value
  | .error _ => other

theorem eq_outcome {α : Type} {result : Except Fault α} (returns : result.isOk) (other : α) :
    result = .ok (outcome other result) := by
  cases result with
  | error fault => cases returns
  | ok value => rfl

def beginning : Watched := nestedStart (fun _ => 0) []

@[irreducible] def againOpen : Nested :=
  (outcome (beginning.nested, 0) (beginOpen beginning.nested [97] (some againFile) libraryAlloc)).1

@[irreducible] def againClosing : Nested := outcome againOpen (beginClose againOpen 0x80100000)

/-- The `_epilog` opens its own library. -/
@[irreducible] def againReopened : Nested := (outcome (againClosing, 0) (beginOpen againClosing [97] none libraryAlloc)).1

@[irreducible] def againFreed : Nested :=
  outcome againReopened (returnTo { againReopened with frames := [] } ⟨0x80100000, .epilog⟩)

/-- A begun open with the handle it returns. -/
theorem beginOpen_outcome {n : Nested} {filename : Bytes} {file : Option Bytes} {alloc : Allocation} {handle : U32}
    (returns : (beginOpen n filename file alloc).map Prod.snd = .ok handle) :
    beginOpen n filename file alloc = .ok ((outcome (n, 0) (beginOpen n filename file alloc)).1, handle) := by
  cases call : beginOpen n filename file alloc with
  | error fault =>
    rw [call] at returns
    cases returns
  | ok begun =>
    rw [call] at returns
    cases returns
    rfl

/-- A close that goes past its test ends the USO. -/
theorem NestedStep.ended_begun {w : Watched} {handle : U32} {n' : Nested}
    (ends : (closeTest w.nested.state handle).map (fun tested => tested.2.isSome) = .ok true)
    (begun : beginClose w.nested handle = .ok n') :
    NestedStep w (.call (.usoClose handle))
      ⟨n', recordFree w.nested.state n'.state handle ((w.history.closed handle).ended handle)⟩ := by
  unfold beginClose at begun
  cases tested : closeTest w.nested.state handle with
  | error fault => simp [tested] at begun
  | ok result =>
    obtain ⟨st', ended⟩ := result
    cases ended with
    | none =>
      rw [tested] at ends
      cases ends
    | some uso =>
      simp only [tested] at begun
      exact .ended tested begun

def openHistory : History := beginning.history.opened [] [97] 0x80100000

def closingHistory : History :=
  recordFree againOpen.state againClosing.state 0x80100000 ((openHistory.closed 0x80100000).ended 0x80100000)

theorem againOpen_step :
    NestedStep beginning (.call (.usoOpen [97] (some againFile) libraryAlloc)) ⟨againOpen, openHistory⟩ := by
  have none : usoList beginning.nested.state = .ok [] := by decide +kernel
  have ascend : ImportsAscend againFile := by
    unfold ImportsAscend AscendingTable
    decide +kernel
  refine .opened (fun _ same => Option.some.inj same ▸ ascend) (fun _ _ => ⟨by decide, List.not_mem_nil⟩) none ?_
  unfold againOpen
  exact beginOpen_outcome (by decide +kernel)

theorem againClosing_step :
    NestedStep ⟨againOpen, openHistory⟩ (.call (.usoClose 0x80100000)) ⟨againClosing, closingHistory⟩ := by
  refine .ended_begun (by decide +kernel) ?_
  unfold againClosing
  exact eq_outcome (by decide +kernel) _

def reopenedHistory : History := closingHistory.opened (loadedAt againClosing.state) [97] 0x80100000

def freedHistory : History := recordFree againReopened.state againFreed.state 0x80100000 reopenedHistory

/-- The library is freed although it has been opened again. -/
theorem againFreed_open :
    (∀ sort, elf2uso sort againElf = .ok againTool) ∧
    ∃ w w', Run NestedStep beginning
        [.call (.usoOpen [97] (some againFile) libraryAlloc), .call (.usoClose 0x80100000),
          .call (.usoOpen [97] none libraryAlloc)] w ∧
      NestedStep w .returned w' ∧ usoList w.nested.state = .ok (loadedAt w.nested.state) ∧
      w'.history.uses 0x80100000 = some [.opened, .closed, .opened] ∧
      ¬ FreesUnused (loadedAt w.nested.state) w w' := by
  have made : ∀ sort, elf2uso sort againElf = .ok againTool := fun sort =>
    elf2uso_sampleTool (by decide +kernel) (by decide +kernel) (by decide) (by decide)
  obtain ⟨closing, opens, ends⟩ : (usoList againClosing.state).isOk ∧
      (beginOpen againClosing [97] none libraryAlloc).map Prod.snd = .ok 0x80100000 ∧
      (returnTo { againReopened with frames := [] } ⟨0x80100000, .epilog⟩).isOk := by decide +kernel
  obtain ⟨listed, top, uses, freed⟩ : (usoList againReopened.state).isOk ∧
      againReopened.frames = [⟨0x80100000, .epilog⟩] ∧
      freedHistory.uses 0x80100000 = some [.opened, .closed, .opened] ∧
      Freed againReopened.state againFreed.state 0x80100000 := by decide +kernel
  have reopened : beginOpen againClosing [97] none libraryAlloc = .ok (againReopened, 0x80100000) := by
    unfold againReopened
    exact beginOpen_outcome opens
  have returns : returnTo { againReopened with frames := [] } ⟨0x80100000, .epilog⟩ = .ok againFreed := by
    unfold againFreed
    exact eq_outcome ends _
  have third : NestedStep ⟨againClosing, closingHistory⟩ (.call (.usoOpen [97] none libraryAlloc))
      ⟨againReopened, reopenedHistory⟩ := .opened (by simp) (by simp) (usoList_loadedAt closing) reopened
  have last : NestedStep ⟨againReopened, reopenedHistory⟩ .returned ⟨againFreed, freedHistory⟩ :=
    NestedStep.returned (w := ⟨againReopened, reopenedHistory⟩) top returns
  refine ⟨made, _, _, .next againOpen_step (.next againClosing_step (.next third (.done _))), last,
    usoList_loadedAt listed, uses, fun safe => ?_⟩
  obtain ⟨⟨own, history, none⟩, -⟩ := safe 0x80100000 freed
  rw [uses, Option.some.injEq] at history
  rw [← history] at none
  exact absurd none (by decide)

/-- The `_epilog` opens another library instead. -/
@[irreducible] def otherOpened : Nested :=
  (outcome (againClosing, 0) (beginOpen againClosing [108] (some libraryFile) programAlloc)).1

@[irreducible] def otherFreed : Nested :=
  outcome otherOpened (returnTo { otherOpened with frames := [] } ⟨0x80100000, .epilog⟩)

theorem undisturbed_of {w : Watched} {loaded : Registry} (seen : usoList w.nested.state = .ok loaded) (call : Call)
    (leaves : LeavesAlone w.nested.state loaded (stopping w.nested.frames) call) (room : RoomFor loaded call) :
    Undisturbed w (.call call) := by
  intro other follows
  rw [seen, Except.ok.injEq] at follows
  exact follows ▸ ⟨leaves, room⟩

def otherHistory : History := closingHistory.opened (loadedAt againClosing.state) [108] 0x80110000

/-- Nothing is bound to the library that is being stopped. -/
theorem otherOpened_always :
    Always NestedStep Undisturbed beginning
      [.call (.usoOpen [97] (some againFile) libraryAlloc), .call (.usoClose 0x80100000),
        .call (.usoOpen [108] (some libraryFile) programAlloc)] ⟨otherOpened, otherHistory⟩ := by
  have none : usoList beginning.nested.state = .ok [] := by decide +kernel
  obtain ⟨opened, running⟩ : (usoList againOpen.state).isOk ∧ 0x80100000 ∉ stopping againOpen.frames := by decide +kernel
  obtain ⟨closing, opens, new, other, few⟩ : (usoList againClosing.state).isOk ∧
      (beginOpen againClosing [108] (some libraryFile) programAlloc).map Prod.snd = .ok 0x80110000 ∧
      0x80110000 ∉ againClosing.state.heap ∧
      usoGetHandle (loadedAt againClosing.state) [108] ∉ stopping againClosing.frames ∧
      ∀ h ∈ loadedAt againClosing.state, h.2.refCount ≠ 0xFFFFFFFF := by decide +kernel
  have unbound : fileImports libraryFile = [] := by decide +kernel
  have begun : beginOpen againClosing [108] (some libraryFile) programAlloc = .ok (otherOpened, 0x80110000) := by
    unfold otherOpened
    exact beginOpen_outcome opens
  have third : NestedStep ⟨againClosing, closingHistory⟩ (.call (.usoOpen [108] (some libraryFile) programAlloc))
      ⟨otherOpened, otherHistory⟩ :=
    .opened (fun _ same => Option.some.inj same ▸ importsAscend_made libraryFile_made) (fun _ _ => ⟨by decide, new⟩)
      (usoList_loadedAt closing) begun
  have first := undisturbed_of (w := beginning) none (.usoOpen [97] (some againFile) libraryAlloc)
    ⟨List.not_mem_nil, fun _ _ _ _ _ _ _ _ => List.not_mem_nil⟩ fun _ member => absurd member List.not_mem_nil
  have second := undisturbed_of (w := ⟨againOpen, openHistory⟩) (usoList_loadedAt opened) (.usoClose 0x80100000) running
    trivial
  have last := undisturbed_of (w := ⟨againClosing, closingHistory⟩) (usoList_loadedAt closing)
    (.usoOpen [108] (some libraryFile) programAlloc)
    ⟨other, fun bytes same _ _ s imported => by
      obtain rfl := Option.some.inj same
      rw [unbound] at imported
      cases imported⟩
    fun h member _ => few h member
  exact .next againOpen_step first (.next againClosing_step second (.next third last (.done _)))

theorem callbacks_safe_other :
    ∃ w w', NestedStep w .returned w' ∧ Freed w.nested.state w'.nested.state 0x80100000 ∧
      (∀ a, w.history.ends a ≤ 1 ∧ w.history.frees a ≤ 1) ∧ FreesUnused (loadedAt w.nested.state) w w' := by
  obtain ⟨ends, top, freed, listed⟩ :
      (returnTo { otherOpened with frames := [] } ⟨0x80100000, .epilog⟩).isOk ∧
      otherOpened.frames = [⟨0x80100000, .epilog⟩] ∧ Freed otherOpened.state otherFreed.state 0x80100000 ∧
      (usoList otherOpened.state).isOk := by decide +kernel
  have returns : returnTo { otherOpened with frames := [] } ⟨0x80100000, .epilog⟩ = .ok otherFreed := by
    unfold otherFreed
    exact eq_outcome ends _
  have step := NestedStep.returned (w := ⟨otherOpened, otherHistory⟩) top returns
  obtain ⟨once, frees⟩ := callbacks_safe otherOpened_always
  exact ⟨_, _, step, freed, once, frees _ _ _ step trivial (usoList_loadedAt listed)⟩

end DragonUso.CallbackSafety
