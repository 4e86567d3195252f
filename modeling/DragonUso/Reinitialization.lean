import DragonUso.LifeCycle

/-! Calling `uso_init` again. It forgets the list without closing anything, so the handles that were in
the list are abandoned: they stay allocated, and no later call accepts, stops or frees them. -/

namespace DragonUso.Reinitialization
open ByteOrder WordMemory Format LoaderImage Relocation SymbolSearch Loader HandleList LoaderSteps Runs ListConsistency
open OpenBinding LifeCycle

/-! ### Runs -/

inductive ApiCall where
  | call (call : Call)
  | usoInit (globalSymFile : Bytes)

/-- The state with the handles that were in the list when `uso_init` was called. -/
structure Abandoning where
  state : LoaderState
  abandoned : List U32

inductive ApiStep (allowed : Bytes → Prop) : Abandoning → ApiCall → Abandoning → Prop where
  | call {t : Abandoning} {call : Call} {st' : LoaderState} : CallStep allowed t.state call st' →
    ApiStep allowed t (.call call) ⟨st', t.abandoned⟩
  | usoInit {t : Abandoning} {loaded : Registry} (globalSymFile : Bytes) : usoList t.state = .ok loaded →
    ApiStep allowed t (.usoInit globalSymFile) ⟨usoInit t.state globalSymFile, t.abandoned ++ loaded.map Prod.fst⟩

/-- Before the first `uso_init`. -/
def powerOn (memory : Memory) : Abandoning where
  state := { initted := false, globalSyms := none, heap := ∅, head := 0, tail := 0, memory := memory, events := [] }
  abandoned := []

/-! ### What calls do to the heap -/

theorem mem_addUso {st next : LoaderState} {handle : U32} {contents : UsoRecord}
    (added : addUso st handle contents = .ok next) (a : U32) : a ∈ next.heap ↔ a = handle ∨ a ∈ st.heap := by
  unfold addUso at added
  dsimp only at added
  split at added
  next => cases added
  next =>
    cases added
    simp only [insertUso, setNext, setPrev, mem_modifyHandle]
    split <;> simp [AList.mem_insert]

theorem mem_unloadUso {st next : LoaderState} {handle : U32} {uso : LoadedUso}
    (unloaded : unloadUso st handle uso = .ok next) (a : U32) : a ∈ next.heap ↔ a ≠ handle ∧ a ∈ st.heap := by
  unfold unloadUso at unloaded
  split at unloaded
  next => cases unloaded
  next =>
    cases unloaded
    simp only [removeUso, AList.mem_erase]
    split <;> split <;> simp [setNext, setPrev]

theorem mem_without_handles {loaded : Registry} {handle a : U32} :
    a ∈ (without loaded handle).map Prod.fst ↔ a ∈ loaded.map Prod.fst ∧ a ≠ handle := by
  simp only [List.mem_map, mem_without]
  constructor
  · rintro ⟨h, ⟨member, other⟩, rfl⟩
    exact ⟨⟨h, member, rfl⟩, other⟩
  · rintro ⟨⟨h, member, rfl⟩, other⟩
    exact ⟨h, ⟨member, other⟩, rfl⟩

/-! The events of a start and of an end are under the handle they are for. -/

theorem ctorLoop_handle (memory : Memory) (handle start : U32) (fuel : Nat) (curr : U32) :
    ∀ e ∈ ctorLoop memory handle start fuel curr, Event.handle e = handle := by
  induction fuel generalizing curr with
  | zero => exact fun _ member => absurd member List.not_mem_nil
  | succ fuel ih =>
    unfold ctorLoop
    split
    next => exact List.forall_mem_cons.mpr ⟨rfl, ih _⟩
    next => exact fun _ member => absurd member List.not_mem_nil

theorem dtorLoop_handle (memory : Memory) (handle stop : U32) (fuel : Nat) (curr : U32) :
    ∀ e ∈ dtorLoop memory handle stop fuel curr, Event.handle e = handle := by
  induction fuel generalizing curr with
  | zero => exact fun _ member => absurd member List.not_mem_nil
  | succ fuel ih =>
    unfold dtorLoop
    split
    next => exact List.forall_mem_cons.mpr ⟨rfl, ih _⟩
    next => exact fun _ member => absurd member List.not_mem_nil

theorem forall_mem_guarded {handle : U32} {c : Prop} [Decidable c] {events : List Event}
    (own : ∀ e ∈ events, Event.handle e = handle) : ∀ e ∈ if c then events else [], Event.handle e = handle := by
  split
  · exact own
  · exact fun _ member => absurd member List.not_mem_nil

theorem startUso_handle {memory : Memory} {handle : U32} {uso : LoadedUso} {events : List Event}
    (started : startUso memory handle uso = .ok events) : ∀ e ∈ events, Event.handle e = handle := by
  unfold startUso at started
  split at started
  next => cases started
  next =>
    split at started
    next => cases started
    next =>
      rw [Except.ok.injEq] at started
      rw [← started]
      refine List.forall_mem_append.mpr ⟨?_, List.forall_mem_append.mpr ⟨?_, ?_⟩⟩
      · exact forall_mem_guarded (List.forall_mem_singleton.mpr rfl)
      · exact forall_mem_guarded (ctorLoop_handle _ _ _ _ _)
      · exact forall_mem_guarded (List.forall_mem_singleton.mpr rfl)

theorem endUso_handle {memory : Memory} {handle : U32} {uso : LoadedUso} {events : List Event}
    (ended : endUso memory handle uso = .ok events) : ∀ e ∈ events, Event.handle e = handle := by
  unfold endUso at ended
  split at ended
  next => cases ended
  next =>
    split at ended
    next => cases ended
    next =>
      rw [Except.ok.injEq] at ended
      rw [← ended]
      refine List.forall_mem_append.mpr ⟨?_, List.forall_mem_append.mpr ⟨List.forall_mem_append.mpr ⟨?_, ?_⟩, ?_⟩⟩
      · exact forall_mem_guarded (List.forall_mem_singleton.mpr rfl)
      · exact forall_mem_guarded (List.forall_mem_singleton.mpr rfl)
      · exact forall_mem_guarded (dtorLoop_handle _ _ _ _ _)
      · exact forall_mem_guarded (List.forall_mem_singleton.mpr rfl)

/-! ### One call -/

/-- What a call does to the heap: it holds the handles in the list, and what else it held. Nothing is
recorded under a handle that is not in the list afterwards or before. -/
structure CallKeeps (st st' : LoaderState) (loaded loaded' : Registry) : Prop where
  heap : ∀ a, a ∈ st'.heap ↔ a ∈ loaded'.map Prod.fst ∨ a ∈ st.heap ∧ a ∉ loaded.map Prod.fst
  idle : ∀ a ∈ st.heap, a ∉ loaded.map Prod.fst →
    a ∉ loaded'.map Prod.fst ∧ eventsOf a st'.events = eventsOf a st.events

section
variable {st st' : LoaderState} {loaded loaded' : Registry}

/-- A call that leaves the handles and the events as they are. -/
theorem CallKeeps.same (listed : ListedState st loaded) (heap : ∀ a, a ∈ st'.heap ↔ a ∈ st.heap)
    (events : st'.events = st.events) (handles : loaded'.map Prod.fst = loaded.map Prod.fst) :
    CallKeeps st st' loaded loaded' where
  heap a := by
    rw [heap, handles]
    constructor
    · intro inHeap
      by_cases inList : a ∈ loaded.map Prod.fst
      · exact .inl inList
      · exact .inr ⟨inHeap, inList⟩
    · rintro (inList | ⟨inHeap, -⟩)
      · obtain ⟨h, member, rfl⟩ := List.mem_map.mp inList
        exact listed.represents.mem_heap member
      · exact inHeap
  idle a _ other := by
    rw [handles, events]
    exact ⟨other, rfl⟩

theorem OpenResult.keeps (listed : ListedState st loaded) {filename : Bytes} {file : Option Bytes} {alloc : Allocation}
    {handle : U32} (fresh : ∀ bytes, file = some bytes → FreshHandle st alloc.handle)
    (result : OpenResult st loaded filename file alloc st' handle loaded') : CallKeeps st st' loaded loaded' := by
  cases result with
  | reopened h => exact .same listed (fun a => mem_modifyHandle) rfl (withRefCount_handles ..)
  | missing => exact .same listed (fun _ => Iff.rfl) rfl rfl
  | unresolved => exact .same listed (fun _ => Iff.rfl) rfl rfl
  | opened bytes linked next notLoaded found resolved links added =>
    have own := fresh bytes found
    have linking : ListedState { st with memory := linked } loaded :=
      ⟨listed.represents.congr rfl rfl rfl, listed.initted⟩
    obtain ⟨-, -, -, events, started, recorded⟩ := addUso_returned linking ⟨own.nonnull, own.fresh⟩ added
    have handles : ∀ a, a ∈ (loaded ++ [(alloc.handle, openedRecord st loaded filename bytes alloc)]).map Prod.fst ↔
        a ∈ loaded.map Prod.fst ∨ a = alloc.handle := by simp
    refine ⟨fun a => ?_, fun a inHeap other => ?_⟩
    · rw [mem_addUso added, handles]
      constructor
      · rintro (new | inHeap)
        · exact .inl (.inr new)
        · by_cases inList : a ∈ loaded.map Prod.fst
          · exact .inl (.inl inList)
          · exact .inr ⟨inHeap, inList⟩
      · rintro ((inList | new) | ⟨inHeap, -⟩)
        · obtain ⟨h, member, rfl⟩ := List.mem_map.mp inList
          exact .inr (listed.represents.mem_heap member)
        · exact .inl new
        · exact .inr inHeap
    · have different : alloc.handle ≠ a := fun same => own.fresh (same ▸ inHeap)
      refine ⟨fun inList => ((handles a).mp inList).elim other fun new => different new.symm, ?_⟩
      rw [recorded, eventsOf_append, eventsOf_other different (startUso_handle started), List.append_nil]

theorem CloseResult.keeps (listed : ListedState st loaded) {handle : U32}
    (result : CloseResult st loaded handle st' loaded') : CallKeeps st st' loaded loaded' := by
  cases result with
  | kept r => exact .same listed (fun a => mem_modifyHandle) rfl (withRefCount_handles ..)
  | unloaded r next member closes counted unloaded =>
    have counting := listed.setRefCount handle (closedCount r.refCount)
    obtain ⟨-, -, -, events, ended, recorded⟩ :=
      unloadUso_returned counting (mem_withRefCount_self member (closedCount r.refCount)) unloaded
    have inList : handle ∈ loaded.map Prod.fst := List.mem_map_of_mem member
    have counted : ∀ a, a ∈ setRefCount st.heap handle (closedCount r.refCount) ↔ a ∈ st.heap := fun a => mem_modifyHandle
    refine ⟨fun a => ?_, fun a inHeap other => ?_⟩
    · rw [mem_unloadUso unloaded, mem_without_handles, counted]
      constructor
      · rintro ⟨different, inHeap⟩
        by_cases listedToo : a ∈ loaded.map Prod.fst
        · exact .inl ⟨listedToo, different⟩
        · exact .inr ⟨inHeap, listedToo⟩
      · rintro (⟨listedToo, different⟩ | ⟨inHeap, other⟩)
        · obtain ⟨h, member', rfl⟩ := List.mem_map.mp listedToo
          exact ⟨different, listed.represents.mem_heap member'⟩
        · exact ⟨fun same => other (same ▸ inList), inHeap⟩
    · have different : handle ≠ a := fun same => other (same ▸ inList)
      refine ⟨fun inRest => other (mem_without_handles.mp inRest).1, ?_⟩
      have leaves : ∀ e ∈ [Event.unlinked handle, .freed handle], Event.handle e = handle :=
        List.forall_mem_cons.mpr ⟨rfl, List.forall_mem_singleton.mpr rfl⟩
      rw [recorded, eventsOf_append, eventsOf_append, eventsOf_other different (endUso_handle ended),
        eventsOf_other different leaves, List.append_nil, List.append_nil]

theorem callStep_keeps {allowed : Bytes → Prop} (listed : ListedState st loaded) {call : Call}
    (step : CallStep allowed st call st') : ∃ loaded', ListedState st' loaded' ∧ CallKeeps st st' loaded loaded' := by
  cases step with
  | opened kind fresh returned =>
    obtain ⟨loaded', result, listed'⟩ := usoOpen_result listed fresh returned
    exact ⟨loaded', listed', OpenResult.keeps listed fresh result⟩
  | closed returned =>
    obtain ⟨loaded', result, listed'⟩ := usoClose_result listed returned
    exact ⟨loaded', listed', CloseResult.keeps listed result⟩

/-- Nothing can be called before `uso_init`. -/
theorem callStep_initted {allowed : Bytes → Prop} (represents : Represents st loaded)
    (start : st.initted = true ∨ loaded = []) {call : Call} (step : CallStep allowed st call st') : st.initted = true := by
  rcases start with initted | rfl
  · exact initted
  · cases step with
    | opened kind fresh returned =>
      apply Decidable.byContradiction
      intro notYet
      rw [usoOpen, if_pos (Bool.eq_false_iff.mpr notYet)] at returned
      cases returned
    | closed returned =>
      rw [usoClose, usoList_eq represents] at returned
      cases returned

end

/-! ### Whole runs -/

/-- Every handle in the heap is in the list or was abandoned, and none is both. -/
structure Accounted (t : Abandoning) (loaded : Registry) : Prop where
  represents : Represents t.state loaded
  start : t.state.initted = true ∨ loaded = []
  heap : ∀ a, a ∈ t.state.heap ↔ a ∈ loaded.map Prod.fst ∨ a ∈ t.abandoned
  apart : ∀ a ∈ t.abandoned, a ∉ loaded.map Prod.fst

/-- `uso_init` leaves the list empty, whatever was in it. -/
theorem usoInit_listed (st : LoaderState) (globalSymFile : Bytes) : ListedState (usoInit st globalSymFile) [] where
  represents := by
    refine ⟨⟨List.nodup_nil, List.not_mem_nil, rfl, rfl, trivial⟩, ?_⟩
    exact fun h member => absurd member List.not_mem_nil
  initted := rfl

theorem powerOn_accounted (memory : Memory) : Accounted (powerOn memory) [] where
  represents := (initialState_listed memory []).represents.congr rfl rfl rfl
  start := .inr rfl
  heap a := by
    have empty : a ∉ (powerOn memory).state.heap := List.not_mem_nil
    constructor
    · exact fun inHeap => absurd inHeap empty
    · rintro (none | none) <;> exact absurd none List.not_mem_nil
  apart := fun _ member => absurd member List.not_mem_nil

/-- What one call does: handles stay accounted for, and those that were abandoned are left alone. -/
theorem ApiStep.accounted {allowed : Bytes → Prop} {t t' : Abandoning} {call : ApiCall} {loaded : Registry}
    (step : ApiStep allowed t call t') (accounted : Accounted t loaded) :
    (∃ loaded', Accounted t' loaded') ∧ ∀ a ∈ t.abandoned, a ∈ t'.abandoned ∧
      eventsOf a t'.state.events = eventsOf a t.state.events := by
  obtain ⟨represents, start, heap, apart⟩ := accounted
  cases step with
  | @call call st' step =>
    obtain ⟨loaded', listed', keeps⟩ := callStep_keeps ⟨represents, callStep_initted represents start step⟩ step
    have idle : ∀ a, a ∈ t.abandoned ↔ a ∈ t.state.heap ∧ a ∉ loaded.map Prod.fst := by
      intro a
      rw [heap]
      exact ⟨fun left => ⟨.inr left, apart a left⟩, fun both => both.1.resolve_left both.2⟩
    refine ⟨⟨loaded', listed'.represents, .inl listed'.initted, fun a => ?_, fun a left => ?_⟩, fun a left => ⟨left, ?_⟩⟩
    · rw [idle]
      exact keeps.heap a
    · obtain ⟨inHeap, other⟩ := (idle a).mp left
      exact (keeps.idle a inHeap other).1
    · obtain ⟨inHeap, other⟩ := (idle a).mp left
      exact (keeps.idle a inHeap other).2
  | @usoInit seen globalSymFile listed =>
    obtain rfl := represents.seen listed
    have cleared := usoInit_listed t.state globalSymFile
    refine ⟨⟨[], cleared.represents, .inl cleared.initted, fun a => ?_, fun _ _ => List.not_mem_nil⟩, fun a left => ?_⟩
    · constructor
      · exact fun inHeap => .inr (List.mem_append.mpr ((heap a).mp inHeap).symm)
      · rintro (none | left)
        · exact absurd none List.not_mem_nil
        · exact (heap a).mpr (List.mem_append.mp left).symm
    · exact ⟨List.mem_append_left _ left, rfl⟩

/-- In every state a run with any number of calls of `uso_init` reaches, the heap holds the handles in the
list and those that were in it when `uso_init` was called, and no others. Abandoned handles are never
valid again, and nothing is ever recorded for them again: no destructor, no `_epilog`, no free. -/
theorem usoInit_abandons {allowed : Bytes → Prop} {memory : Memory} {calls : List ApiCall} {t : Abandoning}
    (run : Run (ApiStep allowed) (powerOn memory) calls t) :
    ∃ loaded, usoList t.state = .ok loaded ∧
      (∀ a, a ∈ t.state.heap ↔ a ∈ loaded.map Prod.fst ∨ a ∈ t.abandoned) ∧
      ∀ a ∈ t.abandoned, ∀ later t', Run (ApiStep allowed) t later t' →
        usoIsHandleValid t'.state a = .ok false ∧ usoClose t'.state a = .error .invalidHandle ∧
        (a ≠ USO_HANDLE_ANY → ∀ name, usoSym t'.state a name = .error .invalidHandle) ∧
        eventsOf a t'.state.events = eventsOf a t.state.events := by
  obtain ⟨loaded, accounted⟩ := run.invariant (P := fun t => ∃ loaded, Accounted t loaded)
    (fun _ _ _ step ⟨_, before⟩ => (step.accounted before).1) ⟨[], powerOn_accounted memory⟩
  refine ⟨loaded, usoList_eq accounted.represents, accounted.heap, ?_⟩
  intro a left later t' rest
  obtain ⟨⟨loaded', accounted'⟩, left', quiet⟩ := rest.invariant
    (P := fun s => (∃ loaded, Accounted s loaded) ∧ a ∈ s.abandoned ∧ eventsOf a s.state.events = eventsOf a t.state.events)
    (fun s _ s' step ⟨⟨_, before⟩, left, quiet⟩ =>
      have after := step.accounted before
      ⟨after.1, (after.2 a left).1, (after.2 a left).2.trans quiet⟩)
    ⟨⟨loaded, accounted⟩, left, rfl⟩
  have listed := usoList_eq accounted'.represents
  have absent := accounted'.apart a left'
  have missing : loaded'.find? (fun h => h.1 == a) = none := by
    refine List.find?_eq_none.mpr fun h member same => absent ?_
    exact beq_iff_eq.mp same ▸ List.mem_map_of_mem member
  refine ⟨?_, ?_, fun single name => ?_, quiet⟩
  · simp only [usoIsHandleValid, listed]
    refine congrArg Except.ok (List.any_eq_false.mpr fun h member same => absent ?_)
    exact beq_iff_eq.mp same ▸ List.mem_map_of_mem member
  · simp only [usoClose, listed, missing]
  · simp only [usoSym, listed, if_neg single, missing]

/-- The library is opened, and then `uso_init` is called again. -/
theorem run_libraryAbandoned :
    ∃ t, t.abandoned = [0x80100000] ∧ Run (ApiStep fun bytes => bytes = libraryFile) (powerOn fun _ => 0)
      [.usoInit [], .call (.usoOpen [108] (some libraryFile) libraryAlloc), .usoInit []] t := by
  have opened : CallStep (fun bytes => bytes = libraryFile) (initialState (fun _ => 0) [])
      (.usoOpen [108] (some libraryFile) libraryAlloc) libraryOpen :=
    .opened (fun _ same => (Option.some.inj same).symm)
      (fun _ _ => libraryAlloc_fresh.freshHandle) usoOpen_library
  have none : usoList (powerOn fun _ => 0).state = .ok [] := by decide +kernel
  have listed : usoList libraryOpen = .ok (loadedAt libraryOpen) := usoList_loadedAt (by decide +kernel)
  have handles : (loadedAt libraryOpen).map Prod.fst = [0x80100000] := by decide +kernel
  have second := @ApiStep.usoInit (fun bytes => bytes = libraryFile) ⟨libraryOpen, []⟩ _ [] listed
  refine ⟨_, ?_, .next (.usoInit [] none) (.next (.call opened) (.next second (.done _)))⟩
  exact handles

theorem usoInit_abandons_library :
    ∃ t, t.abandoned = [0x80100000] ∧ ∃ loaded, usoList t.state = .ok loaded ∧
      (∀ a, a ∈ t.state.heap ↔ a ∈ loaded.map Prod.fst ∨ a ∈ t.abandoned) ∧
      ∀ a ∈ t.abandoned, ∀ later t', Run (ApiStep fun bytes => bytes = libraryFile) t later t' →
        usoIsHandleValid t'.state a = .ok false ∧ usoClose t'.state a = .error .invalidHandle ∧
        (a ≠ USO_HANDLE_ANY → ∀ name, usoSym t'.state a name = .error .invalidHandle) ∧
        eventsOf a t'.state.events = eventsOf a t.state.events := by
  obtain ⟨t, abandoned, run⟩ := run_libraryAbandoned
  exact ⟨t, abandoned, usoInit_abandons run⟩

end DragonUso.Reinitialization
