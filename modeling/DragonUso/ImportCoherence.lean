import DragonUso.ImportsAlive

/-! Imports and searches agree. Loading appends and unloading takes away only what nobody has a
pointer into, so the search that bound an import to a USO goes on giving the same answer. -/

namespace DragonUso.ImportCoherence
open ByteOrder WordMemory Format LoaderImage Relocation SymbolSearch Loader HandleList LoaderSteps OpenBinding Runs
open ImportsAlive

/-! ### The first exporter -/

/-- The first USO in load order that has an address for the name. -/
def firstExporter (loaded : Registry) (name : Bytes) : Option (U32 × LoadedUso) :=
  (loaded.find? fun h => searchSymbolTable h.2.uso.exportSyms name != 0).map fun h => (h.1, h.2.uso)

theorem exporterOf_eq (loaded : Registry) (name : Bytes) :
    exporterOf loaded name = (firstExporter loaded name).map Prod.fst := by
  unfold exporterOf firstExporter
  rw [Option.map_map]
  rfl

theorem firstExporter_search {loaded : Registry} {name : Bytes} {first : U32 × LoadedUso}
    (found : firstExporter loaded name = some first) :
    searchExports loaded name = searchSymbolTable first.2.exportSyms name ∧ searchExports loaded name ≠ 0 := by
  obtain ⟨h, here, rfl⟩ := Option.map_eq_some_iff.mp found
  have exported := List.find?_some here
  rw [searchExports_eq_find, here]
  exact ⟨rfl, by simpa using exported⟩

theorem firstExporter_withRefCount (loaded : Registry) (handle count : U32) (name : Bytes) :
    firstExporter (withRefCount loaded handle count) name = firstExporter loaded name := by
  unfold firstExporter withRefCount
  rw [List.find?_map, Option.map_map]
  have uncounted : (fun h : U32 × UsoRecord => searchSymbolTable h.2.uso.exportSyms name != 0) ∘
      (fun h => if h.1 = handle then (h.1, { h.2 with refCount := count }) else h) =
        fun h => searchSymbolTable h.2.uso.exportSyms name != 0 := by
    funext h
    simp only [Function.comp_apply]
    split <;> rfl
  rw [uncounted]
  congr 1
  funext h
  simp only [Function.comp_apply]
  split <;> rfl

/-- USOs loaded later come later in the search. -/
theorem firstExporter_append {loaded : Registry} {name : Bytes} {first : U32 × LoadedUso}
    (found : firstExporter loaded name = some first) (later : Registry) : firstExporter (loaded ++ later) name = some first := by
  obtain ⟨h, here, rfl⟩ := Option.map_eq_some_iff.mp found
  unfold firstExporter
  rw [List.find?_append, here]
  rfl

/-- A USO without an address for the name is skipped by the search, so it can go. -/
theorem firstExporter_without {loaded : Registry} {handle : U32} {name : Bytes}
    (silent : ∀ h ∈ loaded, h.1 = handle → searchSymbolTable h.2.uso.exportSyms name = 0) :
    firstExporter (without loaded handle) name = firstExporter loaded name := by
  unfold firstExporter
  congr 1
  induction loaded with
  | nil => rfl
  | cons h rest ih =>
    have later := ih fun g member => silent g (List.mem_cons_of_mem _ member)
    unfold without at later ⊢
    by_cases own : h.1 = handle
    · have skipped := silent h List.mem_cons_self own
      rw [List.filter_cons_of_neg (by simp [own]), later, List.find?_cons_of_neg (by simp [skipped])]
    · rw [List.filter_cons_of_pos (by simp [own]), List.find?_cons, List.find?_cons, later]

/-! ### The invariant -/

/-- An import that was bound to a USO is what the search through all USOs finds now, and in that USO;
any other import is what the global table has. -/
def Current (loaded : Registry) (globalSyms : Option (List UsoSymbol)) (binding : Binding) (handle : U32)
    (s : UsoSymbol) : Prop :=
  match binding handle s.name with
  | some exporter =>
    ∃ uso, firstExporter loaded s.name = some (exporter, uso) ∧ searchSymbolTable uso.exportSyms s.name = s.ptr
  | none => searchSymbolTable globalSyms s.name = s.ptr

def AllCurrent (loaded : Registry) (globalSyms : Option (List UsoSymbol)) (binding : Binding) : Prop :=
  ∀ h ∈ loaded, ∀ s ∈ entries h.2.uso.importSyms, s.ptr ≠ 0 → Current loaded globalSyms binding h.1 s

section
variable {loaded loaded' : Registry} {globalSyms : Option (List UsoSymbol)} {binding binding' : Binding} {handle : U32}

/-- An import stays current as long as the first exporter of its name stays the first. -/
theorem Current.transport {s : UsoSymbol} (current : Current loaded globalSyms binding handle s)
    (same : binding' handle s.name = binding handle s.name)
    (kept : ∀ first, firstExporter loaded s.name = some first → firstExporter loaded' s.name = some first) :
    Current loaded' globalSyms binding' handle s := by
  unfold Current at current ⊢
  rw [same]
  cases bound : binding handle s.name with
  | none =>
    rw [bound] at current
    exact current
  | some exporter =>
    rw [bound] at current
    obtain ⟨uso, first, found⟩ := current
    exact ⟨uso, kept _ first, found⟩

/-- What a load binds is current at that moment. -/
theorem search_current (recorded : binding handle = exporterOf loaded) {s : UsoSymbol}
    (bound : s.ptr = searchLoadedSymbols loaded globalSyms s.name true) : Current loaded globalSyms binding handle s := by
  unfold Current
  rw [recorded, exporterOf_eq, bound, searchLoadedSymbols]
  cases found : firstExporter loaded s.name with
  | none =>
    have absent : searchExports loaded s.name = 0 := by
      rw [searchExports_eq_find, Option.map_eq_none_iff.mp found]
    rw [absent, if_neg (not_not_intro rfl), if_pos rfl]
    rfl
  | some first =>
    obtain ⟨same, some⟩ := firstExporter_search found
    rw [if_pos some, same]
    exact ⟨first.2, rfl, rfl⟩

theorem AllCurrent.withRefCount (current : AllCurrent loaded globalSyms binding) (handle count : U32) :
    AllCurrent (withRefCount loaded handle count) globalSyms binding := by
  intro h member s imported pointer
  obtain ⟨r, inList, same, -⟩ := mem_of_mem_withRefCount member
  rw [same] at imported
  refine (current _ inList s imported pointer).transport rfl fun first found => ?_
  rwa [firstExporter_withRefCount]

theorem AllCurrent.added (current : AllCurrent loaded globalSyms binding) (fresh : ∀ h ∈ loaded, h.1 ≠ handle)
    {r : UsoRecord}
    (bound : ∀ s ∈ entries r.uso.importSyms, s.ptr = searchLoadedSymbols loaded globalSyms s.name true) :
    AllCurrent (loaded ++ [(handle, r)]) globalSyms (Function.update binding handle (exporterOf loaded)) := by
  intro h member s imported pointer
  rcases List.mem_append.mp member with old | new
  · refine (current h old s imported pointer).transport ?_ fun first found => firstExporter_append found _
    rw [Function.update_of_ne (fresh h old)]
  · rw [List.mem_singleton.mp new] at imported ⊢
    exact (search_current (Function.update_self _ _ _) (bound s imported)).transport rfl
      fun first found => firstExporter_append found _

theorem AllCurrent.without {st : LoaderState} (sound : SoundState st loaded) (current : AllCurrent loaded globalSyms binding)
    {r : UsoRecord} (member : (handle, r) ∈ loaded) (closes : isUsoCloseable loaded handle r.uso = .ok true) :
    AllCurrent (without loaded handle) globalSyms binding := by
  intro h inRest s imported pointer
  obtain ⟨inList, other⟩ := mem_without.mp inRest
  refine (current h inList s imported pointer).transport rfl fun first found => ?_
  rwa [firstExporter_without]
  -- the USO that goes has no address under a name somebody imported
  intro g inList' own
  obtain rfl : g = (handle, r) := sound.represents.unique inList' member own
  apply Decidable.byContradiction
  intro exported
  exact closeable_unused (sortedImports_of_sound sound) closes inList other imported pointer _
    (searchSymbolTable_exports exported)

theorem AllCurrent.change {st : LoaderState} (sound : SoundState st loaded) {call : Call}
    (current : AllCurrent loaded globalSyms binding) (change : Change globalSyms loaded binding call loaded' binding') :
    AllCurrent loaded' globalSyms binding' := by
  cases change with
  | reopened h => exact current.withRefCount _ _
  | refused => exact current
  | added filename file alloc r _ fresh _ _ bound => exact current.added fresh bound
  | kept handle r => exact current.withRefCount _ _
  | removed handle r member closes => exact current.without sound member closes

end

theorem current_step {t t' : Traced} {call : Call} (step : TracedStep t call t')
    (before : ∃ loaded, SoundState t.state loaded ∧ AllCurrent loaded t.state.globalSyms t.binding) :
    ∃ loaded, SoundState t'.state loaded ∧ AllCurrent loaded t'.state.globalSyms t'.binding := by
  obtain ⟨loaded, sound, current⟩ := before
  obtain ⟨loaded', sound', globals, change⟩ := tracedStep_change sound step
  exact ⟨loaded', sound', globals ▸ current.change sound change⟩

theorem run_current {memory : Memory} {globalSymFile : Bytes} (sorted : SortedTable (readGlobalSyms globalSymFile))
    {calls : List Call} {t : Traced} (run : Run TracedStep (tracedStart memory globalSymFile) calls t) :
    ∃ loaded, SoundState t.state loaded ∧ AllCurrent loaded t.state.globalSyms t.binding :=
  run.invariant (P := fun t => ∃ loaded, SoundState t.state loaded ∧ AllCurrent loaded t.state.globalSyms t.binding)
    (fun _ _ _ step before => current_step step before)
    ⟨[], initialState_sound sorted memory, fun _ member => absurd member List.not_mem_nil⟩

/-- In every state a run reaches, `uso_sym` with `USO_HANDLE_ANY` answers the name of an import that was
bound to a USO with the import's own pointer, from that same USO, however many USOs exporting the
name have come and gone; so all such imports of one name agree. The other imports that are not NULL
have the global table's address. -/
theorem imports_current {memory : Memory} {globalSymFile : Bytes} (sorted : SortedTable (readGlobalSyms globalSymFile))
    {calls : List Call} {t : Traced} (run : Run TracedStep (tracedStart memory globalSymFile) calls t)
    {loaded : Registry} (listed : usoList t.state = .ok loaded) :
    (∀ h ∈ loaded, ∀ s ∈ entries h.2.uso.importSyms, s.ptr ≠ 0 →
      match t.binding h.1 s.name with
      | some exporter => exporterOf loaded s.name = some exporter ∧ usoSym t.state USO_HANDLE_ANY s.name = .ok s.ptr
      | none => searchSymbolTable t.state.globalSyms s.name = s.ptr) ∧
    ∀ g ∈ loaded, ∀ h ∈ loaded, ∀ s ∈ entries g.2.uso.importSyms, ∀ e ∈ entries h.2.uso.importSyms, s.name = e.name →
      s.ptr ≠ 0 → e.ptr ≠ 0 → (t.binding g.1 s.name).isSome → (t.binding h.1 e.name).isSome → s.ptr = e.ptr := by
  obtain ⟨loaded', sound, current⟩ := run_current sorted run
  obtain rfl := sound.represents.seen listed
  have answered : ∀ h ∈ loaded, ∀ s ∈ entries h.2.uso.importSyms, s.ptr ≠ 0 →
      match t.binding h.1 s.name with
      | some exporter => exporterOf loaded s.name = some exporter ∧ usoSym t.state USO_HANDLE_ANY s.name = .ok s.ptr
      | none => searchSymbolTable t.state.globalSyms s.name = s.ptr := by
    intro h member s imported pointer
    have own := current h member s imported pointer
    unfold Current at own
    cases bound : t.binding h.1 s.name with
    | none =>
      rw [bound] at own
      exact own
    | some exporter =>
      rw [bound] at own
      obtain ⟨uso, first, found⟩ := own
      obtain ⟨same, some⟩ := firstExporter_search first
      refine ⟨by rw [exporterOf_eq, first]; rfl, ?_⟩
      rw [usoSym, listed]
      simp only [↓reduceIte, searchLoadedSymbols]
      rw [if_pos some, same, found]
  refine ⟨answered, ?_⟩
  intro g member h member' s imported e imported' same pointer pointer' bound bound'
  obtain ⟨exporter, bound⟩ := Option.isSome_iff_exists.mp bound
  obtain ⟨exporter', bound'⟩ := Option.isSome_iff_exists.mp bound'
  have first := answered g member s imported pointer
  have second := answered h member' e imported' pointer'
  rw [bound] at first
  rw [bound'] at second
  exact Except.ok.inj (first.2.symm.trans (same ▸ second.2))

theorem imports_current_program :
    ∃ binding, Run TracedStep (tracedStart (fun _ => 0) []) openCalls ⟨programOpen, binding⟩ ∧
    (∀ h ∈ loadedAt programOpen, ∀ s ∈ entries h.2.uso.importSyms, s.ptr ≠ 0 →
      match binding h.1 s.name with
      | some exporter =>
        exporterOf (loadedAt programOpen) s.name = some exporter ∧ usoSym programOpen USO_HANDLE_ANY s.name = .ok s.ptr
      | none => searchSymbolTable programOpen.globalSyms s.name = s.ptr) ∧
    ∀ g ∈ loadedAt programOpen, ∀ h ∈ loadedAt programOpen, ∀ s ∈ entries g.2.uso.importSyms,
      ∀ e ∈ entries h.2.uso.importSyms, s.name = e.name → s.ptr ≠ 0 → e.ptr ≠ 0 → (binding g.1 s.name).isSome →
      (binding h.1 e.name).isSome → s.ptr = e.ptr := by
  have sorted : SortedTable (readGlobalSyms []) := by unfold SortedTable; decide
  obtain ⟨binding, run⟩ := exists_traced programOpen_run ⟨[], initialState_sound sorted _⟩ fun _ _ => none
  have listed : usoList programOpen = .ok (loadedAt programOpen) := usoList_loadedAt (by decide +kernel)
  exact ⟨binding, run, imports_current sorted run listed⟩

end DragonUso.ImportCoherence
