import DragonUso.OpenBinding

/-! Which USO an import was bound to when its USO was loaded. The loader does not store this; a
history carried along the run does, and the invariant is that what it names is still loaded. -/

namespace DragonUso.ImportsAlive
open ByteOrder WordMemory Format LoaderImage Relocation SymbolSearch Loader HandleList LoaderSteps OpenBinding Runs

/-! ### Runs with their history -/

/-- For each import of each handle, the USO it was bound to; nothing for a global symbol or NULL. -/
abbrev Binding := U32 → Bytes → Option U32

/-- The USO a name is bound to when it is looked up among the loaded ones. -/
def exporterOf (loaded : Registry) (name : Bytes) : Option U32 :=
  (loaded.find? fun h => searchSymbolTable h.2.uso.exportSyms name != 0).map Prod.fst

/-- A load binds the imports of the new handle; every other open binds nothing. -/
def recordBinding (loaded : Registry) (filename : Bytes) (handle : U32) (binding : Binding) : Binding :=
  if usoGetHandle loaded filename = 0 ∧ handle ≠ 0 then Function.update binding handle (exporterOf loaded) else binding

structure Traced where
  state : LoaderState
  binding : Binding

/-- A step of the loader, with the bindings it makes. -/
inductive TracedStep : Traced → Call → Traced → Prop where
  | opened {t : Traced} {st' : LoaderState} {loaded : Registry} {filename : Bytes} {file : Option Bytes}
      {alloc : Allocation} {handle : U32} : (∀ bytes, file = some bytes → SoundFile bytes) →
    (∀ bytes, file = some bytes → Fresh t.state bytes alloc) → usoList t.state = .ok loaded →
    usoOpen t.state filename file alloc = .ok (st', handle) →
    TracedStep t (.usoOpen filename file alloc) ⟨st', recordBinding loaded filename handle t.binding⟩
  | closed {t : Traced} {st' : LoaderState} {handle : U32} :
    usoClose t.state handle = .ok st' → TracedStep t (.usoClose handle) ⟨st', t.binding⟩

/-- Nothing is bound after `uso_init`. -/
def tracedStart (memory : Memory) (globalSymFile : Bytes) : Traced :=
  ⟨initialState memory globalSymFile, fun _ _ => none⟩

/-- The history only watches: every run of the loader has one. -/
theorem exists_traced {st st' : LoaderState} {calls : List Call} (run : Run Step st calls st')
    (sound : ∃ loaded, SoundState st loaded) (binding : Binding) :
    ∃ binding', Run TracedStep ⟨st, binding⟩ calls ⟨st', binding'⟩ := by
  induction run generalizing binding with
  | done s => exact ⟨binding, .done _⟩
  | next step _ ih =>
    have after := step_sound step sound
    obtain ⟨loaded, sound⟩ := sound
    cases step with
    | opened soundFile fresh returned =>
      obtain ⟨binding', later⟩ := ih after _
      exact ⟨binding', .next (.opened soundFile fresh (usoList_eq sound.represents) returned) later⟩
    | closed returned =>
      obtain ⟨binding', later⟩ := ih after _
      exact ⟨binding', .next (.closed returned) later⟩

/-! ### The invariant -/

/-- The import has the pointer of an entry of its name, in the loaded USO it was bound to or in the
global table. -/
def Provided (loaded : Registry) (globalSyms : Option (List UsoSymbol)) (binding : Binding) (handle : U32)
    (s : UsoSymbol) : Prop :=
  match binding handle s.name with
  | some exporter => ∃ r, (exporter, r) ∈ loaded ∧ Exports r.uso.exportSyms s.name s.ptr
  | none => Exports globalSyms s.name s.ptr

def AllProvided (loaded : Registry) (globalSyms : Option (List UsoSymbol)) (binding : Binding) : Prop :=
  ∀ h ∈ loaded, ∀ s ∈ entries h.2.uso.importSyms, s.ptr ≠ 0 → Provided loaded globalSyms binding h.1 s

/-- An import stays provided as long as no USO that exports its name goes. -/
theorem Provided.transport {loaded loaded' : Registry} {globalSyms : Option (List UsoSymbol)} {binding : Binding}
    {handle : U32} {s : UsoSymbol} (provided : Provided loaded globalSyms binding handle s)
    (kept : ∀ exporter r, (exporter, r) ∈ loaded → Exports r.uso.exportSyms s.name s.ptr →
      ∃ r', (exporter, r') ∈ loaded' ∧ r'.uso = r.uso) :
    Provided loaded' globalSyms binding handle s := by
  unfold Provided at provided ⊢
  cases bound : binding handle s.name with
  | none =>
    rw [bound] at provided
    exact provided
  | some exporter =>
    rw [bound] at provided
    obtain ⟨r, member, exported⟩ := provided
    obtain ⟨r', member', same⟩ := kept exporter r member exported
    exact ⟨r', member', same ▸ exported⟩

theorem searchExports_eq_find (loaded : Registry) (name : Bytes) :
    searchExports loaded name =
      match loaded.find? fun h => searchSymbolTable h.2.uso.exportSyms name != 0 with
      | some h => searchSymbolTable h.2.uso.exportSyms name
      | none => 0 := by
  induction loaded with
  | nil => rfl
  | cons h rest ih =>
    rw [searchExports_cons, List.find?_cons]
    by_cases found : searchSymbolTable h.2.uso.exportSyms name ≠ 0
    · rw [if_pos found, bne_iff_ne.mpr found]
    · rw [if_neg found, Bool.eq_false_iff.mpr (mt bne_iff_ne.mp found)]
      exact ih

/-- What a load binds is provided at that moment. -/
theorem search_provided {loaded : Registry} {globalSyms : Option (List UsoSymbol)} {binding : Binding} {handle : U32}
    (recorded : binding handle = exporterOf loaded) {s : UsoSymbol}
    (bound : s.ptr = searchLoadedSymbols loaded globalSyms s.name true) (pointer : s.ptr ≠ 0) :
    Provided loaded globalSyms binding handle s := by
  unfold Provided
  rw [recorded, exporterOf, bound]
  rw [bound] at pointer
  unfold searchLoadedSymbols at pointer ⊢
  rw [searchExports_eq_find] at pointer ⊢
  cases found : loaded.find? fun h => searchSymbolTable h.2.uso.exportSyms s.name != 0 with
  | none =>
    simp only [found, ne_eq, not_true_eq_false, ↓reduceIte] at pointer ⊢
    exact searchSymbolTable_exports pointer
  | some h =>
    have some : searchSymbolTable h.2.uso.exportSyms s.name ≠ 0 := by simpa using List.find?_some found
    simp only [if_pos some, Option.map_some]
    exact ⟨h.2, List.mem_of_find?_eq_some found, searchSymbolTable_exports some⟩

/-! ### What a step keeps -/

theorem mem_withRefCount_of_mem {loaded : Registry} {e : U32} {r : UsoRecord} (member : (e, r) ∈ loaded)
    (handle count : U32) : ∃ r', (e, r') ∈ withRefCount loaded handle count ∧ r'.uso = r.uso := by
  by_cases own : e = handle
  · exact ⟨{ r with refCount := count }, mem_withRefCount.mpr ⟨_, member, rfl, (if_pos own).symm⟩, rfl⟩
  · exact ⟨r, mem_withRefCount.mpr ⟨_, member, rfl, (if_neg own).symm⟩, rfl⟩

theorem mem_of_mem_withRefCount {loaded : Registry} {handle count : U32} {h : U32 × UsoRecord}
    (member : h ∈ withRefCount loaded handle count) :
    ∃ r, (h.1, r) ∈ loaded ∧ h.2.uso = r.uso ∧ h.2.refCount = if h.1 = handle then count else r.refCount := by
  obtain ⟨g, inList, same, contents⟩ := mem_withRefCount.mp member
  refine ⟨g.2, by rw [same]; exact inList, ?_⟩
  rw [contents, same]
  split <;> exact ⟨rfl, rfl⟩

theorem AllProvided.withRefCount {loaded : Registry} {globalSyms : Option (List UsoSymbol)} {binding : Binding}
    (provided : AllProvided loaded globalSyms binding) (handle count : U32) :
    AllProvided (withRefCount loaded handle count) globalSyms binding := by
  intro h member s imported pointer
  obtain ⟨r, inList, same, -⟩ := mem_of_mem_withRefCount member
  rw [same] at imported
  exact (provided _ inList s imported pointer).transport
    fun exporter r' member' _ => mem_withRefCount_of_mem member' handle count

/-- The import tables of the list can be searched. -/
def SortedImports (loaded : Registry) : Prop := ∀ h ∈ loaded, SortedTable (entries h.2.uso.importSyms)

theorem sortedImports_of_sound {st : LoaderState} {loaded : Registry} (sound : SoundState st loaded) :
    SortedImports loaded := fun h member => (sound.records h member).imports

theorem closeableAmong_true {handle : U32} {exportSyms : Option (List UsoSymbol)} {loaded : Registry}
    (closes : closeableAmong handle exportSyms loaded = .ok true) {h : U32 × UsoRecord} (member : h ∈ loaded)
    (other : h.1 ≠ handle) {e : UsoSymbol} (exported : e ∈ entries exportSyms) :
    searchSymbolTable h.2.uso.importSyms e.name = 0 := by
  cases exportSyms with
  | none => exact absurd exported List.not_mem_nil
  | some symbols =>
    obtain ⟨closeable, tested, meaning⟩ := closeableAmong_some handle symbols loaded
    rw [closes, Except.ok.injEq] at tested
    exact meaning.mp tested.symm h member other e exported

/-- A USO that may be closed exports no name under which a search in another loaded USO finds a pointer. -/
theorem closeable_unsearched {loaded : Registry} {handle : U32} {uso : LoadedUso}
    (closes : isUsoCloseable loaded handle uso = .ok true) {h : U32 × UsoRecord} (member : h ∈ loaded)
    (other : h.1 ≠ handle) {name : Bytes} (pointer : searchSymbolTable h.2.uso.importSyms name ≠ 0) (ptr : U32) :
    ¬ Exports uso.exportSyms name ptr := by
  rintro ⟨-, e, exported, rfl, -⟩
  exact pointer (closeableAmong_true closes member other exported)

/-- A USO that may be closed exports nothing another loaded USO holds a pointer under. -/
theorem closeable_unused {loaded : Registry} (sorted : SortedImports loaded) {handle : U32} {uso : LoadedUso}
    (closes : isUsoCloseable loaded handle uso = .ok true) {h : U32 × UsoRecord} (member : h ∈ loaded)
    (other : h.1 ≠ handle) {s : UsoSymbol} (imported : s ∈ entries h.2.uso.importSyms) (pointer : s.ptr ≠ 0)
    (ptr : U32) : ¬ Exports uso.exportSyms s.name ptr := by
  have found := searchSymbolTable_complete (sorted h member) imported
  exact closeable_unsearched closes member other (found ▸ pointer) ptr

theorem AllProvided.without {st : LoaderState} {loaded : Registry} (sound : SoundState st loaded)
    {globalSyms : Option (List UsoSymbol)} {binding : Binding} (provided : AllProvided loaded globalSyms binding)
    {handle : U32} {r : UsoRecord} (member : (handle, r) ∈ loaded)
    (closes : isUsoCloseable loaded handle r.uso = .ok true) :
    AllProvided (without loaded handle) globalSyms binding := by
  intro h inRest s imported pointer
  obtain ⟨inList, other⟩ := mem_without.mp inRest
  refine (provided h inList s imported pointer).transport ?_
  intro exporter r' member' exported
  refine ⟨r', mem_without.mpr ⟨member', ?_⟩, rfl⟩
  intro same
  obtain rfl : r' = r := congrArg Prod.snd (sound.represents.unique member' member same)
  exact closeable_unused (sortedImports_of_sound sound) closes inList other imported pointer _ exported

theorem AllProvided.added {loaded : Registry} {globalSyms : Option (List UsoSymbol)} {binding : Binding}
    (provided : AllProvided loaded globalSyms binding) {handle : U32} (fresh : ∀ h ∈ loaded, h.1 ≠ handle)
    {r : UsoRecord}
    (bound : ∀ s ∈ entries r.uso.importSyms, s.ptr = searchLoadedSymbols loaded globalSyms s.name true) :
    AllProvided (loaded ++ [(handle, r)]) globalSyms (Function.update binding handle (exporterOf loaded)) := by
  have grows : ∀ exporter r', (exporter, r') ∈ loaded →
      ∃ r'', (exporter, r'') ∈ loaded ++ [(handle, r)] ∧ r''.uso = r'.uso :=
    fun exporter r' member => ⟨r', List.mem_append_left _ member, rfl⟩
  intro h member s imported pointer
  rcases List.mem_append.mp member with old | new
  · have before := (provided h old s imported pointer).transport fun exporter r' inList _ => grows exporter r' inList
    unfold Provided at before ⊢
    rwa [Function.update_of_ne (fresh h old)]
  · rw [List.mem_singleton.mp new] at imported ⊢
    exact (search_provided (Function.update_self _ _ _) (bound s imported) pointer).transport
      fun exporter r' inList _ => grows exporter r' inList

/-! ### Steps as changes of the list -/

/-- What one call can do to the list of loaded USOs and to the bindings. -/
inductive Change (globalSyms : Option (List UsoSymbol)) (loaded : Registry) (binding : Binding) :
    Call → Registry → Binding → Prop where
  | reopened (h : U32 × UsoRecord) (filename : Bytes) (file : Option Bytes) (alloc : Allocation) :
    h ∈ loaded → h.1 = usoGetHandle loaded filename →
    Change globalSyms loaded binding (.usoOpen filename file alloc) (withRefCount loaded h.1 (h.2.refCount + 1)) binding
  | refused (filename : Bytes) (file : Option Bytes) (alloc : Allocation) : usoGetHandle loaded filename = 0 →
    Change globalSyms loaded binding (.usoOpen filename file alloc) loaded binding
  | added (filename : Bytes) (file : Option Bytes) (alloc : Allocation) (r : UsoRecord) :
    usoGetHandle loaded filename = 0 → (∀ h ∈ loaded, h.1 ≠ alloc.handle) → r.refCount = 1 → r.name = filename →
    (∀ s ∈ entries r.uso.importSyms, s.ptr = searchLoadedSymbols loaded globalSyms s.name true) →
    Change globalSyms loaded binding (.usoOpen filename file alloc) (loaded ++ [(alloc.handle, r)])
      (Function.update binding alloc.handle (exporterOf loaded))
  | kept (handle : U32) (r : UsoRecord) (closeable : Bool) : (handle, r) ∈ loaded →
    isUsoCloseable loaded handle r.uso = .ok closeable → (closeable && closedCount r.refCount == 0) = false →
    Change globalSyms loaded binding (.usoClose handle) (withRefCount loaded handle (closedCount r.refCount)) binding
  | removed (handle : U32) (r : UsoRecord) : (handle, r) ∈ loaded →
    isUsoCloseable loaded handle r.uso = .ok true → closedCount r.refCount = 0 →
    Change globalSyms loaded binding (.usoClose handle) (without loaded handle) binding

theorem boundImports_openedRecord (st : LoaderState) (loaded : Registry) (filename file : Bytes) (alloc : Allocation) :
    ∀ s ∈ entries (openedRecord st loaded filename file alloc).uso.importSyms,
      s.ptr = searchLoadedSymbols loaded st.globalSyms s.name true := by
  intro s imported
  simp only [openedRecord, openedUso, fixedUso, entries_fixupImports, List.mem_map] at imported
  obtain ⟨stored, -, rfl⟩ := imported
  rfl

/-- Every step of the loader is such a change. -/
theorem tracedStep_change {t t' : Traced} {loaded : Registry} (sound : SoundState t.state loaded) {call : Call}
    (step : TracedStep t call t') :
    ∃ loaded', SoundState t'.state loaded' ∧ t'.state.globalSyms = t.state.globalSyms ∧
      Change t.state.globalSyms loaded t.binding call loaded' t'.binding := by
  cases step with
  | @opened st' loaded₀ filename file alloc handle soundFile fresh listed returned =>
    obtain rfl := (sound.represents.seen listed).symm
    obtain ⟨loaded', result, sound'⟩ := usoOpen_cases sound soundFile fresh returned
    refine ⟨loaded', sound', result.globals, ?_⟩
    cases result with
    | reopened h member named found =>
      have loadedAlready : ¬ (usoGetHandle loaded filename = 0 ∧ h.1 ≠ 0) := by
        rintro ⟨none, some⟩
        exact some (found.trans none)
      rw [recordBinding, if_neg loadedAlready]
      exact .reopened h filename file alloc member found
    | missing notLoaded _ =>
      rw [recordBinding, if_neg fun opened => opened.2 rfl]
      exact .refused filename file alloc ((usoGetHandle_eq_zero sound.represents).mpr notLoaded)
    | unresolved bytes notLoaded _ _ =>
      rw [recordBinding, if_neg fun opened => opened.2 rfl]
      exact .refused filename file alloc ((usoGetHandle_eq_zero sound.represents).mpr notLoaded)
    | opened bytes linked next notLoaded found _ _ _ =>
      have none := (usoGetHandle_eq_zero sound.represents).mpr notLoaded
      have new := fresh bytes found
      rw [recordBinding, if_pos ⟨none, new.handle_nonnull⟩]
      refine .added filename file alloc _ none ?_ rfl rfl (boundImports_openedRecord _ _ _ _ _)
      intro h member same
      exact new.handle_fresh (same ▸ sound.represents.mem_heap member)
  | closed returned =>
    obtain ⟨loaded', result, sound'⟩ := usoClose_cases sound returned
    refine ⟨loaded', sound', result.globals, ?_⟩
    cases result with
    | kept r closeable member closes counted => exact .kept _ r closeable member closes counted
    | unloaded r next member closes counted _ => exact .removed _ r member closes counted

structure TracedInvariant (t : Traced) (loaded : Registry) : Prop where
  sound : SoundState t.state loaded
  provided : AllProvided loaded t.state.globalSyms t.binding

theorem AllProvided.change {st : LoaderState} {loaded loaded' : Registry} (sound : SoundState st loaded)
    {globalSyms : Option (List UsoSymbol)} {binding binding' : Binding} {call : Call}
    (provided : AllProvided loaded globalSyms binding)
    (change : Change globalSyms loaded binding call loaded' binding') : AllProvided loaded' globalSyms binding' := by
  cases change with
  | reopened h => exact provided.withRefCount _ _
  | refused => exact provided
  | added filename file alloc r _ fresh _ _ bound => exact provided.added fresh bound
  | kept handle r => exact provided.withRefCount _ _
  | removed handle r member closes => exact provided.without sound member closes

theorem TracedInvariant.step {t t' : Traced} {call : Call} (step : TracedStep t call t')
    (invariant : ∃ loaded, TracedInvariant t loaded) : ∃ loaded, TracedInvariant t' loaded := by
  obtain ⟨loaded, sound, provided⟩ := invariant
  obtain ⟨loaded', sound', globals, change⟩ := tracedStep_change sound step
  exact ⟨loaded', sound', globals ▸ provided.change sound change⟩

theorem traced_invariant {memory : Memory} {globalSymFile : Bytes} (sorted : SortedTable (readGlobalSyms globalSymFile))
    {calls : List Call} {t : Traced} (run : Run TracedStep (tracedStart memory globalSymFile) calls t)
    {loaded : Registry} (listed : usoList t.state = .ok loaded) : TracedInvariant t loaded := by
  have start : ∃ loaded, TracedInvariant (tracedStart memory globalSymFile) loaded :=
    ⟨[], initialState_sound sorted memory, fun h member => absurd member List.not_mem_nil⟩
  obtain ⟨loaded', invariant⟩ := run.invariant (P := fun t => ∃ loaded, TracedInvariant t loaded)
    (fun _ _ _ step before => TracedInvariant.step step before) start
  obtain rfl := invariant.sound.represents.seen listed
  exact invariant

/-! ### Closing -/

/-- `g` has an import that was bound to the USO with this handle. -/
def BoundBy (binding : Binding) (g : U32 × UsoRecord) (handle : U32) : Prop :=
  ∃ s ∈ entries g.2.uso.importSyms, s.ptr ≠ 0 ∧ binding g.1 s.name = some handle

/-- `g` has an import with the name and the pointer of an export of `h`. -/
def PointsInto (g h : U32 × UsoRecord) : Prop :=
  ∃ s ∈ entries g.2.uso.importSyms, Exports h.2.uso.exportSyms s.name s.ptr

/-- Nobody loses an export with a USO nobody is bound to. -/
theorem AllProvided.without_unused {loaded : Registry} {globalSyms : Option (List UsoSymbol)} {binding : Binding}
    (provided : AllProvided loaded globalSyms binding) {handle : U32}
    (unused : ¬ ∃ g ∈ loaded, g.1 ≠ handle ∧ BoundBy binding g handle) :
    AllProvided (HandleList.without loaded handle) globalSyms binding := by
  intro g inRest s imported pointer
  obtain ⟨inList, other⟩ := mem_without.mp inRest
  have before := provided g inList s imported pointer
  unfold Provided at before ⊢
  cases bound : binding g.1 s.name with
  | none =>
    rw [bound] at before
    exact before
  | some exporter =>
    rw [bound] at before
    obtain ⟨r, member, exported⟩ := before
    refine ⟨r, mem_without.mpr ⟨member, ?_⟩, exported⟩
    rintro rfl
    exact unused ⟨g, inList, other, s, imported, pointer, bound⟩

theorem BoundBy.pointsInto {t : Traced} {loaded : Registry} (invariant : TracedInvariant t loaded)
    {g h : U32 × UsoRecord} (user : g ∈ loaded) (member : h ∈ loaded) (bound : BoundBy t.binding g h.1) :
    PointsInto g h := by
  obtain ⟨s, imported, pointer, recorded⟩ := bound
  have provided := invariant.provided g user s imported pointer
  unfold Provided at provided
  rw [recorded] at provided
  obtain ⟨r, inList, exported⟩ := provided
  have own := invariant.sound.represents.unique inList member rfl
  exact ⟨s, imported, own ▸ exported⟩

/-- A USO whose handle a close frees is one no other loaded USO points into. -/
theorem closed_unused {st st' : LoaderState} {loaded : Registry} (sound : SoundState st loaded) {handle : U32}
    (closed : usoClose st handle = .ok st') {h : U32 × UsoRecord} (member : h ∈ loaded) (freed : h.1 ∉ st'.heap)
    {g : U32 × UsoRecord} (user : g ∈ loaded) (other : g.1 ≠ h.1) : ¬ PointsInto g h := by
  obtain ⟨loaded', result, sound'⟩ := usoClose_cases sound closed
  cases result with
  | kept r closeable =>
    exact absurd (mem_modifyHandle.mpr (sound.represents.mem_heap member)) freed
  | unloaded r next inList closes _ _ =>
    have same : h.1 = handle := by
      apply Decidable.byContradiction
      intro differs
      exact freed (sound'.represents.mem_heap (mem_without.mpr ⟨member, differs⟩))
    obtain rfl : h = (handle, r) := sound.represents.unique member inList same
    rintro ⟨s, imported, exported⟩
    exact closeable_unused (sortedImports_of_sound sound) closes user other imported exported.1 _ exported

/-- In every state a run reaches, an import that is not NULL has the pointer of an entry of its name
in a USO that is still loaded or in the global table, and no close frees a USO in use. -/
theorem imports_alive {memory : Memory} {globalSymFile : Bytes} (sorted : SortedTable (readGlobalSyms globalSymFile))
    {calls : List Call} {t : Traced} (run : Run TracedStep (tracedStart memory globalSymFile) calls t)
    {loaded : Registry} (listed : usoList t.state = .ok loaded) :
    (∀ h ∈ loaded, ∀ s ∈ entries h.2.uso.importSyms, s.ptr ≠ 0 →
      (∃ g ∈ loaded, Exports g.2.uso.exportSyms s.name s.ptr) ∨ Exports t.state.globalSyms s.name s.ptr) ∧
    ∀ handle st', usoClose t.state handle = .ok st' → ∀ h ∈ loaded, h.1 ∉ st'.heap →
      ∀ g ∈ loaded, g.1 ≠ h.1 → ¬ BoundBy t.binding g h.1 ∧ ¬ PointsInto g h := by
  have invariant := traced_invariant sorted run listed
  constructor
  · intro h member s imported pointer
    have provided := invariant.provided h member s imported pointer
    unfold Provided at provided
    cases bound : t.binding h.1 s.name with
    | none =>
      rw [bound] at provided
      exact .inr provided
    | some exporter =>
      rw [bound] at provided
      obtain ⟨r, inList, exported⟩ := provided
      exact .inl ⟨(exporter, r), inList, exported⟩
  · intro handle st' closed h member freed g user other
    have unused := closed_unused invariant.sound closed member freed user other
    exact ⟨fun bound => unused (bound.pointsInto invariant user member), unused⟩

/-- The library is loaded, then the program that imports its function. -/
@[irreducible] def programOpen : LoaderState := afterOpen libraryOpen [112] programFile programAlloc

def openCalls : List Call :=
  [.usoOpen [108] (some libraryFile) libraryAlloc, .usoOpen [112] (some programFile) programAlloc]

theorem usoOpen_program :
    usoOpen libraryOpen [112] (some programFile) programAlloc = .ok (programOpen, 0x80110000) := by
  unfold programOpen
  exact usoOpen_afterOpen (by decide +kernel)

theorem programOpen_run : Run Step (initialState (fun _ => 0) []) openCalls programOpen := by
  have step : Step libraryOpen (.usoOpen [112] (some programFile) programAlloc) programOpen :=
    .opened (fun _ same => Option.some.inj same ▸ programFile_sound)
      (fun _ same => Option.some.inj same ▸ programAlloc_fresh) usoOpen_program
  exact .next step_library (.next step (.done _))

theorem imports_alive_program :
    ∃ binding, Run TracedStep (tracedStart (fun _ => 0) []) openCalls ⟨programOpen, binding⟩ ∧
    (∀ h ∈ loadedAt programOpen, ∀ s ∈ entries h.2.uso.importSyms, s.ptr ≠ 0 →
      (∃ g ∈ loadedAt programOpen, Exports g.2.uso.exportSyms s.name s.ptr) ∨
        Exports programOpen.globalSyms s.name s.ptr) ∧
    ∀ handle st', usoClose programOpen handle = .ok st' → ∀ h ∈ loadedAt programOpen, h.1 ∉ st'.heap →
      ∀ g ∈ loadedAt programOpen, g.1 ≠ h.1 → ¬ BoundBy binding g h.1 ∧ ¬ PointsInto g h := by
  have sorted : SortedTable (readGlobalSyms []) := by unfold SortedTable; decide
  obtain ⟨binding, run⟩ := exists_traced programOpen_run ⟨[], initialState_sound sorted _⟩ fun _ _ => none
  have listed : usoList programOpen = .ok (loadedAt programOpen) := usoList_loadedAt (by decide +kernel)
  exact ⟨binding, run, imports_alive sorted run listed⟩

end DragonUso.ImportsAlive
