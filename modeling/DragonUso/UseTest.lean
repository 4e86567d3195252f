import DragonUso.Unloading
import DragonUso.ImportCoherence

/-! What the closeability test decides. It compares names: another USO that holds a pointer under the
name of an export counts as a user, wherever that pointer came from. Whether it was bound here can be
told from the names and the order of the list. -/

namespace DragonUso.UseTest
open ByteOrder WordMemory Format LoaderImage Relocation SymbolSearch Loader HandleList LoaderSteps OpenBinding ImportsAlive Unloading
open ImportCoherence Runs

/-- Another loaded USO holds a pointer under a name this one exports. -/
def SharesName (loaded : Registry) (handle : U32) (r : UsoRecord) : Prop :=
  ∃ g ∈ loaded, g.1 ≠ handle ∧ ∃ s ∈ entries g.2.uso.importSyms, s.ptr ≠ 0 ∧
    ∃ e ∈ entries r.uso.exportSyms, e.name = s.name

/-- The test as a statement about names. -/
theorem closeable_iff {st : LoaderState} {loaded : Registry} (sound : SoundState st loaded) (handle : U32)
    {r : UsoRecord} (table : r.uso.exportSyms ≠ none) :
    ∃ closeable, isUsoCloseable loaded handle r.uso = .ok closeable ∧
      (closeable = true ↔ ¬ SharesName loaded handle r) := by
  obtain ⟨symbols, found⟩ := Option.ne_none_iff_exists'.mp table
  obtain ⟨closeable, tested, meaning⟩ := closeableAmong_some handle symbols loaded
  refine ⟨closeable, by rw [isUsoCloseable, found]; exact tested, meaning.trans ?_⟩
  constructor
  · rintro none ⟨g, user, other, s, imported, pointer, e, exported, named⟩
    rw [found] at exported
    have null := none g user other e exported
    have same := searchSymbolTable_complete (sortedImports_of_sound sound g user) imported
    rw [named, same] at null
    exact pointer null
  · intro apart g user other e exported
    apply Decidable.byContradiction
    intro held
    obtain ⟨-, s, imported, named, -⟩ := searchSymbolTable_exports held
    have same := searchSymbolTable_complete (sortedImports_of_sound sound g user) imported
    rw [named] at same
    exact apart ⟨g, user, other, s, imported, same ▸ held, e, by rw [found]; exact exported, named.symm⟩

/-- A USO in use shares the name it is used under. -/
theorem InUse.sharesName {t : Traced} {loaded : Registry} (invariant : TracedInvariant t loaded) {handle : U32}
    {r : UsoRecord} (member : (handle, r) ∈ loaded) (used : InUse loaded t.binding handle) :
    SharesName loaded handle r := by
  obtain ⟨g, user, other, s, imported, pointer, recorded⟩ := used
  have provided := invariant.provided g user s imported pointer
  unfold Provided at provided
  rw [recorded] at provided
  obtain ⟨r', inList, -, e, exported, named, -⟩ := provided
  obtain rfl : r' = r := congrArg Prod.snd (invariant.sound.represents.unique inList member rfl)
  exact ⟨g, user, other, s, imported, pointer, e, exported, named⟩

/-! ### Users in the order of the list -/

/-- A USO loaded later has a pointer under a name of which this one is the first in the list to export an address. -/
def ImportedFirst (loaded : Registry) (handle : U32) (r : UsoRecord) : Prop :=
  ∃ before after, loaded = before ++ (handle, r) :: after ∧ ∃ g ∈ after, ∃ s ∈ entries g.2.uso.importSyms, s.ptr ≠ 0 ∧
    searchSymbolTable r.uso.exportSyms s.name ≠ 0 ∧ ∀ h ∈ before, searchSymbolTable h.2.uso.exportSyms s.name = 0

/-- A name this USO exports and another one has a pointer under is exported by no second USO, nor by the global table. -/
def SoleExporter (loaded : Registry) (globalSyms : Option (List UsoSymbol)) (handle : U32) (r : UsoRecord) : Prop :=
  ∀ g ∈ loaded, g.1 ≠ handle → ∀ s ∈ entries g.2.uso.importSyms, s.ptr ≠ 0 →
    (∃ e ∈ entries r.uso.exportSyms, e.name = s.name) →
    (∀ h ∈ loaded, h.1 ≠ handle → ∀ d ∈ entries h.2.uso.exportSyms, d.name ≠ s.name) ∧
      ∀ d ∈ entries globalSyms, d.name ≠ s.name

/-- Every import was bound as the part of the list before its USO has it. -/
def BoundBefore (loaded : Registry) (binding : Binding) : Prop :=
  ∀ before h after, loaded = before ++ h :: after → ∀ s ∈ entries h.2.uso.importSyms, s.ptr ≠ 0 →
    binding h.1 s.name = exporterOf before s.name

section
variable {loaded loaded' : Registry} {binding binding' : Binding} {handle : U32}

theorem exporterOf_eq_some {name : Bytes} :
    exporterOf loaded name = some handle ↔ ∃ before r after, loaded = before ++ (handle, r) :: after ∧
      searchSymbolTable r.uso.exportSyms name ≠ 0 ∧ ∀ h ∈ before, searchSymbolTable h.2.uso.exportSyms name = 0 := by
  unfold exporterOf
  simp only [Option.map_eq_some_iff, List.find?_eq_some_iff_append, bne_iff_ne, Bool.not_eq_true', bne_eq_false_iff_eq]
  constructor
  · rintro ⟨⟨a, r⟩, ⟨exported, before, after, split, silent⟩, rfl⟩
    exact ⟨before, r, after, split, exported, silent⟩
  · rintro ⟨before, r, after, split, exported, silent⟩
    exact ⟨(handle, r), ⟨exported, before, after, split, silent⟩, rfl⟩

theorem BoundBefore.withRefCount (bound : BoundBefore loaded binding) (handle count : U32) :
    BoundBefore (withRefCount loaded handle count) binding := by
  intro before h after split s imported pointer
  obtain ⟨xs, rest, rfl, rfl, shape⟩ := List.map_eq_append_iff.mp split
  obtain ⟨g, ys, rfl, same, -⟩ := List.map_eq_cons_iff.mp shape
  have contents : h.1 = g.1 ∧ h.2.uso = g.2.uso := by
    rw [← same]
    split <;> exact ⟨rfl, rfl⟩
  have uncounted : exporterOf (HandleList.withRefCount xs handle count) s.name = exporterOf xs s.name := by
    rw [exporterOf_eq, exporterOf_eq, firstExporter_withRefCount]
  rw [contents.2] at imported
  rw [contents.1]
  exact (bound xs g ys rfl s imported pointer).trans uncounted.symm

theorem BoundBefore.added (bound : BoundBefore loaded binding) (fresh : ∀ h ∈ loaded, h.1 ≠ handle) (r : UsoRecord) :
    BoundBefore (loaded ++ [(handle, r)]) (Function.update binding handle (exporterOf loaded)) := by
  intro before h after split s imported pointer
  rcases List.eq_nil_or_concat after with rfl | ⟨rest, last, rfl⟩
  · obtain ⟨rfl, new⟩ := List.append_inj' split rfl
    obtain rfl := List.singleton_inj.mp new
    rw [Function.update_self]
  · rw [List.concat_eq_append, ← List.cons_append, ← List.append_assoc] at split
    obtain ⟨old, -⟩ := List.append_inj' split rfl
    have inList : h ∈ loaded := by simp [old]
    rw [Function.update_of_ne (fresh h inList)]
    exact bound before h rest old s imported pointer

/-- The USO that goes was the exporter of nothing that is bound. -/
theorem BoundBefore.without {st : LoaderState} (sound : SoundState st loaded) (bound : BoundBefore loaded binding)
    {r : UsoRecord} (member : (handle, r) ∈ loaded) (closes : isUsoCloseable loaded handle r.uso = .ok true) :
    BoundBefore (without loaded handle) binding := by
  intro before h after split s imported pointer
  obtain ⟨xs, rest, rfl, rfl, shape⟩ := List.filter_eq_append_iff.mp split
  obtain ⟨skipped, ys, rfl, gone, other, rfl⟩ := List.filter_eq_cons_iff.mp shape
  have shorter : exporterOf (xs ++ skipped) s.name = exporterOf (without (xs ++ skipped) handle) s.name := by
    rw [exporterOf_eq, exporterOf_eq, firstExporter_without]
    intro g inPart own
    have inList : g ∈ xs ++ (skipped ++ h :: ys) := by
      rw [← List.append_assoc]
      exact List.mem_append_left _ inPart
    obtain rfl : g = (handle, r) := sound.represents.unique inList member own
    apply Decidable.byContradiction
    intro exported
    exact closeable_unused (sortedImports_of_sound sound) closes (by simp) (by simpa using other) imported pointer _
      (searchSymbolTable_exports exported)
  have nothing : HandleList.without skipped handle = [] := List.filter_eq_nil_iff.mpr gone
  have remaining : HandleList.without (xs ++ skipped) handle = HandleList.without xs handle := by
    unfold HandleList.without at nothing ⊢
    rw [List.filter_append, nothing, List.append_nil]
  rw [bound (xs ++ skipped) h ys (by simp) s imported pointer, shorter, remaining]
  rfl

theorem BoundBefore.change {st : LoaderState} {globalSyms : Option (List UsoSymbol)} (sound : SoundState st loaded)
    {call : Call} (bound : BoundBefore loaded binding)
    (change : Change globalSyms loaded binding call loaded' binding') : BoundBefore loaded' binding' := by
  cases change with
  | reopened h => exact bound.withRefCount _ _
  | refused => exact bound
  | added filename file alloc r _ fresh => exact bound.added fresh r
  | kept => exact bound.withRefCount _ _
  | removed handle r member closes => exact bound.without sound member closes

end

theorem traced_boundBefore {memory : Memory} {globalSymFile : Bytes} (sorted : SortedTable (readGlobalSyms globalSymFile))
    {calls : List Call} {t : Traced} (run : Run TracedStep (tracedStart memory globalSymFile) calls t) :
    ∃ loaded, SoundState t.state loaded ∧ BoundBefore loaded t.binding := by
  refine run.invariant (P := fun t => ∃ loaded, SoundState t.state loaded ∧ BoundBefore loaded t.binding) ?_
    ⟨[], initialState_sound sorted memory, fun before h after split => by simp at split⟩
  rintro t call t' step ⟨loaded, sound, bound⟩
  obtain ⟨loaded', sound', -, change⟩ := tracedStep_change sound step
  exact ⟨loaded', sound', bound.change sound change⟩

/-- The users of a USO are those whose import it is the first to export. -/
theorem inUse_iff {t : Traced} {loaded : Registry} (sound : SoundState t.state loaded) (bound : BoundBefore loaded t.binding)
    {handle : U32} {r : UsoRecord} (member : (handle, r) ∈ loaded) :
    InUse loaded t.binding handle ↔ ImportedFirst loaded handle r := by
  constructor
  · rintro ⟨g, user, -, s, imported, pointer, recorded⟩
    obtain ⟨before, after, rfl⟩ := List.append_of_mem user
    rw [bound before g after rfl s imported pointer] at recorded
    obtain ⟨front, r', middle, rfl, exported, silent⟩ := exporterOf_eq_some.mp recorded
    have here : (handle, r') ∈ front ++ (handle, r') :: middle ++ g :: after := by simp
    obtain rfl : r' = r := congrArg Prod.snd (sound.represents.unique here member rfl)
    exact ⟨front, middle ++ g :: after, by simp, g, by simp, s, imported, pointer, exported, silent⟩
  · rintro ⟨before, after, rfl, g, later, s, imported, pointer, exported, silent⟩
    obtain ⟨middle, rest, rfl⟩ := List.append_of_mem later
    have recorded := bound (before ++ (handle, r) :: middle) g rest (by simp) s imported pointer
    rw [exporterOf_eq_some.mpr ⟨before, r, middle, rfl, exported, silent⟩] at recorded
    refine ⟨g, by simp, ?_, s, imported, pointer, recorded⟩
    have nodup := sound.represents.linked.nodup
    rw [List.map_append, List.map_cons] at nodup
    intro own
    refine (List.nodup_cons.mp (List.nodup_append.mp nodup).2.1).1 ?_
    exact List.mem_map.mpr ⟨g, later, own⟩

/-- A USO that alone exports the names it shares has bound every pointer under them. -/
theorem SoleExporter.inUse {t : Traced} {loaded : Registry} (invariant : TracedInvariant t loaded) {handle : U32}
    {r : UsoRecord} (sole : SoleExporter loaded t.state.globalSyms handle r) (shared : SharesName loaded handle r) :
    InUse loaded t.binding handle := by
  obtain ⟨g, user, other, s, imported, pointer, exported⟩ := shared
  obtain ⟨apart, globals⟩ := sole g user other s imported pointer exported
  refine ⟨g, user, other, s, imported, pointer, ?_⟩
  have provided := invariant.provided g user s imported pointer
  unfold Provided at provided
  cases recorded : t.binding g.1 s.name with
  | none =>
    rw [recorded] at provided
    obtain ⟨-, d, listed, named, -⟩ := provided
    exact absurd named (globals d listed)
  | some exporter =>
    rw [recorded] at provided
    obtain ⟨r', inList, -, d, listed, named, -⟩ := provided
    apply Decidable.byContradiction
    intro different
    exact apart _ inList (fun same => different (congrArg some same)) d listed named

/-- In every state a run reaches, a USO in use is never closeable. The test decides use where this USO alone exports
the names it shares, and in general exactly when sharing a name means that a USO loaded later has a pointer under a name of
which this one is the first to export an address. -/
theorem closeable_decides_iff {memory : Memory} {globalSymFile : Bytes}
    (sorted : SortedTable (readGlobalSyms globalSymFile)) {calls : List Call} {t : Traced}
    (run : Run TracedStep (tracedStart memory globalSymFile) calls t) {loaded : Registry}
    (listed : usoList t.state = .ok loaded) {handle : U32} {r : UsoRecord} (member : (handle, r) ∈ loaded)
    (table : r.uso.exportSyms ≠ none) :
    (InUse loaded t.binding handle → isUsoCloseable loaded handle r.uso = .ok false) ∧
    (SoleExporter loaded t.state.globalSyms handle r →
      (isUsoCloseable loaded handle r.uso = .ok true ↔ ¬ InUse loaded t.binding handle)) ∧
    ((isUsoCloseable loaded handle r.uso = .ok true ↔ ¬ InUse loaded t.binding handle) ↔
      (SharesName loaded handle r → ImportedFirst loaded handle r)) := by
  have invariant := traced_invariant sorted run listed
  obtain ⟨loaded', sound, bound⟩ := traced_boundBefore sorted run
  obtain rfl := sound.represents.seen listed
  obtain ⟨closeable, tested, meaning⟩ := closeable_iff invariant.sound handle table
  have shares := InUse.sharesName invariant member
  rw [tested, Except.ok.injEq, Except.ok.injEq, meaning, ← inUse_iff sound bound member]
  -- both conditions are used only to turn a shared name into use
  have decides : (SharesName loaded handle r → InUse loaded t.binding handle) →
      (¬ SharesName loaded handle r ↔ ¬ InUse loaded t.binding handle) :=
    fun used => ⟨fun apart inUse => apart (shares inUse), fun unused shared => unused (used shared)⟩
  refine ⟨?_, fun sole => decides (sole.inUse invariant), ?_, decides⟩
  · intro used
    exact Bool.eq_false_iff.mpr fun goes => meaning.mp goes (shares used)
  · intro decided shared
    apply Classical.byContradiction
    intro unused
    exact decided.mpr unused shared

/-! The library again under another name, after the program bound `f` to the first one. -/

def secondAlloc : Allocation where
  handle := 0x80120000
  block := 0x80400000

@[irreducible] def secondOpen : LoaderState := afterOpen programOpen [107] libraryFile secondAlloc

def secondCalls : List Call := openCalls ++ [.usoOpen [107] (some libraryFile) secondAlloc]

def secondBinding : Binding :=
  recordBinding (loadedAt programOpen) [107] 0x80120000
    (recordBinding (loadedAt libraryOpen) [112] 0x80110000 (recordBinding [] [108] 0x80100000 fun _ _ => none))

/-- The state the second library is opened in, and what the open returns. -/
theorem programOpen_facts :
    (usoList programOpen).isOk ∧ secondAlloc.handle ∉ programOpen.heap ∧
    (∀ entry ∈ programOpen.heap.entries,
      entry.2.contents.block.toNat + entry.2.contents.ramSize.toNat ≤ secondAlloc.block.toNat ∨
        secondAlloc.block.toNat + (getUsoRamSize (readLoadInfo libraryFile)).toNat ≤ entry.2.contents.block.toNat) ∧
    (usoOpen programOpen [107] (some libraryFile) secondAlloc).map Prod.snd = .ok 0x80120000 := by decide +kernel

theorem secondAlloc_fresh : Fresh programOpen libraryFile secondAlloc where
  handle_nonnull := by decide
  handle_fresh := programOpen_facts.2.1
  block_nonnull := by decide
  block_aligned := by decide +kernel
  block_ends := by decide +kernel
  block_apart := programOpen_facts.2.2.1

theorem secondOpen_run : Run TracedStep (tracedStart (fun _ => 0) []) secondCalls ⟨secondOpen, secondBinding⟩ := by
  have none : usoList (tracedStart (fun _ => 0) []).state = .ok [] := by decide +kernel
  have one : usoList libraryOpen = .ok (loadedAt libraryOpen) := usoList_loadedAt (by decide +kernel)
  have two : usoList programOpen = .ok (loadedAt programOpen) := usoList_loadedAt programOpen_facts.1
  have opened : usoOpen programOpen [107] (some libraryFile) secondAlloc = .ok (secondOpen, 0x80120000) := by
    unfold secondOpen
    exact usoOpen_afterOpen programOpen_facts.2.2.2
  have library := TracedStep.opened (t := tracedStart (fun _ => 0) []) (fun _ same => Option.some.inj same ▸ libraryFile_sound)
    (fun _ same => Option.some.inj same ▸ libraryAlloc_fresh) none usoOpen_library
  have program := fun binding => TracedStep.opened (t := ⟨libraryOpen, binding⟩)
    (fun _ same => Option.some.inj same ▸ programFile_sound) (fun _ same => Option.some.inj same ▸ programAlloc_fresh) one
    usoOpen_program
  have second := fun binding => TracedStep.opened (t := ⟨programOpen, binding⟩)
    (fun _ same => Option.some.inj same ▸ libraryFile_sound) (fun _ same => Option.some.inj same ▸ secondAlloc_fresh) two
    opened
  exact .next library (.next (program _) (.next (second _) (.done _)))

/-- Both libraries have export tables, the second one is not closeable, and nothing is bound to it. -/
theorem secondOpen_facts :
    (usoList secondOpen).isOk ∧
    (∃ h ∈ loadedAt secondOpen, h.1 = 0x80100000 ∧ h.2.uso.exportSyms ≠ none) ∧
    (∃ h ∈ loadedAt secondOpen, h.1 = 0x80120000 ∧ h.2.uso.exportSyms ≠ none ∧
      isUsoCloseable (loadedAt secondOpen) h.1 h.2.uso = .ok false) ∧
    ∀ g ∈ loadedAt secondOpen, ∀ s ∈ entries g.2.uso.importSyms, secondBinding g.1 s.name ≠ some 0x80120000 := by
  decide +kernel

theorem closeable_decides_iff_library :
    ∃ r, (0x80100000, r) ∈ loadedAt secondOpen ∧
      (InUse (loadedAt secondOpen) secondBinding 0x80100000 →
        isUsoCloseable (loadedAt secondOpen) 0x80100000 r.uso = .ok false) ∧
      (SoleExporter (loadedAt secondOpen) secondOpen.globalSyms 0x80100000 r →
        (isUsoCloseable (loadedAt secondOpen) 0x80100000 r.uso = .ok true ↔
          ¬ InUse (loadedAt secondOpen) secondBinding 0x80100000)) ∧
      ((isUsoCloseable (loadedAt secondOpen) 0x80100000 r.uso = .ok true ↔
        ¬ InUse (loadedAt secondOpen) secondBinding 0x80100000) ↔
        (SharesName (loadedAt secondOpen) 0x80100000 r → ImportedFirst (loadedAt secondOpen) 0x80100000 r)) := by
  have sorted : SortedTable (readGlobalSyms []) := by unfold SortedTable; decide
  obtain ⟨follows, ⟨⟨handle, r⟩, member, rfl, table⟩, -⟩ := secondOpen_facts
  have listed : usoList secondOpen = .ok (loadedAt secondOpen) := usoList_loadedAt follows
  exact ⟨r, member, closeable_decides_iff sorted secondOpen_run listed member table⟩

/-- Nothing is bound to the second library, and it is not closeable. -/
theorem secondOpen_namesake :
    Run TracedStep (tracedStart (fun _ => 0) []) secondCalls ⟨secondOpen, secondBinding⟩ ∧
    ∃ r, (0x80120000, r) ∈ loadedAt secondOpen ∧ r.uso.exportSyms ≠ none ∧
      isUsoCloseable (loadedAt secondOpen) 0x80120000 r.uso = .ok false ∧
      ¬ InUse (loadedAt secondOpen) secondBinding 0x80120000 := by
  obtain ⟨-, -, ⟨⟨handle, r⟩, member, rfl, table, refused⟩, elsewhere⟩ := secondOpen_facts
  refine ⟨secondOpen_run, r, member, table, refused, ?_⟩
  rintro ⟨g, user, other, s, imported, -, recorded⟩
  exact elsewhere g user s imported recorded

end DragonUso.UseTest
