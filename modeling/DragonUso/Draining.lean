import DragonUso.Library.Peeling
import DragonUso.CloseFaults
import DragonUso.ListConsistency
import DragonUso.Reinitialization

/-! Which USOs can ever be unloaded again. A USO is held by every other one that has a pointer under a
name it exports; USOs that hold each other in a circle, and what these hold, stay for good, and all the
others can be closed. -/

namespace DragonUso.Draining
open ByteOrder WordMemory Runs Peeling Format ElfFile ToolCollect ToolWriter LoaderImage RoundTrip Relocation SymbolSearch
open Loader HandleList LoaderSteps OpenBinding ImportsAlive ListConsistency ProducedFile CloseFaults

/-- One loaded USO finds a pointer among its imports under a name that another one exports. -/
def Holds (loaded : Registry) (user handle : U32) : Prop :=
  ∃ g r, (user, g) ∈ loaded ∧ (handle, r) ∈ loaded ∧
    ∃ e ∈ entries r.uso.exportSyms, searchSymbolTable g.uso.importSyms e.name ≠ 0

def handlesOf (loaded : Registry) : Finset U32 := (loaded.map Prod.fst).toFinset

theorem mem_handlesOf {loaded : Registry} {a : U32} : a ∈ handlesOf loaded ↔ ∃ r, (a, r) ∈ loaded := by
  unfold handlesOf
  rw [List.mem_toFinset, List.mem_map]
  constructor
  · rintro ⟨⟨_, r⟩, member, rfl⟩
    exact ⟨r, member⟩
  · rintro ⟨r, member⟩
    exact ⟨(a, r), member, rfl⟩

/-- The file is what the tool makes of an ELF that exports something. -/
def Exporting (file : Bytes) : Prop :=
  ∃ sort elf tool srcElfName, Produced sort elf tool srcElfName ∧ tool.exportSyms ≠ [] ∧ file = usoWrite tool srcElfName

/-- A USO that closing can ask about. -/
structure ClosableRecord (r : UsoRecord) : Prop where
  startable : StartableRecord r
  table : r.uso.exportSyms ≠ none

theorem Exporting.record {file : Bytes} (exporting : Exporting file) (search : Bytes → U32)
    (base noload ramSize count : U32) (name : Bytes) :
    ClosableRecord
      { uso := fixedUso (usoImage file) search base noload
        block := base, ramSize := ramSize, refCount := count, name := name } := by
  obtain ⟨sort, elf, tool, srcElfName, produced, exports, rfl⟩ := exporting
  exact ⟨produced.loadable.record _ _ _ _ _ _, fun absent => exports ((fixedExports_eq_none produced base noload).mp absent)⟩

section
variable {st st' : LoaderState} {loaded loaded' : Registry}

/-! ### Closing what is free -/

/-- The closeability test asks whether the USO is free. -/
theorem closeable_of_free {handle : U32} {r : UsoRecord} (member : (handle, r) ∈ loaded) (table : r.uso.exportSyms ≠ none)
    (free : Free (Holds loaded) (handlesOf loaded) handle) : isUsoCloseable loaded handle r.uso = .ok true := by
  obtain ⟨symbols, found⟩ := Option.ne_none_iff_exists'.mp table
  obtain ⟨closeable, tested, meaning⟩ := closeableAmong_some handle symbols loaded
  rw [isUsoCloseable, found, tested, meaning.mpr]
  intro g user other e exported
  apply Decidable.byContradiction
  intro held
  refine free g.1 (mem_handlesOf.mpr ⟨g.2, user⟩) other ⟨g.2, r, user, member, e, ?_, held⟩
  rw [found]
  exact exported

theorem free_of_closeable (listed : ListedState st loaded) {handle : U32} {r : UsoRecord} (member : (handle, r) ∈ loaded)
    (closes : isUsoCloseable loaded handle r.uso = .ok true) : Free (Holds loaded) (handlesOf loaded) handle := by
  rintro user - other ⟨g, r', inList, inList', e, exported, held⟩
  obtain rfl : r' = r := congrArg Prod.snd (listed.represents.unique inList' member rfl)
  exact held (closeableAmong_true closes inList other exported)

/-- A registry with the same USOs has the same holders. -/
theorem Holds.transport {user handle : U32} (holds : Holds loaded user handle)
    (kept : ∀ a r, (a, r) ∈ loaded → a = user ∨ a = handle → ∃ r', (a, r') ∈ loaded' ∧ r'.uso = r.uso) :
    Holds loaded' user handle := by
  obtain ⟨g, r, inList, inList', e, exported, held⟩ := holds
  obtain ⟨g', there, same⟩ := kept user g inList (.inl rfl)
  obtain ⟨r', there', same'⟩ := kept handle r inList' (.inr rfl)
  exact ⟨g', r', there, there', e, same' ▸ exported, same ▸ held⟩

theorem holds_withRefCount {a count user handle : U32} :
    Holds (withRefCount loaded a count) user handle ↔ Holds loaded user handle := by
  constructor
  · refine fun holds => holds.transport fun b r member _ => ?_
    obtain ⟨r', inList, same, -⟩ := mem_of_mem_withRefCount member
    exact ⟨r', inList, same.symm⟩
  · exact fun holds => holds.transport fun b r member _ => mem_withRefCount_of_mem member a count

theorem handlesOf_withRefCount (handle count : U32) : handlesOf (withRefCount loaded handle count) = handlesOf loaded := by
  rw [handlesOf, withRefCount_handles, handlesOf]

theorem handlesOf_without (handle : U32) : handlesOf (without loaded handle) = (handlesOf loaded).erase handle := by
  ext a
  simp only [Finset.mem_erase, mem_handlesOf, mem_without]
  exact ⟨fun ⟨r, member, other⟩ => ⟨other, r, member⟩, fun ⟨other, r, member⟩ => ⟨r, member, other⟩⟩

/-- A call of `uso_close` that returns. -/
def CloseStep (st : LoaderState) (handle : U32) (st' : LoaderState) : Prop := usoClose st handle = .ok st'

/-- As many closes as a free USO has uses unload it. -/
theorem closes_free (listed : ListedState st loaded) {handle : U32} {r : UsoRecord} (member : (handle, r) ∈ loaded)
    (closable : ClosableRecord r) (free : Free (Holds loaded) (handlesOf loaded) handle) :
    ∃ handles st', Run CloseStep st handles st' ∧ ListedState st' (without loaded handle) := by
  induction counted : r.refCount.toNat using Nat.strongRecOn generalizing st loaded r with
  | ind uses ih =>
    have closes := closeable_of_free member closable.table free
    obtain ⟨st', returned⟩ := (usoClose_returns_iff listed member closable.startable).mpr (.inl closable.table)
    obtain ⟨loaded', result, listed'⟩ := usoClose_result listed returned
    cases result with
    | unloaded => exact ⟨[handle], st', .next returned (.done st'), listed'⟩
    | kept r' closeable member' tested left =>
      obtain rfl : r' = r := congrArg Prod.snd (listed.represents.unique member' member rfl)
      rw [closes, Except.ok.injEq] at tested
      rw [← tested, Bool.true_and, beq_eq_false_iff_ne] at left
      have fewer : (closedCount r'.refCount).toNat < uses := by
        have step := closedCount_toNat r'.refCount
        have some : (closedCount r'.refCount).toNat ≠ 0 := fun none => left (BitVec.eq_of_toNat_eq none)
        omega
      have still : Free (Holds (withRefCount loaded handle (closedCount r'.refCount)))
          (handlesOf (withRefCount loaded handle (closedCount r'.refCount))) handle := by
        intro user inList other holds
        rw [handlesOf_withRefCount] at inList
        exact free user inList other (holds_withRefCount.mp holds)
      obtain ⟨handles, last, run, final⟩ := ih _ fewer listed' (mem_withRefCount_self member _)
        ⟨⟨closable.startable.ehFrame, closable.startable.ctors, closable.startable.dtors⟩, closable.table⟩ still rfl
      rw [without_withRefCount] at final
      exact ⟨handle :: handles, last, .next returned run, final⟩

/-- What can be taken away in some order can be closed in that order. -/
theorem closes_peels {holds : U32 → U32 → Prop} {s t : Finset U32} {order : List U32} (peels : Peels holds s order t)
    (listed : ListedState st loaded) (closable : ∀ h ∈ loaded, ClosableRecord h.2) (handles : handlesOf loaded = s)
    (covers : ∀ user handle, Holds loaded user handle → holds user handle) :
    ∃ closed st' loaded', Run CloseStep st closed st' ∧ ListedState st' loaded' ∧ handlesOf loaded' = t := by
  induction peels generalizing st loaded with
  | done s => exact ⟨[], st, loaded, .done st, listed, handles⟩
  | @next s t a rest here free _ ih =>
    subst handles
    obtain ⟨r, member⟩ := mem_handlesOf.mp here
    have first := closes_free listed member (closable _ member) fun user inList other holds' =>
      free user inList other (covers _ _ holds')
    obtain ⟨closed, middle, run, listed'⟩ := first
    have later : ∀ user handle, Holds (without loaded a) user handle → holds user handle := fun user handle holds' =>
      covers _ _ (holds'.transport fun b r inRest _ => ⟨r, (mem_without.mp inRest).1, rfl⟩)
    obtain ⟨closed', st', loaded', run', final⟩ :=
      ih listed' (fun h inRest => closable h (mem_without.mp inRest).1) (handlesOf_without a) later
    exact ⟨closed ++ closed', st', loaded', run.append run', final⟩

/-! ### What stays -/

theorem Core.transport {c : Set U32} (core : Core (Holds loaded) c)
    (kept : ∀ a r, (a, r) ∈ loaded → a ∈ c → ∃ r', (a, r') ∈ loaded' ∧ r'.uso = r.uso) : Core (Holds loaded') c := by
  intro a member
  obtain ⟨b, holder, other, holds⟩ := core a member
  refine ⟨b, holder, other, holds.transport fun x r inList which => kept x r inList ?_⟩
  rcases which with rfl | rfl
  · exact holder
  · exact member

theorem stuck_transport {a : U32} (stuck : Stuck (Holds loaded) (handlesOf loaded) a)
    (kept : ∀ c : Set U32, Core (Holds loaded) c → c ⊆ handlesOf loaded → ∀ a r, (a, r) ∈ loaded → a ∈ c →
      ∃ r', (a, r') ∈ loaded' ∧ r'.uso = r.uso) : Stuck (Holds loaded') (handlesOf loaded') a := by
  obtain ⟨c, inside, core, member⟩ := stuck
  refine ⟨c, fun b inCore => ?_, Core.transport core (kept c core inside), member⟩
  obtain ⟨r, inList⟩ := mem_handlesOf.mp (inside inCore)
  obtain ⟨r', inList', -⟩ := kept c core inside b r inList inCore
  exact mem_handlesOf.mpr ⟨r', inList'⟩

/-- No call unloads a USO that is stuck, or frees it from its holders. -/
theorem callStep_stuck {allowed : Bytes → Prop} (listed : ListedState st loaded) {call : Call}
    (step : CallStep allowed st call st') :
    ∃ loaded', ListedState st' loaded' ∧
      ∀ a, Stuck (Holds loaded) (handlesOf loaded) a → Stuck (Holds loaded') (handlesOf loaded') a := by
  cases step with
  | opened kind fresh returned =>
    obtain ⟨loaded', result, listed'⟩ := usoOpen_result listed fresh returned
    refine ⟨loaded', listed', fun a stuck => stuck_transport stuck fun c _ _ b r member _ => ?_⟩
    cases result with
    | reopened h => exact mem_withRefCount_of_mem member _ _
    | missing => exact ⟨r, member, rfl⟩
    | unresolved => exact ⟨r, member, rfl⟩
    | opened => exact ⟨r, List.mem_append_left _ member, rfl⟩
  | closed returned =>
    obtain ⟨loaded', result, listed'⟩ := usoClose_result listed returned
    refine ⟨loaded', listed', fun a stuck => stuck_transport stuck fun c core inside b r member inCore => ?_⟩
    cases result with
    | kept r' => exact mem_withRefCount_of_mem member _ _
    | unloaded r' next member' closes =>
      refine ⟨r, mem_without.mpr ⟨member, ?_⟩, rfl⟩
      rintro rfl
      exact core.not_free inside inCore (free_of_closeable listed member' closes)

end

/-- Exactly the USOs in a circle of holders, and what these hold, can never be unloaded again: whatever is
opened and closed they stay, and closing alone unloads all the others. -/
theorem stuck_decides {memory : Memory} {globalSymFile : Bytes} {calls : List Call} {st : LoaderState}
    (run : Run (CallStep Exporting) (initialState memory globalSymFile) calls st) {loaded : Registry}
    (follows : usoList st = .ok loaded) :
    (∀ a, Stuck (Holds loaded) (handlesOf loaded) a → ∀ later st', Run (CallStep fun _ => True) st later st' →
      usoIsHandleValid st' a = .ok true) ∧
    ∃ (handles : List U32) (st' : LoaderState), Run (CallStep Exporting) st (handles.map .usoClose) st' ∧
      ∀ a, usoIsHandleValid st' a = .ok true ↔ Stuck (Holds loaded) (handlesOf loaded) a := by
  obtain ⟨loaded', listed, closable⟩ := callRun_records (P := ClosableRecord)
    (fun _ _ own => ⟨⟨own.startable.ehFrame, own.startable.ctors, own.startable.dtors⟩, own.table⟩)
    (fun bytes exporting _ _ _ _ _ _ => exporting.record _ _ _ _ _ _) run
  obtain rfl := listed.represents.seen follows
  constructor
  · intro a stuck later st' rest
    obtain ⟨last, listed', stuck'⟩ := rest.invariant
      (P := fun s => ∃ known, ListedState s known ∧ Stuck (Holds known) (handlesOf known) a)
      (fun s call s' step ⟨known, before, own⟩ =>
        have ⟨known', after, keeps⟩ := callStep_stuck before step
        ⟨known', after, keeps a own⟩)
      ⟨loaded, listed, stuck⟩
    obtain ⟨c, inside, -, member⟩ := stuck'
    exact (usoIsHandleValid_iff listed' a).mpr (List.mem_toFinset.mp (inside member))
  · obtain ⟨order, left, peels, isStuck⟩ := exists_peels_stuck (Holds loaded) (handlesOf loaded)
    obtain ⟨closed, st', last, closing, listed', handles⟩ := closes_peels peels listed closable rfl fun _ _ holds => holds
    refine ⟨closed, st', closing.map fun _ _ _ returned => .closed returned, fun a => ?_⟩
    rw [usoIsHandleValid_iff listed', ← isStuck, ← handles, handlesOf, List.mem_toFinset]

/-! The library, the program that imports its `f`, and a third file that imports the program's `g` and
exports an `f` of its own. Nothing is bound to this one, but the program has a pointer under its name. -/

def importedG : ElfSymbol := { exportedG with info := 0x10, shndx := 0 }

def hookElf : Elf := sampleElf [nullSymbol, importedG, exportedF] (by decide)

def hookTool : Elf2uso := sampleTool hookElf [importSymbol 1 importedG] [exportSymbol 2 exportedF 1]

def hookFile : Bytes := usoWrite hookTool [104]

theorem libraryFile_exporting : Exporting libraryFile :=
  ⟨nameSort, libraryElf, libraryTool, [108],
    sampleTool_produced (by decide +kernel) (by decide +kernel) (by decide) (by decide +kernel) (by decide +kernel),
    by decide, rfl⟩

theorem programFile_exporting : Exporting programFile :=
  ⟨nameSort, programElf, programTool, [112],
    sampleTool_produced (by decide +kernel) (by decide +kernel) (by decide) (by decide +kernel) (by decide +kernel),
    by decide, rfl⟩

theorem hookFile_exporting : Exporting hookFile :=
  ⟨nameSort, hookElf, hookTool, [104],
    sampleTool_produced (by decide +kernel) (by decide +kernel) (by decide) (by decide +kernel) (by decide +kernel),
    by decide, rfl⟩

def hookAlloc : Allocation where
  handle := 0x80120000
  block := 0x80400000

@[irreducible] def hookOpen : LoaderState := afterOpen programOpen [104] hookFile hookAlloc

theorem hookOpen_run :
    Run (CallStep Exporting) (initialState (fun _ => 0) []) (openCalls ++ [.usoOpen [104] (some hookFile) hookAlloc])
      hookOpen := by
  have library : CallStep Exporting (initialState (fun _ => 0) []) (.usoOpen [108] (some libraryFile) libraryAlloc)
      libraryOpen :=
    .opened (fun _ same => Option.some.inj same ▸ libraryFile_exporting) (fun _ _ => libraryAlloc_fresh.freshHandle)
      usoOpen_library
  have program : CallStep Exporting libraryOpen (.usoOpen [112] (some programFile) programAlloc) programOpen :=
    .opened (fun _ same => Option.some.inj same ▸ programFile_exporting) (fun _ _ => programAlloc_fresh.freshHandle)
      usoOpen_program
  have opened : usoOpen programOpen [104] (some hookFile) hookAlloc = .ok (hookOpen, 0x80120000) := by
    unfold hookOpen
    exact usoOpen_afterOpen (by decide +kernel)
  have fresh : FreshHandle programOpen hookAlloc.handle := ⟨by decide, by decide +kernel⟩
  exact .next library (.next program (.next (.opened (fun _ same => Option.some.inj same ▸ hookFile_exporting)
    (fun _ _ => fresh) opened) (.done _)))

/-- The USO with the first handle holds the one with the second. -/
def holdsIn (loaded : Registry) (user handle : U32) : Bool :=
  loaded.any fun g => g.1 == user && loaded.any fun h => h.1 == handle &&
    (entries h.2.uso.exportSyms).any fun e => searchSymbolTable g.2.uso.importSyms e.name != 0

theorem holds_of_holdsIn {loaded : Registry} {user handle : U32} (found : holdsIn loaded user handle = true) :
    Holds loaded user handle := by
  simp only [holdsIn, List.any_eq_true, Bool.and_eq_true, beq_iff_eq, bne_iff_ne] at found
  obtain ⟨⟨_, g⟩, inList, rfl, ⟨_, r⟩, inList', rfl, held⟩ := found
  exact ⟨g, r, inList, inList', held⟩

/-- The program and the third file hold each other, and the program holds the library. -/
theorem hookOpen_holds :
    (usoList hookOpen).isOk ∧ holdsIn (loadedAt hookOpen) 0x80110000 0x80100000 = true ∧
    holdsIn (loadedAt hookOpen) 0x80120000 0x80110000 = true ∧ holdsIn (loadedAt hookOpen) 0x80110000 0x80120000 = true := by
  decide +kernel

theorem hookOpen_stuck :
    ∀ a ∈ [(0x80100000 : U32), 0x80110000, 0x80120000], Stuck (Holds (loadedAt hookOpen)) (handlesOf (loadedAt hookOpen)) a := by
  obtain ⟨-, library, program, hook⟩ := hookOpen_holds
  have core : Core (Holds (loadedAt hookOpen)) {a | a ∈ [(0x80100000 : U32), 0x80110000, 0x80120000]} := by
    intro a member
    rcases List.mem_cons.mp member with rfl | member
    · exact ⟨0x80110000, by simp, by decide, holds_of_holdsIn library⟩
    rcases List.mem_cons.mp member with rfl | member
    · exact ⟨0x80120000, by simp, by decide, holds_of_holdsIn program⟩
    · obtain rfl := List.mem_singleton.mp member
      exact ⟨0x80110000, by simp, by decide, holds_of_holdsIn hook⟩
  intro a member
  refine ⟨_, fun b inCore => ?_, core, member⟩
  obtain ⟨c, -, -, g, r, -, inList, -⟩ := core b inCore
  exact mem_handlesOf.mpr ⟨r, inList⟩

/-- All three stay for good. -/
theorem stuck_decides_hook :
    (∀ a ∈ [(0x80100000 : U32), 0x80110000, 0x80120000], Stuck (Holds (loadedAt hookOpen)) (handlesOf (loadedAt hookOpen)) a) ∧
    (∀ a, Stuck (Holds (loadedAt hookOpen)) (handlesOf (loadedAt hookOpen)) a → ∀ later st',
      Run (CallStep fun _ => True) hookOpen later st' → usoIsHandleValid st' a = .ok true) ∧
    ∃ (handles : List U32) (st' : LoaderState), Run (CallStep Exporting) hookOpen (handles.map .usoClose) st' ∧
      ∀ a, usoIsHandleValid st' a = .ok true ↔ Stuck (Holds (loadedAt hookOpen)) (handlesOf (loadedAt hookOpen)) a :=
  ⟨hookOpen_stuck, stuck_decides hookOpen_run (usoList_loadedAt hookOpen_holds.1)⟩

/-! ### When nothing is stuck -/

/-- No name under which a loaded USO has a pointer is exported by two loaded USOs, or by one and the global table.
Names that nothing imports, such as `_prolog`, may be. -/
structure ExportsApart (loaded : Registry) (globalSyms : Option (List UsoSymbol)) : Prop where
  each : ∀ user ∈ loaded, ∀ g ∈ loaded, ∀ h ∈ loaded, g.1 ≠ h.1 → ∀ d ∈ entries g.2.uso.exportSyms,
    ∀ e ∈ entries h.2.uso.exportSyms, d.name = e.name → searchSymbolTable user.2.uso.importSyms e.name = 0
  globals : ∀ user ∈ loaded, ∀ h ∈ loaded, ∀ e ∈ entries h.2.uso.exportSyms, ∀ d ∈ entries globalSyms,
    d.name = e.name → searchSymbolTable user.2.uso.importSyms e.name = 0

/-- Nothing is bound to a USO that was loaded later. -/
def BoundBackward (loaded : Registry) (binding : Binding) : Prop := loaded.Pairwise fun g h => ¬ BoundBy binding g h.1

section
variable {loaded loaded' : Registry} {binding binding' : Binding} {globalSyms : Option (List UsoSymbol)}

theorem BoundBackward.withRefCount (backward : BoundBackward loaded binding) (handle count : U32) :
    BoundBackward (withRefCount loaded handle count) binding := by
  refine List.pairwise_map.mpr (backward.imp fun {g h} apart => ?_)
  have bound : BoundBy binding (if g.1 = handle then (g.1, { g.2 with refCount := count }) else g) =
      BoundBy binding g := by
    split <;> rfl
  have target : (if h.1 = handle then (h.1, { h.2 with refCount := count }) else h).1 = h.1 := by
    split <;> rfl
  rwa [bound, target]

theorem BoundBackward.change (provided : AllProvided loaded globalSyms binding) (backward : BoundBackward loaded binding)
    {call : Call} (change : Change globalSyms loaded binding call loaded' binding') : BoundBackward loaded' binding' := by
  cases change with
  | reopened h => exact backward.withRefCount _ _
  | refused => exact backward
  | kept => exact backward.withRefCount _ _
  | removed handle => exact List.Pairwise.sublist List.filter_sublist backward
  | added filename file alloc r notLoaded fresh =>
    have same {g : U32 × UsoRecord} (member : g ∈ loaded) (name : Bytes) :
        Function.update binding alloc.handle (exporterOf loaded) g.1 name = binding g.1 name := by
      rw [Function.update_of_ne (fresh g member)]
    refine List.pairwise_append.mpr ⟨backward.imp_of_mem fun {g h} inList _ apart => ?_, List.pairwise_singleton .., ?_⟩
    · rintro ⟨s, imported, pointer, bound⟩
      exact apart ⟨s, imported, pointer, (same inList s.name).symm.trans bound⟩
    · rintro g inList h new ⟨s, imported, pointer, bound⟩
      obtain rfl := List.mem_singleton.mp new
      rw [same inList] at bound
      have stored := provided g inList s imported pointer
      unfold Provided at stored
      rw [bound] at stored
      obtain ⟨r', member, -⟩ := stored
      exact fresh _ member rfl

/-- Where names are exported once, the holders of a USO are bound to it. -/
theorem boundBy_of_holds (provided : AllProvided loaded globalSyms binding) (apart : ExportsApart loaded globalSyms) {user handle : U32}
    (holds : Holds loaded user handle) : ∃ g, (user, g) ∈ loaded ∧ BoundBy binding (user, g) handle := by
  obtain ⟨g, r, inList, member, e, exported, held⟩ := holds
  obtain ⟨pointer, s, imported, named, found⟩ := searchSymbolTable_exports held
  have pointer : s.ptr ≠ 0 := found ▸ pointer
  refine ⟨g, inList, s, imported, pointer, ?_⟩
  have stored := provided _ inList s imported pointer
  unfold Provided at stored
  cases bound : binding user s.name with
  | none =>
    simp only [bound] at stored
    obtain ⟨-, d, listed, same, -⟩ := stored
    exact absurd (apart.globals _ inList _ member e exported d listed (same.trans named)) held
  | some exporter =>
    simp only [bound] at stored
    obtain ⟨r', there, -, d, listed, same, -⟩ := stored
    apply Decidable.byContradiction
    intro different
    have other : exporter ≠ handle := fun equal => different (congrArg some equal)
    exact held (apart.each _ inList _ there _ member other d listed e exported (same.trans named))

theorem idxOf_lt_of_bound (nodup : (loaded.map Prod.fst).Nodup) (backward : BoundBackward loaded binding)
    {g h : U32 × UsoRecord} (user : g ∈ loaded) (member : h ∈ loaded) (other : g.1 ≠ h.1) (bound : BoundBy binding g h.1) :
    (loaded.map Prod.fst).idxOf h.1 < (loaded.map Prod.fst).idxOf g.1 := by
  obtain ⟨i, inside, rfl⟩ := List.mem_iff_getElem.mp user
  obtain ⟨j, inside', rfl⟩ := List.mem_iff_getElem.mp member
  have place (k : Nat) (within : k < loaded.length) : (loaded.map Prod.fst).idxOf loaded[k].1 = k := by
    have found := nodup.idxOf_getElem k (by rwa [List.length_map])
    rwa [List.getElem_map] at found
  rw [place, place]
  rcases Nat.lt_trichotomy i j with earlier | same | later
  · exact absurd bound (List.pairwise_iff_getElem.mp backward i j inside inside' earlier)
  · subst same
    exact absurd rfl other
  · exact later

/-- USOs whose names are exported once are not stuck: what is bound to a USO was loaded after it. -/
theorem not_stuck_of_apart (nodup : (loaded.map Prod.fst).Nodup) (provided : AllProvided loaded globalSyms binding)
    (backward : BoundBackward loaded binding) (apart : ExportsApart loaded globalSyms) (a : U32) :
    ¬ Stuck (Holds loaded) (handlesOf loaded) a := by
  refine not_stuck_of_rank (Finset.finite_toSet _) (fun a => (loaded.map Prod.fst).idxOf a) ?_ a
  intro a member b _ other holds
  obtain ⟨g, user, bound⟩ := boundBy_of_holds provided apart holds
  obtain ⟨r, inList⟩ := mem_handlesOf.mp member
  exact idxOf_lt_of_bound nodup backward user inList other bound

end

/-- The invariant of a run with its history, and the order of its bindings. -/
theorem traced_backward {memory : Memory} {globalSymFile : Bytes} (sorted : SortedTable (readGlobalSyms globalSymFile))
    {calls : List Call} {t : Traced} (run : Run TracedStep (tracedStart memory globalSymFile) calls t) :
    ∃ loaded, TracedInvariant t loaded ∧ BoundBackward loaded t.binding := by
  refine run.invariant (P := fun t => ∃ loaded, TracedInvariant t loaded ∧ BoundBackward loaded t.binding) ?_
    ⟨[], ⟨initialState_sound sorted memory, fun h member => absurd member List.not_mem_nil⟩, List.Pairwise.nil⟩
  rintro t call t' step ⟨loaded, invariant, backward⟩
  obtain ⟨loaded', sound', globals, change⟩ := tracedStep_change invariant.sound step
  exact ⟨loaded', ⟨sound', globals ▸ invariant.provided.change invariant.sound change⟩,
    backward.change invariant.provided change⟩

/-- Every handle there is stands in the list. -/
theorem run_heap {memory : Memory} {globalSymFile : Bytes} {calls : List Call} {st : LoaderState}
    (run : Run Step (initialState memory globalSymFile) calls st) :
    ∃ loaded, ListedState st loaded ∧ ∀ a, a ∈ st.heap ↔ a ∈ loaded.map Prod.fst := by
  refine run.invariant (P := fun st => ∃ loaded, ListedState st loaded ∧ ∀ a, a ∈ st.heap ↔ a ∈ loaded.map Prod.fst) ?_
    ⟨[], initialState_listed memory globalSymFile, fun a => iff_of_false (AList.notMem_empty a) List.not_mem_nil⟩
  rintro st call st' step ⟨loaded, listed, heap⟩
  have call : CallStep (fun _ => True) st call st' := by
    cases step with
    | opened _ fresh returned => exact .opened (fun _ _ => trivial) (fun bytes found => (fresh bytes found).freshHandle) returned
    | closed returned => exact .closed returned
  obtain ⟨loaded', listed', keeps⟩ := Reinitialization.callStep_keeps listed call
  refine ⟨loaded', listed', fun a => (keeps.heap a).trans (or_iff_left ?_)⟩
  rintro ⟨inHeap, other⟩
  exact other ((heap a).mp inHeap)

/-- As long as every name that is in use is exported once, everything that was loaded can be unloaded by closing alone, and
nothing is left of it. -/
theorem exportsApart_drains {memory : Memory} {globalSymFile : Bytes} (sorted : SortedTable (readGlobalSyms globalSymFile))
    {calls : List Call} {st : LoaderState} (run : Run Step (initialState memory globalSymFile) calls st)
    {loaded : Registry} (follows : usoList st = .ok loaded) (tables : ∀ h ∈ loaded, h.2.uso.exportSyms ≠ none)
    (apart : ExportsApart loaded st.globalSyms) :
    ∃ (handles : List U32) (st' : LoaderState), Run Step st (handles.map .usoClose) st' ∧ usoList st' = .ok [] ∧
      ∀ a, a ∉ st'.heap := by
  obtain ⟨binding, traced⟩ := exists_traced run ⟨[], initialState_sound sorted memory⟩ fun _ _ => none
  obtain ⟨loaded', invariant, backward⟩ := traced_backward sorted traced
  obtain rfl := invariant.sound.represents.seen follows
  have free := not_stuck_of_apart invariant.sound.represents.linked.nodup invariant.provided backward apart
  obtain ⟨order, left, peels, isStuck⟩ := exists_peels_stuck (Holds loaded) (handlesOf loaded)
  obtain ⟨closed, st', last, closing, listed', handles⟩ := closes_peels peels invariant.sound.listed
    (fun h member => ⟨(invariant.sound.records h member).toStartableRecord, tables h member⟩) rfl fun _ _ holds => holds
  have calling : Run Step st (closed.map .usoClose) st' := closing.map fun _ _ _ returned => .closed returned
  obtain ⟨last', listedLast, heap⟩ := run_heap (run.append calling)
  have none : last = [] := by
    cases last with
    | nil => rfl
    | cons h rest =>
      have member : h.1 ∈ left := handles ▸ mem_handlesOf.mpr ⟨h.2, List.mem_cons_self⟩
      exact absurd ((isStuck _).mp member) (free _)
  subst none
  obtain rfl := listedLast.represents.eq listed'.represents
  exact ⟨closed, st', calling, usoList_eq listed'.represents, fun a inHeap => absurd ((heap a).mp inHeap) List.not_mem_nil⟩

theorem exportsApart_drains_program :
    ∃ (handles : List U32) (st' : LoaderState), Run Step programOpen (handles.map .usoClose) st' ∧ usoList st' = .ok [] ∧
      ∀ a, a ∉ st'.heap := by
  have sorted : SortedTable (readGlobalSyms []) := by unfold SortedTable; decide
  have follows : usoList programOpen = .ok (loadedAt programOpen) := usoList_loadedAt (by decide +kernel)
  have tables : ∀ h ∈ loadedAt programOpen, h.2.uso.exportSyms ≠ none := by decide +kernel
  have each : ∀ user ∈ loadedAt programOpen, ∀ g ∈ loadedAt programOpen, ∀ h ∈ loadedAt programOpen, g.1 ≠ h.1 →
      ∀ d ∈ entries g.2.uso.exportSyms, ∀ e ∈ entries h.2.uso.exportSyms, d.name = e.name →
        searchSymbolTable user.2.uso.importSyms e.name = 0 := by decide +kernel
  have globals : ∀ user ∈ loadedAt programOpen, ∀ h ∈ loadedAt programOpen, ∀ e ∈ entries h.2.uso.exportSyms,
      ∀ d ∈ entries programOpen.globalSyms, d.name = e.name →
        searchSymbolTable user.2.uso.importSyms e.name = 0 := by decide +kernel
  exact exportsApart_drains sorted programOpen_run follows tables ⟨each, globals⟩

end DragonUso.Draining
