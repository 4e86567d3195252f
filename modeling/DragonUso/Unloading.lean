import DragonUso.ImportsAlive

/-! When `uso_close` unloads what nothing needs any more, and when it leaves a USO behind. -/

namespace DragonUso.Unloading
open ByteOrder WordMemory Format ToolCollect LoaderImage Relocation SymbolSearch Loader HandleList LoaderSteps OpenBinding
open ImportsAlive Runs

/-- Another loaded USO has an import that was bound to this one. -/
def InUse (loaded : Registry) (binding : Binding) (handle : U32) : Prop :=
  ∃ g ∈ loaded, g.1 ≠ handle ∧ BoundBy binding g handle

/-- Every USO in the list is referenced or used. -/
def AllNeeded (loaded : Registry) (binding : Binding) : Prop :=
  ∀ h ∈ loaded, h.2.refCount ≠ 0 ∨ InUse loaded binding h.1

/-- `user` and nothing else keeps `handle` in use. -/
def LastUser (loaded : Registry) (binding : Binding) (user handle : U32) : Prop :=
  user ≠ handle ∧ InUse loaded binding handle ∧
    ∀ g ∈ loaded, g.1 ≠ handle → BoundBy binding g handle → g.1 = user

/-- Where the calls keep the promise: a reopened count does not wrap to zero unless the USO is in
use; an unloaded USO is not the last user of one whose count is zero; and a USO whose count drops to
zero without being closeable is really in use, not only a namesake. -/
def Settles (loaded : Registry) (binding : Binding) : Call → Prop
  | .usoOpen filename _ _ => ∀ h ∈ loaded, h.1 = usoGetHandle loaded filename →
    h.2.refCount + 1 = 0 → InUse loaded binding h.1
  | .usoClose handle => ∀ r, (handle, r) ∈ loaded → closedCount r.refCount = 0 →
    (isUsoCloseable loaded handle r.uso = .ok true →
      ∀ h ∈ loaded, h.2.refCount = 0 → ¬ LastUser loaded binding handle h.1) ∧
    (isUsoCloseable loaded handle r.uso = .ok false → InUse loaded binding handle)

theorem boundBy_congr {binding : Binding} {g h : U32 × UsoRecord} (same : g.1 = h.1) (uso : g.2.uso = h.2.uso)
    {handle : U32} : BoundBy binding g handle ↔ BoundBy binding h handle := by
  unfold BoundBy
  rw [same, uso]

theorem inUse_withRefCount {loaded : Registry} {binding : Binding} {handle count x : U32} :
    InUse (withRefCount loaded handle count) binding x ↔ InUse loaded binding x := by
  constructor
  · rintro ⟨g, member, other, bound⟩
    obtain ⟨r, inList, same, -⟩ := mem_of_mem_withRefCount member
    exact ⟨(g.1, r), inList, other, (boundBy_congr (g := g) (h := (g.1, r)) rfl same).mp bound⟩
  · rintro ⟨g, member, other, bound⟩
    obtain ⟨r', inList, same⟩ := mem_withRefCount_of_mem member handle count
    exact ⟨(g.1, r'), inList, other, (boundBy_congr (g := (g.1, r')) (h := g) rfl same).mpr bound⟩

/-- Changing one count matters for that USO only. -/
theorem allNeeded_withRefCount {loaded : Registry} {binding : Binding} (needed : AllNeeded loaded binding)
    {handle count : U32} (present : ∃ r, (handle, r) ∈ loaded) :
    AllNeeded (withRefCount loaded handle count) binding ↔ (count = 0 → InUse loaded binding handle) := by
  constructor
  · intro after zero
    obtain ⟨r, member⟩ := present
    exact (after _ (mem_withRefCount_self member count)).elim (fun some => absurd zero some) inUse_withRefCount.mp
  · intro counted h member
    rw [inUse_withRefCount]
    obtain ⟨r, inList, -, refCount⟩ := mem_of_mem_withRefCount member
    by_cases own : h.1 = handle
    · rw [if_pos own] at refCount
      rw [refCount, own]
      by_cases zero : count = 0
      · exact .inr (counted zero)
      · exact .inl zero
    · rw [if_neg own] at refCount
      rw [refCount]
      exact needed _ inList

theorem allNeeded_added {loaded : Registry} {binding : Binding} (needed : AllNeeded loaded binding) {handle : U32}
    {r : UsoRecord} (fresh : ∀ h ∈ loaded, h.1 ≠ handle) (counted : r.refCount = 1) (bound : Bytes → Option U32) :
    AllNeeded (loaded ++ [(handle, r)]) (Function.update binding handle bound) := by
  intro h member
  rcases List.mem_append.mp member with old | new
  · refine (needed h old).imp_right ?_
    rintro ⟨g, user, other, s, imported, pointer, recorded⟩
    refine ⟨g, List.mem_append_left _ user, other, s, imported, pointer, ?_⟩
    rw [Function.update_of_ne (fresh g user)]
    exact recorded
  · rw [List.mem_singleton.mp new]
    left
    rw [counted]
    decide

/-- Removing a USO matters for those it was the last user of. -/
theorem allNeeded_without {loaded : Registry} {binding : Binding} (needed : AllNeeded loaded binding) {handle : U32} :
    AllNeeded (without loaded handle) binding ↔
      ∀ h ∈ loaded, h.2.refCount = 0 → ¬ LastUser loaded binding handle h.1 := by
  constructor
  · rintro after h member zero ⟨other, used, last⟩
    have kept := after h (mem_without.mpr ⟨member, Ne.symm other⟩)
    obtain ⟨g, inRest, differs, bound⟩ := kept.resolve_left (not_not_intro zero)
    obtain ⟨user, apart⟩ := mem_without.mp inRest
    exact apart (last g user differs bound)
  · intro settled h inRest
    obtain ⟨member, other⟩ := mem_without.mp inRest
    by_cases zero : h.2.refCount = 0
    · have used := (needed h member).resolve_left (not_not_intro zero)
      right
      apply Classical.byContradiction
      intro lost
      refine settled h member zero ⟨Ne.symm other, used, ?_⟩
      intro g user differs bound
      apply Decidable.byContradiction
      intro apart
      exact lost ⟨g, mem_without.mpr ⟨user, apart⟩, differs, bound⟩
    · exact .inl zero

/-- One call keeps the promise exactly where it settles. -/
theorem allNeeded_change {t : Traced} {loaded loaded' : Registry} {binding' : Binding} {call : Call}
    (invariant : TracedInvariant t loaded) (needed : AllNeeded loaded t.binding)
    (change : Change t.state.globalSyms loaded t.binding call loaded' binding') :
    AllNeeded loaded' binding' ↔ Settles loaded t.binding call := by
  have unique : ∀ g ∈ loaded, ∀ h ∈ loaded, g.1 = h.1 → g = h :=
    fun g inList h member same => invariant.sound.represents.unique inList member same
  cases change with
  | reopened h filename file alloc member found =>
    rw [allNeeded_withRefCount needed ⟨h.2, member⟩]
    constructor
    · intro counted g inList same
      obtain rfl := unique _ inList _ member (same.trans found.symm)
      exact counted
    · intro settles
      exact settles h member found
  | refused filename file alloc none =>
    refine ⟨fun _ h member same => ?_, fun _ => needed⟩
    exact absurd (same.trans none) (invariant.sound.represents.nonnull member)
  | added filename file alloc r none fresh counted =>
    refine ⟨fun _ h member same => ?_, fun _ => allNeeded_added needed fresh counted _⟩
    exact absurd (same.trans none) (invariant.sound.represents.nonnull member)
  | kept handle r closeable member closes counted =>
    rw [allNeeded_withRefCount needed ⟨r, member⟩]
    constructor
    · intro after r' inList zero
      obtain rfl := congrArg Prod.snd (unique _ inList _ member rfl)
      refine ⟨fun goes => ?_, fun _ => after zero⟩
      rw [closes, Except.ok.injEq] at goes
      simp [goes, zero] at counted
    · intro settles zero
      have refused : closeable = false := by simpa [zero] using counted
      exact (settles r member zero).2 (by rw [closes, refused])
  | removed handle r member closes counted =>
    rw [allNeeded_without needed]
    constructor
    · intro settled r' inList _
      obtain rfl := congrArg Prod.snd (unique _ inList _ member rfl)
      refine ⟨fun _ => settled, fun refused => ?_⟩
      rw [closes] at refused
      simp at refused
    · intro settles
      exact (settles r member counted).1 closes

/-! ### Runs -/

/-- The condition on a call, for the list and the bindings it is made with. -/
def SettlesAt (t : Traced) (call : Call) : Prop :=
  ∀ loaded, usoList t.state = .ok loaded → Settles loaded t.binding call

theorem settlesAt_iff {t : Traced} {loaded : Registry} (listed : usoList t.state = .ok loaded) {call : Call} :
    SettlesAt t call ↔ Settles loaded t.binding call := by
  unfold SettlesAt
  simp [listed]

theorem step_allNeeded_iff {t t' : Traced} {call : Call} {loaded loaded' : Registry} (invariant : TracedInvariant t loaded)
    (needed : AllNeeded loaded t.binding) (step : TracedStep t call t') (listed' : usoList t'.state = .ok loaded') :
    AllNeeded loaded' t'.binding ↔ SettlesAt t call := by
  obtain ⟨loaded'', sound', -, change⟩ := tracedStep_change invariant.sound step
  obtain rfl := sound'.represents.seen listed'
  rw [settlesAt_iff (usoList_eq invariant.sound.represents)]
  exact allNeeded_change invariant needed change

/-- As long as every call settles, every USO in the list is referenced or in use; and the first call
that does not settle leaves one that is neither. -/
theorem allNeeded_of_settles {memory : Memory} {globalSymFile : Bytes}
    (sorted : SortedTable (readGlobalSyms globalSymFile)) {calls : List Call} {t : Traced}
    (always : Always TracedStep SettlesAt (tracedStart memory globalSymFile) calls t) {loaded : Registry}
    (listed : usoList t.state = .ok loaded) :
    AllNeeded loaded t.binding ∧
    ∀ call t' loaded', TracedStep t call t' → usoList t'.state = .ok loaded' →
      (AllNeeded loaded' t'.binding ↔ SettlesAt t call) := by
  have start : ∃ loaded, TracedInvariant (tracedStart memory globalSymFile) loaded ∧
      AllNeeded loaded (tracedStart memory globalSymFile).binding :=
    ⟨[], ⟨initialState_sound sorted memory, fun h member => absurd member List.not_mem_nil⟩,
      fun h member => absurd member List.not_mem_nil⟩
  obtain ⟨loaded₀, invariant, needed⟩ :=
    always.invariant (P := fun t => ∃ loaded, TracedInvariant t loaded ∧ AllNeeded loaded t.binding)
      (by
        rintro s call s' step settles ⟨before, invariant, needed⟩
        obtain ⟨after, invariant'⟩ := TracedInvariant.step step ⟨before, invariant⟩
        have listed' := usoList_eq invariant'.sound.represents
        exact ⟨after, invariant', (step_allNeeded_iff invariant needed step listed').mpr settles⟩)
      start
  obtain rfl := invariant.sound.represents.seen listed
  exact ⟨needed, fun call t' loaded' step listed' => step_allNeeded_iff invariant needed step listed'⟩

/-- Loading the library and the program settles. -/
theorem openCalls_settle :
    ∃ binding, Always TracedStep SettlesAt (tracedStart (fun _ => 0) []) openCalls ⟨programOpen, binding⟩ := by
  have none : usoList (tracedStart (fun _ => 0) []).state = .ok [] := by decide +kernel
  have library : SettlesAt (tracedStart (fun _ => 0) []) (.usoOpen [108] (some libraryFile) libraryAlloc) := by
    rw [settlesAt_iff none]
    exact fun h member => absurd member List.not_mem_nil
  have one : usoList libraryOpen = .ok (loadedAt libraryOpen) := usoList_loadedAt (by decide +kernel)
  have program : ∀ binding, SettlesAt ⟨libraryOpen, binding⟩ (.usoOpen [112] (some programFile) programAlloc) := by
    intro binding
    have counted : ∀ h ∈ loadedAt libraryOpen, h.2.refCount + 1 ≠ 0 := by decide +kernel
    rw [settlesAt_iff (t := ⟨libraryOpen, binding⟩) one]
    exact fun h member _ zero => absurd zero (counted h member)
  have first := TracedStep.opened (t := tracedStart (fun _ => 0) []) (fun _ same => Option.some.inj same ▸ libraryFile_sound)
    (fun _ same => Option.some.inj same ▸ libraryAlloc_fresh) none usoOpen_library
  have second := fun binding => TracedStep.opened (t := ⟨libraryOpen, binding⟩)
    (fun _ same => Option.some.inj same ▸ programFile_sound) (fun _ same => Option.some.inj same ▸ programAlloc_fresh) one
    usoOpen_program
  exact ⟨_, .next first library (.next (second _) (program _) (.done _))⟩

theorem allNeeded_of_settles_program :
    ∃ binding, AllNeeded (loadedAt programOpen) binding ∧
    ∀ call t' loaded', TracedStep ⟨programOpen, binding⟩ call t' → usoList t'.state = .ok loaded' →
      (AllNeeded loaded' t'.binding ↔ SettlesAt ⟨programOpen, binding⟩ call) := by
  have sorted : SortedTable (readGlobalSyms []) := by unfold SortedTable; decide
  have listed : usoList programOpen = .ok (loadedAt programOpen) := usoList_loadedAt (by decide +kernel)
  obtain ⟨binding, always⟩ := openCalls_settle
  exact ⟨binding, allNeeded_of_settles sorted always listed⟩

/-- The state a call of `uso_close` leaves. -/
def afterClose (st : LoaderState) (handle : U32) : LoaderState :=
  match usoClose st handle with
  | .ok next => next
  | .error _ => st

theorem usoClose_afterClose {st : LoaderState} {handle : U32} (returns : (usoClose st handle).isOk) :
    usoClose st handle = .ok (afterClose st handle) := by
  unfold afterClose
  cases call : usoClose st handle with
  | error fault =>
    rw [call] at returns
    cases returns
  | ok next => rfl

/-- The library is closed first, while the program still uses it, and the program after it. -/
@[irreducible] def libraryClosed : LoaderState := afterClose programOpen 0x80100000

@[irreducible] def bothClosed : LoaderState := afterClose libraryClosed 0x80110000

def closeCalls : List Call := openCalls ++ [.usoClose 0x80100000, .usoClose 0x80110000]

/-- The library stays in the list for good, with no reference and nothing that uses it. -/
theorem bothClosed_lingers :
    (∀ sort, elf2uso sort libraryElf = .ok libraryTool ∧ elf2uso sort programElf = .ok programTool) ∧
    ∃ binding, Run TracedStep (tracedStart (fun _ => 0) []) closeCalls ⟨bothClosed, binding⟩ ∧
      usoList bothClosed = .ok (loadedAt bothClosed) ∧ ¬ AllNeeded (loadedAt bothClosed) binding := by
  have sorted : SortedTable (readGlobalSyms []) := by unfold SortedTable; decide
  have first : usoClose programOpen 0x80100000 = .ok libraryClosed := by
    unfold libraryClosed
    exact usoClose_afterClose (by decide +kernel)
  have second : usoClose libraryClosed 0x80110000 = .ok bothClosed := by
    unfold bothClosed
    exact usoClose_afterClose (by decide +kernel)
  have run : Run Step (initialState (fun _ => 0) []) closeCalls bothClosed :=
    programOpen_run.append (.next (.closed first) (.next (.closed second) (.done _)))
  obtain ⟨binding, traced⟩ := exists_traced run ⟨[], initialState_sound sorted _⟩ fun _ _ => none
  refine ⟨elf2uso_samples, binding, traced, usoList_loadedAt (by decide +kernel), ?_⟩
  have handles : ∀ h ∈ loadedAt bothClosed, h.1 = 0x80100000 ∧ h.2.refCount = 0 := by decide +kernel
  have some : loadedAt bothClosed ≠ [] := by decide +kernel
  intro needed
  obtain ⟨h, member⟩ := List.exists_mem_of_ne_nil _ some
  obtain ⟨own, zero⟩ := handles h member
  obtain ⟨g, user, other, -⟩ := (needed h member).resolve_left (not_not_intro zero)
  exact other ((handles g user).1.trans own.symm)

end DragonUso.Unloading
