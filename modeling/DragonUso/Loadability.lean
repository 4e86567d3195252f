import DragonUso.LoadOrder

/-! What can be loaded at all. A file gets in once everything it cannot do without is there, so the files
that ever get in are those that can be reached from the global names, and files that wait for each other
never do. -/

namespace DragonUso.Loadability
open ByteOrder WordMemory Runs Format SymbolSearch Loader HandleList LoaderSteps OpenBinding Isolation
open NameLinker NameRefinement LoadOrder

/-! ### Among names -/

section
variable {ν : Type} [DecidableEq ν] {disk : ν → Option (Interface ν)} {globals : ν → Bool} {wanted : ν → Prop}
  {table : List (Member ν)}

def Exports (disk : ν → Option (Interface ν)) (name symbol : ν) : Prop :=
  ∃ face, disk name = some face ∧ symbol ∈ face.exports

/-- What a file cannot do without and has to get from another one. -/
def Requires (disk : ν → Option (Interface ν)) (globals : ν → Bool) (name symbol : ν) : Prop :=
  ∃ face, disk name = some face ∧ (symbol, false) ∈ face.imports ∧ globals symbol = false

/-- A wanted file for which there is a provider of each name it requires, and each of these can be loaded. -/
inductive Loadable (disk : ν → Option (Interface ν)) (globals : ν → Bool) (wanted : ν → Prop) : ν → Prop where
  | intro {name : ν} (provider : ν → ν) : wanted name → (disk name).isSome →
    (∀ symbol, Requires disk globals name symbol → Exports disk (provider symbol) symbol) →
    (∀ symbol, Requires disk globals name symbol → Loadable disk globals wanted (provider symbol)) →
    Loadable disk globals wanted name

/-- A request that loads only what is wanted, whatever else it does. -/
def Wants (wanted : ν → Prop) : Request ν → Prop
  | .load name => wanted name
  | _ => True

omit [DecidableEq ν] in
/-- The providers need not be the same each time. -/
theorem loadable_iff {name : ν} : Loadable disk globals wanted name ↔ wanted name ∧ (disk name).isSome ∧
    ∀ symbol, Requires disk globals name symbol → ∃ other, Exports disk other symbol ∧ Loadable disk globals wanted other := by
  constructor
  · rintro ⟨provider, want, found, exports, loadable⟩
    exact ⟨want, found, fun symbol requires => ⟨provider symbol, exports symbol requires, loadable symbol requires⟩⟩
  · rintro ⟨want, found, provided⟩
    have every : ∀ symbol, ∃ other, Requires disk globals name symbol →
        Exports disk other symbol ∧ Loadable disk globals wanted other := by
      intro symbol
      by_cases requires : Requires disk globals name symbol
      · obtain ⟨other, provides⟩ := provided symbol requires
        exact ⟨other, fun _ => provides⟩
      · exact ⟨name, fun needed => absurd needed requires⟩
    choose provider provides using every
    exact .intro provider want found (fun symbol requires => (provides symbol requires).1)
      (fun symbol requires => (provides symbol requires).2)

/-- A load that succeeds with a file that was not linked found all that the file requires. -/
theorem load_provided (sound : Sound disk globals table) {name : ν} (absent : ¬ isLinked table name = true)
    (loads : (load globals table name (disk name)).2 = true) : (disk name).isSome ∧
      ∀ symbol, Requires disk globals name symbol → ∃ other, Exports disk other symbol ∧ isLinked table other = true := by
  unfold load at loads
  rw [if_neg absent] at loads
  cases found : disk name with
  | none => simp [found] at loads
  | some face =>
    refine ⟨rfl, ?_⟩
    rintro symbol ⟨face', found', strong, notGlobal⟩
    rw [found, Option.some.injEq] at found'
    subst found'
    simp only [found] at loads
    split at loads
    next resolved =>
      have offers : offered globals table symbol = true := by simpa using List.all_eq_true.mp resolved (symbol, false) strong
      rw [offered_iff, notGlobal] at offers
      obtain ⟨m, member, listed⟩ := offers.resolve_right Bool.false_ne_true
      obtain ⟨own, onDisk, made⟩ := sound.made m member
      exact ⟨m.name, ⟨own, onDisk, made.exports ▸ listed⟩, isLinked_iff.mpr (List.mem_map_of_mem member)⟩
    next => cases loads

theorem isLinked_drop {name one : ν} (linked : isLinked (drop table name) one = true) : isLinked table one = true := by
  unfold drop at linked
  split at linked
  next => exact linked
  next m found =>
    rw [isLinked_iff] at linked ⊢
    split at linked
    · exact (List.filter_sublist.map Member.name).mem linked
    · rwa [names_setUses] at linked

/-- Whatever is loaded and dropped, only loadable files get in. -/
theorem serve_loadable {requests : List (Request ν)} (wants : ∀ r ∈ requests, Wants wanted r)
    (sound : Sound disk globals table) (before : ∀ name, isLinked table name = true → Loadable disk globals wanted name) :
    ∀ name, isLinked (serve disk globals requests table).2 name = true → Loadable disk globals wanted name := by
  induction requests generalizing table with
  | nil => exact before
  | cons request rest ih =>
    rw [List.forall_mem_cons] at wants
    refine ih wants.2 (sound.respond request) ?_
    cases request with
    | load name =>
      intro one linked
      by_cases old : isLinked table one = true
      · exact before one old
      rcases isLinked_load linked with same | ⟨answer, rfl⟩
      · exact absurd same old
      · obtain ⟨found, provided⟩ := load_provided sound old answer
        exact loadable_iff.mpr ⟨wants.1, found, fun symbol requires =>
          (provided symbol requires).imp fun other provides => ⟨provides.1, before other provides.2⟩⟩
    | drop name => exact fun one linked => before one (isLinked_drop linked)
    | find => exact before
    | findAny => exact before
    | loaded => exact before

/-- Where no wanted file is missing that could be loaded, none is missing that is loadable. -/
theorem linked_of_loadable (sound : Sound disk globals table) (exhausted : Exhausted disk globals wanted table) {name : ν}
    (loadable : Loadable disk globals wanted name) : isLinked table name = true := by
  induction loadable with
  | @intro name provider want found exports _ linked =>
    apply exhausted name want
    unfold load
    by_cases already : isLinked table name = true
    · rw [if_pos already]
    rw [if_neg already]
    obtain ⟨face, onDisk⟩ := Option.isSome_iff_exists.mp found
    have resolved : (face.imports.all fun i => i.2 || offered globals table i.1) = true := by
      rw [List.all_eq_true]
      rintro ⟨symbol, weak⟩ listed
      cases weak with
      | true => rfl
      | false =>
        cases isGlobal : globals symbol with
        | true => simp [offered_iff.mpr (.inr isGlobal)]
        | false =>
          have requires : Requires disk globals name symbol := ⟨face, onDisk, listed, isGlobal⟩
          obtain ⟨own, there, exported⟩ := exports symbol requires
          obtain ⟨m, member, same⟩ := List.mem_map.mp (isLinked_iff.mp (linked symbol requires))
          obtain ⟨face', there', made⟩ := sound.made m member
          rw [same, there, Option.some.injEq] at there'
          have offers : offered globals table symbol = true :=
            offered_iff.mpr (.inl ⟨m, member, made.exports ▸ there' ▸ exported⟩)
          simp [offers]
    simp only [onDisk, if_pos resolved]

/-- Every name a wanted file requires is exported by a wanted file. -/
def Supplied (disk : ν → Option (Interface ν)) (globals : ν → Bool) (wanted : ν → Prop) : Prop :=
  ∀ name symbol, wanted name → Requires disk globals name symbol → ∃ other, wanted other ∧ Exports disk other symbol

/-- One file has a name that the other requires. -/
def Supplies (disk : ν → Option (Interface ν)) (globals : ν → Bool) (other name : ν) : Prop :=
  ∃ symbol, Requires disk globals name symbol ∧ Exports disk other symbol

omit [DecidableEq ν] in
/-- A supplied file that is not loadable waits for a name that only such files export. -/
theorem waits_of_not_loadable (supplied : Supplied disk globals wanted) {name : ν} (want : wanted name)
    (found : (disk name).isSome) (never : ¬ Loadable disk globals wanted name) :
    ∃ symbol, Requires disk globals name symbol ∧ (∃ other, wanted other ∧ Exports disk other symbol) ∧
      ∀ other, Exports disk other symbol → ¬ Loadable disk globals wanted other := by
  apply Classical.byContradiction
  intro stuck
  refine never (loadable_iff.mpr ⟨want, found, fun symbol requires => ?_⟩)
  apply Classical.byContradiction
  intro none
  exact stuck ⟨symbol, requires, supplied name symbol want requires, fun other exports loads => none ⟨other, exports, loads⟩⟩

omit [DecidableEq ν] in
/-- Without circles every supplied file is loadable. -/
theorem loadable_of_wellFounded (supplied : Supplied disk globals wanted) (acyclic : WellFounded (Supplies disk globals))
    {name : ν} (want : wanted name) (found : (disk name).isSome) : Loadable disk globals wanted name := by
  induction name using acyclic.induction with
  | _ name ih =>
    refine loadable_iff.mpr ⟨want, found, fun symbol requires => ?_⟩
    obtain ⟨other, wanted, face, onDisk, listed⟩ := supplied name symbol want requires
    have exporting : Exports disk other symbol := ⟨face, onDisk, listed⟩
    exact ⟨other, exporting, ih other ⟨symbol, requires, exporting⟩ wanted (Option.isSome_of_eq_some onDisk)⟩

end

/-! ### In the library -/

/-- Names decide what a program can have loaded. Whatever it loads, closes and looks up, every file it has
loaded is loadable; and once it has tried every wanted file in vain or with success, all that are loadable
are loaded. -/
theorem loaded_loadable {disk : Bytes → Option AbiFile} (plain : ∀ name file, disk name = some file → PlainFile file)
    {memory : Memory} {globalSymFile : Bytes} {calls : List (Request Bytes × Bool)} {st : LoaderState}
    (run : Run (Performs disk) (initialState memory globalSymFile) calls st) {wanted : Bytes → Prop}
    (wants : ∀ call ∈ calls, Wants wanted call.1) {loaded : Registry} (follows : usoList st = .ok loaded) :
    let loadable := Loadable (faces disk) (globalNames (some (readGlobalSyms globalSymFile))) wanted
    (∀ name, usoGetHandle loaded name ≠ 0 → loadable name) ∧
      (Tried disk wanted st loaded → ∀ name, loadable name → usoGetHandle loaded name ≠ 0) := by
  obtain ⟨-, _, shown⟩ := runs_served plain run (initialState_shown disk memory globalSymFile)
  obtain rfl := shown.listed.represents.seen follows
  refine ⟨fun name found => ?_, fun tried name loadable => ?_⟩
  · have asked : ∀ r ∈ calls.map Prod.fst, Wants wanted r := by
      intro r member
      obtain ⟨call, inRun, rfl⟩ := List.mem_map.mp member
      exact wants call inRun
    exact serve_loadable asked .empty (fun _ none => absurd none Bool.false_ne_true) name ((shown.isLinked name).mpr found)
  · exact (shown.isLinked name).mp (linked_of_loadable shown.sound (exhausted_of_tried plain shown tried) loadable)

theorem loaded_loadable_address :
    Loadable (faces sampleNames) (globalNames (some (readGlobalSyms []))) (fun _ => True) [97] ∧
      usoGetHandle (loadedAt addressOpen) [97] ≠ 0 := by
  have wants : ∀ call ∈ [(Request.load [108], true), (Request.load [97], true)], Wants (fun _ : Bytes => True) call.1 := by
    simp [Wants]
  obtain ⟨only, all⟩ := loaded_loadable sampleNames_plain (.next performs_library (.next performs_address (.done _))) wants
    (usoList_loadedAt (by decide +kernel))
  have loadable := only [97] (by decide +kernel)
  exact ⟨loadable, all addressOpen_tried [97] loadable⟩

end DragonUso.Loadability
