import DragonUso.NameRefinement

/-! The order of loads. A file is refused while a name it needs is missing, so programs try again later;
which files get in that way does not depend on the order in which they are tried. -/

namespace DragonUso.LoadOrder
open ByteOrder WordMemory Runs Format SymbolSearch Loader HandleList LoaderSteps OpenBinding Isolation CrossLinking
open NameLinker NameRefinement

/-! ### Among names -/

section
variable {ν : Type} [DecidableEq ν] {disk : ν → Option (Interface ν)} {globals : ν → Bool}
  {table other : List (Member ν)}

/-- Every file linked in the one table is linked in the other. -/
def Included (table other : List (Member ν)) : Prop := ∀ name, isLinked table name = true → isLinked other name = true

/-- A request that drops nothing and loads only what is wanted. -/
def Loads (wanted : ν → Prop) : Request ν → Prop
  | .load name => wanted name
  | .drop _ => False
  | _ => True

/-- No wanted file can be loaded that is not there. -/
def Exhausted (disk : ν → Option (Interface ν)) (globals : ν → Bool) (wanted : ν → Prop) (table : List (Member ν)) : Prop :=
  ∀ name, wanted name → (load globals table name (disk name)).2 = true → isLinked table name = true

/-- More files offer more names. -/
theorem offered_included (sound : Sound disk globals table) (sound' : Sound disk globals other)
    (included : Included table other) {symbol : ν} (offers : offered globals table symbol = true) :
    offered globals other symbol = true := by
  rw [offered_iff] at offers ⊢
  refine offers.imp_left ?_
  rintro ⟨m, member, listed⟩
  have linked := included m.name (isLinked_iff.mpr (List.mem_map_of_mem member))
  obtain ⟨o, there, same⟩ := List.mem_map.mp (isLinked_iff.mp linked)
  obtain ⟨face, found, made⟩ := sound.made m member
  obtain ⟨face', found', made'⟩ := sound'.made o there
  rw [same, found, Option.some.injEq] at found'
  refine ⟨o, there, ?_⟩
  rw [made'.exports, ← found', ← made.exports]
  exact listed

/-- What can be loaded can be loaded when more is linked. -/
theorem load_included (sound : Sound disk globals table) (sound' : Sound disk globals other)
    (included : Included table other) {name : ν} (loads : (load globals table name (disk name)).2 = true) :
    (load globals other name (disk name)).2 = true := by
  unfold load at loads ⊢
  by_cases linked' : isLinked other name = true
  · rw [if_pos linked']
  rw [if_neg (mt (included name) linked')] at loads
  rw [if_neg linked']
  cases found : disk name with
  | none => simp [found] at loads
  | some face =>
    simp only [found] at loads ⊢
    split at loads
    next resolved =>
      have grown : (face.imports.all fun i => i.2 || offered globals other i.1) = true := by
        rw [List.all_eq_true] at resolved ⊢
        intro i member
        rw [Bool.or_eq_true]
        exact (Bool.or_eq_true_iff.mp (resolved i member)).imp_right (offered_included sound sound' included)
      rw [if_pos grown]
    next => cases loads

/-- A load links what it was asked for, if it succeeds, and nothing else. -/
theorem isLinked_load {name : ν} {file : Option (Interface ν)} {one : ν}
    (linked : isLinked (load globals table name file).1 one = true) :
    isLinked table one = true ∨ (load globals table name file).2 = true ∧ one = name := by
  cases answer : (load globals table name file).2 with
  | false =>
    rw [load_refused answer] at linked
    exact .inl linked
  | true =>
    unfold load at linked
    split at linked
    · rw [isLinked_iff, names_setUses, ← isLinked_iff] at linked
      exact .inl linked
    cases file with
    | none => exact .inl linked
    | some face =>
      simp only at linked
      split at linked
      · rw [isLinked_iff, List.map_append, List.mem_append, ← isLinked_iff] at linked
        exact linked.imp_right fun last => ⟨rfl, List.mem_singleton.mp last⟩
      · exact .inl linked

/-- Loads of wanted files never get past a table in which no wanted file is missing that could be loaded. -/
theorem serve_included {wanted : ν → Prop} {requests : List (Request ν)} (loads : ∀ r ∈ requests, Loads wanted r)
    (sound : Sound disk globals table) (sound' : Sound disk globals other)
    (exhausted : Exhausted disk globals wanted other) (included : Included table other) :
    Included (serve disk globals requests table).2 other := by
  induction requests generalizing table with
  | nil => exact included
  | cons request rest ih =>
    rw [List.forall_mem_cons] at loads
    refine ih loads.2 (sound.respond request) ?_
    cases request with
    | load name =>
      intro one linked
      rcases isLinked_load linked with before | ⟨answer, rfl⟩
      · exact included one before
      · exact exhausted _ loads.1 (load_included sound sound' included answer)
    | drop name => exact absurd loads.1 id
    | find => exact included
    | findAny => exact included
    | loaded => exact included

end

/-! ### In the library -/

/-- Every wanted file is loaded, or `uso_open` has just refused it. -/
def Tried (disk : Bytes → Option AbiFile) (wanted : Bytes → Prop) (st : LoaderState) (loaded : Registry) : Prop :=
  ∀ name, wanted name → usoGetHandle loaded name ≠ 0 ∨ ∃ st', Performs disk st (.load name, false) st'

theorem exhausted_of_tried {disk : Bytes → Option AbiFile} (plain : ∀ name file, disk name = some file → PlainFile file)
    {globalSyms : Option (List UsoSymbol)} {st : LoaderState} {loaded : Registry} {table : List (Member Bytes)}
    (shown : Shown disk globalSyms st loaded table) {wanted : Bytes → Prop} (tried : Tried disk wanted st loaded) :
    Exhausted (faces disk) (globalNames globalSyms) wanted table := by
  intro name want answer
  rcases tried name want with found | ⟨st', refused⟩
  · exact (shown.isLinked name).mpr found
  · have served : false = (load (globalNames globalSyms) table name (faces disk name)).2 :=
      (performs_served plain shown refused).1
    rw [answer] at served
    cases served

/-- Trying the wanted files until each is loaded or refused loads everything that loads of wanted files can
load, in any order and any number of attempts. -/
theorem tried_loadsMost {disk : Bytes → Option AbiFile} (plain : ∀ name file, disk name = some file → PlainFile file)
    {globalSymFile : Bytes} {memory memory' : Memory} {calls calls' : List (Request Bytes × Bool)} {st st' : LoaderState}
    (run : Run (Performs disk) (initialState memory globalSymFile) calls st)
    (run' : Run (Performs disk) (initialState memory' globalSymFile) calls' st') {wanted : Bytes → Prop}
    {loaded loaded' : Registry} (follows : usoList st = .ok loaded) (follows' : usoList st' = .ok loaded')
    (tried : Tried disk wanted st loaded) (loads : ∀ call ∈ calls', Loads wanted call.1) (name : Bytes)
    (found : usoGetHandle loaded' name ≠ 0) : usoGetHandle loaded name ≠ 0 := by
  obtain ⟨-, _, shown⟩ := runs_served plain run (initialState_shown disk memory globalSymFile)
  obtain ⟨-, _, shown'⟩ := runs_served plain run' (initialState_shown disk memory' globalSymFile)
  obtain rfl := shown.listed.represents.seen follows
  obtain rfl := shown'.listed.represents.seen follows'
  have asked : ∀ r ∈ calls'.map Prod.fst, Loads wanted r := by
    intro r member
    obtain ⟨call, inRun, rfl⟩ := List.mem_map.mp member
    exact loads call inRun
  have included := serve_included asked .empty shown.sound (exhausted_of_tried plain shown tried)
    fun _ none => absurd none Bool.false_ne_true
  exact (shown.isLinked name).mp (included name ((shown'.isLinked name).mpr found))

/-- With the library and the sample loaded there is nothing left to load, whatever is wanted. -/
theorem addressOpen_tried : Tried sampleNames (fun _ => True) addressOpen (loadedAt addressOpen) := by
  have steps : Run Step (initialState (fun _ => 0) []) _ addressOpen :=
    run_addressOpen.refine (P := fun _ => True)
      (fun _ _ _ step _ => ⟨diskStep_sound (fun _ _ named => sampleDisk_distinct named) step, trivial⟩) trivial
  obtain ⟨loaded, sound⟩ := run_sound (by unfold SortedTable; decide) steps
  obtain rfl := sound.represents.seen (usoList_loadedAt (by decide +kernel))
  intro name _
  by_cases library : name = [108]
  · left
    rw [library]
    decide +kernel
  by_cases address : name = [97]
  · left
    rw [address]
    decide +kernel
  · right
    have named : ∀ h ∈ loadedAt addressOpen, h.2.name = [108] ∨ h.2.name = [97] := by decide +kernel
    refine ⟨addressOpen, performs_absent sound (fun h member same => ?_) ?_⟩
    · rcases named h member with first | second
      · exact library (same.symm.trans first)
      · exact address (same.symm.trans second)
    · rw [sampleNames, if_neg library, if_neg address]

theorem tried_loadsMost_address : usoGetHandle (loadedAt addressOpen) [108] ≠ 0 :=
  tried_loadsMost sampleNames_plain (.next performs_library (.next performs_address (.done _)))
    (.next performs_library (.next performs_missing (.done _))) (usoList_loadedAt (by decide +kernel))
    (usoList_loadedAt (by decide +kernel)) addressOpen_tried (by simp [Loads]) [108] (by decide +kernel)

end DragonUso.LoadOrder
