import DragonUso.NameRefinement
import DragonUso.Unloading

/-! Opens and closes that come in pairs. A program that closes what it opened, last opened first, leaves
the library as it found it, as long as no two files compete for a name that some file imports. -/

namespace DragonUso.ScopedLoads
open ByteOrder WordMemory Runs Format SymbolSearch Loader HandleList LoaderSteps OpenBinding Unloading ElfLinking Isolation
open NameLinker NameRefinement

/-! ### Among names -/

section
variable {ν : Type} [DecidableEq ν] {disk : ν → Option (Interface ν)} {globals : ν → Bool} {table : List (Member ν)}

/-- A name that some file imports. -/
def Imported (disk : ν → Option (Interface ν)) (symbol : ν) : Prop :=
  ∃ name face, disk name = some face ∧ symbol ∈ face.imports.map Prod.fst

/-- A name that some file imports is exported by one file at most, and not by one if it is global. -/
structure OneProvider (disk : ν → Option (Interface ν)) (globals : ν → Bool) : Prop where
  files : ∀ a b face face' symbol, disk a = some face → disk b = some face' → symbol ∈ face.exports →
    symbol ∈ face'.exports → Imported disk symbol → a = b
  globals : ∀ a face symbol, disk a = some face → symbol ∈ face.exports → Imported disk symbol → globals symbol = false

/-- Calls in matching pairs of loads and drops, with calls between them that change nothing. -/
inductive Scoped : List (Request ν × Bool) → Prop where
  | nil : Scoped []
  | look {call : Request ν × Bool} {rest : List (Request ν × Bool)} : idle call = true → Scoped rest → Scoped (call :: rest)
  | scope {name : ν} {inner rest : List (Request ν × Bool)} : Scoped inner → Scoped rest →
    Scoped ((.load name, true) :: (inner ++ (.drop name, true) :: rest))

/-- Nobody needs a file that has just been loaded: what others hold was offered before. -/
theorem needed_last (one : OneProvider disk globals) (sound : Sound disk globals table) {name : ν}
    (absent : ¬ isLinked table name = true) {face : Interface ν} (found : disk name = some face) :
    needed (table ++ [link globals table name face]) (link globals table name face) = false := by
  apply Bool.eq_false_iff.mpr
  intro needed
  obtain ⟨o, inTable, other, symbol, listed, holds⟩ := needed_iff.mp needed
  have before : o ∈ table := by
    rcases List.mem_append.mp inTable with old | new
    · exact old
    · rw [List.mem_singleton.mp new] at other
      exact absurd rfl other
  obtain ⟨own, ofName, made⟩ := sound.made o before
  have imported : Imported disk symbol := ⟨o.name, own, ofName, made.imports symbol holds⟩
  rcases offered_iff.mp (sound.held o before symbol holds) with ⟨m, there, exports⟩ | isGlobal
  · obtain ⟨face', found', made'⟩ := sound.made m there
    have same : m.name = name :=
      one.files _ _ _ _ symbol found' found (made'.exports ▸ exports) listed imported
    exact absent (isLinked_iff.mpr (same ▸ List.mem_map_of_mem there))
  · rw [one.globals name face symbol found listed imported] at isGlobal
    cases isGlobal

end

/-! ### Calls read backwards -/

section
variable {disk : Bytes → Option AbiFile} {st st' : LoaderState} {call : Request Bytes × Bool}

theorem load_inversion (performs : Performs disk st call st') {name : Bytes} {answer : Bool}
    (same : call = (.load name, answer)) :
    ∃ alloc handle, (∀ file, disk name = some file → Fresh st file.bytes alloc) ∧
      usoOpen st name ((disk name).map AbiFile.bytes) alloc = .ok (st', handle) ∧ answer = (handle != 0) := by
  cases performs with
  | @load _ _ alloc handle fresh returned =>
    obtain ⟨request, rfl⟩ := Prod.mk.inj same
    obtain rfl := Request.load.inj request
    exact ⟨alloc, handle, fresh, returned, rfl⟩
  | drop => cases same
  | find => cases (Prod.mk.inj same).1
  | findAny => cases (Prod.mk.inj same).1
  | loaded => cases (Prod.mk.inj same).1

theorem drop_inversion (performs : Performs disk st call st') {name : Bytes} {answer : Bool}
    (same : call = (.drop name, answer)) :
    ∃ loaded, usoList st = .ok loaded ∧ usoGetHandle loaded name ≠ 0 ∧ usoClose st (usoGetHandle loaded name) = .ok st' := by
  cases performs with
  | @drop _ loaded _ follows found returned =>
    obtain ⟨request, -⟩ := Prod.mk.inj same
    obtain rfl := Request.drop.inj request
    exact ⟨loaded, follows, found, returned⟩
  | load => cases (Prod.mk.inj same).1
  | find => cases (Prod.mk.inj same).1
  | findAny => cases (Prod.mk.inj same).1
  | loaded => cases (Prod.mk.inj same).1

end

/-! ### In the library -/

section
variable {disk : Bytes → Option AbiFile} {globalSyms : Option (List UsoSymbol)} {st st' : LoaderState} {loaded : Registry}
  {table : List (Member Bytes)}

theorem usoGetHandle_own (shown : Shown disk globalSyms st loaded table) {h : U32 × UsoRecord} (member : h ∈ loaded) :
    usoGetHandle loaded h.2.name = h.1 := by
  have found : usoGetHandle loaded h.2.name ≠ 0 :=
    fun none => (usoGetHandle_eq_zero shown.listed.represents).mp none h member rfl
  obtain ⟨g, there, same, named, -⟩ := shown.ofHandle found
  rw [← same]
  exact (shown.handle_iff_name member there).mpr named

/-- A state that lists the same USOs shows the same table. -/
theorem relisted (shown : Shown disk globalSyms st loaded table) (listed : ListedState st' loaded)
    (kept : st'.globalSyms = globalSyms) : Shown disk globalSyms st' loaded table :=
  ⟨listed, kept, shown.members, shown.sound⟩

/-- Calls that change nothing leave the list as it is. -/
theorem look_keeps (shown : Shown disk globalSyms st loaded table) {call : Request Bytes × Bool}
    (performs : Performs disk st call st') (quiet : idle call = true) : Shown disk globalSyms st' loaded table := by
  cases performs with
  | @load _ name alloc handle fresh returned =>
    have null : handle = 0 := by simpa [idle] using quiet
    have freshHandle := freshHandle_read fresh
    obtain ⟨loaded', result, listed'⟩ := usoOpen_result shown.listed freshHandle returned
    have kept := result.globals.trans shown.globals
    cases result with
    | reopened h member => exact absurd null (shown.listed.represents.nonnull member)
    | missing => exact shown
    | unresolved => exact relisted shown listed' kept
    | opened bytes linked next notLoaded found =>
      exact absurd null (freshHandle bytes found).nonnull
  | drop => cases quiet
  | find => exact shown
  | findAny => exact shown
  | loaded => exact shown

theorem withRefCount_back (listed : ListedState st loaded) {h : U32 × UsoRecord} (member : h ∈ loaded) (count : U32) :
    withRefCount (withRefCount loaded h.1 count) h.1 h.2.refCount = loaded := by
  rw [withRefCount, withRefCount, List.map_map]
  conv_rhs => rw [← List.map_id loaded]
  apply List.map_congr_left
  intro g there
  simp only [Function.comp_apply, id_eq]
  by_cases same : g.1 = h.1
  · obtain rfl := listed.represents.unique there member same
    simp only [if_true]
  · simp only [if_neg same]

/-- Closing a USO that was in use and has been opened once more takes back that open. -/
theorem reopened_restores (listed : ListedState st loaded) {h : U32 × UsoRecord} (member : h ∈ loaded)
    (inUse : h.2.refCount ≠ 0) (below : h.2.refCount.toNat + 1 < 2 ^ 32) {st₂ : LoaderState}
    (opened : ListedState st₂ (withRefCount loaded h.1 (h.2.refCount + 1))) (returned : usoClose st₂ h.1 = .ok st') :
    ListedState st' loaded ∧ st'.globalSyms = st₂.globalSyms := by
  obtain ⟨loaded', result, listed'⟩ := usoClose_result opened returned
  refine ⟨?_, result.globals⟩
  have counted : closedCount (h.2.refCount + 1) = h.2.refCount := by
    have some : h.2.refCount + 1 ≠ 0 := by bv_omega
    rw [closedCount, if_pos some]
    bv_omega
  have own := mem_withRefCount_self member (h.2.refCount + 1)
  cases result with
  | kept r closeable inList =>
    obtain rfl := congrArg Prod.snd (opened.represents.unique inList own rfl)
    simp only [counted, withRefCount_back listed member] at listed' ⊢
    exact listed'
  | unloaded r next inList tested none =>
    obtain rfl := congrArg Prod.snd (opened.represents.unique inList own rfl)
    exact absurd (counted.symm.trans none) inUse

/-- Closing a USO that was opened for the first time and that nobody needs unloads it. -/
theorem opened_restores {a : U32} {r : UsoRecord} {m : Member Bytes}
    (shown : Shown disk globalSyms st (loaded ++ [(a, r)]) (table ++ [m])) (last : Shows (a, r) m) (count : r.refCount = 1)
    (unneeded : needed (table ++ [m]) m = false) (returned : usoClose st a = .ok st') :
    ListedState st' loaded ∧ st'.globalSyms = st.globalSyms := by
  obtain ⟨loaded', result, listed'⟩ := usoClose_result shown.listed returned
  refine ⟨?_, result.globals⟩
  have own : (a, r) ∈ loaded ++ [(a, r)] := List.mem_append_right _ List.mem_cons_self
  cases result with
  | kept r' closeable inList tested stays =>
    obtain rfl : r' = r := congrArg Prod.snd (shown.listed.represents.unique inList own rfl)
    rw [shown.needed own last tested] at unneeded
    have zero : (closedCount r'.refCount == 0) = true := by
      rw [count]
      rfl
    simp only [Bool.not_eq_false'] at unneeded
    rw [unneeded, zero] at stays
    cases stays
  | unloaded r' next inList tested none gone =>
    have restored := without_eq shown.listed.represents.linked.nodup
    rw [List.append_nil] at restored
    rwa [restored] at listed'

/-- Every loaded USO is in use, and its count leaves room for so many more opens. -/
def InUse (opens : Nat) (loaded : Registry) : Prop := ∀ h ∈ loaded, h.2.refCount ≠ 0 ∧ h.2.refCount.toNat + opens < 2 ^ 32

theorem InUse.reopened {opens more : Nat} (inUse : InUse more loaded) (fewer : opens + 1 ≤ more) {h : U32 × UsoRecord}
    (member : h ∈ loaded) : InUse opens (withRefCount loaded h.1 (h.2.refCount + 1)) := by
  intro g there
  obtain ⟨before, inList, -, contents⟩ := mem_withRefCount.mp there
  obtain ⟨some, room⟩ := inUse before inList
  obtain ⟨some', room'⟩ := inUse h member
  rw [contents]
  split
  · constructor
    · simp only
      bv_omega
    · simp only
      bv_omega
  · exact ⟨some, by omega⟩

theorem InUse.opened {opens more : Nat} (inUse : InUse more loaded) (fewer : opens + 1 ≤ more) (short : more < 2 ^ 32)
    {a : U32} {r : UsoRecord} (count : r.refCount = 1) : InUse opens (loaded ++ [(a, r)]) := by
  unfold InUse
  rw [List.forall_mem_append, List.forall_mem_singleton]
  refine ⟨fun h member => ⟨(inUse h member).1, by have room := (inUse h member).2; omega⟩, ?_⟩
  rw [count]
  exact ⟨by decide, by have one : (1 : U32).toNat = 1 := rfl; omega⟩

/-- A close takes back the open it belongs to, if the calls between them keep what the open left. -/
theorem scope_restores (plain : ∀ name file, disk name = some file → PlainFile file)
    (one : OneProvider (faces disk) (globalNames globalSyms)) (shown : Shown disk globalSyms st loaded table)
    {opens more : Nat} (fewer : opens + 1 ≤ more) (short : more < 2 ^ 32) (inUse : InUse more loaded) {name : Bytes}
    {st₁ st₂ : LoaderState} (opening : Performs disk st (.load name, true) st₁)
    (inside : ∀ loaded₁ table₁, Shown disk globalSyms st₁ loaded₁ table₁ → InUse opens loaded₁ →
      Shown disk globalSyms st₂ loaded₁ table₁)
    (dropping : Performs disk st₂ (.drop name, true) st') : ListedState st' loaded ∧ st'.globalSyms = globalSyms := by
  obtain ⟨alloc, handle, fresh, returned, answer⟩ := load_inversion opening rfl
  obtain ⟨loads, _, shown₁⟩ := performs_served plain shown opening
  have freshHandle := freshHandle_read fresh
  obtain ⟨loaded₁, result, listed₁⟩ := usoOpen_result shown.listed freshHandle returned
  obtain rfl := shown₁.listed.represents.eq listed₁.represents
  obtain ⟨_, follows, -, closed⟩ := drop_inversion dropping rfl
  cases result with
  | missing => cases answer
  | unresolved => cases answer
  | reopened h member named same =>
    have inner := inside _ _ shown₁ (inUse.reopened fewer member)
    obtain rfl := inner.listed.represents.seen follows
    have own := usoGetHandle_own inner (mem_withRefCount_self member (h.2.refCount + 1))
    simp only [named] at own
    rw [own] at closed
    obtain ⟨some, room⟩ := inUse h member
    obtain ⟨listed, kept⟩ := reopened_restores shown.listed member some (by omega) inner.listed closed
    exact ⟨listed, kept.trans inner.globals⟩
  | opened bytes linked next notLoaded found resolved links added =>
    obtain ⟨file, onDisk, rfl⟩ := Option.map_eq_some_iff.mp found
    have face : faces disk name = some (elfInterface file.elf) := by rw [faces, onDisk, Option.map_some]
    have absent : ¬ isLinked table name = true := fun linked =>
      (shown.isLinked name).mp linked ((usoGetHandle_eq_zero shown.listed.represents).mpr notLoaded)
    have inner := inside _ _ shown₁ (inUse.opened fewer short rfl)
    simp only [respond, face] at loads inner
    rw [load_new absent loads.symm] at inner
    obtain rfl := inner.listed.represents.seen follows
    have own : usoGetHandle _ name = alloc.handle := usoGetHandle_own inner (List.mem_append_right _ List.mem_cons_self)
    rw [own] at closed
    obtain ⟨listed, kept⟩ := opened_restores inner (shows_opened shown (plain name file onDisk) (fresh file onDisk)) rfl
      (needed_last one shown.sound absent face) closed
    exact ⟨listed, kept.trans inner.globals⟩

/-- Matching pairs of opens and closes restore the list. -/
theorem scoped_keeps (plain : ∀ name file, disk name = some file → PlainFile file)
    (one : OneProvider (faces disk) (globalNames globalSyms)) {calls : List (Request Bytes × Bool)} (pairs : Scoped calls)
    (shown : Shown disk globalSyms st loaded table) (short : calls.length < 2 ^ 32) (inUse : InUse calls.length loaded)
    (run : Run (Performs disk) st calls st') : Shown disk globalSyms st' loaded table := by
  induction pairs generalizing st st' loaded table with
  | nil =>
    cases run
    exact shown
  | @look call rest quiet _ ih =>
    cases run with
    | next performs later =>
      rw [List.length_cons] at short inUse
      refine ih (look_keeps shown performs quiet) (by omega) (fun h member => ?_) later
      exact ⟨(inUse h member).1, by have room := (inUse h member).2; omega⟩
  | @scope name inner rest _ _ within after =>
    cases run with
    | @next _ st₁ _ _ _ opening more =>
      obtain ⟨st₂, inside, closing⟩ := more.split
      cases closing with
      | @next _ st₃ _ _ _ dropping later =>
        simp only [List.length_cons, List.length_append] at short inUse
        have restored := scope_restores plain one shown (by omega) short inUse opening
          (fun _ _ shown₁ inUse₁ => within shown₁ (by omega) inUse₁ inside) dropping
        refine after (relisted shown restored.1 restored.2) (by omega) (fun h member => ?_) later
        exact ⟨(inUse h member).1, by have room := (inUse h member).2; omega⟩

end

/-- Whatever a program opens and closes in matching pairs, nested to any depth and with any lookups and failed
opens among them, the list is afterwards what it was before: the same handles with the same blocks, tables and
counts, in the same order. -/
theorem scoped_restores {disk : Bytes → Option AbiFile} (plain : ∀ name file, disk name = some file → PlainFile file)
    {globalSymFile : Bytes} (one : OneProvider (faces disk) (globalNames (some (readGlobalSyms globalSymFile))))
    {memory : Memory} {before calls : List (Request Bytes × Bool)} {st st' : LoaderState}
    (reached : Run (Performs disk) (initialState memory globalSymFile) before st) {loaded : Registry}
    (follows : usoList st = .ok loaded) (pairs : Scoped calls) (short : calls.length < 2 ^ 32)
    (inUse : InUse calls.length loaded) (run : Run (Performs disk) st calls st') : usoList st' = .ok loaded := by
  obtain ⟨-, _, shown⟩ := runs_served plain reached (initialState_shown disk memory globalSymFile)
  obtain rfl := shown.listed.represents.seen follows
  exact usoList_eq (scoped_keeps plain one pairs shown short inUse run).listed.represents

/-! The sample is opened and closed beside the library. -/

theorem sampleNames_faces {name : Bytes} {face : Interface Bytes} (found : faces sampleNames name = some face) :
    (name, face) = ([108], elfInterface libraryElf) ∨ (name, face) = ([97], elfInterface addressElf) := by
  obtain ⟨file, onDisk, rfl⟩ := Option.map_eq_some_iff.mp found
  rcases sampleNames_disk onDisk with library | address
  · obtain ⟨rfl, rfl⟩ := Prod.mk.inj library
    exact .inl rfl
  · obtain ⟨rfl, rfl⟩ := Prod.mk.inj address
    exact .inr rfl

theorem sampleNames_one : OneProvider (faces sampleNames) (globalNames (some (readGlobalSyms []))) := by
  have apart : ∀ symbol ∈ (elfInterface libraryElf).exports, symbol ∉ (elfInterface addressElf).exports := by decide
  constructor
  · intro a b face face' symbol found found' listed listed' _
    rcases sampleNames_faces found with first | first <;> rcases sampleNames_faces found' with second | second <;>
      obtain ⟨rfl, rfl⟩ := Prod.mk.inj first <;> obtain ⟨rfl, rfl⟩ := Prod.mk.inj second
    · rfl
    · exact absurd listed' (apart symbol listed)
    · exact absurd listed (apart symbol listed')
    · rfl
  · exact fun _ _ _ _ _ _ => rfl

@[irreducible] def addressGone : LoaderState := afterClose addressOpen 0x80110000

theorem performs_gone : Performs sampleNames addressOpen (.drop [97], true) addressGone := by
  have follows : usoList addressOpen = .ok (loadedAt addressOpen) := usoList_loadedAt (by decide +kernel)
  have handle : usoGetHandle (loadedAt addressOpen) [97] = 0x80110000 := by decide +kernel
  refine .drop follows (by rw [handle]; decide) ?_
  rw [handle, addressGone]
  exact usoClose_afterClose (by decide +kernel)

theorem scoped_restores_address : usoList addressGone = .ok (loadedAt libraryOpen) :=
  scoped_restores sampleNames_plain sampleNames_one (.next performs_library (.done _)) (usoList_loadedAt (by decide +kernel))
    (.scope .nil .nil) (by decide) (by unfold InUse; decide +kernel)
    (.next performs_address (.next performs_gone (.done _)))

end DragonUso.ScopedLoads
