import DragonUso.InPlace
import DragonUso.Linking

/-! Linking in place and linking with tables that stay as they are. As long as the memory shows a USO
and no store of the linker reaches the tables, every round finds the entries, sections and imports
that were there before the first one. -/

namespace DragonUso.InPlaceLinking
open ByteOrder WordMemory Records CountedLoop Format LoaderImage Relocation Linking InPlace

/-! ### What a memory shows -/

structure ShowsTable (memory : Memory) (table : U32) (entries : List UsoReloc) : Prop where
  length : tableLength memory table = entries.length
  entry : ∀ k r, entries[k]? = some r → relocRecordAt memory (entryPtr table k) = r

/-- A relocation table behind a pointer that may be NULL. -/
def ShowsRelocs (memory : Memory) (ptr : U32) : Option (List UsoReloc) → Prop
  | none => ptr = 0
  | some entries => ptr ≠ 0 ∧ ShowsTable memory ptr entries

structure ShowsSection (memory : Memory) (ptr : U32) (s : LoadedSection) : Prop where
  data : (sectionRecordAt memory ptr).data = s.data
  internal : ShowsRelocs memory (sectionRecordAt memory ptr).internalRelocs s.internalRelocs
  external : ShowsRelocs memory (sectionRecordAt memory ptr).externalRelocs s.externalRelocs

/-- The pointers of an import table that may be absent. -/
def ShowsImports (memory : Memory) (ptr : U32) : Option (List UsoSymbol) → Prop
  | none => ptr = 0
  | some imports => ptr ≠ 0 ∧ ∀ k s, imports[k]? = some s → readWord memory (field (entryPtr ptr k) 4) = s.ptr

/-- The records behind a header are those of a loaded USO. -/
structure Shows (memory : Memory) (uso : U32) (u : LoadedUso) : Prop where
  count : (readHalf memory uso).toNat = u.sections.length
  sections : ∀ k s, u.sections[k]? = some s → ShowsSection memory (sectionPtr (headerSections memory uso) k) s
  imports : ShowsImports memory (headerImportSyms memory uso) u.importSyms

/-- The record of a section, reached through the header. -/
def sectionRecordOf (memory : Memory) (uso : U32) (k : Nat) : UsoSection :=
  sectionRecordAt memory (sectionPtr (headerSections memory uso) k)

/-- A section or an import that an entry refers to is there; without an import table the linker stops. -/
def InRange (u : LoadedUso) (internal : Bool) (r : UsoReloc) : Prop :=
  if internal then (usoGetRelocTargetIndex r).toNat < u.sections.length
  else ∀ imports, u.importSyms = some imports → (usoGetRelocTargetIndex r).toNat < imports.length

/-- Agreement on some cells. -/
def Agree (cells : U32 → Prop) (m m' : Memory) : Prop := ∀ p, cells p → m' p = m p

/-- The records of a USO lie in cells that no store of its linking reaches. -/
structure Undisturbed (cells : U32 → Prop) (before : Memory) (uso : U32) (u : LoadedUso) : Prop where
  shows : ∀ memory, Agree cells before memory → Shows memory uso u
  records : ∀ memory, Agree cells before memory → ∀ k, k < u.sections.length → sectionRecordOf memory uso k = sectionRecordOf before uso k
  inRange : ∀ job ∈ linkOrder u, ∀ sectionBase table, jobTable u job = some (sectionBase, table) →
    ∀ r ∈ table, InRange u job.2 r
  spares : ∀ job ∈ linkOrder u, ∀ a ∈ jobTargets u job, ∀ p, inWord a p → ¬ cells p

/-- What a call applies, in order. -/
def jobApplied (u : LoadedUso) (job : Nat × Bool) : List Applied :=
  match jobTable u job with
  | none => []
  | some (_, table) => table.map fun r => ⟨job.1, job.2, r, symAddrD u job.2 r⟩

/-! ### One round -/

theorem storeWord_stored (memory : Memory) (a value : U32) : Stored a value memory (storeWord memory a value) where
  word p inside := by rw [storeWord, if_pos inside]
  others p outside := by rw [storeWord, if_neg (by simp [outside])]

theorem Agree.store {cells : U32 → Prop} {before memory : Memory} (agree : Agree cells before memory) {a : U32}
    (spares : ∀ p, inWord a p → ¬ cells p) (value : U32) : Agree cells before (storeWord memory a value) := by
  intro p inside
  have apart : inWord a p = false := Bool.eq_false_iff.mpr fun own => spares p own inside
  exact ((storeWord_stored memory a value).others p apart).trans (agree p inside)

theorem laterRelocs_eq {memory : Memory} {table : U32} {entries : List UsoReloc}
    (shows : ShowsTable memory table entries) (i : Nat) : laterRelocs memory table i = entries.drop (i + 1) := by
  apply List.ext_getElem?
  intro k
  rw [laterRelocs, shows.length, List.getElem?_map, List.getElem?_drop]
  by_cases inside : i + 1 + k < entries.length
  · rw [List.getElem?_range' (by omega), List.getElem?_eq_getElem inside, Option.map_some, Nat.one_mul,
      shows.entry _ _ (List.getElem?_eq_getElem inside)]
  · rw [List.getElem?_eq_none (show entries.length ≤ i + 1 + k by omega),
      List.getElem?_eq_none (by rw [List.length_range']; omega)]
    rfl

theorem symbolAddressAt_eq {memory : Memory} {uso : U32} {u : LoadedUso} (shows : Shows memory uso u)
    {internal : Bool} {r : UsoReloc} (inRange : InRange u internal r) :
    symbolAddressAt memory uso internal r = symbolAddress u internal r := by
  unfold InRange at inRange
  cases internal with
  | true =>
    rw [if_pos rfl] at inRange
    have found := List.getElem?_eq_getElem inRange
    have base : readWord memory (sectionPtr (headerSections memory uso) (usoGetRelocTargetIndex r).toNat) = _ :=
      (shows.sections _ _ found).data
    simp only [symbolAddressAt, symbolAddress, ↓reduceIte, found, base]
  | false =>
    rw [if_neg Bool.false_ne_true] at inRange
    have imports := shows.imports
    cases present : u.importSyms with
    | none =>
      rw [present] at imports
      have null : headerImportSyms memory uso = 0 := imports
      simp [symbolAddressAt, symbolAddress, present, null]
    | some table =>
      rw [present] at imports
      have found := List.getElem?_eq_getElem (inRange table present)
      simp only [symbolAddressAt, symbolAddress, Bool.false_eq_true, ↓reduceIte, present, if_neg imports.1, found,
        imports.2 _ _ found]

/-- An entry that is applied has a symbol address. -/
theorem symAddrD_eq {u : LoadedUso} {internal : Bool} {r : UsoReloc} {symAddr : U32}
    (resolves : symbolAddress u internal r = .ok symAddr) : symAddrD u internal r = symAddr := by
  rw [symAddrD, resolves]

section
variable {cells : U32 → Prop} {before : Memory} {uso : U32} {u : LoadedUso}

/-! ### One table -/

/-- The loop over a table in memory does what the loop over its entries does. -/
theorem relocLoopAt_eq (undisturbed : Undisturbed cells before uso u) {job : Nat × Bool} {sectionBase table : U32}
    {entries : List UsoReloc} (shows : ∀ memory, Agree cells before memory → ShowsTable memory table entries)
    (inRange : ∀ r ∈ entries, InRange u job.2 r)
    (spares : ∀ r ∈ entries, ∀ p, inWord (sectionBase + r.offset) p → ¬ cells p) (later : List UsoReloc) {i fuel : Nat}
    (rest : entries.drop i = later) (enough : later.length ≤ fuel) {memory : Memory} (agree : Agree cells before memory)
    (log : List Applied) :
    countUp (lengthIn table) (applyRelocAt uso job.1 job.2 sectionBase table) fuel i (memory, log) =
      (applyRelocLoop u job.2 sectionBase later memory).map fun after =>
        (after, log ++ later.map fun r => ⟨job.1, job.2, r, symAddrD u job.2 r⟩) := by
  induction later generalizing i fuel memory log with
  | nil =>
    have done : entries.length ≤ i := List.drop_eq_nil_iff.mp rest
    have bound : lengthIn table (memory, log) ≤ i := by
      rw [lengthIn, (shows memory agree).length]
      exact done
    rw [countUp_done bound, List.map_nil, List.append_nil]
    rfl
  | cons r later ih =>
    rw [List.length_cons] at enough
    obtain ⟨fuel, rfl⟩ : ∃ n, fuel = n + 1 := Nat.exists_eq_succ_of_ne_zero (by omega)
    have here : entries[i]? = some r := by
      rw [← Nat.add_zero i, ← List.getElem?_drop, rest]
      rfl
    have next : entries.drop (i + 1) = later := by
      rw [← List.drop_drop, rest]
      rfl
    have member : r ∈ entries := List.mem_of_getElem? here
    have inside : i < lengthIn table (memory, log) := by
      rw [lengthIn, (shows memory agree).length]
      exact (List.getElem?_eq_some_iff.mp here).1
    have record : relocRecordAt memory (entryPtr table i) = r := (shows memory agree).entry i r here
    have address := symbolAddressAt_eq (undisturbed.shows memory agree) (inRange r member)
    have found := (laterRelocs_eq (shows memory agree) i).trans next
    rw [applyRelocLoop, applyReloc]
    cases resolves : symbolAddress u job.2 r with
    | error fault =>
      rw [countUp, if_pos inside]
      simp only [applyRelocAt, record, address, resolves]
      rfl
    | ok symAddr =>
      by_cases supported : IsSupported (usoGetRelocType r)
      · have round : applyRelocAt uso job.1 job.2 sectionBase table i (memory, log) =
            .ok (storeWord memory (sectionBase + r.offset) (relocatedWord memory sectionBase symAddr r later),
              log ++ [⟨job.1, job.2, r, symAddr⟩]) := by
          simp only [applyRelocAt, record, address, resolves, if_pos supported, found]
        rw [countUp_next inside round, ih next (by omega) (agree.store (spares r member) _)]
        simp only [if_pos supported, List.map_cons, symAddrD_eq resolves, List.append_assoc, List.singleton_append]
      · rw [countUp, if_pos inside]
        simp only [applyRelocAt, record, address, resolves, supported, ↓reduceIte]
        rfl

/-- Stores of a loop stay where its entries point. -/
theorem applyRelocLoop_agree {internal : Bool} {sectionBase : U32} {entries : List UsoReloc}
    (spares : ∀ r ∈ entries, ∀ p, inWord (sectionBase + r.offset) p → ¬ cells p) {memory after : Memory}
    (agree : Agree cells before memory) (returns : applyRelocLoop u internal sectionBase entries memory = .ok after) :
    Agree cells before after := by
  induction entries generalizing memory with
  | nil =>
    rw [applyRelocLoop, Except.ok.injEq] at returns
    exact returns ▸ agree
  | cons r later ih =>
    unfold applyRelocLoop applyReloc at returns
    cases resolves : symbolAddress u internal r with
    | error fault => simp [resolves] at returns
    | ok symAddr =>
      by_cases supported : IsSupported (usoGetRelocType r)
      · simp only [resolves, if_pos supported] at returns
        exact ih (fun r member => spares r (List.mem_cons_of_mem _ member))
          (agree.store (spares r List.mem_cons_self) _) returns
      · simp [resolves, if_neg supported] at returns

/-! ### All tables -/

/-- The pointer of a section's record that a call follows. -/
def relocsPtr (record : UsoSection) (internal : Bool) : U32 :=
  if internal then record.internalRelocs else record.externalRelocs

theorem ShowsSection.table {memory : Memory} {ptr : U32} {s : LoadedSection} (shows : ShowsSection memory ptr s)
    (internal : Bool) : ShowsRelocs memory (relocsPtr (sectionRecordAt memory ptr) internal) (relocTable s internal) := by
  cases internal with
  | true => exact shows.internal
  | false => exact shows.external

/-- One call of `apply_uso_relocs`. -/
theorem applyUsoRelocsAt_eq (undisturbed : Undisturbed cells before uso u) {job : Nat × Bool}
    (member : job ∈ linkOrder u) {memory : Memory} (agree : Agree cells before memory) (log : List Applied) :
    applyUsoRelocsAt uso job.1 job.2 (memory, log) =
      (applyUsoRelocs u job.1 job.2 memory).map fun after => (after, log ++ jobApplied u job) := by
  have inside := (mem_linkOrder.mp member).2
  have found := List.getElem?_eq_getElem inside
  have inRange := undisturbed.inRange job member
  have spares := undisturbed.spares job member
  generalize u.sections[job.1] = s at found
  -- Whatever the linker has stored so far, the section's record is the one it was.
  have shows : ∀ m, Agree cells before m → ShowsRelocs m (relocsPtr (sectionRecordOf before uso job.1) job.2)
      (relocTable s job.2) := by
    intro m same
    rw [← undisturbed.records m same job.1 inside]
    exact ((undisturbed.shows m same).sections job.1 s found).table job.2
  have data : (sectionRecordOf before uso job.1).data = s.data := by
    rw [← undisturbed.records memory agree job.1 inside]
    exact ((undisturbed.shows memory agree).sections job.1 s found).data
  have record : sectionRecordAt memory (sectionPtr (headerSections memory uso) job.1) = sectionRecordOf before uso job.1 :=
    undisturbed.records memory agree job.1 inside
  have call : applyUsoRelocsAt uso job.1 job.2 (memory, log) =
      if s.data = 0 ∨ relocsPtr (sectionRecordOf before uso job.1) job.2 = 0 then .ok (memory, log)
      else countUp (lengthIn (relocsPtr (sectionRecordOf before uso job.1) job.2)) (applyRelocAt uso job.1 job.2 s.data
        (relocsPtr (sectionRecordOf before uso job.1) job.2)) rounds 0 (memory, log) := by
    rw [← data]
    simp only [applyUsoRelocsAt, record]
    rfl
  rw [call, applyUsoRelocs_jobTable inside, jobApplied]
  cases tabled : relocTable s job.2 with
  | none =>
    have none : jobTable u job = none := by simp only [jobTable, found, tabled]
    rw [tabled] at shows
    rw [if_pos (.inr (shows memory agree)), none]
    simp only [List.append_nil]
    rfl
  | some entries =>
    simp only [tabled] at shows
    by_cases absent : s.data = 0
    · have none : jobTable u job = none := by simp only [jobTable, found, tabled, if_pos absent]
      rw [if_pos (.inl absent), none]
      simp only [List.append_nil]
      rfl
    · have some : jobTable u job = some (s.data, entries) := by simp only [jobTable, found, tabled, if_neg absent]
      have length := (shows memory agree).2.length
      rw [if_neg (not_or.mpr ⟨absent, (shows memory agree).1⟩), some]
      refine relocLoopAt_eq undisturbed (fun m same => (shows m same).2) (inRange _ _ some) ?_ entries rfl ?_ agree log
      · intro r own
        refine spares _ ?_
        rw [jobTargets, some]
        exact List.mem_map.mpr ⟨r, own, rfl⟩
      · rw [← length]
        exact lengthIn_le_rounds _ (memory, log)

theorem applyUsoRelocs_agree (undisturbed : Undisturbed cells before uso u) {job : Nat × Bool}
    (member : job ∈ linkOrder u) {memory after : Memory} (agree : Agree cells before memory)
    (returns : applyUsoRelocs u job.1 job.2 memory = .ok after) : Agree cells before after := by
  have spares := undisturbed.spares job member
  rw [applyUsoRelocs_jobTable (mem_linkOrder.mp member).2] at returns
  unfold jobTargets at spares
  cases tabled : jobTable u job with
  | none =>
    simp only [tabled, Except.ok.injEq] at returns
    exact returns ▸ agree
  | some entry =>
    simp only [tabled] at returns spares
    exact applyRelocLoop_agree (fun r own => spares _ (List.mem_map.mpr ⟨r, own, rfl⟩)) agree returns

theorem applyTables_agree (undisturbed : Undisturbed cells before uso u) {order : List (Nat × Bool)}
    (calls : ∀ job ∈ order, job ∈ linkOrder u) {memory after : Memory} (agree : Agree cells before memory)
    (returns : applyTables u order memory = .ok after) : Agree cells before after := by
  induction order generalizing memory with
  | nil =>
    rw [applyTables, Except.ok.injEq] at returns
    exact returns ▸ agree
  | cons job rest ih =>
    rw [applyTables] at returns
    cases applied : applyUsoRelocs u job.1 job.2 memory with
    | error fault => simp [applied] at returns
    | ok next =>
      simp only [applied] at returns
      exact ih (fun other member => calls other (List.mem_cons_of_mem _ member))
        (applyUsoRelocs_agree undisturbed (calls job List.mem_cons_self) agree applied) returns

/-- Everything that linking applies, in order. -/
def linkApplied (u : LoadedUso) : List Applied := (linkOrder u).flatMap (jobApplied u)

/-- The calls for the sections from one on. -/
def jobsFrom (i count : Nat) : List (Nat × Bool) := (List.range' i count).flatMap fun i => [(i, true), (i, false)]

theorem jobsFrom_succ (i count : Nat) : jobsFrom i (count + 1) = (i, true) :: (i, false) :: jobsFrom (i + 1) count := by
  rw [jobsFrom, List.range'_succ, List.flatMap_cons]
  rfl

theorem linkSectionsAt_eq (undisturbed : Undisturbed cells before uso u) {i count fuel : Nat} (first : 1 ≤ i)
    (last : i + count = max 1 u.sections.length) (enough : count ≤ fuel) {memory : Memory} (agree : Agree cells before memory)
    (log : List Applied) :
    countUp (numSectionsIn uso) (linkSectionAt uso) fuel i (memory, log) =
      (applyTables u (jobsFrom i count) memory).map fun after =>
        (after, log ++ (jobsFrom i count).flatMap (jobApplied u)) := by
  induction count generalizing i fuel memory log with
  | zero =>
    have bound : numSectionsIn uso (memory, log) ≤ i := by
      rw [numSectionsIn, (undisturbed.shows memory agree).count]
      omega
    rw [countUp_done bound]
    simp only [jobsFrom, List.range'_zero, List.flatMap_nil, List.append_nil]
    rfl
  | succ count ih =>
    obtain ⟨fuel, rfl⟩ : ∃ n, fuel = n + 1 := Nat.exists_eq_succ_of_ne_zero (by omega)
    have inside : i < numSectionsIn uso (memory, log) := by
      rw [numSectionsIn, (undisturbed.shows memory agree).count]
      omega
    have ours : (i, true) ∈ linkOrder u := mem_linkOrder.mpr (by simp only; omega)
    have theirs : (i, false) ∈ linkOrder u := mem_linkOrder.mpr (by simp only; omega)
    have own := applyUsoRelocsAt_eq undisturbed ours agree log
    rw [jobsFrom_succ, applyTables]
    cases internal : applyUsoRelocs u i true memory with
    | error fault =>
      rw [countUp, if_pos inside, linkSectionAt, own, internal]
      rfl
    | ok next =>
      have agree' := applyUsoRelocs_agree undisturbed ours agree internal
      have other := applyUsoRelocsAt_eq undisturbed theirs agree' (log ++ jobApplied u (i, true))
      simp only [applyTables]
      rw [internal] at own
      cases external : applyUsoRelocs u i false next with
      | error fault =>
        rw [external] at other
        rw [countUp, if_pos inside, linkSectionAt, own]
        simp only [Except.map, other]
      | ok later =>
        rw [external] at other
        have agree'' := applyUsoRelocs_agree undisturbed theirs agree' external
        have round : linkSectionAt uso i (memory, log) =
            .ok (later, log ++ jobApplied u (i, true) ++ jobApplied u (i, false)) := by
          rw [linkSectionAt, own]
          simp only [Except.map, other]
        rw [countUp_next inside round, ih (by omega) (by omega) (by omega) agree'']
        simp only [List.flatMap_cons, List.append_assoc]

/-- Linking in place is linking with the tables that were there, and applies their entries. -/
theorem linkUsoAt_eq (undisturbed : Undisturbed cells before uso u) {memory : Memory} (agree : Agree cells before memory) :
    linkUsoAt uso memory = (linkUso u memory).map fun after => (after, linkApplied u) := by
  have count := (undisturbed.shows memory agree).count
  have few : numSectionsIn uso (memory, ([] : List Applied)) ≤ rounds := numSectionsIn_le_rounds uso _
  rw [numSectionsIn, count] at few
  rw [linkUsoAt, linkSectionsAt_eq undisturbed (Nat.le_refl 1) (show 1 + (u.sections.length - 1) = _ by omega)
    (by omega) agree, List.nil_append]
  rfl

end

end DragonUso.InPlaceLinking
