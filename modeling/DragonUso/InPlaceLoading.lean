import DragonUso.FixedImage

/-! `fixup_uso` in the block against `fixup_uso` on the records of the image. Where the relocation
tables lie past the section data and every relocation stays in its section, the first does what the
second does; what is left of the tables in the block is not looked at any more. -/

namespace DragonUso.InPlaceLoading
open ByteOrder SparseFile WordMemory Records CountedLoop Format LoaderImage Relocation Linking SymbolSearch Loader
open LoaderSteps InPlace InPlaceLinking HeldImage InPlaceFixups FixedImage

/-- The relocation tables of an image lie past the data of its sections. -/
structure RelocsApart (image : Bytes) (base noload : U32) (low high : Nat) : Prop where
  order : low ≤ high
  inside : high ≤ image.length
  tables : ∀ (k : Nat) (r : UsoSection), (fixedSections image base noload)[k]? = some r → ∀ internal,
    relocsPtr r internal ≠ 0 → high ≤ (relocsPtr r internal - base).toNat ∧
      (relocsPtr r internal - base).toNat + 4 + 12 * (readU32 image (relocsPtr r internal - base).toNat).toNat ≤
        image.length

/-- The cells of a block outside the data of its sections. -/
def tableCells (base : U32) (low high length : Nat) (p : U32) : Prop :=
  (p - base).toNat < low ∨ (high ≤ (p - base).toNat ∧ (p - base).toNat < length)

section
variable {image : Bytes} {search : Bytes → U32} {base noload : U32} {mid low high : Nat} {before after memory : Memory}

theorem sameBytes_of_agree {first last length : Nat} (small : length < 2 ^ 32)
    (agree : Agree (tableCells base low high length) after memory) (top : last ≤ length)
    (inside : last ≤ low ∨ high ≤ first) : SameBytes base first last after memory := by
  intro d above below
  apply agree
  rw [tableCells, distance_field base (by omega)]
  omega

/-- A relocation table of the image, behind its pointer in the block. -/
theorem showsRelocs_of_holds (holds : Holds memory base image high image.length) {ptr : U32}
    (placed : ptr ≠ 0 → high ≤ (ptr - base).toNat ∧
      (ptr - base).toNat + 4 + 12 * (readU32 image (ptr - base).toNat).toNat ≤ image.length) :
    ShowsRelocs memory ptr (relocTableAt image base ptr) := by
  unfold relocTableAt
  by_cases null : ptr = 0
  · rw [if_pos null]
    exact null
  · obtain ⟨above, below⟩ := placed null
    rw [if_neg null]
    have place : field base (ptr - base).toNat = ptr := field_distance base ptr
    generalize (ptr - base).toNat = ofs at *
    refine ⟨null, ?_, fun k r found => ?_⟩
    · rw [← place, tableLength, (holds.within above (by omega)).readWord, readRelocTable, readRelocs_length]
    · have bound := (List.getElem?_eq_some_iff.mp found).1
      rw [readRelocTable, readRelocs_length] at bound
      rw [readRelocTable, readRelocs_getElem? image _ _ bound, Option.some.injEq] at found
      rw [← place, entryPtr_field, ← found]
      exact (holds.within (by omega) (by omega)).relocRecord

theorem field_ne_zero {ofs : Nat} (positive : 0 < ofs) (fits : base.toNat + ofs < 2 ^ 32) : field base ofs ≠ 0 := by
  intro null
  have value := congrArg BitVec.toNat null
  have zero : (0 : U32).toNat = 0 := rfl
  rw [field, BitVec.toNat_add, BitVec.toNat_ofNat, Nat.mod_eq_of_lt (show ofs < 2 ^ 32 by omega), Nat.mod_eq_of_lt fits] at value
  omega

/-- The import table of an image is absent or has the stored length. -/
theorem fixupImports_cases (image : Bytes) (search : Bytes → U32) :
    ((readHeader image).importSyms = 0 ∧ (fixupImports image search).1 = none) ∨
      ((readHeader image).importSyms ≠ 0 ∧ ∃ symbols, (fixupImports image search).1 = some symbols ∧
        symbols.length = storedLength image (readHeader image).importSyms) := by
  rw [fixupImports_eq]
  by_cases absent : (readHeader image).importSyms = 0
  · exact .inl ⟨absent, by rw [readSymbolTable, if_pos absent]; rfl⟩
  · right
    rw [readSymbolTable, if_neg absent]
    refine ⟨absent, _, rfl, ?_⟩
    rw [List.length_map, readSymbols_length]
    rfl

/-- The import table of the block is that of the image with its pointers filled in. -/
theorem showsImports_of_fixedUp (fixed : FixedUp image search base noload low before after) (small : image.length < 2 ^ 31)
    (fits : base.toNat + image.length ≤ 2 ^ 32) (apart : TablesApart image mid low)
    (tables : SameBytes base 0 low after memory) :
    ShowsImports memory (headerImportSyms memory base) (fixupImports image search).1 := by
  have bounds := apart.bounds small
  have inside := apart.inside
  have pointer : headerImportSyms memory base = headerImportSyms after base :=
    readWord_same (tables.within (Nat.zero_le _) (by omega))
  rw [pointer]
  rcases fixupImports_cases image search with ⟨absent, none⟩ | ⟨present, symbols, some, size⟩
  · rw [none]
    exact fixed.absent absent
  · obtain ⟨above, below⟩ := apart.imports present
    rw [some, fixed.present present]
    refine ⟨field_ne_zero (by omega) (by omega), fun k s found => ?_⟩
    have bound := (List.getElem?_eq_some_iff.mp found).1
    have own := fixed.imports symbols some k s found
    rw [← own, symbolIn_eq, entryPtr_field, field_field]
    exact readWord_same (tables.within (Nat.zero_le _) (by omega))

/-- Section records of the block are those the fixups left. -/
theorem sectionRecordOf_fixedUp (fixed : FixedUp image search base noload low before after) (small : image.length < 2 ^ 31)
    (apart : TablesApart image mid low) (tables : SameBytes base 0 low after memory) {k : Nat}
    (bound : k < (readHeader image).numSections.toNat) :
    sectionRecordOf memory base k = sectionIn base (readHeader image).sections.toNat after k := by
  have bounds := apart.bounds small
  have table : headerSections memory base = headerSections after base :=
    readWord_same (tables.within (Nat.zero_le _) (by omega))
  unfold sectionRecordOf
  rw [table, fixed.table, sectionPtr_field]
  exact sectionRecord_same (tables.within (Nat.zero_le _) (by omega))

/-- Whatever has been stored into section data since, the block shows the loaded USO. -/
theorem shows_of_fixedUp (fixed : FixedUp image search base noload low before after) (holds : HoldsImage before base image)
    (small : image.length < 2 ^ 31) (fits : base.toNat + image.length ≤ 2 ^ 32) (apart : TablesApart image mid low)
    (relocs : RelocsApart image base noload low high)
    (agree : Agree (tableCells base low high image.length) after memory) :
    Shows memory base (fixedUso image search base noload) ∧
      ∀ k, k < (fixedUso image search base noload).sections.length →
        sectionRecordOf memory base k = sectionRecordOf after base k := by
  have bounds := apart.bounds small
  have inside := apart.inside
  have order := relocs.order
  have tables : SameBytes base 0 low after memory :=
    sameBytes_of_agree (by omega) agree inside (.inl (Nat.le_refl _))
  have entries : Holds memory base image high image.length :=
    ((holds.within (Nat.zero_le _) (Nat.le_refl _)).same (fixed.others.within order (by omega))).same
      (sameBytes_of_agree (by omega) agree (Nat.le_refl _) (.inr (Nat.le_refl _)))
  have length : (fixedUso image search base noload).sections.length = (readHeader image).numSections.toNat :=
    loadedSections_length image base noload
  have count : readHalf memory (field base 0) = readHalf after (field base 0) :=
    readHalf_same (tables.within (Nat.zero_le _) (by omega))
  rw [field_zero] at count
  refine ⟨⟨?_, ?_, showsImports_of_fixedUp fixed small fits apart tables⟩, fun k bound => ?_⟩
  · rw [length, count, fixed.count]
  · intro k s found
    have bound := (List.getElem?_eq_some_iff.mp found).1
    rw [length] at bound
    obtain ⟨f, stored, rfl⟩ : ∃ f, (fixedSections image base noload)[k]? = some f ∧ loadedSection image base f = s := by
      rw [← Option.map_eq_some_iff, ← List.getElem?_map]
      exact found
    have same : sectionRecordAt memory (sectionPtr (headerSections memory base) k) = f :=
      (sectionRecordOf_fixedUp fixed small apart tables bound).trans (fixed.sections k f stored)
    refine ⟨by rw [same]; rfl, ?_, ?_⟩
    · rw [same]
      exact showsRelocs_of_holds entries (relocs.tables k f stored true)
    · rw [same]
      exact showsRelocs_of_holds entries (relocs.tables k f stored false)
  · rw [length] at bound
    rw [sectionRecordOf_fixedUp fixed small apart tables bound,
      sectionRecordOf_fixedUp fixed small apart (fun _ _ _ => rfl) bound]

/-- Entries refer to sections and imports there are, and their target words lie in the data of sections. -/
structure TargetsInside (u : LoadedUso) (base : U32) (low high : Nat) : Prop where
  inRange : ∀ job ∈ linkOrder u, ∀ sectionBase table, jobTable u job = some (sectionBase, table) →
    ∀ r ∈ table, InRange u job.2 r
  targets : ∀ job ∈ linkOrder u, ∀ a ∈ jobTargets u job, low ≤ (a - base).toNat ∧ (a - base).toNat + 4 ≤ high

/-- A block in which linking stays off the tables. -/
structure Linked (image : Bytes) (search : Bytes → U32) (base noload : U32) (mid low high : Nat) : Prop where
  small : image.length < 2 ^ 31
  fits : base.toNat + image.length ≤ 2 ^ 32
  tables : TablesApart image mid low
  relocs : RelocsApart image base noload low high
  targets : TargetsInside (fixedUso image search base noload) base low high

theorem Linked.target_cell (linked : Linked image search base noload mid low high) {job : Nat × Bool}
    (member : job ∈ linkOrder (fixedUso image search base noload)) {a : U32}
    (target : a ∈ jobTargets (fixedUso image search base noload) job) {p : U32} (own : inWord a p) :
    low ≤ (p - base).toNat ∧ (p - base).toNat < high := by
  have small := linked.small
  have inside := linked.relocs.inside
  obtain ⟨above, below⟩ := linked.targets.targets job member a target
  rw [← field_distance base a, ← field_distance base p, inWord_field base (by omega) (p - base).isLt] at own
  omega

theorem Linked.undisturbed (linked : Linked image search base noload mid low high)
    (fixed : FixedUp image search base noload low before after) (holds : HoldsImage before base image) :
    Undisturbed (tableCells base low high image.length) after base (fixedUso image search base noload) where
  shows _ agree := (shows_of_fixedUp fixed holds linked.small linked.fits linked.tables linked.relocs agree).1
  records _ agree := (shows_of_fixedUp fixed holds linked.small linked.fits linked.tables linked.relocs agree).2
  inRange := linked.targets.inRange
  spares job member a target p own := by
    have cell := linked.target_cell member target own
    rintro (below | above) <;> omega

/-- `fixup_uso` in the block is the fixups and then linking with the tables of the image. -/
theorem Linked.fixupUsoAt (linked : Linked image search base noload mid low high)
    (holds : HoldsImage memory base image) :
    ∃ fixed, FixedUp image search base noload low memory fixed ∧ fixupUsoAt search base noload memory =
      if (fixupImports image search).2 then
        (linkUso (fixedUso image search base noload) fixed).map fun after =>
          some (after, linkApplied (fixedUso image search base noload))
      else .ok none := by
  obtain ⟨fixed, returns, fixedUp⟩ := fixupTablesAt_eq linked.tables linked.small holds search noload
  refine ⟨fixed, fixedUp, ?_⟩
  have links : linkUsoAt base fixed = _ := linkUsoAt_eq (linked.undisturbed fixedUp holds) fun _ _ => rfl
  unfold InPlace.fixupUsoAt
  rw [returns]
  cases resolved : (fixupImports image search).2 with
  | false => rfl
  | true =>
    simp only [↓reduceIte, links]
    cases linkUso (fixedUso image search base noload) fixed with
    | error fault => rfl
    | ok after => rfl

end

/-! ### The memory that is left -/

/-- Two outcomes of linking: the same fault, or memories that agree on some cells. -/
def Matches (cells : U32 → Prop) : Except Fault Memory → Except Fault Memory → Prop
  | .ok after, .ok after' => Agree cells after after'
  | .error fault, .error fault' => fault = fault'
  | _, _ => False

section
variable {cells : U32 → Prop} {u : LoadedUso}

theorem searchLo16_mem {later : List UsoReloc} {r : UsoReloc} (found : searchLo16 later = some r) : r ∈ later := by
  rw [searchLo16_eq] at found
  exact List.mem_of_find?_eq_some found

/-- Entries whose words are among the cells do the same to memories that agree there. -/
theorem applyRelocLoop_matches {internal : Bool} {sectionBase : U32} {entries : List UsoReloc}
    (targets : ∀ r ∈ entries, ∀ p, inWord (sectionBase + r.offset) p → cells p) {m m' : Memory} (agree : Agree cells m m') :
    Matches cells (applyRelocLoop u internal sectionBase entries m) (applyRelocLoop u internal sectionBase entries m') := by
  induction entries generalizing m m' with
  | nil => exact agree
  | cons r later ih =>
    have word : ∀ r' ∈ r :: later, readWord m' (sectionBase + r'.offset) = readWord m (sectionBase + r'.offset) :=
      fun r' member => readWord_congr fun p own => agree p (targets r' member p own)
    unfold applyRelocLoop applyReloc
    cases symbolAddress u internal r with
    | error fault => rfl
    | ok symAddr =>
      by_cases supported : IsSupported (usoGetRelocType r)
      · have same : relocatedWord m' sectionBase symAddr r later = relocatedWord m sectionBase symAddr r later :=
          relocatedWord_congr (word r List.mem_cons_self) fun loReloc found =>
            word loReloc (List.mem_cons_of_mem _ (searchLo16_mem found))
        simp only [if_pos supported, same]
        refine ih (fun r' member => targets r' (List.mem_cons_of_mem _ member)) fun p inside => ?_
        unfold storeWord
        rw [agree p inside]
      · simp only [if_neg supported]
        rfl

theorem applyTables_matches {order : List (Nat × Bool)} (ordered : ∀ job ∈ order, job.1 < u.sections.length)
    (targets : ∀ job ∈ order, ∀ a ∈ jobTargets u job, ∀ p, inWord a p → cells p) {m m' : Memory}
    (agree : Agree cells m m') : Matches cells (applyTables u order m) (applyTables u order m') := by
  induction order generalizing m m' with
  | nil => exact agree
  | cons job rest ih =>
    have own : Matches cells (applyUsoRelocs u job.1 job.2 m) (applyUsoRelocs u job.1 job.2 m') := by
      have here := targets job List.mem_cons_self
      rw [applyUsoRelocs_jobTable (ordered job List.mem_cons_self), applyUsoRelocs_jobTable (ordered job List.mem_cons_self)]
      unfold jobTargets at here
      cases tabled : jobTable u job with
      | none => exact agree
      | some entry =>
        simp only [tabled] at here
        exact applyRelocLoop_matches (fun r member => here _ (List.mem_map.mpr ⟨r, member, rfl⟩)) agree
    rw [applyTables, applyTables]
    revert own
    cases applyUsoRelocs u job.1 job.2 m with
    | error fault =>
      cases applyUsoRelocs u job.1 job.2 m' with
      | error fault' => exact id
      | ok next' => exact False.elim
    | ok next =>
      cases applyUsoRelocs u job.1 job.2 m' with
      | error fault' => exact False.elim
      | ok next' =>
        exact fun own => ih (fun other member => ordered other (List.mem_cons_of_mem _ member))
          (fun other member => targets other (List.mem_cons_of_mem _ member)) own

end

/-- An outcome in the block against one on the records of the image: the same fault or refusal, or the
same memory past the tables with the entries of the USO applied in order. -/
def Simulates (base : U32) (low : Nat) :
    Except Fault (Option (LoadedUso × Memory)) → Except Fault (Option (Memory × List Applied)) → Prop
  | .error fault, .error fault' => fault = fault'
  | .ok none, .ok none => True
  | .ok (some (uso, after)), .ok (some (after', applied)) =>
    applied = linkApplied uso ∧ ∀ p, low ≤ (p - base).toNat → after' p = after p
  | _, _ => False

/-- `fixup_uso` in the block simulates `fixup_uso` on the records. -/
theorem fixupUsoAt_simulates {file : Bytes} {search : Bytes → U32} {base noload : U32} {mid low high : Nat}
    {memory : Memory} (loadable : LoadableFile file) (linked : Linked (usoImage file) search base noload mid low high)
    (holds : HoldsImage memory base (usoImage file)) :
    Simulates base low (fixupUso (usoImage file) search base noload memory) (fixupUsoAt search base noload memory) := by
  obtain ⟨fixed, fixedUp, returns⟩ := linked.fixupUsoAt holds
  have same : Agree (fun p => low ≤ (p - base).toNat) memory fixed := by
    intro p past
    rw [← field_distance base p]
    exact fixedUp.others _ past (p - base).isLt
  have links : Matches _ (linkUso (fixedUso (usoImage file) search base noload) memory)
      (linkUso (fixedUso (usoImage file) search base noload) fixed) := applyTables_matches (fun job member => (mem_linkOrder.mp member).2)
    (fun job member a target p own => (linked.target_cell member target own).1) same
  rw [returns, loadable.fixupUso]
  cases resolved : (fixupImports (usoImage file) search).2 with
  | false => exact trivial
  | true =>
    simp only [↓reduceIte]
    revert links
    cases linkUso (fixedUso (usoImage file) search base noload) memory with
    | error fault =>
      cases linkUso (fixedUso (usoImage file) search base noload) fixed with
      | error fault' => exact id
      | ok after' => exact False.elim
    | ok after =>
      cases linkUso (fixedUso (usoImage file) search base noload) fixed with
      | error fault' => exact False.elim
      | ok after' => exact fun agree => ⟨rfl, agree⟩

end DragonUso.InPlaceLoading
