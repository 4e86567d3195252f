import DragonUso.RelocBinding
import DragonUso.TableAreas

/-! What the linker applies when it follows the tables in the block. Relocations inside their sections
leave the tables alone, so every entry is applied as the tool wrote it. -/

namespace DragonUso.AppliedRelocs
open ByteOrder SparseFile WordMemory Records Format ElfFile ToolCollect ToolWriter LoaderImage RoundTrip Relocation Linking
open SymbolSearch Loader LoaderSteps OpenBinding CollectedTables ProducedFile WeakImports RelocSafety RelocBinding InPlace
open InPlaceLinking HeldImage FixedImage InPlaceLoading TableAreas

/-! ### Loads in a block -/

/-- A load that returns, with all it has applied; the block then shows the loaded USO. -/
def LinksInPlace (file : Bytes) (search : Bytes → U32) (block : U32) (memory : Memory) (log : List Applied) : Prop :=
  ∃ after, fixupUsoAt search block (getUsoNoloadStart (readLoadInfo file) block) memory = .ok (some (after, log)) ∧
    Shows after block (loadedFile file search block)

/-- What one call of `apply_uso_relocs` has applied, in order. -/
def appliedIn (log : List Applied) (k : Nat) (internal : Bool) : List Applied :=
  log.filter fun a => a.targetSection == k && a.internal == internal

/-- The image of a file in a block, and nothing else. -/
def imageMemory (block : U32) (image : Bytes) : Memory := fun p => byteAt image (p - block).toNat

theorem imageMemory_holds {block : U32} {image : Bytes} (fits : block.toNat + image.length ≤ 2 ^ 32) :
    HoldsImage (imageMemory block image) block image := by
  intro d _ inside
  rw [imageMemory, distance_field block (by omega)]

section
variable {u : LoadedUso}

/-- An entry that a call has applied is one of its table. -/
theorem jobApplied_mem {job : Nat × Bool} {a : Applied} (member : a ∈ jobApplied u job) :
    ∃ sectionBase table, jobTable u job = some (sectionBase, table) ∧
      ∃ r ∈ table, (⟨job.1, job.2, r, symAddrD u job.2 r⟩ : Applied) = a := by
  unfold jobApplied at member
  cases tabled : jobTable u job with
  | none => simp [tabled] at member
  | some entry =>
    simp only [tabled] at member
    exact ⟨entry.1, entry.2, rfl, List.mem_map.mp member⟩

theorem appliedIn_jobApplied (job other : Nat × Bool) :
    appliedIn (jobApplied u other) job.1 job.2 = if other = job then jobApplied u job else [] := by
  unfold appliedIn
  by_cases same : other = job
  · subst same
    rw [if_pos rfl, List.filter_eq_self]
    intro a member
    obtain ⟨-, -, -, r, -, rfl⟩ := jobApplied_mem member
    simp
  · rw [if_neg same, List.filter_eq_nil_iff]
    intro a member
    obtain ⟨-, -, -, r, -, rfl⟩ := jobApplied_mem member
    simpa [Prod.ext_iff] using same

/-- Of all calls only one has applied these entries. -/
theorem appliedIn_flatMap {order : List (Nat × Bool)} (distinct : order.Nodup) (job : Nat × Bool) :
    appliedIn (order.flatMap (jobApplied u)) job.1 job.2 = if job ∈ order then jobApplied u job else [] := by
  induction order with
  | nil => rfl
  | cons first rest ih =>
    obtain ⟨absent, distinct⟩ := List.nodup_cons.mp distinct
    have split : appliedIn ((first :: rest).flatMap (jobApplied u)) job.1 job.2 =
        appliedIn (jobApplied u first) job.1 job.2 ++ appliedIn (rest.flatMap (jobApplied u)) job.1 job.2 := by
      rw [List.flatMap_cons]
      exact List.filter_append ..
    rw [split, appliedIn_jobApplied, ih distinct]
    by_cases here : first = job
    · subst here
      rw [if_pos rfl, if_neg absent, if_pos List.mem_cons_self, List.append_nil]
    · have other : job ∈ first :: rest ↔ job ∈ rest := by
        rw [List.mem_cons]
        exact or_iff_right fun same => here same.symm
      simp only [if_neg here, other, List.nil_append]

theorem linkOrder_nodup (u : LoadedUso) : (linkOrder u).Nodup := by
  refine List.nodup_flatMap.mpr ⟨fun i _ => by simp, List.Pairwise.imp ?_ List.nodup_range'⟩
  intro i j different job first second
  simp only [List.mem_cons, List.not_mem_nil, or_false] at first second
  rcases first with rfl | rfl <;> rcases second with same | same <;> exact different (congrArg Prod.fst same)

/-- A placed section has its whole table applied. -/
theorem appliedIn_table {k : Nat} {internal : Bool} {sec : LoadedSection} (found : u.sections[k]? = some sec)
    (placed : (relocTable sec internal).getD [] ≠ [] → k ≠ 0 ∧ sec.data ≠ 0) :
    appliedIn (linkApplied u) k internal =
      ((relocTable sec internal).getD []).map fun r => ⟨k, internal, r, symAddrD u internal r⟩ := by
  have bound := (List.getElem?_eq_some_iff.mp found).1
  have calls : appliedIn (linkApplied u) k internal =
      if (k, internal) ∈ linkOrder u then jobApplied u (k, internal) else [] :=
    appliedIn_flatMap (linkOrder_nodup u) (k, internal)
  by_cases empty : (relocTable sec internal).getD [] = []
  · have none : jobApplied u (k, internal) = [] := by
      unfold jobApplied
      cases tabled : jobTable u (k, internal) with
      | none => rfl
      | some entry =>
        obtain ⟨sec', found', -, listed⟩ := jobTable_some tabled
        obtain rfl : sec = sec' := Option.some.inj (found.symm.trans found')
        simp only [← listed, empty, List.map_nil]
    rw [calls, none, ite_self, empty, List.map_nil]
  · obtain ⟨real, nonzero⟩ := placed empty
    obtain ⟨e, member⟩ := List.exists_mem_of_ne_nil _ empty
    rw [calls, if_pos (mem_linkOrder.mpr ⟨Nat.pos_of_ne_zero real, bound⟩), jobApplied, jobTable_of_mem found nonzero member]

end

section
variable {sort : SymSort} {elf : Elf} {tool : Elf2uso} {srcElfName : Bytes}

/-- A load whose linker gets through leaves the log of the records. -/
theorem linksInPlace (produced : Produced sort elf tool srcElfName) (inside : RelocsInside elf) {search : Bytes → U32}
    {block : U32} (fits : block.toNat + (usoImage (usoWrite tool srcElfName)).length ≤ 2 ^ 32)
    (resolved : (fixupImports (usoImage (usoWrite tool srcElfName)) search).2 = true) {memory : Memory}
    (holds : HoldsImage memory block (usoImage (usoWrite tool srcElfName)))
    (supported : RelocsSupported elf) :
    LinksInPlace (usoWrite tool srcElfName) search block memory
      (linkApplied (loadedFile (usoWrite tool srcElfName) search block)) := by
  have linked := linked_usoWrite produced inside fits search
  obtain ⟨fixed, fixedUp, returns⟩ := linked.fixupUsoAt holds
  obtain ⟨after, links⟩ := linkUso_supported produced supported search fits fixed
  have stays := applyTables_agree (linked.undisturbed fixedUp holds) (fun _ => id) (fun _ _ => rfl) links
  refine ⟨after, ?_, (linked.undisturbed fixedUp holds).shows after stays⟩
  rw [returns, if_pos resolved]
  exact congrArg (Except.map _) links

/-- Every entry in the log of a load that returns is of a supported type. -/
theorem LinksInPlace.supported (produced : Produced sort elf tool srcElfName) (inside : RelocsInside elf)
    {search : Bytes → U32} {block : U32} (fits : block.toNat + (usoImage (usoWrite tool srcElfName)).length ≤ 2 ^ 32)
    {memory : Memory} (holds : HoldsImage memory block (usoImage (usoWrite tool srcElfName))) {log : List Applied}
    (links : LinksInPlace (usoWrite tool srcElfName) search block memory log) :
    ∀ a ∈ log, IsSupported (usoGetRelocType a.entry) := by
  obtain ⟨after, returned, -⟩ := links
  obtain ⟨fixed, -, returns⟩ := (linked_usoWrite produced inside fits search).fixupUsoAt holds
  rw [returns] at returned
  split at returned
  · cases links : linkUso (loadedFile (usoWrite tool srcElfName) search block) fixed with
    | error fault =>
      have stopped := (congrArg (Except.map _) links).symm.trans returned
      cases stopped
    | ok after' =>
      have same := (congrArg (Except.map _) links).symm.trans returned
      simp only [Except.map, Except.ok.injEq, Option.some.injEq, Prod.mk.injEq] at same
      intro a member
      rw [← same.2] at member
      obtain ⟨job, listed, own⟩ := List.mem_flatMap.mp member
      obtain ⟨sectionBase, table, tabled, r, inTable, rfl⟩ := jobApplied_mem own
      exact (applyTables_applicable (fun job member => (mem_linkOrder.mp member).2) links job listed _ _ tabled r
        inTable).supported
  · cases returned

/-- The log has the whole table of every collected section. -/
theorem appliedIn_collected (produced : Produced sort elf tool srcElfName) (inside : RelocsInside elf)
    {search : Bytes → U32} {block : U32} (fits : block.toNat + (usoImage (usoWrite tool srcElfName)).length ≤ 2 ^ 32)
    {k : Nat} {info : SectionInfo} (at_k : (sectionCollect elf).outSections[k]? = some info) {sec : LoadedSection}
    (found : (loadedFile (usoWrite tool srcElfName) search block).sections[k]? = some sec) (internal : Bool) :
    appliedIn (linkApplied (loadedFile (usoWrite tool srcElfName) search block)) k internal =
      ((relocTable sec internal).getD []).map fun r =>
        ⟨k, internal, r, symAddrD (loadedFile (usoWrite tool srcElfName) search block) internal r⟩ := by
  refine appliedIn_table found fun some => ?_
  obtain ⟨sec', found', loaded⟩ := loadedAs_collected produced fits search at_k
  obtain rfl : sec = sec' := Option.some.inj (found.symm.trans found')
  obtain ⟨r, own⟩ : ∃ r, r ∈ relocsOf elf info := by
    obtain ⟨e, member⟩ := List.exists_mem_of_ne_nil _ some
    cases internal with
    | true =>
      simp only [relocTable, ↓reduceIte, loaded.internal, getD_present] at member
      obtain ⟨r, own, -⟩ := List.mem_filterMap.mp member
      exact ⟨r, own⟩
    | false =>
      simp only [relocTable, Bool.false_eq_true, ↓reduceIte, loaded.external, getD_present] at member
      obtain ⟨r, own, -⟩ := List.mem_filterMap.mp member
      exact ⟨r, own⟩
  have room := relocsInside_collected inside (List.mem_of_getElem? at_k) own
  have last : dataEnd tool srcElfName ≤ (usoImage (usoWrite tool srcElfName)).length := Nat.min_le_right _ _
  have positive := List.length_pos_iff.mpr produced.writable.sections_ne_nil
  obtain ⟨real, above, below⟩ := relocated_place produced inside at_k own found
  refine ⟨real, ?_⟩
  rw [← field_distance block sec.data]
  exact field_ne_zero (by omega) (by omega)

end

/-! ### Types and targets -/

/-- What was applied in a section, against the relocations of the ELF: types and targets. -/
structure CallsApply (elf : Elf) (uso : LoadedUso) (k : Nat) (info : SectionInfo) (log : List Applied) : Prop where
  internal : List.Forall₂ (fun r a => InternalEntry uso r a.entry) ((relocsOf elf info).filter (namesDefined elf))
    (appliedIn log k true)
  external : List.Forall₂ (fun r a => ExternalEntry uso r a.entry) ((relocsOf elf info).filter (namesUndefined elf))
    (appliedIn log k false)

/-- Every load whose imports are found links, and applies every relocation with its own type to a target there is. -/
def LoadsApply (elf : Elf) (file : Bytes) : Prop :=
  ∀ search block memory, block.toNat + (usoImage file).length ≤ 2 ^ 32 → HoldsImage memory block (usoImage file) →
    (fixupImports (usoImage file) search).2 = true →
    ∃ log, LinksInPlace file search block memory log ∧
      (loadedFile file search block).sections.length = (sectionCollect elf).outSections.length ∧
      ∀ (k : Nat) (info : SectionInfo), (sectionCollect elf).outSections[k]? = some info →
        CallsApply elf (loadedFile file search block) k info log

section
variable {sort : SymSort} {elf : Elf} {tool : Elf2uso} {srcElfName : Bytes}

theorem loadsApply_of_supported (produced : Produced sort elf tool srcElfName) (inside : RelocsInside elf)
    (supported : RelocsSupported elf) : LoadsApply elf (usoWrite tool srcElfName) := by
  intro search block memory fits holds resolved
  refine ⟨_, linksInPlace produced inside fits resolved holds supported, ?_, fun k info at_k => ?_⟩
  · rw [length_loadedFile produced, produced.accepted.length_outSections]
  · obtain ⟨sec, found, -⟩ := loadedAs_collected produced fits search at_k
    have tables := tablesApply_of_supported produced supported fits at_k found
    have applied := appliedIn_collected produced inside fits at_k found
    constructor
    · rw [applied, List.forall₂_map_right_iff]
      exact tables.internal
    · rw [applied, List.forall₂_map_right_iff]
      exact tables.external

theorem supported_of_loadsApply (produced : Produced sort elf tool srcElfName) (inside : RelocsInside elf)
    (applies : LoadsApply elf (usoWrite tool srcElfName)) : RelocsSupported elf := by
  have small := usoImage_lt produced.writable
  have sixteen : (16 : U32).toNat = 16 := rfl
  have fits : (16 : U32).toNat + (usoImage (usoWrite tool srcElfName)).length ≤ 2 ^ 32 := by omega
  have holds := imageMemory_holds fits
  have resolved : (fixupImports (usoImage (usoWrite tool srcElfName)) fun _ => 16).2 = true := by
    rw [fixupImports_eq]
    simp
  obtain ⟨log, links, -, calls⟩ := applies (fun _ => 16) 16 _ fits holds resolved
  have types := links.supported produced inside fits holds
  rw [relocsSupported_iff]
  intro info collected r member
  obtain ⟨k, at_k⟩ := List.mem_iff_getElem?.mp collected
  cases names : namesUndefined elf r with
  | false =>
    have defined : namesDefined elf r = true := by
      rw [namesUndefined_of_relocsOf member, Bool.not_eq_false'] at names
      exact names
    obtain ⟨a, applied, same, -⟩ := exists_right (calls k info at_k).internal (List.mem_filter.mpr ⟨member, defined⟩)
    exact ⟨same ▸ types a (List.mem_of_mem_filter applied), fun undefined => absurd undefined (by simp [names])⟩
  | true =>
    obtain ⟨a, applied, same, imports, present, target⟩ := exists_right (calls k info at_k).external
      (List.mem_filter.mpr ⟨member, names⟩)
    refine ⟨same ▸ types a (List.mem_of_mem_filter applied), fun _ => ?_⟩
    rw [importSyms_loadedFile produced] at present
    cases syms : tool.importSyms with
    | nil =>
      rw [syms] at present
      cases present
    | cons s rest =>
      obtain ⟨i, symbol, at_i, imported, -⟩ := produced.accepted.mem_importSyms.mp (syms ▸ List.mem_cons_self)
      exact ⟨symbol, List.mem_of_getElem? at_i, imported⟩

/-- The loader applies every relocation of a file whose relocations lie inside their sections exactly if
they are of the four types and none of them names an undefined symbol while nothing is imported. -/
theorem loadsApply_iff (produced : Produced sort elf tool srcElfName) (inside : RelocsInside elf) :
    LoadsApply elf (usoWrite tool srcElfName) ↔ RelocsSupported elf :=
  ⟨supported_of_loadsApply produced inside, loadsApply_of_supported produced inside⟩

end

theorem callerElf_inside : RelocsInside callerElf := by
  unfold RelocsInside
  decide +kernel

theorem loadsApply_iff_callerElf : LoadsApply callerElf (usoWrite callerTool [99]) ↔ RelocsSupported callerElf :=
  loadsApply_iff callerElf_produced callerElf_inside

/-- A word relocated by the null symbol, in a program that imports nothing. -/
def discardedElf : Elf := relocatedElf [nullSymbol, exportedG] [⟨0, 0x002⟩] (by decide) (by decide)

def discardedTool : Elf2uso := sampleTool discardedElf [] [exportSymbol 1 exportedG 1]

/-- A branch relocated by `R_MIPS_PC16`, type 10. -/
def branchElf : Elf := relocatedElf [nullSymbol, exportedG] [⟨0, 0x10A⟩] (by decide) (by decide)

def branchTool : Elf2uso := sampleTool branchElf [] [exportSymbol 1 exportedG 1]

/-- What a load of a file at address 16 applies, its imports all found there. -/
def loadLog (file : Bytes) : Except Fault (Option (List Applied)) :=
  (fixupUsoAt (fun _ => 16) 16 (getUsoNoloadStart (readLoadInfo file) 16) (imageMemory 16 (usoImage file))).map
    (Option.map Prod.snd)

theorem LinksInPlace.loadLog {file : Bytes} {log : List Applied}
    (links : LinksInPlace file (fun _ => 16) 16 (imageMemory 16 (usoImage file)) log) :
    AppliedRelocs.loadLog file = .ok (some log) := by
  obtain ⟨after, returned, -⟩ := links
  rw [AppliedRelocs.loadLog, returned]
  rfl

/-- A file that stops the loader at address 16 does not link there. -/
theorem not_linksInPlace {file : Bytes} {fault : Fault} (stops : loadLog file = .error fault) (log : List Applied) :
    ¬ LinksInPlace file (fun _ => 16) 16 (imageMemory 16 (usoImage file)) log := by
  intro links
  rw [links.loadLog] at stops
  cases stops

theorem not_loadsApply {elf : Elf} {file : Bytes} (small : (16 : U32).toNat + (usoImage file).length ≤ 2 ^ 32)
    (resolved : (fixupImports (usoImage file) fun _ => 16).2 = true) {fault : Fault} (stops : loadLog file = .error fault) :
    ¬ LoadsApply elf file := by
  intro applies
  obtain ⟨log, links, -⟩ := applies (fun _ => 16) 16 _ small (imageMemory_holds small) resolved
  exact not_linksInPlace stops log links

theorem usoOpen_stops {st : LoaderState} {filename file : Bytes} {alloc : Allocation} {fault : Fault}
    (stops : (usoOpen st filename (some file) alloc).map Prod.snd = .error fault) :
    usoOpen st filename (some file) alloc = .error fault := by
  cases call : usoOpen st filename (some file) alloc with
  | error other =>
    rw [call] at stops
    cases stops
    rfl
  | ok next =>
    rw [call] at stops
    cases stops

/-- The loader follows the NULL import table of the one and stops at the type of the other. -/
theorem relocations_stop :
    (Produced nameSort discardedElf discardedTool [100] ∧
      usoOpen (initialState (fun _ => 0) []) [100] (some (usoWrite discardedTool [100])) libraryAlloc =
        .error .nullImportTable ∧
      ¬ LoadsApply discardedElf (usoWrite discardedTool [100])) ∧
    Produced nameSort branchElf branchTool [98] ∧
      usoOpen (initialState (fun _ => 0) []) [98] (some (usoWrite branchTool [98])) libraryAlloc =
        .error (.invalidRelocType 10) ∧
      ¬ LoadsApply branchElf (usoWrite branchTool [98]) := by
  have discarded : Produced nameSort discardedElf discardedTool [100] :=
    sampleTool_produced (by decide +kernel) (by decide +kernel) (by decide) (by decide +kernel) (by decide +kernel)
  have branch : Produced nameSort branchElf branchTool [98] :=
    sampleTool_produced (by decide +kernel) (by decide +kernel) (by decide) (by decide +kernel) (by decide +kernel)
  have null : loadLog (usoWrite discardedTool [100]) = .error .nullImportTable := by decide +kernel
  have invalid : loadLog (usoWrite branchTool [98]) = .error (.invalidRelocType 10) := by decide +kernel
  exact ⟨⟨discarded, usoOpen_stops (by decide +kernel), not_loadsApply (by decide +kernel) (by decide +kernel) null⟩,
    branch, usoOpen_stops (by decide +kernel), not_loadsApply (by decide +kernel) (by decide +kernel) invalid⟩

/-! ### Symbols -/

/-- The relocations the tool goes through have one of the four types, and name symbols that have an address. -/
def RelocsMeant (elf : Elf) : Prop :=
  ∀ s ∈ elf.sections.tail, isAllocated s = true → ∀ r ∈ elfRelocs elf s,
    IsSupported r.type ∧ ∀ symbol, elf.symbols[r.symbol]? = some symbol → Meaningful elf symbol

/-- An entry the tool writes keeps the offset and the type of its relocation. -/
structure EntryKept (r : ElfRelocation) (e : UsoReloc) : Prop where
  offset : e.offset = r.offset
  type : usoGetRelocType e = r.type

/-- A relocation was applied where the ELF has it, with the address of the symbol it names. -/
structure SymbolApplied (elf : Elf) (tool : Elf2uso) (file : Bytes) (search : Bytes → U32) (block : U32)
    (r : ElfRelocation) (a : Applied) : Prop where
  kept : EntryKept r a.entry
  symbol : ∃ symbol, elf.symbols[r.symbol]? = some symbol ∧
    SymbolAt elf tool file search (loadedFile file search block) block symbol a.symAddr

/-- The two lists of an output section take every relocation once, in order, and so does the linker of
every load whose imports are found. -/
structure RelocsBound (elf : Elf) (tool : Elf2uso) (file : Bytes) (relocations : List ElfRelocation) (k : U16)
    (info : SectionInfo) (ours theirs : List ElfRelocation) : Prop where
  once : (ours ++ theirs).Perm relocations
  order : ours.Sublist relocations ∧ theirs.Sublist relocations
  internal : List.Forall₂ EntryKept ours info.internalRelocs
  external : List.Forall₂ EntryKept theirs info.externalRelocs
  applied : ∀ search block memory, block.toNat + (usoImage file).length ≤ 2 ^ 32 →
    HoldsImage memory block (usoImage file) → (fixupImports (usoImage file) search).2 = true →
    ∃ log, LinksInPlace file search block memory log ∧
      List.Forall₂ (SymbolApplied elf tool file search block) ours (appliedIn log k.toNat true) ∧
      List.Forall₂ (SymbolApplied elf tool file search block) theirs (appliedIn log k.toNat false)

section
variable {sort : SymSort} {elf : Elf} {tool : Elf2uso} {srcElfName : Bytes}

theorem RelocsMeant.supported (meant : RelocsMeant elf) : RelocsSupported elf := by
  intro s inTail allocated r member
  obtain ⟨type, meaningful⟩ := meant s inTail allocated r member
  refine ⟨type, fun undefined => ?_⟩
  unfold namesUndefined at undefined
  cases named : elf.symbols[r.symbol]? with
  | none => simp [named] at undefined
  | some symbol =>
    simp only [named, beq_iff_eq] at undefined
    cases meaningful symbol named with
    | allocated _ defined => exact absurd undefined defined
    | absolute absolute => exact absurd (absolute.symm.trans undefined) (by decide)
    | imported imported => exact ⟨symbol, List.mem_of_getElem? named, imported⟩

theorem symbolApplied_of_bound {file : Bytes} {internal : Bool} {r : ElfRelocation} {e : UsoReloc}
    (bound : EntryBound elf tool file internal r e) {search : Bytes → U32} {block : U32}
    (fits : block.toNat + (usoImage file).length ≤ 2 ^ 32) (k : Nat) :
    SymbolApplied elf tool file search block r
      ⟨k, internal, e, symAddrD (loadedFile file search block) internal e⟩ := by
  obtain ⟨symbol, named, at_address⟩ := bound.symbol
  obtain ⟨address, resolves, at_symbol⟩ := at_address search block fits
  refine ⟨⟨bound.offset, bound.type⟩, symbol, named, ?_⟩
  rw [symAddrD_eq resolves]
  exact at_symbol

/-- The relocations of a section, found by the name of their own section, are split into two lists
and applied with the symbols they name. -/
theorem relocs_bound (produced : Produced sort elf tool srcElfName) (inside : RelocsInside elf) (meant : RelocsMeant elf)
    (distinct : (elf.sections.map fun s => s.name).Nodup) {i j : Nat} {s t : ElfSection} (real : i ≠ SHN_UNDEF)
    (at_i : elf.sections[i]? = some s) (allocated : isAllocated s = true) (kept : s.type ≠ SHT_NOBITS)
    (real' : j ≠ SHN_UNDEF) (at_j : elf.sections[j]? = some t) (named : t.name = relPrefix ++ s.name) :
    ∃ k info ours theirs, tool.outSectionMap i = some k ∧ tool.outSections[k.toNat]? = some info ∧
      RelocsBound elf tool (usoWrite tool srcElfName) t.relocations k info ours theirs := by
  have accepted := produced.accepted
  obtain ⟨k, place, -, out⟩ := accepted.mapped real at_i allocated
  obtain ⟨-, -, s', at_i', -, collected⟩ := (sectionCollect_below elf).mapped i k real (accepted.outSectionMap ▸ place)
  obtain rfl : s = s' := Option.some.inj (at_i.symm.trans at_i')
  have own : ∀ r ∈ relocsOf elf (sectionData elf s), IsSupported r.type ∧
      ∀ symbol, elf.symbols[r.symbol]? = some symbol → Meaningful elf symbol := by
    intro r member
    obtain ⟨index, rfl⟩ : ∃ n, i = n + 1 := Nat.exists_eq_succ_of_ne_zero real
    rw [← List.getElem?_tail] at at_i
    rw [relocsOf_sectionData] at member
    exact meant s (List.mem_of_getElem? at_i) allocated r member
  have bound := entries_bound produced (fun r member => (own r member).1) fun r member => (own r member).2
  have relocations := relocsOf_named distinct kept real' at_j named
  refine ⟨k, withEntries elf tool (sectionData elf s), _, _, place, out, ?_, ?_, bound.1.imp fun _ _ e => ⟨e.offset, e.type⟩,
    bound.2.imp fun _ _ e => ⟨e.offset, e.type⟩, ?_⟩
  · rw [← relocations]
    exact perm_filters _
  · rw [← relocations]
    exact ⟨List.filter_sublist, List.filter_sublist⟩
  · intro search block memory fits holds resolved
    obtain ⟨sec, found, loaded⟩ := loadedAs_collected produced fits search collected
    have applied := appliedIn_collected produced inside fits collected found
    refine ⟨_, linksInPlace produced inside fits resolved holds meant.supported, ?_, ?_⟩
    · rw [applied, List.forall₂_map_right_iff, relocTable, if_pos rfl, loaded.internal, getD_present]
      exact bound.1.imp fun _ _ e => symbolApplied_of_bound e fits k.toNat
    · rw [applied, List.forall₂_map_right_iff, relocTable, if_neg Bool.false_ne_true, loaded.external, getD_present]
      exact bound.2.imp fun _ _ e => symbolApplied_of_bound e fits k.toNat

end

/-- The samples' relocations name `f` and `g`. -/
theorem sample_meant {elf : Elf} (code : ElfSection) (at_code : elf.sections[1]? = some code)
    (allocated : isAllocated code = true)
    (relocations : ∀ s ∈ elf.sections.tail, isAllocated s = true → ∀ r ∈ elfRelocs elf s, IsSupported r.type ∧
      (elf.symbols[r.symbol]? = some importedF ∨ elf.symbols[r.symbol]? = some exportedG)) : RelocsMeant elf := by
  intro s inTail allocated r member
  obtain ⟨type, imported | exported⟩ := relocations s inTail allocated r member
  · refine ⟨type, fun symbol named => ?_⟩
    obtain rfl := Option.some.inj (imported.symm.trans named)
    exact .imported (by decide)
  · refine ⟨type, fun symbol named => ?_⟩
    obtain rfl := Option.some.inj (exported.symm.trans named)
    exact .allocated code (by decide) at_code (by assumption)

theorem callerElf_meant : RelocsMeant callerElf := sample_meant codeSection rfl (by decide) (by decide +kernel)

theorem relocs_bound_callerElf :
    ∃ k info ours theirs, callerTool.outSectionMap 1 = some k ∧ callerTool.outSections[k.toNat]? = some info ∧
      RelocsBound callerElf callerTool (usoWrite callerTool [99]) [⟨0, 0x102⟩, ⟨4, 0x204⟩] k info ours theirs :=
  relocs_bound (i := 1) (j := 3) (s := codeSection) (t := relSection [⟨0, 0x102⟩, ⟨4, 0x204⟩]) callerElf_produced
    callerElf_inside callerElf_meant (by decide) (by decide) rfl (by decide) (by decide) (by decide) rfl rfl

/-! The address of `g` in two words, the first of them not in the section: it is a word of the second
relocation's own entry. -/

def farRelocs : List ElfRelocation := [⟨32, 0x102⟩, ⟨0, 0x102⟩]

def farElf : Elf := relocatedElf [nullSymbol, exportedG] farRelocs (by decide) (by decide)

def farTool : Elf2uso := sampleTool farElf [] [exportSymbol 1 exportedG 1]

theorem farElf_collected : elf2uso nameSort farElf = .ok farTool :=
  elf2uso_sampleTool (by decide +kernel) (by decide +kernel) (by decide) (by decide)

theorem farElf_produced : Produced nameSort farElf farTool [102] :=
  sampleTool_produced (by decide +kernel) (by decide +kernel) (by decide) (by decide +kernel) (by decide +kernel)

/-- At address 16 the first relocation adds the address of `g` to the entry of the second. -/
theorem farElf_log : loadLog (usoWrite farTool [102]) =
    .ok (some [⟨1, true, ⟨32, 0x08000001, 0⟩, 100⟩, ⟨1, true, ⟨0, 0x08000001, 100⟩, 200⟩]) := by
  decide +kernel

/-- `g` is then at 100. -/
theorem farElf_g {search : Bytes → U32} {a : U32} (at_a : SymbolAt farElf farTool (usoWrite farTool [102]) search
    (loadedFile (usoWrite farTool [102]) search 16) 16 exportedG a) : a = 100 := by
  have data : ((loadedFile (usoWrite farTool [102]) search 16).sections[1]?.map fun sec => sec.data) = some 100 := by
    simp only [loadedFile, fixedUso]
    decide +kernel
  cases at_a with
  | allocated s sec _ _ _ at_sec =>
    obtain ⟨k, place, found, -⟩ := at_sec.numbered
    have number : farTool.outSectionMap exportedG.shndx.toNat = some 1 := by decide +kernel
    obtain rfl := Option.some.inj (number.symm.trans place)
    have one : (1 : U16).toNat = 1 := rfl
    have value : exportedG.value = 0 := rfl
    rw [one] at found
    rw [found, Option.map_some, Option.some.injEq] at data
    rw [data, value]
    rfl
  | absolute absolute => exact absurd absolute (by decide)
  | imported _ _ undefined => exact absurd undefined (by decide)

/-- Neither an alignment of zero nor a relocation outside its section leaves the tables alone: the loader
stops at the one file, and applies the second relocation of the other with a wrong address. -/
theorem relocs_unbound :
    (elf2uso nameSort unalignedElf = .ok unalignedTool ∧ (unalignedElf.sections.map fun s => s.name).Nodup ∧
      RelocsMeant unalignedElf ∧ RelocsInside unalignedElf ∧ ∀ k info ours theirs,
        ¬ RelocsBound unalignedElf unalignedTool (usoWrite unalignedTool [117]) unalignedRelocs k info ours theirs) ∧
    Produced nameSort farElf farTool [102] ∧ (farElf.sections.map fun s => s.name).Nodup ∧ RelocsMeant farElf ∧
      ∀ k info ours theirs, farTool.outSectionMap 1 = some k →
        ¬ RelocsBound farElf farTool (usoWrite farTool [102]) farRelocs k info ours theirs := by
  have unaligned : RelocsMeant unalignedElf := sample_meant unalignedCode rfl (by decide) (by decide +kernel)
  have far : RelocsMeant farElf := sample_meant codeSection rfl (by decide) (by decide +kernel)
  have stops : loadLog (usoWrite unalignedTool [117]) = .error (.invalidRelocType 0) := by decide +kernel
  have resolved : (fixupImports (usoImage (usoWrite unalignedTool [117])) fun _ => 16).2 = true := by decide +kernel
  have resolved' : (fixupImports (usoImage (usoWrite farTool [102])) fun _ => 16).2 = true := by decide +kernel
  have small : (16 : U32).toNat + (usoImage (usoWrite unalignedTool [117])).length ≤ 2 ^ 32 := by decide +kernel
  have small' : (16 : U32).toNat + (usoImage (usoWrite farTool [102])).length ≤ 2 ^ 32 := by decide +kernel
  refine ⟨⟨unalignedElf_collected, by decide, unaligned, by unfold RelocsInside; decide +kernel, ?_⟩,
    farElf_produced, by decide, far, ?_⟩
  · intro k info ours theirs bound
    obtain ⟨log, links, -⟩ := bound.applied (fun _ => 16) 16 _ small
      (imageMemory_holds small) resolved
    exact not_linksInPlace stops log links
  · intro k info ours theirs place bound
    obtain ⟨log, links, internal, -⟩ := bound.applied (fun _ => 16) 16 _ small'
      (imageMemory_holds small') resolved'
    have number : farTool.outSectionMap 1 = some 1 := by decide +kernel
    obtain rfl := Option.some.inj (number.symm.trans place)
    have own := farElf_log.symm.trans links.loadLog
    simp only [Except.ok.injEq, Option.some.injEq] at own
    obtain ⟨r, member, -, symbol, named, at_symbol⟩ := exists_left internal
      (show ⟨1, true, ⟨0, 0x08000001, 100⟩, 200⟩ ∈ appliedIn log 1 true by rw [← own]; decide)
    have everyG : ∀ r ∈ farRelocs, farElf.symbols[r.symbol]? = some exportedG := by decide
    obtain rfl := Option.some.inj ((everyG r (bound.order.1.subset member)).symm.trans named)
    exact absurd (farElf_g at_symbol) (by decide)

end DragonUso.AppliedRelocs
