import DragonUso.HiLoPair

/-! `link_uso` as one patch of the memory it starts from: the tables are applied one after the
other, and with disjoint target words no entry sees what another one wrote. -/

namespace DragonUso.Linking
open ByteOrder PatchSet WordMemory Format Relocation HiLoPair

/-! ### The jump field -/

/-- Where a MIPS jump goes: the index field within the 256 MB region of its delay slot. -/
def jumpDestination (delaySlot word : U32) : U32 :=
  (delaySlot &&& (0xF0000000 : U32)) ||| ((word &&& (0x3FFFFFF : U32)) <<< 2)

theorem opcodeMask : ∀ i : Fin 32, (0xFC000000 : U32).getLsbD i = decide (26 ≤ i.val) := by decide

theorem wordMask : ∀ i : Fin 32, (0xFFFFFFC : U32).getLsbD i = decide (2 ≤ i.val ∧ i.val < 28) := by decide

theorem regionMask : ∀ i : Fin 32, (0xF0000000 : U32).getLsbD i = decide (28 ≤ i.val) := by decide

theorem lowMask : ∀ i : Fin 32, (3 : U32).getLsbD i = decide (i.val < 2) := by decide

theorem getLsbD_jumpWord (word target : U32) {i : Nat} (bound : i < 32) :
    (jumpWord word target).getLsbD i = if i < 26 then target.getLsbD (i + 2) else word.getLsbD i := by
  have op : (0xFC000000 : U32).getLsbD i = decide (26 ≤ i) := opcodeMask ⟨i, bound⟩
  unfold jumpWord
  rw [BitVec.getLsbD_or, BitVec.getLsbD_and, op, BitVec.getLsbD_ushiftRight, BitVec.getLsbD_and, Nat.add_comm 2]
  by_cases low : i < 26
  · have inside : (0xFFFFFFC : U32).getLsbD (i + 2) = true := by
      rw [show (0xFFFFFFC : U32).getLsbD (i + 2) = _ from wordMask ⟨i + 2, by omega⟩]
      simp
      omega
    rw [inside, if_pos low, decide_eq_false (by omega), Bool.and_false, Bool.and_true, Bool.false_or]
  · have outside : (0xFFFFFFC : U32).getLsbD (i + 2) = false := by
      rcases Nat.lt_or_ge (i + 2) 32 with small | large
      · rw [show (0xFFFFFFC : U32).getLsbD (i + 2) = _ from wordMask ⟨i + 2, small⟩]
        simp
        omega
      · exact BitVec.getLsbD_of_ge _ _ large
    rw [outside, if_neg low, decide_eq_true (by omega), Bool.and_true, Bool.and_false, Bool.or_false]

theorem opcode_jumpWord (word target : U32) : (jumpWord word target).extractLsb' 26 6 = word.extractLsb' 26 6 := by
  apply BitVec.eq_of_getLsbD_eq
  intro i bound
  rw [BitVec.getLsbD_extractLsb', BitVec.getLsbD_extractLsb', getLsbD_jumpWord word target (by omega),
    if_neg (by omega)]

theorem index_jumpWord (word target : U32) : (jumpWord word target).extractLsb' 0 26 = target.extractLsb' 2 26 := by
  apply BitVec.eq_of_getLsbD_eq
  intro i bound
  rw [BitVec.getLsbD_extractLsb', BitVec.getLsbD_extractLsb', getLsbD_jumpWord word target (by omega),
    if_pos (by omega), Nat.zero_add, Nat.add_comm 2]

/-- A jump reaches a 4-aligned target of its region. -/
theorem jumpDestination_jumpWord {delaySlot word target : U32}
    (region : delaySlot &&& 0xF0000000 = target &&& 0xF0000000) (aligned : target &&& 3 = 0) :
    jumpDestination delaySlot (jumpWord word target) = target := by
  unfold jumpDestination
  rw [region]
  apply BitVec.eq_of_getLsbD_eq
  intro i bound
  have top : (0xF0000000 : U32).getLsbD i = decide (28 ≤ i) := regionMask ⟨i, bound⟩
  rw [BitVec.getLsbD_or, BitVec.getLsbD_and, top, BitVec.getLsbD_shiftLeft, BitVec.getLsbD_and]
  by_cases low : i < 2
  · have three : (3 : U32).getLsbD i = decide (i < 2) := lowMask ⟨i, bound⟩
    have bit : (target &&& 3).getLsbD i = false := by
      rw [aligned]
      exact BitVec.getLsbD_zero
    rw [BitVec.getLsbD_and, three] at bit
    simp only [low, decide_true, Bool.and_true] at bit
    simp [low, bit]
  · have field : (0x3FFFFFF : U32).getLsbD (i - 2) = decide (i - 2 < 26) := indexMask ⟨i - 2, by omega⟩
    rw [field, getLsbD_jumpWord word target (by omega), Nat.sub_add_cancel (by omega)]
    by_cases middle : i < 28
    · simp [bound, low, show i - 2 < 26 by omega]
      omega
    · simp [bound, low, show ¬ i - 2 < 26 by omega]
      omega

theorem jumpTarget_eq (word symAddr : U32) :
    jumpTarget word symAddr = BitVec.ofNat 32 (4 * (word.toNat % 2 ^ 26)) + symAddr := by
  have field : (0x3FFFFFF : U32).toNat = 2 ^ 26 - 1 := rfl
  unfold jumpTarget
  congr 1
  apply BitVec.eq_of_toNat_eq
  calc
    _ = word.toNat % 2 ^ 26 * 4 % 2 ^ 32 := by
      rw [BitVec.toNat_shiftLeft, BitVec.toNat_and, field, Nat.and_two_pow_sub_one_eq_mod, Nat.shiftLeft_eq]
    _ = _ := by rw [BitVec.toNat_ofNat, Nat.mul_comm]

/-! ### All tables -/

/-- The table one call works on with its section's address, if the call does not return at once. -/
def jobTable (uso : LoadedUso) (job : Nat × Bool) : Option (U32 × List UsoReloc) :=
  match uso.sections[job.1]? with
  | none => none
  | some s =>
    match relocTable s job.2 with
    | none => none
    | some table => if s.data = 0 then none else some (s.data, table)

/-- The addresses of the words a call patches. -/
def jobTargets (uso : LoadedUso) (job : Nat × Bool) : List U32 :=
  match jobTable uso job with
  | none => []
  | some (sectionBase, table) => table.map fun r => sectionBase + r.offset

def jobPatches (uso : LoadedUso) (job : Nat × Bool) : List (Patch U32 Byte) :=
  match jobTable uso job with
  | none => []
  | some (sectionBase, table) => tablePatches uso job.2 sectionBase table

/-- An image that can be linked: every entry can be applied, and no two target words overlap. -/
structure Linkable (uso : LoadedUso) : Prop where
  applicable : ∀ job ∈ linkOrder uso, ∀ sectionBase table, jobTable uso job = some (sectionBase, table) →
    ∀ r ∈ table, Applicable uso job.2 r
  apart : ((linkOrder uso).flatMap (jobTargets uso)).Pairwise WordsApart

/-- What an entry makes of its target word, as a function of the memory before linking. -/
structure WordPatched (before after : Memory) (sectionBase symAddr : U32) (reloc : UsoReloc)
    (later : List UsoReloc) : Prop where
  word : usoGetRelocType reloc = R_MIPS_32 → readWord after (sectionBase + reloc.offset) =
    readWord before (sectionBase + reloc.offset) + symAddr
  opcode : usoGetRelocType reloc = R_MIPS_26 → (readWord after (sectionBase + reloc.offset)).extractLsb' 26 6 =
    (readWord before (sectionBase + reloc.offset)).extractLsb' 26 6
  index : usoGetRelocType reloc = R_MIPS_26 → (readWord after (sectionBase + reloc.offset)).extractLsb' 0 26 =
    (BitVec.ofNat 32 (4 * ((readWord before (sectionBase + reloc.offset)).toNat % 2 ^ 26)) +
      symAddr).extractLsb' 2 26
  reaches : usoGetRelocType reloc = R_MIPS_26 → ∀ delaySlot target : U32,
    target = BitVec.ofNat 32 (4 * ((readWord before (sectionBase + reloc.offset)).toNat % 2 ^ 26)) + symAddr →
    delaySlot &&& 0xF0000000 = target &&& 0xF0000000 → target &&& 3 = 0 →
    jumpDestination delaySlot (readWord after (sectionBase + reloc.offset)) = target
  upper : usoGetRelocType reloc = R_MIPS_HI16 ∨ usoGetRelocType reloc = R_MIPS_LO16 →
    (readWord after (sectionBase + reloc.offset)).extractLsb' 16 16 =
      (readWord before (sectionBase + reloc.offset)).extractLsb' 16 16
  hi : usoGetRelocType reloc = R_MIPS_HI16 → lowHalf (readWord after (sectionBase + reloc.offset)) =
    relocatedHi before sectionBase symAddr (lowHalf (readWord before (sectionBase + reloc.offset))) later
  lo : usoGetRelocType reloc = R_MIPS_LO16 → lowHalf (readWord after (sectionBase + reloc.offset)) =
    lowHalf (readWord before (sectionBase + reloc.offset)) + lowHalf symAddr

theorem wordPatched_of_relocatedWord {before after : Memory} {sectionBase symAddr : U32} {reloc : UsoReloc}
    {later : List UsoReloc} (stored : readWord after (sectionBase + reloc.offset) =
      relocatedWord before sectionBase symAddr reloc later) :
    WordPatched before after sectionBase symAddr reloc later := by
  have jump : usoGetRelocType reloc = R_MIPS_26 → readWord after (sectionBase + reloc.offset) =
      jumpWord (readWord before (sectionBase + reloc.offset))
        (BitVec.ofNat 32 (4 * ((readWord before (sectionBase + reloc.offset)).toNat % 2 ^ 26)) + symAddr) := by
    intro type
    rw [← jumpTarget_eq, stored]
    simp only [relocatedWord, type]
    rfl
  constructor
  · intro type
    rw [stored]
    simp only [relocatedWord, type, ↓reduceIte]
  · intro type
    rw [jump type, opcode_jumpWord]
  · intro type
    rw [jump type, index_jumpWord]
  · intro type delaySlot target same region aligned
    rw [jump type, ← same]
    exact jumpDestination_jumpWord region aligned
  · rintro (type | type) <;>
    · rw [stored]
      simp only [relocatedWord, type]
      exact highHalf_withLowHalf _ _
  · intro type
    rw [stored]
    simp only [relocatedWord, type]
    exact lowHalf_withLowHalf _ _
  · intro type
    rw [stored, relocatedWord_lo type]

/-- `after` is `before` with every targeted word patched and every other byte as it was. -/
structure SimultaneousPatch (uso : LoadedUso) (before after : Memory) : Prop where
  patched : ∀ job ∈ linkOrder uso, ∀ sectionBase table, jobTable uso job = some (sectionBase, table) →
    ∀ k r symAddr, table[k]? = some r → symbolAddress uso job.2 r = .ok symAddr →
      WordPatched before after sectionBase symAddr r (table.drop (k + 1))
  frame : ∀ p, (∀ a ∈ (linkOrder uso).flatMap (jobTargets uso), inWord a p = false) → after p = before p

theorem jobTable_targetsApart {uso : LoadedUso} {job : Nat × Bool} {sectionBase : U32} {table : List UsoReloc}
    (found : jobTable uso job = some (sectionBase, table)) (apart : (jobTargets uso job).Pairwise WordsApart) :
    TargetsApart sectionBase table := by
  simp only [jobTargets, found] at apart
  exact List.pairwise_map.mp apart

/-- A patch of a call writes one of the call's target words and reads only such words. -/
theorem jobPatches_targets {uso : LoadedUso} {job : Nat × Bool} {p : Patch U32 Byte}
    (member : p ∈ jobPatches uso job) :
    (∃ a ∈ jobTargets uso job, p.writes = inWord a) ∧
    ∀ q, p.reads q → ∃ a ∈ jobTargets uso job, inWord a q := by
  unfold jobPatches at member
  cases found : jobTable uso job with
  | none => simp [found] at member
  | some entry =>
    obtain ⟨sectionBase, table⟩ := entry
    simp only [found] at member
    obtain ⟨i, r, at_i, rfl⟩ := tablePatches_mem member
    simp only [jobTargets, found, List.mem_map, exists_exists_and_eq_and]
    exact ⟨⟨r, List.mem_of_getElem? at_i, rfl⟩, fun q read => reads_target at_i read⟩

theorem jobPatches_spares {uso : LoadedUso} {order : List (Nat × Bool)}
    (apart : (order.flatMap (jobTargets uso)).Pairwise WordsApart) :
    (order.flatMap (jobPatches uso)).Pairwise Spares := by
  obtain ⟨within, between⟩ := List.pairwise_flatMap.mp apart
  refine List.pairwise_flatMap.mpr ⟨fun job member => ?_, between.imp fun {first second} separate p own q later => ?_⟩
  · unfold jobPatches
    cases found : jobTable uso job with
    | none => exact List.Pairwise.nil
    | some entry => exact tablePatches_spares (jobTable_targetsApart found (within job member))
  · obtain ⟨⟨a, target, writes⟩, -⟩ := jobPatches_targets own
    obtain ⟨⟨b, other, writes'⟩, reads⟩ := jobPatches_targets later
    refine ⟨fun x inside => ?_, fun x inside => ?_⟩
    · rw [writes] at inside
      rw [writes']
      exact separate a target b other x inside
    · rw [writes] at inside
      cases read : q.reads x with
      | false => rfl
      | true =>
        obtain ⟨c, cell, same⟩ := reads x read
        exact absurd same (by simp [separate a target c cell x inside])

/-- A call on a section there is either returns at once or goes through a table. -/
theorem applyUsoRelocs_jobTable {uso : LoadedUso} {job : Nat × Bool} (inside : job.1 < uso.sections.length)
    (memory : Memory) : applyUsoRelocs uso job.1 job.2 memory =
      match jobTable uso job with
      | none => .ok memory
      | some entry => applyRelocLoop uso job.2 entry.1 entry.2 memory := by
  unfold applyUsoRelocs jobTable
  rw [List.getElem?_eq_getElem inside]
  cases tabled : relocTable uso.sections[job.1] job.2 with
  | none => simp only [tabled]
  | some table =>
    simp only [tabled]
    by_cases absent : uso.sections[job.1].data = 0
    · simp only [absent, ↓reduceIte]
    · simp only [absent, ↓reduceIte]

theorem applyUsoRelocs_job {uso : LoadedUso} {job : Nat × Bool} (inside : job.1 < uso.sections.length)
    (applicable : ∀ sectionBase table, jobTable uso job = some (sectionBase, table) →
      ∀ r ∈ table, Applicable uso job.2 r) (memory : Memory) :
    applyUsoRelocs uso job.1 job.2 memory = .ok (run (jobPatches uso job) memory) := by
  rw [applyUsoRelocs_jobTable inside, jobPatches]
  cases tabled : jobTable uso job with
  | none => rfl
  | some entry => exact applyRelocLoop_ok (applicable _ _ tabled) _ memory

theorem applyTables_ok {uso : LoadedUso} {order : List (Nat × Bool)}
    (inside : ∀ job ∈ order, job.1 < uso.sections.length)
    (applicable : ∀ job ∈ order, ∀ sectionBase table, jobTable uso job = some (sectionBase, table) →
      ∀ r ∈ table, Applicable uso job.2 r) (memory : Memory) :
    applyTables uso order memory = .ok (run (order.flatMap (jobPatches uso)) memory) := by
  induction order generalizing memory with
  | nil => rfl
  | cons job rest ih =>
    rw [applyTables, applyUsoRelocs_job (inside job List.mem_cons_self) (applicable job List.mem_cons_self),
      List.flatMap_cons, run_append]
    exact ih (fun other member => inside other (List.mem_cons_of_mem _ member))
      (fun other member => applicable other (List.mem_cons_of_mem _ member)) _

/-- Calls that return have applied every entry. -/
theorem applyTables_applicable {uso : LoadedUso} {order : List (Nat × Bool)}
    (inside : ∀ job ∈ order, job.1 < uso.sections.length) {memory after : Memory}
    (returns : applyTables uso order memory = .ok after) :
    ∀ job ∈ order, ∀ sectionBase table, jobTable uso job = some (sectionBase, table) →
      ∀ r ∈ table, Applicable uso job.2 r := by
  induction order generalizing memory with
  | nil => exact fun job member => absurd member List.not_mem_nil
  | cons job rest ih =>
    rw [applyTables, applyUsoRelocs_jobTable (inside job List.mem_cons_self)] at returns
    have others : ∀ other ∈ rest, other.1 < uso.sections.length :=
      fun other member => inside other (List.mem_cons_of_mem _ member)
    cases tabled : jobTable uso job with
    | none =>
      simp only [tabled] at returns
      refine List.forall_mem_cons.mpr ⟨fun sectionBase table some => ?_, ih others returns⟩
      rw [tabled] at some
      cases some
    | some entry =>
      simp only [tabled] at returns
      cases applied : applyRelocLoop uso job.2 entry.1 entry.2 memory with
      | error fault => simp [applied] at returns
      | ok next =>
        simp only [applied] at returns
        refine List.forall_mem_cons.mpr ⟨fun sectionBase table some => ?_, ih others returns⟩
        rw [tabled, Option.some.injEq] at some
        exact fun r member => applyRelocLoop_error applied r (some ▸ member)

theorem mem_linkOrder {uso : LoadedUso} {job : Nat × Bool} :
    job ∈ linkOrder uso ↔ 1 ≤ job.1 ∧ job.1 < uso.sections.length := by
  obtain ⟨i, internal⟩ := job
  simp only [linkOrder, List.mem_flatMap, List.mem_range'_1, List.mem_cons, List.not_mem_nil, or_false, Prod.mk.injEq]
  constructor
  · rintro ⟨k, bounds, (⟨rfl, -⟩ | ⟨rfl, -⟩)⟩ <;> omega
  · intro bounds
    refine ⟨i, by omega, ?_⟩
    cases internal <;> simp

/-- Linking succeeds, is one simultaneous patch of the image, and does not depend on the order in
which the sections and their two tables are taken. -/
theorem linkUso_simultaneous {uso : LoadedUso} (linkable : Linkable uso) (before : Memory) :
    ∃ after, linkUso uso before = .ok after ∧ SimultaneousPatch uso before after ∧
      ∀ order, order.Perm (linkOrder uso) → applyTables uso order before = .ok after := by
  have ordered : ∀ order, order.Perm (linkOrder uso) →
      applyTables uso order before = .ok (run (order.flatMap (jobPatches uso)) before) ∧
        (order.flatMap (jobPatches uso)).Pairwise Spares := by
    intro order perm
    refine ⟨applyTables_ok (fun job member => (mem_linkOrder.mp (perm.mem_iff.mp member)).2)
      (fun job member => linkable.applicable job (perm.mem_iff.mp member)) before, jobPatches_spares ?_⟩
    exact (perm.flatMap_right (jobTargets uso)).symm.pairwise linkable.apart fun apart => apart.symm
  obtain ⟨links, spares⟩ := ordered (linkOrder uso) (List.Perm.refl _)
  refine ⟨_, links, ⟨?_, ?_⟩, ?_⟩
  · intro job member sectionBase table found k r symAddr at_k resolves
    apply wordPatched_of_relocatedWord
    apply readWord_of_wordByte
    intro p inside
    have own : symAddrD uso job.2 r = symAddr := by simp only [symAddrD, resolves]
    have patch : relocPatch sectionBase symAddr r (table.drop (k + 1)) ∈ (linkOrder uso).flatMap (jobPatches uso) := by
      refine List.mem_flatMap.mpr ⟨job, member, ?_⟩
      simp only [jobPatches, found, ← own]
      exact mem_tablePatches at_k
    exact run_inside spares before patch inside
  · intro p outside
    apply run_outside
    intro patch member
    obtain ⟨job, listed, own⟩ := List.mem_flatMap.mp member
    obtain ⟨⟨a, target, writes⟩, -⟩ := jobPatches_targets own
    rw [writes]
    exact outside a (List.mem_flatMap.mpr ⟨job, listed, target⟩)
  · intro order perm
    obtain ⟨applied, spares'⟩ := ordered order perm
    rw [applied]
    congr 1
    exact run_perm (fun p => (perm.flatMap_right (jobPatches uso)).mem_iff) spares' spares before

theorem pairUso_linkable : Linkable pairUso where
  applicable := by
    intro job member sectionBase table found
    have jobs : linkOrder pairUso = [(1, true), (1, false)] := rfl
    rw [jobs] at member
    rcases List.mem_cons.mp member with rfl | member
    · have same : some (0x80001000, pairTable) = some (sectionBase, table) := found
      obtain ⟨rfl, rfl⟩ := Prod.mk.inj (Option.some.inj same)
      exact pairTable_applicable
    · rw [List.mem_singleton.mp member] at found
      exact absurd found (by simp [jobTable, pairUso, relocTable])
  apart := by
    have targets : (linkOrder pairUso).flatMap (jobTargets pairUso) = [0x80001000, 0x80001004] := rfl
    rw [targets]
    refine List.Pairwise.cons ?_ (List.pairwise_singleton ..)
    intro a member
    rw [List.mem_singleton.mp member]
    exact wordsApart_of_le (by decide) (by decide)

theorem linkUso_simultaneous_pairUso :
    ∃ after, linkUso pairUso edgeMemory = .ok after ∧ SimultaneousPatch pairUso edgeMemory after ∧
      ∀ order, order.Perm (linkOrder pairUso) → applyTables pairUso order edgeMemory = .ok after :=
  linkUso_simultaneous pairUso_linkable edgeMemory

end DragonUso.Linking
