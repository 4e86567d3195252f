import DragonUso.HiLoSplit
import DragonUso.SectionPlacement

/-! What linking means for the ELF. The relocation rules of the processor's ABI give every word of
a section a value that depends on the section's contents and on the addresses of the symbols. Tool
and loader together put these values into memory. -/

namespace DragonUso.ElfLinking
open ByteOrder SparseFile PatchSet WordMemory Format ElfFile ToolCollect ToolWriter LoaderImage WriterLayout FileLayout
open RoundTrip NoloadLayout Relocation HiLoPair Linking SymbolSearch Loader LoaderSteps CollectedTables ProducedFile
open OpenBinding RelocSafety RelocBinding HiLoSplit SectionPlacement

/-! ### The rules -/

/-- The low half of a HI16's addend is in the next LO16. -/
def partnerLo (later : List ElfRelocation) : Option ElfRelocation := later.find? fun r => r.type == R_MIPS_LO16

/-- The high half that stands for `value` beside its own sign-extended low half. -/
def highPart (value : U32) : U16 := (value - (lowHalf value).signExtend 32).extractLsb' 16 16

/-- The word the ABI puts in the place of a relocation. Addends are in the section's bytes. -/
def abiWord (bytes : Bytes) (address : Nat → U32) (r : ElfRelocation) (later : List ElfRelocation) : U32 :=
  let word := readU32 bytes r.offset.toNat
  let symbol := address r.symbol
  if r.type = R_MIPS_32 then word + symbol
  else if r.type = R_MIPS_26 then
    word.extractLsb' 26 6 ++ (BitVec.ofNat 32 (4 * (word.toNat % 2 ^ 26)) + symbol).extractLsb' 2 26
  else if r.type = R_MIPS_HI16 then
    match partnerLo later with
    | some lo =>
      word.extractLsb' 16 16 ++
        highPart (hiLoValue (lowHalf word) (lowHalf (readU32 bytes lo.offset.toNat)) + symbol)
    | none => word
  else word.extractLsb' 16 16 ++ (lowHalf word + lowHalf symbol)

/-- A section at `base` holds its contents with every relocation carried out. -/
structure SectionLinked (bytes : Bytes) (address : Nat → U32) (relocations : List ElfRelocation) (base : U32)
    (memory : Memory) : Prop where
  words : ∀ before r later, relocations = before ++ r :: later →
    readWord memory (base + r.offset) = abiWord bytes address r later
  others : ∀ ofs, ofs < bytes.length →
    (∀ r ∈ relocations, ofs < r.offset.toNat ∨ r.offset.toNat + 4 ≤ ofs) →
    memory (base + BitVec.ofNat 32 ofs) = byteAt bytes ofs

/-! ### Halves of words -/

theorem append_halves (word : U32) : word.extractLsb' 16 16 ++ lowHalf word = word := by
  apply BitVec.eq_of_getLsbD_eq
  intro i bound
  rw [BitVec.getLsbD_append, lowHalf, BitVec.getLsbD_setWidth, BitVec.getLsbD_extractLsb']
  by_cases low : i < 16
  · simp [low]
  · simp [low, show i - 16 < 16 by omega, show 16 + (i - 16) = i by omega]

theorem append_fields (word : U32) : word.extractLsb' 26 6 ++ word.extractLsb' 0 26 = word := by
  apply BitVec.eq_of_getLsbD_eq
  intro i bound
  rw [BitVec.getLsbD_append, BitVec.getLsbD_extractLsb', BitVec.getLsbD_extractLsb']
  by_cases low : i < 26
  · simp [low]
  · simp [low, show i - 26 < 6 by omega, show 26 + (i - 26) = i by omega]

theorem withLowHalf_eq (word : U32) (low : U16) : withLowHalf word low = word.extractLsb' 16 16 ++ low := by
  rw [← append_halves (withLowHalf word low), highHalf_withLowHalf, lowHalf_withLowHalf]

theorem jumpWord_eq (word target : U32) : jumpWord word target = word.extractLsb' 26 6 ++ target.extractLsb' 2 26 := by
  rw [← append_fields (jumpWord word target), opcode_jumpWord, index_jumpWord]

/-- The loader's carry is the sign extension of the low half. -/
theorem carriedHi_eq (value : U32) : carriedHi value = highPart value := by
  have msb : (lowHalf value).msb = decide (32768 ≤ (lowHalf value).toNat) := by rw [BitVec.msb_eq_decide]
  have low := (lowHalf value).isLt
  have bound := value.isLt
  apply BitVec.eq_of_toNat_eq
  rw [carriedHi_toNat, highPart, BitVec.extractLsb'_toNat, BitVec.toNat_sub, BitVec.toNat_signExtend,
    BitVec.toNat_setWidth, msb, Nat.shiftRight_eq_div_pow, lowHalf_toNat]
  rw [lowHalf_toNat] at low
  by_cases negative : 32768 ≤ value.toNat % 65536
  · simp only [decide_eq_true_eq, if_pos negative, if_neg (Nat.not_lt.mpr negative)]
    omega
  · simp only [decide_eq_true_eq, if_neg negative, if_pos (Nat.not_le.mp negative)]
    omega

/-! ### One entry -/

section
variable {memory : Memory} {bytes : Bytes} {base : U32} {address : Nat → U32} {r : ElfRelocation} {e : UsoReloc}
  {later : List ElfRelocation} {laterEntries : List UsoReloc}

/-- Contents that are in memory are read as words. -/
theorem readWord_contents {ofs : U32} (inside : ofs.toNat + 4 ≤ bytes.length)
    (held : ∀ i, i < bytes.length → memory (base + BitVec.ofNat 32 i) = byteAt bytes i) :
    readWord memory (base + ofs) = readU32 bytes ofs.toNat := by
  have cell : ∀ k, k < 4 → memory (base + ofs + BitVec.ofNat 32 k) = byteAt bytes (ofs.toNat + k) := by
    intro k small
    rw [← held _ (by omega), BitVec.add_assoc, BitVec.ofNat_add, BitVec.ofNat_toNat, BitVec.setWidth_eq]
  have first := cell 0 (by decide)
  rw [BitVec.add_zero] at first
  unfold readWord readU32
  rw [first]
  rw [show memory (base + ofs + 1) = _ from cell 1 (by decide), show memory (base + ofs + 2) = _ from cell 2 (by decide),
    show memory (base + ofs + 3) = _ from cell 3 (by decide)]
  rfl

/-- The word the loader stores for an entry is the one the ABI asks for. -/
theorem relocatedWord_eq (type : usoGetRelocType e = r.type) (offset : e.offset = r.offset) (supported : IsSupported r.type)
    (own : readWord memory (base + r.offset) = readU32 bytes r.offset.toNat)
    (partner : r.type = R_MIPS_HI16 → ∃ lo loEntry, partnerLo later = some lo ∧
      searchLo16 laterEntries = some loEntry ∧ loEntry.offset = lo.offset ∧
      readWord memory (base + lo.offset) = readU32 bytes lo.offset.toNat ∧
      lowHalf (readU32 bytes lo.offset.toNat) ≠ 0x8000) :
    relocatedWord memory base (address r.symbol) e laterEntries = abiWord bytes address r later := by
  unfold relocatedWord abiWord
  simp only [type, offset, own]
  rcases supported with word | jump | high | low
  · simp only [word, ↓reduceIte]
  · have other : ¬ R_MIPS_26 = R_MIPS_32 := by decide
    simp only [jump, if_neg other, ↓reduceIte]
    rw [jumpTarget_eq, jumpWord_eq]
  · have other : ¬ R_MIPS_HI16 = R_MIPS_32 := by decide
    have other' : ¬ R_MIPS_HI16 = R_MIPS_26 := by decide
    obtain ⟨lo, loEntry, found, found', same, loWord, edge⟩ := partner high
    have exactly : ∀ value : U32, value + 0 = value := BitVec.add_zero
    simp only [high, if_neg other, if_neg other', ↓reduceIte, relocatedHi, found, found', same, loWord]
    rw [withLowHalf_eq, carriedHi_eq, hiLoAddress_eq, (missedSign_eq_zero _).mpr edge, exactly]
  · have other : ¬ R_MIPS_LO16 = R_MIPS_32 := by decide
    have other' : ¬ R_MIPS_LO16 = R_MIPS_26 := by decide
    have other'' : ¬ R_MIPS_LO16 = R_MIPS_HI16 := by decide
    simp only [low, if_neg other, if_neg other', if_neg other'']
    rw [withLowHalf_eq]

end

/-! ### The ELF in memory -/

/-- The address a section of the ELF is loaded at; what is not loaded is relative to zero. -/
def sectionAddress (tool : Elf2uso) (uso : LoadedUso) (index : Nat) : U32 :=
  match uso.sections[(sectionOf tool.outSectionMap index).toNat]? with
  | some sec => sec.data
  | none => 0

def importAddress (uso : LoadedUso) (name : Bytes) : U32 :=
  match (entries uso.importSyms).find? fun e => e.name == name with
  | some e => e.ptr
  | none => 0

/-- The run-time address of the ELF's symbol with this number. -/
def elfSymbolAddress (elf : Elf) (tool : Elf2uso) (uso : LoadedUso) (number : Nat) : U32 :=
  match elf.symbols[number]? with
  | none => 0
  | some symbol =>
    if symbol.shndx.toNat = SHN_UNDEF then importAddress uso symbol.name
    else sectionAddress tool uso symbol.shndx.toNat + symbol.value

/-- A section of the ELF that the loader keeps in memory. -/
structure Kept (elf : Elf) (index : Nat) (s : ElfSection) : Prop where
  real : index ≠ SHN_UNDEF
  at_index : elf.sections[index]? = some s
  allocated : isAllocated s = true

/-- Every section with contents holds them relocated. -/
def ContentsLinked (elf : Elf) (tool : Elf2uso) (uso : LoadedUso) (memory : Memory) : Prop :=
  ∀ index s bytes, Kept elf index s → s.type ≠ SHT_NOBITS → s.data = some bytes →
    SectionLinked bytes (elfSymbolAddress elf tool uso) (elfRelocs elf s) (sectionAddress tool uso index) memory

/-- Every section without contents is zero. -/
def Cleared (elf : Elf) (tool : Elf2uso) (uso : LoadedUso) (memory : Memory) : Prop :=
  ∀ index s, Kept elf index s → s.type = SHT_NOBITS → ∀ ofs, ofs < s.size.toNat →
    memory (sectionAddress tool uso index + BitVec.ofNat 32 ofs) = 0

/-- The words of two relocations of a section do not overlap. -/
def OffsetsApart (a b : ElfRelocation) : Prop :=
  a.offset.toNat + 4 ≤ b.offset.toNat ∨ b.offset.toNat + 4 ≤ a.offset.toNat

instance : Std.Symm OffsetsApart := ⟨fun _ _ => Or.symm⟩

/-- Relocations as the ABI has them: of the four types, of symbols that have an address, each with a
word of the section to itself, and every HI16 followed by its LO16. The loader takes the most
negative low half for a positive one, so no HI16 is paired with it. -/
structure AbiRelocs (elf : Elf) (s : ElfSection) : Prop where
  supported : ∀ r ∈ elfRelocs elf s, IsSupported r.type
  meaningful : ∀ r ∈ elfRelocs elf s, ∀ symbol, elf.symbols[r.symbol]? = some symbol → Meaningful elf symbol
  inside : ∀ r ∈ elfRelocs elf s, r.offset.toNat + 4 ≤ s.size.toNat
  apart : (elfRelocs elf s).Pairwise OffsetsApart
  paired : Paired (elfRelocs elf s)
  signed : ∀ before hi rest lo bytes, elfRelocs elf s = before ++ hi :: rest → hi.type = R_MIPS_HI16 →
    partnerLo rest = some lo → s.data = some bytes → lowHalf (readU32 bytes lo.offset.toNat) ≠ 0x8000

def AbiElf (elf : Elf) : Prop := ∀ index s, Kept elf index s → AbiRelocs elf s

section
variable {sort : SymSort} {elf : Elf} {tool : Elf2uso} {srcElfName : Bytes}

/-- Section 0 is at NULL. -/
theorem sectionAddress_zero (tool : Elf2uso) (file : Bytes) (search : Bytes → U32) (block : U32) {index : Nat}
    (none : sectionOf tool.outSectionMap index = 0) : sectionAddress tool (loadedFile file search block) index = 0 := by
  have zero : (0 : U16).toNat = 0 := rfl
  rw [sectionAddress, none, zero]
  simp only [loadedFile, fixedUso, loadedSections, fixedSections, List.getElem?_map]
  cases storedSections (usoImage file) with
  | nil => rfl
  | cons dummy rest => rfl

/-- Imports of one name have one address. -/
theorem importAddress_eq {file : Bytes} {search : Bytes → U32} {block : U32} {imports : List UsoSymbol} {entry : UsoSymbol}
    (table : (loadedFile file search block).importSyms = some imports) (member : entry ∈ imports) :
    importAddress (loadedFile file search block) entry.name = search entry.name := by
  have bound : ∀ e ∈ imports, e.ptr = search e.name := by
    intro e inTable
    have own : e ∈ entries (fixupImports (usoImage file) search).1 := by
      have same : (fixupImports (usoImage file) search).1 = some imports := table
      rw [same]
      exact inTable
    rw [entries_fixupImports] at own
    obtain ⟨s, -, rfl⟩ := List.mem_map.mp own
    rfl
  rw [importAddress, table]
  cases found : (entries (some imports)).find? fun e => e.name == entry.name with
  | none =>
    have missed := List.find?_eq_none.mp found entry member
    simp at missed
  | some e =>
    have same : e.name = entry.name := by simpa using List.find?_some found
    simp only [bound e (List.mem_of_find?_eq_some found), same]

/-- The address an entry is applied with, as a function of the loaded USO. -/
theorem symbolAt_eq (produced : Produced sort elf tool srcElfName) {search : Bytes → U32} {block : U32}
    {symbol : ElfSymbol} {number : Nat} {a : U32} (named : elf.symbols[number]? = some symbol)
    (at_a : SymbolAt elf tool (usoWrite tool srcElfName) search (loadedFile (usoWrite tool srcElfName) search block) block
      symbol a) : elfSymbolAddress elf tool (loadedFile (usoWrite tool srcElfName) search block) number = a := by
  simp only [elfSymbolAddress, named]
  cases at_a with
  | allocated s sec real at_index allocated at_sec =>
    obtain ⟨k, place, found, -⟩ := at_sec.numbered
    rw [if_neg real, sectionAddress, sectionOf, place]
    simp only [Option.getD_some, found]
  | absolute absolute =>
    have defined : ¬ SHN_ABS = SHN_UNDEF := by decide
    rw [absolute, if_neg defined, sectionAddress_zero _ _ _ _ (sectionOf_absolute produced.accepted)]
    exact BitVec.zero_add _
  | imported imports entry undefined table member name ptr =>
    rw [if_pos undefined, ← name, importAddress_eq table member, ptr, name]

/-! ### The words that are patched -/

/-- The section a call of `apply_uso_relocs` works on, with the ELF section it was. -/
structure JobSection (elf : Elf) (tool : Elf2uso) (uso : LoadedUso) (job : Nat × Bool) (index : Nat) (s : ElfSection)
    (sec : LoadedSection) : Prop where
  kept : Kept elf index s
  place : tool.outSectionMap index = some (BitVec.ofNat 16 job.1)
  out : tool.outSections[job.1]? = some (outSection elf tool s)
  found : uso.sections[job.1]? = some sec
  table : relocTable sec job.2 = present ((elfRelocs elf s).filterMap (tableEntry elf tool job.2))

theorem job_section (produced : Produced sort elf tool srcElfName) {block : U32}
    (fits : block.toNat + (usoImage (usoWrite tool srcElfName)).length ≤ 2 ^ 32) (search : Bytes → U32)
    {job : Nat × Bool} (listed : job ∈ linkOrder (loadedFile (usoWrite tool srcElfName) search block)) :
    ∃ index s sec, JobSection elf tool (loadedFile (usoWrite tool srcElfName) search block) job index s sec := by
  obtain ⟨first, inside⟩ := mem_linkOrder.mp listed
  rw [length_loadedFile produced] at inside
  obtain ⟨index, s, real, at_index, allocated, same, place⟩ :=
    produced.accepted.source_of_getElem? (by omega) (List.getElem?_eq_getElem inside)
  have out := (List.getElem?_eq_getElem inside).trans (congrArg some same)
  obtain ⟨sec, found, table⟩ := relocTable_loaded produced fits search out job.2
  exact ⟨index, s, sec, ⟨real, at_index, allocated⟩, place, out, found, table⟩

/-- Only sections with contents have relocations. -/
theorem elfRelocs_contents {s : ElfSection} {r : ElfRelocation} (member : r ∈ elfRelocs elf s) : s.type ≠ SHT_NOBITS := by
  intro noload
  rw [elfRelocs, if_pos (.inl noload)] at member
  exact absurd member List.not_mem_nil

theorem outSection_contents (elf : Elf) (tool : Elf2uso) {s : ElfSection} (kept : s.type ≠ SHT_NOBITS) :
    (outSection elf tool s).data = s.data ∧ (outSection elf tool s).size = s.size := by
  unfold outSection sectionData
  rw [if_neg kept]
  exact ⟨rfl, rfl⟩

theorem outSection_cleared (elf : Elf) (tool : Elf2uso) {s : ElfSection} (noload : s.type = SHT_NOBITS) :
    (outSection elf tool s).data = none ∧ (outSection elf tool s).size = s.size := by
  unfold outSection sectionData
  rw [if_pos noload]
  exact ⟨rfl, rfl⟩

theorem Kept.present {index : Nat} {s : ElfSection} (kept : Kept elf index s) (contents : s.type ≠ SHT_NOBITS) :
    (outSection elf tool s).data.isSome := by
  rw [(outSection_contents elf tool contents).1]
  exact s.data_present (by simpa [isAllocated] using kept.allocated) contents

/-- Words in a block, told apart by their distances from its start. -/
theorem wordsApart_of_distance (block : U32) {a b : U32} (order : (a - block).toNat + 4 ≤ (b - block).toNat)
    (top : (b - block).toNat + 4 ≤ 2 ^ 32) : WordsApart a b := by
  have four : (4 : U32).toNat = 4 := rfl
  apply wordsApart_of_le
  · rw [BitVec.le_def, four]
    bv_omega
  · rw [BitVec.le_def, four]
    bv_omega

theorem inWord_distance (block : U32) {a p : U32} (top : (a - block).toNat + 4 ≤ 2 ^ 32) (inside : inWord a p) :
    (a - block).toNat ≤ (p - block).toNat ∧ (p - block).toNat < (a - block).toNat + 4 := by
  simp only [inWord, decide_eq_true_eq] at inside
  constructor <;> bv_omega

theorem distance_add {block a ofs : U32} (fits : (a - block).toNat + ofs.toNat < 2 ^ 32) :
    (a + ofs - block).toNat = (a - block).toNat + ofs.toNat := by
  have moved : a + ofs - block = a - block + ofs := by bv_omega
  rw [moved, toNat_add_small fits]

section
variable {search : Bytes → U32} {block : U32} {job : Nat × Bool} {index : Nat} {s : ElfSection} {sec : LoadedSection}

/-- A section with contents lies in the image, past its start. -/
theorem JobSection.inside (produced : Produced sort elf tool srcElfName)
    (at_job : JobSection elf tool (loadedFile (usoWrite tool srcElfName) search block) job index s sec)
    (real : job.1 ≠ 0) (contents : s.type ≠ SHT_NOBITS) (some : 0 < s.size.toNat) :
    0 < (sec.data - block).toNat ∧ (sec.data - block).toNat + s.size.toNat ≤ (usoImage (usoWrite tool srcElfName)).length := by
  have zero : (0 : U32).toNat = 0 := rfl
  obtain ⟨k, place⟩ := Nat.exists_eq_succ_of_ne_zero real
  have out := at_job.out
  have found := at_job.found
  rw [place] at out found
  obtain ⟨-, size⟩ := outSection_contents elf tool contents
  have nonzero : (outSection elf tool s).size ≠ 0 := by
    intro none
    rw [← size, none] at some
    omega
  have within := data_inside produced.writable out (at_job.kept.present contents) found nonzero
  obtain ⟨r, sec', -, found', -, same⟩ := section_data produced.writable block
    (getUsoNoloadStart (readLoadInfo (usoWrite tool srcElfName)) block) out (at_job.kept.present contents)
  obtain rfl : sec = sec' := Option.some.inj (found.symm.trans found')
  rw [same, size] at within
  exact within

theorem JobSection.jobTable {uso : LoadedUso} (at_job : JobSection elf tool uso job index s sec) {sectionBase : U32}
    {table : List UsoReloc} (tabled : Linking.jobTable uso job = some (sectionBase, table)) :
    sectionBase = sec.data ∧ table = (elfRelocs elf s).filterMap (tableEntry elf tool job.2) := by
  simp only [Linking.jobTable, at_job.found, at_job.table, RoundTrip.present] at tabled
  by_cases none : (elfRelocs elf s).filterMap (tableEntry elf tool job.2) = []
  · simp [none] at tabled
  · simp only [if_neg none] at tabled
    by_cases null : sec.data = 0
    · simp [null] at tabled
    · rw [if_neg null, Option.some.injEq, Prod.mk.injEq] at tabled
      exact ⟨tabled.1.symm, tabled.2.symm⟩

/-- The words a call patches, in order: one for every relocation its table takes. -/
theorem JobSection.jobTargets {uso : LoadedUso} (at_job : JobSection elf tool uso job index s sec) :
    Linking.jobTargets uso job = [] ∨ Linking.jobTargets uso job =
      (elfRelocs elf s).filterMap fun r => (tableEntry elf tool job.2 r).map fun _ => sec.data + r.offset := by
  unfold Linking.jobTargets
  cases tabled : Linking.jobTable uso job with
  | none => exact .inl rfl
  | some entry =>
    right
    obtain ⟨sectionBase, table⟩ := entry
    obtain ⟨rfl, rfl⟩ := at_job.jobTable tabled
    simp only [List.map_filterMap]
    apply List.filterMap_congr
    intro r member
    cases entry : tableEntry elf tool job.2 r with
    | none => rfl
    | some e => simp only [Option.map_some, tableEntry_offset entry]

theorem JobSection.mem_jobTargets {uso : LoadedUso} (at_job : JobSection elf tool uso job index s sec) {a : U32}
    (target : a ∈ Linking.jobTargets uso job) :
    ∃ r ∈ elfRelocs elf s, (tableEntry elf tool job.2 r).isSome ∧ a = sec.data + r.offset := by
  rcases at_job.jobTargets with none | targets
  · rw [none] at target
    exact absurd target List.not_mem_nil
  · rw [targets] at target
    obtain ⟨r, member, entry⟩ := List.mem_filterMap.mp target
    obtain ⟨e, found, rfl⟩ := Option.map_eq_some_iff.mp entry
    exact ⟨r, member, by rw [found]; rfl, rfl⟩

/-- Of two sections with contents the earlier one ends before the other begins. -/
theorem JobSection.before (produced : Produced sort elf tool srcElfName)
    (fits : block.toNat + (usoImage (usoWrite tool srcElfName)).length ≤ 2 ^ 32)
    (at_job : JobSection elf tool (loadedFile (usoWrite tool srcElfName) search block) job index s sec)
    {other : Nat × Bool} {index' : Nat} {t : ElfSection} {sec' : LoadedSection}
    (at_other : JobSection elf tool (loadedFile (usoWrite tool srcElfName) search block) other index' t sec')
    (real : job.1 ≠ 0) (order : job.1 < other.1) (contents : s.type ≠ SHT_NOBITS) (contents' : t.type ≠ SHT_NOBITS) :
    (sec.data - block).toNat + s.size.toNat ≤ (sec'.data - block).toNat := by
  obtain ⟨j, place⟩ := Nat.exists_eq_succ_of_ne_zero real
  obtain ⟨k, place'⟩ := Nat.exists_eq_succ_of_ne_zero (show other.1 ≠ 0 by omega)
  obtain ⟨same, found, loaded⟩ := loadedAs_outSection produced fits search at_job.out
  obtain rfl : sec = same := Option.some.inj (at_job.found.symm.trans found)
  have out := at_job.out
  have out' := at_other.out
  have found' := at_other.found
  rw [place] at out found
  rw [place'] at out' found'
  rw [← (outSection_contents elf tool contents).2, ← loaded.size]
  exact data_apart produced.writable (by omega) out out' (at_job.kept.present contents) (at_other.kept.present contents')
    found found'

variable (produced : Produced sort elf tool srcElfName)
  (at_job : JobSection elf tool (loadedFile (usoWrite tool srcElfName) search block) job index s sec) (real : job.1 ≠ 0)
  (abi : AbiRelocs elf s)
include produced at_job real abi

/-- The word of a relocation, by its distance from the block. -/
theorem JobSection.target {r : ElfRelocation} (member : r ∈ elfRelocs elf s) :
    (sec.data + r.offset - block).toNat = (sec.data - block).toNat + r.offset.toNat ∧
      (sec.data - block).toNat + s.size.toNat ≤ (usoImage (usoWrite tool srcElfName)).length := by
  have small := usoImage_lt produced.writable
  have own := abi.inside r member
  have within := (at_job.inside produced real (elfRelocs_contents member) (by omega)).2
  exact ⟨distance_add (by omega), within⟩

theorem JobSection.words_apart {r q : ElfRelocation} (member : r ∈ elfRelocs elf s) (member' : q ∈ elfRelocs elf s)
    (order : OffsetsApart r q) : WordsApart (sec.data + r.offset) (sec.data + q.offset) := by
  have small := usoImage_lt produced.writable
  have inside := abi.inside r member
  have inside' := abi.inside q member'
  obtain ⟨place, within⟩ := at_job.target produced real abi member
  obtain ⟨place', -⟩ := at_job.target produced real abi member'
  rcases order with before | after
  · exact wordsApart_of_distance block (by omega) (by omega)
  · exact (wordsApart_of_distance block (by omega) (by omega)).symm

/-- The words of one table do not overlap. -/
theorem JobSection.targets_apart :
    (Linking.jobTargets (loadedFile (usoWrite tool srcElfName) search block) job).Pairwise WordsApart := by
  rcases at_job.jobTargets with none | targets
  · rw [none]
    exact List.Pairwise.nil
  · rw [targets, List.pairwise_filterMap]
    refine abi.apart.imp_of_mem fun {r q} member member' order a at_a b at_b => ?_
    obtain ⟨-, -, rfl⟩ := Option.map_eq_some_iff.mp at_a
    obtain ⟨-, -, rfl⟩ := Option.map_eq_some_iff.mp at_b
    exact at_job.words_apart produced real abi member member' order

end

theorem linkOrder_nodup (uso : LoadedUso) : (linkOrder uso).Nodup := by
  unfold linkOrder
  refine List.nodup_flatMap.mpr ⟨fun i _ => by simp, ?_⟩
  refine (List.nodup_range' 1).imp ?_
  intro i j different job first second
  simp only [List.mem_cons, List.not_mem_nil, or_false] at first second
  rcases first with rfl | rfl <;> rcases second with same | same <;> exact different (Prod.mk.inj same).1

/-- A relocation has its entry in one table only. -/
theorem tableEntry_once {r : ElfRelocation} (named : r.symbol < elf.symbols.length) {first second : Bool}
    (here : (tableEntry elf tool first r).isSome) (there : (tableEntry elf tool second r).isSome) : first = second := by
  obtain ⟨internal, -, elsewhere⟩ := exists_table tool named
  have only : ∀ other, (tableEntry elf tool other r).isSome → other = internal := by
    intro other some
    apply Decidable.byContradiction
    intro different
    rw [Bool.eq_not.mpr different, elsewhere] at some
    cases some
  rw [only first here, only second there]

section
variable {search : Bytes → U32} {block : U32}
  (produced : Produced sort elf tool srcElfName) (abi : AbiElf elf)
include produced abi

/-- Words of different sections do not overlap. -/
theorem sections_apart (fits : block.toNat + (usoImage (usoWrite tool srcElfName)).length ≤ 2 ^ 32)
    {first second : Nat × Bool} {index index' : Nat} {s t : ElfSection} {sec sec' : LoadedSection}
    (at_first : JobSection elf tool (loadedFile (usoWrite tool srcElfName) search block) first index s sec)
    (at_second : JobSection elf tool (loadedFile (usoWrite tool srcElfName) search block) second index' t sec')
    (real : first.1 ≠ 0) (order : first.1 < second.1) {r q : ElfRelocation} (member : r ∈ elfRelocs elf s)
    (member' : q ∈ elfRelocs elf t) : WordsApart (sec.data + r.offset) (sec'.data + q.offset) := by
  have small := usoImage_lt produced.writable
  have own := abi index s at_first.kept
  have own' := abi index' t at_second.kept
  have inside := own.inside r member
  have inside' := own'.inside q member'
  obtain ⟨place, -⟩ := at_first.target produced real own member
  obtain ⟨place', within⟩ := at_second.target produced (by omega) own' member'
  have before := at_first.before produced fits at_second real order (elfRelocs_contents member) (elfRelocs_contents member')
  exact wordsApart_of_distance block (by omega) (by omega)

/-- No two of the words the linker patches overlap. -/
theorem allTargets_apart (fits : block.toNat + (usoImage (usoWrite tool srcElfName)).length ≤ 2 ^ 32) :
    ((linkOrder (loadedFile (usoWrite tool srcElfName) search block)).flatMap
      (jobTargets (loadedFile (usoWrite tool srcElfName) search block))).Pairwise WordsApart := by
  refine List.pairwise_flatMap.mpr ⟨fun job listed => ?_, (linkOrder_nodup _).pairwise_of_forall_ne ?_⟩
  · obtain ⟨index, s, sec, at_job⟩ := job_section produced fits search listed
    have real := (mem_linkOrder.mp listed).1
    exact at_job.targets_apart produced (by omega) (abi index s at_job.kept)
  · intro first listed second listed' different a target b target'
    obtain ⟨index, s, sec, at_first⟩ := job_section produced fits search listed
    obtain ⟨index', t, sec', at_second⟩ := job_section produced fits search listed'
    have real := (mem_linkOrder.mp listed).1
    have real' := (mem_linkOrder.mp listed').1
    obtain ⟨r, member, entry, rfl⟩ := at_first.mem_jobTargets target
    obtain ⟨q, member', entry', rfl⟩ := at_second.mem_jobTargets target'
    rcases Nat.lt_trichotomy first.1 second.1 with before | same | after
    · exact sections_apart produced abi fits at_first at_second (by omega) before member member'
    · -- one section: the two calls are for its two tables
      obtain rfl : index = index' := produced.accepted.outSectionMap_injective at_first.kept.real at_second.kept.real
        at_first.place (same ▸ at_second.place)
      obtain rfl : s = t := Option.some.inj (at_first.kept.at_index.symm.trans at_second.kept.at_index)
      obtain rfl : sec = sec' := Option.some.inj (at_first.found.symm.trans (same ▸ at_second.found))
      have distinct : r ≠ q := by
        rintro rfl
        exact different (Prod.ext same (tableEntry_once (elfRelocs_named member) entry entry'))
      have own := abi index s at_first.kept
      exact at_first.words_apart produced (by omega) own member member' (own.apart.forall member member' distinct)
    · exact (sections_apart produced abi fits at_second at_first (by omega) after member' member).symm

end

/-! ### Linking -/

/-- Such relocations are ones the loader can apply. -/
theorem relocsSupported_of_abi (abi : AbiElf elf) : RelocsSupported elf := by
  intro s inTail allocated r member
  obtain ⟨i, at_i⟩ := List.mem_iff_getElem?.mp inTail
  rw [List.getElem?_tail] at at_i
  have own := abi (i + 1) s ⟨Nat.succ_ne_zero i, at_i, allocated⟩
  refine ⟨own.supported r member, fun undefined => ?_⟩
  have named := List.getElem?_eq_getElem (elfRelocs_named member)
  simp only [namesUndefined, named, beq_iff_eq] at undefined
  cases own.meaningful r member _ named with
  | allocated t real => exact absurd undefined real
  | absolute absolute =>
    have different : ¬ SHN_ABS = SHN_UNDEF := by decide
    exact absurd (absolute.symm.trans undefined) different
  | imported imported => exact ⟨_, List.mem_of_getElem? named, imported⟩

/-- Linking runs the patches of all tables. -/
theorem linkUso_patches (produced : Produced sort elf tool srcElfName) (abi : AbiElf elf) (search : Bytes → U32) {block : U32}
    (fits : block.toNat + (usoImage (usoWrite tool srcElfName)).length ≤ 2 ^ 32) (memory : Memory) :
    linkUso (loadedFile (usoWrite tool srcElfName) search block) memory =
      .ok (PatchSet.run ((linkOrder (loadedFile (usoWrite tool srcElfName) search block)).flatMap
        (jobPatches (loadedFile (usoWrite tool srcElfName) search block))) memory) := by
  have supported := relocsSupported_of_abi abi
  refine applyTables_ok (fun job listed => (mem_linkOrder.mp listed).2) ?_ memory
  intro job listed sectionBase table tabled e inTable
  obtain ⟨info, at_k⟩ := collected_of_loaded produced (mem_linkOrder.mp listed).2
  obtain ⟨sec, found, -, rfl⟩ := jobTable_some tabled
  obtain ⟨source, own, type, resolves⟩ :=
    (tablesApply_of_supported produced supported fits at_k found).resolves job.2 e inTable
  have known := (relocsSupported_iff elf).mp supported info (List.mem_of_getElem? at_k) source own
  exact ⟨type ▸ known.1, resolves⟩

/-- The memory of a block before it is linked. -/
structure HoldsImage (memory : Memory) (block : U32) (image : Bytes) : Prop where
  image : ∀ p, (p - block).toNat < image.length → memory p = byteAt image (p - block).toNat

/-- An entry is applied with the address of its symbol. -/
theorem symAddrD_eq (produced : Produced sort elf tool srcElfName) {s : ElfSection} (abi : AbiRelocs elf s)
    (search : Bytes → U32) {block : U32} (fits : block.toNat + (usoImage (usoWrite tool srcElfName)).length ≤ 2 ^ 32)
    {internal : Bool} {r : ElfRelocation} {e : UsoReloc} (member : r ∈ elfRelocs elf s)
    (entry : tableEntry elf tool internal r = some e) :
    usoGetRelocType e = r.type ∧ symAddrD (loadedFile (usoWrite tool srcElfName) search block) internal e =
      elfSymbolAddress elf tool (loadedFile (usoWrite tool srcElfName) search block) r.symbol := by
  have supported := abi.supported r member
  have meaningful := abi.meaningful r member
  have bound : EntryBound elf tool (usoWrite tool srcElfName) internal r e := by
    cases internal with
    | true => exact definedEntry_bound produced entry supported meaningful
    | false => exact undefinedEntry_bound produced entry supported meaningful
  obtain ⟨symbol, named, address⟩ := bound.symbol
  obtain ⟨a, resolved, at_a⟩ := address search block fits
  rw [symbolAt_eq produced named at_a, symAddrD, resolved]
  exact ⟨bound.type, rfl⟩

/-- A section that is kept is one the linker goes through, once for each table. -/
theorem kept_section (produced : Produced sort elf tool srcElfName) (search : Bytes → U32) {block : U32}
    (fits : block.toNat + (usoImage (usoWrite tool srcElfName)).length ≤ 2 ^ 32) {index : Nat} {s : ElfSection}
    (kept : Kept elf index s) :
    ∃ k sec, k ≠ 0 ∧ sectionAddress tool (loadedFile (usoWrite tool srcElfName) search block) index = sec.data ∧
      ∀ internal, (k, internal) ∈ linkOrder (loadedFile (usoWrite tool srcElfName) search block) ∧
        JobSection elf tool (loadedFile (usoWrite tool srcElfName) search block) (k, internal) index s sec := by
  obtain ⟨k, place, nonzero, out⟩ := produced.accepted.mapped kept.real kept.at_index kept.allocated
  obtain ⟨sec, found, -⟩ := loadedAs_outSection produced fits search out
  have inside := (List.getElem?_eq_some_iff.mp found).1
  have real : k.toNat ≠ 0 := fun zero => nonzero (BitVec.eq_of_toNat_eq zero)
  refine ⟨k.toNat, sec, real, ?_, fun internal => ⟨mem_linkOrder.mpr ⟨Nat.pos_of_ne_zero real, inside⟩, ?_⟩⟩
  · rw [sectionAddress, sectionOf, place]
    simp only [Option.getD_some, found]
  · obtain ⟨sec', found', table⟩ := relocTable_loaded produced fits search out internal
    obtain rfl : sec = sec' := Option.some.inj (found.symm.trans found')
    exact ⟨kept, by rw [place, BitVec.ofNat_toNat, BitVec.setWidth_eq], out, found, table⟩

section
variable {search : Bytes → U32} {block : U32} {job : Nat × Bool} {index : Nat} {s : ElfSection} {sec : LoadedSection}
  (produced : Produced sort elf tool srcElfName)
  (fits : block.toNat + (usoImage (usoWrite tool srcElfName)).length ≤ 2 ^ 32)
  (at_job : JobSection elf tool (loadedFile (usoWrite tool srcElfName) search block) job index s sec) (real : job.1 ≠ 0)
include produced fits at_job real

/-- The contents of a section are at its address. -/
theorem JobSection.held {memory : Memory} (holds : HoldsImage memory block (usoImage (usoWrite tool srcElfName)))
    (contents : s.type ≠ SHT_NOBITS) {bytes : Bytes} (data : s.data = some bytes) {i : Nat} (inside : i < bytes.length) :
    memory (sec.data + BitVec.ofNat 32 i) = byteAt bytes i := by
  have small := usoImage_lt produced.writable
  have size := s.data_length bytes data
  have within := (at_job.inside produced real contents (by omega)).2
  obtain ⟨sec', found, loaded⟩ := loadedAs_outSection produced fits search at_job.out
  obtain rfl : sec = sec' := Option.some.inj (at_job.found.symm.trans found)
  obtain ⟨ofs, place, -, -, read⟩ := loaded.data real bytes ((outSection_contents elf tool contents).1.trans data)
  have start : sec.data - block = ofs := by rw [place, BitVec.add_comm, BitVec.add_sub_cancel]
  have value : (BitVec.ofNat 32 i).toNat = i := toNat_ofNat_small (by omega)
  have distance : (sec.data + BitVec.ofNat 32 i - block).toNat = ofs.toNat + i := by
    rw [distance_add (by omega), start, value]
  rw [holds.image _ (by rw [distance, ← start]; omega), distance, ← byteAt_readAt _ _ inside, read]

theorem JobSection.placed (contents : s.type ≠ SHT_NOBITS) (some : 0 < s.size.toNat) : sec.data ≠ 0 := by
  obtain ⟨positive, within⟩ := at_job.inside produced real contents some
  intro null
  rw [null] at positive within
  bv_omega

/-- The word of a relocation once everything is linked, in terms of the memory before. -/
theorem JobSection.word (abi : AbiElf elf) (listed : job ∈ linkOrder (loadedFile (usoWrite tool srcElfName) search block))
    {before later : List ElfRelocation} {r : ElfRelocation} {e : UsoReloc} (split : elfRelocs elf s = before ++ r :: later)
    (entry : tableEntry elf tool job.2 r = some e) (memory : Memory) :
    readWord (PatchSet.run ((linkOrder (loadedFile (usoWrite tool srcElfName) search block)).flatMap
        (jobPatches (loadedFile (usoWrite tool srcElfName) search block))) memory) (sec.data + r.offset) =
      relocatedWord memory sec.data (symAddrD (loadedFile (usoWrite tool srcElfName) search block) job.2 e) e
        (later.filterMap (tableEntry elf tool job.2)) := by
  have member : r ∈ elfRelocs elf s := by rw [split]; simp
  have inside := (abi index s at_job.kept).inside r member
  have placed := at_job.placed produced fits real (elfRelocs_contents member) (by omega)
  have table : (relocTable sec job.2).getD [] = (elfRelocs elf s).filterMap (tableEntry elf tool job.2) := by
    rw [at_job.table, getD_present]
  have cut : (elfRelocs elf s).filterMap (tableEntry elf tool job.2) =
      before.filterMap (tableEntry elf tool job.2) ++ e :: later.filterMap (tableEntry elf tool job.2) := by
    rw [split, List.filterMap_append, List.filterMap_cons_some entry]
  have listed_e : e ∈ (relocTable sec job.2).getD [] := by
    rw [table, cut]
    simp
  have tabled := jobTable_of_mem at_job.found placed listed_e
  rw [table, cut] at tabled
  have at_e : (before.filterMap (tableEntry elf tool job.2) ++ e :: later.filterMap (tableEntry elf tool job.2))[
      (before.filterMap (tableEntry elf tool job.2)).length]? = some e := by simp
  have patch : _ ∈ tablePatches (loadedFile (usoWrite tool srcElfName) search block) job.2 sec.data _ := mem_tablePatches at_e
  have rest : (before.filterMap (tableEntry elf tool job.2) ++ e :: later.filterMap (tableEntry elf tool job.2)).drop
      ((before.filterMap (tableEntry elf tool job.2)).length + 1) = later.filterMap (tableEntry elf tool job.2) := by
    simp [List.drop_append]
  rw [rest] at patch
  rw [← tableEntry_offset entry]
  have inAll : relocPatch sec.data (symAddrD (loadedFile (usoWrite tool srcElfName) search block) job.2 e) e
      (later.filterMap (tableEntry elf tool job.2)) ∈
        (linkOrder (loadedFile (usoWrite tool srcElfName) search block)).flatMap
          (jobPatches (loadedFile (usoWrite tool srcElfName) search block)) := by
    refine List.mem_flatMap.mpr ⟨job, listed, ?_⟩
    simp only [jobPatches, tabled]
    exact patch
  apply readWord_of_wordByte
  intro p own
  exact run_inside (jobPatches_spares (allTargets_apart produced abi fits)) memory inAll own

end

theorem partnerLo_next {hi lo : ElfRelocation} {rest between after : List ElfRelocation}
    (next : NextLo hi rest between lo after) : partnerLo rest = some lo := by
  have skipped : ∀ r ∈ between, ¬ (r.type == R_MIPS_LO16) = true := by simpa using next.first
  have stops : (lo.type == R_MIPS_LO16) = true := by simpa using next.type
  rw [partnerLo, next.split, List.find?_append, List.find?_eq_none.mpr skipped, Option.none_or,
    List.find?_cons_of_pos (p := fun r : ElfRelocation => r.type == R_MIPS_LO16) stops]

/-- A word of a relocation lies in the image, past the start of the block. -/
theorem target_inImage (produced : Produced sort elf tool srcElfName) (abi : AbiElf elf) {search : Bytes → U32} {block : U32}
    {job : Nat × Bool} (listed : job ∈ linkOrder (loadedFile (usoWrite tool srcElfName) search block))
    {index : Nat} {s : ElfSection} {sec : LoadedSection}
    (at_job : JobSection elf tool (loadedFile (usoWrite tool srcElfName) search block) job index s sec)
    {r : ElfRelocation} (member : r ∈ elfRelocs elf s) {p : U32} (inside : inWord (sec.data + r.offset) p) :
    (sec.data - block).toNat + r.offset.toNat ≤ (p - block).toNat ∧
      (p - block).toNat < (sec.data - block).toNat + r.offset.toNat + 4 ∧
      (p - block).toNat < (usoImage (usoWrite tool srcElfName)).length := by
  have small := usoImage_lt produced.writable
  have real := (mem_linkOrder.mp listed).1
  have own := (abi index s at_job.kept).inside r member
  obtain ⟨place, within⟩ := at_job.target produced (by omega) (abi index s at_job.kept) member
  have bounds := inWord_distance block (by omega) inside
  rw [place] at bounds
  omega

section
variable (produced : Produced sort elf tool srcElfName) (search : Bytes → U32) {block : U32}
  (fits : block.toNat + (usoImage (usoWrite tool srcElfName)).length ≤ 2 ^ 32)
include produced fits

/-- Outside the words of relocations linking changes nothing. -/
theorem linked_outside {memory : Memory} {p : U32}
    (outside : ∀ job ∈ linkOrder (loadedFile (usoWrite tool srcElfName) search block), ∀ index s sec,
      JobSection elf tool (loadedFile (usoWrite tool srcElfName) search block) job index s sec →
      ∀ r ∈ elfRelocs elf s, inWord (sec.data + r.offset) p = false) :
    PatchSet.run ((linkOrder (loadedFile (usoWrite tool srcElfName) search block)).flatMap
      (jobPatches (loadedFile (usoWrite tool srcElfName) search block))) memory p = memory p := by
  apply run_outside
  intro patch member
  obtain ⟨job, listed, own⟩ := List.mem_flatMap.mp member
  obtain ⟨⟨a, target, writes⟩, -⟩ := jobPatches_targets own
  obtain ⟨index, s, sec, at_job⟩ := job_section produced fits search listed
  obtain ⟨r, inRelocs, -, rfl⟩ := at_job.mem_jobTargets target
  rw [writes]
  exact outside job listed index s sec at_job r inRelocs

variable (abi : AbiElf elf)
include abi

/-- A section with contents is linked by the rules. -/
theorem section_linked {memory : Memory} (holds : HoldsImage memory block (usoImage (usoWrite tool srcElfName))) :
    ContentsLinked elf tool (loadedFile (usoWrite tool srcElfName) search block)
      (PatchSet.run ((linkOrder (loadedFile (usoWrite tool srcElfName) search block)).flatMap
        (jobPatches (loadedFile (usoWrite tool srcElfName) search block))) memory) := by
  intro index s bytes kept contents data
  obtain ⟨k, sec, real, address, jobs⟩ := kept_section produced search fits kept
  have own := abi index s kept
  have size := s.data_length bytes data
  have held : ∀ i, i < bytes.length → memory (sec.data + BitVec.ofNat 32 i) = byteAt bytes i := fun i inside =>
    (jobs true).2.held produced fits real holds contents data inside
  rw [address]
  constructor
  · intro before r later split
    have member : r ∈ elfRelocs elf s := by rw [split]; simp
    have word : readWord memory (sec.data + r.offset) = readU32 bytes r.offset.toNat :=
      readWord_contents (by have room := own.inside r member; omega) held
    obtain ⟨internal, e, entry, partner⟩ : ∃ internal e, tableEntry elf tool internal r = some e ∧
        (r.type = R_MIPS_HI16 → ∃ lo loEntry, partnerLo later = some lo ∧
          searchLo16 (later.filterMap (tableEntry elf tool internal)) = some loEntry ∧ loEntry.offset = lo.offset ∧
          readWord memory (sec.data + lo.offset) = readU32 bytes lo.offset.toNat ∧
          lowHalf (readU32 bytes lo.offset.toNat) ≠ 0x8000) := by
      by_cases high : r.type = R_MIPS_HI16
      · obtain ⟨between, lo, after, next⟩ := own.paired before r later split high
        obtain ⟨internal, partner⟩ := partnerFound_split tool own.supported split next (elfRelocs_named member)
        obtain ⟨hiEntry, loEntry, rest, at_hi, at_lo, -, same, found, -⟩ := partner.found
        have follows : later.filterMap (tableEntry elf tool internal) = rest := by
          rw [same, next.split, List.filterMap_append, List.filterMap_cons_some at_lo]
        have inRelocs : lo ∈ elfRelocs elf s := by rw [split, next.split]; simp
        refine ⟨internal, hiEntry, at_hi, fun _ => ⟨lo, loEntry, (partnerLo_next next), follows ▸ found, tableEntry_offset at_lo,
          readWord_contents (by have room := own.inside lo inRelocs; omega) held, ?_⟩⟩
        exact own.signed before r later lo bytes split high (partnerLo_next next) data
      · obtain ⟨internal, inside, -⟩ := exists_table tool (elfRelocs_named member)
        obtain ⟨e, entry⟩ := Option.isSome_iff_exists.mp inside
        exact ⟨internal, e, entry, fun type => absurd type high⟩
    obtain ⟨listed, at_job⟩ := jobs internal
    obtain ⟨type, address⟩ := symAddrD_eq produced own search fits member entry
    rw [at_job.word produced fits real abi listed split entry, address]
    exact relocatedWord_eq type (tableEntry_offset entry) (own.supported r member) word partner
  · intro ofs inside clear
    rw [linked_outside produced search fits, held ofs inside]
    intro job listed index' t sec' at_job r member
    have first := (mem_linkOrder.mp listed).1
    have small := usoImage_lt produced.writable
    have room := (abi index' t at_job.kept).inside r member
    have within := ((jobs true).2.inside produced real contents (by omega)).2
    have value : (BitVec.ofNat 32 ofs).toNat = ofs := toNat_ofNat_small (by omega)
    have place : (sec.data + BitVec.ofNat 32 ofs - block).toNat = (sec.data - block).toNat + ofs := by
      rw [distance_add (by omega), value]
    apply Bool.eq_false_iff.mpr
    intro covered
    obtain ⟨low, high, -⟩ := target_inImage produced abi listed at_job member covered
    rcases Nat.lt_trichotomy job.1 k with earlier | same | later
    · have before := at_job.before produced fits (jobs true).2 (by omega) earlier (elfRelocs_contents member) contents
      omega
    · obtain rfl : index = index' := produced.accepted.outSectionMap_injective kept.real at_job.kept.real
        (jobs true).2.place (same ▸ at_job.place)
      obtain rfl : s = t := Option.some.inj (kept.at_index.symm.trans at_job.kept.at_index)
      obtain rfl : sec = sec' := Option.some.inj ((jobs true).2.found.symm.trans (same ▸ at_job.found))
      have away := clear r member
      omega
    · have before := (jobs true).2.before produced fits at_job real later contents (elfRelocs_contents member)
      omega

end

theorem BlockGiven.fits (produced : Produced sort elf tool srcElfName) {block : U32}
    (given : BlockGiven (usoWrite tool srcElfName) block) :
    block.toNat + (usoImage (usoWrite tool srcElfName)).length ≤ 2 ^ 32 := by
  have room := produced.loadable.room
  have ends := given.ends
  omega

theorem holdsImage_loadBlock (memory : Memory) (block ramSize : U32) (image : Bytes) :
    HoldsImage (loadBlock memory block ramSize image) block image := ⟨fun _ inside => if_pos inside⟩

/-- A section without contents stays as the block was cleared. -/
theorem section_cleared (produced : Produced sort elf tool srcElfName) (abi : AbiElf elf) (search : Bytes → U32)
    {block : U32} (given : BlockGiven (usoWrite tool srcElfName) block) (unpadded : NoPadding tool.outSections)
    (memory : Memory) :
    Cleared elf tool (loadedFile (usoWrite tool srcElfName) search block)
      (PatchSet.run ((linkOrder (loadedFile (usoWrite tool srcElfName) search block)).flatMap
        (jobPatches (loadedFile (usoWrite tool srcElfName) search block)))
          (loadBlock memory block (getUsoRamSize (readLoadInfo (usoWrite tool srcElfName)))
            (usoImage (usoWrite tool srcElfName)))) := by
  intro index s kept noload ofs inside
  have fits := BlockGiven.fits produced given
  have ends := given.ends
  obtain ⟨k, sec, real, address, jobs⟩ := kept_section produced search fits kept
  obtain ⟨j, rfl⟩ := Nat.exists_eq_succ_of_ne_zero real
  have at_job := (jobs true).2
  obtain ⟨absent, size⟩ := outSection_cleared elf tool noload
  obtain ⟨above, below⟩ := noload_inside produced unpadded given at_job.out absent at_job.found
  obtain ⟨sec', found, loaded⟩ := loadedAs_outSection produced fits search at_job.out
  obtain rfl : sec = sec' := Option.some.inj (at_job.found.symm.trans found)
  rw [loaded.size, size] at below
  have small : ofs < 2 ^ 32 := Nat.lt_trans inside s.size.isLt
  have value : (BitVec.ofNat 32 ofs).toNat = ofs := toNat_ofNat_small small
  have place : (sec.data + BitVec.ofNat 32 ofs - block).toNat = sec.data.toNat + ofs - block.toNat := by
    bv_omega
  rw [address, linked_outside produced search fits]
  · rw [loadBlock, if_neg (by omega), if_pos (by rw [BitVec.lt_def]; omega)]
  · intro job listed index' t sec' at_target r member
    apply Bool.eq_false_iff.mpr
    intro covered
    obtain ⟨-, -, image⟩ := target_inImage produced abi listed at_target member covered
    omega

/-- Wherever the file is loaded and whatever its imports resolve to, tool and loader together carry
out the relocations of the ELF by the rules of the ABI. -/
theorem linkUso_elf (produced : Produced sort elf tool srcElfName) (abi : AbiElf elf) (search : Bytes → U32) {block : U32}
    (given : BlockGiven (usoWrite tool srcElfName) block) (memory : Memory) :
    ∃ after, linkUso (loadedFile (usoWrite tool srcElfName) search block)
        (loadBlock memory block (getUsoRamSize (readLoadInfo (usoWrite tool srcElfName)))
          (usoImage (usoWrite tool srcElfName))) = .ok after ∧
      ContentsLinked elf tool (loadedFile (usoWrite tool srcElfName) search block) after ∧
      (NoPadding tool.outSections → Cleared elf tool (loadedFile (usoWrite tool srcElfName) search block) after) := by
  have fits := BlockGiven.fits produced given
  exact ⟨_, linkUso_patches produced abi search fits _,
    section_linked produced search fits abi (holdsImage_loadBlock _ _ _ _),
    fun unpadded => section_cleared produced abi search given unpadded memory⟩

end

/-! A sample that takes the address of the import `f` with a pair of instructions. -/

def addressRelocs : List ElfRelocation := [⟨0, 0x105⟩, ⟨4, 0x106⟩]

def addressElf : Elf :=
  relocatedElf [nullSymbol, importedF, exportedG] addressRelocs programElf.symbols_le (by decide)

def addressTool : Elf2uso := sampleTool addressElf [importSymbol 1 importedF] [exportSymbol 2 exportedG 1]

theorem addressElf_produced : Produced nameSort addressElf addressTool [97] :=
  sampleTool_produced (by decide +kernel) (by decide +kernel) (by decide) (by decide +kernel) (by decide +kernel)

theorem kept_addressElf {index : Nat} {s : ElfSection} (kept : Kept addressElf index s) : s = codeSection := by
  obtain ⟨real, at_index, allocated⟩ := kept
  have listed : [nullSection, codeSection, symtabSection [nullSymbol, importedF, exportedG],
    relSection addressRelocs][index]? = some s := at_index
  match index, listed with
  | 0, _ => exact absurd rfl real
  | 1, found => exact (Option.some.inj found).symm
  | 2, found =>
    rw [← Option.some.inj found] at allocated
    exact absurd allocated (by decide)
  | 3, found =>
    rw [← Option.some.inj found] at allocated
    exact absurd allocated (by decide)

theorem addressElf_abi : AbiElf addressElf := by
  intro index s kept
  obtain rfl := kept_addressElf kept
  have own : elfRelocs addressElf codeSection = addressRelocs := by decide
  refine ⟨?_, ?_, ?_, ?_, ?_, ?_⟩ <;> rw [own]
  · decide
  · intro r member symbol named
    have same : ∀ q ∈ addressRelocs, q.symbol = 1 := by decide
    have same := same r member
    rw [same] at named
    obtain rfl : importedF = symbol := Option.some.inj named
    exact .imported (by decide)
  · decide
  · exact List.Pairwise.cons (by intro q member; rw [List.mem_singleton.mp member]; left; decide) (List.pairwise_singleton ..)
  · intro before hi rest split high
    rcases before with _ | ⟨first, _ | ⟨second, before⟩⟩
    · obtain ⟨rfl, rfl⟩ := List.cons.inj split
      exact ⟨[], ⟨4, 0x106⟩, [], rfl, by simp, by decide, by decide⟩
    · obtain ⟨-, tail⟩ := List.cons.inj split
      obtain ⟨rfl, -⟩ := List.cons.inj tail
      exact absurd high (by decide)
    · have size := congrArg List.length split
      simp [addressRelocs] at size
  · intro before hi rest lo bytes split high found data
    have inside : lo ∈ addressRelocs := by
      rw [split]
      exact List.mem_append_right _ (List.mem_cons_of_mem _ (List.mem_of_find?_eq_some found))
    have positive : ∀ q ∈ addressRelocs, lowHalf (readU32 [0, 0, 0, 0, 0, 0, 0, 0] q.offset.toNat) ≠ 0x8000 := by decide
    obtain rfl : [0, 0, 0, 0, 0, 0, 0, 0] = bytes := Option.some.inj data
    exact positive lo inside

theorem linkUso_addressElf :
    ∃ after, linkUso (loadedFile (usoWrite addressTool [97]) (fun _ => 0x80001234) 0x80200000)
        (loadBlock (fun _ => 0xFF) 0x80200000 (getUsoRamSize (readLoadInfo (usoWrite addressTool [97])))
          (usoImage (usoWrite addressTool [97]))) = .ok after ∧
      ContentsLinked addressElf addressTool (loadedFile (usoWrite addressTool [97]) (fun _ => 0x80001234) 0x80200000) after ∧
      (NoPadding addressTool.outSections →
        Cleared addressElf addressTool (loadedFile (usoWrite addressTool [97]) (fun _ => 0x80001234) 0x80200000) after) :=
  linkUso_elf addressElf_produced addressElf_abi _ ⟨by decide +kernel, by decide +kernel⟩ _

end DragonUso.ElfLinking
