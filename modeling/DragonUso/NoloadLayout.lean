import DragonUso.Library.Packing
import DragonUso.RoundTrip

/-! NOLOAD sections in memory. The tool sums their sizes, the loader walks them with a pointer it
rounds up before each one; the two agree on the block's size when no rounding moves the pointer. -/

namespace DragonUso.NoloadLayout
open SparseFile WordAlign Packing Format ToolCollect ToolWriter WriterLayout LoaderImage FileLayout RoundTrip ElfFile

/-- The NOLOAD sections after the fixups: those past the dummy that have no data in the file. -/
def noloadSections (stored fixed : List UsoSection) : List UsoSection :=
  ((stored.zip fixed).drop 1).filterMap fun s => if s.1.data = 0 then some s.2 else none

/-- The fixups of the NOLOAD sections alone. -/
def walkNoload : U32 → List UsoSection → List UsoSection
  | _, [] => []
  | noload, s :: rest =>
    { s with data := alignNoload noload s } :: walkNoload (alignNoload noload s + s.dataSize) rest

def isNoload (s : UsoSection) : Bool := s.data == 0

def sectionShape (s : UsoSection) : Shape := ⟨s.dataSize.toNat, s.dataAlign.toNat⟩

/-- Each NOLOAD section has an address range of its own, past the image and inside the block. -/
structure NoloadInBlock (info : UsoLoadInfo) (base : U32) (noload : List UsoSection) : Prop where
  disjoint : noload.Pairwise fun a b =>
    a.data.toNat + a.dataSize.toNat ≤ b.data.toNat ∨ b.data.toNat + b.dataSize.toNat ≤ a.data.toNat
  after_image : ∀ s ∈ noload, base.toNat + info.usoSize.toNat ≤ s.data.toNat
  inside_block : ∀ s ∈ noload, s.data.toNat + s.dataSize.toNat ≤ base.toNat + (getUsoRamSize info).toNat

theorem noloadSections_fixupSectionLoop (sections noload : U32) (table : List UsoSection) :
    ((table.zip (fixupSectionLoop sections noload table)).filterMap fun s =>
      if s.1.data = 0 then some s.2 else none) = walkNoload noload (table.filter isNoload) := by
  induction table generalizing noload with
  | nil => rfl
  | cons s rest ih =>
    unfold fixupSectionLoop
    by_cases loaded : s.data ≠ 0
    · have keep : isNoload s = false := by simpa [isNoload] using loaded
      rw [if_pos loaded, List.zip_cons_cons, List.filterMap_cons, List.filter_cons_of_neg (by simp [keep])]
      simp only [if_neg loaded, ih]
    · have zero : s.data = 0 := Decidable.not_not.mp loaded
      have keep : isNoload s = true := by simp [isNoload, zero]
      rw [if_neg loaded, List.zip_cons_cons, List.filterMap_cons, List.filter_cons_of_pos keep, walkNoload]
      simp only [if_pos zero, ih]

/-- The loop of `fixup_section_table` places the NOLOAD sections as if the others were not there. -/
theorem noloadSections_fixupSectionTable (sections noload : U32) (table : List UsoSection) :
    noloadSections table (fixupSectionTable sections noload table) =
      walkNoload noload (table.tail.filter isNoload) := by
  cases table with
  | nil => rfl
  | cons dummy rest => exact noloadSections_fixupSectionLoop sections noload rest

theorem alignNoload_toNat (noload : U32) {s : UsoSection} (pow : IsPow2 s.dataAlign) :
    (alignNoload noload s).toNat = alignUp noload.toNat s.dataAlign.toNat % 2 ^ 32 := by
  have zero : (0 : U32).toNat = 0 := rfl
  have positive : 0 < s.dataAlign := by
    rw [BitVec.lt_def, zero]
    exact pow.pos
  rw [alignNoload, if_pos positive]
  exact roundMask_toNat noload pow

/-- A walk that stays off address zero and below `high` never wraps, so it ends below `high`. -/
theorem stop_le_of_walkNoload {high : Nat} (limit : high < 2 ^ 32) (table : List UsoSection)
    (pow : ∀ s ∈ table, IsPow2 s.dataAlign) (noload : U32) (start : noload.toNat ≤ high)
    (inside : ∀ s ∈ walkNoload noload table, 0 < s.data.toNat ∧ s.data.toNat + s.dataSize.toNat ≤ high) :
    stop noload.toNat (table.map sectionShape) ≤ high := by
  induction table generalizing noload with
  | nil => exact start
  | cons s rest ih =>
    obtain ⟨own, later⟩ := List.forall_mem_cons.mp inside
    have value := alignNoload_toNat noload (pow s List.mem_cons_self)
    have modulus := alignUp_le_modulus noload (pow s List.mem_cons_self)
    -- the modulus itself would wrap to address zero
    have exact_ : (alignNoload noload s).toNat = alignUp noload.toNat s.dataAlign.toNat := by
      rcases Nat.lt_or_ge (alignUp noload.toNat s.dataAlign.toNat) (2 ^ 32) with small | wrapped
      · rw [value, Nat.mod_eq_of_lt small]
      · rw [Nat.le_antisymm modulus wrapped, Nat.mod_self] at value
        simp only [value] at own
        omega
    have next : (alignNoload noload s + s.dataSize).toNat =
        alignUp noload.toNat s.dataAlign.toNat + s.dataSize.toNat := by
      rw [toNat_add_small (by simp only at own; omega), exact_]
    have last := ih (fun t member => pow t (List.mem_cons_of_mem _ member)) _
      (by simp only at own; omega) later
    rw [next] at last
    exact last

/-- A walk whose end stays below `high` hands out ascending ranges. -/
theorem walkNoload_ascending {high : Nat} (limit : high < 2 ^ 32) (table : List UsoSection)
    (pow : ∀ s ∈ table, IsPow2 s.dataAlign) (noload : U32)
    (ends : stop noload.toNat (table.map sectionShape) ≤ high) :
    (∀ s ∈ walkNoload noload table,
      noload.toNat ≤ s.data.toNat ∧ s.data.toNat + s.dataSize.toNat ≤ high) ∧
    (walkNoload noload table).Pairwise fun a b => a.data.toNat + a.dataSize.toNat ≤ b.data.toNat := by
  induction table generalizing noload with
  | nil => exact ⟨fun s member => absurd member List.not_mem_nil, List.Pairwise.nil⟩
  | cons s rest ih =>
    have powRest := fun t member => pow t (List.mem_cons_of_mem s member)
    have shapes : ∀ t ∈ rest.map sectionShape, 0 < t.align := by
      intro t member
      obtain ⟨r, found, rfl⟩ := List.mem_map.mp member
      exact (powRest r found).pos
    rw [List.map_cons, stop] at ends
    have room := stop_ge shapes (alignUp noload.toNat (sectionShape s).align + (sectionShape s).size)
    have up := le_alignUp noload.toNat (pow s List.mem_cons_self).pos
    simp only [sectionShape] at ends room
    have exact_ : (alignNoload noload s).toNat = alignUp noload.toNat s.dataAlign.toNat := by
      rw [alignNoload_toNat noload (pow s List.mem_cons_self), Nat.mod_eq_of_lt (by omega)]
    have next : (alignNoload noload s + s.dataSize).toNat =
        alignUp noload.toNat s.dataAlign.toNat + s.dataSize.toNat := by
      rw [toNat_add_small (by omega), exact_]
    obtain ⟨inside, order⟩ := ih powRest (alignNoload noload s + s.dataSize) (by rw [next]; exact ends)
    refine ⟨List.forall_mem_cons.mpr ⟨?_, fun t member => ?_⟩, List.Pairwise.cons ?_ order⟩
    · simp only [exact_]
      omega
    · have bounds := inside t member
      omega
    · intro t member
      have bounds := inside t member
      simp only [exact_]
      omega

/-! ### What the tool computes -/

def hasNoData (s : SectionInfo) : Bool := s.data.isNone

/-- Sizes and alignments of the sections without data, in order. -/
def noloadShapes (outSections : List SectionInfo) : List Shape :=
  (outSections.filter hasNoData).map fun s => ⟨s.size.toNat, s.align.toNat⟩

/-- Past the dummy, every NOLOAD section's alignment divides the sum of the NOLOAD sizes before it. -/
def NoPadding (outSections : List SectionInfo) : Prop :=
  ∀ (i : Nat) (s : Shape), (noloadShapes outSections.tail)[i]? = some s →
    s.align ∣ total ((noloadShapes outSections.tail).take i)

theorem noPadding_iff (outSections : List SectionInfo) :
    NoPadding outSections ↔ PackedFrom 0 (noloadShapes outSections.tail) := by
  rw [packedFrom_iff]
  simp only [Nat.zero_add]
  exact Iff.rfl

theorem noloadShapes_cons (s : SectionInfo) (rest : List SectionInfo) :
    noloadShapes (s :: rest) =
      if hasNoData s then ⟨s.size.toNat, s.align.toNat⟩ :: noloadShapes rest else noloadShapes rest := by
  unfold noloadShapes
  by_cases noload : hasNoData s
  · rw [if_pos noload, List.filter_cons_of_pos noload, List.map_cons]
  · rw [if_neg noload, List.filter_cons_of_neg noload]

/-- The stored records of the NOLOAD sections have the shapes the tool was given. -/
theorem noloadShapes_stored {image : Bytes} {limit : Nat} {sections : U32} {outSections : List SectionInfo}
    {stored : List UsoSection} (all : List.Forall₂ (Describes image limit sections) outSections stored) :
    (stored.filter isNoload).map sectionShape = noloadShapes outSections := by
  induction all with
  | nil => rfl
  | @cons s r outSections stored describes _ ih =>
    cases found : s.data with
    | none =>
      have keep : isNoload r = true := by simp [isNoload, describes.noload found]
      rw [List.filter_cons_of_pos keep, noloadShapes_cons, if_pos (by simp [hasNoData, found]), List.map_cons,
        ih, sectionShape, describes.size, describes.align]
    | some bytes =>
      have drop : isNoload r = false := by simpa [isNoload] using (describes.loaded bytes found).1
      rw [List.filter_cons_of_neg (by simp [drop]), noloadShapes_cons, if_neg (by simp [hasNoData, found]), ih]

theorem usoGetNoloadSizeLoop_toNat (outSections : List SectionInfo) (size : U32)
    (room : size.toNat + total (noloadShapes outSections) < 2 ^ 32) :
    (usoGetNoloadSizeLoop outSections size).toNat = size.toNat + total (noloadShapes outSections) := by
  induction outSections generalizing size with
  | nil => rfl
  | cons s rest ih =>
    unfold usoGetNoloadSizeLoop
    rw [noloadShapes_cons] at room ⊢
    by_cases noload : hasNoData s
    · simp only [if_pos noload, total] at room ⊢
      have step : (size + s.size).toNat = size.toNat + s.size.toNat := toNat_add_small (by omega)
      rw [if_pos (show s.data.isNone = true from noload), ih _ (by omega), step]
      omega
    · simp only [if_neg noload] at room ⊢
      rw [if_neg (show ¬ s.data.isNone = true from noload), ih _ room]

/-- The search ends at a power of two no smaller than any alignment it counts. -/
theorem maxAlignLoop_spec (counts : SectionInfo → Bool) (outSections : List SectionInfo) (align : U32)
    (pow : IsPow2 align) (aligned : ∀ s ∈ outSections, align < s.align → IsPow2 s.align) :
    IsPow2 (maxAlignLoop counts outSections align) ∧ align ≤ maxAlignLoop counts outSections align ∧
    ∀ s ∈ outSections, counts s → s.align ≤ maxAlignLoop counts outSections align := by
  induction outSections generalizing align with
  | nil => exact ⟨pow, BitVec.le_refl _, fun s member => absurd member List.not_mem_nil⟩
  | cons s rest ih =>
    unfold maxAlignLoop
    have powRest := fun t member => aligned t (List.mem_cons_of_mem s member)
    split
    next larger =>
      obtain ⟨result, above, each⟩ := ih s.align (aligned s List.mem_cons_self larger.2)
        (fun t member wider => powRest t member (BitVec.lt_trans larger.2 wider))
      refine ⟨result, BitVec.le_trans (BitVec.le_of_lt larger.2) above, List.forall_mem_cons.mpr ⟨?_, each⟩⟩
      exact fun _ => above
    next smaller =>
      obtain ⟨result, above, each⟩ := ih align pow powRest
      refine ⟨result, above, List.forall_mem_cons.mpr ⟨?_, each⟩⟩
      intro counted
      have low : s.align ≤ align := BitVec.not_lt.mp fun larger => smaller ⟨counted, larger⟩
      exact BitVec.le_trans low above

/-- Past the dummy everything is a power of two, and the dummy's zero never wins a search. -/
theorem maxAlign_writable {tool : Elf2uso} {srcElfName : Bytes} (writable : Writable tool srcElfName)
    (counts : SectionInfo → Bool) (align : U32) (pow : IsPow2 align) :
    IsPow2 (maxAlignLoop counts tool.outSections align) ∧
    ∀ s ∈ tool.outSections, counts s → s.align ≤ maxAlignLoop counts tool.outSections align := by
  obtain ⟨result, -, each⟩ := maxAlignLoop_spec counts tool.outSections align pow (by
    intro s member larger
    have first := writable.dummy
    cases sections : tool.outSections with
    | nil => exact absurd sections writable.sections_ne_nil
    | cons head rest =>
      rw [sections] at first member
      rcases List.mem_cons.mp member with rfl | later
      · rw [Option.some.inj first] at larger
        exact absurd larger BitVec.not_lt_zero
      · exact writable.aligned s (by rw [sections]; exact later))
  exact ⟨result, each⟩

/-! ### The block -/

/-- The NOLOAD sections of a file loaded into a block at `base`. -/
def loadedNoload (file : Bytes) (base : U32) : List UsoSection :=
  noloadSections (storedSections (usoImage file))
    (fixedSections (usoImage file) base (getUsoNoloadStart (readLoadInfo file) base))

theorem getUsoRamAlign_dvd (info : UsoLoadInfo) (loaded : IsPow2 info.usoAlign) (noload : IsPow2 info.noloadAlign) :
    info.noloadAlign.toNat ∣ (getUsoRamAlign info).toNat := by
  unfold getUsoRamAlign
  split
  next smaller => exact noload.dvd_of_le loaded (Nat.le_of_lt (BitVec.lt_def.mp smaller))
  next => exact Nat.dvd_refl _

/-- Where the walk of the NOLOAD sections begins, and how much room the block leaves it. -/
theorem noloadStart_toNat {info : UsoLoadInfo} {base : U32} (pow : IsPow2 info.noloadAlign)
    (small : info.usoSize.toNat + info.noloadSize.toNat < 2 ^ 31)
    (ends : base.toNat + (getUsoRamSize info).toNat < 2 ^ 32) :
    (getUsoNoloadStart info base).toNat = base.toNat + alignUp info.usoSize.toNat info.noloadAlign.toNat ∧
    base.toNat + (getUsoRamSize info).toNat = (getUsoNoloadStart info base).toNat + info.noloadSize.toNat := by
  obtain ⟨offset, top⟩ := alignVal_toNat (x := info.usoSize) pow (by omega)
  have start : (getUsoNoloadStartOfs info).toNat = alignUp info.usoSize.toNat info.noloadAlign.toNat := offset
  have size : (getUsoRamSize info).toNat =
      alignUp info.usoSize.toNat info.noloadAlign.toNat + info.noloadSize.toNat := by
    rw [getUsoRamSize, toNat_add_small (by omega), start]
  have place : (getUsoNoloadStart info base).toNat =
      base.toNat + alignUp info.usoSize.toNat info.noloadAlign.toNat := by
    rw [getUsoNoloadStart, toNat_add_small (by omega), start]
  exact ⟨place, by omega⟩

/-- The walk stays in the block exactly when it pads nothing: the block has room for the sizes alone. -/
theorem walkNoload_inBlock_iff {info : UsoLoadInfo} {base : U32} {table : List UsoSection}
    (pow : IsPow2 info.noloadAlign) (small : info.usoSize.toNat + info.noloadSize.toNat < 2 ^ 31)
    (image : 0 < info.usoSize.toNat) (origin : info.noloadAlign.toNat ∣ base.toNat)
    (ends : base.toNat + (getUsoRamSize info).toNat < 2 ^ 32)
    (aligns : ∀ s ∈ table, IsPow2 s.dataAlign ∧ s.dataAlign ≤ info.noloadAlign)
    (size : info.noloadSize.toNat = total (table.map sectionShape)) :
    NoloadInBlock info base (walkNoload (getUsoNoloadStart info base) table) ↔
      PackedFrom 0 (table.map sectionShape) := by
  obtain ⟨start, room⟩ := noloadStart_toNat pow small ends
  have above := le_alignUp info.usoSize.toNat pow.pos
  have powTable := fun s member => (aligns s member).1
  have positive : ∀ s ∈ table.map sectionShape, 0 < s.align := by
    intro s member
    obtain ⟨r, found, rfl⟩ := List.mem_map.mp member
    exact (powTable r found).pos
  have divides : ∀ s ∈ table.map sectionShape, s.align ∣ (getUsoNoloadStart info base).toNat := by
    intro s member
    obtain ⟨r, found, rfl⟩ := List.mem_map.mp member
    have unit := (powTable r found).dvd_of_le pow (BitVec.le_def.mp (aligns r found).2)
    rw [start]
    exact Nat.dvd_trans unit (Nat.dvd_add origin (dvd_alignUp _ _))
  have packed := stop_eq_iff positive divides 0
  have grows := stop_ge positive (getUsoNoloadStart info base).toNat
  rw [Nat.add_zero, ← size, ← room] at packed
  rw [← packed]
  constructor
  · intro inBlock
    have last := stop_le_of_walkNoload ends table powTable _ (by omega) (fun s member =>
      ⟨by have low := inBlock.after_image s member; omega, inBlock.inside_block s member⟩)
    omega
  · intro tight
    obtain ⟨inside, order⟩ := walkNoload_ascending ends table powTable _ (Nat.le_of_eq tight)
    refine ⟨order.imp Or.inl, fun s member => ?_, fun s member => (inside s member).2⟩
    have low := (inside s member).1
    omega

theorem forall₂_tail {α β : Type} {R : α → β → Prop} {xs : List α} {ys : List β} (all : List.Forall₂ R xs ys) :
    List.Forall₂ R xs.tail ys.tail := by
  cases all with
  | nil => exact List.Forall₂.nil
  | cons _ later => exact later

/-- The dummy adds nothing to the sizes. -/
theorem total_noloadShapes {tool : Elf2uso} {srcElfName : Bytes} (writable : Writable tool srcElfName) :
    total (noloadShapes tool.outSections) = total (noloadShapes tool.outSections.tail) := by
  have first := writable.dummy
  cases sections : tool.outSections with
  | nil => rfl
  | cons head rest =>
    rw [sections, List.head?_cons, Option.some.injEq] at first
    have noload : hasNoData dummySection = true := rfl
    rw [first, noloadShapes_cons, if_pos noload, total, List.tail_cons]
    exact Nat.zero_add _

/-- The load info of a written file, with its sizes as numbers. -/
theorem loadInfo_usoWrite {tool : Elf2uso} {srcElfName : Bytes} (writable : Writable tool srcElfName)
    (small : (usoWrite tool srcElfName).length + total (noloadShapes tool.outSections) < 2 ^ 31) :
    (readLoadInfo (usoWrite tool srcElfName)).usoSize.toNat = (usoImage (usoWrite tool srcElfName)).length ∧
    (readLoadInfo (usoWrite tool srcElfName)).noloadSize.toNat = total (noloadShapes tool.outSections) ∧
    IsPow2 (readLoadInfo (usoWrite tool srcElfName)).noloadAlign := by
  have length := usoImage_length writable
  have zero : (0 : U32).toNat = 0 := rfl
  have sum := usoGetNoloadSizeLoop_toNat tool.outSections 0 (by omega)
  obtain ⟨pow, -⟩ := maxAlign_writable writable hasNoData 1 ⟨0, by decide, rfl⟩
  rw [readLoadInfo_usoWrite writable]
  refine ⟨toNat_ofNat_small (by omega), ?_, pow⟩
  simp only [usoGetNoloadSize, sum]
  omega

/-- The block holds the image. -/
theorem usoImage_le_ramSize {tool : Elf2uso} {srcElfName : Bytes} (writable : Writable tool srcElfName)
    (small : (usoWrite tool srcElfName).length + total (noloadShapes tool.outSections) < 2 ^ 31) :
    (usoImage (usoWrite tool srcElfName)).length ≤ (getUsoRamSize (readLoadInfo (usoWrite tool srcElfName))).toNat := by
  have length := usoImage_length writable
  obtain ⟨usoSize, noloadSize, pow⟩ := loadInfo_usoWrite writable small
  have zero : (0 : U32).toNat = 0 := rfl
  have ends : (0 : U32).toNat + (getUsoRamSize (readLoadInfo (usoWrite tool srcElfName))).toNat < 2 ^ 32 := by
    have top := (getUsoRamSize (readLoadInfo (usoWrite tool srcElfName))).isLt
    omega
  obtain ⟨start, room⟩ := noloadStart_toNat pow (by omega) ends
  have above := le_alignUp (readLoadInfo (usoWrite tool srcElfName)).usoSize.toNat pow.pos
  omega

/-- The NOLOAD sections of a loaded file lie in its block exactly when none of them is padded. -/
theorem noload_inBlock_iff {tool : Elf2uso} {srcElfName : Bytes} (writable : Writable tool srcElfName)
    (small : (usoWrite tool srcElfName).length + total (noloadShapes tool.outSections) < 2 ^ 31) {base : U32}
    (aligned : (getUsoRamAlign (readLoadInfo (usoWrite tool srcElfName))).toNat ∣ base.toNat)
    (ends : base.toNat + (getUsoRamSize (readLoadInfo (usoWrite tool srcElfName))).toNat < 2 ^ 32) :
    NoloadInBlock (readLoadInfo (usoWrite tool srcElfName)) base (loadedNoload (usoWrite tool srcElfName) base) ↔
      NoPadding tool.outSections := by
  have length := usoImage_length writable
  have body := bodyLength_le writable
  have offsets := writable.offsets
  have low := offsets.imports
  have high := offsets.imports_le
  have stored := forall₂_tail (sections_usoWrite writable)
  obtain ⟨powLoaded, -⟩ := maxAlign_writable writable (fun s => s.data.isSome) 4 pow2_four
  obtain ⟨-, each⟩ := maxAlign_writable writable hasNoData 1 ⟨0, by decide, rfl⟩
  have shapes := noloadShapes_stored stored
  have dummyShape := total_noloadShapes writable
  have readInfo := readLoadInfo_usoWrite writable
  have noloadAlign : (readLoadInfo (usoWrite tool srcElfName)).noloadAlign =
      usoGetNoloadAlign tool.outSections := by rw [readInfo]
  have usoAlign : (readLoadInfo (usoWrite tool srcElfName)).usoAlign = usoGetAlign tool.outSections := by
    rw [readInfo]
  obtain ⟨usoSize, noloadSize, pow⟩ := loadInfo_usoWrite writable small
  rw [loadedNoload, fixedSections, noloadSections_fixupSectionTable, noPadding_iff, ← shapes]
  apply walkNoload_inBlock_iff pow (by omega) (by omega) _ ends
  · intro r member
    obtain ⟨inTable, kept⟩ := List.mem_filter.mp member
    obtain ⟨i, bound, at_i⟩ := List.mem_iff_getElem.mp inTable
    obtain ⟨s, found, describes⟩ := forall₂_getElem? stored.flip (List.getElem?_eq_some_iff.mpr ⟨bound, at_i⟩)
    have own := List.mem_of_getElem? found
    have none : hasNoData s = true := by
      unfold hasNoData
      cases data : s.data with
      | none => rfl
      | some bytes =>
        have loaded := (describes.loaded bytes data).1
        simp only [isNoload, beq_iff_eq] at kept
        exact absurd kept loaded
    rw [describes.align, noloadAlign]
    exact ⟨writable.aligned s own, each s (List.mem_of_mem_tail own) none⟩
  · rw [noloadSize, shapes, dummyShape]
  · have unit := getUsoRamAlign_dvd (readLoadInfo (usoWrite tool srcElfName)) (usoAlign ▸ powLoaded) pow
    exact Nat.dvd_trans unit aligned

theorem noload_inBlock_iff_smallTool :
    NoloadInBlock (readLoadInfo (usoWrite smallTool [109])) 0x80001000
      (loadedNoload (usoWrite smallTool [109]) 0x80001000) ↔ NoPadding smallTool.outSections :=
  noload_inBlock_iff smallTool_writable (by decide +kernel) (by decide +kernel) (by decide +kernel)

/-- Two NOLOAD sections of one byte each, the second aligned to 16. -/
def bssElf : Elf where
  elfClass := ELFCLASS32
  encoding := ELFDATA2MSB
  machine := EM_MIPS
  type := ET_REL
  sections :=
    [nullSection,
      ⟨symtabName, 2, 0, 0, 4, none, [], [], nullSection.data_length, by decide⟩,
      ⟨ascii ['.', 'b'], SHT_NOBITS, SHF_ALLOC, 1, 1, none, [], [], by simp, by decide⟩,
      ⟨ascii ['.', 'c'], SHT_NOBITS, SHF_ALLOC, 1, 16, none, [], [], by simp, by decide⟩]
  sections_lt := by decide
  symbols_le := by decide
  relocations_named := by decide

def bssTool : Elf2uso where
  elf := bssElf
  outSectionMap := (sectionCollect bssElf).outSectionMap
  outSections := (sectionCollect bssElf).outSections
  importSyms := []
  exportSyms := []
  importSymMap := fun _ => none

theorem bssTool_writable : Writable bssTool [109] where
  dummy := rfl
  count := by decide
  aligned := by
    intro s member
    change s ∈ [_, _] at member
    simp only [List.mem_cons, List.not_mem_nil, or_false] at member
    rcases member with rfl | rfl
    · exact ⟨0, by decide, rfl⟩
    · exact ⟨4, by decide, rfl⟩
  imports := by unfold TableFits NameFits; decide
  exports := by unfold TableFits NameFits; decide
  size := by decide +kernel

/-- The second section is moved up fifteen bytes that the block does not have. -/
theorem bssTool_overruns :
    Writable bssTool [109] ∧
    (usoWrite bssTool [109]).length + total (noloadShapes bssTool.outSections) < 2 ^ 31 ∧
    (getUsoRamAlign (readLoadInfo (usoWrite bssTool [109]))).toNat ∣ (0x80001000 : U32).toNat ∧
    (0x80001000 : U32).toNat + (getUsoRamSize (readLoadInfo (usoWrite bssTool [109]))).toNat < 2 ^ 32 ∧
    ¬ NoloadInBlock (readLoadInfo (usoWrite bssTool [109])) 0x80001000
      (loadedNoload (usoWrite bssTool [109]) 0x80001000) := by
  refine ⟨bssTool_writable, by decide +kernel, by decide +kernel, by decide +kernel, ?_⟩
  intro inBlock
  have inside := inBlock.inside_block
  revert inside
  decide +kernel

end DragonUso.NoloadLayout
