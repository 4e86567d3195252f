import DragonUso.Library.ByteOrder

/-! The records of a USO file as the run-time library declares them in `uso_internal.h`. -/

namespace DragonUso.Format
open ByteOrder

abbrev U16 := BitVec 16
abbrev U32 := BitVec 32
abbrev Bytes := List Byte

def R_MIPS_32 : Byte := 2
def R_MIPS_26 : Byte := 4
def R_MIPS_HI16 : Byte := 5
def R_MIPS_LO16 : Byte := 6

/-- A `uso_symbol_t` with its name pointer followed. -/
structure UsoSymbol where
  name : Bytes
  ptr : U32
  sectionIndex : U16
  nameLen : U16
  deriving DecidableEq, Repr

structure UsoReloc where
  offset : U32
  info : U32
  symOffset : U32
  deriving DecidableEq, Repr

/-- Pointers in a section are offsets until the loader rebases them; zero is NULL. -/
structure UsoSection where
  data : U32
  dataSize : U32
  dataAlign : U32
  internalRelocs : U32
  externalRelocs : U32
  deriving DecidableEq, Repr

structure UsoHeader where
  numSections : U16
  ehFrameSection : U16
  sections : U32
  importSyms : U32
  exportSyms : U32
  ctorsSection : U16
  dtorsSection : U16
  deriving DecidableEq, Repr

structure UsoLoadInfo where
  usoSize : U32
  usoAlign : U32
  noloadSize : U32
  noloadAlign : U32
  deriving DecidableEq, Repr

/-- The top bit of the length field marks a weak symbol. -/
def usoIsSymbolWeak (symbol : UsoSymbol) : Bool := symbol.nameLen &&& 0x8000 != 0

def usoSymbolGetNameLength (symbol : UsoSymbol) : U16 := symbol.nameLen &&& 0x7FFF

/-- The upper six bits of `info`, returned as a `uint8_t`. -/
def usoGetRelocType (reloc : UsoReloc) : Byte := (reloc.info >>> 26).setWidth 8

def usoGetRelocTargetIndex (reloc : UsoReloc) : U32 := reloc.info &&& 0x3FFFFFF

theorem indexMask : ∀ i : Fin 32, (0x3FFFFFF : U32).getLsbD i = decide (i.val < 26) := by decide

/-- The upper six bits of a packed `info` are the lower six bits of the type. -/
theorem usoGetRelocType_packed (offset index symOffset : U32) (type : Byte) :
    usoGetRelocType ⟨offset, type.setWidth 32 <<< 26 ||| (index &&& 0x3FFFFFF), symOffset⟩ = type &&& 0x3F := by
  apply BitVec.eq_of_getLsbD_eq
  intro i bound
  have low : (0x3F : Byte).getLsbD i = decide (i < 6) := (by decide : ∀ i : Fin 8,
    (0x3F : Byte).getLsbD i = decide (i.val < 6)) ⟨i, bound⟩
  rw [usoGetRelocType, BitVec.getLsbD_setWidth, BitVec.getLsbD_ushiftRight, BitVec.getLsbD_or, BitVec.getLsbD_and,
    BitVec.getLsbD_and, low, BitVec.getLsbD_shiftLeft]
  by_cases inside : i < 6
  · have clear : (0x3FFFFFF : U32).getLsbD (26 + i) = false :=
      (indexMask ⟨26 + i, by omega⟩).trans (decide_eq_false (by simp))
    rw [clear]
    simp [inside, bound, show 26 + i < 32 by omega, show ¬ 26 + i < 26 by omega, show i < 32 by omega]
  · have clear : index.getLsbD (26 + i) = false := BitVec.getLsbD_of_ge _ _ (by omega)
    simp [clear, inside, show ¬ 26 + i < 32 by omega]

/-- The lower bits of a packed `info` are the target index, cut to 26 bits. -/
theorem usoGetRelocTargetIndex_packed (offset index symOffset : U32) (type : Byte) :
    usoGetRelocTargetIndex ⟨offset, type.setWidth 32 <<< 26 ||| (index &&& 0x3FFFFFF), symOffset⟩ =
      index &&& 0x3FFFFFF := by
  apply BitVec.eq_of_getLsbD_eq
  intro i bound
  have field : (0x3FFFFFF : U32).getLsbD i = decide (i < 26) := indexMask ⟨i, bound⟩
  rw [usoGetRelocTargetIndex, BitVec.getLsbD_and, BitVec.getLsbD_or, BitVec.getLsbD_and, field,
    BitVec.getLsbD_shiftLeft]
  by_cases inside : i < 26 <;> simp [inside]

theorem index_toNat (index : U32) : (index &&& 0x3FFFFFF).toNat = index.toNat % 2 ^ 26 := by
  have mask : (0x3FFFFFF : U32).toNat = 2 ^ 26 - 1 := rfl
  rw [BitVec.toNat_and, mask, Nat.and_two_pow_sub_one_eq_mod]

/-- The types the loader's switch has a case for. -/
def IsSupported (type : Byte) : Prop :=
  type = R_MIPS_32 ∨ type = R_MIPS_26 ∨ type = R_MIPS_HI16 ∨ type = R_MIPS_LO16

instance (type : Byte) : Decidable (IsSupported type) := by
  unfold IsSupported
  infer_instance

end DragonUso.Format
