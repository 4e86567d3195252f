import Mathlib.Algebra.Group.Nat.Defs
import Mathlib.Data.List.Basic

/-! Big-endian byte order: words as byte lists, and the host-endian store that a
byte swap turns into the same list on either kind of host. -/

namespace ByteOrder

abbrev Byte := BitVec 8

/-- The four bytes of a word, most significant first. -/
def be32 (x : BitVec 32) : List Byte :=
  [x.extractLsb' 24 8, x.extractLsb' 16 8, x.extractLsb' 8 8, x.extractLsb' 0 8]

def be16 (x : BitVec 16) : List Byte := [x.extractLsb' 8 8, x.extractLsb' 0 8]

def join32 (a b c d : Byte) : BitVec 32 := a ++ b ++ c ++ d

def join16 (a b : Byte) : BitVec 16 := a ++ b

/-- The word whose bytes start the list; missing bytes read as zero. -/
def fromBe32 (bytes : List Byte) : BitVec 32 :=
  join32 (bytes.getD 0 0) (bytes.getD 1 0) (bytes.getD 2 0) (bytes.getD 3 0)

def fromBe16 (bytes : List Byte) : BitVec 16 := join16 (bytes.getD 0 0) (bytes.getD 1 0)

@[simp] theorem be32_length (x : BitVec 32) : (be32 x).length = 4 := rfl

@[simp] theorem be16_length (x : BitVec 16) : (be16 x).length = 2 := rfl

theorem join32_extract (x : BitVec 32) :
    join32 (x.extractLsb' 24 8) (x.extractLsb' 16 8) (x.extractLsb' 8 8) (x.extractLsb' 0 8) = x := by
  unfold join32
  apply BitVec.eq_of_getLsbD_eq
  intro i bound
  simp only [BitVec.getLsbD_append, BitVec.getLsbD_extractLsb']
  repeat' split
  all_goals (rw [decide_eq_true (by omega), Bool.true_and]; congr 1; omega)

theorem join16_extract (x : BitVec 16) : join16 (x.extractLsb' 8 8) (x.extractLsb' 0 8) = x := by
  unfold join16
  apply BitVec.eq_of_getLsbD_eq
  intro i bound
  simp only [BitVec.getLsbD_append, BitVec.getLsbD_extractLsb']
  repeat' split
  all_goals (rw [decide_eq_true (by omega), Bool.true_and]; congr 1; omega)

@[simp] theorem fromBe32_be32 (x : BitVec 32) : fromBe32 (be32 x) = x := join32_extract x

@[simp] theorem fromBe16_be16 (x : BitVec 16) : fromBe16 (be16 x) = x := join16_extract x

/-- The bytes of an object in memory: a little-endian host stores the low byte first. -/
def hostBytes32 (little : Bool) (x : BitVec 32) : List Byte :=
  if little then (be32 x).reverse else be32 x

def hostBytes16 (little : Bool) (x : BitVec 16) : List Byte :=
  if little then (be16 x).reverse else be16 x

end ByteOrder
