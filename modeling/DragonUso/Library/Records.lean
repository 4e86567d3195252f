import DragonUso.Library.WordMemory

/-! Records in a byte memory. A field lies so many bytes past a pointer; two fields are told apart by
their distances from one base, as long as these do not go around the address space. -/

namespace Records
open ByteOrder WordMemory

/-- The address `ofs` bytes past a pointer. -/
def field (base : BitVec 32) (ofs : Nat) : BitVec 32 := base + BitVec.ofNat 32 ofs

@[simp] theorem field_zero (base : BitVec 32) : field base 0 = base := BitVec.add_zero base

@[simp] theorem field_field (base : BitVec 32) (first second : Nat) :
    field (field base first) second = field base (first + second) := by
  unfold field
  rw [BitVec.ofNat_add, BitVec.add_assoc]

/-- Every address is a field, at its distance. -/
@[simp] theorem field_distance (base p : BitVec 32) : field base (p - base).toNat = p := by
  rw [field, BitVec.ofNat_toNat, BitVec.setWidth_eq, BitVec.add_comm, BitVec.sub_add_cancel]

theorem distance_field (base : BitVec 32) {ofs : Nat} (small : ofs < 2 ^ 32) : (field base ofs - base).toNat = ofs := by
  rw [field, BitVec.add_comm, BitVec.add_sub_cancel, BitVec.toNat_ofNat, Nat.mod_eq_of_lt small]

theorem field_add (base : BitVec 32) (ofs : Nat) (k : BitVec 32) : field base ofs + k = field base (ofs + k.toNat) := by
  have same : BitVec.ofNat 32 k.toNat = k := by rw [BitVec.ofNat_toNat, BitVec.setWidth_eq]
  rw [← field_field]
  unfold field
  rw [same]

/-- A big-endian half word, at any address. -/
def readHalf (memory : Memory) (a : BitVec 32) : BitVec 16 := join16 (memory a) (memory (a + 1))

/-- Whether the cell `d` bytes past the base belongs to the word `ofs` bytes past it. -/
theorem inWord_field (base : BitVec 32) {ofs d : Nat} (room : ofs + 4 ≤ 2 ^ 32) (small : d < 2 ^ 32) :
    inWord (field base ofs) (field base d) = true ↔ ofs ≤ d ∧ d < ofs + 4 := by
  have distance : field base d - field base ofs = BitVec.ofNat 32 d - BitVec.ofNat 32 ofs := by
    unfold field
    bv_omega
  have four : (4 : BitVec 32).toNat = 4 := rfl
  rw [inWord, decide_eq_true_eq, distance, BitVec.lt_def, BitVec.toNat_sub, BitVec.toNat_ofNat, BitVec.toNat_ofNat,
    Nat.mod_eq_of_lt small, Nat.mod_eq_of_lt (show ofs < 2 ^ 32 by omega), four]
  omega

/-- The bytes from one distance up to another are the same in two memories. -/
def SameBytes (base : BitVec 32) (low high : Nat) (m m' : Memory) : Prop :=
  ∀ d, low ≤ d → d < high → m' (field base d) = m (field base d)

theorem SameBytes.refl (base : BitVec 32) (low high : Nat) (m : Memory) : SameBytes base low high m m :=
  fun _ _ _ => rfl

theorem SameBytes.trans {base : BitVec 32} {low high : Nat} {m m' m'' : Memory} (first : SameBytes base low high m m')
    (second : SameBytes base low high m' m'') : SameBytes base low high m m'' :=
  fun d above below => (second d above below).trans (first d above below)

theorem SameBytes.within {base : BitVec 32} {low high low' high' : Nat} {m m' : Memory} (same : SameBytes base low high m m')
    (above : low ≤ low') (below : high' ≤ high) : SameBytes base low' high' m m' :=
  fun d up down => same d (Nat.le_trans above up) (Nat.lt_of_lt_of_le down below)

theorem readWord_same {base : BitVec 32} {ofs : Nat} {m m' : Memory} (same : SameBytes base ofs (ofs + 4) m m') :
    readWord m' (field base ofs) = readWord m (field base ofs) := by
  have cell : ∀ k : BitVec 32, k.toNat < 4 → m' (field base ofs + k) = m (field base ofs + k) := by
    intro k small
    rw [field_add]
    exact same _ (Nat.le_add_right _ _) (by omega)
  have first := same ofs (Nat.le_refl _) (by omega)
  unfold readWord
  rw [first, cell 1 (by decide), cell 2 (by decide), cell 3 (by decide)]

theorem readHalf_same {base : BitVec 32} {ofs : Nat} {m m' : Memory} (same : SameBytes base ofs (ofs + 2) m m') :
    readHalf m' (field base ofs) = readHalf m (field base ofs) := by
  have one : (1 : BitVec 32).toNat = 1 := rfl
  unfold readHalf
  rw [same ofs (Nat.le_refl _) (by omega), field_add, one, same (ofs + 1) (by omega) (by omega)]

/-- What a store of a word does: the cells of the word take its bytes, all others stay. -/
structure Stored (a value : BitVec 32) (m m' : Memory) : Prop where
  word : ∀ p, inWord a p → m' p = wordByte value a p
  others : ∀ p, inWord a p = false → m' p = m p

theorem Stored.read {a value : BitVec 32} {m m' : Memory} (stored : Stored a value m m') : readWord m' a = value :=
  readWord_of_wordByte stored.word

/-- A store leaves the bytes below and above its word alone. -/
theorem Stored.same {base value : BitVec 32} {ofs low high : Nat} {m m' : Memory}
    (stored : Stored (field base ofs) value m m') (room : ofs + 4 ≤ 2 ^ 32) (top : high ≤ 2 ^ 32)
    (apart : high ≤ ofs ∨ ofs + 4 ≤ low) : SameBytes base low high m m' := by
  intro d above below
  apply stored.others
  rw [Bool.eq_false_iff, Ne, inWord_field base room (by omega)]
  omega

/-- Only bytes between two distances change. -/
structure Around (base : BitVec 32) (low high : Nat) (m m' : Memory) : Prop where
  before : SameBytes base 0 low m m'
  after : SameBytes base high (2 ^ 32) m m'

theorem Around.refl (base : BitVec 32) (low high : Nat) (m : Memory) : Around base low high m m :=
  ⟨SameBytes.refl base 0 low m, SameBytes.refl base high (2 ^ 32) m⟩

theorem Around.trans {base : BitVec 32} {low high : Nat} {m m' m'' : Memory} (first : Around base low high m m')
    (second : Around base low high m' m'') : Around base low high m m'' :=
  ⟨first.before.trans second.before, first.after.trans second.after⟩

theorem Around.mono {base : BitVec 32} {low high low' high' : Nat} {m m' : Memory} (around : Around base low high m m')
    (lower : low' ≤ low) (upper : high ≤ high') : Around base low' high' m m' :=
  ⟨around.before.within (Nat.le_refl 0) lower, around.after.within upper (Nat.le_refl _)⟩

theorem Around.stored {base value : BitVec 32} {ofs : Nat} {m m' : Memory} (stored : Stored (field base ofs) value m m')
    (room : ofs + 4 ≤ 2 ^ 32) : Around base ofs (ofs + 4) m m' :=
  ⟨stored.same room (by omega) (by omega), stored.same room (Nat.le_refl _) (by omega)⟩

/-- What lies on one side of the change is the same. -/
theorem Around.same {base : BitVec 32} {low high first last : Nat} {m m' : Memory} (around : Around base low high m m')
    (top : last ≤ 2 ^ 32) (apart : last ≤ low ∨ high ≤ first) : SameBytes base first last m m' := by
  rcases apart with below | above
  · exact around.before.within (Nat.zero_le _) below
  · exact around.after.within above top

theorem Around.word {base : BitVec 32} {low high ofs : Nat} {m m' : Memory} (around : Around base low high m m')
    (top : ofs + 4 ≤ 2 ^ 32) (apart : ofs + 4 ≤ low ∨ high ≤ ofs) :
    readWord m' (field base ofs) = readWord m (field base ofs) := readWord_same (around.same top apart)

theorem Around.half {base : BitVec 32} {low high ofs : Nat} {m m' : Memory} (around : Around base low high m m')
    (top : ofs + 2 ≤ 2 ^ 32) (apart : ofs + 2 ≤ low ∨ high ≤ ofs) :
    readHalf m' (field base ofs) = readHalf m (field base ofs) := readHalf_same (around.same top apart)

end Records
