import DragonUso.Library.ByteOrder

/-! A file written by seeks and writes. Seeking past the end and writing leaves a gap of
zeros. A program's effect on a file is its list of positioned writes; when no two of them
overlap, every one of them can be read back. -/

namespace SparseFile
open ByteOrder

/-- One `fseek` to an absolute offset followed by one `fwrite`. -/
structure Write where
  ofs : Nat
  data : List Byte
  deriving DecidableEq, Repr

def Write.stop (w : Write) : Nat := w.ofs + w.data.length

/-- Writing nothing does not extend the file. -/
def Write.apply (file : List Byte) (w : Write) : List Byte :=
  if w.data = [] then file
  else
    let padded := file ++ List.replicate (w.ofs - file.length) 0
    padded.take w.ofs ++ w.data ++ padded.drop w.stop

def run (writes : List Write) : List Byte := writes.foldl Write.apply []

/-- Bytes past the end read as zero. -/
def byteAt (file : List Byte) (p : Nat) : Byte := file.getD p 0

def readAt (file : List Byte) (ofs n : Nat) : List Byte :=
  (List.range n).map fun i => byteAt file (ofs + i)

@[simp] theorem readAt_length (file : List Byte) (ofs n : Nat) :
    (readAt file ofs n).length = n := by simp [readAt]

theorem readAt_getElem (file : List Byte) (ofs n i : Nat) (bound : i < (readAt file ofs n).length) :
    (readAt file ofs n)[i] = byteAt file (ofs + i) := by simp [readAt]

theorem byteAt_readAt (file : List Byte) (ofs : Nat) {n i : Nat} (bound : i < n) :
    byteAt (readAt file ofs n) i = byteAt file (ofs + i) := by
  have inside : i < (readAt file ofs n).length := by rw [readAt_length]; exact bound
  rw [← readAt_getElem file ofs n i inside, byteAt, List.getD_eq_getElem?_getD, List.getElem?_eq_getElem inside,
    Option.getD_some]

theorem readAt_ext {file other : List Byte} {ofs n : Nat}
    (same : ∀ p, ofs ≤ p → p < ofs + n → byteAt file p = byteAt other p) :
    readAt file ofs n = readAt other ofs n := by
  apply List.map_congr_left
  intro i member
  have bound := List.mem_range.mp member
  exact same (ofs + i) (by omega) (by omega)

theorem readAt_append (file : List Byte) (ofs n m : Nat) :
    readAt file ofs (n + m) = readAt file ofs n ++ readAt file (ofs + n) m := by
  simp only [readAt, List.range_add, List.map_append, List.map_map]
  congr 1
  apply List.map_congr_left
  intro i _
  simp [Nat.add_assoc]

/-- A read that returns a concatenation splits into reads of the pieces. -/
theorem readAt_split {file first second : List Byte} {ofs n : Nat}
    (read : readAt file ofs n = first ++ second) :
    readAt file ofs first.length = first ∧ readAt file (ofs + first.length) second.length = second := by
  have size := congrArg List.length read
  rw [readAt_length, List.length_append] at size
  rw [size, readAt_append] at read
  exact List.append_inj read (readAt_length ..)

/-- Inside the file, what is read is what the file goes on with. -/
theorem drop_of_readAt {file data : List Byte} {ofs : Nat} (read : readAt file ofs data.length = data)
    (inside : ofs + data.length ≤ file.length) : file.drop ofs = data ++ file.drop (ofs + data.length) := by
  have taken : (file.drop ofs).take data.length = data := by
    conv_rhs => rw [← read]
    apply List.ext_getElem
    · rw [List.length_take, List.length_drop, readAt_length]
      omega
    · intro i bound _
      rw [List.length_take, List.length_drop] at bound
      rw [List.getElem_take, List.getElem_drop, readAt_getElem, byteAt, List.getD_eq_getElem?_getD,
        List.getElem?_eq_getElem (by omega), Option.getD_some]
  calc
    _ = (file.drop ofs).take data.length ++ (file.drop ofs).drop data.length := (List.take_append_drop ..).symm
    _ = _ := by rw [taken, List.drop_drop]

theorem byteAt_append_left (file tail : List Byte) {p : Nat} (bound : p < file.length) :
    byteAt (file ++ tail) p = byteAt file p := by
  simp only [byteAt, List.getD_eq_getElem?_getD, List.getElem?_append_left bound]

theorem readAt_append_right (file tail : List Byte) :
    readAt (file ++ tail) file.length tail.length = tail := by
  apply List.ext_getElem (readAt_length ..)
  intro i _ bound
  rw [readAt_getElem]
  simp [byteAt, List.getD_eq_getElem?_getD, bound]

private theorem byteAt_padded (file : List Byte) (count p : Nat) :
    byteAt (file ++ List.replicate count 0) p = byteAt file p := by
  simp only [byteAt, List.getD_eq_getElem?_getD]
  rcases Nat.lt_or_ge p file.length with inside | outside
  · rw [List.getElem?_append_left inside]
  · rw [List.getElem?_append_right outside, List.getElem?_eq_none outside, List.getElem?_replicate]
    split <;> rfl

theorem Write.length_apply (file : List Byte) (w : Write) (some : w.data ≠ []) :
    (w.apply file).length = max file.length w.stop := by
  simp only [Write.apply, if_neg some, Write.stop, List.length_append, List.length_take,
    List.length_drop, List.length_replicate]
  omega

theorem Write.length_le_apply (file : List Byte) (w : Write) :
    file.length ≤ (w.apply file).length := by
  by_cases none : w.data = []
  · simp [Write.apply, none]
  · rw [w.length_apply file none]
    exact Nat.le_max_left ..

/-- Inside its range a write supplies the byte. -/
theorem Write.byteAt_apply_inside (file : List Byte) (w : Write) {i : Nat} (bound : i < w.data.length) :
    byteAt (w.apply file) (w.ofs + i) = w.data[i] := by
  have some : w.data ≠ [] := List.ne_nil_of_length_pos (by omega)
  simp only [Write.apply, if_neg some, byteAt, List.getD_eq_getElem?_getD]
  have front : ((file ++ List.replicate (w.ofs - file.length) 0).take w.ofs).length = w.ofs := by
    simp only [List.length_take, List.length_append, List.length_replicate]
    omega
  rw [List.append_assoc, List.getElem?_append_right (by omega), front, Nat.add_sub_cancel_left,
    List.getElem?_append_left bound, List.getElem?_eq_getElem bound]
  rfl

/-- Outside its range a write changes no byte. -/
theorem Write.byteAt_apply_outside (file : List Byte) (w : Write) {p : Nat}
    (outside : p < w.ofs ∨ w.stop ≤ p) : byteAt (w.apply file) p = byteAt file p := by
  by_cases none : w.data = []
  · simp [Write.apply, none]
  · rw [← byteAt_padded file (w.ofs - file.length) p]
    simp only [Write.apply, if_neg none, byteAt, List.getD_eq_getElem?_getD]
    have front : ((file ++ List.replicate (w.ofs - file.length) 0).take w.ofs).length = w.ofs := by
      simp only [List.length_take, List.length_append, List.length_replicate]
      omega
    rcases outside with before | after
    · rw [List.append_assoc, List.getElem?_append_left (by omega), List.getElem?_take_of_lt before]
    · have stop := w.stop.le_refl
      unfold Write.stop at stop after ⊢
      rw [List.getElem?_append_right (by rw [List.length_append, front]; omega), List.length_append,
        front, List.getElem?_drop]
      congr 2
      omega

theorem Write.readAt_apply (file : List Byte) (w : Write) :
    readAt (w.apply file) w.ofs w.data.length = w.data := by
  apply List.ext_getElem (readAt_length ..)
  intro i _ bound
  rw [readAt_getElem, w.byteAt_apply_inside file bound]

/-- Two writes with no byte in common. -/
def Apart (w v : Write) : Prop := w.stop ≤ v.ofs ∨ v.stop ≤ w.ofs

theorem Apart.symm {w v : Write} (apart : Apart w v) : Apart v w := Or.symm apart

theorem length_le_foldl (writes : List Write) (file : List Byte) :
    file.length ≤ (writes.foldl Write.apply file).length := by
  induction writes generalizing file with
  | nil => exact Nat.le_refl _
  | cons w rest ih => exact Nat.le_trans (w.length_le_apply file) (ih (w.apply file))

theorem stop_le_length_foldl {writes : List Write} {w : Write} (member : w ∈ writes)
    (some : w.data ≠ []) (file : List Byte) : w.stop ≤ (writes.foldl Write.apply file).length := by
  induction writes generalizing file with
  | nil => exact absurd member List.not_mem_nil
  | cons v rest ih =>
    rcases List.mem_cons.mp member with rfl | later
    · have own : w.stop ≤ (w.apply file).length := by
        rw [w.length_apply file some]
        exact Nat.le_max_right ..
      exact Nat.le_trans own (length_le_foldl rest _)
    · exact ih later (v.apply file)

/-- A nonempty write is part of the finished file. -/
theorem stop_le_length {writes : List Write} {w : Write} (member : w ∈ writes) (some : w.data ≠ []) :
    w.stop ≤ (run writes).length := stop_le_length_foldl member some []

theorem byteAt_foldl_outside {writes : List Write} {p : Nat} (file : List Byte)
    (outside : ∀ w ∈ writes, p < w.ofs ∨ w.stop ≤ p) :
    byteAt (writes.foldl Write.apply file) p = byteAt file p := by
  induction writes generalizing file with
  | nil => rfl
  | cons w rest ih =>
    rw [List.foldl_cons, ih (w.apply file) (fun v member => outside v (List.mem_cons_of_mem _ member)),
      w.byteAt_apply_outside file (outside w List.mem_cons_self)]

theorem readAt_foldl {writes : List Write} (apart : writes.Pairwise Apart) {w : Write}
    (member : w ∈ writes) (file : List Byte) :
    readAt (writes.foldl Write.apply file) w.ofs w.data.length = w.data := by
  induction writes generalizing file with
  | nil => exact absurd member List.not_mem_nil
  | cons v rest ih =>
    have split := List.pairwise_cons.mp apart
    rcases List.mem_cons.mp member with rfl | later
    · have survives : readAt (rest.foldl Write.apply (w.apply file)) w.ofs w.data.length =
          readAt (w.apply file) w.ofs w.data.length := by
        apply readAt_ext
        intro p lower upper
        apply byteAt_foldl_outside
        intro u below
        have gap := split.1 u below
        unfold Apart Write.stop at gap
        unfold Write.stop
        omega
      rw [List.foldl_cons, survives, w.readAt_apply file]
    · exact ih split.2 later (v.apply file)

/-- Pairwise disjoint writes all survive to the finished file. -/
theorem readAt_run {writes : List Write} (apart : writes.Pairwise Apart) {w : Write}
    (member : w ∈ writes) : readAt (run writes) w.ofs w.data.length = w.data :=
  readAt_foldl apart member []

/-- So does a write that later writes stay away from. -/
theorem readAt_run_append {first second : List Write} (apart : first.Pairwise Apart) {w : Write} (member : w ∈ first)
    (clear : ∀ v ∈ second, v.data ≠ [] → Apart w v) : readAt (run (first ++ second)) w.ofs w.data.length = w.data := by
  have outside : ∀ p, w.ofs ≤ p → p < w.stop → ∀ v ∈ second, p < v.ofs ∨ v.stop ≤ p := by
    intro p lower upper v later
    by_cases empty : v.data = []
    · have stop : v.stop = v.ofs := by rw [Write.stop, empty, List.length_nil, Nat.add_zero]
      omega
    · have gap := clear v later empty
      unfold Apart at gap
      omega
  rw [run, List.foldl_append]
  calc
    _ = readAt (run first) w.ofs w.data.length :=
      readAt_ext fun p lower upper => byteAt_foldl_outside _ (outside p lower upper)
    _ = _ := readAt_run apart member

/-- Every write of the list lies in `[lo, hi)`. -/
def Within (lo hi : Nat) (writes : List Write) : Prop := ∀ w ∈ writes, lo ≤ w.ofs ∧ w.stop ≤ hi

theorem Within.mono {lo hi lo' hi' : Nat} {writes : List Write} (within : Within lo hi writes)
    (lower : lo' ≤ lo) (upper : hi ≤ hi') : Within lo' hi' writes := by
  intro w member
  have bounds := within w member
  omega

theorem Within.length_foldl {lo hi : Nat} {writes : List Write} (within : Within lo hi writes) {file : List Byte}
    (start : file.length ≤ hi) : (writes.foldl Write.apply file).length ≤ hi := by
  induction writes generalizing file with
  | nil => exact start
  | cons w rest ih =>
    refine ih (fun v member => within v (List.mem_cons_of_mem _ member)) ?_
    have stop := (within w List.mem_cons_self).2
    by_cases none : w.data = []
    · rw [Write.apply, if_pos none]
      exact start
    · rw [w.length_apply file none]
      omega

/-- A file is no longer than the area of its writes. -/
theorem Within.length_run {lo hi : Nat} {writes : List Write} (within : Within lo hi writes) :
    (run writes).length ≤ hi := within.length_foldl (Nat.zero_le hi)

/-- Every write that stores a byte starts at `lo` or later. -/
def From (lo : Nat) (writes : List Write) : Prop := ∀ w ∈ writes, w.data ≠ [] → lo ≤ w.ofs

theorem From.append {lo : Nat} {first second : List Write} (left : From lo first) (right : From lo second) :
    From lo (first ++ second) := by
  intro w member some
  rcases List.mem_append.mp member with earlier | later
  · exact left w earlier some
  · exact right w later some

theorem From.cons {lo : Nat} {w : Write} {rest : List Write} (own : lo ≤ w.ofs) (later : From lo rest) :
    From lo (w :: rest) := by
  intro v member some
  rcases List.mem_cons.mp member with rfl | tail
  · exact own
  · exact later v tail some

theorem From.mono {lo lo' : Nat} {writes : List Write} (start : From lo writes) (lower : lo' ≤ lo) : From lo' writes :=
  fun w member some => Nat.le_trans lower (start w member some)

end SparseFile
