import Mathlib.Data.List.Basic

/-! Binary search by a three-way comparison with a key, as the C library does it, and by halving with
an order, as the C++ library does it. On a table that is in order both find what matches if there
is anything. -/

namespace SortedSearch

variable {α : Type}

/-- The loop of `bsearch`: `compare` orders the key against an element. -/
def bsearchLoop (compare : α → Ordering) (table : List α) : Nat → Nat → Nat → Option α
  | 0, _, _ => none
  | fuel + 1, lower, upper =>
    if lower < upper then
      match table[(lower + upper) / 2]? with
      | none => none
      | some x =>
        match compare x with
        | .lt => bsearchLoop compare table fuel lower ((lower + upper) / 2)
        | .gt => bsearchLoop compare table fuel ((lower + upper) / 2 + 1) upper
        | .eq => some x
    else none

def bsearch (compare : α → Ordering) (table : List α) : Option α :=
  bsearchLoop compare table (table.length + 1) 0 table.length

/-- A key that is not below an element is above every element before it. -/
def Splits (compare : α → Ordering) (table : List α) : Prop :=
  table.Pairwise fun a b => compare b ≠ .lt → compare a = .gt

/-- What the loop returns lies between the bounds it started with. -/
theorem bsearchLoop_between {compare : α → Ordering} {table : List α} {fuel lower upper : Nat} {x : α}
    (found : bsearchLoop compare table fuel lower upper = some x) :
    ∃ i, lower ≤ i ∧ i < upper ∧ table[i]? = some x ∧ compare x = .eq := by
  induction fuel generalizing lower upper with
  | zero => simp [bsearchLoop] at found
  | succ fuel ih =>
    unfold bsearchLoop at found
    split at found
    next between =>
      split at found
      · exact absurd found (by simp)
      next y at_mid =>
        split at found
        · obtain ⟨i, low, high, at_i⟩ := ih found
          exact ⟨i, low, by omega, at_i⟩
        · obtain ⟨i, low, high, at_i⟩ := ih found
          exact ⟨i, by omega, high, at_i⟩
        next equal =>
          obtain rfl := Option.some.inj found
          exact ⟨_, by omega, by omega, at_mid, equal⟩
    · exact absurd found (by simp)

/-- Whatever the order of the table, a search only returns an element that matches. -/
theorem bsearch_sound {compare : α → Ordering} {table : List α} {x : α} (found : bsearch compare table = some x) :
    x ∈ table ∧ compare x = .eq := by
  obtain ⟨i, -, -, at_i, equal⟩ := bsearchLoop_between found
  exact ⟨List.mem_of_getElem? at_i, equal⟩

theorem Splits.of_lt {compare : α → Ordering} {table : List α} (splits : Splits compare table) {i j : Nat} {a b : α}
    (order : i < j) (at_i : table[i]? = some a) (at_j : table[j]? = some b) : compare b ≠ .lt → compare a = .gt := by
  obtain ⟨boundI, rfl⟩ := List.getElem?_eq_some_iff.mp at_i
  obtain ⟨boundJ, rfl⟩ := List.getElem?_eq_some_iff.mp at_j
  exact List.pairwise_iff_getElem.mp splits i j boundI boundJ order

/-- The invariant: a matching element stays between the two bounds, which close in every round. -/
theorem bsearchLoop_complete {compare : α → Ordering} {table : List α} (splits : Splits compare table)
    {i : Nat} {x : α} (at_i : table[i]? = some x) (equal : compare x = .eq) {fuel lower upper : Nat}
    (low : lower ≤ i) (high : i < upper) (inside : upper ≤ table.length) (enough : upper - lower < fuel) :
    bsearchLoop compare table fuel lower upper = some x := by
  induction fuel generalizing lower upper with
  | zero => omega
  | succ fuel ih =>
    have between : lower < upper := by omega
    have mid : (lower + upper) / 2 < table.length := by omega
    unfold bsearchLoop
    rw [if_pos between, List.getElem?_eq_getElem mid]
    have at_mid : table[(lower + upper) / 2]? = some table[(lower + upper) / 2] := List.getElem?_eq_getElem mid
    rcases Nat.lt_trichotomy i ((lower + upper) / 2) with before | here | after
    · have below : compare table[(lower + upper) / 2] = .lt := by
        apply Decidable.byContradiction
        intro other
        have above := splits.of_lt before at_i at_mid other
        rw [equal] at above
        exact absurd above (by simp)
      simp only [below]
      exact ih low before (by omega) (by omega)
    · have same : table[(lower + upper) / 2] = x := by
        rw [here, at_mid, Option.some.injEq] at at_i
        exact at_i
      simp only [same, equal]
    · have above : compare table[(lower + upper) / 2] = .gt :=
        splits.of_lt after at_mid at_i (by rw [equal]; simp)
      simp only [above]
      exact ih (by omega) high inside (by omega)

theorem bsearch_complete {compare : α → Ordering} {table : List α} (splits : Splits compare table) {x : α}
    (member : x ∈ table) (equal : compare x = .eq) : bsearch compare table = some x := by
  obtain ⟨i, bound, rfl⟩ := List.mem_iff_getElem.mp member
  exact bsearchLoop_complete splits (List.getElem?_eq_getElem bound) equal (Nat.zero_le i) bound
    (Nat.le_refl _) (by omega)

/-- Several elements may match: those below the key come first and those above it last. -/
def Parts (compare : α → Ordering) (table : List α) : Prop :=
  table.Pairwise fun a b => (compare a = .lt → compare b = .lt) ∧ (compare b = .gt → compare a = .gt)

theorem Parts.of_lt {compare : α → Ordering} {table : List α} (parts : Parts compare table) {i j : Nat} {a b : α}
    (order : i < j) (at_i : table[i]? = some a) (at_j : table[j]? = some b) :
    (compare a = .lt → compare b = .lt) ∧ (compare b = .gt → compare a = .gt) := by
  obtain ⟨boundI, rfl⟩ := List.getElem?_eq_some_iff.mp at_i
  obtain ⟨boundJ, rfl⟩ := List.getElem?_eq_some_iff.mp at_j
  exact List.pairwise_iff_getElem.mp parts i j boundI boundJ order

/-- The invariant is the same, but the loop may stop at another match than the one it keeps inside. -/
theorem bsearchLoop_finds {compare : α → Ordering} {table : List α} (parts : Parts compare table) {i : Nat} {x : α}
    (at_i : table[i]? = some x) (equal : compare x = .eq) {fuel lower upper : Nat} (low : lower ≤ i) (high : i < upper)
    (inside : upper ≤ table.length) (enough : upper - lower < fuel) :
    ∃ y, bsearchLoop compare table fuel lower upper = some y := by
  induction fuel generalizing lower upper with
  | zero => omega
  | succ fuel ih =>
    have between : lower < upper := by omega
    have mid : (lower + upper) / 2 < table.length := by omega
    have at_mid : table[(lower + upper) / 2]? = some table[(lower + upper) / 2] := List.getElem?_eq_getElem mid
    unfold bsearchLoop
    rw [if_pos between, at_mid]
    cases compared : compare table[(lower + upper) / 2] with
    | eq => exact ⟨table[(lower + upper) / 2], by simp only [compared]⟩
    | lt =>
      have before : i < (lower + upper) / 2 := by
        rcases Nat.lt_trichotomy i ((lower + upper) / 2) with before | here | after
        · exact before
        · rw [here, at_mid, Option.some.injEq] at at_i
          rw [at_i, equal] at compared
          cases compared
        · have below := (parts.of_lt after at_mid at_i).1 compared
          rw [equal] at below
          cases below
      obtain ⟨y, found⟩ := ih low before (by omega) (by omega)
      exact ⟨y, by simp only [compared, found]⟩
    | gt =>
      have after : (lower + upper) / 2 < i := by
        rcases Nat.lt_trichotomy i ((lower + upper) / 2) with before | here | after
        · have above := (parts.of_lt before at_i at_mid).2 compared
          rw [equal] at above
          cases above
        · rw [here, at_mid, Option.some.injEq] at at_i
          rw [at_i, equal] at compared
          cases compared
        · exact after
      obtain ⟨y, found⟩ := ih (Nat.succ_le_of_lt after) high inside (by omega)
      exact ⟨y, by simp only [compared, found]⟩

/-- If anything matches, something that matches is found. -/
theorem bsearch_finds {compare : α → Ordering} {table : List α} (parts : Parts compare table) {x : α}
    (member : x ∈ table) (equal : compare x = .eq) :
    ∃ y ∈ table, compare y = .eq ∧ bsearch compare table = some y := by
  obtain ⟨i, bound, rfl⟩ := List.mem_iff_getElem.mp member
  obtain ⟨y, found⟩ := bsearchLoop_finds parts (List.getElem?_eq_getElem bound) equal (Nat.zero_le i) bound
    (Nat.le_refl _) (Nat.lt_succ_self _)
  obtain ⟨inTable, matching⟩ := bsearch_sound found
  exact ⟨y, inTable, matching, found⟩

/-! ### Tables in which everything is found -/

/-- Between two bounds where the loop finds something under every element's own key, and keys tell
elements apart, the elements ascend: every middle the loop meets parts those before from those after. -/
theorem ascending_of_bsearchLoop {compare : α → α → Ordering} {order : α → α → Prop} {table : List α}
    (below : ∀ x y, compare x y = .lt → order x y) (above : ∀ x y, compare x y = .gt → order y x)
    (trans : ∀ x y z, order x y → order y z → order x z)
    (apart : ∀ (i j : Nat) (x y : α), table[i]? = some x → table[j]? = some y → compare x y = .eq → i = j)
    {fuel lower upper : Nat} (found : ∀ (i : Nat) (x : α), lower ≤ i → i < upper → table[i]? = some x →
      ∃ y, bsearchLoop (compare x) table fuel lower upper = some y)
    {i j : Nat} {x y : α} (low : lower ≤ i) (less : i < j) (high : j < upper) (at_i : table[i]? = some x)
    (at_j : table[j]? = some y) : order x y := by
  induction fuel generalizing lower upper with
  | zero =>
    obtain ⟨z, none⟩ := found i x low (by omega) at_i
    simp [bsearchLoop] at none
  | succ fuel ih =>
    have between : lower < upper := by omega
    have mid : (lower + upper) / 2 < table.length := by
      have last := (List.getElem?_eq_some_iff.mp at_j).1
      apply Nat.lt_of_not_le
      intro outside
      obtain ⟨z, none⟩ := found j y (by omega) high at_j
      rw [bsearchLoop, if_pos between, List.getElem?_eq_none outside] at none
      cases none
    have at_mid : table[(lower + upper) / 2]? = some table[(lower + upper) / 2] := List.getElem?_eq_getElem mid
    -- one round of the loop for an element on either side of the middle
    have before : ∀ k z, lower ≤ k → k < (lower + upper) / 2 → table[k]? = some z →
        compare z table[(lower + upper) / 2] = .lt ∧
          ∃ w, bsearchLoop (compare z) table fuel lower ((lower + upper) / 2) = some w := by
      intro k z first second at_k
      obtain ⟨w, result⟩ := found k z first (by omega) at_k
      rw [bsearchLoop, if_pos between, at_mid] at result
      cases compared : compare z table[(lower + upper) / 2] with
      | lt => exact ⟨rfl, w, by simpa only [compared] using result⟩
      | eq => exact absurd (apart _ _ _ _ at_k at_mid compared) (by omega)
      | gt =>
        simp only [compared] at result
        obtain ⟨place, start, -, at_place, equal⟩ := bsearchLoop_between result
        exact absurd (apart _ _ _ _ at_k at_place equal) (by omega)
    have after : ∀ k z, (lower + upper) / 2 < k → k < upper → table[k]? = some z →
        compare z table[(lower + upper) / 2] = .gt ∧
          ∃ w, bsearchLoop (compare z) table fuel ((lower + upper) / 2 + 1) upper = some w := by
      intro k z first second at_k
      obtain ⟨w, result⟩ := found k z (by omega) second at_k
      rw [bsearchLoop, if_pos between, at_mid] at result
      cases compared : compare z table[(lower + upper) / 2] with
      | lt =>
        simp only [compared] at result
        obtain ⟨place, -, stop, at_place, equal⟩ := bsearchLoop_between result
        exact absurd (apart _ _ _ _ at_k at_place equal) (by omega)
      | eq => exact absurd (apart _ _ _ _ at_k at_mid compared) (by omega)
      | gt => exact ⟨rfl, w, by simpa only [compared] using result⟩
    have left : i < (lower + upper) / 2 → order x table[(lower + upper) / 2] :=
      fun side => below _ _ (before i x low side at_i).1
    have right : (lower + upper) / 2 < j → order table[(lower + upper) / 2] y :=
      fun side => above _ _ (after j y side high at_j).1
    rcases Nat.lt_trichotomy j ((lower + upper) / 2) with first | here | second
    · exact ih (fun k z start stop at_k => (before k z start stop at_k).2) low first
    · have same : table[(lower + upper) / 2] = y := by
        rw [here, at_mid, Option.some.injEq] at at_j
        exact at_j
      exact same ▸ left (by omega)
    · rcases Nat.lt_trichotomy i ((lower + upper) / 2) with first | here | third
      · exact trans _ _ _ (left first) (right second)
      · have same : table[(lower + upper) / 2] = x := by
          rw [here, at_mid, Option.some.injEq] at at_i
          exact at_i
        exact same ▸ right second
      · exact ih (fun k z start stop at_k => (after k z (by omega) stop at_k).2) (by omega) high

/-- A table whose elements are all found under their own keys is in order: the converse of
`bsearch_complete`. -/
theorem pairwise_of_bsearch (compare : α → α → Ordering) {order : α → α → Prop} {table : List α}
    (below : ∀ x y, compare x y = .lt → order x y) (above : ∀ x y, compare x y = .gt → order y x)
    (trans : ∀ x y z, order x y → order y z → order x z)
    (apart : ∀ (i j : Nat) (x y : α), table[i]? = some x → table[j]? = some y → compare x y = .eq → i = j)
    (found : ∀ x ∈ table, ∃ y, bsearch (compare x) table = some y) : table.Pairwise order := by
  rw [List.pairwise_iff_getElem]
  intro i j insideI insideJ less
  exact ascending_of_bsearchLoop below above trans apart
    (fun k x _ _ at_k => found x (List.mem_of_getElem? at_k)) (Nat.zero_le i) less insideJ
    (List.getElem?_eq_getElem insideI) (List.getElem?_eq_getElem insideJ)

/-! ### Halving with an order -/

/-- `std::lower_bound`: `below` holds of the elements before the one that is looked for. -/
def lowerBoundLoop (below : α → Bool) (table : List α) : Nat → Nat → Nat → Nat
  | 0, first, _ => first
  | fuel + 1, first, len =>
    if 0 < len then
      match table[first + len / 2]? with
      | none => first
      | some x =>
        if below x then lowerBoundLoop below table fuel (first + len / 2 + 1) (len - len / 2 - 1)
        else lowerBoundLoop below table fuel first (len / 2)
    else first

/-- `std::binary_search`. -/
def binarySearch (less : α → α → Bool) (table : List α) (value : α) : Bool :=
  match table[lowerBoundLoop (fun x => less x value) table table.length 0 table.length]? with
  | some x => !less value x
  | none => false

/-- The elements below come first. -/
def Partitioned (below : α → Bool) (table : List α) : Prop :=
  table.Pairwise fun a b => below b = true → below a = true

/-- `bound` parts the table into the elements below and the others. -/
structure BoundAt (below : α → Bool) (table : List α) (bound : Nat) : Prop where
  before : ∀ i x, i < bound → table[i]? = some x → below x = true
  after : ∀ i x, bound ≤ i → table[i]? = some x → below x = false

/-- The invariant: what comes before the range is below, what comes after it is not. -/
theorem lowerBoundLoop_boundAt {below : α → Bool} {table : List α} (partitioned : Partitioned below table)
    {fuel first len : Nat} (before : ∀ i x, i < first → table[i]? = some x → below x = true)
    (after : ∀ i x, first + len ≤ i → table[i]? = some x → below x = false) (inside : first + len ≤ table.length)
    (enough : len ≤ fuel) : BoundAt below table (lowerBoundLoop below table fuel first len) := by
  have order : ∀ (i j : Nat) (a b : α), i < j → table[i]? = some a → table[j]? = some b → below b = true → below a = true := by
    intro i j a b less at_i at_j
    obtain ⟨boundI, rfl⟩ := List.getElem?_eq_some_iff.mp at_i
    obtain ⟨boundJ, rfl⟩ := List.getElem?_eq_some_iff.mp at_j
    exact List.pairwise_iff_getElem.mp partitioned i j boundI boundJ less
  induction fuel generalizing first len with
  | zero =>
    obtain rfl := Nat.le_zero.mp enough
    exact ⟨before, after⟩
  | succ fuel ih =>
    rw [lowerBoundLoop]
    by_cases some : 0 < len
    · have mid : first + len / 2 < table.length := by omega
      have at_mid : table[first + len / 2]? = .some table[first + len / 2] := List.getElem?_eq_getElem mid
      simp only [if_pos some, at_mid]
      by_cases lower : below table[first + len / 2] = true
      · rw [if_pos lower]
        refine ih ?_ ?_ (by omega) (by omega)
        · intro i x low at_i
          rcases Nat.lt_or_ge i (first + len / 2) with earlier | here
          · exact order i _ x _ earlier at_i at_mid lower
          · obtain rfl : i = first + len / 2 := by omega
            rw [at_mid, Option.some.injEq] at at_i
            exact at_i ▸ lower
        · intro i x high at_i
          exact after i x (by omega) at_i
      · rw [if_neg lower]
        refine ih before ?_ (by omega) (by omega)
        intro i x high at_i
        rcases Nat.lt_or_ge (first + len / 2) i with later | here
        · rw [Bool.eq_false_iff]
          exact fun under => lower (order _ i _ x later at_mid at_i under)
        · obtain rfl : i = first + len / 2 := by omega
          rw [at_mid, Option.some.injEq] at at_i
          exact at_i ▸ Bool.eq_false_iff.mpr lower
    · rw [if_neg some]
      obtain rfl : len = 0 := Nat.eq_zero_of_not_pos some
      exact ⟨before, after⟩

/-- In a table in order the search tells whether an element is neither below the value nor above it. -/
theorem binarySearch_iff {less : α → α → Bool} {table : List α} {value : α}
    (below : Partitioned (fun x => less x value) table)
    (ascending : table.Pairwise fun a b => less value a = true → less value b = true) :
    binarySearch less table value = true ↔ ∃ x ∈ table, less x value = false ∧ less value x = false := by
  have bound : BoundAt (fun x => less x value) table
      (lowerBoundLoop (fun x => less x value) table table.length 0 table.length) := by
    apply lowerBoundLoop_boundAt below
    · intro i x none
      exact absurd none (Nat.not_lt_zero i)
    · intro i x out at_i
      have inside := (List.getElem?_eq_some_iff.mp at_i).1
      omega
    · exact Nat.le_of_eq (Nat.zero_add _)
    · exact Nat.le_refl _
  unfold binarySearch
  constructor
  · intro found
    split at found
    next x at_bound =>
      refine ⟨x, List.mem_of_getElem? at_bound, bound.after _ x (Nat.le_refl _) at_bound, ?_⟩
      simpa using found
    next => cases found
  · rintro ⟨x, member, notBelow, notAbove⟩
    obtain ⟨i, inside, rfl⟩ := List.mem_iff_getElem.mp member
    have at_i := List.getElem?_eq_getElem inside
    have place : lowerBoundLoop (fun x => less x value) table table.length 0 table.length ≤ i := by
      apply Nat.le_of_not_lt
      intro earlier
      have under := bound.before i _ earlier at_i
      rw [notBelow] at under
      cases under
    have first := List.getElem?_eq_getElem (Nat.lt_of_le_of_lt place inside)
    rw [first]
    simp only [Bool.not_eq_true']
    rw [Bool.eq_false_iff]
    intro above
    rcases Nat.lt_or_eq_of_le place with earlier | here
    · have later := List.pairwise_iff_getElem.mp ascending _ i (Nat.lt_trans earlier inside) inside earlier above
      rw [notAbove] at later
      cases later
    · simp only [here, notAbove] at above
      cases above

end SortedSearch
