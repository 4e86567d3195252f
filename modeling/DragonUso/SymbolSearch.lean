import DragonUso.Library.SortedSearch
import DragonUso.ToolCollect

/-! `search_symbol_table`. The tool orders names as `std::string`s and the loader searches with
`strcmp`; both compare bytes as unsigned, so a table the tool sorted is one the search can use. -/

namespace DragonUso.SymbolSearch
open ByteOrder SortedSearch Format ToolCollect

/-- The sign of `strcmp` on strings given without their terminators. -/
def strcmp : Bytes → Bytes → Ordering
  | [], [] => .eq
  | [], _ :: _ => .lt
  | _ :: _, [] => .gt
  | a :: as, b :: bs => if a = b then strcmp as bs else if a < b then .lt else .gt

def symbolCompare (name : Bytes) (symbol : UsoSymbol) : Ordering := strcmp name symbol.name

/-- The pointer stored for a name, NULL when the table is absent, empty or without the name. -/
def searchSymbolTable (table : Option (List UsoSymbol)) (name : Bytes) : U32 :=
  match table with
  | none => 0
  | some symbols =>
    if symbols.length = 0 then 0
    else
      match bsearch (symbolCompare name) symbols with
      | some symbol => symbol.ptr
      | none => 0

/-! ### The order of names -/

theorem strcmp_self (name : Bytes) : strcmp name name = .eq := by
  induction name with
  | nil => rfl
  | cons a as ih => rw [strcmp, if_pos rfl, ih]

theorem strcmp_eq_iff (first second : Bytes) : strcmp first second = .eq ↔ first = second := by
  constructor
  · intro equal
    induction first generalizing second with
    | nil =>
      cases second with
      | nil => rfl
      | cons b bs => simp [strcmp] at equal
    | cons a as ih =>
      cases second with
      | nil => simp [strcmp] at equal
      | cons b bs =>
        rw [strcmp] at equal
        split at equal
        next same => rw [same, ih bs equal]
        next => split at equal <;> simp at equal
  · rintro rfl
    exact strcmp_self first

theorem strcmp_swap (first second : Bytes) : (strcmp first second).swap = strcmp second first := by
  induction first generalizing second with
  | nil => cases second <;> rfl
  | cons a as ih =>
    cases second with
    | nil => rfl
    | cons b bs =>
      rw [strcmp, strcmp]
      by_cases same : a = b
      · rw [if_pos same, if_pos same.symm, ih]
      · rw [if_neg same, if_neg (Ne.symm same)]
        by_cases below : a < b
        · rw [if_pos below, if_neg (BitVec.not_lt.mpr (BitVec.le_of_lt below))]
          rfl
        · have above : b < a := by bv_omega
          rw [if_neg below, if_pos above]
          rfl

theorem strcmp_gt_iff (first second : Bytes) : strcmp first second = .gt ↔ strcmp second first = .lt := by
  rw [← strcmp_swap first second]
  cases strcmp first second <;> simp

theorem strcmp_lt_trans {first second third : Bytes} (below : strcmp first second = .lt)
    (above : strcmp second third = .lt) : strcmp first third = .lt := by
  induction first generalizing second third with
  | nil =>
    cases third with
    | nil => cases second <;> simp [strcmp] at above
    | cons c cs => rfl
  | cons a as ih =>
    cases second with
    | nil => simp [strcmp] at below
    | cons b bs =>
      cases third with
      | nil => simp [strcmp] at above
      | cons c cs =>
        rw [strcmp] at below above ⊢
        by_cases same : a = b
        · subst same
          rw [if_pos rfl] at below
          by_cases next : a = c
          · rw [if_pos next] at above ⊢
            exact ih below above
          · rw [if_neg next] at above ⊢
            exact above
        · rw [if_neg same] at below
          have order : a < b := by
            by_cases small : a < b
            · exact small
            · simp [small] at below
          by_cases next : b = c
          · subst next
            rw [if_neg same, if_pos order]
          · rw [if_neg next] at above
            have order' : b < c := by
              by_cases small : b < c
              · exact small
              · simp [small] at above
            have apart : a ≠ c := by bv_omega
            rw [if_neg apart, if_pos (by bv_omega)]

/-- The host's string order is the target's. -/
theorem stringLess_iff (first second : Bytes) : stringLess first second = true ↔ strcmp first second = .lt := by
  induction first generalizing second with
  | nil => cases second <;> simp [stringLess, strcmp]
  | cons a as ih =>
    cases second with
    | nil => simp [stringLess, strcmp]
    | cons b bs =>
      rw [stringLess, strcmp]
      by_cases same : a = b
      · have irreflexive : ¬ b < b := by bv_omega
        simp [same, ih, irreflexive]
      · by_cases below : a < b <;> simp [same, below]

/-! ### Searching a sorted table -/

/-- Strictly ascending by name, so that no name occurs twice. -/
def SortedTable (symbols : List UsoSymbol) : Prop := symbols.Pairwise fun a b => strcmp a.name b.name = .lt

theorem SortedTable.splits {symbols : List UsoSymbol} (sorted : SortedTable symbols) (name : Bytes) :
    Splits (symbolCompare name) symbols := by
  refine sorted.imp fun {a b} order notBelow => ?_
  unfold symbolCompare at notBelow ⊢
  rw [strcmp_gt_iff]
  cases compared : strcmp name b.name with
  | lt => exact absurd compared notBelow
  | eq => rwa [(strcmp_eq_iff _ _).mp compared]
  | gt => exact strcmp_lt_trans order ((strcmp_gt_iff _ _).mp compared)

/-- The symbols of a table that may be absent. -/
def entries (table : Option (List UsoSymbol)) : List UsoSymbol := table.getD []

/-- A pointer that is found belongs to an entry of that name. -/
theorem searchSymbolTable_sound {table : Option (List UsoSymbol)} {name : Bytes}
    (found : searchSymbolTable table name ≠ 0) :
    ∃ s ∈ entries table, s.name = name ∧ s.ptr = searchSymbolTable table name := by
  unfold searchSymbolTable at found ⊢
  cases table with
  | none => exact absurd rfl found
  | some symbols =>
    simp only at found ⊢
    by_cases empty : symbols.length = 0
    · exact absurd (if_pos empty) found
    · rw [if_neg empty] at found ⊢
      cases result : bsearch (symbolCompare name) symbols with
      | none => simp [result] at found
      | some s =>
        obtain ⟨member, equal⟩ := bsearch_sound result
        exact ⟨s, member, ((strcmp_eq_iff _ _).mp equal).symm, rfl⟩

/-- In a sorted table every entry is found under its name. -/
theorem searchSymbolTable_complete {table : Option (List UsoSymbol)} (sorted : SortedTable (entries table))
    {s : UsoSymbol} (member : s ∈ entries table) : searchSymbolTable table s.name = s.ptr := by
  cases table with
  | none => exact absurd member List.not_mem_nil
  | some symbols =>
    have some : symbols.length ≠ 0 := by
      intro none
      rw [List.length_eq_zero_iff] at none
      subst none
      exact absurd member List.not_mem_nil
    have result := bsearch_complete (sorted.splits s.name) member (strcmp_self s.name)
    simp only [searchSymbolTable, if_neg some]
    change (match bsearch (symbolCompare s.name) symbols with
      | .some symbol => symbol.ptr
      | none => 0) = s.ptr
    rw [show bsearch (symbolCompare s.name) symbols = .some s from result]

/-- What a search of a sorted table returns, when it returns anything. -/
theorem searchSymbolTable_iff {table : Option (List UsoSymbol)} (sorted : SortedTable (entries table))
    {name : Bytes} {ptr : U32} (some : ptr ≠ 0) :
    searchSymbolTable table name = ptr ↔ ∃ s ∈ entries table, s.name = name ∧ s.ptr = ptr := by
  constructor
  · rintro rfl
    exact searchSymbolTable_sound some
  · rintro ⟨s, member, rfl, rfl⟩
    exact searchSymbolTable_complete sorted member

/-- In order by name, where names may repeat. -/
def AscendingTable (symbols : List UsoSymbol) : Prop := symbols.Pairwise fun a b => strcmp b.name a.name ≠ .lt

theorem AscendingTable.parts {symbols : List UsoSymbol} (ascending : AscendingTable symbols) (name : Bytes) :
    Parts (symbolCompare name) symbols := by
  refine ascending.imp fun {a b} order => ?_
  unfold symbolCompare
  constructor
  · intro below
    cases compared : strcmp name b.name with
    | lt => rfl
    | eq => exact absurd ((strcmp_eq_iff _ _).mp compared ▸ below) order
    | gt => exact absurd (strcmp_lt_trans ((strcmp_gt_iff _ _).mp compared) below) order
  · intro above
    rw [strcmp_gt_iff] at above ⊢
    cases compared : strcmp a.name name with
    | lt => rfl
    | eq => exact absurd ((strcmp_eq_iff _ _).mp compared ▸ above) order
    | gt => exact absurd (strcmp_lt_trans above ((strcmp_gt_iff _ _).mp compared)) order

/-- A name the table holds is found at one of its entries. -/
theorem searchSymbolTable_finds {table : Option (List UsoSymbol)} (ascending : AscendingTable (entries table))
    {s : UsoSymbol} (member : s ∈ entries table) :
    ∃ t ∈ entries table, t.name = s.name ∧ searchSymbolTable table s.name = t.ptr := by
  cases table with
  | none => exact absurd member List.not_mem_nil
  | some symbols =>
    have some : symbols.length ≠ 0 := by
      intro none
      rw [List.length_eq_zero_iff] at none
      subst none
      exact absurd member List.not_mem_nil
    obtain ⟨t, inTable, equal, found⟩ := bsearch_finds (ascending.parts s.name) member (strcmp_self s.name)
    refine ⟨t, inTable, ((strcmp_eq_iff _ _).mp equal).symm, ?_⟩
    simp only [searchSymbolTable, if_neg some]
    change (match bsearch (symbolCompare s.name) symbols with
      | .some symbol => symbol.ptr
      | none => 0) = t.ptr
    rw [show bsearch (symbolCompare s.name) symbols = .some t from found]

end DragonUso.SymbolSearch
