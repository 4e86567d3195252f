import Mathlib.Data.List.Basic

/-! A loop that counts up to a bound and looks the bound up again in every round. A loop over records
whose rounds change only the record at hand makes of them what a fold over the list of records does. -/

namespace CountedLoop

variable {τ μ σ ρ ε : Type}

/-- `for (i = start; i < bound; i++)`, the bound read from the current state. -/
def countUp (bound : τ → Nat) (body : Nat → τ → Except ε τ) : Nat → Nat → τ → Except ε τ
  | 0, _, s => .ok s
  | fuel + 1, i, s =>
    if i < bound s then
      match body i s with
      | .error fault => .error fault
      | .ok next => countUp bound body fuel (i + 1) next
    else .ok s

theorem countUp_done {bound : τ → Nat} {body : Nat → τ → Except ε τ} {i : Nat} {s : τ} (done : bound s ≤ i)
    (fuel : Nat) : countUp bound body fuel i s = .ok s := by
  cases fuel with
  | zero => rfl
  | succ fuel => rw [countUp, if_neg (Nat.not_lt.mpr done)]

theorem countUp_next {bound : τ → Nat} {body : Nat → τ → Except ε τ} {i : Nat} {s next : τ} (more : i < bound s)
    (round : body i s = .ok next) (fuel : Nat) :
    countUp bound body (fuel + 1) i s = countUp bound body fuel (i + 1) next := by
  rw [countUp, if_pos more, round]

/-- A loop whose bound never exceeds a limit is over by then: more fuel changes nothing. -/
theorem countUp_limit {bound : τ → Nat} {body : Nat → τ → Except ε τ} {limit : Nat} (small : ∀ s, bound s ≤ limit)
    {fuel i : Nat} (enough : limit ≤ i + fuel) (more : Nat) (s : τ) :
    countUp bound body (fuel + more) i s = countUp bound body fuel i s := by
  induction fuel generalizing i s with
  | zero =>
    have done : bound s ≤ i := Nat.le_trans (small s) enough
    rw [countUp_done done, countUp_done done]
  | succ fuel ih =>
    rw [Nat.add_right_comm, countUp, countUp]
    split
    · cases body i s with
      | error fault => rfl
      | ok next => exact ih (by omega) next
    · rfl

/-- What every round keeps, the loop keeps. -/
theorem countUp_keeps {bound : τ → Nat} {body : Nat → τ → Except ε τ} {inv : τ → Prop}
    (step : ∀ i s, i < bound s → inv s → ∃ next, body i s = .ok next ∧ inv next) {fuel i : Nat} {s : τ} (start : inv s) :
    ∃ last, countUp bound body fuel i s = .ok last ∧ inv last := by
  induction fuel generalizing i s with
  | zero => exact ⟨s, rfl, start⟩
  | succ fuel ih =>
    by_cases more : i < bound s
    · obtain ⟨next, round, keeps⟩ := step i s more start
      rw [countUp_next more round]
      exact ih keeps
    · exact ⟨s, countUp_done (Nat.not_lt.mp more) _, start⟩

/-! ### Loops over records -/

/-- A pass over a list that carries a value along. -/
def threadMap (f : σ → ρ → ρ × σ) : σ → List ρ → List ρ × σ
  | a, [] => ([], a)
  | a, r :: rest => ((f a r).1 :: (threadMap f (f a r).2 rest).1, (threadMap f (f a r).2 rest).2)

@[simp] theorem threadMap_length (f : σ → ρ → ρ × σ) (a : σ) (rs : List ρ) : (threadMap f a rs).1.length = rs.length := by
  induction rs generalizing a with
  | nil => rfl
  | cons r rest ih => simp [threadMap, ih]

/-- One round: record `i` becomes what the pass makes of it, the others and the invariant stay. -/
structure Round (decode : μ → Nat → ρ) (f : σ → ρ → ρ × σ) (body : Nat → μ × σ → Except ε (μ × σ)) (inv : μ → Prop)
    (stop i : Nat) (r : ρ) (m : μ) (a : σ) (m' : μ) : Prop where
  returns : body i (m, a) = .ok (m', (f a r).2)
  own : decode m' i = (f a r).1
  others : ∀ j, j < stop → j ≠ i → decode m' j = decode m j
  keeps : inv m'

/-- The loop makes of the records in memory what the pass makes of their list. -/
theorem countUp_threadMap {bound : μ × σ → Nat} {body : Nat → μ × σ → Except ε (μ × σ)} {decode : μ → Nat → ρ}
    {f : σ → ρ → ρ × σ} {inv : μ → Prop} {stop : Nat} (bounds : ∀ m a, inv m → bound (m, a) = stop) {rs : List ρ}
    {first : Nat} (last : first + rs.length = stop)
    (step : ∀ k r, rs[k]? = some r → ∀ m a, inv m → decode m (first + k) = r →
      ∃ m', Round decode f body inv stop (first + k) r m a m')
    {fuel : Nat} (enough : rs.length ≤ fuel) {m : μ} {a : σ} (start : inv m)
    (shows : ∀ k r, rs[k]? = some r → decode m (first + k) = r) :
    ∃ m', countUp bound body fuel first (m, a) = .ok (m', (threadMap f a rs).2) ∧ inv m' ∧
      (∀ k r, (threadMap f a rs).1[k]? = some r → decode m' (first + k) = r) ∧
      ∀ j, j < first → decode m' j = decode m j := by
  induction rs generalizing first fuel m a with
  | nil =>
    have done : bound (m, a) ≤ first := by
      rw [bounds m a start, ← last]
      exact Nat.le_refl _
    exact ⟨m, countUp_done done _, start, fun k r found => absurd found (by simp [threadMap]), fun _ _ => rfl⟩
  | cons r rest ih =>
    rw [List.length_cons] at last enough
    obtain ⟨fuel, rfl⟩ : ∃ n, fuel = n + 1 := Nat.exists_eq_succ_of_ne_zero (by omega)
    obtain ⟨m₁, round⟩ := step 0 r rfl m a start (shows 0 r rfl)
    rw [Nat.add_zero] at round
    have more : first < bound (m, a) := by
      rw [bounds m a start]
      omega
    have later : ∀ k r', rest[k]? = some r' → decode m₁ (first + 1 + k) = r' := by
      intro k r' found
      have inside := (List.getElem?_eq_some_iff.mp found).1
      rw [round.others _ (by omega) (by omega), Nat.add_right_comm, Nat.add_assoc]
      exact shows (k + 1) r' found
    obtain ⟨m', returns, keeps, records, before⟩ := ih (a := (f a r).2) (show first + 1 + rest.length = stop by omega)
      (fun k r' found => by
        have place : first + 1 + k = first + (k + 1) := by omega
        rw [place]
        exact step (k + 1) r' found) (show rest.length ≤ fuel by omega) round.keeps later
    refine ⟨m', ?_, keeps, ?_, ?_⟩
    · rw [countUp_next more round.returns, returns]
      rfl
    · intro k r' found
      cases k with
      | zero =>
        rw [threadMap, List.getElem?_cons_zero, Option.some.injEq] at found
        rw [Nat.add_zero, before first (Nat.lt_succ_self _), round.own, found]
      | succ k =>
        rw [threadMap, List.getElem?_cons_succ] at found
        have place : first + (k + 1) = first + 1 + k := by omega
        rw [place]
        exact records k r' found
    · intro j earlier
      rw [before j (by omega), round.others j (by omega) (by omega)]

theorem threadMap_map (g : ρ → ρ) (rs : List ρ) : threadMap (fun (_ : Unit) r => (g r, ())) () rs = (rs.map g, ()) := by
  induction rs with
  | nil => rfl
  | cons r rest ih => rw [threadMap, ih, List.map_cons]

/-- A loop that carries nothing along changes each record on its own. -/
theorem countUp_map {bound : μ × Unit → Nat} {body : Nat → μ × Unit → Except ε (μ × Unit)} {decode : μ → Nat → ρ}
    {g : ρ → ρ} {inv : μ → Prop} {stop : Nat} (bounds : ∀ m a, inv m → bound (m, a) = stop)
    (step : ∀ k, k < stop → ∀ m a, inv m →
      ∃ m', Round decode (fun (_ : Unit) r => (g r, ())) body inv stop k (decode m k) m a m')
    {fuel : Nat} (enough : stop ≤ fuel) {m : μ} (start : inv m) :
    ∃ m', countUp bound body fuel 0 (m, ()) = .ok (m', ()) ∧ inv m' ∧ ∀ k, k < stop → decode m' k = g (decode m k) := by
  have at_k : ∀ k r, ((List.range stop).map (decode m))[k]? = some r → k < stop ∧ decode m k = r := by
    intro k r found
    obtain ⟨inside, found⟩ := List.getElem?_eq_some_iff.mp found
    rw [List.length_map, List.length_range] at inside
    rw [List.getElem_map, List.getElem_range] at found
    exact ⟨inside, found⟩
  obtain ⟨m', returns, keeps, records, -⟩ := countUp_threadMap bounds
    (show 0 + ((List.range stop).map (decode m)).length = stop by simp)
    (fun k r found m₁ a holds shown => by
      rw [Nat.zero_add] at shown ⊢
      rw [← shown]
      exact step k (at_k k r found).1 m₁ a holds)
    (show ((List.range stop).map (decode m)).length ≤ fuel by simpa using enough) (a := ()) start
    (fun k r found => by
      rw [Nat.zero_add]
      exact (at_k k r found).2)
  refine ⟨m', returns, keeps, fun k inside => ?_⟩
  rw [← Nat.zero_add k]
  apply records
  rw [threadMap_map, List.map_map, List.getElem?_map, List.getElem?_range inside, Nat.zero_add]
  rfl

end CountedLoop
