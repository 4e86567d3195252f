import DragonUso.Library.UseCount
import DragonUso.OpenBinding

/-! The list of handles and the reference counts against the history of the calls: which handles a
load returned and no close has unloaded since, and how often each was opened and closed. -/

namespace DragonUso.ListConsistency
open DoubleList UseCount WordMemory Format LoaderImage Relocation SymbolSearch Loader HandleList LoaderSteps OpenBinding Runs

/-! ### Runs with their history -/

/-- For each handle that is loaded, the opens and closes since its load. -/
abbrev Uses := U32 → Option (List Use)

def addUse (uses : Uses) (handle : U32) (use : Use) : Uses :=
  Function.update uses handle ((uses handle).map fun before => before ++ [use])

/-- A load starts the history of its handle, a successful open of a loaded name goes on with it. -/
def recordOpen (loaded : Registry) (filename : Bytes) (handle : U32) (uses : Uses) : Uses :=
  if handle = 0 then uses
  else if usoGetHandle loaded filename = 0 then Function.update uses handle (some [.opened])
  else addUse uses handle .opened

/-- A close that frees the handle ends its history. -/
def recordClose (before after : List Event) (handle : U32) (uses : Uses) : Uses :=
  if .freed handle ∈ after.drop before.length then Function.update uses handle none else addUse uses handle .closed

structure Tracked where
  state : LoaderState
  uses : Uses

/-- A call that returns, on files of any content, with the history it adds. -/
inductive TrackedStep : Tracked → Call → Tracked → Prop where
  | opened {t : Tracked} {st' : LoaderState} {loaded : Registry} {filename : Bytes} {file : Option Bytes}
      {alloc : Allocation} {handle : U32} : (∀ bytes, file = some bytes → FreshHandle t.state alloc.handle) →
    usoList t.state = .ok loaded → usoOpen t.state filename file alloc = .ok (st', handle) →
    TrackedStep t (.usoOpen filename file alloc) ⟨st', recordOpen loaded filename handle t.uses⟩
  | closed {t : Tracked} {st' : LoaderState} {handle : U32} : usoClose t.state handle = .ok st' →
    TrackedStep t (.usoClose handle) ⟨st', recordClose t.state.events st'.events handle t.uses⟩

/-- Nothing is loaded after `uso_init`. -/
def trackedStart (memory : Memory) (globalSymFile : Bytes) : Tracked :=
  ⟨initialState memory globalSymFile, fun _ => none⟩

/-! ### The invariant -/

def nameOf (h : U32 × UsoRecord) : Bytes := h.2.name

/-- What keeps through every call, whatever the counts do. -/
structure Listed (t : Tracked) (loaded : Registry) : Prop where
  state : ListedState t.state loaded
  names : (loaded.map nameOf).Nodup
  live : ∀ a, (t.uses a).isSome ↔ a ∈ loaded.map Prod.fst

/-- The count of a loaded USO is the tally of its history. -/
def CountsMatch (uses : Uses) (loaded : Registry) : Prop :=
  ∀ h ∈ loaded, ∃ own, uses h.1 = some own ∧ h.2.refCount.toNat = tally own

@[simp] theorem withRefCount_names (loaded : Registry) (handle count : U32) :
    (withRefCount loaded handle count).map nameOf = loaded.map nameOf := by
  rw [withRefCount, List.map_map]
  apply List.map_congr_left
  intro h _
  simp only [Function.comp_apply]
  split <;> rfl

theorem isSome_addUse (uses : Uses) (handle : U32) (use : Use) (a : U32) :
    (addUse uses handle use a).isSome = (uses a).isSome := by
  unfold addUse
  by_cases own : a = handle
  · rw [own, Function.update_self, Option.isSome_map]
  · rw [Function.update_of_ne own]

/-- One more use of a handle whose new count is the new tally. -/
theorem CountsMatch.addUse {uses : Uses} {loaded : Registry} (matched : CountsMatch uses loaded) {handle count : U32}
    {use : Use} (tallied : ∀ own, uses handle = some own → count.toNat = counted (tally own) use) :
    CountsMatch (addUse uses handle use) (withRefCount loaded handle count) := by
  intro g member
  obtain ⟨h, inList, same, contents⟩ := mem_withRefCount.mp member
  obtain ⟨own, history, number⟩ := matched h inList
  rw [same, contents]
  unfold ListConsistency.addUse
  by_cases ours : h.1 = handle
  · rw [if_pos ours, ours, Function.update_self]
    rw [ours] at history
    exact ⟨own ++ [use], by rw [history]; rfl, by rw [tally_concat]; exact tallied own history⟩
  · rw [if_neg ours, Function.update_of_ne ours]
    exact ⟨own, history, number⟩

/-- A handle of its own starts with one opening. -/
theorem CountsMatch.added {uses : Uses} {loaded : Registry} (matched : CountsMatch uses loaded) {handle : U32}
    (fresh : ∀ h ∈ loaded, h.1 ≠ handle) {r : UsoRecord} (one : r.refCount = 1) :
    CountsMatch (Function.update uses handle (some [.opened])) (loaded ++ [(handle, r)]) := by
  intro h member
  rcases List.mem_append.mp member with old | new
  · rw [Function.update_of_ne (fresh h old)]
    exact matched h old
  · rw [List.mem_singleton.mp new, Function.update_self, one]
    exact ⟨_, rfl, rfl⟩

theorem CountsMatch.without {uses : Uses} {loaded : Registry} (matched : CountsMatch uses loaded) (handle : U32) :
    CountsMatch (Function.update uses handle none) (without loaded handle) := by
  intro h inRest
  obtain ⟨member, other⟩ := mem_without.mp inRest
  rw [Function.update_of_ne other]
  exact matched h member

theorem closedCount_toNat (count : U32) : (closedCount count).toNat = count.toNat - 1 := by
  have one : (1 : U32).toNat = 1 := rfl
  unfold closedCount
  split
  next some =>
    have positive : count.toNat ≠ 0 := fun zero => some (BitVec.eq_of_toNat_eq zero)
    rw [BitVec.toNat_sub_of_le (by rw [BitVec.le_def, one]; omega), one]
  next zero =>
    rw [Decidable.not_not.mp zero]
    rfl

/-- Where the counter of a reopened USO has room for one more. -/
def RoomFor (loaded : Registry) : Call → Prop
  | .usoOpen filename _ _ => ∀ h ∈ loaded, h.1 = usoGetHandle loaded filename → h.2.refCount ≠ 0xFFFFFFFF
  | .usoClose _ => True

theorem succ_toNat_iff (count : U32) : (count + 1).toNat = count.toNat + 1 ↔ count ≠ 0xFFFFFFFF := by
  have one : (1 : U32).toNat = 1 := rfl
  have top : (0xFFFFFFFF : U32).toNat = 2 ^ 32 - 1 := rfl
  have bound := count.isLt
  rw [BitVec.toNat_add, one]
  constructor
  · rintro exact_ rfl
    rw [top] at exact_
    cases exact_
  · intro below
    have small : count.toNat ≠ 2 ^ 32 - 1 := fun same => below (BitVec.eq_of_toNat_eq (same.trans top.symm))
    exact Nat.mod_eq_of_lt (by omega)

theorem mem_handles_withRefCount {loaded : Registry} {handle count a : U32} :
    a ∈ (withRefCount loaded handle count).map Prod.fst ↔ a ∈ loaded.map Prod.fst := by
  rw [withRefCount_handles]

/-- A return of `uso_open` keeps the list in order; the counts go on matching while there is room. -/
theorem OpenResult.listed {t : Tracked} {st' : LoaderState} {loaded loaded' : Registry} {filename : Bytes}
    {file : Option Bytes} {alloc : Allocation} {handle : U32} (listed : Listed t loaded)
    (fresh : ∀ bytes, file = some bytes → FreshHandle t.state alloc.handle)
    (result : OpenResult t.state loaded filename file alloc st' handle loaded') (state : ListedState st' loaded') :
    Listed ⟨st', recordOpen loaded filename handle t.uses⟩ loaded' ∧
      (CountsMatch t.uses loaded →
        (CountsMatch (recordOpen loaded filename handle t.uses) loaded' ↔ RoomFor loaded (.usoOpen filename file alloc))) := by
  have none : NotLoaded loaded filename → usoGetHandle loaded filename = 0 :=
    (usoGetHandle_eq_zero listed.state.represents).mpr
  have room : NotLoaded loaded filename → RoomFor loaded (.usoOpen filename file alloc) := by
    intro notLoaded h member same
    exact absurd (same.trans (none notLoaded)) (listed.state.represents.nonnull member)
  cases result with
  | reopened h member named found =>
    have nonnull := listed.state.represents.nonnull member
    have recorded : recordOpen loaded filename h.1 t.uses = addUse t.uses h.1 .opened := by
      rw [recordOpen, if_neg nonnull, if_neg (found ▸ nonnull)]
    rw [recorded]
    refine ⟨⟨state, by rw [withRefCount_names]; exact listed.names, fun a => ?_⟩, fun matched => ⟨?_, ?_⟩⟩
    · rw [isSome_addUse, mem_handles_withRefCount]
      exact listed.live a
    · intro after g inList same
      obtain rfl := listed.state.represents.unique inList member (same.trans found.symm)
      obtain ⟨own, history, number⟩ := matched g inList
      obtain ⟨later, history', number'⟩ := after _ (mem_withRefCount_self inList (g.2.refCount + 1))
      simp only [addUse, Function.update_self, history, Option.map_some, Option.some.injEq] at history'
      rw [← succ_toNat_iff, number', ← history', tally_concat, number]
      rfl
    · intro fits
      refine matched.addUse fun own history => ?_
      obtain ⟨own', history', number⟩ := matched h member
      rw [history, Option.some.injEq] at history'
      rw [(succ_toNat_iff _).mpr (fits h member found), number, history']
      rfl
  | missing notLoaded _ =>
    rw [recordOpen, if_pos rfl]
    exact ⟨⟨state, listed.names, listed.live⟩, fun matched => ⟨fun _ => room notLoaded, fun _ => matched⟩⟩
  | unresolved bytes notLoaded _ _ =>
    rw [recordOpen, if_pos rfl]
    exact ⟨⟨state, listed.names, listed.live⟩, fun matched => ⟨fun _ => room notLoaded, fun _ => matched⟩⟩
  | opened bytes linked next notLoaded found =>
    have own := fresh bytes found
    have apart : ∀ h ∈ loaded, h.1 ≠ alloc.handle := fun h member same =>
      own.fresh (same ▸ listed.state.represents.mem_heap member)
    rw [recordOpen, if_neg own.nonnull, if_pos (none notLoaded)]
    refine ⟨⟨state, ?_, fun a => ?_⟩, fun matched => ⟨fun _ => room notLoaded, fun _ => matched.added apart rfl⟩⟩
    · rw [List.map_append, List.nodup_append]
      refine ⟨listed.names, List.nodup_singleton _, ?_⟩
      intro name taken other new same
      obtain ⟨h, member, rfl⟩ := List.mem_map.mp taken
      rw [List.map_singleton, List.mem_singleton] at new
      exact notLoaded h member (same.trans new)
    · rw [List.map_append, List.mem_append, List.map_singleton, List.mem_singleton, ← listed.live a]
      by_cases ours : a = alloc.handle
      · simp only [ours, Function.update_self, Option.isSome_some, or_true]
      · simp only [Function.update_of_ne ours, ours, or_false]

/-- A return of `uso_close` keeps the list in order and the counts matching. -/
theorem CloseResult.listed {t : Tracked} {st' : LoaderState} {loaded loaded' : Registry} {handle : U32}
    (listed : Listed t loaded) (result : CloseResult t.state loaded handle st' loaded')
    (state : ListedState st' loaded') :
    Listed ⟨st', recordClose t.state.events st'.events handle t.uses⟩ loaded' ∧
      (CountsMatch t.uses loaded → CountsMatch (recordClose t.state.events st'.events handle t.uses) loaded') := by
  cases result with
  | kept r closeable member =>
    have recorded : recordClose t.state.events t.state.events handle t.uses = addUse t.uses handle .closed := by
      rw [recordClose, List.drop_length, if_neg List.not_mem_nil]
    rw [recorded]
    refine ⟨⟨state, by rw [withRefCount_names]; exact listed.names, fun a => ?_⟩, fun matched => ?_⟩
    · rw [isSome_addUse, mem_handles_withRefCount]
      exact listed.live a
    · refine matched.addUse fun own history => ?_
      obtain ⟨own', history', number⟩ := matched _ member
      rw [history, Option.some.injEq] at history'
      rw [closedCount_toNat, number, history']
      rfl
  | unloaded r next member closes counted unloaded =>
    have counting := listed.state.setRefCount handle (closedCount r.refCount)
    obtain ⟨-, -, -, events, -, added⟩ :=
      unloadUso_returned counting (mem_withRefCount_self member (closedCount r.refCount)) unloaded
    have freed : .freed handle ∈ st'.events.drop t.state.events.length := by
      rw [added, List.append_assoc, List.drop_left]
      simp
    rw [recordClose, if_pos freed]
    refine ⟨⟨state, ?_, fun a => ?_⟩, fun matched => matched.without handle⟩
    · exact listed.names.sublist (List.filter_sublist.map nameOf)
    · by_cases ours : a = handle
      · simp only [ours, Function.update_self, Option.isSome_none, Bool.false_eq_true, false_iff]
        intro still
        obtain ⟨h, inRest, same⟩ := List.mem_map.mp still
        exact (mem_without.mp inRest).2 same
      · simp only [Function.update_of_ne ours, listed.live a, List.mem_map, mem_without]
        constructor
        · rintro ⟨h, member', same⟩
          exact ⟨h, ⟨member', same ▸ ours⟩, same⟩
        · rintro ⟨h, ⟨member', -⟩, same⟩
          exact ⟨h, member', same⟩

/-- The condition on a call, for the list it is made with. -/
def RoomAt (t : Tracked) (call : Call) : Prop := ∀ loaded, usoList t.state = .ok loaded → RoomFor loaded call

/-- What one call does to the list and to the counts. -/
theorem trackedStep_listed {t t' : Tracked} {loaded : Registry} (listed : Listed t loaded) {call : Call}
    (step : TrackedStep t call t') :
    ∃ loaded', Listed t' loaded' ∧ (CountsMatch t.uses loaded → (CountsMatch t'.uses loaded' ↔ RoomAt t call)) := by
  have follows := usoList_eq listed.state.represents
  have room : ∀ call, RoomAt t call ↔ RoomFor loaded call := by
    intro call
    unfold RoomAt
    simp [follows]
  cases step with
  | @opened st' loaded₀ filename file alloc handle fresh seen returned =>
    obtain rfl := listed.state.represents.seen seen
    obtain ⟨loaded', result, state⟩ := usoOpen_result listed.state fresh returned
    obtain ⟨kept, counts⟩ := OpenResult.listed listed fresh result state
    exact ⟨loaded', kept, fun matched => by rw [room]; exact counts matched⟩
  | closed returned =>
    obtain ⟨loaded', result, state⟩ := usoClose_result listed.state returned
    obtain ⟨kept, counts⟩ := CloseResult.listed listed result state
    exact ⟨loaded', kept, fun matched => by rw [room]; exact ⟨fun _ => trivial, fun _ => counts matched⟩⟩

/-! ### Consistency -/

theorem usoIsHandleValid_iff {st : LoaderState} {loaded : Registry} (listed : ListedState st loaded) (a : U32) :
    usoIsHandleValid st a = .ok true ↔ a ∈ loaded.map Prod.fst := by
  unfold usoIsHandleValid
  simp only [usoList_eq listed.represents, Except.ok.injEq, List.any_eq_true, beq_iff_eq, List.mem_map]

/-- The list, the names, the validity of handles and the counts agree with each other and with the
history of the calls. -/
structure Consistent (t : Tracked) (loaded : Registry) : Prop where
  forward : ∀ fuel, loaded.length < fuel →
    follow (nextOf t.state.heap) 0 fuel t.state.head = loaded.map Prod.fst
  backward : ∀ fuel, loaded.length < fuel →
    follow (prevOf t.state.heap) 0 fuel t.state.tail = (loaded.map Prod.fst).reverse
  handles : (loaded.map Prod.fst).Nodup
  names : (loaded.map nameOf).Nodup
  valid : ∀ a, usoIsHandleValid t.state a = .ok true ↔ (t.uses a).isSome
  counts : CountsMatch t.uses loaded
  kept : ∀ a own b st', t.uses a = some own → usoClose t.state b = .ok st' →
    (b = a → own.count .closed + 1 < own.count .opened) → usoIsHandleValid st' a = .ok true
  reopened : ∀ h ∈ loaded, ∀ file alloc, ∃ st' loaded', usoOpen t.state h.2.name file alloc = .ok (st', h.1) ∧
    usoList st' = .ok loaded' ∧ loaded'.map Prod.fst = loaded.map Prod.fst ∧
    st'.memory = t.state.memory ∧ st'.events = t.state.events

/-- A USO with more opens than closes has a count above one before a close. -/
theorem kept_of_counts {t : Tracked} {loaded : Registry} (listed : Listed t loaded) (matched : CountsMatch t.uses loaded)
    {a b : U32} {own : List Use} (history : t.uses a = some own) {st' : LoaderState}
    (returned : usoClose t.state b = .ok st') (more : b = a → own.count .closed + 1 < own.count .opened) :
    usoIsHandleValid st' a = .ok true := by
  have live : a ∈ loaded.map Prod.fst := (listed.live a).mp (by rw [history]; rfl)
  obtain ⟨loaded', result, state⟩ := usoClose_result listed.state returned
  rw [usoIsHandleValid_iff state]
  cases result with
  | kept r => exact mem_handles_withRefCount.mpr live
  | unloaded r next member closes counted unloaded =>
    obtain ⟨h, inList, rfl⟩ := List.mem_map.mp live
    refine List.mem_map.mpr ⟨h, mem_without.mpr ⟨inList, fun same => ?_⟩, rfl⟩
    obtain rfl : h = (b, r) := listed.state.represents.unique inList member same
    obtain ⟨own', history', number⟩ := matched _ member
    rw [history, Option.some.injEq] at history'
    have few := congrArg BitVec.toNat counted
    have zero : (0 : U32).toNat = 0 := rfl
    rw [closedCount_toNat, number, ← history', zero] at few
    have opens := opened_le_tally own
    have order := more rfl
    omega

/-- With names told apart a name finds its own handle. -/
theorem usoGetHandle_name {st : LoaderState} {loaded : Registry} (represents : Represents st loaded)
    (names : (loaded.map nameOf).Nodup) {h : U32 × UsoRecord} (member : h ∈ loaded) :
    usoGetHandle loaded h.2.name = h.1 := by
  have already : usoGetHandle loaded h.2.name ≠ 0 := fun none => (usoGetHandle_eq_zero represents).mp none h member rfl
  obtain ⟨g, inList, named, found⟩ := usoGetHandle_found already
  obtain rfl : g = h := List.inj_on_of_nodup_map names inList member named
  exact found.symm

theorem usoOpen_loaded {st : LoaderState} {loaded : Registry} (listed : ListedState st loaded)
    (names : (loaded.map nameOf).Nodup) {h : U32 × UsoRecord} (member : h ∈ loaded) (file : Option Bytes)
    (alloc : Allocation) :
    usoOpen st h.2.name file alloc =
      .ok ({ st with heap := setRefCount st.heap h.1 (h.2.refCount + 1) }, h.1) := by
  have found := usoGetHandle_name listed.represents names member
  obtain ⟨d, stored, contents⟩ := lookup_contents listed.represents member
  have initted : ¬ st.initted = false := by simp [listed.initted]
  rw [← found] at stored ⊢
  unfold usoOpen
  simp only [if_neg initted, usoList_eq listed.represents, if_pos (found ▸ listed.represents.nonnull member), stored,
    contents]

theorem consistent_iff {t : Tracked} {loaded : Registry} (listed : Listed t loaded) :
    Consistent t loaded ↔ CountsMatch t.uses loaded := by
  refine ⟨Consistent.counts, fun matched => ?_⟩
  have linked := listed.state.represents.linked
  have both := fun fuel (enough : loaded.length < fuel) =>
    linked.follow (lt_of_eq_of_lt (List.length_map _) enough)
  refine
    { forward := fun fuel enough => (both fuel enough).1
      backward := fun fuel enough => (both fuel enough).2
      handles := linked.nodup
      names := listed.names
      valid := fun a => by rw [usoIsHandleValid_iff listed.state, listed.live a]
      counts := matched
      kept := fun a own b st' history returned more => kept_of_counts listed matched history returned more
      reopened := ?_ }
  intro h member file alloc
  have state := listed.state.setRefCount h.1 (h.2.refCount + 1)
  exact ⟨_, _, usoOpen_loaded listed.state listed.names member file alloc, usoList_eq state.represents,
    withRefCount_handles _ _ _, rfl, rfl⟩

/-! ### Runs -/

theorem start_listed (memory : Memory) (globalSymFile : Bytes) : Listed (trackedStart memory globalSymFile) [] where
  state := initialState_listed memory globalSymFile
  names := List.nodup_nil
  live := by simp [trackedStart]

/-- As long as every reopened count has room, list, names, handles and counts are consistent in every
state of the run; the first open that finds the counter full makes them disagree. -/
theorem consistent_of_room {memory : Memory} {globalSymFile : Bytes} {calls : List Call} {t : Tracked}
    (always : Always TrackedStep RoomAt (trackedStart memory globalSymFile) calls t) {loaded : Registry}
    (follows : usoList t.state = .ok loaded) :
    Consistent t loaded ∧
    ∀ call t' loaded', TrackedStep t call t' → usoList t'.state = .ok loaded' →
      (Consistent t' loaded' ↔ RoomAt t call) := by
  obtain ⟨loaded₀, listed, matched⟩ := always.invariant
    (P := fun t => ∃ loaded, Listed t loaded ∧ CountsMatch t.uses loaded)
    (by
      rintro s call s' step room ⟨before, listed, matched⟩
      obtain ⟨after, listed', counts⟩ := trackedStep_listed listed step
      exact ⟨after, listed', (counts matched).mpr room⟩)
    ⟨[], start_listed memory globalSymFile, fun _ member => absurd member List.not_mem_nil⟩
  obtain rfl := listed.state.represents.seen follows
  refine ⟨(consistent_iff listed).mpr matched, fun call t' loaded' step follows' => ?_⟩
  obtain ⟨after, listed', counts⟩ := trackedStep_listed listed step
  obtain rfl := listed'.state.represents.seen follows'
  rw [consistent_iff listed']
  exact counts matched

/-- Nothing is reopened by the first call. -/
theorem roomAt_start (call : Call) : RoomAt (trackedStart (fun _ => 0) []) call := by
  have none : usoList (trackedStart (fun _ => 0) []).state = .ok [] := by decide +kernel
  intro loaded follows
  rw [none, Except.ok.injEq] at follows
  subst follows
  cases call with
  | usoOpen => exact fun _ member => absurd member List.not_mem_nil
  | usoClose => trivial

theorem consistent_of_room_library :
    Consistent ⟨libraryOpen, recordOpen [] [108] 0x80100000 fun _ => none⟩ (loadedAt libraryOpen) ∧
    ∀ call t' loaded', TrackedStep ⟨libraryOpen, recordOpen [] [108] 0x80100000 fun _ => none⟩ call t' →
      usoList t'.state = .ok loaded' →
        (Consistent t' loaded' ↔ RoomAt ⟨libraryOpen, recordOpen [] [108] 0x80100000 fun _ => none⟩ call) := by
  have none : usoList (trackedStart (fun _ => 0) []).state = .ok [] := by decide +kernel
  have step := TrackedStep.opened (t := trackedStart (fun _ => 0) []) (fun _ _ => libraryAlloc_fresh.freshHandle) none
    usoOpen_library
  exact consistent_of_room (.next step (roomAt_start _) (.done _)) (usoList_loadedAt (by decide +kernel))

/-! The library opened again and again. -/

def reopenCalls (n : Nat) : List Call :=
  .usoOpen [108] (some libraryFile) libraryAlloc :: List.replicate n (.usoOpen [108] none libraryAlloc)

theorem reopenCalls_succ (n : Nat) : reopenCalls (n + 1) = reopenCalls n ++ [.usoOpen [108] none libraryAlloc] := by
  rw [reopenCalls, List.replicate_succ', reopenCalls, List.cons_append]

/-- Opening a loaded USO again adds one to its count. -/
theorem reopen_step {t : Tracked} {loaded : Registry} (listed : Listed t loaded) {h : U32 × UsoRecord}
    (member : h ∈ loaded) (alloc : Allocation) :
    ∃ t', TrackedStep t (.usoOpen h.2.name none alloc) t' ∧
      Listed t' (withRefCount loaded h.1 (h.2.refCount + 1)) := by
  have returned := usoOpen_loaded listed.state listed.names member none alloc
  have step := TrackedStep.opened (t := t) (by simp) (usoList_eq listed.state.represents) returned
  obtain ⟨loaded', listed', -⟩ := trackedStep_listed listed step
  obtain rfl := listed'.state.represents.eq (listed.state.setRefCount h.1 (h.2.refCount + 1)).represents
  exact ⟨_, step, listed'⟩

/-- A run of opens that counts as far as the counter goes. -/
theorem reopened {n : Nat} (small : n + 1 < 2 ^ 32) :
    ∃ t loaded r, Run TrackedStep (trackedStart (fun _ => 0) []) (reopenCalls n) t ∧ Listed t loaded ∧
      CountsMatch t.uses loaded ∧ (0x80100000, r) ∈ loaded ∧ r.name = [108] ∧ r.refCount.toNat = n + 1 := by
  induction n with
  | zero =>
    have none : usoList (trackedStart (fun _ => 0) []).state = .ok [] := by decide +kernel
    have step := TrackedStep.opened (t := trackedStart (fun _ => 0) []) (fun _ _ => libraryAlloc_fresh.freshHandle) none
      usoOpen_library
    obtain ⟨loaded, listed, counts⟩ := trackedStep_listed (start_listed _ _) step
    have matched := (counts fun _ member => absurd member List.not_mem_nil).mpr (roomAt_start _)
    have present : ∃ h ∈ loadedAt libraryOpen, h.1 = 0x80100000 ∧ h.2.name = [108] ∧ h.2.refCount = 1 := by decide +kernel
    have follows : usoList libraryOpen = .ok (loadedAt libraryOpen) := usoList_loadedAt (by decide +kernel)
    rw [listed.state.represents.seen follows] at present
    obtain ⟨⟨handle, r⟩, member, rfl, named, one⟩ := present
    exact ⟨_, loaded, r, .next step (.done _), listed, matched, member, named, by rw [one]; rfl⟩
  | succ n ih =>
    obtain ⟨t, loaded, r, run, listed, matched, member, named, count⟩ := ih (by omega)
    obtain ⟨t', step, listed'⟩ := reopen_step listed member libraryAlloc
    have room : r.refCount ≠ 0xFFFFFFFF := by
      intro full
      have top : (0xFFFFFFFF : U32).toNat = 2 ^ 32 - 1 := rfl
      rw [full, top] at count
      omega
    have counts : CountsMatch t'.uses (withRefCount loaded 0x80100000 (r.refCount + 1)) := by
      obtain ⟨after, again, counts⟩ := trackedStep_listed listed step
      obtain rfl := again.state.represents.eq listed'.state.represents
      refine (counts matched).mpr fun seen follows g inList same => ?_
      obtain rfl := listed.state.represents.seen follows
      rw [usoGetHandle_name listed.state.represents listed.names member] at same
      obtain rfl := listed.state.represents.unique inList member same
      exact room
    rw [named] at step
    refine ⟨t', _, { r with refCount := r.refCount + 1 }, ?_, listed', counts, mem_withRefCount_self member _, named, ?_⟩
    · rw [reopenCalls_succ]
      exact run.append (.next step (.done _))
    · change (r.refCount + 1).toNat = n + 1 + 1
      rw [(succ_toNat_iff _).mpr room, count]

/-- The open after that finds the counter full. -/
theorem reopened_full {n : Nat} (full : n + 2 = 2 ^ 32) :
    ∃ t loaded, Run TrackedStep (trackedStart (fun _ => 0) []) (reopenCalls (n + 1)) t ∧
      usoList t.state = .ok loaded ∧ ¬ Consistent t loaded := by
  obtain ⟨t, loaded, r, run, listed, matched, member, named, count⟩ := reopened (n := n) (by omega)
  obtain ⟨t', step, listed'⟩ := reopen_step listed member libraryAlloc
  obtain ⟨after, again, counts⟩ := trackedStep_listed listed step
  obtain rfl := again.state.represents.eq listed'.state.represents
  refine ⟨t', _, ?_, usoList_eq listed'.state.represents, ?_⟩
  · rw [named] at step
    rw [reopenCalls_succ]
    exact run.append (.next step (.done _))
  · rw [consistent_iff listed', counts matched]
    intro room
    have top : (0xFFFFFFFF : U32).toNat = 2 ^ 32 - 1 := rfl
    refine room loaded (usoList_eq listed.state.represents) _ member ?_ (BitVec.eq_of_toNat_eq ?_)
    · exact (usoGetHandle_name listed.state.represents listed.names member).symm
    · rw [top]
      change r.refCount.toNat = _
      omega

/-- After as many opens as the counter has values the count is zero, and the history says otherwise. -/
theorem reopened_wraps :
    ∃ t loaded, Run TrackedStep (trackedStart (fun _ => 0) []) (reopenCalls (2 ^ 32 - 1)) t ∧
      usoList t.state = .ok loaded ∧ ¬ Consistent t loaded := by
  have last : 2 ^ 32 - 1 = 2 ^ 32 - 2 + 1 := by decide
  rw [last]
  exact reopened_full (by decide)

end DragonUso.ListConsistency
