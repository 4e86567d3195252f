import DragonUso.Library.DoubleList
import DragonUso.Loader

/-! The handles as a list. The link fields in the heap represent the list of loaded USOs in load
order; every entry point is a change of that list. -/

namespace DragonUso.HandleList
open DoubleList Format Relocation Loader

def links (st : LoaderState) : Links U32 where
  next := nextOf st.heap
  prev := prevOf st.heap
  head := st.head
  tail := st.tail

def contentsOf (heap : Heap) (handle : U32) : Option UsoRecord := (heap.lookup handle).map fun d => d.contents

/-- Following the links of `st` visits `loaded`. -/
structure Represents (st : LoaderState) (loaded : Registry) : Prop where
  linked : IsList 0 (links st) (loaded.map Prod.fst)
  stored : ∀ h ∈ loaded, contentsOf st.heap h.1 = some h.2

theorem Represents.congr {st other : LoaderState} {loaded : Registry} (represents : Represents st loaded)
    (heap : other.heap = st.heap) (head : other.head = st.head) (tail : other.tail = st.tail) :
    Represents other loaded := by
  have same : links other = links st := by simp only [links, heap, head, tail]
  exact ⟨same ▸ represents.linked, heap ▸ represents.stored⟩

theorem Represents.mem_heap {st : LoaderState} {loaded : Registry} (represents : Represents st loaded) {h : U32 × UsoRecord}
    (member : h ∈ loaded) : h.1 ∈ st.heap := by
  rw [← AList.lookup_isSome]
  have found := represents.stored h member
  unfold contentsOf at found
  rw [Option.map_eq_some_iff] at found
  obtain ⟨d, at_h, -⟩ := found
  rw [at_h]
  rfl

/-- Handles are told apart by their addresses. -/
theorem Represents.unique {st : LoaderState} {loaded : Registry} (represents : Represents st loaded)
    {first second : U32 × UsoRecord} (member : first ∈ loaded) (member' : second ∈ loaded)
    (same : first.1 = second.1) : first = second := by
  have found := represents.stored first member
  rw [same, represents.stored second member'] at found
  exact Prod.ext same (Option.some.inj found).symm

theorem Represents.nonnull {st : LoaderState} {loaded : Registry} (represents : Represents st loaded) {h : U32 × UsoRecord}
    (member : h ∈ loaded) : h.1 ≠ 0 := by
  intro zero
  exact represents.linked.nonnull (zero ▸ List.mem_map_of_mem member)

/-! ### Stores into the heap -/

theorem lookup_modifyHandle (heap : Heap) (handle : U32) (change : HandleData → HandleData) (a : U32) :
    (modifyHandle heap handle change).lookup a =
      if a = handle then (heap.lookup a).map change else heap.lookup a := by
  unfold modifyHandle
  by_cases same : a = handle
  · subst same
    cases found : heap.lookup a with
    | none => simp [found]
    | some d => simp
  · cases found : heap.lookup handle with
    | none => simp [same]
    | some d => simp [same, AList.lookup_insert_ne same]

@[simp] theorem mem_modifyHandle {heap : Heap} {handle : U32} {change : HandleData → HandleData} {a : U32} :
    a ∈ modifyHandle heap handle change ↔ a ∈ heap := by
  rw [← AList.lookup_isSome, ← AList.lookup_isSome, lookup_modifyHandle]
  split <;> simp

/-- A field a store does not touch keeps its value in every handle. -/
theorem field_modifyHandle {β : Type} (field : HandleData → β) {change : HandleData → HandleData}
    (kept : ∀ d, field (change d) = field d) (heap : Heap) (handle a : U32) :
    ((modifyHandle heap handle change).lookup a).map field = (heap.lookup a).map field := by
  rw [lookup_modifyHandle]
  split
  · cases heap.lookup a <;> simp [kept]
  · rfl

theorem nextOf_eq (heap : Heap) (a : U32) : nextOf heap a = ((heap.lookup a).map fun d => d.next).getD 0 := by
  unfold nextOf
  cases heap.lookup a <;> rfl

theorem prevOf_eq (heap : Heap) (a : U32) : prevOf heap a = ((heap.lookup a).map fun d => d.prev).getD 0 := by
  unfold prevOf
  cases heap.lookup a <;> rfl

theorem nextOf_setNext {heap : Heap} {handle : U32} (next : U32) (present : handle ∈ heap) :
    nextOf (setNext heap handle next) = Function.update (nextOf heap) handle next := by
  funext a
  rw [nextOf_eq, setNext, lookup_modifyHandle]
  by_cases same : a = handle
  · subst same
    obtain ⟨d, found⟩ := Option.isSome_iff_exists.mp (AList.lookup_isSome.mpr present)
    simp [found]
  · rw [if_neg same, Function.update_of_ne same, nextOf_eq]

theorem prevOf_setPrev {heap : Heap} {handle : U32} (prev : U32) (present : handle ∈ heap) :
    prevOf (setPrev heap handle prev) = Function.update (prevOf heap) handle prev := by
  funext a
  rw [prevOf_eq, setPrev, lookup_modifyHandle]
  by_cases same : a = handle
  · subst same
    obtain ⟨d, found⟩ := Option.isSome_iff_exists.mp (AList.lookup_isSome.mpr present)
    simp [found]
  · rw [if_neg same, Function.update_of_ne same, prevOf_eq]

@[simp] theorem prevOf_setNext (heap : Heap) (handle next : U32) : prevOf (setNext heap handle next) = prevOf heap := by
  funext a
  rw [prevOf_eq, prevOf_eq, setNext, field_modifyHandle]
  exact fun _ => rfl

@[simp] theorem nextOf_setPrev (heap : Heap) (handle prev : U32) : nextOf (setPrev heap handle prev) = nextOf heap := by
  funext a
  rw [nextOf_eq, nextOf_eq, setPrev, field_modifyHandle]
  exact fun _ => rfl

@[simp] theorem contentsOf_setNext (heap : Heap) (handle next : U32) :
    contentsOf (setNext heap handle next) = contentsOf heap := by
  funext a
  rw [contentsOf, contentsOf, setNext, field_modifyHandle]
  exact fun _ => rfl

@[simp] theorem contentsOf_setPrev (heap : Heap) (handle prev : U32) :
    contentsOf (setPrev heap handle prev) = contentsOf heap := by
  funext a
  rw [contentsOf, contentsOf, setPrev, field_modifyHandle]
  exact fun _ => rfl

@[simp] theorem nextOf_setRefCount (heap : Heap) (handle count : U32) :
    nextOf (setRefCount heap handle count) = nextOf heap := by
  funext a
  rw [nextOf_eq, nextOf_eq, setRefCount, field_modifyHandle]
  exact fun _ => rfl

@[simp] theorem prevOf_setRefCount (heap : Heap) (handle count : U32) :
    prevOf (setRefCount heap handle count) = prevOf heap := by
  funext a
  rw [prevOf_eq, prevOf_eq, setRefCount, field_modifyHandle]
  exact fun _ => rfl

theorem contentsOf_setRefCount (heap : Heap) (handle count a : U32) :
    contentsOf (setRefCount heap handle count) a =
      if a = handle then (contentsOf heap a).map fun r => { r with refCount := count } else contentsOf heap a := by
  rw [contentsOf, contentsOf, setRefCount, lookup_modifyHandle]
  split
  · cases heap.lookup a <;> rfl
  · rfl

/-! ### Walking the list -/

theorem walkHandles_eq {st : LoaderState} {loaded : Registry} {before : U32} {fuel : Nat}
    (nonnull : 0 ∉ loaded.map Prod.fst)
    (linked : Segment (nextOf st.heap) (prevOf st.heap) before (loaded.map Prod.fst) 0)
    (stored : ∀ h ∈ loaded, contentsOf st.heap h.1 = some h.2) (enough : loaded.length < fuel) :
    walkHandles st.heap fuel ((loaded.map Prod.fst).headD 0) = .ok loaded := by
  induction loaded generalizing before fuel with
  | nil =>
    obtain ⟨fuel, rfl⟩ := Nat.exists_eq_succ_of_ne_zero (Nat.ne_of_gt enough)
    rfl
  | cons h rest ih =>
    obtain ⟨fuel, rfl⟩ := Nat.exists_eq_succ_of_ne_zero (Nat.ne_of_gt (Nat.lt_of_le_of_lt (Nat.zero_le _) enough))
    rw [List.map_cons] at nonnull linked ⊢
    obtain ⟨-, forth, later⟩ := linked
    have some : h.1 ≠ 0 := fun zero => nonnull (zero ▸ List.mem_cons_self)
    have own := stored h List.mem_cons_self
    unfold contentsOf at own
    obtain ⟨d, found, contents⟩ := Option.map_eq_some_iff.mp own
    have next : d.next = (rest.map Prod.fst).headD 0 := by
      rw [← forth, nextOf, found]
    have tail := ih (fun member => nonnull (List.mem_cons_of_mem _ member)) later
      (fun g member => stored g (List.mem_cons_of_mem _ member)) (Nat.lt_of_succ_lt_succ enough)
    rw [List.headD_cons, walkHandles, if_neg some]
    simp only [found, next, tail, contents]

/-- The loops over the handles see the list that is represented. -/
theorem usoList_eq {st : LoaderState} {loaded : Registry} (represents : Represents st loaded) :
    usoList st = .ok loaded := by
  have subset : loaded.map Prod.fst ⊆ st.heap.keys := by
    intro a member
    obtain ⟨h, inList, rfl⟩ := List.mem_map.mp member
    exact AList.mem_keys.mp (represents.mem_heap inList)
  have size := (List.subperm_of_subset represents.linked.nodup subset).length_le
  rw [List.length_map] at size
  have head := represents.linked.head
  unfold usoList
  rw [show st.head = (loaded.map Prod.fst).headD 0 from head]
  exact walkHandles_eq represents.linked.nonnull represents.linked.segment represents.stored (by omega)

/-- A list the loops saw is the one that is represented. -/
theorem Represents.seen {st : LoaderState} {loaded other : Registry} (represents : Represents st loaded)
    (seen : usoList st = .ok other) : other = loaded := by
  rw [usoList_eq represents] at seen
  exact (Except.ok.inj seen).symm

theorem Represents.eq {st : LoaderState} {first second : Registry} (represents : Represents st first)
    (represents' : Represents st second) : first = second := represents'.seen (usoList_eq represents)

/-! ### Changes of the list -/

/-- The list with the count of one handle replaced. -/
def withRefCount (loaded : Registry) (handle count : U32) : Registry :=
  loaded.map fun h => if h.1 = handle then (h.1, { h.2 with refCount := count }) else h

@[simp] theorem withRefCount_handles (loaded : Registry) (handle count : U32) :
    (withRefCount loaded handle count).map Prod.fst = loaded.map Prod.fst := by
  rw [withRefCount, List.map_map]
  apply List.map_congr_left
  intro h _
  simp only [Function.comp_apply]
  split <;> rfl

theorem Represents.setRefCount {st : LoaderState} {loaded : Registry} (represents : Represents st loaded)
    (handle count : U32) :
    Represents { st with heap := setRefCount st.heap handle count } (withRefCount loaded handle count) := by
  constructor
  · rw [withRefCount_handles]
    have same : links { st with heap := Loader.setRefCount st.heap handle count } = links st := by
      simp only [links, nextOf_setRefCount, prevOf_setRefCount]
    exact same ▸ represents.linked
  · intro g member
    obtain ⟨h, inList, rfl⟩ := List.mem_map.mp member
    simp only [contentsOf_setRefCount]
    by_cases same : h.1 = handle
    · simp only [if_pos same, represents.stored h inList, Option.map_some]
    · simp only [if_neg same, represents.stored h inList]

theorem links_insertUso {st : LoaderState} {handle : U32} (present : handle ∈ st.heap)
    (last : st.tail ≠ 0 → st.tail ∈ st.heap) : links (insertUso st handle) = append 0 (links st) handle := by
  by_cases empty : st.tail = 0
  · have tail : (links st).tail = 0 := empty
    simp only [append, if_pos tail]
    simp only [links, insertUso, if_pos empty, prevOf_setNext]
    rw [nextOf_setNext _ (by simpa [setPrev] using present), prevOf_setPrev _ present, nextOf_setPrev]
  · have tail : ¬ (links st).tail = 0 := empty
    have held := last empty
    simp only [append, if_neg tail]
    simp only [links, insertUso, if_neg empty, prevOf_setNext]
    rw [nextOf_setNext _ (by simpa [setPrev, setNext] using present), prevOf_setPrev _ (by simpa [setNext] using present),
      nextOf_setPrev, nextOf_setNext _ held, prevOf_setNext]

/-- A fresh handle goes to the end of the list. -/
theorem Represents.insertUso {st : LoaderState} {loaded : Registry} (represents : Represents st loaded) {handle : U32}
    (fresh : handle ∉ st.heap) (nonnull : handle ≠ 0) (d : HandleData) :
    Represents (insertUso { st with heap := st.heap.insert handle d } handle) (loaded ++ [(handle, d.contents)]) := by
  have apart : ∀ h ∈ loaded, h.1 ≠ handle := fun h member same => fresh (same ▸ represents.mem_heap member)
  have others : ∀ a ∈ loaded.map Prod.fst, a ≠ handle := by
    intro a member
    obtain ⟨h, inList, rfl⟩ := List.mem_map.mp member
    exact apart h inList
  have kept : IsList 0 (links { st with heap := st.heap.insert handle d }) (loaded.map Prod.fst) := by
    refine ⟨represents.linked.nodup, represents.linked.nonnull, represents.linked.head, represents.linked.tail, ?_⟩
    refine segment_congr (fun a member => ?_) (fun a member => ?_) represents.linked.segment
    · simp only [links, nextOf, AList.lookup_insert_ne (others a member)]
    · simp only [links, prevOf, AList.lookup_insert_ne (others a member)]
  have last : st.tail ≠ 0 → st.tail ∈ st.heap.insert handle d := by
    intro some
    have tail : st.tail = (loaded.map Prod.fst).getLastD 0 := represents.linked.tail
    cases loaded using List.reverseRecOn with
    | nil => exact absurd tail some
    | append_singleton rest h _ =>
      rw [List.map_append, List.map_singleton, List.getLastD_concat] at tail
      rw [tail, AList.mem_insert]
      exact Or.inr (represents.mem_heap (by simp))
  constructor
  · rw [List.map_append, List.map_singleton, links_insertUso ((AList.mem_insert _).mpr (Or.inl rfl)) last]
    exact isList_append kept (fun member => others handle member rfl) nonnull
  · intro h member
    have contents : contentsOf (Loader.insertUso { st with heap := st.heap.insert handle d } handle).heap =
        contentsOf (st.heap.insert handle d) := by
      simp only [Loader.insertUso, contentsOf_setNext, contentsOf_setPrev]
      split <;> simp
    rw [contents]
    rcases List.mem_append.mp member with old | new
    · rw [contentsOf, AList.lookup_insert_ne (apart h old)]
      exact represents.stored h old
    · rw [List.mem_singleton.mp new, contentsOf, AList.lookup_insert]
      rfl

theorem links_removeUso {st : LoaderState} {handle : U32}
    (after : nextOf st.heap handle ≠ 0 → nextOf st.heap handle ∈ st.heap)
    (before : prevOf st.heap handle ≠ 0 → prevOf st.heap handle ∈ st.heap) :
    links (removeUso st handle) = unlink 0 (links st) handle := by
  by_cases last : nextOf st.heap handle = 0
  · have last' : (links st).next handle = 0 := last
    by_cases first : prevOf st.heap handle = 0
    · have first' : (links st).prev handle = 0 := first
      simp only [unlink, if_pos last', if_pos first']
      simp only [links, removeUso, if_pos last, if_pos first]
    · have first' : ¬ (links st).prev handle = 0 := first
      simp only [unlink, if_pos last', if_neg first']
      simp only [links, removeUso, if_pos last, if_neg first, prevOf_setNext]
      rw [nextOf_setNext _ (before first)]
  · have last' : ¬ (links st).next handle = 0 := last
    by_cases first : prevOf st.heap handle = 0
    · have first' : (links st).prev handle = 0 := first
      simp only [unlink, if_neg last', if_pos first']
      simp only [links, removeUso, if_neg last, if_pos first, nextOf_setPrev]
      rw [prevOf_setPrev _ (after last)]
    · have first' : ¬ (links st).prev handle = 0 := first
      simp only [unlink, if_neg last', if_neg first']
      simp only [links, removeUso, if_neg last, if_neg first, prevOf_setNext]
      rw [nextOf_setNext _ (by simpa [setPrev] using before first), nextOf_setPrev, prevOf_setPrev _ (after last)]

/-- The list without one handle. -/
def without (loaded : Registry) (handle : U32) : Registry := loaded.filter fun h => h.1 ≠ handle

theorem without_eq {xs ys : Registry} {h : U32 × UsoRecord} (nodup : ((xs ++ h :: ys).map Prod.fst).Nodup) :
    without (xs ++ h :: ys) h.1 = xs ++ ys := by
  rw [List.map_append, List.map_cons, List.nodup_append] at nodup
  obtain ⟨-, rear, apart⟩ := nodup
  have front : ∀ g ∈ xs, g.1 ≠ h.1 := fun g member =>
    apart g.1 (List.mem_map_of_mem member) h.1 List.mem_cons_self
  have back : ∀ g ∈ ys, g.1 ≠ h.1 := fun g member same =>
    (List.nodup_cons.mp rear).1 (same ▸ List.mem_map_of_mem member)
  rw [without, List.filter_append, List.filter_cons_of_neg (by simp),
    List.filter_eq_self.mpr fun g member => by simpa using front g member,
    List.filter_eq_self.mpr fun g member => by simpa using back g member]

/-- Unlinking and freeing a handle takes it out of the list. -/
theorem Represents.removeUso {st : LoaderState} {loaded : Registry} (represents : Represents st loaded)
    {h : U32 × UsoRecord} (member : h ∈ loaded) :
    Represents { removeUso st h.1 with heap := (removeUso st h.1).heap.erase h.1 } (without loaded h.1) := by
  obtain ⟨xs, ys, rfl⟩ := List.append_of_mem member
  have nodup := represents.linked.nodup
  have linked := represents.linked
  rw [without_eq nodup]
  rw [List.map_append, List.map_cons] at linked nodup
  obtain ⟨-, back, forth, -⟩ := (segment_append _ _).mp linked.segment
  have after : nextOf st.heap h.1 ≠ 0 → nextOf st.heap h.1 ∈ st.heap := by
    intro some
    have next : nextOf st.heap h.1 = (ys.map Prod.fst).headD 0 := forth
    rw [next] at some ⊢
    cases ys with
    | nil => exact absurd rfl some
    | cons g rest => exact represents.mem_heap (by simp)
  have before : prevOf st.heap h.1 ≠ 0 → prevOf st.heap h.1 ∈ st.heap := by
    intro some
    have prev : prevOf st.heap h.1 = (xs.map Prod.fst).getLastD 0 := back
    rw [prev] at some ⊢
    cases xs using List.reverseRecOn with
    | nil => exact absurd rfl some
    | append_singleton rest g _ =>
      rw [List.map_append, List.map_singleton, List.getLastD_concat]
      exact represents.mem_heap (by simp)
  have unlinked := isList_unlink linked
  have same := links_removeUso after before
  have others : ∀ a ∈ (xs ++ ys).map Prod.fst, a ≠ h.1 := by
    intro a inRest same
    obtain ⟨-, rear, apart⟩ := List.nodup_append.mp nodup
    rw [List.map_append] at inRest
    rcases List.mem_append.mp inRest with front | later
    · exact apart a front h.1 List.mem_cons_self same
    · exact (List.nodup_cons.mp rear).1 (same ▸ later)
  rw [List.map_append] at others
  constructor
  · rw [List.map_append]
    rw [← show links st = links st from rfl, ← same] at unlinked
    refine ⟨unlinked.nodup, unlinked.nonnull, unlinked.head, unlinked.tail, ?_⟩
    refine segment_congr (fun a inRest => ?_) (fun a inRest => ?_) unlinked.segment
    · simp only [links, nextOf, AList.lookup_erase_ne (others a inRest)]
    · simp only [links, prevOf, AList.lookup_erase_ne (others a inRest)]
  · intro g inRest
    have other : g.1 ≠ h.1 := others g.1 (by rw [← List.map_append]; exact List.mem_map_of_mem inRest)
    have contents : contentsOf (Loader.removeUso st h.1).heap = contentsOf st.heap := by
      simp only [Loader.removeUso]
      split <;> split <;> simp
    simp only [contentsOf, AList.lookup_erase_ne other]
    change contentsOf (Loader.removeUso st h.1).heap g.1 = some g.2
    rw [contents]
    rcases List.mem_append.mp inRest with front | later
    · exact represents.stored g (List.mem_append_left _ front)
    · exact represents.stored g (List.mem_append_right _ (List.mem_cons_of_mem _ later))

end DragonUso.HandleList
