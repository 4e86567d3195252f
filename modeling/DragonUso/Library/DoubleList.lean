import Mathlib.Data.List.Induction
import Mathlib.Data.List.Nodup
import Mathlib.Logic.Function.Basic

/-! Doubly linked lists kept in link fields. The nodes and a null are values of one type, and the
list is what following `next` from the head visits. Appending and unlinking a node by hand
change the visited list as they should. -/

namespace DoubleList

variable {α : Type}

/-- The link fields of every node, and the two ends of the list. -/
structure Links (α : Type) where
  next : α → α
  prev : α → α
  head : α
  tail : α

/-- `nodes` are linked both ways between the neighbours `before` and `after`. -/
def Segment (next prev : α → α) : α → List α → α → Prop
  | _, [], _ => True
  | before, a :: rest, after => prev a = before ∧ next a = rest.headD after ∧ Segment next prev a rest after

structure IsList (null : α) (links : Links α) (nodes : List α) : Prop where
  nodup : nodes.Nodup
  nonnull : null ∉ nodes
  head : links.head = nodes.headD null
  tail : links.tail = nodes.getLastD null
  segment : Segment links.next links.prev null nodes null

variable {next prev next' prev' : α → α} {null before after : α}

theorem segment_append (xs ys : List α) :
    Segment next prev before (xs ++ ys) after ↔
      Segment next prev before xs (ys.headD after) ∧ Segment next prev (xs.getLastD before) ys after := by
  induction xs generalizing before with
  | nil => simp [Segment]
  | cons x xs ih =>
    have joint : (xs ++ ys).headD after = xs.headD (ys.headD after) := by cases xs <;> rfl
    rw [List.cons_append, Segment, Segment, ih, joint, List.getLastD_cons]
    simp only [and_assoc]

/-- Read from the other end a segment is linked the other way. -/
theorem segment_reverse {nodes : List α} (linked : Segment next prev before nodes after) :
    Segment prev next after nodes.reverse before := by
  induction nodes generalizing before with
  | nil => trivial
  | cons a rest ih =>
    obtain ⟨back, forth, later⟩ := linked
    have last : rest.reverse.getLastD after = rest.headD after := by cases rest <;> simp
    rw [List.reverse_cons, segment_append]
    exact ⟨ih later, by rw [forth, last], by rw [back]; rfl, trivial⟩

/-- Only the fields of its own nodes matter to a segment. -/
theorem segment_congr {nodes : List α} (sameNext : ∀ a ∈ nodes, next' a = next a)
    (samePrev : ∀ a ∈ nodes, prev' a = prev a) (linked : Segment next prev before nodes after) :
    Segment next' prev' before nodes after := by
  induction nodes generalizing before with
  | nil => trivial
  | cons a rest ih =>
    obtain ⟨back, forth, later⟩ := linked
    refine ⟨by rw [samePrev a List.mem_cons_self, back], by rw [sameNext a List.mem_cons_self, forth], ?_⟩
    exact ih (fun b member => sameNext b (List.mem_cons_of_mem _ member))
      (fun b member => samePrev b (List.mem_cons_of_mem _ member)) later

theorem getLastD_eq_null_iff {nodes : List α} (nonnull : null ∉ nodes) : nodes.getLastD null = null ↔ nodes = [] := by
  cases nodes using List.reverseRecOn with
  | nil => simp
  | append_singleton rest last _ =>
    have other : last ≠ null := fun same => nonnull (by simp [same])
    simp [other]

theorem headD_eq_null_iff {nodes : List α} (nonnull : null ∉ nodes) : nodes.headD null = null ↔ nodes = [] := by
  cases nodes with
  | nil => simp
  | cons first rest =>
    have other : first ≠ null := fun same => nonnull (by simp [same])
    simp [other]

section Edit
variable [DecidableEq α]

/-- The nodes visited from `a` until the null. -/
def follow (next : α → α) (null : α) : Nat → α → List α
  | 0, _ => []
  | fuel + 1, a => if a = null then [] else a :: follow next null fuel (next a)

/-- Linking a node after the last one. -/
def append (null : α) (links : Links α) (node : α) : Links α where
  next := Function.update (if links.tail = null then links.next else Function.update links.next links.tail node)
    node null
  prev := Function.update links.prev node links.tail
  head := if links.tail = null then node else links.head
  tail := node

/-- Linking the neighbours of a node to each other. -/
def unlink (null : α) (links : Links α) (node : α) : Links α where
  next := if links.prev node = null then links.next
    else Function.update links.next (links.prev node) (links.next node)
  prev := if links.next node = null then links.prev
    else Function.update links.prev (links.next node) (links.prev node)
  head := if links.prev node = null then links.next node else links.head
  tail := if links.next node = null then links.prev node else links.tail

/-- Redirecting the last node's `next` changes what comes after the segment. -/
theorem segment_setLast {nodes : List α} {last : α} (nodup : (nodes ++ [last]).Nodup)
    (linked : Segment next prev before (nodes ++ [last]) after) (target : α) :
    Segment (Function.update next last target) prev before (nodes ++ [last]) target := by
  obtain ⟨front, back⟩ := (segment_append nodes [last]).mp linked
  have fresh : ∀ a ∈ nodes, a ≠ last := fun a member =>
    (List.nodup_append.mp nodup).2.2 a member last List.mem_cons_self
  refine (segment_append nodes [last]).mpr ⟨?_, back.1, by simp, trivial⟩
  exact segment_congr (fun a member => Function.update_of_ne (fresh a member) _ _) (fun _ _ => rfl) front

/-- Redirecting the first node's `prev` changes what comes before the segment. -/
theorem segment_setFirst {nodes : List α} {first : α} (nodup : (first :: nodes).Nodup)
    (linked : Segment next prev before (first :: nodes) after) (target : α) :
    Segment next (Function.update prev first target) target (first :: nodes) after := by
  obtain ⟨-, forth, later⟩ := linked
  have fresh : ∀ a ∈ nodes, a ≠ first := fun a member same =>
    (List.nodup_cons.mp nodup).1 (same ▸ member)
  refine ⟨by simp, forth, ?_⟩
  exact segment_congr (fun _ _ => rfl) (fun a member => Function.update_of_ne (fresh a member) _ _) later

/-- With enough fuel following the links visits exactly the list. -/
theorem follow_segment {nodes : List α} (nonnull : null ∉ nodes)
    (linked : Segment next prev before nodes null) {fuel : Nat} (enough : nodes.length < fuel) :
    follow next null fuel (nodes.headD null) = nodes := by
  induction nodes generalizing before fuel with
  | nil =>
    cases fuel with
    | zero => rfl
    | succ fuel => simp [follow]
  | cons a rest ih =>
    obtain ⟨-, forth, later⟩ := linked
    cases fuel with
    | zero => simp at enough
    | succ fuel =>
      have other : a ≠ null := fun same => nonnull (same ▸ List.mem_cons_self)
      rw [List.headD_cons, follow, if_neg other, forth,
        ih (fun member => nonnull (List.mem_cons_of_mem _ member)) later (by simpa using enough)]

/-- Followed from either end the list is visited in opposite orders, and the visits end at the null. -/
theorem IsList.follow {links : Links α} {nodes : List α} (linked : IsList null links nodes) {fuel : Nat}
    (enough : nodes.length < fuel) :
    follow links.next null fuel links.head = nodes ∧ follow links.prev null fuel links.tail = nodes.reverse := by
  constructor
  · rw [linked.head]
    exact follow_segment linked.nonnull linked.segment enough
  · have last : nodes.getLastD null = nodes.reverse.headD null := by
      cases nodes using List.reverseRecOn with
      | nil => rfl
      | append_singleton rest last _ => simp
    rw [linked.tail, last]
    exact follow_segment (by simpa using linked.nonnull) (segment_reverse linked.segment) (by simpa using enough)

/-- A fresh node appended by hand is the last of the list. -/
theorem isList_append {links : Links α} {nodes : List α} {node : α} (linked : IsList null links nodes)
    (fresh : node ∉ nodes) (other : node ≠ null) : IsList null (append null links node) (nodes ++ [node]) := by
  have apart : ∀ a ∈ nodes, a ≠ node := fun a member same => fresh (same ▸ member)
  refine
    { nodup := List.nodup_append.mpr ⟨linked.nodup, List.nodup_singleton node, fun a member b last =>
        List.mem_singleton.mp last ▸ apart a member⟩
      nonnull := by simp [linked.nonnull, Ne.symm other]
      head := ?_
      tail := by simp [append]
      segment := ?_ }
  · simp only [append, linked.tail, getLastD_eq_null_iff linked.nonnull, linked.head]
    cases nodes <;> simp
  · refine (segment_append nodes [node]).mpr ⟨?_, by simp [append, linked.tail], by simp [append], trivial⟩
    have base : Segment (if links.tail = null then links.next else Function.update links.next links.tail node)
        links.prev null nodes node := by
      rw [linked.tail]
      cases nodes using List.reverseRecOn with
      | nil => trivial
      | append_singleton rest last _ =>
        have nonnull : last ≠ null := fun same => linked.nonnull (by simp [same])
        simp only [List.getLastD_concat, if_neg nonnull]
        exact segment_setLast linked.nodup linked.segment node
    exact segment_congr (fun a member => Function.update_of_ne (apart a member) _ _)
      (fun a member => Function.update_of_ne (apart a member) _ _) base

/-- Unlinking a node by hand takes it out of the list and leaves the order of the others. -/
theorem isList_unlink {links : Links α} {xs ys : List α} {node : α} (linked : IsList null links (xs ++ node :: ys)) :
    IsList null (unlink null links node) (xs ++ ys) := by
  obtain ⟨front, back, forth, rear⟩ := (segment_append xs (node :: ys)).mp linked.segment
  obtain ⟨nodupFront, nodupRear, apart⟩ := List.nodup_append.mp linked.nodup
  have nodupBack := (List.nodup_cons.mp nodupRear).2
  have nonnull := linked.nonnull
  simp only [List.mem_append, List.mem_cons, not_or] at nonnull
  obtain ⟨nullFront, nullNode, nullRear⟩ := nonnull
  have apart' : ∀ a ∈ xs, ∀ b ∈ ys, a ≠ b := fun a inFront b inRear => apart a inFront b (List.mem_cons_of_mem _ inRear)
  have firstNull : links.prev node = null ↔ xs = [] := by rw [back]; exact getLastD_eq_null_iff nullFront
  have lastNull : links.next node = null ↔ ys = [] := by rw [forth]; exact headD_eq_null_iff nullRear
  have keepFront : ∀ a ∈ xs, (unlink null links node).prev a = links.prev a := by
    intro a member
    simp only [unlink]
    split
    · rfl
    next some =>
      cases ys with
      | nil => exact absurd (lastNull.mpr rfl) some
      | cons b rest =>
        rw [forth, List.headD_cons]
        exact Function.update_of_ne (apart' a member b List.mem_cons_self) _ _
  have keepRear : ∀ a ∈ ys, (unlink null links node).next a = links.next a := by
    intro a member
    simp only [unlink]
    split
    · rfl
    next some =>
      cases xs using List.reverseRecOn with
      | nil => exact absurd (firstNull.mpr rfl) some
      | append_singleton rest last _ =>
        rw [back, List.getLastD_concat]
        exact Function.update_of_ne (Ne.symm (apart' last (by simp) a member)) _ _
  refine
    { nodup := List.nodup_append.mpr ⟨nodupFront, nodupBack, apart'⟩
      nonnull := by simp [nullFront, nullRear]
      head := ?_
      tail := ?_
      segment := (segment_append xs ys).mpr ⟨?_, ?_⟩ }
  · simp only [unlink, firstNull, forth, linked.head]
    cases xs <;> simp
  · simp only [unlink, lastNull, back, linked.tail]
    cases ys with
    | nil => simp
    | cons b rest => simp [List.getLastD_eq_getLast?]
  · refine segment_congr (fun _ _ => rfl) keepFront (?_ : Segment _ links.prev _ _ _)
    simp only [unlink, firstNull, forth]
    cases xs using List.reverseRecOn with
    | nil => trivial
    | append_singleton rest last _ =>
      rw [if_neg (by simp), back, List.getLastD_concat]
      exact segment_setLast nodupFront front _
  · refine segment_congr keepRear (fun _ _ => rfl) (?_ : Segment links.next _ _ _ _)
    simp only [unlink, forth, back]
    cases ys with
    | nil => trivial
    | cons b rest =>
      have some : b ≠ null := fun same => nullRear (same ▸ List.mem_cons_self)
      rw [List.headD_cons, if_neg some]
      exact segment_setFirst nodupBack rear _

end Edit

end DoubleList
