import Mathlib.Data.List.Nodup

/-! What the run-time library is for, without addresses: a linker that knows files by the names they
export and import. A file is linked when every name it cannot do without is offered, and it stays for
as long as it is in use or another one holds one of its names. -/

namespace DragonUso.NameLinker

variable {ν : Type} [DecidableEq ν]

/-- What a file shows of itself: the names it exports, and those it imports with whether it can do
without them. -/
structure Interface (ν : Type) where
  exports : List ν
  imports : List (ν × Bool)

/-- A file that is linked, with the names it was given something for. -/
structure Member (ν : Type) where
  name : ν
  exports : List ν
  held : List ν
  uses : BitVec 32

/-- What a program can ask for. Everything but loading and dropping only looks. -/
inductive Request (ν : Type) where
  | load (name : ν)
  | drop (name : ν)
  | find (name symbol : ν)
  | findAny (symbol : ν)
  | loaded (name : ν)

def isLinked (table : List (Member ν)) (name : ν) : Bool := table.any fun m => decide (m.name = name)

/-- Some file exports the name. -/
def exported (table : List (Member ν)) (symbol : ν) : Bool := table.any fun m => decide (symbol ∈ m.exports)

def offered (globals : ν → Bool) (table : List (Member ν)) (symbol : ν) : Bool := exported table symbol || globals symbol

def setUses (table : List (Member ν)) (name : ν) (change : BitVec 32 → BitVec 32) : List (Member ν) :=
  table.map fun m => if m.name = name then { m with uses := change m.uses } else m

/-- The member a file becomes. -/
def link (globals : ν → Bool) (table : List (Member ν)) (name : ν) (face : Interface ν) : Member ν where
  name := name
  exports := face.exports
  held := (face.imports.map Prod.fst).filter (offered globals table)
  uses := 1

def load (globals : ν → Bool) (table : List (Member ν)) (name : ν) (file : Option (Interface ν)) :
    List (Member ν) × Bool :=
  if isLinked table name then (setUses table name (· + 1), true)
  else
    match file with
    | none => (table, false)
    | some face =>
      if face.imports.all fun i => i.2 || offered globals table i.1 then (table ++ [link globals table name face], true)
      else (table, false)

/-- One use fewer, if there is one. -/
def fewer (uses : BitVec 32) : BitVec 32 := if uses ≠ 0 then uses - 1 else uses

/-- Another file holds a name that this one exports. -/
def needed (table : List (Member ν)) (m : Member ν) : Bool :=
  table.any fun o => decide (o.name ≠ m.name) && m.exports.any fun symbol => decide (symbol ∈ o.held)

def drop (table : List (Member ν)) (name : ν) : List (Member ν) :=
  match table.find? fun m => decide (m.name = name) with
  | none => table
  | some m =>
    if !needed table m && fewer m.uses == 0 then table.filter fun o => decide (o.name ≠ name)
    else setUses table name fewer

def respond (disk : ν → Option (Interface ν)) (globals : ν → Bool) (table : List (Member ν)) :
    Request ν → List (Member ν) × Bool
  | .load name => load globals table name (disk name)
  | .drop name => (drop table name, true)
  | .find name symbol => (table, table.any fun m => decide (m.name = name) && decide (symbol ∈ m.exports))
  | .findAny symbol => (table, exported table symbol)
  | .loaded name => (table, isLinked table name)

/-- The answers to a list of requests, and the table they leave. -/
def serve (disk : ν → Option (Interface ν)) (globals : ν → Bool) : List (Request ν) → List (Member ν) →
    List Bool × List (Member ν)
  | [], table => ([], table)
  | request :: rest, table =>
    let (next, answer) := respond disk globals table request
    let (answers, last) := serve disk globals rest next
    (answer :: answers, last)

/-! ### Names -/

theorem isLinked_iff {table : List (Member ν)} {name : ν} : isLinked table name = true ↔ name ∈ table.map Member.name := by
  simp [isLinked]

@[simp] theorem names_setUses (table : List (Member ν)) (name : ν) (change : BitVec 32 → BitVec 32) :
    (setUses table name change).map Member.name = table.map Member.name := by
  rw [setUses, List.map_map]
  apply List.map_congr_left
  intro m _
  simp only [Function.comp_apply]
  split <;> rfl

/-! ### What every table keeps -/

theorem offered_iff {globals : ν → Bool} {table : List (Member ν)} {symbol : ν} :
    offered globals table symbol = true ↔ (∃ m ∈ table, symbol ∈ m.exports) ∨ globals symbol = true := by
  simp [offered, exported]

/-- What a member has of its file: all its exports, and some of its imports. -/
structure From (face : Interface ν) (m : Member ν) : Prop where
  exports : m.exports = face.exports
  imports : ∀ symbol ∈ m.held, symbol ∈ face.imports.map Prod.fst

/-- A member is made from the file of its name, and what it holds is offered. -/
structure Sound (disk : ν → Option (Interface ν)) (globals : ν → Bool) (table : List (Member ν)) : Prop where
  distinct : (table.map Member.name).Nodup
  made : ∀ m ∈ table, ∃ face, disk m.name = some face ∧ From face m
  held : ∀ m ∈ table, ∀ symbol ∈ m.held, offered globals table symbol = true

section
variable {disk : ν → Option (Interface ν)} {globals : ν → Bool} {table : List (Member ν)}

theorem Sound.empty : Sound disk globals [] :=
  ⟨List.nodup_nil, fun _ member => absurd member List.not_mem_nil, fun _ member => absurd member List.not_mem_nil⟩

theorem Sound.unique (sound : Sound disk globals table) {m o : Member ν} (member : m ∈ table) (other : o ∈ table)
    (same : m.name = o.name) : m = o := List.inj_on_of_nodup_map sound.distinct member other same

theorem mem_setUses {name : ν} {change : BitVec 32 → BitVec 32} {m : Member ν} (member : m ∈ setUses table name change) :
    ∃ o ∈ table, m.name = o.name ∧ m.exports = o.exports ∧ m.held = o.held ∧
      m.uses = if o.name = name then change o.uses else o.uses := by
  obtain ⟨o, inTable, rfl⟩ := List.mem_map.mp member
  refine ⟨o, inTable, ?_⟩
  split <;> exact ⟨rfl, rfl, rfl, rfl⟩

theorem offered_setUses (name : ν) (change : BitVec 32 → BitVec 32) (symbol : ν) :
    offered globals (setUses table name change) symbol = offered globals table symbol := by
  unfold offered exported setUses
  rw [List.any_map]
  congr 2
  funext m
  simp only [Function.comp_apply]
  split <;> rfl

theorem Sound.setUses (sound : Sound disk globals table) (name : ν) (change : BitVec 32 → BitVec 32) :
    Sound disk globals (setUses table name change) := by
  constructor
  · rw [names_setUses]
    exact sound.distinct
  · intro m member
    obtain ⟨o, inTable, named, exports, held, -⟩ := mem_setUses member
    obtain ⟨face, found, made⟩ := sound.made o inTable
    exact ⟨face, named ▸ found, exports.trans made.exports, held ▸ made.imports⟩
  · intro m member symbol holds
    obtain ⟨o, inTable, -, -, held, -⟩ := mem_setUses member
    rw [offered_setUses]
    exact sound.held o inTable symbol (held ▸ holds)

theorem Sound.link (sound : Sound disk globals table) {name : ν} (absent : ¬ isLinked table name = true)
    {face : Interface ν} (found : disk name = some face) : Sound disk globals (table ++ [link globals table name face]) := by
  have grows : ∀ symbol, offered globals table symbol = true →
      offered globals (table ++ [NameLinker.link globals table name face]) symbol = true := by
    intro symbol before
    rw [offered_iff] at before ⊢
    exact before.imp_left fun ⟨m, member, listed⟩ => ⟨m, List.mem_append_left _ member, listed⟩
  constructor
  · rw [List.map_append, List.map_singleton]
    refine List.Nodup.append sound.distinct (List.nodup_singleton _) (List.disjoint_singleton.mpr ?_)
    exact fun there => absent (isLinked_iff.mpr there)
  · rw [List.forall_mem_append, List.forall_mem_singleton]
    exact ⟨sound.made, face, found, rfl, fun symbol holds => (List.mem_filter.mp holds).1⟩
  · rw [List.forall_mem_append, List.forall_mem_singleton]
    exact ⟨fun m member symbol holds => grows symbol (sound.held m member symbol holds),
      fun symbol holds => grows symbol (List.mem_filter.mp holds).2⟩

theorem needed_iff {m : Member ν} :
    needed table m = true ↔ ∃ o ∈ table, o.name ≠ m.name ∧ ∃ symbol ∈ m.exports, symbol ∈ o.held := by
  simp [needed]

theorem Sound.remove (sound : Sound disk globals table) {m : Member ν} (member : m ∈ table)
    (unneeded : needed table m = false) : Sound disk globals (table.filter fun o => decide (o.name ≠ m.name)) := by
  have inTable : ∀ o, o ∈ (table.filter fun o => decide (o.name ≠ m.name)) ↔ o ∈ table ∧ o.name ≠ m.name := by
    intro o
    rw [List.mem_filter, decide_eq_true_eq]
  refine ⟨sound.distinct.sublist (List.filter_sublist.map _), fun o there => sound.made o ((inTable o).mp there).1, ?_⟩
  intro o there symbol holds
  obtain ⟨before, other⟩ := (inTable o).mp there
  have offers := sound.held o before symbol holds
  rw [offered_iff] at offers ⊢
  refine offers.imp_left ?_
  rintro ⟨e, exporter, listed⟩
  refine ⟨e, (inTable e).mpr ⟨exporter, fun same => ?_⟩, listed⟩
  obtain rfl := sound.unique exporter member same
  exact Bool.eq_false_iff.mp unneeded (needed_iff.mpr ⟨o, before, other, symbol, listed, holds⟩)

theorem Sound.load (sound : Sound disk globals table) (name : ν) :
    Sound disk globals (load globals table name (disk name)).1 := by
  unfold NameLinker.load
  by_cases linked : isLinked table name = true
  · rw [if_pos linked]
    exact sound.setUses name (· + 1)
  rw [if_neg linked]
  cases found : disk name with
  | none => exact sound
  | some face =>
    simp only
    split
    · exact sound.link linked found
    · exact sound

theorem Sound.drop (sound : Sound disk globals table) (name : ν) : Sound disk globals (drop table name) := by
  unfold NameLinker.drop
  cases found : table.find? fun m => decide (m.name = name) with
  | none => exact sound
  | some m =>
    have named : m.name = name := by simpa using List.find?_some found
    simp only
    split
    next gone =>
      obtain ⟨unneeded, -⟩ := Bool.and_eq_true_iff.mp gone
      rw [← named]
      exact sound.remove (List.mem_of_find?_eq_some found) (by simpa using unneeded)
    next => exact sound.setUses name _

/-- A load that succeeds with a file that was not linked. -/
theorem load_new {name : ν} {face : Interface ν} (absent : ¬ isLinked table name = true)
    (loads : (NameLinker.load globals table name (some face)).2 = true) :
    (NameLinker.load globals table name (some face)).1 = table ++ [NameLinker.link globals table name face] := by
  unfold NameLinker.load at loads ⊢
  rw [if_neg absent] at loads ⊢
  simp only at loads ⊢
  split at loads
  next resolved => rw [if_pos resolved]
  next => cases loads

/-- Every request keeps the table sound. -/
theorem Sound.respond (sound : Sound disk globals table) (request : Request ν) :
    Sound disk globals (respond disk globals table request).1 := by
  cases request with
  | load name => exact sound.load name
  | drop name => exact sound.drop name
  | find => exact sound
  | findAny => exact sound
  | loaded => exact sound

theorem Sound.serve (sound : Sound disk globals table) (requests : List (Request ν)) :
    Sound disk globals (serve disk globals requests table).2 := by
  induction requests generalizing table with
  | nil => exact sound
  | cons request rest ih => exact ih (sound.respond request)

end

/-! ### Requests that change nothing -/

/-- A request that only looked, or a load that was refused. -/
def idle : Request ν × Bool → Bool
  | (.load _, answer) => !answer
  | (.drop _, _) => false
  | _ => true

theorem load_refused {globals : ν → Bool} {table : List (Member ν)} {name : ν} {file : Option (Interface ν)}
    (refused : (load globals table name file).2 = false) : (load globals table name file).1 = table := by
  unfold load at refused ⊢
  by_cases linked : isLinked table name = true
  · rw [if_pos linked] at refused
    cases refused
  rw [if_neg linked] at refused ⊢
  cases file with
  | none => rfl
  | some face =>
    simp only at refused ⊢
    by_cases links : (face.imports.all fun i => i.2 || offered globals table i.1) = true
    · rw [if_pos links] at refused
      cases refused
    · rw [if_neg links]

theorem respond_idle {disk : ν → Option (Interface ν)} {globals : ν → Bool} {table : List (Member ν)} {request : Request ν}
    (quiet : idle (request, (respond disk globals table request).2) = true) :
    (respond disk globals table request).1 = table := by
  cases request with
  | load name => exact load_refused (by simpa [idle, respond] using quiet)
  | drop name => cases quiet
  | find => rfl
  | findAny => rfl
  | loaded => rfl

/-- The requests that changed something. -/
def changes (served : List (Request ν × Bool)) : List (Request ν) := (served.filter fun r => !idle r).map Prod.fst

/-- Leaving out what changed nothing leads to the same table. -/
theorem serve_changes {disk : ν → Option (Interface ν)} {globals : ν → Bool} {served : List (Request ν × Bool)}
    {table : List (Member ν)} (answers : served.map Prod.snd = (serve disk globals (served.map Prod.fst) table).1) :
    (serve disk globals (changes served) table).2 = (serve disk globals (served.map Prod.fst) table).2 := by
  induction served generalizing table with
  | nil => rfl
  | cons first rest ih =>
    obtain ⟨request, answer⟩ := first
    simp only [List.map_cons, serve] at answers
    obtain ⟨rfl, later⟩ := List.cons.inj answers
    have rest := ih later
    unfold changes
    rw [List.filter_cons]
    cases quiet : idle (request, (respond disk globals table request).2) with
    | true =>
      have same := respond_idle quiet
      rw [same] at rest
      simp only [Bool.not_true, Bool.false_eq_true, if_false, List.map_cons, serve, same]
      exact rest
    | false =>
      simp only [Bool.not_false, if_true, List.map_cons, serve]
      exact rest

end DragonUso.NameLinker
