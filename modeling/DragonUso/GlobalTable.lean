import DragonUso.MakeGlobalSyms
import DragonUso.ProducedFile

/-! The global symbol file as the loader finds it. The writer cuts name lengths to 16 bits, and the
loader takes a name up to its terminator; the two agree as long as every name keeps its own. -/

namespace DragonUso.GlobalTable
open ByteOrder SparseFile SortedSearch Format ElfFile ToolCollect ToolWriter LoaderImage WriterLayout FileLayout RoundTrip
open SymbolSearch Loader LoaderSteps OpenBinding CollectedTables ProducedFile MakeGlobalSyms

/-! ### Reading the file -/

/-- The string that starts where the first of these names is stored. -/
def storedName (syms : List SymbolInfo) : Bytes := (syms.flatMap symbolNameBytes).takeWhile (· != 0)

/-- The table the loader reads where these symbols were written. -/
def storedSymbols : List SymbolInfo → List UsoSymbol
  | [] => []
  | s :: rest => { loadedSymbol s with name := storedName (s :: rest) } :: storedSymbols rest

@[simp] theorem storedSymbols_length (syms : List SymbolInfo) : (storedSymbols syms).length = syms.length := by
  induction syms with
  | nil => rfl
  | cons s rest ih => rw [storedSymbols, List.length_cons, List.length_cons, ih]

/-- The file ends with the stored names, so each string is read from the names that follow. -/
theorem readSymbols_stored {file : Bytes} (small : file.length < 2 ^ 31) (syms : List SymbolInfo) (i : Nat) (nameOfs : U32)
    (survives : Survives file (writeSymbolLoop 0 i nameOfs syms)) (records : 4 + 12 * (i + syms.length) ≤ file.length)
    (ends : nameOfs.toNat + storedSize syms = file.length) :
    file.drop nameOfs.toNat = syms.flatMap symbolNameBytes ∧
    readSymbols file 0 (4 + 12 * i) syms.length = storedSymbols syms := by
  induction syms generalizing i nameOfs with
  | nil =>
    refine ⟨?_, rfl⟩
    rw [List.drop_of_length_le (by rw [← ends]; exact Nat.le_refl _)]
    rfl
  | cons s rest ih =>
    rw [storedSize] at ends
    rw [List.length_cons] at records
    unfold writeSymbolLoop at survives
    have origin : (4 + 0 : U32).toNat + i * 12 = 4 + 12 * i := by
      change 4 + i * 12 = 4 + 12 * i
      omega
    have fromStart : (0 : U32) + nameOfs = nameOfs := BitVec.zero_add nameOfs
    have record := survives.head
    have name := survives.tail.head
    simp only [origin, symbolBytes] at record
    simp only [fromStart] at name
    obtain ⟨nameField, record⟩ := readAt_be32 record
    obtain ⟨addr, record⟩ := readAt_be32 record
    obtain ⟨sectionIndex, record⟩ := readAt_be16 record
    have length : readU16 file (4 + 12 * i + 4 + 4 + 2) = symbolNameLen s := by
      rw [readU16]
      rw [be16_length] at record
      rw [record, fromBe16_be16]
    have next : (nextNameOfs nameOfs s).toNat = nameOfs.toNat + (symbolNameBytes s).length :=
      nextNameOfs_toNat (by omega)
    obtain ⟨tail, later⟩ := ih (i + 1) (nextNameOfs nameOfs s) survives.tail.tail (by omega) (by omega)
    have names : file.drop nameOfs.toNat = (s :: rest).flatMap symbolNameBytes := by
      rw [drop_of_readAt name (by omega), ← next, tail, List.flatMap_cons]
    refine ⟨names, ?_⟩
    rw [show 4 + 12 * (i + 1) = 4 + 12 * i + 12 by omega] at later
    rw [List.length_cons, readSymbols, later, storedSymbols, readSymbol, nameField, fromStart, cString, names, addr]
    rw [show 4 + 12 * i + 8 = 4 + 12 * i + 4 + 4 by omega, show 4 + 12 * i + 10 = 4 + 12 * i + 4 + 4 + 2 by omega,
      sectionIndex, length]
    rfl

/-- What `uso_init` makes of a written file below 2 GB, whatever the lengths of its names. -/
theorem readGlobalSyms_globalSymWrite {syms : List SymbolInfo} (small : (globalSymWrite syms).length < 2 ^ 31) :
    readGlobalSyms (globalSymWrite syms) = storedSymbols syms := by
  by_cases empty : syms = []
  · subst empty
    decide
  · have bounded : Bounded (globalSymWrite syms).length (usoWriteSymbolTable 0 syms) :=
      fun w member some => stop_le_length member some
    obtain ⟨nameStart, last, within, apart⟩ := usoWriteSymbolTable_stored small empty bounded
    have zero : (0 : U32).toNat = 0 := rfl
    rw [zero, Nat.zero_add] at last within
    have size : (globalSymWrite syms).length = 4 + 12 * syms.length + storedSize syms :=
      Nat.le_antisymm within.length_run last
    have survives : Survives (globalSymWrite syms) (usoWriteSymbolTable 0 syms) := fun w member => readAt_run apart member
    have count : readU32 (globalSymWrite syms) 0 = BitVec.ofNat 32 syms.length := by
      have stored := survives.left.head
      simp only [be32_length, zero] at stored
      rw [readU32, stored, fromBe32_be32]
    have result := (readSymbols_stored small syms 0 _ survives.right (by omega) (by rw [nameStart, size])).2
    rw [readGlobalSyms, count, toNat_ofNat_small (by omega)]
    exact result

/-! ### Names that lose their terminator -/

/-- Every name of 65536 bytes or more goes on in the name stored after it. -/
def NamesContinued : List SymbolInfo → Prop
  | [] => True
  | s :: rest =>
    (65536 ≤ s.name.length → rest.head?.map (fun t => t.name) = some (s.name.drop (s.name.length % 65536 + 1))) ∧
      NamesContinued rest

theorem bne_terminator {name : Bytes} (terminated : 0 ∉ name) {b : Byte} (member : b ∈ name) : (b != 0) = true := by
  rw [bne_iff_ne]
  intro zero
  exact terminated (zero ▸ member)

theorem storedName_short {s : SymbolInfo} (rest : List SymbolInfo) (terminated : 0 ∉ s.name)
    (short : s.name.length < 65536) : storedName (s :: rest) = s.name := by
  have width : (2 : Nat) ^ 16 = 65536 := rfl
  have whole : symbolNameBytes s = s.name ++ [0] := by
    rw [symbolNameBytes, BitVec.toNat_ofNat, width, Nat.mod_eq_of_lt short]
    exact List.take_of_length_le (by simp)
  rw [storedName, List.flatMap_cons, whole, List.append_assoc]
  rw [List.takeWhile_append_of_pos fun b member => bne_terminator terminated member]
  simp

theorem storedName_long {s : SymbolInfo} (rest : List SymbolInfo) (terminated : 0 ∉ s.name)
    (long : 65536 ≤ s.name.length) :
    storedName (s :: rest) = s.name.take (s.name.length % 65536 + 1) ++ storedName rest := by
  have width : (2 : Nat) ^ 16 = 65536 := rfl
  have below := Nat.mod_lt s.name.length (by decide : 65536 > 0)
  have cut : symbolNameBytes s = s.name.take (s.name.length % 65536 + 1) := by
    rw [symbolNameBytes, BitVec.toNat_ofNat, width, List.take_append_of_le_length (by omega)]
  rw [storedName, List.flatMap_cons, cut, List.takeWhile_append_of_pos]
  · rfl
  · intro b member
    exact bne_terminator terminated (List.mem_of_mem_take member)

/-- The loader reads the table that was written exactly if every long name is continued. -/
theorem storedSymbols_eq_iff {syms : List SymbolInfo} (terminated : ∀ s ∈ syms, 0 ∉ s.name) :
    storedSymbols syms = syms.map loadedSymbol ↔ NamesContinued syms := by
  induction syms with
  | nil => simp [storedSymbols, NamesContinued]
  | cons s rest ih =>
    have own := terminated s List.mem_cons_self
    have later := ih fun t member => terminated t (List.mem_cons_of_mem _ member)
    have record : ({ loadedSymbol s with name := storedName (s :: rest) } : UsoSymbol) = loadedSymbol s ↔
        storedName (s :: rest) = s.name := by
      constructor
      · intro same
        exact congrArg UsoSymbol.name same
      · intro same
        rw [same]
        rfl
    rw [storedSymbols, List.map_cons, List.cons.injEq, record, NamesContinued, later, and_congr_left_iff]
    intro continued
    -- what follows is read as it was written, so the next string is the next name
    have next : storedName rest = (rest.head?.map fun t => t.name).getD [] := by
      have table := later.mpr continued
      cases rest with
      | nil => rfl
      | cons t rest =>
        rw [storedSymbols, List.map_cons, List.cons.injEq] at table
        exact congrArg UsoSymbol.name table.1
    by_cases long : 65536 ≤ s.name.length
    · have below := Nat.mod_lt s.name.length (by decide : 65536 > 0)
      have some : s.name.drop (s.name.length % 65536 + 1) ≠ [] := by
        apply List.ne_nil_of_length_pos
        rw [List.length_drop]
        omega
      have split : s.name = s.name.take (s.name.length % 65536 + 1) ++ s.name.drop (s.name.length % 65536 + 1) :=
        (List.take_append_drop ..).symm
      rw [storedName_long rest own long, next]
      constructor
      · intro same _
        conv at same => rhs; rw [split]
        have suffix := List.append_cancel_left same
        cases follows : rest.head?.map fun t => t.name with
        | none =>
          rw [follows] at suffix
          exact absurd suffix.symm some
        | some name =>
          rw [follows] at suffix
          exact congrArg Option.some suffix
      · intro follows
        rw [follows long, Option.getD_some]
        exact split.symm
    · rw [storedName_short rest own (by omega)]
      exact ⟨fun _ absurd => (long absurd).elim, fun _ => rfl⟩

theorem storedSymbols_of_names {syms : List SymbolInfo}
    (same : ((storedSymbols syms).map fun e => e.name) = syms.map fun s => s.name) :
    storedSymbols syms = syms.map loadedSymbol := by
  induction syms with
  | nil => rfl
  | cons s rest ih =>
    rw [storedSymbols, List.map_cons, List.map_cons, List.cons.injEq] at same
    rw [storedSymbols, List.map_cons, ih same.2]
    exact congrArg (fun name => ({ loadedSymbol s with name := name } : UsoSymbol) :: rest.map loadedSymbol) same.1

/-! ### Faithful tables -/

def IsGlobalName (elf : MainElf) (name : Bytes) : Prop := ∃ s ∈ elf.symbols, isGlobal s = true ∧ s.name = name

/-- Among the names that are listed, `next` comes right after `name`. -/
structure Follows (listed : Bytes → Prop) (name next : Bytes) : Prop where
  present : listed next
  after : stringLess name next = true
  closest : ∀ other, listed other → stringLess name other = true → stringLess other next = false

/-- Global names are shorter than 65536 bytes, or what is stored of them is completed by the name
after them. -/
def NamesReadable (elf : MainElf) : Prop :=
  ∀ s ∈ elf.symbols, isGlobal s = true → 65536 ≤ s.name.length →
    Follows (IsGlobalName elf) s.name (s.name.drop (s.name.length % 65536 + 1))

/-- The lookup the loader makes in the global table is the one in the ELF. -/
structure GlobalsFaithful (elf : MainElf) (st : LoaderState) : Prop where
  found : ∀ s ∈ elf.symbols, isGlobal s = true → searchSymbolTable st.globalSyms s.name = s.value
  absent : ∀ name, 0 ∉ name → ¬ IsGlobalName elf name → searchSymbolTable st.globalSyms name = 0

/-- Names in strictly ascending order. -/
def Ascending (syms : List SymbolInfo) : Prop := syms.Pairwise fun a b => strcmp a.name b.name = .lt

theorem stringLess_asymm {first second : Bytes} (below : stringLess first second = true) :
    stringLess second first = false := by
  rw [Bool.eq_false_iff]
  intro above
  rw [stringLess_iff] at below above
  have same := strcmp_lt_trans below above
  rw [strcmp_self] at same
  cases same

theorem stringLess_self (name : Bytes) : stringLess name name = false := by
  rw [Bool.eq_false_iff, ne_eq, stringLess_iff, strcmp_self]
  decide

/-- In an ascending list the name that comes next is the next one listed. -/
theorem head?_eq_iff_follows {before rest : List SymbolInfo} {s : SymbolInfo}
    (ascending : Ascending (before ++ s :: rest)) (next : Bytes) :
    rest.head?.map (fun t => t.name) = some next ↔
      Follows (fun name => ∃ t ∈ before ++ s :: rest, t.name = name) s.name next := by
  obtain ⟨-, tail, apart⟩ := List.pairwise_append.mp ascending
  obtain ⟨above, later⟩ := List.pairwise_cons.mp tail
  have earlier : ∀ t ∈ before, stringLess s.name t.name = false := fun t member =>
    stringLess_asymm ((stringLess_iff _ _).mpr (apart t member s List.mem_cons_self))
  constructor
  · intro head
    cases rest with
    | nil => cases head
    | cons t rest =>
      obtain rfl : t.name = next := Option.some.inj head
      refine ⟨⟨t, by simp, rfl⟩, (stringLess_iff _ _).mpr (above t List.mem_cons_self), ?_⟩
      rintro other ⟨u, member, rfl⟩ order
      rcases List.mem_append.mp member with first | second
      · rw [earlier u first] at order
        cases order
      · rcases List.mem_cons.mp second with rfl | inRest
        · rw [stringLess_self] at order
          cases order
        · rcases List.mem_cons.mp inRest with rfl | beyond
          · exact stringLess_self _
          · exact stringLess_asymm ((stringLess_iff _ _).mpr ((List.pairwise_cons.mp later).1 u beyond))
  · rintro ⟨⟨t, member, rfl⟩, after, closest⟩
    rcases List.mem_append.mp member with first | second
    · rw [earlier t first] at after
      cases after
    · rcases List.mem_cons.mp second with rfl | inRest
      · rw [stringLess_self] at after
        cases after
      · cases rest with
        | nil => exact absurd inRest List.not_mem_nil
        | cons u rest =>
          rcases List.mem_cons.mp inRest with rfl | beyond
          · rfl
          · have between := closest u.name ⟨u, by simp, rfl⟩ ((stringLess_iff _ _).mpr (above u List.mem_cons_self))
            rw [(stringLess_iff _ _).mpr ((List.pairwise_cons.mp later).1 t beyond)] at between
            cases between

theorem namesContinued_iff_follows {before syms : List SymbolInfo} (ascending : Ascending (before ++ syms)) :
    NamesContinued syms ↔ ∀ s ∈ syms, 65536 ≤ s.name.length →
      Follows (fun name => ∃ t ∈ before ++ syms, t.name = name) s.name (s.name.drop (s.name.length % 65536 + 1)) := by
  induction syms generalizing before with
  | nil => simp [NamesContinued]
  | cons s rest ih =>
    have shifted : before ++ s :: rest = (before ++ [s]) ++ rest := by simp
    rw [NamesContinued, head?_eq_iff_follows ascending, List.forall_mem_cons, ih (shifted ▸ ascending), ← shifted]

/-- A table that is found complete by its own names was read as it was written. -/
theorem storedSymbols_of_found {syms : List SymbolInfo} (ascending : Ascending syms)
    (found : ∀ s ∈ syms, searchSymbolTable (some (storedSymbols syms)) s.name ≠ 0) :
    storedSymbols syms = syms.map loadedSymbol := by
  have distinct : (syms.map fun s => s.name).Nodup := by
    rw [List.Nodup, List.pairwise_map]
    refine ascending.imp fun order same => ?_
    rw [same, strcmp_self] at order
    cases order
  have subset : (syms.map fun s => s.name) ⊆ (storedSymbols syms).map fun e => e.name := by
    intro name member
    obtain ⟨s, inTable, rfl⟩ := List.mem_map.mp member
    obtain ⟨e, present, named, -⟩ := searchSymbolTable_sound (found s inTable)
    exact List.mem_map.mpr ⟨e, present, named⟩
  have perm : (syms.map fun s => s.name).Perm ((storedSymbols syms).map fun e => e.name) :=
    (List.subperm_of_subset distinct subset).perm_of_length_le (by simp)
  have searched : ∀ e ∈ storedSymbols syms, ∃ x, bsearch (symbolCompare e.name) (storedSymbols syms) = some x := by
    intro e member
    obtain ⟨s, inTable, named⟩ := List.mem_map.mp (perm.mem_iff.mpr (List.mem_map_of_mem member))
    have pointer := found s inTable
    rw [named] at pointer
    unfold searchSymbolTable at pointer
    simp only at pointer
    split at pointer
    · exact absurd rfl pointer
    · cases result : bsearch (symbolCompare e.name) (storedSymbols syms) with
      | none => simp [result] at pointer
      | some x => exact ⟨x, rfl⟩
  have sorted : (storedSymbols syms).Pairwise fun a b => strcmp a.name b.name = .lt := by
    refine pairwise_of_bsearch (fun (a b : UsoSymbol) => symbolCompare a.name b) (fun _ _ below => below)
      (fun _ _ above => (strcmp_gt_iff _ _).mp above) (fun _ _ _ first second => strcmp_lt_trans first second) ?_ searched
    intro i j x y at_i at_j equal
    have same : x.name = y.name := (strcmp_eq_iff _ _).mp equal
    have names : ((storedSymbols syms).map fun e => e.name)[i]? = ((storedSymbols syms).map fun e => e.name)[j]? := by
      rw [List.getElem?_map, List.getElem?_map, at_i, at_j]
      exact congrArg some same
    have inside := (List.getElem?_eq_some_iff.mp at_i).1
    exact (List.getElem?_inj (by simpa using inside) (perm.nodup_iff.mp distinct)).mp names
  have asymm : ∀ a b, a ∈ (storedSymbols syms).map (fun e => e.name) → b ∈ syms.map (fun s => s.name) →
      strcmp a b = .lt → strcmp b a = .lt → a = b := by
    intro a b _ _ below above
    have same := strcmp_lt_trans below above
    rw [strcmp_self] at same
    cases same
  exact storedSymbols_of_names (perm.symm.eq_of_pairwise asymm (List.pairwise_map.mpr sorted)
    (List.pairwise_map.mpr ascending))

/-! ### The file of a program -/

section
variable {sort : SymSort} {elf : MainElf} {syms : GlobalSyms}

theorem mem_exportSymList (made : makeGlobalSyms sort elf = .ok syms) {e : SymbolInfo} :
    e ∈ syms.exportSymList ↔ ∃ i s, elf.symbols[i]? = some s ∧ isGlobal s = true ∧ e = globalSymbol i s := by
  rw [makeGlobalSyms_ok made, (sort.perm _).mem_iff, mem_collectFrom]
  simp only [Nat.zero_add]

theorem exportSymList_terminated (made : makeGlobalSyms sort elf = .ok syms) : ∀ e ∈ syms.exportSymList, 0 ∉ e.name := by
  intro e member
  obtain ⟨i, s, -, -, rfl⟩ := (mem_exportSymList made).mp member
  exact s.name_terminated

/-- Names that are distinct among the symbols that are not local are sorted strictly. -/
theorem exportSymList_ascending (made : makeGlobalSyms sort elf = .ok syms)
    (distinct : ((elf.symbols.filter fun s => s.bind != STB_LOCAL).map fun s => s.name).Nodup) :
    Ascending syms.exportSymList := by
  have kept : ((collectFrom isGlobal globalSymbol 0 elf.symbols).map fun e => e.name).Nodup := by
    rw [names_collectFrom fun _ _ => rfl]
    refine List.Nodup.sublist (List.Sublist.map _ ?_) distinct
    have weaker : elf.symbols.filter isGlobal = (elf.symbols.filter fun s => s.bind != STB_LOCAL).filter isGlobal := by
      rw [List.filter_filter]
      apply List.filter_congr
      intro s _
      cases taken : isGlobal s with
      | false => rfl
      | true => simp [((isGlobal_iff s).mp taken).1]
    rw [weaker]
    exact List.filter_sublist
  have sorted := sortedTable_run sort kept
  rw [← makeGlobalSyms_ok made] at sorted
  exact List.pairwise_map.mp sorted

theorem isGlobalName_iff (made : makeGlobalSyms sort elf = .ok syms) (name : Bytes) :
    IsGlobalName elf name ↔ ∃ e ∈ syms.exportSymList, e.name = name := by
  constructor
  · rintro ⟨s, member, taken, rfl⟩
    obtain ⟨i, at_i⟩ := List.mem_iff_getElem?.mp member
    exact ⟨_, (mem_exportSymList made).mpr ⟨i, s, at_i, taken, rfl⟩, rfl⟩
  · rintro ⟨e, member, rfl⟩
    obtain ⟨i, s, at_i, taken, rfl⟩ := (mem_exportSymList made).mp member
    exact ⟨s, List.mem_of_getElem? at_i, taken, rfl⟩

theorem namesContinued_iff (made : makeGlobalSyms sort elf = .ok syms)
    (distinct : ((elf.symbols.filter fun s => s.bind != STB_LOCAL).map fun s => s.name).Nodup) :
    NamesContinued syms.exportSymList ↔ NamesReadable elf := by
  have listed : (fun name => ∃ e ∈ [] ++ syms.exportSymList, e.name = name) = IsGlobalName elf := by
    funext name
    rw [List.nil_append, isGlobalName_iff made]
  have ascending : Ascending ([] ++ syms.exportSymList) := exportSymList_ascending made distinct
  rw [namesContinued_iff_follows ascending, listed]
  constructor
  · intro continued s member taken long
    obtain ⟨i, at_i⟩ := List.mem_iff_getElem?.mp member
    exact continued _ ((mem_exportSymList made).mpr ⟨i, s, at_i, taken, rfl⟩) long
  · intro readable e member long
    obtain ⟨i, s, at_i, taken, rfl⟩ := (mem_exportSymList made).mp member
    exact readable s (List.mem_of_getElem? at_i) taken long

/-- A readable table is the sorted list of the global symbols. -/
theorem readGlobalSyms_readable (made : makeGlobalSyms sort elf = .ok syms)
    (distinct : ((elf.symbols.filter fun s => s.bind != STB_LOCAL).map fun s => s.name).Nodup)
    (small : (globalSymWrite syms.exportSymList).length < 2 ^ 31) (readable : NamesReadable elf) :
    readGlobalSyms (globalSymWrite syms.exportSymList) = syms.exportSymList.map loadedSymbol ∧
    SortedTable (readGlobalSyms (globalSymWrite syms.exportSymList)) := by
  have table : readGlobalSyms (globalSymWrite syms.exportSymList) = syms.exportSymList.map loadedSymbol := by
    rw [readGlobalSyms_globalSymWrite small, storedSymbols_eq_iff (exportSymList_terminated made),
      namesContinued_iff made distinct]
    exact readable
  refine ⟨table, ?_⟩
  rw [table]
  exact List.pairwise_map.mpr (exportSymList_ascending made distinct)

/-- After `uso_init` the loader's lookups in the global table are those in the program's ELF exactly
if no long name loses what completes it. -/
theorem globalsFaithful_iff (made : makeGlobalSyms sort elf = .ok syms)
    (distinct : ((elf.symbols.filter fun s => s.bind != STB_LOCAL).map fun s => s.name).Nodup)
    (small : (globalSymWrite syms.exportSymList).length < 2 ^ 31) (st : LoaderState) :
    GlobalsFaithful elf (usoInit st (globalSymWrite syms.exportSymList)) ↔ NamesReadable elf := by
  constructor
  · intro faithful
    rw [← namesContinued_iff made distinct, ← storedSymbols_eq_iff (exportSymList_terminated made)]
    refine storedSymbols_of_found (exportSymList_ascending made distinct) ?_
    intro e member
    obtain ⟨i, s, at_i, taken, rfl⟩ := (mem_exportSymList made).mp member
    have looked := faithful.found s (List.mem_of_getElem? at_i) taken
    rw [usoInit, readGlobalSyms_globalSymWrite small] at looked
    change searchSymbolTable (some (storedSymbols syms.exportSymList)) s.name ≠ 0
    rw [show searchSymbolTable (some (storedSymbols syms.exportSymList)) s.name = s.value from looked]
    exact ((isGlobal_iff s).mp taken).2.1
  · intro readable
    obtain ⟨table, sorted⟩ := readGlobalSyms_readable made distinct small readable
    have globals : (usoInit st (globalSymWrite syms.exportSymList)).globalSyms =
        some (syms.exportSymList.map loadedSymbol) := congrArg some table
    rw [table] at sorted
    constructor
    · intro s member taken
      obtain ⟨i, at_i⟩ := List.mem_iff_getElem?.mp member
      have present := (mem_exportSymList made).mpr ⟨i, s, at_i, taken, rfl⟩
      rw [globals]
      have complete := fun e => @searchSymbolTable_complete (some (syms.exportSymList.map loadedSymbol)) sorted e
      exact (complete (loadedSymbol (globalSymbol i s)) (List.mem_map_of_mem present)).trans (exportSymbol_ptr i s 0)
    · intro name _ absent
      rw [globals]
      apply Decidable.byContradiction
      intro found
      obtain ⟨e, member, named, -⟩ := searchSymbolTable_sound found
      obtain ⟨t, present, rfl⟩ := List.mem_map.mp member
      exact absent ((isGlobalName_iff made name).mpr ⟨t, present, named⟩)

end

/-! A program with one global symbol, under a short name or under a long one. -/

def mainElf (symbols : List ElfSymbol) : MainElf where
  elfClass := ELFCLASS32
  encoding := ELFDATA2MSB
  machine := EM_MIPS
  type := ET_EXEC
  sections := [nullSection, symtabSection symbols]

def globalF : ElfSymbol := { exportedF with value := 0x80000400 }

/-- `f` repeated 65536 times. -/
def longName : Bytes := List.replicate 65536 102

theorem longName_length : longName.length = 65536 := List.length_replicate

theorem longName_terminated : 0 ∉ longName := by
  intro member
  exact absurd (List.eq_of_mem_replicate member) (by decide)

def globalLong : ElfSymbol := { globalF with name := longName, name_terminated := longName_terminated }

theorem makeGlobalSyms_one {s : ElfSymbol} (taken : isGlobal s = true) (sort : SymSort) :
    makeGlobalSyms sort (mainElf [nullSymbol, s]) =
      .ok { exportSymList := [globalSymbol 1 s], reported := if 32767 ≤ s.name.length then [1] else [] } := by
  obtain ⟨nonlocal, some, exported⟩ := (isGlobal_iff s).mp taken
  have valid : mainElfValid (mainElf [nullSymbol, s]) = true := rfl
  have skipped : collectGlobal 0 nullSymbol { exportSymList := [], reported := [] } =
      .ok { exportSymList := [], reported := [] } := rfl
  have kept : collectGlobal 1 s { exportSymList := [], reported := [] } =
      .ok { exportSymList := [globalSymbol 1 s], reported := if 32767 ≤ s.name.length then [1] else [] } := by
    rw [collectGlobal, if_neg nonlocal, if_neg fun null => some null.2, if_neg some]
    simp only [exported, ↓reduceIte, List.nil_append]
  have symbols : (mainElf [nullSymbol, s]).symbols = [nullSymbol, s] := rfl
  have sorted : sort.run [globalSymbol 1 s] = [globalSymbol 1 s] := sort_short sort (Nat.le_refl 1)
  rw [makeGlobalSyms, if_neg (by rw [valid]; exact Bool.noConfusion), symbols]
  simp only [globalCollectLoop, skipped, kept, Nat.zero_add, sorted]

/-- One symbol takes a count, a record and its stored name. -/
theorem globalSymWrite_one (i : Nat) (s : ElfSymbol) : (globalSymWrite [globalSymbol i s]).length ≤ 65552 := by
  have within : Within 0 65552 (usoWriteSymbolTable 0 [globalSymbol i s]) := by
    intro w member
    have cut := Nat.mod_lt s.name.length (by decide : 65536 > 0)
    have named : (globalSymbol i s).name = s.name := rfl
    simp only [usoWriteSymbolTable, usoWriteU32, writeSymbolLoop, List.mem_append, List.mem_cons, List.not_mem_nil,
      or_false] at member
    rcases member with rfl | rfl | rfl
    · refine ⟨Nat.zero_le _, ?_⟩
      rw [Write.stop, be32_length]
      exact Nat.le_of_ble_eq_true rfl
    · refine ⟨Nat.zero_le _, ?_⟩
      rw [Write.stop, symbolBytes_length]
      exact Nat.le_of_ble_eq_true rfl
    · refine ⟨Nat.zero_le _, ?_⟩
      rw [Write.stop, symbolNameBytes_length, named]
      change 16 + (s.name.length % 65536 + 1) ≤ 65552
      omega
  exact within.length_run

theorem distinct_one {s : ElfSymbol} (nonlocal : s.bind ≠ STB_LOCAL) :
    (((mainElf [nullSymbol, s]).symbols.filter fun s => s.bind != STB_LOCAL).map fun s => s.name).Nodup := by
  have kept : (mainElf [nullSymbol, s]).symbols.filter (fun s => s.bind != STB_LOCAL) = [s] := by
    have symbols : (mainElf [nullSymbol, s]).symbols = [nullSymbol, s] := rfl
    have skipped : (nullSymbol.bind != STB_LOCAL) = false := by decide
    rw [symbols, List.filter_cons, skipped, List.filter_cons, bne_iff_ne.mpr nonlocal]
    rfl
  rw [kept]
  exact List.nodup_singleton _

theorem globalsFaithful_iff_globalF :
    GlobalsFaithful (mainElf [nullSymbol, globalF]) (initialState (fun _ => 0) (globalSymWrite [globalSymbol 1 globalF])) ↔
      NamesReadable (mainElf [nullSymbol, globalF]) :=
  globalsFaithful_iff (makeGlobalSyms_one (by decide) nameSort) (distinct_one (by decide))
    (Nat.lt_of_le_of_lt (globalSymWrite_one 1 globalF) (by decide)) _

/-- The long name is reported and written all the same, and then it is not found. -/
theorem globalLong_fails :
    makeGlobalSyms nameSort (mainElf [nullSymbol, globalLong]) =
      .ok { exportSymList := [globalSymbol 1 globalLong], reported := [1] } ∧
    (((mainElf [nullSymbol, globalLong]).symbols.filter fun s => s.bind != STB_LOCAL).map fun s => s.name).Nodup ∧
    (globalSymWrite [globalSymbol 1 globalLong]).length < 2 ^ 31 ∧
    ∀ st, ¬ GlobalsFaithful (mainElf [nullSymbol, globalLong]) (usoInit st (globalSymWrite [globalSymbol 1 globalLong])) := by
  have named : globalLong.name = longName := rfl
  have exported : symIsExported longName = true := by
    have lengths : ∀ name ∈ unexportedSymbols, name.length < 65536 := by decide
    rw [symIsExported, List.all_eq_true]
    intro name member
    apply bne_iff_ne.mpr
    rintro rfl
    exact absurd longName_length (Nat.ne_of_lt (lengths _ member))
  have taken : isGlobal globalLong = true := (isGlobal_iff globalLong).mpr ⟨by decide, by decide, exported⟩
  have made := makeGlobalSyms_one taken nameSort
  have distinct := distinct_one (s := globalLong) (by decide)
  have small : (globalSymWrite [globalSymbol 1 globalLong]).length < 2 ^ 31 :=
    Nat.lt_of_le_of_lt (globalSymWrite_one 1 globalLong) (by decide)
  refine ⟨?_, distinct, small, ?_⟩
  · rw [made, named, longName_length]
    rfl
  · intro st faithful
    have readable := (globalsFaithful_iff made distinct small st).mp faithful
    have inTable : globalLong ∈ (mainElf [nullSymbol, globalLong]).symbols := by
      change globalLong ∈ [nullSymbol, globalLong]
      simp
    obtain ⟨s, member, global, same⟩ :=
      (readable globalLong inTable taken (by rw [named, longName_length])).present
    have cut : s.name.length = 65535 := by
      rw [same, List.length_drop, named, longName_length]
    rcases List.mem_cons.mp (show s ∈ [nullSymbol, globalLong] from member) with rfl | only
    · exact absurd ((isGlobal_iff _).mp global).1 (by decide)
    · rw [List.mem_singleton.mp only, named, longName_length] at cut
      cases cut

end DragonUso.GlobalTable
