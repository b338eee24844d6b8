import Mathlib.Data.List.TakeWhile
import EryDb.RowAggregation

/-!
# The result tables of an aggregation

A result row stores a copy of its key, and later rows are compared with the copy. As long as every
key equals its copy, a table is a map from keys to cells: each row updates the cells of its own
key. Then the cells of a key after a run are the fold over the rows of that key, in both phases.
-/

namespace RowAggregation

open List (foldlM_cons forall_mem_cons length_take map_append map_cons map_nil mem_append mem_cons
  mem_map take_of_length_le)
open BrmTypes GroupFolds
open LittleEndian (Byte)
open StringStore (cpNullStrMark)

section WideColumns

variable {c : Column}

lemma setField_wide (wide : c.width = 8) (v : BitVec 64) : setField c v = ⟨v, []⟩ := by
  have narrow : 8 * c.width = 64 := by omega
  unfold setField
  rw [narrow, BitVec.setWidth_eq, BitVec.setWidth_eq]

lemma getUintField_wide (wide : c.width = 8) (f : Field) : getUintField c f = f.word := by
  have narrow : 8 * c.width = 64 := by omega
  unfold getUintField bits
  rw [narrow, BitVec.setWidth_eq, BitVec.setWidth_eq]

lemma getIntField_wide (wide : c.width = 8) (f : Field) : getIntField c f = f.word := by
  have narrow : 8 * c.width = 64 := by omega
  unfold getIntField bits
  rw [narrow, BitVec.setWidth_eq, BitVec.signExtend_eq]

end WideColumns

section Keys

/-- A key column that its copy in the result row equals: a FLOAT is no NaN but the NULL marker, a
long string fits its column, and is not changed by the place where the result rows keep it. -/
def Kept (c : Column) (f : Field) : Prop :=
  match c.type with
  | .tinyint | .smallint | .medint | .int | .bigint | .decimal | .udecimal
  | .utinyint | .usmallint | .umedint | .uint | .ubigint | .double | .udouble
  | .date | .datetime => True
  | .char | .varchar =>
    c.width ≤ 8 ∨ (f.text.length ≤ c.width ∧
      if c.inTable then
        f.text.length = 9 → f.text.take 8 = cpNullStrMark → f.text = cpNullStrMark ++ [0]
      else 0 ∉ f.text)
  | .float | .ufloat =>
    getUintField c f = ((getUintField c f).setWidth 32).setWidth 64 ∧
      (isnan ((getUintField c f).setWidth 32) = true → (getUintField c f).setWidth 32 = floatNull)
  | _ => getUintField c f = 0

variable (c : Column) (f : Field) {s : List Byte}

lemma storeString_eq_self : storeString s = s ↔
    (s.length = 9 → s.take 8 = cpNullStrMark → s = cpNullStrMark ++ [0]) := by
  unfold storeString
  split_ifs with marked
  · obtain ⟨eight | nine, start⟩ := marked
    · have hwh : s = cpNullStrMark := by
        rw [← start, take_of_length_le (by omega)]
      constructor
      · intro _ nine
        omega
      · intro _
        rw [hwh]
        rfl
    · rw [nine]
      constructor
      · intro he _ _
        exact he.symm
      · intro implied
        exact (implied rfl start).symm
  · exact ⟨fun _ nine start => absurd ⟨Or.inr nine, start⟩ marked, fun _ => rfl⟩

lemma length_storeString (s : List Byte) : (storeString s).length = s.length := by
  unfold storeString
  split
  · rename_i marked
    obtain ⟨eight | nine, -⟩ := marked
    · rw [eight]
      rfl
    · rw [nine]
      rfl
  · rfl

lemma takeWhile_eq_self : s.takeWhile (· ≠ 0) = s ↔ (0 : Byte) ∉ s := by
  rw [List.takeWhile_eq_self_iff]
  constructor
  · intro all mem
    simpa using all 0 mem
  · intro hab b mem
    simp only [ne_eq, decide_not, Bool.not_eq_eq_eq_not, Bool.not_true, decide_eq_false_iff_not]
    rintro rfl
    exact hab mem

lemma setStringField_eq_self {c : Column} : setStringField c s = ⟨0, s⟩ ↔ s.length ≤ c.width ∧
      if c.inTable then s.length = 9 → s.take 8 = cpNullStrMark → s = cpNullStrMark ++ [0]
      else 0 ∉ s := by
  unfold setStringField
  by_cases fits : s.length ≤ c.width
  · rw [take_of_length_le fits]
    split_ifs
    · rw [Field.mk.injEq, storeString_eq_self]
      simp [fits]
    · rw [Field.mk.injEq, takeWhile_eq_self]
      simp [fits]
  · have cut : (s.take c.width).length < s.length := by
      rw [length_take]
      omega
    refine ⟨fun he => ?_, fun both => absurd both.1 fits⟩
    by_cases table : c.inTable = true
    · rw [if_pos table, Field.mk.injEq] at he
      have := length_storeString (s.take c.width)
      rw [he.2] at this
      omega
    · rw [if_neg table, Field.mk.injEq] at he
      have := (List.takeWhile_prefix (l := s.take c.width) (fun b => decide (b ≠ 0))).length_le
      rw [he.2] at this
      omega

lemma setFloatBits_eq_self (u : BitVec 64) : setFloatBits (u.setWidth 32) = ⟨u, []⟩ ↔
    u = (u.setWidth 32).setWidth 64 ∧
      (isnan (u.setWidth 32) = true → u.setWidth 32 = floatNull) := by
  simp only [setFloatBits, Field.mk.injEq, and_true]
  constructor
  · intro he
    have bits := congrArg (BitVec.setWidth 32) he
    rw [BitVec.setWidth_setWidth_of_le _ (by omega), BitVec.setWidth_eq] at bits
    refine ⟨by rw [← bits, he], fun nan => ?_⟩
    rw [← bits, if_pos nan]
  · rintro ⟨narrow, marker⟩
    split_ifs with nan
    · rw [← marker nan, ← narrow]
    · rw [← narrow]

lemma kept_iff : Kept c f ↔ copyKey c (readKey c f) = readKey c f := by
  have word : isCharType c.type = false → readKey c f = ⟨getUintField c f, []⟩ := by
    intro hpl
    simp [readKey, isLongString, hpl]
  cases type : c.type
  case char | varchar =>
    by_cases short : c.width ≤ 8
    · simp [Kept, copyKey, type, short]
    have long : readKey c f = ⟨0, f.text⟩ := by
      simp [readKey, isLongString, type, isCharType]
      omega
    simp only [Kept, copyKey, type, long, if_neg short, setStringField_eq_self]
    simp [short]
  case float | ufloat =>
    have reads := word (by rw [type]; rfl)
    simp only [Kept, copyKey, type, reads]
    exact (setFloatBits_eq_self _).symm
  all_goals
    have reads := word (by rw [type]; rfl)
    simp [Kept, copyKey, type, reads, Field.zero, eq_comm]

lemma storeString_idem (s : List Byte) : storeString (storeString s) = storeString s := by
  rw [storeString_eq_self, length_storeString]
  intro nine start
  by_cases marked : s.take 8 = cpNullStrMark
  · rw [storeString, if_pos ⟨Or.inr nine, marked⟩, nine]
    rfl
  · rw [storeString, if_neg fun both => marked both.2] at start
    exact absurd start marked

lemma setStringField_idem (s : List Byte) :
    setStringField c (setStringField c s).text = setStringField c s := by
  unfold setStringField
  by_cases table : c.inTable = true
  · simp only [if_pos table]
    have fits : (storeString (s.take c.width)).length ≤ c.width := by
      rw [length_storeString, length_take]
      omega
    rw [take_of_length_le fits, storeString_idem]
  simp only [if_neg table]
  have fits : ((s.take c.width).takeWhile (· ≠ 0)).length ≤ c.width := by
    refine (List.takeWhile_prefix _).length_le.trans ?_
    rw [length_take]
    omega
  rw [take_of_length_le fits, List.takeWhile_idem]

lemma setFloatBits_idem (v : BitVec 32) :
    setFloatBits ((setFloatBits v).word.setWidth 32) = setFloatBits v := by
  by_cases nan : isnan v = true
  · simp [setFloatBits, if_pos nan]
  · simp [setFloatBits, if_neg nan]

lemma copyKey_idem : copyKey c (copyKey c f) = copyKey c f := by
  cases type : c.type
  case char | varchar =>
    by_cases short : c.width ≤ 8
    · simp [copyKey, type, short]
    · simp only [copyKey, type, if_neg short]
      exact setStringField_idem c f.text
  case float | ufloat =>
    simp only [copyKey, type]
    exact setFloatBits_idem _
  all_goals simp [copyKey, type]

variable (q : Query)

lemma copy_idem (key : Key) : q.copy (q.copy key) = q.copy key := by
  unfold Query.copy
  induction q.fGroupByCols generalizing key with
  | nil => rfl
  | cons i cols ih =>
    cases key with
    | nil => rfl
    | cons f key =>
      rw [List.zipWith_cons_cons, List.zipWith_cons_cons, copyKey_idem, ih]

lemma copy_key_iff (row : Row) :
    q.copy (q.key row) = q.key row ↔ ∀ i ∈ q.fGroupByCols, Kept (q.cols i) (row i) := by
  unfold Query.copy Query.key
  induction q.fGroupByCols with
  | nil => simp
  | cons i cols ih =>
    rw [map_cons, List.zipWith_cons_cons, List.cons.injEq, ih, ← kept_iff,
      forall_mem_cons]

end Keys

section Rows

variable {q : Query} {env : Setting} {update : List Cell → Except Error (List Cell)}
  {key : Key} {t t' : Table}

/-- Every entry is filed under the key it holds. -/
def Filed (t : Table) : Prop := ∀ e ∈ t.entries, e.filed = e.key

/-- Every entry holds a key that its copy equals. -/
def Copied (q : Query) (t : Table) : Prop := ∀ e ∈ t.entries, q.copy e.key = e.key

lemma updateFound_some {found : Entry → Bool} {entries entries' : List Entry}
    {updated : Except Error (List Entry)} (hit : updateFound found update entries = some updated)
    (ran : updated = .ok entries') :
    ∃ front e back cells, entries = front ++ e :: back ∧ found e = true ∧
      (∀ d ∈ front, found d = false) ∧ update e.cells = .ok cells ∧
      entries' = front ++ { e with cells := cells } :: back := by
  induction entries generalizing updated entries' with
  | nil => cases hit
  | cons e entries ih =>
    rw [updateFound] at hit
    split_ifs at hit with hh
    · rw [Option.some.injEq] at hit
      subst hit
      obtain ⟨cells, hste, he⟩ := bind_ok.mp ran
      cases he
      exact ⟨[], e, entries, cells, rfl, hh, by simp, hste, rfl⟩
    rw [Option.map_eq_some_iff] at hit
    obtain ⟨rest, later, rfl⟩ := hit
    obtain ⟨entries'', ran', he⟩ := bind_ok.mp ran
    cases he
    obtain ⟨front, e', back, cells, rfl, hf', misses, hste, rfl⟩ := ih later ran'
    exact ⟨e :: front, e', back, cells, rfl, hf',
      forall_mem_cons.mpr ⟨by simpa using hh, misses⟩, hste, rfl⟩

lemma updateFound_none {found : Entry → Bool} {entries : List Entry}
    (miss : updateFound found update entries = none) : ∀ d ∈ entries, found d = false := by
  induction entries with
  | nil => simp
  | cons e entries ih =>
    rw [updateFound] at miss
    by_cases hh : found e = true
    · rw [if_pos hh] at miss
      cases miss
    · rw [if_neg hh, Option.map_eq_none_iff] at miss
      exact forall_mem_cons.mpr ⟨by simpa using hh, ih miss⟩

variable (ran : aggregateRow q env update key t = .ok t')
include ran

/-- Everything a row can do to a table: it updates an entry of its key, or adds one. -/
lemma aggregateRow_cases : (∃ front e back cells, t.entries = front ++ e :: back ∧ e.key = key ∧
      (∀ d ∈ front, d.key = key → d.filed ≠ key) ∧ update e.cells = .ok cells ∧
      t'.entries = front ++ { e with cells := cells } :: back) ∨
    (∃ cells, (∀ d ∈ t.entries, d.key = key → d.filed ≠ key) ∧
      update q.nullRow = .ok cells ∧ t'.entries = t.entries ++ [⟨q.copy key, key, cells⟩]) := by
  simp only [aggregateRow] at ran
  split at ran
  · rename_i hup hit
    obtain ⟨entries, ran', he⟩ := bind_ok.mp ran
    cases he
    obtain ⟨front, e, back, cells, split, hf, misses, hste, he⟩ := updateFound_some hit ran'
    refine Or.inl ⟨front, e, back, cells, split, (of_decide_eq_true hf).1, ?_, hste, he⟩
    intro d mem key_eq filed_eq
    exact of_decide_eq_false (misses d mem) ⟨key_eq, Or.inl filed_eq⟩
  · rename_i miss
    split at ran
    · cases ran
    · obtain ⟨cells, hste, he⟩ := bind_ok.mp ran
      cases he
      refine Or.inr ⟨cells, fun d mem key_eq filed_eq => ?_, hste, rfl⟩
      exact of_decide_eq_false (updateFound_none miss d mem) ⟨key_eq, Or.inl filed_eq⟩

/-- What the keys of all old entries and of a new one have, those of the new table have. -/
lemma aggregateRow_keys {P : Key → Key → Prop} (old : ∀ e ∈ t.entries, P e.filed e.key)
    (new : P key (q.copy key)) : ∀ e ∈ t'.entries, P e.filed e.key := by
  obtain ⟨front, e, back, cells, split, -, -, -, he⟩ | ⟨cells, -, -, he⟩ := aggregateRow_cases ran
  · rw [split, List.forall_mem_append, forall_mem_cons] at old
    rw [he, List.forall_mem_append, forall_mem_cons]
    exact old
  · rw [he, List.forall_mem_append, List.forall_mem_singleton]
    exact ⟨old, new⟩

/-- Whatever the keys, a table holds copies only. -/
lemma aggregateRow_copied (hcp : Copied q t) : Copied q t' :=
  aggregateRow_keys (P := fun _ k => q.copy k = k) ran hcp (copy_idem q key)

/-- A row whose key equals its copy updates the cells of its key. -/
lemma aggregateRow_upsert (filed : Filed t) (kept : q.copy key = key) :
    upsert q.nullRow update key t.rows = .ok t'.rows ∧ Filed t' := by
  refine ⟨?_, aggregateRow_keys ran filed kept.symm⟩
  obtain ⟨front, e, back, cells, split, hh, hos, hste, he⟩ |
    ⟨cells, hos, hste, he⟩ := aggregateRow_cases ran
  · have hb : ∀ d ∈ front.map (fun e => (e.key, e.cells)), d.1 ≠ key := by
      intro row hm
      obtain ⟨d, mem, rfl⟩ := mem_map.mp hm
      intro key_eq
      exact hos d mem key_eq ((filed d (by simp [split, mem])).trans key_eq)
    simp only [Table.rows, split, he, map_append, map_cons, hh]
    exact upsert_old hb hste
  · have hb : ∀ d ∈ t.rows, d.1 ≠ key := by
      intro row hm
      obtain ⟨d, mem, rfl⟩ := mem_map.mp hm
      intro key_eq
      exact hos d mem key_eq ((filed d mem).trans key_eq)
    simp only [Table.rows, he, map_append, map_cons, map_nil, kept]
    exact upsert_new hb hste

omit ran

/-- A row is only turned away for want of memory, if its update returns. -/
lemma aggregateRow_returns (hgr : ∀ n, env.memory n = true)
    (updates : ∀ cells, ∃ cells', update cells = .ok cells') :
    ∃ t', aggregateRow q env update key t = .ok t' := by
  have found_returns (found : Entry → Bool) (entries : List Entry) :
      ∀ hup, updateFound found update entries = some hup →
        ∃ entries', hup = .ok entries' := by
    induction entries with
    | nil => rintro hup ⟨⟩
    | cons e entries ih =>
      intro hup hit
      rw [updateFound] at hit
      split at hit
      · cases hit
        obtain ⟨cells, hste⟩ := updates e.cells
        exact ⟨_, bind_ok.mpr ⟨cells, hste, rfl⟩⟩
      · obtain ⟨rest, later, rfl⟩ := Option.map_eq_some_iff.mp hit
        obtain ⟨entries', ran⟩ := ih rest later
        exact ⟨_, bind_ok.mpr ⟨entries', ran, rfl⟩⟩
  simp only [aggregateRow]
  split
  · rename_i hup hit
    obtain ⟨entries', ran⟩ := found_returns _ _ hup hit
    exact ⟨_, bind_ok.mpr ⟨entries', ran, rfl⟩⟩
  · obtain ⟨cells, hste⟩ := updates q.nullRow
    simp only [hgr, Bool.true_eq_false, and_false, if_false]
    exact ⟨_, bind_ok.mpr ⟨cells, hste, rfl⟩⟩

end Rows

section Runs

variable {q : Query} {env : Setting} {β : Type} {update : List Cell → β → Except Error (List Cell)}
  {rows : List (Key × β)} {t t' : Table}

/-- A run over rows given with their keys. -/
def feed (q : Query) (env : Setting) (update : List Cell → β → Except Error (List Cell))
    (rows : List (Key × β)) (t : Table) : Except Error Table :=
  rows.foldlM (fun t row => aggregateRow q env (update · row.2) row.1 t) t

lemma feed_cons_ok {row : Key × β} : feed q env update (row :: rows) t = .ok t' ↔
    ∃ mid, aggregateRow q env (update · row.2) row.1 t = .ok mid ∧
      feed q env update rows mid = .ok t' := by
  rw [feed, foldlM_cons, bind_ok]
  rfl

lemma feed_ok (ran : feed q env update rows t = .ok t') (filed : Filed t)
    (kept : ∀ row ∈ rows, q.copy row.1 = row.1) :
    foldRows q.nullRow update rows t.rows = .ok t'.rows := by
  induction rows generalizing t with
  | nil =>
    cases ran
    rfl
  | cons row rows ih =>
    obtain ⟨mid, first, rest⟩ := feed_cons_ok.mp ran
    obtain ⟨head, tail⟩ := forall_mem_cons.mp kept
    obtain ⟨hup, filed'⟩ := aggregateRow_upsert first filed head
    rw [foldRows, foldlM_cons]
    exact bind_ok.mpr ⟨mid.rows, hup, ih rest filed' tail⟩

lemma feed_copied (ran : feed q env update rows t = .ok t') (hcp : Copied q t) : Copied q t' := by
  induction rows generalizing t with
  | nil =>
    cases ran
    exact hcp
  | cons row rows ih =>
    obtain ⟨mid, first, rest⟩ := feed_cons_ok.mp ran
    exact ih rest (aggregateRow_copied first hcp)

lemma feed_returns (hgr : ∀ n, env.memory n = true)
    (updates : ∀ cells b, ∃ cells', update cells b = .ok cells') :
    ∃ t', feed q env update rows t = .ok t' := by
  induction rows generalizing t with
  | nil => exact ⟨t, rfl⟩
  | cons row rows ih =>
    obtain ⟨mid, first⟩ := @aggregateRow_returns q env (update · row.2) row.1 t hgr
      fun cells => updates cells row.2
    obtain ⟨t', rest⟩ := @ih mid
    exact ⟨t', feed_cons_ok.mpr ⟨mid, first, rest⟩⟩

lemma start_filed (q : Query) : Filed q.start := by
  unfold Filed Query.start
  split <;> simp

lemma start_copied (q : Query) : Copied q q.start := by
  unfold Copied Query.start
  split
  · rename_i none
    simp [Query.copy, none]
  · simp

/-- Before the first row a key has the NULL row, whether it has an entry or not. -/
lemma lookup_start (q : Query) (k : Key) : (lookup k q.start.rows).getD q.nullRow = q.nullRow := by
  unfold Query.start Table.rows
  split
  · simp only [map_cons, map_nil, lookup]
    split <;> rfl
  · rfl

lemma nodup_start (q : Query) : (q.start.rows.map Prod.fst).Nodup := by
  unfold Query.start Table.rows
  split <;> simp

end Runs

section Phases

variable {q : Query}

/-- The rows of a phase one run, with their keys. -/
def keyed (q : Query) (rows : List Row) : List (Key × Row) := rows.map fun row => (q.key row, row)

/-- The table of a lone COUNT(*) without GROUP BY. -/
def countTable (w : BitVec 64) : Table := ⟨[⟨[], [], [⟨⟨w, []⟩, .zero⟩]⟩], 0, aggRowGroupSize⟩

/-- Counting a row group at once is counting its rows. -/
lemma feed_countTable {f : FunctionCol} (none : q.fGroupByCols = [])
    (only : q.fFunctionCols = [f]) (count : f.func = .countAsterisk) (env : Setting)
    (rows : List Row) (w : BitVec 64) :
    feed q env q.updateEntry (keyed q rows) (countTable w) =
      .ok (countTable (w + BitVec.ofNat 64 rows.length)) := by
  induction rows generalizing w with
  | nil => simp [feed, keyed, countTable, pure, Except.pure]
  | cons row rows ih =>
    have hup : q.updateEntry [⟨⟨w, []⟩, .zero⟩] row = .ok [⟨⟨w + 1, []⟩, .zero⟩] := by
      simp only [Query.updateEntry, only, map_cons, map_nil, along, updateCell, count]
      rw [setField_wide rfl, getIntField_wide rfl]
      rfl
    have first : aggregateRow q env (q.updateEntry · row) (q.key row) (countTable w) =
        .ok (countTable (w + 1)) := by
      simp only [aggregateRow, countTable, Query.key, none, map_nil, updateFound, true_or,
        and_self, decide_true, if_true, hup]
      rfl
    refine feed_cons_ok.mpr ⟨_, first, (ih (w + 1)).trans ?_⟩
    rw [List.length_cons, BitVec.add_assoc, Nat.add_comm, BitVec.ofNat_add]
    rfl

lemma start_countTable {f : FunctionCol} (none : q.fGroupByCols = [])
    (only : q.fFunctionCols = [f]) (count : f.func = .countAsterisk) : q.start = countTable 0 := by
  simp only [Query.start, none, if_true, Query.nullRow, only, map_cons, map_nil, count,
    makeAggFieldsNull]
  rfl

lemma addRowGroup_countTable (none : q.fGroupByCols = [])
    (count : q.fFunctionCols.map FunctionCol.func = [.countAsterisk]) (env : Setting)
    (rows : List Row) (w : BitVec 64) :
    addRowGroup q env (countTable w) rows = .ok (countTable (w + BitVec.ofNat 64 rows.length)) := by
  rw [addRowGroup, if_pos ⟨none, count⟩]
  simp only [countTable, map_cons, map_nil, countSpecial]
  rw [setField_wide rfl, getIntField_wide rfl]

/-- Row groups only cut the rows of a run into pieces. -/
lemma aggregate_eq_feed (plain : Nat → Key → Key → Bool) (groups : List (List Row)) :
    aggregate q plain groups =
      feed q ⟨plain, fun _ => true⟩ q.updateEntry (keyed q groups.flatten) q.start := by
  by_cases special : q.fGroupByCols = [] ∧ q.fFunctionCols.map FunctionCol.func = [.countAsterisk]
  · obtain ⟨none, count⟩ := special
    obtain ⟨f, only, func⟩ : ∃ f, q.fFunctionCols = [f] ∧ f.func = .countAsterisk := by
      obtain ⟨f, rest, only, func, hem⟩ := List.map_eq_cons_iff.mp count
      rw [List.map_eq_nil_iff.mp hem] at only
      exact ⟨f, only, func⟩
    rw [start_countTable none only func, feed_countTable none only func, aggregate,
      start_countTable none only func]
    generalize (0 : BitVec 64) = w
    induction groups generalizing w with
    | nil => simp [pure, Except.pure]
    | cons rows groups ih =>
      rw [foldlM_cons]
      refine bind_ok.mpr ⟨_, addRowGroup_countTable none count _ rows w, (ih _).trans ?_⟩
      rw [List.flatten_cons, List.length_append, BitVec.ofNat_add, BitVec.add_assoc]
  · rw [aggregate]
    generalize q.start = t
    induction groups generalizing t with
    | nil => rfl
    | cons rows groups ih =>
      rw [foldlM_cons, List.flatten_cons, keyed, map_append, feed, List.foldlM_append]
      rw [addRowGroup, if_neg special, List.foldlM_map]
      exact congrArg _ (funext fun mid => ih mid)

end Phases

section Groups

variable {q : Query} {env : Setting} {β : Type} {update : List Cell → β → Except Error (List Cell)}
  {rows : List (Key × β)} {t : Table}

/-- A table that holds, for each key, the fold over the rows of that key. -/
structure Grouped (q : Query) (update : List Cell → β → Except Error (List Cell))
    (rows : List (Key × β)) (t : Table) : Prop where
  folds : ∀ k, (rowsOf k rows).foldlM update q.nullRow = .ok ((lookup k t.rows).getD q.nullRow)
  keys : ∀ k, k ∈ t.rows.map Prod.fst ↔ k ∈ q.start.rows.map Prod.fst ∨ k ∈ rows.map Prod.fst
  nodup : (t.rows.map Prod.fst).Nodup

lemma feed_grouped (ran : feed q env update rows q.start = .ok t)
    (kept : ∀ row ∈ rows, q.copy row.1 = row.1) : Grouped q update rows t := by
  have hfo := feed_ok ran (start_filed q) kept
  obtain ⟨folds, keys, nodup⟩ := foldRows_ok hfo
  refine ⟨fun k => ?_, keys, nodup (nodup_start q)⟩
  have fold := folds k
  rwa [lookup_start] at fold

lemma aggregate_grouped {placed : Nat → Key → Key → Bool} {groups : List (List Row)}
    (ran : aggregate q placed groups = .ok t)
    (kept : ∀ row ∈ groups.flatten, q.copy (q.key row) = q.key row) :
    Grouped q q.updateEntry (keyed q groups.flatten) t := by
  rw [aggregate_eq_feed] at ran
  refine feed_grouped ran fun keyedRow hm => ?_
  obtain ⟨row, mem, rfl⟩ := mem_map.mp hm
  exact kept row mem

lemma aggregate_copied {placed : Nat → Key → Key → Bool} {groups : List (List Row)}
    (ran : aggregate q placed groups = .ok t) : Copied q t := by
  rw [aggregate_eq_feed] at ran
  exact feed_copied ran (start_copied q)

lemma copied_rows (hcp : Copied q t) : ∀ part ∈ t.rows, q.copy part.1 = part.1 := by
  intro part hm
  obtain ⟨e, mem, rfl⟩ := mem_map.mp hm
  exact hcp e mem

/-- Phase two meets copies only, whatever the keys of the input rows. -/
lemma ump2_grouped {parts : List (Key × List Cell)} (ran : UMP2.aggregate q env parts = .ok t)
    (kept : ∀ part ∈ parts, q.copy part.1 = part.1) :
    Grouped q (UMP2.updateEntry q) parts t :=
  feed_grouped ran kept

lemma ump2_copied {parts : List (Key × List Cell)} (ran : UMP2.aggregate q env parts = .ok t) :
    Copied q t :=
  feed_copied ran (start_copied q)

/-- A key without a row of its own, in a table with GROUP BY, has met no row. -/
lemma Grouped.lookup_none (grouped : Grouped q update rows t) {k : Key}
    (hab : lookup k t.rows = none) : rowsOf k rows = [] := by
  refine rowsOf_eq_nil fun mem => ?_
  have hf := isSome_lookup.mpr ((grouped.keys k).mpr (Or.inr mem))
  rw [hab] at hf
  cases hf

/-- The batches whose table has a row of the key, and these rows. Only batches without a row of
the key are left out. -/
lemma batches_of_key {batches : List (List (Key × β))} {tables : List Table}
    (all : List.Forall₂ (Grouped q update) batches tables) (k : Key) :
    ∃ sel parts, List.Forall₂ (Batch update q.nullRow) sel parts ∧
      rowsOf k (tables.flatMap Table.rows) = parts ∧
      sel.filter (!·.isEmpty) = (batches.map (rowsOf k)).filter (!·.isEmpty) := by
  induction all with
  | nil => exact ⟨[], [], .nil, rfl, rfl⟩
  | @cons batch table batches tables grouped _ ih =>
    obtain ⟨sel, parts, ran, rows_eq, he⟩ := ih
    have hh : rowsOf k ((table :: tables).flatMap Table.rows) =
        (lookup k table.rows).toList ++ parts := by
      rw [List.flatMap_cons, rowsOf_append, rowsOf_eq_lookup grouped.nodup, rows_eq]
    cases hf : lookup k table.rows with
    | none =>
      rw [hf] at hh
      refine ⟨sel, parts, ran, hh, ?_⟩
      rw [map_cons, grouped.lookup_none hf]
      exact he
    | some cells =>
      have fold := grouped.folds k
      rw [hf] at hh fold
      refine ⟨rowsOf k batch :: sel, cells :: parts, .cons fold ran, hh, ?_⟩
      rw [map_cons, List.filter_cons, List.filter_cons, he]

lemma flatten_of_key {sel : List (List β)} {batches : List (List (Key × β))} {k : Key}
    (he : sel.filter (!·.isEmpty) = (batches.map (rowsOf k)).filter (!·.isEmpty)) :
    sel.flatten = rowsOf k batches.flatten := by
  rw [rowsOf_flatten, ← List.flatten_filter_not_isEmpty, he, List.flatten_filter_not_isEmpty]

end Groups

end RowAggregation
