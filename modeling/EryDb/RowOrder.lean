import Mathlib
import EryDb.BrmTypes
import EryDb.TopSlices

/-!
# Comparing rows

The comparison functors of the window-function library. A rule is compiled from the ORDER BY
columns: one functor per column whose type has one, tried in turn until one of them
decides. Over the compiled rule stands the order it stands for: each column has a key, NULL
below every value, and rows are compared by their keys from the first column on.
-/

namespace RowOrder

open BrmTypes (ColDataType)
open List TopSlices

variable {n : Nat} {F D : Type}

/-- A row of `n` fields; a row group fixes the number of columns and their types. -/
abbrev Row (n : Nat) (F : Type) : Type := Fin n → F

/-- The readings of a stored field. Numbers of DOUBLE and FLOAT columns are values of any
linear order. -/
structure FieldReader (F D : Type) where
  isNullValue : ColDataType → F → Bool
  getIntField : F → Int
  getUintField : F → Nat
  getStringField : F → List (Fin 256)
  getDoubleField : F → D
  getFloatField : F → D

structure IdbSortSpec (n : Nat) where
  fIndex : Fin n
  fAsc : Int
  fNf : Int

/-- The constructor from a column and a direction: NULLs go with the direction. -/
def IdbSortSpec.of (i : Fin n) (b : Bool) : IdbSortSpec n :=
  let asc := if b then 1 else -1
  ⟨i, asc, asc⟩

inductive Compare (n : Nat) where
  | int (fSpec : IdbSortSpec n)
  | uint (fSpec : IdbSortSpec n)
  | string (fSpec : IdbSortSpec n)
  | double (fSpec : IdbSortSpec n)
  | float (fSpec : IdbSortSpec n)

/-- The body the functors share: NULLs first, then the two values. -/
def compareValues {V : Type} [LT V] [DecidableLT V] (fSpec : IdbSortSpec n) (b1 b2 : Bool)
    (v1 v2 : V) : Int :=
  if b1 = true ∨ b2 = true then
    if b1 = false ∧ b2 = true then fSpec.fNf
    else if b1 = true ∧ b2 = false then -fSpec.fNf
    else 0
  else if v1 > v2 then fSpec.fAsc
  else if v1 < v2 then -fSpec.fAsc
  else 0

/-- The group a rule is compiled for: how fields are read and the types of the columns. -/
structure RowGroup (n : Nat) (F D : Type) extends FieldReader F D where
  types : Fin n → ColDataType

section Functors

variable (rg : RowGroup n F D)

def RowGroup.isNull (r : Row n F) (i : Fin n) : Bool := rg.isNullValue (rg.types i) (r i)

variable (fSpec : IdbSortSpec n)

def intCompare (r1 r2 : Row n F) : Int :=
  compareValues fSpec (rg.isNull r1 fSpec.fIndex) (rg.isNull r2 fSpec.fIndex)
    (rg.getIntField (r1 fSpec.fIndex)) (rg.getIntField (r2 fSpec.fIndex))

def uintCompare (r1 r2 : Row n F) : Int :=
  compareValues fSpec (rg.isNull r1 fSpec.fIndex) (rg.isNull r2 fSpec.fIndex)
    (rg.getUintField (r1 fSpec.fIndex)) (rg.getUintField (r2 fSpec.fIndex))

def stringCompare (r1 r2 : Row n F) : Int :=
  compareValues fSpec (rg.isNull r1 fSpec.fIndex) (rg.isNull r2 fSpec.fIndex)
    (rg.getStringField (r1 fSpec.fIndex)) (rg.getStringField (r2 fSpec.fIndex))

variable [LinearOrder D]

def doubleCompare (r1 r2 : Row n F) : Int :=
  compareValues fSpec (rg.isNull r1 fSpec.fIndex) (rg.isNull r2 fSpec.fIndex)
    (rg.getDoubleField (r1 fSpec.fIndex)) (rg.getDoubleField (r2 fSpec.fIndex))

def floatCompare (r1 r2 : Row n F) : Int :=
  compareValues fSpec (rg.isNull r1 fSpec.fIndex) (rg.isNull r2 fSpec.fIndex)
    (rg.getFloatField (r1 fSpec.fIndex)) (rg.getFloatField (r2 fSpec.fIndex))

def Compare.apply : Compare n → Row n F → Row n F → Int
  | .int fSpec => intCompare rg fSpec
  | .uint fSpec => uintCompare rg fSpec
  | .string fSpec => stringCompare rg fSpec
  | .double fSpec => doubleCompare rg fSpec
  | .float fSpec => floatCompare rg fSpec

def less : List (Compare n) → Row n F → Row n F → Bool
  | [], _, _ => false
  | c :: cs, r1, r2 =>
    if c.apply rg r1 r2 < 0 then true
    else if c.apply rg r1 r2 > 0 then false
    else less cs r1 r2

end Functors

/-- The functor for a column of the given type; the other types have none and are passed over. -/
def compileRule (types : Fin n → ColDataType) (spec : IdbSortSpec n) : Option (Compare n) :=
  match types spec.fIndex with
  | .tinyint | .smallint | .medint | .int | .bigint | .decimal | .udecimal => some (.int spec)
  | .utinyint | .usmallint | .umedint | .uint | .ubigint => some (.uint spec)
  | .char | .varchar => some (.string spec)
  | .double | .udouble => some (.double spec)
  | .float | .ufloat => some (.float spec)
  | .date | .datetime => some (.uint spec)
  | _ => none

def compileRules (spec : List (IdbSortSpec n)) (types : Fin n → ColDataType) : List (Compare n) :=
  spec.filterMap (compileRule types)

/-- The key of a field: nothing for NULL, a number, a text, or a floating-point number. -/
abbrev Key (D : Type) : Type := WithBot (Int ⊕ₗ (List (Fin 256) ⊕ₗ D))

def Key.number (v : Int) : Key D := WithBot.some (toLex (Sum.inl v))
def Key.text (v : List (Fin 256)) : Key D := WithBot.some (toLex (Sum.inr (toLex (Sum.inl v))))
def Key.real (v : D) : Key D := WithBot.some (toLex (Sum.inr (toLex (Sum.inr v))))

variable {c : Compare n} {r1 r2 : Row n F}

section Keys

variable (rg : RowGroup n F D)

def Compare.fSpec : Compare n → IdbSortSpec n
  | .int fSpec | .uint fSpec | .string fSpec | .double fSpec | .float fSpec => fSpec

/-- The key a functor reads in a row. -/
def Compare.key (c : Compare n) (r : Row n F) : Key D :=
  if rg.isNull r c.fSpec.fIndex then ⊥
  else
    match c with
    | .int fSpec => Key.number (rg.getIntField (r fSpec.fIndex))
    | .uint fSpec => Key.number (rg.getUintField (r fSpec.fIndex))
    | .string fSpec => Key.text (rg.getStringField (r fSpec.fIndex))
    | .double fSpec => Key.real (rg.getDoubleField (r fSpec.fIndex))
    | .float fSpec => Key.real (rg.getFloatField (r fSpec.fIndex))

def keys (rules : List (Compare n)) (r : Row n F) : List (Key D) := rules.map fun c => c.key rg r

variable [LinearOrder D]

/-- The order the rule stands for: by the first column whose keys differ, upwards or downwards. -/
def Precedes : List (Compare n) → Row n F → Row n F → Prop
  | [], _, _ => False
  | c :: cs, r1, r2 =>
    (if 0 < c.fSpec.fAsc then c.key rg r1 < c.key rg r2 else c.key rg r2 < c.key rg r1) ∨
      c.key rg r1 = c.key rg r2 ∧ Precedes cs r1 r2

/-- A column that descends counts in the opposite order. -/
def Compare.directed (c : Compare n) (r : Row n F) : Key D ⊕ₗ (Key D)ᵒᵈ :=
  if 0 < c.fSpec.fAsc then toLex (Sum.inl (c.key rg r))
  else toLex (Sum.inr (OrderDual.toDual (c.key rg r)))

variable {rg} {rules : List (Compare n)}

lemma directed_lt : c.directed rg r1 < c.directed rg r2 ↔
    if 0 < c.fSpec.fAsc then c.key rg r1 < c.key rg r2 else c.key rg r2 < c.key rg r1 := by
  simp only [Compare.directed]
  split
  · exact Sum.Lex.inl_lt_inl_iff
  · exact Sum.Lex.inr_lt_inr_iff.trans OrderDual.toDual_lt_toDual

omit [LinearOrder D] in
lemma directed_eq : c.directed rg r1 = c.directed rg r2 ↔ c.key rg r1 = c.key rg r2 := by
  simp only [Compare.directed]
  split <;> simp

/-- The rows are in the lexicographic order of their directed keys. -/
lemma precedes_iff : Precedes rg rules r1 r2 ↔
    (rules.map fun c => c.directed rg r1) < rules.map fun c => c.directed rg r2 := by
  induction rules with
  | nil => simp [Precedes]
  | cons c cs ih =>
    rw [Precedes, map_cons, map_cons, cons_lt_cons_iff, directed_lt, directed_eq, ih]

omit [LinearOrder D] in
lemma keys_eq_iff : keys rg rules r1 = keys rg rules r2 ↔
    (rules.map fun c => c.directed rg r1) = rules.map fun c => c.directed rg r2 := by
  simp only [keys, map_inj_left, directed_eq]

/-- Rules made by the two-argument constructor, as every ORDER BY column is. -/
def Directed (rules : List (Compare n)) : Prop := ∀ c ∈ rules, ∃ i b, c.fSpec = IdbSortSpec.of i b

lemma compileRules_directed (columns : List (Fin n × Bool)) (types : Fin n → ColDataType) :
    Directed (compileRules (columns.map fun column => IdbSortSpec.of column.1 column.2) types) := by
  intro c mem
  obtain ⟨spec, listed, compiled⟩ := mem_filterMap.mp mem
  obtain ⟨column, -, rfl⟩ := mem_map.mp listed
  refine ⟨column.1, column.2, ?_⟩
  rw [compileRule] at compiled
  split at compiled <;> simp only [Option.some.injEq, reduceCtorEq] at compiled <;>
    rw [← compiled, Compare.fSpec]

section Signs

variable {V : Type} [LinearOrder V] [DecidableLT V] {emb : V → Key D}
    (mono : ∀ a b, emb a < emb b ↔ a < b)
  (low : ∀ a, ⊥ < emb a) (i : Fin n) (b b1 b2 : Bool) (v1 v2 : V)

lemma compareValues_swap (fSpec : IdbSortSpec n) :
    compareValues fSpec b2 b1 v2 v1 = -compareValues fSpec b1 b2 v1 v2 := by
  simp only [compareValues]
  cases b1 <;> cases b2 <;> simp
  rcases lt_trichotomy v1 v2 with less | rfl | more
  · simp [less, less.not_gt]
  · simp
  · simp [more, more.not_gt]

include mono low

lemma compareValues_neg :
    compareValues (IdbSortSpec.of i b) b1 b2 v1 v2 < 0 ↔
      if 0 < (IdbSortSpec.of i b).fAsc then (if b1 then ⊥ else emb v1) < (if b2 then ⊥ else emb v2)
      else (if b2 then ⊥ else emb v2) < if b1 then ⊥ else emb v1 := by
  simp only [compareValues, IdbSortSpec.of]
  cases b <;> cases b1 <;> cases b2 <;> simp [mono, low, (low _).not_gt]
  all_goals
    rcases lt_trichotomy v1 v2 with less | rfl | more
    · simp [less, less.not_gt]
    · simp
    · simp [more, more.not_gt]

end Signs

lemma number_lt (a b : Int) : (Key.number a : Key D) < Key.number b ↔ a < b :=
  WithBot.coe_lt_coe.trans Sum.Lex.inl_lt_inl_iff

lemma text_lt (a b : List (Fin 256)) : (Key.text a : Key D) < Key.text b ↔ a < b :=
  (WithBot.coe_lt_coe.trans Sum.Lex.inr_lt_inr_iff).trans Sum.Lex.inl_lt_inl_iff

lemma real_lt (a b : D) : Key.real a < Key.real b ↔ a < b :=
  (WithBot.coe_lt_coe.trans Sum.Lex.inr_lt_inr_iff).trans Sum.Lex.inr_lt_inr_iff

lemma apply_swap (c : Compare n) (r1 r2 : Row n F) : c.apply rg r2 r1 = -c.apply rg r1 r2 := by
  cases c with
  | int fSpec => exact compareValues_swap (V := Int) _ _ _ _ fSpec
  | uint fSpec => exact compareValues_swap (V := Nat) _ _ _ _ fSpec
  | string fSpec => exact compareValues_swap (V := List (Fin 256)) _ _ _ _ fSpec
  | double fSpec | float fSpec => exact compareValues_swap (V := D) _ _ _ _ fSpec

lemma apply_neg (made : ∃ i b, c.fSpec = IdbSortSpec.of i b) :
    c.apply rg r1 r2 < 0 ↔ c.directed rg r1 < c.directed rg r2 := by
  obtain ⟨i, b, spec⟩ := made
  rw [directed_lt]
  cases c <;> cases spec
  case int => exact compareValues_neg number_lt (fun _ => WithBot.bot_lt_coe _) i b _ _ _ _
  case uint =>
    have mono : ∀ a b : Nat, (Key.number a : Key D) < Key.number b ↔ a < b := fun a b =>
      (number_lt _ _).trans Int.ofNat_lt
    exact compareValues_neg mono (fun _ => WithBot.bot_lt_coe _) i b _ _ _ _
  case string =>
    exact compareValues_neg (V := List (Fin 256)) text_lt
      (fun _ => WithBot.bot_lt_coe _) i b _ _ _ _
  case double =>
    exact compareValues_neg (V := D) real_lt (fun _ => WithBot.bot_lt_coe _) i b _ _ _ _
  case float => exact compareValues_neg (V := D) real_lt (fun _ => WithBot.bot_lt_coe _) i b _ _ _ _

lemma less_iff (directed : Directed rules) (r1 r2 : Row n F) :
    less rg rules r1 r2 = true ↔ Precedes rg rules r1 r2 := by
  induction rules with
  | nil => simp [less, Precedes]
  | cons c cs ih =>
    have made := directed c mem_cons_self
    have rest := ih fun c' mem => directed c' (mem_cons_of_mem _ mem)
    have neg : c.apply rg r1 r2 < 0 ↔ c.directed rg r1 < c.directed rg r2 := apply_neg made
    have pos : 0 < c.apply rg r1 r2 ↔ c.directed rg r2 < c.directed rg r1 := by
      rw [← apply_neg made, apply_swap]
      omega
    simp only [less, Precedes, ← directed_lt, ← directed_eq, neg, gt_iff_lt, pos, ← rest]
    rcases lt_trichotomy (c.directed rg r1) (c.directed rg r2) with hb | he | hbe
    · simp [hb]
    · simp [he]
    · simp [hbe, hbe.not_gt, hbe.ne']

/-- Rows the rule does not tell apart have equal keys. -/
lemma less_orders (directed : Directed rules) : Orders (less rg rules) (keys rg rules) := by
  have falls : ∀ r1 r2, less rg rules r1 r2 = false ↔
      ¬ (rules.map fun c => c.directed rg r1) < rules.map fun c => c.directed rg r2 := by
    intro r1 r2
    rw [← precedes_iff, ← less_iff directed, Bool.not_eq_true]
  refine ⟨⟨fun {a b} hl => ?_, fun {a b c} ab bc => ?_⟩, fun {a b} ab ba => ?_, fun {a b} eq => ?_⟩
  · rw [falls]
    exact (precedes_iff.mp ((less_iff directed a b).mp hl)).not_gt
  · rw [falls, not_lt] at *
    exact ab.trans bc
  · rw [falls, not_lt] at *
    exact keys_eq_iff.mpr (le_antisymm ba ab)
  · rw [falls, keys_eq_iff.mp eq]
    exact lt_irrefl _

end Keys

end RowOrder
