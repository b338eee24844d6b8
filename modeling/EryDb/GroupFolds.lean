import Mathlib.Data.List.Nodup
import Mathlib.Data.List.Perm.Basic

/-!
# Folding rows group by group

A table holds one state per key. A row looks its key up, adds the initial state if the key is
new, and updates the state by a step that may fail. After a run the state of a key is the fold of
the steps over the rows of that key alone. The last section is about folds that are split into
batches and merged again: where states and rows can be read in a commutative semigroup in which the
initial state is idempotent, the split makes no difference.
-/

namespace GroupFolds

open List

variable {ε K α β σ : Type}

lemma bind_ok {x : Except ε α} {f : α → Except ε β} {b : β} :
    (x >>= f) = .ok b ↔ ∃ a, x = .ok a ∧ f a = .ok b := by
  cases x with
  | error e =>
    constructor
    · rintro ⟨⟩
    · rintro ⟨_, ⟨⟩, _⟩
  | ok a =>
    constructor
    · exact fun he => ⟨a, rfl, he⟩
    · rintro ⟨_, ⟨⟩, rest⟩
      exact rest

variable {k : K} {update : σ → Except ε σ} {table table' : List (K × σ)} {s : σ}

section Table

variable [DecidableEq K]

/-- Update the state of a key, which is the initial one if the key is new. -/
def upsert (init : σ) (update : σ → Except ε σ) (k : K) : List (K × σ) → Except ε (List (K × σ))
  | [] => do
      let s ← update init
      .ok [(k, s)]
  | (k', s) :: table =>
    if k' = k then do
      let s ← update s
      .ok ((k, s) :: table)
    else do
      let table ← upsert init update k table
      .ok ((k', s) :: table)

/-- The state of a key. -/
def lookup (k : K) : List (K × σ) → Option σ
  | [] => none
  | (k', s) :: table => if k' = k then some s else lookup k table

lemma lookup_cons_self (k : K) (s : σ) (table : List (K × σ)) :
    lookup k ((k, s) :: table) = some s :=
  if_pos rfl

lemma lookup_cons_ne {k' : K} (ho : k' ≠ k) (s : σ) (table : List (K × σ)) :
    lookup k ((k', s) :: table) = lookup k table :=
  if_neg ho

/-- The rows of one key. -/
def rowsOf (k : K) (rows : List (K × α)) : List α := (rows.filter fun r => r.1 = k).map Prod.snd

lemma rowsOf_cons_self (k : K) (a : α) (rows : List (K × α)) :
    rowsOf k ((k, a) :: rows) = a :: rowsOf k rows := by
  simp [rowsOf]

lemma rowsOf_cons_ne {k' : K} (ho : k' ≠ k) (a : α) (rows : List (K × α)) :
    rowsOf k ((k', a) :: rows) = rowsOf k rows := by
  simp [rowsOf, ho]

lemma rowsOf_append (k : K) (rows more : List (K × α)) :
    rowsOf k (rows ++ more) = rowsOf k rows ++ rowsOf k more := by
  simp [rowsOf]

lemma rowsOf_perm {rows more : List (K × α)} (k : K) (perm : rows.Perm more) :
    (rowsOf k rows).Perm (rowsOf k more) :=
  (perm.filter _).map _

lemma rowsOf_flatten (k : K) (batches : List (List (K × α))) :
    rowsOf k batches.flatten = (batches.map (rowsOf k)).flatten := by
  induction batches with
  | nil => rfl
  | cons batch batches ih =>
    rw [flatten_cons, map_cons, flatten_cons, ← ih, rowsOf_append]

lemma rowsOf_eq_nil {rows : List (K × α)} (hab : k ∉ rows.map Prod.fst) : rowsOf k rows = [] := by
  simp only [rowsOf, map_eq_nil_iff, filter_eq_nil_iff, decide_eq_true_eq]
  rintro r mem rfl
  exact hab (mem_map_of_mem mem)

variable {init : σ}

lemma upsert_ok (ran : upsert init update k table = .ok table') :
    (∃ s, update ((lookup k table).getD init) = .ok s ∧ lookup k table' = some s) ∧
      (∀ k', k' ≠ k → lookup k' table' = lookup k' table) ∧
      table'.map Prod.fst =
        if k ∈ table.map Prod.fst then table.map Prod.fst else table.map Prod.fst ++ [k] := by
  induction table generalizing table' with
  | nil =>
    obtain ⟨s, hup, he⟩ := bind_ok.mp ran
    cases he
    exact ⟨⟨s, hup, lookup_cons_self k s []⟩,
      fun k' ho => lookup_cons_ne (Ne.symm ho) s [], by simp⟩
  | cons entry table ih =>
    obtain ⟨k', s⟩ := entry
    rw [upsert] at ran
    split_ifs at ran with hh
    · obtain ⟨s', hup, he⟩ := bind_ok.mp ran
      cases he
      subst hh
      refine ⟨⟨s', ?_, lookup_cons_self k' s' table⟩, fun k ho => ?_, by simp⟩
      · rw [lookup_cons_self]
        exact hup
      · rw [lookup_cons_ne (Ne.symm ho), lookup_cons_ne (Ne.symm ho)]
    · obtain ⟨rest, hup, he⟩ := bind_ok.mp ran
      cases he
      obtain ⟨⟨s', new, hf⟩, hos, keys⟩ := ih hup
      refine ⟨⟨s', ?_, ?_⟩, fun k'' ho => ?_, ?_⟩
      · rw [lookup_cons_ne hh]
        exact new
      · rw [lookup_cons_ne hh]
        exact hf
      · rw [lookup, lookup, hos k'' ho]
      · rw [map_cons, map_cons, keys]
        split
        · rename_i old
          rw [if_pos (mem_cons_of_mem _ old)]
        · rename_i old
          rw [if_neg (by simp [Ne.symm hh, old]), cons_append]

lemma upsert_old {t : σ} {front back : List (K × σ)} (hos : ∀ d ∈ front, d.1 ≠ k)
    (hup : update s = .ok t) :
    upsert init update k (front ++ (k, s) :: back) = .ok (front ++ (k, t) :: back) := by
  induction front with
  | nil =>
    rw [nil_append, upsert, if_pos rfl]
    exact bind_ok.mpr ⟨t, hup, rfl⟩
  | cons d front ih =>
    rw [cons_append, upsert, if_neg (hos d mem_cons_self)]
    exact bind_ok.mpr ⟨_, ih fun d' mem => hos d' (mem_cons_of_mem _ mem), rfl⟩

lemma upsert_new {t : σ} (hos : ∀ d ∈ table, d.1 ≠ k) (hup : update init = .ok t) :
    upsert init update k table = .ok (table ++ [(k, t)]) := by
  induction table with
  | nil => exact bind_ok.mpr ⟨t, hup, rfl⟩
  | cons d table ih =>
    rw [upsert, if_neg (hos d mem_cons_self)]
    exact bind_ok.mpr ⟨_, ih fun d' mem => hos d' (mem_cons_of_mem _ mem), rfl⟩

/-- One row after the other. -/
def foldRows (init : σ) (step : σ → α → Except ε σ) (rows : List (K × α))
    (table : List (K × σ)) : Except ε (List (K × σ)) :=
  rows.foldlM (fun table r => upsert init (fun s => step s r.2) r.1 table) table

variable {step : σ → α → Except ε σ}

/-- After a run the state of each key is the fold over its own rows. -/
lemma foldRows_ok {rows : List (K × α)} (ran : foldRows init step rows table = .ok table') :
    (∀ k, (rowsOf k rows).foldlM step ((lookup k table).getD init) =
        .ok ((lookup k table').getD init)) ∧
      (∀ k, k ∈ table'.map Prod.fst ↔ k ∈ table.map Prod.fst ∨ k ∈ rows.map Prod.fst) ∧
      ((table.map Prod.fst).Nodup → (table'.map Prod.fst).Nodup) := by
  induction rows generalizing table with
  | nil =>
    cases ran
    exact ⟨fun k => rfl, fun k => by simp, id⟩
  | cons row rows ih =>
    obtain ⟨k, a⟩ := row
    rw [foldRows, foldlM_cons] at ran
    obtain ⟨mid, hup, rest⟩ := bind_ok.mp ran
    obtain ⟨⟨s, new, hf⟩, hos, keys⟩ := upsert_ok hup
    obtain ⟨folds, present, nodup⟩ := ih rest
    refine ⟨fun k' => ?_, fun k' => ?_, fun unlike => nodup ?_⟩
    · by_cases hh : k = k'
      · subst hh
        rw [rowsOf_cons_self, foldlM_cons]
        refine bind_ok.mpr ⟨s, new, ?_⟩
        have fold := folds k
        rwa [hf] at fold
      · rw [rowsOf_cons_ne hh, ← hos k' (Ne.symm hh)]
        exact folds k'
    · rw [present k', keys]
      by_cases old : k ∈ table.map Prod.fst
      · rw [if_pos old, map_cons, mem_cons]
        exact ⟨fun either => either.imp_right Or.inr, fun either =>
          either.elim Or.inl fun mem => mem.elim (fun he => Or.inl (he ▸ old)) Or.inr⟩
      · rw [if_neg old, map_cons, mem_cons, mem_append, mem_singleton, or_assoc]
    · rw [keys]
      by_cases old : k ∈ table.map Prod.fst
      · rwa [if_pos old]
      rw [if_neg old]
      refine nodup_append.mpr ⟨unlike, nodup_singleton k, ?_⟩
      rintro a mem b he rfl
      rw [mem_singleton.mp he] at mem
      exact old mem

lemma lookup_iff_mem (nodup : (table.map Prod.fst).Nodup) :
    lookup k table = some s ↔ (k, s) ∈ table := by
  induction table with
  | nil => simp [lookup]
  | cons entry table ih =>
    obtain ⟨k', s'⟩ := entry
    obtain ⟨hab, nodup⟩ := nodup_cons.mp nodup
    by_cases hh : k' = k
    · subst hh
      have elsewhere : (k', s) ∉ table := fun mem => hab (mem_map.mpr ⟨_, mem, rfl⟩)
      rw [lookup_cons_self]
      simp [elsewhere, eq_comm]
    · rw [lookup_cons_ne hh, ih nodup]
      simp [Ne.symm hh]

lemma isSome_lookup : (lookup k table).isSome ↔ k ∈ table.map Prod.fst := by
  induction table with
  | nil => simp [lookup]
  | cons entry table ih =>
    by_cases hh : entry.1 = k
    · simp [lookup, hh]
    · simp [lookup, hh, ih, Ne.symm hh]

/-- A table without double keys has one row of a key, or none. -/
lemma rowsOf_eq_lookup (nodup : (table.map Prod.fst).Nodup) (k : K) :
    rowsOf k table = (lookup k table).toList := by
  induction table with
  | nil => rfl
  | cons entry table ih =>
    obtain ⟨k', s⟩ := entry
    obtain ⟨hab, nodup⟩ := nodup_cons.mp nodup
    by_cases hh : k' = k
    · subst hh
      rw [rowsOf_cons_self, rowsOf_eq_nil hab, lookup_cons_self]
      rfl
    · rw [rowsOf_cons_ne hh, ih nodup, lookup_cons_ne hh]

/-- Tables without double keys that answer alike hold the same entries. -/
lemma perm_of_lookup (nodup : (table.map Prod.fst).Nodup) (nodup' : (table'.map Prod.fst).Nodup)
    (he : ∀ k, lookup k table = lookup k table') : table.Perm table' := by
  refine (perm_ext_iff_of_nodup nodup.of_map nodup'.of_map).mpr fun entry => ?_
  rw [← lookup_iff_mem nodup, ← lookup_iff_mem nodup', he]

end Table

section Merge

variable {M : Type}

/-- What one batch makes of its rows. -/
def Batch (first : σ → α → Except ε σ) (init : σ) (rows : List α) (part : σ) : Prop :=
  rows.foldlM first init = .ok part

/-- Folding the rows in batches and the batches' states in any order gives what one fold over all
rows, in any order, gives. -/
def Splits (first : σ → α → Except ε σ) (second : σ → σ → Except ε σ) (init : σ) : Prop :=
  ∀ (batches : List (List α)) (parts merged : List σ) (rows : List α),
    Forall₂ (Batch first init) batches parts →
    parts.Perm merged → rows.Perm batches.flatten →
      ∃ s, merged.foldlM second init = .ok s ∧ rows.foldlM first init = .ok s

/-- States and rows read in `M`: a row may leave the state as it is. The initial state need not be
neutral, only idempotent. -/
structure Merging (first : σ → α → Except ε σ) (second : σ → σ → Except ε σ) (init : σ)
    (Valid : σ → Prop) (read : σ → M) (value : α → Option M) (op : M → M → M) : Prop where
  valid : Valid init
  row : ∀ s a, Valid s → ∃ t, first s a = .ok t ∧ Valid t ∧
    read t = (value a).elim (read s) (op (read s))
  part : ∀ s p, Valid s → Valid p → ∃ t, second s p = .ok t ∧ Valid t ∧ read t =
    op (read s) (read p)
  inj : ∀ s t, Valid s → Valid t → read s = read t → s = t
  comm : ∀ x y, op x y = op y x
  assoc : ∀ x y z, op (op x y) z = op x (op y z)
  idem : op (read init) (read init) = read init

namespace Merging

variable {first : σ → α → Except ε σ} {second : σ → σ → Except ε σ} {init : σ}
  {Valid : σ → Prop} {read : σ → M} {value : α → Option M} {op : M → M → M}

variable (m : Merging first second init Valid read value op)
include m

lemma rows (l : List α) (hv : Valid s) :
    ∃ t, l.foldlM first s = .ok t ∧ Valid t ∧ read t = (l.filterMap value).foldl op (read s) := by
  induction l generalizing s with
  | nil => exact ⟨s, rfl, hv, rfl⟩
  | cons a l ih =>
    obtain ⟨mid, hste, hv', he⟩ := m.row s a hv
    obtain ⟨t, ran, hv'', reads⟩ := ih hv'
    refine ⟨t, ?_, hv'', ?_⟩
    · rw [foldlM_cons]
      exact bind_ok.mpr ⟨mid, hste, ran⟩
    · rw [reads, he, filterMap_cons]
      cases value a <;> rfl

lemma parts (l : List σ) (hv : Valid s) (all : ∀ p ∈ l, Valid p) :
    ∃ t, l.foldlM second s = .ok t ∧ Valid t ∧
      read t = (l.map read).foldl op (read s) := by
  induction l generalizing s with
  | nil => exact ⟨s, rfl, hv, rfl⟩
  | cons p l ih =>
    obtain ⟨mid, hste, hv', he⟩ := m.part s p hv (all p mem_cons_self)
    obtain ⟨t, ran, hv'', reads⟩ := ih hv' fun q mem => all q (mem_cons_of_mem _ mem)
    refine ⟨t, ?_, hv'', ?_⟩
    · rw [foldlM_cons]
      exact bind_ok.mpr ⟨mid, hste, ran⟩
    · rw [reads, he, map_cons, foldl_cons]

lemma foldl_perm {l l' : List M} (perm : l.Perm l') (x : M) : l.foldl op x = l'.foldl op x := by
  refine perm.foldl_eq' (fun a _ b _ z => ?_) x
  rw [m.assoc, m.assoc, m.comm a b]

lemma foldl_op (l : List M) (x y : M) : l.foldl op (op x y) = op x (l.foldl op y) := by
  induction l generalizing y with
  | nil => rfl
  | cons a l ih => rw [foldl_cons, m.assoc, ih, foldl_cons]

/-- A state that has absorbed the initial one takes in whole batches as it takes in their rows. -/
lemma foldl_batches (batches : List (List M)) {x : M} (habs : op x (read init) = x) :
    (batches.map fun b => b.foldl op (read init)).foldl op x = batches.flatten.foldl op x := by
  induction batches generalizing x with
  | nil => rfl
  | cons b batches ih =>
    have taken : op x (b.foldl op (read init)) = b.foldl op x := by
      rw [← m.foldl_op, habs]
    have still : op (b.foldl op x) (read init) = b.foldl op x := by
      rw [m.comm, ← m.foldl_op, m.comm, habs]
    rw [map_cons, foldl_cons, taken, ih still, flatten_cons, foldl_append]

/-- Every batch returns, with the fold of its rows' values. -/
lemma batch_read {rows : List α} {p : σ} (ran : Batch first init rows p) :
    Valid p ∧ read p = (rows.filterMap value).foldl op (read init) := by
  obtain ⟨t, ran', hv, reads⟩ := m.rows rows m.valid
  rw [Batch, ran'] at ran
  cases ran
  exact ⟨hv, reads⟩

lemma splits : Splits first second init := by
  intro batches parts merged rows ran perm all
  have reads : (∀ p ∈ parts, Valid p) ∧ parts.map read =
      (batches.map (filterMap value)).map fun b => b.foldl op (read init) := by
    clear perm all
    induction ran with
    | nil => exact ⟨fun p mem => absurd mem not_mem_nil, rfl⟩
    | cons head _ ih =>
      obtain ⟨hv, he⟩ := m.batch_read head
      refine ⟨forall_mem_cons.mpr ⟨hv, ih.1⟩, ?_⟩
      rw [map_cons, map_cons, map_cons, he, ih.2]
  obtain ⟨s, combined, hv, final⟩ := m.parts merged m.valid fun p mem =>
    reads.1 p (perm.mem_iff.mpr mem)
  obtain ⟨t, single, hv', once⟩ := m.rows rows m.valid
  have he : read s = read t := by
    rw [final, once, ← m.foldl_perm (perm.map read), reads.2, m.foldl_batches _ m.idem,
      ← filterMap_flatten, m.foldl_perm (all.filterMap value)]
  exact ⟨s, combined, by rw [m.inj s t hv hv' he]; exact single⟩

end Merging

end Merge

variable {step : σ → α → Except ε σ} {steps : List (σ → α → Except ε σ)} {states out : List σ}

/-- A row of states, each with its own step. -/
def along : List (σ → α → Except ε σ) → List σ → α → Except ε (List σ)
  | step :: steps, s :: states, a => do
      let t ← step s a
      let ts ← along steps states a
      .ok (t :: ts)
  | _, _, _ => .ok []

/-- A row of states takes in another row of states. -/
def alongRow : List (σ → σ → Except ε σ) → List σ → List σ → Except ε (List σ)
  | step :: steps, s :: states, p :: parts => do
      let t ← step s p
      let ts ← alongRow steps states parts
      .ok (t :: ts)
  | _, _, _ => .ok []

lemma foldlM_nil_states {β : Type} {f : List σ → β → Except ε (List σ)}
    (each : ∀ b, f [] b = .ok []) (rows : List β) : rows.foldlM f [] = .ok [] := by
  induction rows with
  | nil => rfl
  | cons a rows ih =>
    rw [foldlM_cons]
    exact bind_ok.mpr ⟨[], each a, ih⟩

/-- The first state and the others run on their own. -/
lemma foldlM_cons_states {β : Type} {f h : List σ → β → Except ε (List σ)} {g : σ → β → Except ε σ}
    (each : ∀ s states b, f (s :: states) b = do
      let t ← g s b
      let ts ← h states b
      .ok (t :: ts)) {rows : List β} :
    rows.foldlM f (s :: states) = .ok out ↔
      ∃ t ts, out = t :: ts ∧ rows.foldlM g s = .ok t ∧ rows.foldlM h states = .ok ts := by
  induction rows generalizing s states with
  | nil =>
    constructor
    · rintro ⟨⟩
      exact ⟨s, states, rfl, rfl, rfl⟩
    · rintro ⟨t, ts, rfl, ⟨⟩, ⟨⟩⟩
      rfl
  | cons a rows ih =>
    simp only [foldlM_cons, bind_ok, each, Except.ok.injEq]
    constructor
    · rintro ⟨_, ⟨m, hste, ms, rest, rfl⟩, ran⟩
      obtain ⟨t, ts, he, left, right⟩ := ih.mp ran
      exact ⟨t, ts, he, ⟨m, hste, left⟩, ⟨ms, rest, right⟩⟩
    · rintro ⟨t, ts, he, ⟨m, hste, left⟩, ⟨ms, rest, right⟩⟩
      exact ⟨m :: ms, ⟨m, hste, ms, rest, rfl⟩, ih.mpr ⟨t, ts, he, left, right⟩⟩

lemma foldlM_along_cons {rows : List α} :
    rows.foldlM (along (step :: steps)) (s :: states) = .ok out ↔
      ∃ t ts, out = t :: ts ∧ rows.foldlM step s = .ok t ∧
        rows.foldlM (along steps) states = .ok ts :=
  foldlM_cons_states fun _ _ _ => rfl

lemma foldlM_alongRow_cons {step : σ → σ → Except ε σ} {steps : List (σ → σ → Except ε σ)}
    {rows : List (σ × List σ)} :
    (rows.map fun r => r.1 :: r.2).foldlM (alongRow (step :: steps)) (s :: states) = .ok out ↔
      ∃ t ts, out = t :: ts ∧ (rows.map Prod.fst).foldlM step s = .ok t ∧
        (rows.map Prod.snd).foldlM (alongRow steps) states = .ok ts := by
  rw [foldlM_map, foldlM_map, foldlM_map]
  exact foldlM_cons_states fun _ _ _ => rfl

/-- The parts of a row of states, taken apart at the first state. -/
lemma batches_cons {batches : List (List α)} {parts : List (List σ)}
    (ran : Forall₂ (Batch (along (step :: steps)) (s :: states)) batches parts) :
    ∃ pairs : List (σ × List σ), parts = pairs.map (fun r => r.1 :: r.2) ∧
      Forall₂ (Batch step s) batches (pairs.map Prod.fst) ∧
      Forall₂ (Batch (along steps) states) batches (pairs.map Prod.snd) := by
  induction ran with
  | nil => exact ⟨[], rfl, .nil, .nil⟩
  | cons head _ ih =>
    obtain ⟨t, ts, rfl, left, right⟩ := foldlM_along_cons.mp head
    obtain ⟨pairs, rfl, lefts, rights⟩ := ih
    exact ⟨(t, ts) :: pairs, rfl, .cons left lefts, .cons right rights⟩

lemma perm_pairs {pairs : List (σ × List σ)} {merged : List (List σ)} (s : σ)
    (perm : (pairs.map fun r => r.1 :: r.2).Perm merged) :
    ∃ pairs', merged = pairs'.map (fun r => r.1 :: r.2) ∧ pairs.Perm pairs' := by
  refine ⟨merged.map fun l => (l.headD s, l.tail), ?_, ?_⟩
  · rw [map_map]
    refine (map_id'' (fun _ => rfl) merged).symm.trans (map_congr_left fun l mem => ?_)
    obtain ⟨r, -, rfl⟩ := mem_map.mp (perm.mem_iff.mpr mem)
    rfl
  · have hap := perm.map fun l => (l.headD s, l.tail)
    rw [map_map] at hap
    exact (Perm.of_eq (map_id'' (fun _ => rfl) pairs).symm).trans hap

lemma splits_nil : Splits (along ([] : List (σ → α → Except ε σ))) (alongRow []) [] := by
  intro batches parts merged rows _ _ _
  exact ⟨[], foldlM_nil_states (fun _ => rfl) merged, foldlM_nil_states (fun _ => rfl) rows⟩

lemma splits_cons {once : σ → α → Except ε σ} {twice : σ → σ → Except ε σ} {init : σ}
    {firsts : List (σ → α → Except ε σ)} {seconds : List (σ → σ → Except ε σ)} {inits : List σ}
    (head : Splits once twice init) (tail : Splits (along firsts) (alongRow seconds) inits) :
    Splits (along (once :: firsts)) (alongRow (twice :: seconds)) (init :: inits) := by
  intro batches parts merged rows ran perm all
  obtain ⟨pairs, rfl, lefts, rights⟩ := batches_cons ran
  obtain ⟨pairs', rfl, perm'⟩ := perm_pairs init perm
  obtain ⟨t, combined, single⟩ := head _ _ _ _ lefts (perm'.map Prod.fst) all
  obtain ⟨ts, combined', single'⟩ := tail _ _ _ _ rights (perm'.map Prod.snd) all
  exact ⟨t :: ts, foldlM_alongRow_cons.mpr ⟨t, ts, rfl, combined, combined'⟩,
    foldlM_along_cons.mpr ⟨t, ts, rfl, single, single'⟩⟩

/-- Each state of a row is the fold of its own step. -/
lemma foldlM_along_get {rows : List α} (ran : rows.foldlM (along steps) states = .ok out) {j : Nat}
    (hasStep : steps[j]? = some step) (hasState : states[j]? = some s) :
    ∃ t, out[j]? = some t ∧ rows.foldlM step s = .ok t := by
  induction steps generalizing states out j with
  | nil => cases hasStep
  | cons once steps ih =>
    cases states with
    | nil => cases hasState
    | cons s' states =>
      obtain ⟨t, ts, rfl, left, right⟩ := foldlM_along_cons.mp ran
      cases j with
      | zero =>
        cases hasStep
        cases hasState
        exact ⟨t, rfl, left⟩
      | succ j => exact ih right hasStep hasState

lemma length_along {rows : List α} (ran : rows.foldlM (along steps) states = .ok out)
    (full : states.length = steps.length) : out.length = steps.length := by
  induction steps generalizing states out with
  | nil =>
    rw [length_eq_zero_iff.mp full, foldlM_nil_states fun _ => rfl] at ran
    cases ran
    rfl
  | cons once steps ih =>
    cases states with
    | nil => cases full
    | cons s' states =>
      obtain ⟨t, ts, rfl, -, right⟩ := foldlM_along_cons.mp ran
      rw [length_cons, ih right (Nat.succ.inj full), length_cons]

lemma foldlM_alongRow_get {steps : List (σ → σ → Except ε σ)} {rows : List (List σ)}
    (ran : rows.foldlM (alongRow steps) states = .ok out)
    (full : ∀ row ∈ rows, row.length = steps.length) {j : Nat} {step : σ → σ → Except ε σ}
    (hasStep : steps[j]? = some step) (hasState : states[j]? = some s) :
    ∃ t, out[j]? = some t ∧ (rows.filterMap (·[j]?)).foldlM step s = .ok t := by
  induction steps generalizing states out rows j with
  | nil => cases hasStep
  | cons once steps ih =>
    cases states with
    | nil => cases hasState
    | cons s' states =>
      obtain ⟨pairs, rfl, shorter⟩ : ∃ pairs : List (σ × List σ),
          rows = pairs.map (fun r => r.1 :: r.2) ∧ ∀ r ∈ pairs, r.2.length = steps.length := by
        clear ran ih
        induction rows with
        | nil => exact ⟨[], rfl, by simp⟩
        | cons row rows ih =>
          obtain ⟨head, tail⟩ := forall_mem_cons.mp full
          obtain ⟨pairs, rfl, shorter⟩ := ih tail
          cases row with
          | nil => cases head
          | cons p ps =>
            exact ⟨(p, ps) :: pairs, rfl, forall_mem_cons.mpr ⟨Nat.succ.inj head, shorter⟩⟩
      obtain ⟨t, ts, rfl, left, right⟩ := foldlM_alongRow_cons.mp ran
      cases j with
      | zero =>
        cases hasStep
        cases hasState
        refine ⟨t, rfl, ?_⟩
        rw [filterMap_map]
        rwa [← filterMap_eq_map] at left
      | succ j =>
        have full' : ∀ row ∈ pairs.map Prod.snd, row.length = steps.length := by
          intro row mem
          obtain ⟨r, hm, rfl⟩ := mem_map.mp mem
          exact shorter r hm
        obtain ⟨t', hf, hfo⟩ := ih right full' hasStep hasState
        refine ⟨t', hf, ?_⟩
        rw [filterMap_map] at hfo ⊢
        exact hfo

end GroupFolds
