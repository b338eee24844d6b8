import Mathlib.Data.List.Sort
import Mathlib.Data.List.Pairwise
import Mathlib.Data.Multiset.MapFold

/-!
# Maps iterated in key order

An ordered map is its list of entries, sorted strictly by key. Two maps with the same
entries are equal, so laws about undoing an edit come down to which entries each side
holds.
-/

structure KeyedMap (K V : Type) [LinearOrder K] where
  entries : List (K × V)
  sorted : entries.Pairwise (fun a b => a.1 < b.1)

namespace KeyedMap

open List

variable {K V : Type} [LinearOrder K] {m n : KeyedMap K V} {k : K} {v v' : V}

def empty : KeyedMap K V := ⟨[], List.Pairwise.nil⟩

def insertEntry (k : K) (v : V) : List (K × V) → List (K × V)
  | [] => [(k, v)]
  | entry :: rest =>
    if k < entry.1 then (k, v) :: entry :: rest
    else if k = entry.1 then (k, v) :: rest
    else entry :: insertEntry k v rest

lemma mem_insertEntry {l : List (K × V)} (hso : l.Pairwise (fun a b => a.1 < b.1))
    {x : K × V} : x ∈ insertEntry k v l ↔ x = (k, v) ∨ (x ∈ l ∧ x.1 ≠ k) := by
  induction l with
  | nil => simp [insertEntry]
  | cons entry rest ih =>
    obtain ⟨above, hso⟩ := pairwise_cons.mp hso
    by_cases hb : k < entry.1
    · have hab : ∀ y ∈ entry :: rest, y.1 ≠ k :=
        forall_mem_cons.mpr ⟨hb.ne', fun y later => (hb.trans (above y later)).ne'⟩
      rw [insertEntry, if_pos hb, mem_cons]
      exact or_congr_right ⟨fun hm => ⟨hm, hab x hm⟩, fun both => both.1⟩
    · by_cases hh : k = entry.1
      · subst hh
        simp only [insertEntry, if_neg hb, if_true, mem_cons]
        constructor
        · rintro (new | later)
          · exact Or.inl new
          · exact Or.inr ⟨Or.inr later, (above x later).ne'⟩
        · rintro (new | ⟨old | later, ho⟩)
          · exact Or.inl new
          · exact absurd (congrArg Prod.fst old) ho
          · exact Or.inr later
      · simp only [insertEntry, if_neg hb, if_neg hh, mem_cons, ih hso]
        constructor
        · rintro (old | new | ⟨later, ho⟩)
          · exact Or.inr ⟨Or.inl old, by rw [old]; exact Ne.symm hh⟩
          · exact Or.inl new
          · exact Or.inr ⟨Or.inr later, ho⟩
        · rintro (new | ⟨old | later, ho⟩)
          · exact Or.inr (Or.inl new)
          · exact Or.inl old
          · exact Or.inr (Or.inr ⟨later, ho⟩)

lemma sorted_insertEntry {l : List (K × V)} (hso : l.Pairwise (fun a b => a.1 < b.1)) :
    (insertEntry k v l).Pairwise (fun a b => a.1 < b.1) := by
  induction l with
  | nil => simp [insertEntry]
  | cons entry rest ih =>
    obtain ⟨above, later⟩ := pairwise_cons.mp hso
    simp only [insertEntry]
    split
    · rename_i hb
      exact pairwise_cons.mpr
        ⟨forall_mem_cons.mpr ⟨hb, fun y hbe => hb.trans (above y hbe)⟩, hso⟩
    rename_i hb
    by_cases hh : k = entry.1
    · simp only [if_pos hh]
      exact pairwise_cons.mpr ⟨fun y hm => hh ▸ above y hm, later⟩
    simp only [if_neg hh]
    refine pairwise_cons.mpr ⟨fun y hm => ?_, ih later⟩
    rcases (mem_insertEntry later).mp hm with rfl | ⟨old, -⟩
    · exact lt_of_le_of_ne (not_lt.mp hb) (Ne.symm hh)
    · exact above y old

/-- `m[k] = v`. -/
def insert (m : KeyedMap K V) (k : K) (v : V) : KeyedMap K V :=
  ⟨insertEntry k v m.entries, sorted_insertEntry m.sorted⟩

def erase (m : KeyedMap K V) (k : K) : KeyedMap K V :=
  ⟨m.entries.filter (fun entry => decide (entry.1 ≠ k)), m.sorted.filter _⟩

def find (m : KeyedMap K V) (k : K) : Option V :=
  (m.entries.find? (fun entry => decide (entry.1 = k))).map Prod.snd

@[simp] lemma mem_insert {x : K × V} :
    x ∈ (m.insert k v).entries ↔ x = (k, v) ∨ (x ∈ m.entries ∧ x.1 ≠ k) :=
  mem_insertEntry m.sorted

@[simp] lemma mem_erase {x : K × V} : x ∈ (m.erase k).entries ↔ x ∈ m.entries ∧ x.1 ≠ k := by
  simp [erase]

lemma nodup (m : KeyedMap K V) : m.entries.Nodup :=
  m.sorted.imp fun hlo he => hlo.ne (congrArg Prod.fst he)

lemma nodup_keys (m : KeyedMap K V) : (m.entries.map Prod.fst).Nodup :=
  pairwise_map.mpr (m.sorted.imp fun hlo => hlo.ne)

lemma value_unique (left : (k, v) ∈ m.entries) (right : (k, v') ∈ m.entries) : v = v' :=
  (Prod.mk.inj (inj_on_of_nodup_map m.nodup_keys left right rfl)).2

@[ext] lemma ext_entries (he : ∀ x, x ∈ m.entries ↔ x ∈ n.entries) : m = n := by
  have perm : m.entries.Perm n.entries := (perm_ext_iff_of_nodup m.nodup n.nodup).mpr he
  have heq : m.entries = n.entries :=
    perm.eq_of_pairwise (fun a b _ _ left right => absurd left right.asymm) m.sorted n.sorted
  cases m
  cases n
  simpa using heq

lemma find_eq_some : m.find k = some v ↔ (k, v) ∈ m.entries := by
  simp only [find, Option.map_eq_some_iff]
  constructor
  · rintro ⟨⟨k', v'⟩, hf, rfl⟩
    have key : k' = k := by simpa using find?_some hf
    exact key ▸ mem_of_find?_eq_some hf
  intro hm
  cases hf : m.entries.find? (fun entry => decide (entry.1 = k)) with
  | none => simpa using find?_eq_none.mp hf (k, v) hm
  | some entry =>
    obtain ⟨k', v'⟩ := entry
    have key : k' = k := by simpa using find?_some hf
    subst key
    exact ⟨_, rfl, value_unique (mem_of_find?_eq_some hf) hm⟩

lemma find_eq_none : m.find k = none ↔ ∀ v, (k, v) ∉ m.entries := by
  rw [Option.eq_none_iff_forall_ne_some]
  exact forall_congr' fun v => not_congr find_eq_some

/-- Taking out an entry that was new. -/
lemma erase_insert (hab : m.find k = none) : (m.insert k v).erase k = m := by
  ext ⟨k', v'⟩
  have ho : (k', v') ∈ m.entries → k' ≠ k := by
    rintro hm rfl
    exact find_eq_none.mp hab v' hm
  simp only [mem_erase, mem_insert, Prod.mk.injEq]
  tauto

/-- Putting back an entry that was taken out. -/
lemma insert_erase (hf : m.find k = some v) : (m.erase k).insert k v = m := by
  ext ⟨k', v'⟩
  have hm := find_eq_some.mp hf
  have he : (k', v') ∈ m.entries → k' = k → v' = v := by
    rintro hm' rfl
    exact value_unique hm' hm
  simp only [mem_erase, mem_insert, Prod.mk.injEq]
  constructor
  · rintro (⟨rfl, rfl⟩ | ⟨⟨old, -⟩, -⟩)
    · exact hm
    · exact old
  · intro old
    by_cases key : k' = k
    · exact Or.inl ⟨key, he old key⟩
    · exact Or.inr ⟨⟨old, key⟩, key⟩

/-- Setting back an entry that was changed. -/
lemma insert_insert (hf : m.find k = some v) : (m.insert k v').insert k v = m := by
  have hcl : (m.insert k v').insert k v = (m.erase k).insert k v := by
    ext x
    simp only [mem_insert, mem_erase]
    constructor
    · rintro (new | ⟨rfl | old, ho⟩)
      · exact Or.inl new
      · exact absurd rfl ho
      · exact Or.inr ⟨old, ho⟩
    · rintro (new | ⟨old, ho⟩)
      · exact Or.inl new
      · exact Or.inr ⟨Or.inr old, ho⟩
  rw [hcl, insert_erase hf]

/-- The values in key order. -/
def values (m : KeyedMap K V) : List V := m.entries.map Prod.snd

lemma mem_values : v ∈ m.values ↔ ∃ k, (k, v) ∈ m.entries := by
  simp [values]

/-- A symmetric relation between all values is one between the values of different keys. -/
lemma values_pairwise {R : V → V → Prop} [Std.Symm R] :
    m.values.Pairwise R ↔ ∀ x ∈ m.entries, ∀ y ∈ m.entries, x.1 ≠ y.1 → R x.2 y.2 := by
  rw [values, pairwise_map]
  constructor
  · intro hrel x left y right ho
    have : Std.Symm (fun x y : K × V => R x.2 y.2) := ⟨fun _ _ held => Std.Symm.symm _ _ held⟩
    exact hrel.forall left right fun he => ho (congrArg Prod.fst he)
  · intro hrel
    exact m.sorted.imp_of_mem fun left right hlo => hrel _ left _ right hlo.ne

lemma entries_insert_new (hab : m.find k = none) :
    (m.insert k v).entries.Perm ((k, v) :: m.entries) := by
  refine (perm_ext_iff_of_nodup (nodup _) (nodup_cons.mpr
    ⟨find_eq_none.mp hab v, m.nodup⟩)).mpr fun x => ?_
  simp only [mem_insert, mem_cons]
  refine or_congr_right ⟨fun both => both.1, fun hm => ⟨hm, ?_⟩⟩
  rintro rfl
  exact find_eq_none.mp hab x.2 hm

lemma values_insert_new (hab : m.find k = none) : (m.insert k v).values.Perm (v :: m.values) :=
  (entries_insert_new hab).map Prod.snd

end KeyedMap
