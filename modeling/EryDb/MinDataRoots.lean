import EryDb.ExtentMap
import Mathlib.Data.List.Nodup

/-!
# DBRoots for the replicas of a new extent

After the main DBRoot, `getMinDataDBRoots` takes one DBRoot without extents from each other PM and
then those with the fewest extents. The second loop marks as used the PM of the DBRoot it looked at
last instead of the one it took. It can take a DBRoot twice, and it never ends when the PMs with
data are used up.
-/

namespace MinDataRoots

open List ExtentMap

structure OamCache where
  dbrToPmMap : Nat → Option Nat
  pmToDbrMap : Nat → List Nat
  modIDs : List Nat
  dbrCount : Nat
  repSize : Nat
  assigned : ∀ pm dbr, dbr ∈ pmToDbrMap pm ↔ dbrToPmMap dbr = some pm
  modules : modIDs.Nodup
  numbered : dbrToPmMap 0 = none

/-- `(*dbrnum)[dbr] += 1`, in the order of the keys. -/
def count (dbr : Nat) : List (Nat × Nat) → List (Nat × Nat)
  | [] => [(dbr, 1)]
  | (key, n) :: rest =>
    if dbr < key then (dbr, 1) :: (key, n) :: rest
    else if dbr = key then (key, n + 1) :: rest
    else (key, n) :: count dbr rest

/-- The extents of each DBRoot that is the first of one. -/
def dbrnum (s : Map) : List (Nat × Nat) :=
  (range (emEntries s)).foldl (fun num i => if (fExtentMap s i).range.size ≠ 0 then
    count ((fExtentMap s i).dbRoots.get 0) num else num) []

/-- How many extents have the DBRoot as their first. -/
def extents (s : Map) (dbr : Nat) : Nat :=
  (range (emEntries s)).countP fun i =>
    (fExtentMap s i).range.size ≠ 0 ∧ (fExtentMap s i).dbRoots.get 0 = dbr

/-- The highest-numbered DBRoot with extents. -/
def Last (s : Map) (dbr : Nat) : Prop :=
  0 < extents s dbr ∧ ∀ other, 0 < extents s other → other ≤ dbr

structure Chosen where
  dbroots : List Nat
  pmExist : List Nat

/-- The keys are in order and each stands with its positive number. -/
structure Tallies (num : List (Nat × Nat)) (f : Nat → Nat) : Prop where
  sorted : num.Pairwise (·.1 < ·.1)
  mem_iff : ∀ x, x ∈ num ↔ f x.1 = x.2 ∧ 0 < x.2

section Counting

variable {num : List (Nat × Nat)} {dbr : Nat}

lemma mem_count_of_ne {x : Nat × Nat} (apart : x.1 ≠ dbr) : x ∈ count dbr num ↔ x ∈ num := by
  have away : ∀ n, x ≠ (dbr, n) := fun n same => apart (congrArg Prod.fst same)
  induction num with
  | nil => simp [count, away]
  | cons y rest ih =>
    obtain ⟨key, n⟩ := y
    simp only [count]
    split_ifs with below same
    · simp [away]
    · subst same
      simp [away]
    · simp [ih]

lemma key_of_mem_count {x : Nat × Nat} (counted : x ∈ count dbr num) :
    x.1 = dbr ∨ ∃ y ∈ num, y.1 = x.1 := by
  by_cases same : x.1 = dbr
  · exact .inl same
  · exact .inr ⟨x, (mem_count_of_ne same).mp counted, rfl⟩

lemma sorted_count (sorted : num.Pairwise (·.1 < ·.1)) :
    (count dbr num).Pairwise (·.1 < ·.1) := by
  induction num with
  | nil => simp [count]
  | cons y rest ih =>
    obtain ⟨key, n⟩ := y
    obtain ⟨above, sortedRest⟩ := pairwise_cons.mp sorted
    simp only [count]
    split_ifs with below same
    · exact pairwise_cons.mpr ⟨forall_mem_cons.mpr
        ⟨below, fun z inRest => below.trans (above z inRest)⟩, sorted⟩
    · exact pairwise_cons.mpr ⟨above, sortedRest⟩
    · refine pairwise_cons.mpr ⟨fun z counted => ?_, ih sortedRest⟩
      rcases key_of_mem_count counted with isNew | ⟨y, inRest, sameKey⟩
      · show key < z.1
        omega
      · exact sameKey ▸ above y inRest

lemma mem_count_self (sorted : num.Pairwise (·.1 < ·.1)) (n : Nat) :
    (dbr, n + 1) ∈ count dbr num ↔ (dbr, n) ∈ num ∨ n = 0 ∧ ∀ m, (dbr, m) ∉ num := by
  induction num with
  | nil => simp [count]
  | cons y rest ih =>
    obtain ⟨key, k⟩ := y
    obtain ⟨above, sortedRest⟩ := pairwise_cons.mp sorted
    have outside : dbr ≤ key → ∀ m, (dbr, m) ∉ rest := fun le m inRest =>
      absurd (above _ inRest) (not_lt.mpr le)
    simp only [count]
    split_ifs with below same
    · simp [below.ne, outside below.le]
    · subst same
      simp [outside le_rfl, eq_comm]
    · simp [same, ih sortedRest]

lemma count_pos (dbr : Nat) {x : Nat × Nat} (positive : ∀ y ∈ num, 0 < y.2)
    (counted : x ∈ count dbr num) : 0 < x.2 := by
  induction num with
  | nil => simp_all [count]
  | cons y rest ih =>
    obtain ⟨key, n⟩ := y
    simp only [count] at counted
    split_ifs at counted <;> grind

lemma Tallies.count {f : Nat → Nat} (tallied : Tallies num f) (dbr : Nat) :
    Tallies (count dbr num) fun k => f k + if dbr = k then 1 else 0 := by
  refine ⟨sorted_count tallied.sorted, ?_⟩
  rintro ⟨k, n⟩
  by_cases same : k = dbr
  · subst same
    have absent : (∀ m, (k, m) ∉ num) ↔ f k = 0 := by
      simp only [tallied.mem_iff]
      exact ⟨fun none => by_contra fun some => none _ ⟨rfl, Nat.pos_of_ne_zero some⟩, by omega⟩
    cases n with
    | zero =>
      refine iff_of_false (fun counted => ?_) (by simp)
      exact absurd (count_pos k (fun y inNum => ((tallied.mem_iff y).mp inNum).2) counted)
        (lt_irrefl 0)
    | succ n =>
      rw [mem_count_self tallied.sorted, absent, tallied.mem_iff, if_pos rfl]
      simp only
      omega
  · rw [mem_count_of_ne same, tallied.mem_iff]
    simp [Ne.symm same]

/-- The first pass counts the extents of each DBRoot. -/
lemma tallies_dbrnum (s : Map) : Tallies (dbrnum s) (extents s) := by
  have tallied : ∀ indices : List Nat, Tallies
      (indices.foldl (fun num i => if (fExtentMap s i).range.size ≠ 0 then
        MinDataRoots.count ((fExtentMap s i).dbRoots.get 0) num else num) [])
      fun dbr => indices.countP fun i =>
        (fExtentMap s i).range.size ≠ 0 ∧ (fExtentMap s i).dbRoots.get 0 = dbr := by
    intro indices
    -- The count looks at the last index, as the fold does.
    induction indices using reverseRecOn with
    | nil => exact ⟨.nil, by simp⟩
    | append_singleton indices i ih =>
      rw [foldl_append, foldl_cons, foldl_nil]
      split_ifs with inUse
      · have counted := ih.count ((fExtentMap s i).dbRoots.get 0)
        simpa [countP_append, countP_cons, inUse] using counted
      · simpa [countP_append, countP_cons, inUse] using ih
  exact tallied _

lemma lookup_isNone_iff (s : Map) (dbr : Nat) :
    ((dbrnum s).lookup dbr).isNone ↔ extents s dbr = 0 := by
  rw [Option.isNone_iff_eq_none, lookup_eq_none_iff]
  constructor
  · intro absent
    by_contra filled
    have inNum := ((tallies_dbrnum s).mem_iff (dbr, extents s dbr)).mpr
      ⟨rfl, Nat.pos_of_ne_zero filled⟩
    simpa using absent _ inNum
  · intro none x inNum
    have tallied := ((tallies_dbrnum s).mem_iff x).mp inNum
    refine bne_iff_ne.mpr ?_
    rintro rfl
    omega

end Counting

namespace OamCache

variable (o : OamCache)

def limit : Nat := min o.repSize o.dbrCount

/-- The main DBRoot of a call: none, or one that is assigned to a PM. -/
def Main : Type := {mdbr : Nat // mdbr = 0 ∨ (o.dbrToPmMap mdbr).isSome}

def mpmid (mdbr : o.Main) : Nat := (o.dbrToPmMap mdbr.1).getD 0

def start (mdbr : o.Main) : Chosen :=
  if mdbr.1 ≠ 0 then ⟨[mdbr.1], [o.mpmid mdbr]⟩ else ⟨[], []⟩

def takeUnused (num : List (Nat × Nat)) (mdbr : o.Main) (c : Chosen) (pm : Nat) : Chosen :=
  if o.limit ≤ c.dbroots.length ∨ pm = o.mpmid mdbr then c
  else match (o.pmToDbrMap pm).find? fun dbr => (num.lookup dbr).isNone with
    | none => c
    | some dbr => ⟨c.dbroots ++ [dbr], c.pmExist ++ [pm]⟩

/-- The first loop. -/
def unused (num : List (Nat × Nat)) (mdbr : o.Main) : Chosen :=
  o.modIDs.foldl (o.takeUnused num mdbr) (o.start mdbr)

/-- A pass over the DBRoots with extents; it is left at one that has no PM. -/
def scan (pmExist : List Nat) : List (Nat × Nat) → Nat × Nat → Nat × Nat
  | [], best => best
  | x :: rest, best =>
    match o.dbrToPmMap x.1 with
    | none => best
    | some pm => scan pmExist rest (if pm ∉ pmExist ∧ x.2 < best.2 then x else best)

/-- Where the iterator of that name stands after the pass. -/
def pmit : List (Nat × Nat) → Option Nat → Option Nat
  | [], pm => pm
  | x :: rest, _ => (o.dbrToPmMap x.1).bind fun pm => pmit rest (some pm)

def best (num : List (Nat × Nat)) (pmExist : List Nat) : Nat × Nat :=
  o.scan pmExist num (0, 0x7FFFFFFF)

/-- A round of the second loop. Reading the iterator at the end of its map is undefined. -/
def round (num : List (Nat × Nat)) (c : Chosen) : Option Chosen :=
  if (o.best num c.pmExist).1 = 0 then some c
  else (o.pmit num none).map fun pm =>
    ⟨c.dbroots ++ [(o.best num c.pmExist).1], c.pmExist ++ [pm]⟩

def fill (num : List (Nat × Nat)) : Nat → Chosen → Option Chosen
  | 0, c => if o.limit ≤ c.dbroots.length then some c else none
  | fuel + 1, c =>
    if o.limit ≤ c.dbroots.length then some c else (o.round num c).bind (fill num fuel)

def getMinDataDBRoots (s : Map) (mdbr : o.Main) (fuel : Nat) : Option (List Nat) :=
  (o.fill (dbrnum s) fuel (o.unused (dbrnum s) mdbr)).map Chosen.dbroots

/-- The PM of a DBRoot is not one of the given ones. -/
def Open (used : List Nat) (x : Nat × Nat) : Prop := ∃ pm, o.dbrToPmMap x.1 = some pm ∧ pm ∉ used

/-- The second loop has a DBRoot to take. -/
def Available (num : List (Nat × Nat)) (used : List Nat) : Prop :=
  ∃ x ∈ num, o.Open used x ∧ x.2 < 0x7FFFFFFF

/-- The other PMs that have a DBRoot without extents. -/
def freePMs (s : Map) (mdbr : o.Main) : List Nat :=
  o.modIDs.filter fun pm => pm ≠ o.mpmid mdbr ∧ ∃ dbr ∈ o.pmToDbrMap pm, extents s dbr = 0

/-- The PM of the main DBRoot and the other ones that have a DBRoot without extents. -/
def firstPMs (s : Map) (mdbr : o.Main) : List Nat := (o.start mdbr).pmExist ++ o.freePMs s mdbr

/-- A DBRoot with extents on a PM that is not one of the given ones. -/
structure Candidate (s : Map) (used : List Nat) (dbr : Nat) : Prop where
  filled : 0 < extents s dbr
  few : extents s dbr < 0x7FFFFFFF
  elsewhere : ∃ pm, o.dbrToPmMap dbr = some pm ∧ pm ∉ used

/-- Of these the one with the fewest extents, and the lowest-numbered of several. -/
structure Fewest (s : Map) (used : List Nat) (dbr : Nat) : Prop where
  candidate : o.Candidate s used dbr
  least : ∀ other, o.Candidate s used other →
    extents s dbr < extents s other ∨ extents s dbr = extents s other ∧ dbr ≤ other

variable {o} {num : List (Nat × Nat)} {used used' : List Nat} {b b' : Nat × Nat} {c d : Chosen}
  {L fuel : Nat} {mdbr : o.Main}

lemma assigned_of_pmit {p : Option Nat} (hL : o.pmit num p = some L) :
    ∀ x ∈ num, ∃ pm, o.dbrToPmMap x.1 = some pm := by
  induction num generalizing p with
  | nil => simp
  | cons x rest ih =>
    obtain ⟨pm, hx, hr⟩ := Option.bind_eq_some_iff.mp hL
    exact forall_mem_cons.mpr ⟨⟨pm, hx⟩, ih hr⟩

section Scan

variable (hall : ∀ x ∈ num, ∃ pm, o.dbrToPmMap x.1 = some pm)
include hall

lemma scan_cases (used : List Nat) (b : Nat × Nat) :
    (o.scan used num b = b ∧ ∀ x ∈ num, o.Open used x → b.2 ≤ x.2) ∨
      (o.scan used num b ∈ num ∧ o.Open used (o.scan used num b) ∧
        (o.scan used num b).2 < b.2) := by
  induction num generalizing b with
  | nil => simp [scan]
  | cons x rest ih =>
    obtain ⟨⟨pm, hx⟩, hr⟩ := forall_mem_cons.mp hall
    simp only [scan, hx]
    split_ifs with ht
    · rcases ih hr x with ⟨he, -⟩ | ⟨hm, ho, hl⟩
      · rw [he]
        exact Or.inr ⟨mem_cons_self, ⟨pm, hx, ht.1⟩, ht.2⟩
      · exact Or.inr ⟨mem_cons_of_mem x hm, ho, hl.trans ht.2⟩
    rcases ih hr b with ⟨he, hle⟩ | ⟨hm, ho, hl⟩
    · refine Or.inl ⟨he, forall_mem_cons.mpr ⟨?_, hle⟩⟩
      rintro ⟨q, hq, hn⟩
      obtain rfl : pm = q := Option.some.inj (hx.symm.trans hq)
      exact not_lt.mp fun hl => ht ⟨hn, hl⟩
    · exact Or.inr ⟨mem_cons_of_mem x hm, ho, hl⟩

/-- Of several that could be taken the pass keeps the first with the least number. -/
lemma scan_least (sorted : num.Pairwise (·.1 < ·.1)) (b : Nat × Nat) :
    ∀ x ∈ num, o.Open used x → x.2 < b.2 → (o.scan used num b).2 < x.2 ∨
      (o.scan used num b).2 = x.2 ∧ (o.scan used num b).1 ≤ x.1 := by
  induction num generalizing b with
  | nil => simp
  | cons x rest ih =>
    obtain ⟨⟨pm, hx⟩, hr⟩ := forall_mem_cons.mp hall
    obtain ⟨above, sortedRest⟩ := pairwise_cons.mp sorted
    simp only [scan, hx]
    split_ifs with taken
    · rcases scan_cases hr used x with ⟨kept, -⟩ | ⟨-, -, lower⟩
      · rw [kept]
        refine forall_mem_cons.mpr ⟨fun _ _ => .inr ⟨rfl, le_rfl⟩, fun y inRest isOpen _ => ?_⟩
        rcases lt_or_ge y.2 x.2 with less | more
        · simpa [kept] using ih hr sortedRest x y inRest isOpen less
        · exact more.lt_or_eq.imp_right fun same => ⟨same, (above y inRest).le⟩
      · refine forall_mem_cons.mpr ⟨fun _ _ => .inl lower, fun y inRest isOpen _ => ?_⟩
        rcases lt_or_ge y.2 x.2 with less | more
        · exact ih hr sortedRest x y inRest isOpen less
        · exact .inl (lower.trans_le more)
    · refine forall_mem_cons.mpr ⟨?_, fun y inRest => ih hr sortedRest b y inRest⟩
      rintro ⟨q, hq, unmarked⟩ less
      obtain rfl : pm = q := Option.some.inj (hx.symm.trans hq)
      exact absurd ⟨unmarked, less⟩ taken

/-- What one pass took is taken again as long as its PM is not marked. -/
lemma scan_again (hsub : used ⊆ used') (hb : b.2 ≤ b'.2) (hl : (o.scan used num b).2 < b.2)
    (ho : o.Open used' (o.scan used num b)) : o.scan used' num b' = o.scan used num b := by
  induction num generalizing b b' with
  | nil => exact absurd hl (lt_irrefl _)
  | cons x rest ih =>
    obtain ⟨⟨pm, hx⟩, hr⟩ := forall_mem_cons.mp hall
    simp only [scan, hx] at hl ho ⊢
    by_cases ht : pm ∉ used ∧ x.2 < b.2
    · rw [if_pos ht] at hl ho ⊢
      rcases scan_cases hr used x with ⟨he, hle⟩ | ⟨-, -, hlt⟩
      · rw [he] at ho ⊢
        obtain ⟨q, hq, hn⟩ := ho
        obtain rfl : pm = q := Option.some.inj (hx.symm.trans hq)
        rw [if_pos ⟨hn, ht.2.trans_le hb⟩]
        rcases scan_cases hr used' x with ⟨he', -⟩ | ⟨hm, ⟨q, hq, hn'⟩, hlt⟩
        · exact he'
        · exact absurd hlt (hle _ hm ⟨q, hq, fun hi => hn' (hsub hi)⟩).not_gt
      · refine ih hr ?_ hlt ho
        split_ifs
        · exact le_rfl
        · exact ht.2.le.trans hb
    rw [if_neg ht] at hl ho ⊢
    refine ih hr ?_ hl ho
    split_ifs with ht'
    · exact not_lt.mp fun hlt => ht ⟨fun hi => ht'.1 (hsub hi), hlt⟩
    · exact hb

end Scan

def next (num : List (Nat × Nat)) (L : Nat) (c : Chosen) : Chosen :=
  ⟨c.dbroots ++ [(o.best num c.pmExist).1], c.pmExist ++ [L]⟩

/-- A round takes a DBRoot of an unmarked PM, or there is none and nothing changes. -/
lemma round_cases (hL : o.pmit num none = some L) (c : Chosen) :
    (o.round num c = some (o.next num L c) ∧ o.Available num c.pmExist ∧
        o.Open c.pmExist (o.best num c.pmExist) ∧ (o.best num c.pmExist).2 < 0x7FFFFFFF) ∨
      (o.round num c = some c ∧ ¬ o.Available num c.pmExist) := by
  rcases scan_cases (assigned_of_pmit hL) c.pmExist (0, 0x7FFFFFFF) with ⟨he, hle⟩ | ⟨hm, ho, hl⟩
  · refine Or.inr ⟨if_pos (congrArg Prod.fst he), ?_⟩
    rintro ⟨x, hm, ho, hl⟩
    exact absurd hl (hle x hm ho).not_gt
  · refine Or.inl ⟨?_, ⟨_, hm, ho, hl⟩, ho, hl⟩
    have hz : (o.best num c.pmExist).1 ≠ 0 := by
      obtain ⟨pm, hp, -⟩ := ho
      intro hz
      rw [show (o.scan c.pmExist num (0, 0x7FFFFFFF)).1 = 0 from hz, o.numbered] at hp
      cases hp
    rw [round, if_neg hz, hL]
    rfl

lemma fill_full (hf : o.limit ≤ c.dbroots.length) : o.fill num fuel c = some c := by
  cases fuel <;> exact if_pos hf

section Short

variable (hs : ¬ o.limit ≤ c.dbroots.length)
include hs

lemma fill_stuck (hr : o.round num c = some c ∨ o.round num c = none) :
    o.fill num fuel c = none := by
  induction fuel with
  | zero => exact if_neg hs
  | succ fuel ih =>
    rw [fill, if_neg hs]
    rcases hr with hr | hr
    · rw [hr]
      exact ih
    · rw [hr]
      rfl

/-- A loop that has not got enough DBRoots and ends takes one more. -/
lemma fill_short (hd : o.fill num fuel c = some d) : ∃ L f, o.pmit num none = some L ∧
    fuel = f + 1 ∧ o.Available num c.pmExist ∧ o.Open c.pmExist (o.best num c.pmExist) ∧
      (o.best num c.pmExist).2 < 0x7FFFFFFF ∧ o.fill num f (o.next num L c) = some d := by
  cases hL : o.pmit num none with
  | none =>
    rw [fill_stuck hs (by simp only [round, hL, Option.map_none]; split_ifs <;> simp)] at hd
    cases hd
  | some L =>
    rcases round_cases hL c with ⟨hr, hsome, ho, hl⟩ | ⟨hr, -⟩
    · cases fuel with
      | zero => rw [fill, if_neg hs] at hd; cases hd
      | succ f =>
        rw [fill, if_neg hs, hr] at hd
        exact ⟨L, f, rfl, rfl, hsome, ho, hl, hd⟩
    · rw [fill_stuck hs (.inl hr)] at hd
      cases hd

end Short

/-- Once the last PM is marked nothing changes for the later rounds. -/
lemma fill_marked (hL : o.pmit num none = some L) (hin : L ∈ c.pmExist)
    (hsome : o.Available num c.pmExist) : (o.fill num (o.limit - c.dbroots.length) c).isSome := by
  induction hk : o.limit - c.dbroots.length generalizing c with
  | zero =>
    rw [fill_full (by omega)]
    rfl
  | succ k ih =>
    rcases round_cases hL c with ⟨hr, -⟩ | ⟨-, hno⟩
    · rw [fill, if_neg (by omega), hr]
      refine ih (mem_append_left _ hin) ?_ (by simp [next]; omega)
      obtain ⟨x, hm, ⟨pm, hp, hn⟩, hl⟩ := hsome
      refine ⟨x, hm, ⟨pm, hp, ?_⟩, hl⟩
      rw [next, mem_append, mem_singleton]
      rintro (hi | rfl)
      · exact hn hi
      · exact hn hin
    · exact absurd hsome hno

/-- The second loop ends exactly if there is one to take for each of the next two rounds. -/
lemma fill_returns_iff (num : List (Nat × Nat)) (c : Chosen) :
    (∃ fuel, (o.fill num fuel c).isSome) ↔ o.limit ≤ c.dbroots.length ∨
      ∃ L, o.pmit num none = some L ∧ o.Available num c.pmExist ∧
        (o.limit ≤ c.dbroots.length + 1 ∨ o.Available num (c.pmExist ++ [L])) := by
  by_cases hs : o.limit ≤ c.dbroots.length
  · exact iff_of_true ⟨0, by rw [fill_full hs]; rfl⟩ (.inl hs)
  constructor
  · rintro ⟨fuel, hd⟩
    obtain ⟨d, hd⟩ := Option.isSome_iff_exists.mp hd
    obtain ⟨L, f, hL, -, hsome, -, -, hd⟩ := fill_short hs hd
    refine .inr ⟨L, hL, hsome, ?_⟩
    by_cases hs' : o.limit ≤ c.dbroots.length + 1
    · exact .inl hs'
    · obtain ⟨-, -, -, -, hsome', -⟩ :=
        fill_short (c := o.next num L c) (by simpa [next] using hs') hd
      exact .inr hsome'
  · rintro (hf | ⟨L, hL, hsome, hmore⟩)
    · exact absurd hf hs
    rcases round_cases hL c with ⟨hr, -⟩ | ⟨-, hno⟩
    · by_cases hs' : o.limit ≤ c.dbroots.length + 1
      · refine ⟨1, ?_⟩
        rw [fill, if_neg hs, hr]
        exact (congrArg _ (fill_full (by simpa [next]))).trans rfl
      · refine ⟨o.limit - (o.next num L c).dbroots.length + 1, ?_⟩
        rw [fill, if_neg hs, hr]
        exact fill_marked hL (by simp [next]) (hmore.resolve_left hs')
    · exact absurd hsome hno

/-- The DBRoots are on the given PMs, which differ, and the main one is the first. -/
structure Marked (o : OamCache) (mdbr : o.Main) (dbroots pms : List Nat) : Prop where
  distinct : pms.Nodup
  mapped : dbroots.map o.dbrToPmMap = pms.map some
  main : mdbr.1 ≠ 0 → dbroots.head? = some mdbr.1

def Apart (o : OamCache) (mdbr : o.Main) (dbroots : List Nat) : Prop :=
  dbroots.Nodup ∧ ∃ pms, o.Marked mdbr dbroots pms

variable {dbroots pms : List Nat}

lemma Marked.apart (h : o.Marked mdbr dbroots pms) : o.Apart mdbr dbroots := by
  refine ⟨Nodup.of_map o.dbrToPmMap ?_, pms, h⟩
  rw [h.mapped]
  exact h.distinct.map (Option.some_injective Nat)

lemma Marked.snoc {dbr pm : Nat} (h : o.Marked mdbr dbroots pms)
    (hp : o.dbrToPmMap dbr = some pm) (hn : pm ∉ pms) :
    o.Marked mdbr (dbroots ++ [dbr]) (pms ++ [pm]) := by
  refine ⟨?_, by simp [h.mapped, hp], fun hz => ?_⟩
  · rw [nodup_append_comm]
    exact nodup_cons.mpr ⟨hn, h.distinct⟩
  · rw [head?_append, h.main hz]
    rfl

lemma unused_marked (num : List (Nat × Nat)) (mdbr : o.Main) :
    o.Marked mdbr (o.unused num mdbr).dbroots (o.unused num mdbr).pmExist := by
  have key : ∀ (pms : List Nat) (c : Chosen), pms.Nodup →
      (∀ pm ∈ pms, pm ≠ o.mpmid mdbr → pm ∉ c.pmExist) → o.Marked mdbr c.dbroots c.pmExist →
      o.Marked mdbr (pms.foldl (o.takeUnused num mdbr) c).dbroots
        (pms.foldl (o.takeUnused num mdbr) c).pmExist := by
    intro pms
    induction pms with
    | nil => exact fun c _ _ h => h
    | cons pm rest ih =>
      intro c hd hout h
      obtain ⟨hnew, hd⟩ := nodup_cons.mp hd
      have same := ih c hd (fun q hq => hout q (mem_cons_of_mem pm hq)) h
      rw [foldl_cons, takeUnused]
      split_ifs with hskip
      · exact same
      split
      · exact same
      · rename_i dbr hf
        have hn := hout pm mem_cons_self fun he => hskip (.inr he)
        refine ih _ hd (fun q hq hm => ?_)
          (h.snoc ((o.assigned pm dbr).mp (mem_of_find?_eq_some hf)) hn)
        rw [mem_append, mem_singleton]
        rintro (hi | rfl)
        · exact hout q (mem_cons_of_mem pm hq) hm hi
        · exact hnew hq
  refine key o.modIDs (o.start mdbr) o.modules (fun pm _ hm => ?_) ?_
  · rw [start]
    split_ifs <;> simp [hm]
  · rw [start]
    split_ifs with hz
    · obtain ⟨pm, hp⟩ := Option.isSome_iff_exists.mp (mdbr.2.resolve_left hz)
      exact ⟨by simp, by simp [mpmid, hp], fun _ => rfl⟩
    · exact ⟨nodup_nil, rfl, fun h => absurd h hz⟩

section Inputs

variable (s : Map)

lemma available_iff (used : List Nat) :
    o.Available (dbrnum s) used ↔ ∃ dbr, o.Candidate s used dbr := by
  constructor
  · rintro ⟨x, inNum, isOpen, few⟩
    obtain ⟨tally, positive⟩ := ((tallies_dbrnum s).mem_iff x).mp inNum
    exact ⟨x.1, tally ▸ positive, tally ▸ few, isOpen⟩
  · rintro ⟨dbr, filled, few, elsewhere⟩
    exact ⟨(dbr, extents s dbr), ((tallies_dbrnum s).mem_iff _).mpr ⟨rfl, filled⟩, elsewhere, few⟩

lemma pmit_eq_some_iff (p : Option Nat) (nonempty : num ≠ []) : o.pmit num p = some L ↔
    (∀ x ∈ num, (o.dbrToPmMap x.1).isSome) ∧ o.dbrToPmMap (num.getLast nonempty).1 = some L := by
  induction num generalizing p with
  | nil => exact absurd rfl nonempty
  | cons x rest ih =>
    cases rest with
    | nil => cases o.dbrToPmMap x.1 <;> simp_all [pmit]
    | cons y rest =>
      cases mapped : o.dbrToPmMap x.1 with
      | none => simp [pmit, mapped]
      | some pm =>
        rw [pmit, mapped, Option.bind_some, ih (some pm) (cons_ne_nil y rest)]
        simp [mapped]

lemma last_iff (nonempty : dbrnum s ≠ []) (dbr : Nat) :
    Last s dbr ↔ dbr = ((dbrnum s).getLast nonempty).1 := by
  have tallied := tallies_dbrnum s
  have inNum := (tallied.mem_iff _).mp (getLast_mem nonempty)
  have isLast : Last s ((dbrnum s).getLast nonempty).1 := by
    refine ⟨inNum.1 ▸ inNum.2, fun other filled => ?_⟩
    have listed := (tallied.mem_iff (other, extents s other)).mpr ⟨rfl, filled⟩
    exact (tallied.sorted.imp (S := (·.1 ≤ ·.1)) le_of_lt).rel_getLast_of_rel_getLast_getLast listed
      le_rfl
  exact ⟨fun last => le_antisymm (isLast.2 dbr last.1) (last.2 _ isLast.1), fun same =>
    same ▸ isLast⟩

lemma dbrnum_ne_nil {dbr : Nat} (filled : 0 < extents s dbr) : dbrnum s ≠ [] :=
  ne_nil_of_mem (((tallies_dbrnum s).mem_iff (dbr, extents s dbr)).mpr ⟨rfl, filled⟩)

/-- The iterator ends at the PM of the highest-numbered DBRoot with extents. -/
lemma pmit_dbrnum (nonempty : dbrnum s ≠ []) : o.pmit (dbrnum s) none = some L ↔
    (∀ dbr, 0 < extents s dbr → (o.dbrToPmMap dbr).isSome) ∧
      ∃ last, Last s last ∧ o.dbrToPmMap last = some L := by
  have tallied := tallies_dbrnum s
  have mapped : (∀ x ∈ dbrnum s, (o.dbrToPmMap x.1).isSome) ↔
      ∀ dbr, 0 < extents s dbr → (o.dbrToPmMap dbr).isSome := by
    simp only [tallied.mem_iff]
    exact ⟨fun every dbr filled => every (dbr, extents s dbr) ⟨rfl, filled⟩,
      fun every x listed => every x.1 (listed.1 ▸ listed.2)⟩
  simp only [pmit_eq_some_iff none nonempty, mapped, last_iff s nonempty, exists_eq_left]

lemma foldl_takeUnused_pmExist (pms : List Nat) (c : Chosen) :
    (pms.foldl (o.takeUnused (dbrnum s) mdbr) c).pmExist = c.pmExist ++
      (pms.filter fun pm => pm ≠ o.mpmid mdbr ∧
        ∃ dbr ∈ o.pmToDbrMap pm, extents s dbr = 0).take (o.limit - c.dbroots.length) := by
  induction pms generalizing c with
  | nil => simp
  | cons pm rest ih =>
    have found : (∃ dbr ∈ o.pmToDbrMap pm, extents s dbr = 0) ↔
        ((o.pmToDbrMap pm).find? fun dbr => ((dbrnum s).lookup dbr).isNone).isSome := by
      simp only [find?_isSome, lookup_isNone_iff]
    rw [foldl_cons, takeUnused, filter_cons]
    split_ifs with skipped free free
    · rcases skipped with full | isMain
      · rw [ih, Nat.sub_eq_zero_of_le full, take_zero, take_zero]
      · simp [isMain] at free
    · exact ih c
    · rw [decide_eq_true_eq, found] at free
      obtain ⟨dbr, taken⟩ := Option.isSome_iff_exists.mp free.2
      have room : o.limit - c.dbroots.length = o.limit - (c.dbroots.length + 1) + 1 := by omega
      rw [taken, ih, room]
      simp
    · have none : ((o.pmToDbrMap pm).find? fun dbr => ((dbrnum s).lookup dbr).isNone) = none := by
        rw [← Option.not_isSome_iff_eq_none, ← found]
        exact fun some => free (decide_eq_true ⟨fun isMain => skipped (.inr isMain), some⟩)
      rw [none]
      exact ih c

/-- The first loop fills up from the PMs that have a DBRoot without extents. -/
lemma unused_pmExist : (o.unused (dbrnum s) mdbr).pmExist = (o.start mdbr).pmExist ++
    (o.freePMs s mdbr).take (o.limit - (o.start mdbr).pmExist.length) := by
  rw [unused, foldl_takeUnused_pmExist, freePMs, start]
  split_ifs <;> rfl

lemma Marked.length_eq {dbroots pms : List Nat} (marked : o.Marked mdbr dbroots pms) :
    dbroots.length = pms.length := by
  simpa using congrArg length marked.mapped

lemma unused_enough_iff : o.limit ≤ (o.unused (dbrnum s) mdbr).dbroots.length ↔
    o.limit ≤ (o.firstPMs s mdbr).length := by
  rw [(unused_marked _ mdbr).length_eq, unused_pmExist, firstPMs, length_append, length_append,
    length_take]
  omega

lemma unused_short (short : ¬ o.limit ≤ (o.firstPMs s mdbr).length) :
    (o.unused (dbrnum s) mdbr).pmExist = o.firstPMs s mdbr := by
  rw [firstPMs, length_append] at short
  rw [unused_pmExist, firstPMs, take_of_length_le (by omega)]

lemma unused_length (short : ¬ o.limit ≤ (o.firstPMs s mdbr).length) :
    (o.unused (dbrnum s) mdbr).dbroots.length = (o.firstPMs s mdbr).length := by
  rw [(unused_marked _ mdbr).length_eq, unused_short s short]

/-- The call returns exactly if the PMs with a DBRoot without extents are enough, or every DBRoot
with extents has a PM and there is one to take for each of the next two rounds. -/
theorem getMinDataDBRoots_returns_iff (s : Map) (mdbr : o.Main) :
    (∃ fuel, (o.getMinDataDBRoots s mdbr fuel).isSome) ↔
      o.limit ≤ (o.firstPMs s mdbr).length ∨
        (∀ dbr, 0 < extents s dbr → (o.dbrToPmMap dbr).isSome) ∧
          (∃ dbr, o.Candidate s (o.firstPMs s mdbr) dbr) ∧
          (o.limit ≤ (o.firstPMs s mdbr).length + 1 ∨ ∃ last pm dbr, Last s last ∧
            o.dbrToPmMap last = some pm ∧ o.Candidate s (o.firstPMs s mdbr ++ [pm]) dbr) := by
  simp only [getMinDataDBRoots, Option.isSome_map, fill_returns_iff, unused_enough_iff]
  refine or_congr_right' fun short => ?_
  simp only [unused_length s short, unused_short s short, available_iff]
  constructor
  · rintro ⟨L, marked, ⟨dbr, candidate⟩, more⟩
    obtain ⟨mapped, last, isLast, onLast⟩ :=
      (pmit_dbrnum s (dbrnum_ne_nil s candidate.filled)).mp marked
    exact ⟨mapped, ⟨dbr, candidate⟩,
      more.imp_right fun ⟨dbr, next⟩ => ⟨last, L, dbr, isLast, onLast, next⟩⟩
  · rintro ⟨mapped, ⟨dbr, candidate⟩, more⟩
    have nonempty := dbrnum_ne_nil s candidate.filled
    have isLast := (last_iff s nonempty _).mpr rfl
    obtain ⟨L, onLast⟩ := Option.isSome_iff_exists.mp (mapped _ isLast.1)
    refine ⟨L, (pmit_dbrnum s nonempty).mpr ⟨mapped, _, isLast, onLast⟩, ⟨dbr, candidate⟩, ?_⟩
    refine more.imp_right fun ⟨last, pm, next, isLast', onLast', taken⟩ => ⟨next, ?_⟩
    obtain rfl := (last_iff s nonempty last).mp isLast'
    obtain rfl := Option.some.inj (onLast.symm.trans onLast')
    exact taken

/-- The pass takes the DBRoot with the fewest extents. -/
lemma fewest_best (mapped : ∀ x ∈ dbrnum s, ∃ pm, o.dbrToPmMap x.1 = some pm) {used : List Nat}
    (candidate : ∃ dbr, o.Candidate s used dbr) : o.Fewest s used (o.best (dbrnum s) used).1 := by
  have tallied := tallies_dbrnum s
  have listed : ∀ {dbr}, o.Candidate s used dbr → (dbr, extents s dbr) ∈ dbrnum s :=
    fun other => (tallied.mem_iff _).mpr ⟨rfl, other.filled⟩
  rcases scan_cases mapped used (0, 0x7FFFFFFF) with ⟨-, none⟩ | ⟨taken, isOpen, few⟩
  · obtain ⟨dbr, filled⟩ := candidate
    exact absurd filled.few (none _ (listed filled) filled.elsewhere).not_gt
  · obtain ⟨tally, positive⟩ := (tallied.mem_iff _).mp taken
    refine ⟨⟨tally ▸ positive, tally ▸ few, isOpen⟩, fun other candidate => ?_⟩
    have least := scan_least mapped tallied.sorted (0, 0x7FFFFFFF) (other, extents s other)
      (listed candidate) candidate.elsewhere candidate.few
    rw [best, tally]
    exact least

lemma Fewest.unique {used : List Nat} {x y : Nat} (hx : o.Fewest s used x)
    (hy : o.Fewest s used y) : x = y := by
  have := hx.least y hy.candidate
  have := hy.least x hx.candidate
  omega

end Inputs

lemma fill_extends (hd : o.fill num fuel c = some d) : c.dbroots <+: d.dbroots := by
  induction fuel generalizing c with
  | zero =>
    rw [fill] at hd
    split_ifs at hd
    cases hd
    exact prefix_rfl
  | succ fuel ih =>
    by_cases hs : o.limit ≤ c.dbroots.length
    · rw [fill_full hs] at hd
      cases hd
      exact prefix_rfl
    · obtain ⟨L, f, -, he, -, -, -, hd⟩ := fill_short hs hd
      obtain rfl := Nat.succ.inj he
      exact (prefix_append _ _).trans (ih hd)

/-- The next round takes the same DBRoot if the PM of it is not marked. -/
lemma taken_twice (hL : o.pmit num none = some L) (ho : o.Open (c.pmExist ++ [L])
      (o.best num c.pmExist)) (hl : (o.best num c.pmExist).2 < 0x7FFFFFFF)
    (hd : o.fill num fuel (o.next num L (o.next num L c)) = some d) : ¬ d.dbroots.Nodup := by
  have he : o.best num (c.pmExist ++ [L]) = o.best num c.pmExist :=
    scan_again (assigned_of_pmit hL) (subset_append_left _ _) le_rfl hl ho
  intro hn
  have := hn.sublist (fill_extends hd).sublist
  simp [next, he, nodup_append] at this

/-- What the second loop ends with is on different PMs exactly if it took at most one DBRoot, or
two of them and the PM it marked was that of the first. -/
lemma fill_apart_iff (marked : o.Marked mdbr c.dbroots c.pmExist)
    (hd : o.fill num fuel c = some d) : o.Apart mdbr d.dbroots ↔
      o.limit ≤ c.dbroots.length + 1 ∨ o.limit = c.dbroots.length + 2 ∧
        o.dbrToPmMap (o.best num c.pmExist).1 = o.pmit num none := by
  by_cases hs : o.limit ≤ c.dbroots.length
  · rw [fill_full hs] at hd
    cases hd
    exact iff_of_true marked.apart (.inl (by omega))
  obtain ⟨L, f, hL, -, -, ⟨p, hp, hn⟩, hl, hd⟩ := fill_short hs hd
  by_cases hs₁ : o.limit ≤ c.dbroots.length + 1
  · rw [fill_full (by simpa [next] using hs₁)] at hd
    cases hd
    exact iff_of_true (marked.snoc hp hn).apart (.inl hs₁)
  obtain ⟨L', f, hL', -, -, ⟨p', hp', hn'⟩, hl', hd⟩ :=
    fill_short (c := o.next num L c) (by simpa [next] using hs₁) hd
  obtain rfl : L = L' := Option.some.inj (hL.symm.trans hL')
  rw [hp, hL, Option.some.injEq]
  by_cases hsame : p = L
  · subst hsame
    by_cases hs₂ : o.limit ≤ c.dbroots.length + 2
    · rw [fill_full (by simpa [next] using hs₂)] at hd
      cases hd
      exact iff_of_true ((marked.snoc hp hn).snoc hp' hn').apart (.inr ⟨by omega, rfl⟩)
    · obtain ⟨L', f, hL', -, -, -, -, hd⟩ := fill_short
        (c := o.next num p (o.next num p c)) (by simpa [next] using hs₂) hd
      obtain rfl : p = L' := Option.some.inj (hL.symm.trans hL')
      refine iff_of_false (fun h => taken_twice hL ⟨p', hp', ?_⟩ hl' hd h.1) (by omega)
      simpa [next] using hn'
  · refine iff_of_false (fun h => taken_twice hL ⟨p, hp, ?_⟩ hl hd h.1)
      fun h => h.elim hs₁ fun h => hsame h.2
    simpa using ⟨hn, hsame⟩

/-- What a call returned is on different PMs exactly if the second loop had to take at most one
DBRoot, or two of them and the one with the fewest extents is on the PM of the highest-numbered
one. -/
theorem getMinDataDBRoots_apart_iff (s : Map) (mdbr : o.Main) (fuel : Nat) (dbroots : List Nat)
    (returned : o.getMinDataDBRoots s mdbr fuel = some dbroots) :
    o.Apart mdbr dbroots ↔ o.limit ≤ (o.firstPMs s mdbr).length + 1 ∨
      o.limit = (o.firstPMs s mdbr).length + 2 ∧ ∃ dbr last,
        o.Fewest s (o.firstPMs s mdbr) dbr ∧ Last s last ∧
          o.dbrToPmMap dbr = o.dbrToPmMap last := by
  obtain ⟨d, filled, rfl⟩ := Option.map_eq_some_iff.mp returned
  rw [fill_apart_iff (unused_marked (dbrnum s) mdbr) filled]
  by_cases enough : o.limit ≤ (o.firstPMs s mdbr).length
  · exact iff_of_true (.inl (((unused_enough_iff s).mpr enough).trans (Nat.le_succ _)))
      (.inl (enough.trans (Nat.le_succ _)))
  rw [unused_length s enough, unused_short s enough]
  obtain ⟨L, -, marked, -, available, -⟩ :=
    fill_short (mt (unused_enough_iff s).mp enough) filled
  rw [unused_short s enough] at available
  have candidate := (available_iff s _).mp available
  obtain ⟨-, last, isLast, onLast⟩ :=
    (pmit_dbrnum s (dbrnum_ne_nil s candidate.choose_spec.filled)).mp marked
  have fewest := fewest_best s (assigned_of_pmit marked) candidate
  refine or_congr_right (and_congr_right fun _ => ?_)
  rw [marked, ← onLast]
  constructor
  · exact fun same => ⟨_, last, fewest, isLast, same⟩
  · rintro ⟨dbr, other, least, isLast', same⟩
    rw [fewest.unique s least, same, le_antisymm (isLast.2 other isLast'.1)
      (isLast'.2 last isLast.1)]

end OamCache

section Example

open BrmTypes

/-- DBRoot 1 on PM 1 and DBRoot 2 on the given PM. -/
def twoRoots (pm : Nat) : OamCache where
  dbrToPmMap dbr := if dbr = 1 then some 1 else if dbr = 2 then some pm else none
  pmToDbrMap q := [1, 2].filter fun dbr => dbr = 1 ∧ q = 1 ∨ dbr = 2 ∧ q = pm
  modIDs := [1, 2]
  dbrCount := 2
  repSize := 2
  assigned q dbr := by
    by_cases h₁ : dbr = 1 <;> by_cases h₂ : dbr = 2 <;> simp [h₁, h₂, eq_comm]
  modules := by decide
  numbered := rfl

def extentOn (dbr : Nat) : EMEntry :=
  { zeroEntry with range := ⟨0, 1⟩, dbRoots := .set .zero 0 dbr }

/-- Both DBRoots are on one PM. The first loop takes DBRoot 1, the second has nothing to take. -/
theorem no_second_pm : ¬ ∃ fuel,
    ((twoRoots 1).getMinDataDBRoots (tableOf []) ⟨0, .inl rfl⟩ fuel).isSome := by
  rintro ⟨fuel, returned⟩
  have stuck : (twoRoots 1).getMinDataDBRoots (tableOf []) ⟨0, .inl rfl⟩ fuel = none :=
    congrArg (Option.map Chosen.dbroots) (OamCache.fill_stuck (by decide) (.inl rfl))
  rw [stuck] at returned
  cases returned

/-- DBRoot 1 is taken and PM 2 marked, so DBRoot 1 is taken again. -/
theorem same_root_twice : (twoRoots 2).getMinDataDBRoots
    (tableOf [extentOn 1, extentOn 2, extentOn 2]) ⟨0, .inl rfl⟩ 2 = some [1, 1] := by
  decide

/-- Behind the main DBRoot 1 the second loop takes DBRoot 2. -/
theorem second_root_apart : (twoRoots 2).Apart ⟨1, .inr rfl⟩ [1, 2] :=
  (OamCache.getMinDataDBRoots_apart_iff (tableOf [extentOn 1, extentOn 2]) ⟨1, .inr rfl⟩ 1 [1, 2]
    (by decide)).mpr (.inl (by decide))

end Example

end MinDataRoots
