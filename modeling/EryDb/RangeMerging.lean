import EryDb.CasualPruning
import EryDb.LbidSpace

/-!
# Merging the range of an import into the range of its extent

An import hands over a minimum and a maximum for each extent it has touched, and
`mergeExtentsMaxMin` widens the range of every such extent. The merged range has to
hold whatever the old and the new one held, in the order in which a scan is pruned.
Strings are merged by a signed comparison of the swapped words and pruned by an
unsigned one; the two agree as long as the strings compared begin with bytes on the
same side of `0x80`.
-/

namespace RangeMerging

open List SlotScan BrmTypes ExtentMap ExtentUpdates CasualPartitions CasualPruning
open ExtentCalls LbidTiling LbidSpace

/-- A range reaches over another in the order of the type. -/
def Contains (type : ColDataType) (r : CPRange) (min max : Int) : Prop :=
  rank type r.loVal ≤ rank type min ∧ rank type max ≤ rank type r.hiVal

/-- Two strings begin with bytes on the same side of `0x80`. -/
def SameHalf (a b : Int) : Prop := toU64 a % 256 < 128 ↔ toU64 b % 256 < 128

/-- The minima and the maxima of a string column begin alike. -/
def MergesInOrder (arg : CPMaxMinMerge) (r : CPRange) : Prop :=
  isCharType arg.type = true → SameHalf arg.min r.loVal ∧ SameHalf arg.max r.hiVal

variable {n : Nat}

lemma toI64_of_lt (hsm : n < 2 ^ 63) : toI64 n = n := by
  unfold toI64
  rw [Nat.mod_eq_of_lt (by omega), if_pos hsm]

lemma toI64_of_ge (large : 2 ^ 63 ≤ n) (word : n < 2 ^ 64) : toI64 n = (n : Int) - 2 ^ 64 := by
  unfold toI64
  rw [Nat.mod_eq_of_lt word, if_neg (by omega)]

/-- The merge picks the lower of two strings exactly when they begin alike. -/
lemma boundBelow_char {type : ColDataType} (char : isCharType type = true) (a b : Int) :
    (boundBelow type a b = true ↔ orderSwap a < orderSwap b) ↔ SameHalf a b := by
  have wordA := uint64ToStr_lt (toU64 a)
  have wordB := uint64ToStr_lt (toU64 b)
  have halfA := uint64ToStr_high (toU64 a)
  have halfB := uint64ToStr_high (toU64 b)
  have hl : boundBelow type a b = true ↔ toI64 (orderSwap a) < toI64 (orderSwap b) := by
    simp [boundBelow, char, orderSwap]
  rw [hl]
  unfold SameHalf
  rcases Nat.lt_or_ge (orderSwap a) (2 ^ 63) with lowA | highA <;>
  rcases Nat.lt_or_ge (orderSwap b) (2 ^ 63) with lowB | highB
  · rw [toI64_of_lt lowA, toI64_of_lt lowB]
    unfold orderSwap at *
    omega
  · rw [toI64_of_lt lowA, toI64_of_ge highB wordB]
    unfold orderSwap at *
    omega
  · rw [toI64_of_ge highA wordA, toI64_of_lt lowB]
    unfold orderSwap at *
    omega
  · rw [toI64_of_ge highA wordA, toI64_of_ge highB wordB]
    unfold orderSwap at *
    omega

/-- The merge compares two bounds as pruning does, strings only where they begin alike. -/
lemma boundBelow_iff (type : ColDataType) (a b : Int) :
    (boundBelow type a b = true ↔ rank type a < rank type b) ↔
      (isCharType type = true → SameHalf a b) := by
  cases char : isCharType type with
  | false => cases unsigned : isUnsigned type <;> simp [boundBelow, rank, char, unsigned]
  | true =>
    have swapped : ∀ x, rank type x = orderSwap x := fun x => by simp [rank, char]
    rw [swapped, swapped, Nat.cast_lt, boundBelow_char char a b]
    simp

lemma boundBelow_apart (type : ColDataType) {a b : Int} (hl : boundBelow type a b = true) :
    rank type a ≠ rank type b := by
  intro he
  unfold boundBelow at hl
  unfold rank at he
  split at hl
  · simp_all [orderSwap]
  · split at hl <;> simp_all

section Picking

variable (type : ColDataType) (a b : Int)

lemma picks :
    ((rank type (if boundBelow type a b then a else b) ≤ rank type a ∧
        rank type (if boundBelow type a b then a else b) ≤ rank type b) ↔
      (boundBelow type a b = true ↔ rank type a < rank type b)) ∧
    ((rank type a ≤ rank type (if boundBelow type a b then b else a) ∧
        rank type b ≤ rank type (if boundBelow type a b then b else a)) ↔
      (boundBelow type a b = true ↔ rank type a < rank type b)) := by
  by_cases hl : boundBelow type a b = true
  · have hap := boundBelow_apart type hl
    simp only [hl, if_true, true_iff]
    omega
  · simp only [hl, Bool.false_eq_true, if_false, false_iff]
    omega

end Picking

/-- A valid range merged with a valid one: the result holds both exactly when the bounds of a
string column begin alike. -/
lemma mergedRange_contains {arg : CPMaxMinMerge} {r : CPRange} (state : r.isValid = .valid)
    (old : isValidCPRange r.hiVal r.loVal arg.type = true)
    (new : isValidCPRange arg.max arg.min arg.type = true) : ∃ m, mergedRange arg r = some m ∧
      (Contains arg.type m r.loVal r.hiVal ∧ Contains arg.type m arg.min arg.max ↔
        MergesInOrder arg r) := by
  refine ⟨_, by simp only [mergedRange, state, old, new, if_true]; rfl, ?_⟩
  have hlo := (picks arg.type arg.min r.loVal).1
  have upper := (picks arg.type r.hiVal arg.max).2
  rw [boundBelow_iff] at hlo upper
  constructor
  · rintro ⟨⟨oldLow, oldHigh⟩, newLow, newHigh⟩ char
    exact ⟨hlo.mp ⟨newLow, oldLow⟩ char, (upper.mp ⟨oldHigh, newHigh⟩ char).symm⟩
  · intro alike
    obtain ⟨newLow, oldLow⟩ := hlo.mpr fun char => (alike char).1
    obtain ⟨oldHigh, newHigh⟩ := upper.mpr fun char => (alike char).2.symm
    exact ⟨⟨oldLow, oldHigh⟩, newLow, newHigh⟩

variable {key : Int} {args : List (Int × CPMaxMinMerge)}

section Loop

variable {s : Map} {cpMap : List (Int × CPMaxMinMerge)} {i : Nat} {arg : CPMaxMinMerge}

/-- What the loop has reached before slot `n`, as far as extent `i` is concerned. -/
structure Merging (s : Map) (cpMap : List (Int × CPMaxMinMerge)) (i : Nat) (arg : CPMaxMinMerge)
    (n : Nat) (p : Progress (List (Int × CPMaxMinMerge))) : Prop where
  ranges : ∀ j, (fExtentMap p.map j).range = (fExtentMap s j).range
  keys : (p.args.map Prod.fst).Nodup
  counted : p.returned = false → p.args.length + p.matched = cpMap.length
  ahead : n ≤ i → p.returned = false ∧ fExtentMap p.map i = fExtentMap s i ∧
    lookupKey (fExtentMap s i).range.start p.args = some arg
  merged : i < n → (fExtentMap p.map i).cprange =
    (mergedRange arg (fExtentMap s i).cprange).getD (fExtentMap s i).cprange

lemma lookupKey_erase {other : Int} (hap : other ≠ key) (args : List (Int × CPMaxMinMerge)) :
    lookupKey key (args.filter (fun entry => decide (entry.1 ≠ other))) = lookupKey key args := by
  unfold lookupKey
  rw [find?_filter]
  congr 2
  funext entry
  by_cases he : entry.1 = key
  · simp [he, hap.symm]
  · simp [he]

/-- Two keys are left as long as the slot of one of them is still ahead. -/
lemma two_left {a b : Int} (hap : a ≠ b) (first : a ∈ args.map Prod.fst)
    (second : b ∈ args.map Prod.fst) : 1 < args.length := by
  rcases args with _ | ⟨x, _ | ⟨y, rest⟩⟩
  · simp at first
  · simp only [map_cons, map_nil, mem_singleton] at first second
    exact absurd (first.trans second.symm) hap
  · simp

/-- One slot of the loop: either it changes nothing, or the slot is used and its start is a key
left, and then its range is merged and the key is gone or the loop has returned. -/
lemma mergeStep_cases (total n : Nat) (p : Progress (List (Int × CPMaxMinMerge))) :
    (mergeStep total n p = p ∧ (p.returned = false → usedExtent p.map n →
      lookupKey (fExtentMap p.map n).range.start p.args = none)) ∨
    ∃ arg, p.returned = false ∧ usedExtent p.map n ∧
      lookupKey (fExtentMap p.map n).range.start p.args = some arg ∧
      (∀ j, j ≠ n → fExtentMap (mergeStep total n p).map j = fExtentMap p.map j) ∧
      fExtentMap (mergeStep total n p).map n = { fExtentMap p.map n with
        cprange := (mergedRange arg (fExtentMap p.map n).cprange).getD
          (fExtentMap p.map n).cprange } ∧
      (mergeStep total n p).matched = p.matched + 1 ∧
      (mergeStep total n p).returned = decide (p.matched + 1 = total) ∧
      (mergeStep total n p).args = if p.matched + 1 = total then p.args else
        p.args.filter (fun entry => decide (entry.1 ≠ (fExtentMap p.map n).range.start)) := by
  by_cases hre : p.returned = true
  · refine Or.inl ⟨by simp [mergeStep, hre], fun hrun => ?_⟩
    rw [hre] at hrun
    cases hrun
  cases hf : lookupKey (fExtentMap p.map n).range.start p.args with
  | none => exact Or.inl ⟨by simp [mergeStep, hre, hf], fun _ _ => rfl⟩
  | some arg =>
    by_cases hu : (fExtentMap p.map n).range.size = 0
    · exact Or.inl ⟨by simp [mergeStep, hre, hf, hu], fun _ inUse => absurd hu inUse⟩
    refine Or.inr ⟨arg, by simpa using hre, hu, rfl, ?_⟩
    simp only [mergeStep, hre, hf, hu, ne_eq, not_false_eq_true, if_true]
    cases result : mergedRange arg (fExtentMap p.map n).cprange <;>
    by_cases last : p.matched + 1 = total <;>
    simp +contextual [last, setCPRange, modifyExtent]

lemma erase_length (keys : (args.map Prod.fst).Nodup) (present : key ∈ args.map Prod.fst) :
    (args.filter (fun entry => decide (entry.1 ≠ key))).length + 1 = args.length := by
  induction args with
  | nil => simp at present
  | cons x args ih =>
    rw [map_cons, nodup_cons] at keys
    by_cases hh : x.1 = key
    · have hos : ∀ entry ∈ args, entry.1 ≠ key := by
        intro entry hm he
        exact keys.1 (hh ▸ he ▸ mem_map_of_mem hm)
      rw [filter_cons_of_neg (by simp [hh]),
        filter_eq_self.mpr (fun entry hm => by simpa using hos entry hm),
        length_cons]
    · have later : key ∈ args.map Prod.fst := by
        rw [map_cons, mem_cons] at present
        exact present.resolve_left (Ne.symm hh)
      rw [filter_cons_of_pos (by simp [hh]), length_cons, length_cons, ih keys.2 later]

lemma start_injective (hv : Valid s) {a b : Nat} (usedA : usedExtent s a) (usedB : usedExtent s b)
    (he : (fExtentMap s a).range.start = (fExtentMap s b).range.start) : a = b := by
  have hp : ∀ c, usedExtent s c → (fExtentMap s c).range.start ∈ blocks (fExtentMap s c).range := by
    intro c hu
    have : 0 < ((fExtentMap s c).range.size : Int) := by
      unfold usedExtent at hu
      omega
    simp only [mem_blocks]
    omega
  have := hv.tiling.disjoint _ (.inl a) (.inl b) (hp a usedA)
    (he ▸ hp b usedB)
  simpa using this

lemma merging_step (hv : Valid s) (hu : usedExtent s i)
    {p : Progress (List (Int × CPMaxMinMerge))} (hb : Merging s cpMap i arg n p) :
    Merging s cpMap i arg (n + 1) (mergeStep cpMap.length n p) := by
  have usedSame : ∀ j, usedExtent p.map j ↔ usedExtent s j := fun j => by
    unfold usedExtent
    rw [hb.ranges j]
  rcases mergeStep_cases cpMap.length n p with
    ⟨idle, unmatched⟩ | ⟨ho, hrun, usedN, hf, frame, entry, matched, hre, args⟩
  · rw [idle]
    refine { hb with ahead := fun le => hb.ahead (by omega), merged := fun lt => ?_ }
    rcases Nat.lt_succ_iff_lt_or_eq.mp lt with earlier | rfl
    · exact hb.merged earlier
    · obtain ⟨hrun, -, hf⟩ := hb.ahead le_rfl
      rw [← hb.ranges] at hf
      rw [unmatched hrun ((usedSame _).mpr hu)] at hf
      cases hf
  · have present := lookupKey_mem hf
    have counted := hb.counted hrun
    constructor
    · intro j
      by_cases hh : j = n
      · rw [hh, entry, ← hb.ranges n]
      · rw [frame j hh, hb.ranges j]
    · rw [args]
      split
      · exact hb.keys
      · exact hb.keys.sublist (filter_sublist.map Prod.fst)
    · intro still
      rw [hre, decide_eq_false_iff_not] at still
      have := erase_length hb.keys present
      rw [args, if_neg still, matched]
      omega
    · intro le
      obtain ⟨-, he, ours⟩ := hb.ahead (by omega)
      have hap : (fExtentMap p.map n).range.start ≠ (fExtentMap s i).range.start := by
        rw [hb.ranges n]
        intro heq
        have := start_injective hv ((usedSame n).mp usedN) hu heq
        omega
      have notLast : p.matched + 1 ≠ cpMap.length := by
        have := two_left hap present (lookupKey_mem ours)
        omega
      rw [hre, args, if_neg notLast, frame i (by omega), lookupKey_erase hap]
      exact ⟨by simpa using notLast, he, ours⟩
    · intro lt
      rcases Nat.lt_succ_iff_lt_or_eq.mp lt with earlier | rfl
      · rw [frame i (by omega)]
        exact hb.merged earlier
      obtain ⟨-, he, ours⟩ := hb.ahead le_rfl
      rw [he] at hf entry
      rw [ours] at hf
      cases hf
      rw [entry]

/-- The range of an extent after the call is the old one merged with the argument of its key. -/
lemma mergeExtentsMaxMin_cprange (hv : Valid s) (keys : (cpMap.map Prod.fst).Nodup)
    (hu : usedExtent s i) (given : lookupKey (fExtentMap s i).range.start cpMap = some arg) :
    (fExtentMap (mergeExtentsMaxMin cpMap s).2 i).cprange =
      (mergedRange arg (fExtentMap s i).cprange).getD (fExtentMap s i).cprange := by
  have start : Merging s cpMap i arg 0 ⟨s, cpMap, 0, false⟩ :=
    ⟨fun _ => rfl, keys, fun _ => rfl, fun _ => ⟨rfl, rfl, given⟩, fun lt => by omega⟩
  have hwh : Merging s cpMap i arg (emEntries s)
      (forEach (mergeStep cpMap.length) (emEntries s) ⟨s, cpMap, 0, false⟩) :=
    forEach_invariant _ start (fun _ _ _ hb => merging_step hv hu hb)
  exact hwh.merged (hv.emBeyond i hu)

end Loop

/-- For an extent with a valid range and a valid new one, the merged range holds both in the order
of the type exactly when the bounds of a string column begin on the same side of `0x80`. -/
theorem merged_contains_iff {cfg : Config} {s : Map} (reached : Reachable cfg s)
    {cpMap : List (Int × CPMaxMinMerge)} (keys : (cpMap.map Prod.fst).Nodup) {i : Nat}
    (used : usedExtent s i) {arg : CPMaxMinMerge}
    (given : lookupKey (fExtentMap s i).range.start cpMap = some arg)
    (state : (fExtentMap s i).cprange.isValid = .valid)
    (old : isValidCPRange (fExtentMap s i).cprange.hiVal (fExtentMap s i).cprange.loVal
      arg.type = true)
    (new : isValidCPRange arg.max arg.min arg.type = true) :
    (Contains arg.type (fExtentMap (mergeExtentsMaxMin cpMap s).2 i).cprange
        (fExtentMap s i).cprange.loVal (fExtentMap s i).cprange.hiVal ∧
      Contains arg.type (fExtentMap (mergeExtentsMaxMin cpMap s).2 i).cprange arg.min arg.max) ↔
      MergesInOrder arg (fExtentMap s i).cprange := by
  obtain ⟨m, merged, contains⟩ := mergedRange_contains state old new
  rw [mergeExtentsMaxMin_cprange (reachable_valid reached) keys used given, merged]
  exact contains

/-- A string column whose first import brought the single string `a`. -/
def importedOnce : List Call := [.createColumnExtentDBroot 3000 8 ⟨fun _ => 1⟩ .char 0,
    .mergeExtentsMaxMin [(0, ⟨97, 97, .char, true⟩)]]

def importedMap : Map :=
  importedOnce.foldl (fun s c => (c.run exampleConfig s).2.confirmChanges) fresh

lemma importedMap_reachable : Reachable exampleConfig importedMap :=
  .step _ (.step _ .fresh (by simp [Call.widthsValid, columnWidths]) (by decide +kernel))
    (by simp [Call.widthsValid]) (by decide +kernel)

lemma importedMap_range : usedExtent importedMap 0 ∧ (fExtentMap importedMap 0).range.start = 0 ∧
    (fExtentMap importedMap 0).cprange.isValid = .valid ∧
    (fExtentMap importedMap 0).cprange.loVal = 97 ∧
    (fExtentMap importedMap 0).cprange.hiVal = 97 := by
  unfold usedExtent
  decide +kernel

def importOf (value : Int) : List (Int × CPMaxMinMerge) := [(0, ⟨value, value, .char, false⟩)]

/-- A later import of the string `b` alone widens the range to reach from `a` to `b`. -/
theorem merged_contains_iff_imported :
    Contains .char (fExtentMap (mergeExtentsMaxMin (importOf 98) importedMap).2 0).cprange 97 97 ∧
      Contains .char (fExtentMap (mergeExtentsMaxMin (importOf 98) importedMap).2 0).cprange
        98 98 := by
  obtain ⟨used, start, state, low, high⟩ := importedMap_range
  have given : lookupKey (fExtentMap importedMap 0).range.start (importOf 98) =
      some ⟨98, 98, .char, false⟩ := by
    rw [start]
    rfl
  have merged := merged_contains_iff importedMap_reachable (by decide) used given state
    (by rw [low, high]; decide) (by decide)
  rw [low, high] at merged
  refine merged.mpr fun _ => ?_
  unfold SameHalf
  rw [low, high]
  decide

/-- An import of a string that begins with the byte `0xE9` takes it for the new minimum and leaves
the maximum, so that the range holds neither string. -/
theorem merge_loses_range :
    ∃ s, Reachable exampleConfig s ∧ usedExtent s 0 ∧ (fExtentMap s 0).range.start = 0 ∧
      (fExtentMap s 0).cprange.isValid = .valid ∧
      isValidCPRange (fExtentMap s 0).cprange.hiVal (fExtentMap s 0).cprange.loVal .char = true ∧
      isValidCPRange 0xE9 0xE9 .char = true ∧ (mergeExtentsMaxMin (importOf 0xE9) s).1 = .ok () ∧
      checkSingleValue (fExtentMap (mergeExtentsMaxMin (importOf 0xE9) s).2 0).cprange.loVal
        (fExtentMap (mergeExtentsMaxMin (importOf 0xE9) s).2 0).cprange.hiVal
        (fExtentMap s 0).cprange.loVal .char = false ∧
      checkSingleValue (fExtentMap (mergeExtentsMaxMin (importOf 0xE9) s).2 0).cprange.loVal
        (fExtentMap (mergeExtentsMaxMin (importOf 0xE9) s).2 0).cprange.hiVal
        0xE9 .char = false := by
  refine ⟨importedMap, importedMap_reachable, importedMap_range.1, ?_⟩
  decide +kernel

end RangeMerging
