import EryDb.ExtentCalls
import EryDb.LbidTiling

/-!
# The calls on the casual partitioning data of one extent

In a map whose extents are apart, `markInvalid` of an LBID finds the one extent that holds it,
and `setExtentsMaxMin` reaches every extent it has an argument for before it returns: each
argument can be met by one extent only.
-/

namespace CPCalls

open ImageUndo SlotScan BrmTypes ExtentMap ExtentUpdates CasualPartitions ExtentCalls LbidTiling

variable {s : Map} {i : Nat}

lemma modifies_range {t : Map} (hmod : Modifies s t) (j : Nat) :
    (fExtentMap t j).range = (fExtentMap s j).range := by
  induction hmod with
  | refl => rfl
  | @step t k change _ range ih =>
    rw [← ih, modifyExtent, fExtentMap_putExtent, fExtentMap_makeUndoRecord]
    split_ifs with he
    · rw [range, he]
    · rfl

lemma extent_of_shared (hv : Valid s) {j : Nat} {lbid : Int}
    (left : lbid ∈ blocks (fExtentMap s i).range)
    (right : lbid ∈ blocks (fExtentMap s j).range) : i = j :=
  Sum.inl.inj (hv.tiling.disjoint lbid (.inl i) (.inl j) left right)

lemma start_mem_blocks (hu : usedExtent s i) :
    (fExtentMap s i).range.start ∈ blocks (fExtentMap s i).range := by
  have hp : 0 < (fExtentMap s i).range.size := Nat.pos_of_ne_zero hu
  rw [mem_blocks]
  omega

lemma extentOf_eq (hv : Valid s) (hu : usedExtent s i) {lbid : Int}
    (hi : lbid ∈ blocks (fExtentMap s i).range) : extentOf lbid s = some i := by
  have hd : decide ((fExtentMap s i).range.size ≠ 0 ∧
      (fExtentMap s i).range.start ≤ lbid ∧ lbid < (fExtentMap s i).range.blockEnd) = true :=
    decide_eq_true ⟨hu, hi⟩
  obtain ⟨j, hf⟩ : ∃ j, extentOf lbid s = some j :=
    firstIndex_isSome (hv.emBeyond i hu) hd
  have ht := of_decide_eq_true (firstIndex_eq_some hf).1
  rw [hf, extent_of_shared hv hi ht.2]

section Batches

variable {cpMap : List (Int × CPMaxMin)}

/-- The extent is used and has an argument. -/
def Named (s : Map) (cpMap : List (Int × CPMaxMin)) (j : Nat) : Prop :=
  usedExtent s j ∧ (fExtentMap s j).range.start ∈ cpMap.map Prod.fst

instance (s : Map) (cpMap : List (Int × CPMaxMin)) : DecidablePred (Named s cpMap) := fun j =>
  inferInstanceAs (Decidable (usedExtent s j ∧ _))

/-- Before a named extent fewer extents are named than there are arguments. -/
lemma count_named_lt (hv : Valid s) (hn : Named s cpMap i) :
    Nat.count (Named s cpMap) i < cpMap.length := by
  have starts : ∀ j k, Named s cpMap j → Named s cpMap k →
      (fExtentMap s j).range.start = (fExtentMap s k).range.start → j = k := by
    intro j k left right he
    exact extent_of_shared hv (start_mem_blocks left.1) (he ▸ start_mem_blocks right.1)
  calc Nat.count (Named s cpMap) i < Nat.count (Named s cpMap) (i + 1) := by
        rw [Nat.count_succ, if_pos hn]
        exact Nat.lt_succ_self _
    _ = ((Finset.range (i + 1)).filter (Named s cpMap)).card := Nat.count_eq_card_filter_range _ _
    _ ≤ (cpMap.map Prod.fst).toFinset.card := by
        refine Finset.card_le_card_of_injOn (fun j => (fExtentMap s j).range.start) ?_ ?_
        · intro j hi
          exact List.mem_toFinset.mpr (Finset.mem_filter.mp hi).2.2
        · intro j left k right
          exact starts j k (Finset.mem_filter.mp left).2 (Finset.mem_filter.mp right).2
    _ ≤ (cpMap.map Prod.fst).length := List.toFinset_card_le _
    _ = cpMap.length := List.length_map ..

/-- The data of an extent after a call that has an argument for it. -/
def offeredTo (arg : CPMaxMin) (r : CPRange) : CPRange := (offeredReset arg r).getD r

/-- The scan before slot `k`: the ranges are untouched, so are the slots that are still to
come, and it can only have returned when every argument has met an extent. -/
structure Scanned (s : Map) (cpMap : List (Int × CPMaxMin)) (i : Nat) (arg : CPMaxMin) (k : Nat)
    (p : Progress Unit) : Prop where
  ranges : ∀ j, (fExtentMap p.map j).range = (fExtentMap s j).range
  ahead : ∀ j, k ≤ j → fExtentMap p.map j = fExtentMap s j
  reached : i < k → (fExtentMap p.map i).cprange = offeredTo arg (fExtentMap s i).cprange
  matched : p.matched ≤ Nat.count (Named s cpMap) k
  returned : p.returned = true → p.matched = cpMap.length

section Scan

variable {arg : CPMaxMin} {k : Nat} {p : Progress Unit}

/-- A step that does nothing, at a slot other than the extent's. -/
lemma Scanned.skip (hsc : Scanned s cpMap i arg k p) (ho : i ≠ k) :
    Scanned s cpMap i arg (k + 1) p where
  ranges := hsc.ranges
  ahead j later := hsc.ahead j (by omega)
  reached before := hsc.reached (by omega)
  matched := hsc.matched.trans (Nat.count_monotone _ k.le_succ)
  returned := hsc.returned

/-- A step that meets an argument. -/
lemma Scanned.meet (hsc : Scanned s cpMap i arg k p) (hn : Named s cpMap k)
    {r : CPRange} (hh : i = k → r = offeredTo arg (fExtentMap s i).cprange) {map : Map}
    (changed : ∀ j, fExtentMap map j =
      if j = k then { fExtentMap p.map k with cprange := r } else fExtentMap p.map j) :
    Scanned s cpMap i arg (k + 1)
      ⟨map, (), p.matched + 1, decide (p.matched + 1 = cpMap.length)⟩ where
  ranges j := by
    rw [changed]
    split_ifs with he
    · rw [he]
      exact hsc.ranges k
    · exact hsc.ranges j
  ahead j later := by
    rw [changed, if_neg (by omega)]
    exact hsc.ahead j (by omega)
  reached before := by
    rw [changed]
    split_ifs with he
    · exact hh he
    · exact hsc.reached (by omega)
  matched := by
    have met := hsc.matched
    rw [Nat.count_succ, if_pos hn]
    exact Nat.succ_le_succ met
  returned := of_decide_eq_true

lemma setMaxMinStep_scanned (hv : Valid s) (hu : usedExtent s i)
    (hf : lookupKey (fExtentMap s i).range.start cpMap = some arg)
    (hsc : Scanned s cpMap i arg k p) :
    Scanned s cpMap i arg (k + 1) (setMaxMinStep cpMap k p) := by
  rw [setMaxMinStep]
  split_ifs with hre
  · refine hsc.skip (fun he => ?_)
    have hn : Named s cpMap i := ⟨hu, lookupKey_mem hf⟩
    have early := count_named_lt hv hn
    have full := hsc.returned hre
    have matched := hsc.matched
    rw [← he] at matched
    omega
  · dsimp only
    rw [hsc.ahead k le_rfl]
    split
    · next missing =>
      refine hsc.skip (fun he => ?_)
      rw [← he, hf] at missing
      cases missing
    next met isArg =>
    split_ifs with isUsed
    · refine hsc.meet ⟨isUsed, lookupKey_mem isArg⟩
        (r := offeredTo met (fExtentMap s k).cprange) ?_ ?_
      · intro he
        subst he
        rw [hf] at isArg
        rw [Option.some.inj isArg]
      intro j
      rw [offeredTo]
      cases offeredReset met (fExtentMap s k).cprange with
      | none =>
        split_ifs with he
        · rw [he, Option.getD_none, hsc.ahead k le_rfl]
        · rfl
      | some r => simp only [setCPRange, modifyExtent, fExtentMap_putExtent,
          fExtentMap_makeUndoRecord, Option.getD_some]
    · refine hsc.skip (fun he => ?_)
      rw [he] at hu
      exact isUsed hu

end Scan

lemma setExtentsMaxMin_cprange {arg : CPMaxMin} (hv : Valid s) (hu : usedExtent s i)
    (hf : lookupKey (fExtentMap s i).range.start cpMap = some arg) :
    (fExtentMap (setExtentsMaxMin cpMap s).2 i).cprange =
      offeredTo arg (fExtentMap s i).cprange := by
  have start : Scanned s cpMap i arg 0 ⟨s, (), 0, false⟩ :=
    ⟨fun _ => rfl, fun _ _ => rfl, nofun, Nat.zero_le _, nofun⟩
  have hsc : Scanned s cpMap i arg (emEntries s)
      (forEach (setMaxMinStep cpMap) (emEntries s) ⟨s, (), 0, false⟩) :=
    forEach_invariant (Scanned s cpMap i arg) start
      (fun k p _ held => setMaxMinStep_scanned hv hu hf held)
  exact hsc.reached (hv.emBeyond i hu)

lemma setExtentsMaxMin_modifies (cpMap : List (Int × CPMaxMin)) (s : Map) :
    Modifies s (setExtentsMaxMin cpMap s).2 :=
  forEach_preserves (fun p : Progress Unit => Modifies s p.map) .refl
    (fun i p _ hb => hb.trans (setMaxMinStep_modifies cpMap i p))

end Batches

end CPCalls
