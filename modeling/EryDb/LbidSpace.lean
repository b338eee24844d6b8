import EryDb.LbidTiling
import EryDb.ExtentCalls

/-!
# The LBID space over whole runs

Creation carves the LBIDs of a new extent off a free range; every other call either
deletes used extents or rewrites fields that are not the LBID range. So the tiling
and the two byte counters survive every successful call, from the fresh map on.
-/

namespace LbidSpace

open List ImageUndo SlotScan IntervalTiling BrmTypes ExtentMap ExtentCreation ExtentUpdates
open CasualPartitions ExtentCalls LbidTiling

variable {s : Map}

lemma growEMShmseg_valid (hv : Valid s) : Valid (growEMShmseg 0 s) := by
  have hwh := hv.emWhole
  have len : emEntries (growEMShmseg 0 s) = emEntries s + 100 := by
    simp only [emEntries, fEMShminfo_growEMShmseg, emIncrement, sizeofEMEntry] at hwh ⊢
    omega
  refine valid_resized hv (fun i hu => ?_) (fun i _ => by simp) (by simp) (by simp) ?_ ?_
    (by omega) (by simp [flEntries])
  · by_cases hi : i < emEntries s
    · simp [hi]
    · rcases hu with hu | hu
      · exact absurd (hv.emBeyond i hu) hi
      · simp [usedExtent, hi, zeroEntry, zeroRange] at hu
  · rw [len]
    simp only [fEMShminfo_growEMShmseg, emIncrement, hwh, sizeofEMEntry]
    omega
  · simpa [flEntries] using hv.flWhole

lemma makeRoom_valid (hv : Valid s) : Valid (makeRoom s) := by
  unfold makeRoom
  split
  · exact growEMShmseg_valid hv
  · exact hv

variable {t : Map} {i size : Nat}

/-- The free range at `j` loses its first `size` units to the extent at `i`. -/
lemma carve_valid (hv : Valid s) {j : Nat} (hp : size ≠ 0)
    (fits : size ≤ (fFreeList s j).size) (bound : i < emEntries s)
    (hun : (fExtentMap s i).range.size = 0) (extents : ∀ k, (fExtentMap t k).range =
      if k = i then ⟨(fFreeList s j).start, size⟩ else (fExtentMap s k).range)
    (free : ∀ k, fFreeList t k =
      if k = j then ⟨(fFreeList s j).start + (size : Int) * 1024, (fFreeList s j).size - size⟩
      else fFreeList s k) (em : fEMShminfo t =
      { fEMShminfo s with currentSize := (fEMShminfo s).currentSize + sizeofEMEntry })
    (fl : fFLShminfo t = if (fFreeList s j).size - size = 0 then
      { fFLShminfo s with currentSize := (fFLShminfo s).currentSize + -sizeofInlineLBIDRange }
      else fFLShminfo s) : Valid t := by
  have usedJ : usedFree s j := by simp only [usedFree]; omega
  have lenE : emEntries t = emEntries s := by simp [emEntries, em]
  have alloc : (fFLShminfo t).allocdSize = (fFLShminfo s).allocdSize := by
    rw [fl]
    split <;> rfl
  have lenF : flEntries t = flEntries s := by simp [flEntries, alloc]
  have usedF : ∀ k, usedFree t k → usedFree s k := by
    intro k hh
    by_cases source : k = j
    · exact source ▸ usedJ
    · simpa [usedFree, free, source] using hh
  constructor
  · refine hv.tiling.split (show (.inl i : Nat ⊕ Nat) ≠ .inr j by simp)
      (blocks_eq_empty hun) ?_ ?_ ?_
    · rintro (k | k) source target
      · have : k ≠ i := fun he => target (by rw [he])
        simp [cell, extents, this]
      · have : k ≠ j := fun he => source (by rw [he])
        simp [cell, free, this]
    · intro x
      simp only [cell, extents, free, if_pos, mem_blocks]
      omega
    · intro x hh
      simp only [cell, extents, free, if_pos, mem_blocks] at hh ⊢
      omega
  · intro a b left right
    have old := hv.apart a b (usedF a left) (usedF b right)
    by_cases sourceB : b = j
    · by_cases sourceA : a = j
      · subst sourceA sourceB
        have : (fFreeList t b).size ≠ 0 := right
        simp only [InlineLBIDRange.blockEnd]
        omega
      intro meet
      refine sourceA (hv.free_disjoint
        (x := (fFreeList s j).start + (size : Int) * 1024 - 1) ?_ ?_)
      · have : (fFreeList s a).size ≠ 0 := usedF a left
        simp only [free, sourceA, sourceB, if_true, if_false, InlineLBIDRange.blockEnd] at meet
        simp only [mem_blocks]
        omega
      · simp only [mem_blocks]
        omega
    · by_cases sourceA : a = j
      · subst sourceA
        simp only [free, sourceB, if_true, if_false, InlineLBIDRange.blockEnd] at old ⊢
        omega
      · simpa [free, sourceA, sourceB] using old
  · have count : Nat.count (usedExtent t) (emEntries s) =
        Nat.count (usedExtent s) (emEntries s) + 1 :=
      count_gain bound (by simp [usedExtent, hun]) (by simpa [usedExtent, extents] using hp)
        (fun k _ ho => by simp [usedExtent, extents, ho])
    rw [lenE, count, em]
    simp only [hv.emCount]
    push_cast
    ring
  · rw [lenF, fl]
    split_ifs with spent
    · have count : Nat.count (usedFree s) (flEntries s) =
          Nat.count (usedFree t) (flEntries s) + 1 :=
        count_gain (hv.flBeyond j usedJ) (by simp [usedFree, free, spent]) usedJ
          (fun k _ ho => by simp [usedFree, free, ho])
      have sizes := hv.flCount
      rw [count] at sizes
      simp only [sizes]
      push_cast
      ring
    · rw [hv.flCount]
      rw [count_congr (p := usedFree s) (q := usedFree t)]
      intro k _
      by_cases source : k = j
      · subst source
        simp [usedFree, free, spent]
        omega
      · simp [usedFree, free, source]
  · simpa [em, lenE] using hv.emWhole
  · simpa [alloc, lenF] using hv.flWhole
  · intro k hh
    rw [lenE]
    by_cases target : k = i
    · exact target ▸ bound
    · exact hv.emBeyond k (by simpa [usedExtent, extents, target] using hh)
  · intro k hh
    rw [lenF]
    exact hv.flBeyond k (usedF k hh)

/-- What a successful request to the free list leaves behind. -/
structure Taken (s t : Map) (size j : Nat) : Prop where
  fits : size ≤ (fFreeList s j).size
  extents : ∀ k, fExtentMap t k = fExtentMap s k
  free : ∀ k, fFreeList t k =
    if k = j then ⟨(fFreeList s j).start + (size : Int) * 1024, (fFreeList s j).size - size⟩
    else fFreeList s k
  em : fEMShminfo t = fEMShminfo s
  fl : fFLShminfo t = if (fFreeList s j).size - size = 0 then
    { fFLShminfo s with currentSize := (fFLShminfo s).currentSize + -sizeofInlineLBIDRange }
    else fFLShminfo s

lemma getLBIDsFromFreeList_taken {start : Int} (hsm : size < 2 ^ 22)
    (hok : getLBIDsFromFreeList size s = (.ok start, t)) :
    ∃ j, Taken s t size j ∧ start = (fFreeList s j).start := by
  have exact1024 : u32 (size * 1024) = size * 1024 := Nat.mod_eq_of_lt (by omega)
  unfold getLBIDsFromFreeList at hok
  split at hok
  · simp at hok
  rename_i j hf
  have fits : size ≤ (fFreeList s j).size := by simpa using (firstIndex_eq_some hf).1
  refine ⟨j, ?_⟩
  by_cases spent : (fFreeList s j).size - size = 0
  · simp only [spent, if_true, Prod.mk.injEq, Except.ok.injEq] at hok
    obtain ⟨rfl, rfl⟩ := hok
    exact ⟨⟨fits, by simp, by simp [exact1024, spent], by simp, by simp [spent]⟩, rfl⟩
  · simp only [spent, if_false, Prod.mk.injEq, Except.ok.injEq] at hok
    obtain ⟨rfl, rfl⟩ := hok
    exact ⟨⟨fits, by simp, by simp [exact1024], by simp, by simp [spent]⟩, rfl⟩

lemma getLBIDsFromFreeList_error {e : BrmExcept}
    (failure : getLBIDsFromFreeList size s = (.error e, t)) : s = t := by
  unfold getLBIDsFromFreeList at failure
  split at failure
  · simpa using (Prod.mk.inj failure).2
  · simp only at failure
    split at failure <;> simp at failure

lemma makeRoom_below (hv : Valid s) :
    (fEMShminfo (makeRoom s)).currentSize < (fEMShminfo (makeRoom s)).allocdSize := by
  have fits : (fEMShminfo s).currentSize ≤ (fEMShminfo s).allocdSize := by
    rw [hv.emCount, hv.emWhole]
    have := Nat.count_le (p := usedExtent s) (n := emEntries s)
    simp only [sizeofEMEntry]
    omega
  unfold makeRoom
  split
  · rename_i full
    simp only [fEMShminfo_growEMShmseg, emIncrement, sizeofEMEntry]
    omega
  · omega

/-- With room in the segment the search for an unused slot cannot fail. -/
lemma emptyEMEntry_isSome (hv : Valid s)
    (hl : (fEMShminfo s).currentSize < (fEMShminfo s).allocdSize) :
    ∃ i, emptyEMEntry s = some i := by
  have short : Nat.count (usedExtent s) (emEntries s) < emEntries s := by
    rw [hv.emCount, hv.emWhole] at hl
    simp only [sizeofEMEntry] at hl
    omega
  obtain ⟨i, bound, hun⟩ := exists_of_count_lt short
  refine firstIndex_isSome bound ?_
  simpa [usedExtent] using hun

lemma allocateExtent_valid {entry : Map → InlineLBIDRange → EMEntry} (hv : Valid s)
    (hp : size ≠ 0) (hsm : size < 2 ^ 22) (range : ∀ s r, (entry s r).range = r) :
    Valid (allocateExtent size entry s).2 := by
  have roomy := makeRoom_valid hv
  unfold allocateExtent
  split
  · rename_i m hreq
    exact getLBIDsFromFreeList_error hreq ▸ roomy
  rename_i start m hreq
  obtain ⟨j, taken, first⟩ := getLBIDsFromFreeList_taken hsm hreq
  have lenE : emEntries m = emEntries (makeRoom s) := by simp [emEntries, taken.em]
  have search : emptyEMEntry m = emptyEMEntry (makeRoom s) := by
    simp [emptyEMEntry, lenE, taken.extents]
  obtain ⟨i, hf⟩ := emptyEMEntry_isSome roomy (makeRoom_below hv)
  obtain ⟨hun, bound⟩ := firstIndex_eq_some hf
  simp only [search, hf]
  refine carve_valid roomy hp taken.fits bound (by simpa using hun) ?_ ?_ ?_ ?_
  · intro k
    by_cases target : k = i <;> simp [target, range, taken.extents, first]
  · simp [taken.free]
  · simp [taken.em]
  · simp [taken.fl]

lemma extentSize_small (colWidth : Nat) : extentSize colWidth / 1024 < 2 ^ 22 := by
  have : u32 (extentRows * colWidth) < 2 ^ 32 := Nat.mod_lt _ (by decide)
  simp only [extentSize, blockSize]
  omega

variable {colWidth : Nat}

lemma extentSize_positive (width : colWidth ∈ columnWidths) : extentSize colWidth / 1024 ≠ 0 := by
  simp only [columnWidths, mem_cons, not_mem_nil, or_false] at width
  rcases width with rfl | rfl | rfl | rfl <;> decide

variable {cfg : Config} {oid : Int} {dbRoot : DBRootsStruct} {partitionNum : Nat}

variable (hv : Valid s)
include hv

lemma createColumnExtentDBroot_valid {colDataType : ColDataType} (width : colWidth ∈ columnWidths) :
    Valid (createColumnExtentDBroot cfg oid colWidth dbRoot colDataType
      partitionNum s).2 := by
  rw [createColumnExtentDBroot, created_map]
  exact allocateExtent_valid hv (extentSize_positive width) (extentSize_small colWidth)
    (fun _ _ => rfl)

variable {segmentNum : Nat}

lemma createDictStoreExtent_valid :
    Valid (createDictStoreExtent oid dbRoot partitionNum segmentNum s).2 := by
  rw [createDictStoreExtent, created_map]
  exact allocateExtent_valid hv (by decide) (extentSize_small dictColWidth) (fun _ _ => rfl)

lemma putExtent_valid {e : EMEntry} (range : e.range = (fExtentMap s i).range) :
    Valid (putExtent s i e) := by
  refine valid_congr (fun j => ?_) (by simp) (by simp) (by simp) hv
  by_cases he : j = i <;> simp [he, range]

omit hv in
lemma modifies_valid (hmod : Modifies s t) (hv : Valid s) : Valid t := by
  induction hmod with
  | refl => exact hv
  | step _ range ih => exact putExtent_valid (ih.makeUndoRecord _) (range _)

lemma applyVerdict_valid (hu : usedExtent s i) (v : Verdict) : Valid (applyVerdict v i s) := by
  cases v with
  | delete => exact deleteExtent_valid hv hu
  | keep => exact hv
  | reset hwm =>
    exact modifies_valid (resetHwm_modifies i hwm s) hv

omit hv

variable {acc : Stripe × Map}

lemma rollbackColumnStep_valid {bDeleteAll : Bool} {hwm : Nat} (hv : Valid acc.2) :
    Valid (rollbackColumnStep oid bDeleteAll dbRoot partitionNum segmentNum hwm i acc).2 := by
  simp only [rollbackColumnStep]
  split
  · rename_i guard
    split
    · exact deleteExtent_valid hv guard.1
    · exact applyVerdict_valid hv guard.1 _
  · exact hv

lemma rollbackDictStep_valid {segNums hwms : List Nat} {acc : List (Nat × Nat × Nat) × Map}
    (hv : Valid acc.2) :
    Valid (rollbackDictStep oid dbRoot partitionNum segNums hwms i acc).2 := by
  simp only [rollbackDictStep]
  split
  · rename_i guard
    split
    · exact deleteExtent_valid hv guard.1
    · exact applyVerdict_valid hv guard.1 _
  · exact hv

variable {extentsInfo : List (Int × ExtentInfo)}

lemma deleteEmptyColStep_valid (hv : Valid acc.2) :
    Valid (deleteEmptyColStep extentsInfo i acc).2 := by
  simp only [deleteEmptyColStep]
  split
  · exact hv
  · split
    · rename_i guard
      exact applyVerdict_valid hv guard.1 _
    · exact hv

lemma deleteEmptyDictStep_valid (hv : Valid acc.2) :
    Valid (deleteEmptyDictStep extentsInfo i acc).2 := by
  simp only [deleteEmptyDictStep]
  split
  · exact hv
  · split
    · rename_i guard
      exact applyVerdict_valid hv guard.1 _
    · exact hv

lemma newFileVerdict_valid (hv : Valid s) :
    Valid (applyVerdict (newFileVerdict extentsInfo (fExtentMap s i)) i s) := by
  by_cases hu : usedExtent s i
  · exact applyVerdict_valid hv hu _
  have kept : newFileVerdict extentsInfo (fExtentMap s i) = .keep := by
    simp only [usedExtent, not_not] at hu
    unfold newFileVerdict
    split
    · rfl
    · simp [hu]
  rw [kept]
  exact hv

lemma deleteEmptyDictStoreExtents_valid (hv : Valid s) :
    Valid (ExtentUpdates.deleteEmptyDictStoreExtents extentsInfo s) := by
  unfold ExtentUpdates.deleteEmptyDictStoreExtents
  split
  · exact forEach_preserves Valid hv (fun _ _ _ held => newFileVerdict_valid held)
  · exact forEach_preserves (fun acc : Stripe × Map => Valid acc.2) hv
      (fun _ _ _ held => deleteEmptyDictStep_valid held)

lemma deleteWhere_valid (doomed : EMEntry → Bool) (hv : Valid s) :
    Valid (deleteWhere doomed s) := by
  refine forEach_preserves Valid hv (fun i t _ held => ?_)
  split
  · rename_i guard
    exact deleteExtent_valid held guard.1
  · exact held

lemma deleteAll_valid {extents : List Nat} (hv : Valid s) (hdi : extents.Nodup)
    (hu : ∀ i ∈ extents, usedExtent s i) :
    Valid (extents.foldl (fun s i => deleteExtent i s) s) := by
  induction extents generalizing s with
  | nil => exact hv
  | cons i extents ih =>
    obtain ⟨fresh, hdi⟩ := nodup_cons.mp hdi
    refine ih (deleteExtent_valid hv (hu i mem_cons_self)) hdi ?_
    intro j hm
    have ho : j ≠ i := fun he => fresh (he ▸ hm)
    simpa [usedExtent, ho] using hu j (mem_cons_of_mem _ hm)

lemma partitionExtents_spec (oids : Finset Int) (partitionNums : Finset LogicalPartition)
    (s : Map) : (partitionExtents oids partitionNums s).Nodup ∧
      ∀ i ∈ partitionExtents oids partitionNums s, usedExtent s i := by
  refine ⟨List.Nodup.filter _ nodup_range, fun i hm => ?_⟩
  simp only [partitionExtents, mem_filter, decide_eq_true_eq] at hm
  exact hm.2.1

lemma deletePartition_valid {oids : Finset Int} {partitionNums : Finset LogicalPartition}
    (hv : Valid s) : Valid (ExtentUpdates.deletePartition oids partitionNums s).2 := by
  unfold ExtentUpdates.deletePartition
  split
  · exact hv
  · obtain ⟨hdi, hu⟩ := partitionExtents_spec oids partitionNums s
    exact deleteAll_valid hv hdi hu

lemma bulkUpdateDBRoot_valid {args : List BulkUpdateDBRootArg} (hv : Valid s) :
    Valid (ExtentUpdates.bulkUpdateDBRoot args s) := by
  refine forEach_preserves Valid hv (fun i t _ held => ?_)
  split
  · exact putExtent_valid held rfl
  · exact held

lemma deleteDBRoot_valid {dbr : Nat} (hv : Valid s) : Valid (ExtentUpdates.deleteDBRoot dbr s) := by
  refine forEach_preserves Valid hv (fun i t _ held => ?_)
  simp only
  split
  · rename_i hu
    split
    · exact deleteExtent_valid held hu
    · exact putExtent_valid held rfl
  · exact held

lemma run_valid (c : Call) (hv : Valid s) (widths : c.widthsValid) : Valid (c.run cfg s).2 := by
  cases c with
  | createColumnExtentDBroot oid colWidth dbRoot colDataType partitionNum =>
    simpa [Call.run] using createColumnExtentDBroot_valid hv widths
  | createColumnExtentExactFile oid colWidth dbRoot partitionNum segmentNum colDataType =>
    simp only [Call.run, discard_map, createColumnExtentExactFile, created_map]
    exact allocateExtent_valid hv (extentSize_positive widths) (extentSize_small _) fun _ _ => rfl
  | createStripeColumnExtents cols dbRoot partitionNum =>
    simp only [Call.run, discard_map]
    exact createStripeFrom_rule cfg (P := Valid)
      (Q := fun _ cols _ => ∀ col ∈ cols, col.width ∈ columnWidths)
      (fun _ _ _ _ hv widths => ⟨createColumnExtentDBroot_valid hv (widths _ mem_cons_self),
        fun _ _ _ col hm => widths col (mem_cons_of_mem _ hm)⟩) hv widths
  | createDictStoreExtent oid dbRoot partitionNum segmentNum =>
    simpa [Call.run] using createDictStoreExtent_valid hv
  | rollbackColumnExtentsDBroot oid bDeleteAll dbRoot partitionNum segmentNum hwm =>
    exact forEach_preserves (fun acc : Stripe × Map => Valid acc.2) hv
      (fun _ _ _ held => rollbackColumnStep_valid held)
  | rollbackDictStoreExtentsDBroot oid dbRoot partitionNum segNums hwms =>
    exact forEach_preserves (fun acc : List (Nat × Nat × Nat) × Map => Valid acc.2) hv
      (fun _ _ _ held => rollbackDictStep_valid held)
  | deleteEmptyColExtents extentsInfo =>
    exact forEach_preserves (fun acc : Stripe × Map => Valid acc.2) hv
      (fun _ _ _ held => deleteEmptyColStep_valid held)
  | deleteEmptyDictStoreExtents extentsInfo => exact deleteEmptyDictStoreExtents_valid hv
  | deleteOID oid => exact deleteWhere_valid (fun e => decide (e.fileID = oid)) hv
  | deleteOIDs oids =>
    exact deleteWhere_valid (fun e => decide (e.fileID ∈ oids)) hv
  | deletePartition oids partitionNums => exact deletePartition_valid hv
  | bulkUpdateDBRoot args => exact bulkUpdateDBRoot_valid hv
  | deleteDBRoot dbr => exact deleteDBRoot_valid hv
  | _ => exact modifies_valid (run_modifies s rfl) hv

lemma confirmChanges_valid (hv : Valid s) : Valid s.confirmChanges :=
  valid_congr (s := s) (fun _ => rfl) (fun _ => rfl) rfl rfl hv

lemma reachable_valid (hr : Reachable cfg s) : Valid s := by
  induction hr with
  | fresh => exact fresh_valid
  | step c hr widths hok ih =>
    exact confirmChanges_valid (run_valid c ih widths)

/-- The LBIDs of the used entries of both tables. -/
def owned (s : Map) : Set Int :=
  {x | (∃ i, i < emEntries s ∧ usedExtent s i ∧ x ∈ blocks (fExtentMap s i).range) ∨
    ∃ j, j < flEntries s ∧ usedFree s j ∧ x ∈ blocks (fFreeList s j)}

lemma owned_eq_lbidSpace (hv : Valid s) : owned s = lbidSpace := by
  have hu : ∀ {r : InlineLBIDRange} {x : Int}, x ∈ blocks r → r.size ≠ 0 := by
    intro r x hi hun
    simp [blocks_eq_empty hun] at hi
  ext x
  constructor
  · rintro (⟨i, -, -, hi⟩ | ⟨j, -, -, hi⟩)
    · exact hv.tiling.inside (.inl i) x hi
    · exact hv.tiling.inside (.inr j) x hi
  · intro hi
    obtain ⟨i | j, owner⟩ := hv.tiling.covered x hi
    · exact Or.inl ⟨i, hv.emBeyond i (hu owner), hu owner, owner⟩
    · exact Or.inr ⟨j, hv.flBeyond j (hu owner), hu owner, owner⟩

/-- From the fresh map on, the used extents and the used free ranges partition the LBID
space, free ranges are maximal, and both byte counters count the used entries. -/
theorem reachable_partitions_lbidSpace {cfg : Config} {s : Map} (reached : Reachable cfg s) :
    owned s = lbidSpace ∧
      (∀ i j, i ≠ j → Disjoint (blocks (fExtentMap s i).range) (blocks (fExtentMap s j).range)) ∧
      (∀ i j, i ≠ j → Disjoint (blocks (fFreeList s i)) (blocks (fFreeList s j))) ∧
      (∀ i j, Disjoint (blocks (fExtentMap s i).range) (blocks (fFreeList s j))) ∧
      (∀ i j, usedFree s i → usedFree s j → (fFreeList s i).blockEnd ≠ (fFreeList s j).start) ∧
      (fEMShminfo s).currentSize = sizeofEMEntry * Nat.count (usedExtent s) (emEntries s) ∧
      (fFLShminfo s).currentSize =
        sizeofInlineLBIDRange * Nat.count (usedFree s) (flEntries s) := by
  have valid := reachable_valid reached
  have apart : ∀ a b, a ≠ b → Disjoint (cell s a) (cell s b) := by
    intro a b other
    rw [Set.disjoint_left]
    exact fun x left right => other (valid.tiling.disjoint x a b left right)
  exact ⟨owned_eq_lbidSpace valid, fun i j other => apart (.inl i) (.inl j) (by simpa using other),
    fun i j other => apart (.inr i) (.inr j) (by simpa using other),
    fun i j => apart (.inl i) (.inr j) (by simp), valid.apart, valid.emCount, valid.flCount⟩

def exampleConfig : Config := ⟨4, 2, 1⟩

/-- An eight-byte column extent created in the fresh map. -/
def firstColumn : Call := .createColumnExtentDBroot 3000 8 ⟨fun _ => 1⟩ .bigint 0

theorem reachable_partitions_lbidSpace_firstColumn :
    owned (firstColumn.run exampleConfig fresh).2.confirmChanges = lbidSpace :=
  (reachable_partitions_lbidSpace
    (.step firstColumn .fresh (by simp [firstColumn, Call.widthsValid, columnWidths])
      (by decide +kernel))).1

end LbidSpace
