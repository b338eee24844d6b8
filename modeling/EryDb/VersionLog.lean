import EryDb.VbbmTable

/-!
# Which writes to the two tables are recorded

Undoing replays the recorded images, so it gives a table back exactly when everything was
recorded before it was written. Insertions after any growing, removals, flag changes and
the handing out of blocks are; the count of locked entries in a commit is not.
-/

namespace SlotTable

open ImageUndo ImageUndo.Undoable

variable {Data File : Type} {s t : Memory Data File}

lemma recorded_insertEntry (layout : Layout) (e : Slot Data) (f : Field) :
    (insertEntry layout false e s).Recorded (.field f) := by
  simp [insertEntry]

lemma logged_recordHeader (s : Memory Data File) : Logged s (recordHeader s) :=
  header_logged (Logged.refl s)

/-- Taking a slot out is recorded when the header is. -/
lemma logged_removal (counted : Bool) (prev : Option Nat) (index b : Nat)
    (header : ∀ f, s.Recorded (.field f)) :
    Logged s (discount counted index (unlink prev index b s)) := by
  have first := logged_unlink prev index b s
  exact first.trans (logged_discount counted index fun f => first.records _ (header f))

lemma logged_removal_header (counted : Bool) (prev : Option Nat) (index b : Nat)
    (s : Memory Data File) :
    Logged s (discount counted index (recordHeader (unlink prev index b s))) :=
  ((logged_unlink prev index b s).trans (logged_recordHeader _)).trans
    (logged_discount counted index fun f => by simp)

end SlotTable

namespace Vss

open ImageUndo ImageUndo.Undoable SlotScan SlotTable

variable {hasher : Int → Nat} {s t : VSS} {lbid verID : Int}

lemma logged_insert (lbid verID : Int) (vbFlag locked : Bool) (s : VSS) :
    Logged (checkResize hasher s) (insert hasher lbid verID vbFlag locked false s) := by
  simp only [insert, Bool.false_eq_true, if_false]
  have entered := logged_insertEntry (vssLayout hasher) ⟨lbid, verID, ⟨vbFlag, locked⟩, none⟩
    (checkResize hasher s)
  have counted := putField_logged (f := .currentSize) (record_logged entered (.field .currentSize))
    (by simp)
  split
  · exact putField_logged (counted _) (by simp [recorded_insertEntry]) _
  · exact counted _

lemma logged_setVBFlag {vbFlag : Bool} (set : setVBFlag hasher lbid verID vbFlag s = some t) :
    Logged s t := by
  rw [setVBFlag] at set
  split at set
  · cases set
  · cases set
    exact putSlot_logged (record_logged (Logged.refl s) _) (by simp) _

lemma logged_sweep {Other : Type} (onRemove : VSSEntry → Other → Other) (lbid : Int)
    (bucket fuel : Nat) (prev index : Option Nat) (ho : Other)
    (header : ∀ f, s.Recorded (.field f)) :
    Logged s (sweep onRemove lbid bucket fuel prev index (s, ho)).1 := by
  induction fuel generalizing s prev index ho with
  | zero => exact Logged.refl s
  | succ fuel ih =>
    cases index with
    | none => exact Logged.refl s
    | some i =>
      simp only [sweep]
      split
      · have removed := logged_removal (storage s i).data.locked prev i bucket header
        exact removed.trans (ih _ _ _ fun f => removed.records _ (header f))
      · exact ih _ _ _ header

lemma logged_removeEntry (lbid verID : Int) (s : VSS) :
    Logged s (removeEntry hasher lbid verID s) := by
  rw [removeEntry]
  split
  · exact Logged.refl s
  rename_i prev index hf
  have removed := logged_removal_header (storage s index).data.locked prev index
    (bucket hasher s lbid) s
  have header : ∀ f, (discount (storage s index).data.locked index
      (recordHeader (unlink prev index (bucket hasher s lbid) s))).Recorded (.field f) := by
    intro f
    have taken := logged_discount (storage s index).data.locked index
      (t := recordHeader (unlink prev index (bucket hasher s lbid) s)) fun f => by simp
    exact taken.records _ (by simp)
  dsimp only
  split
  · exact removed
  · exact removed.trans (logged_sweep _ _ _ _ _ _ _ header)

lemma logged_sweepBlocks {Other : Type} (removeFromVB : Int → Int → Other → Other)
    (lbids : List Int) (ho : Other) (header : ∀ f, s.Recorded (.field f)) :
    Logged s (lbids.foldl (sweepBlock hasher removeFromVB) (s, ho)).1 := by
  induction lbids generalizing s ho with
  | nil => exact Logged.refl s
  | cons lbid lbids ih =>
    have first : Logged s (sweepBlock hasher removeFromVB (s, ho) lbid).1 :=
      logged_sweep _ _ _ _ _ _ _ header
    rw [List.foldl_cons]
    exact first.trans (ih _ fun f => first.records _ (header f))

end Vss

namespace Vbbm

open ImageUndo ImageUndo.Undoable SlotScan SlotTable

variable {hasher : Int → Int → Nat} {vssHasher : Int → Nat} {s : VBBM}

lemma logged_insert (lbid verID : Int) (data : VbbmData) (s : VBBM) :
    Logged (checkResize hasher s) (insert hasher lbid verID data false s) := by
  simp only [insert, Bool.false_eq_true, if_false]
  have entered := logged_insertEntry (vbbmLayout hasher) ⟨lbid, verID, data, none⟩
    (checkResize hasher s)
  exact putField_logged (record_logged entered _) (by simp) _

lemma logged_removeEntry (lbid verID : Int) (s : VBBM) :
    Logged s (removeEntry hasher lbid verID s) := by
  rw [removeEntry]
  split
  · exact Logged.refl s
  · exact logged_removal_header _ _ _ _ s

lemma logged_gather (fileIndex fuel blocksLeft : Nat) (s : VBBM) :
    Logged s (gather fileIndex fuel blocksLeft s).2 := by
  induction fuel generalizing blocksLeft s with
  | zero => exact Logged.refl s
  | succ fuel ih =>
    simp only [gather]
    split
    · exact Logged.refl s
    · refine Logged.trans ?_ (ih _ _)
      exact putFile_logged (record_logged (Logged.refl s) _) (by simp) _

/-- Aging blocks out records what it removes from either table. -/
structure LoggedAging (a b : Aging) : Prop where
  vss : Logged a.vss b.vss
  vbbm : Logged a.vbbm b.vbbm

lemma LoggedAging.refl (a : Aging) : LoggedAging a a := ⟨Logged.refl _, Logged.refl _⟩

lemma LoggedAging.trans {a b c : Aging} (first : LoggedAging a b) (second : LoggedAging b c) :
    LoggedAging a c :=
  ⟨first.vss.trans second.vss, first.vbbm.trans second.vbbm⟩

lemma logged_ageSlot (repSize dbr firstFBO lastFBO i : Nat) (a : Aging) :
    LoggedAging a (ageSlot hasher vssHasher repSize dbr firstFBO lastFBO i a) := by
  simp only [ageSlot]
  split
  · exact LoggedAging.refl a
  split
  · exact LoggedAging.refl a
  split
  · split
    · exact ⟨Logged.refl _, Logged.refl _⟩
    · exact ⟨Vss.logged_removeEntry _ _ _, logged_removeEntry _ _ _⟩
  · exact LoggedAging.refl a

lemma logged_ageRanges (repSize dbr fileSize : Nat) (ranges : List VBRange) (a : Aging) :
    LoggedAging a (ranges.foldl (ageRange hasher vssHasher repSize dbr fileSize) a) := by
  refine List.foldlRecOn (motive := LoggedAging a) _ _ (.refl a) fun b before r _ => ?_
  rw [ageRange]
  split
  · exact before
  · exact forEach_preserves (LoggedAging a) before
      fun i c _ hlg => hlg.trans (logged_ageSlot _ _ _ _ i c)

end Vbbm
