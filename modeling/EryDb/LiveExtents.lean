import EryDb.ExtentUndo
import Mathlib.Data.Prod.Lex

/-!
# The live extents of the table, slot by slot

A slot whose range is empty holds no extent. Every call of the extent map is
described here by what it does to the live slots: a creation fills one unused slot,
`setLocalHWM` moves the high water mark of one segment file, and a rollback judges
each slot by its own entry. The searches for the last extent of a file or of a
DBRoot are described by the extent they find.
-/

namespace LiveExtents

open ImageUndo SlotScan BrmTypes ExtentMap ExtentCreation ExtentUpdates ExtentCalls LbidTiling
  LbidSpace ExtentUndo

def live (s : Map) (i : Nat) : Option EMEntry :=
  if (fExtentMap s i).range.size ≠ 0 then some (fExtentMap s i) else none

variable {s : Map} {i : Nat} {e : EMEntry}

lemma live_eq_some : live s i = some e ↔ fExtentMap s i = e ∧ e.range.size ≠ 0 := by
  unfold live
  split
  · rename_i hu
    constructor
    · rintro ⟨⟩
      exact ⟨rfl, hu⟩
    · rintro ⟨rfl, _⟩
      rfl
  · rename_i hun
    constructor
    · simp
    · rintro ⟨rfl, hu⟩
      exact absurd hu hun

lemma live_eq_none : live s i = none ↔ (fExtentMap s i).range.size = 0 := by
  simp [live]

lemma live_of_used (hu : (fExtentMap s i).range.size ≠ 0) :
    live s i = some (fExtentMap s i) := if_pos hu

lemma live_congr {t : Map} {j : Nat} (he : fExtentMap t i = fExtentMap s j) :
    live t i = live s j := by
  simp [live, he]

lemma live_fresh (i : Nat) : live fresh i = none := live_eq_none.mpr rfl

lemma bound_of_live (hv : Valid s) (hh : live s i = some e) : i < emEntries s := by
  obtain ⟨rfl, hu⟩ := live_eq_some.mp hh
  exact hv.emBeyond i hu

/-- A test of every slot of the table tells of every extent. -/
lemma live_all (test : Nat → EMEntry → Bool) (hv : Valid s)
    (shown : ((List.range (emEntries s)).all fun j => (live s j).all (test j)) = true)
    (hh : live s i = some e) : test i e = true := by
  have at_i := List.all_eq_true.mp shown i (List.mem_range.mpr (bound_of_live hv hh))
  simpa [hh] using at_i

lemma live_modifyExtent (i j : Nat) (change : EMEntry → EMEntry) (s : Map)
    (range : ∀ e, (change e).range = e.range) :
    live (modifyExtent i change s) j = if j = i then (live s i).map change else live s j := by
  by_cases he : j = i
  · subst he
    simp only [live, modifyExtent, fExtentMap_putExtent, if_true, range]
    split <;> simp
  · simp [live, modifyExtent, he]

/-- Two entries of the same extent: only mark and state differ. -/
def Moved (e e' : EMEntry) : Prop := e' = { e with hwm := e'.hwm, status := e'.status }

variable {e' : EMEntry}

lemma Moved.trans {e'' : EMEntry} (first : Moved e e') (second : Moved e' e'') : Moved e e'' := by
  unfold Moved at first second ⊢
  rw [second, first]

/-- What becomes of an extent under a verdict. -/
def judge : Verdict → EMEntry → Option EMEntry
  | .delete, _ => none
  | .reset hwm, e => some (if e.hwm ≠ hwm then { e with hwm := hwm, status := .available } else e)
  | .keep, e => some e

lemma judge_eq_none {v : Verdict} : judge v e = none ↔ v = .delete := by
  cases v <;> simp [judge]

lemma judge_moved {v : Verdict} (left : judge v e = some e') : Moved e e' := by
  cases v with
  | delete => simp [judge] at left
  | keep =>
    cases left
    rfl
  | reset hwm =>
    cases left
    split <;> rfl

/-- Setting the mark an extent had, whatever it has now. -/
lemma judge_reset (hmo : Moved e e') (available : e.status = .available)
    (available' : e'.status = .available) : judge (.reset e.hwm) e' = some e := by
  have he : e' = { e with hwm := e'.hwm } := by
    unfold Moved at hmo
    rw [available', ← available] at hmo
    exact hmo
  simp only [judge]
  split
  · rw [he, ← available]
  · rename_i heq
    rw [he, not_not.mp heq]

lemma live_applyVerdict (v : Verdict) (i j : Nat) (s : Map) :
    live (applyVerdict v i s) j = if j = i then (live s i).bind (judge v) else live s j := by
  cases v with
  | delete =>
    by_cases he : j = i
    · have gone : live (deleteExtent i s) i = none := live_eq_none.mpr (by simp)
      cases live s i <;> simp [applyVerdict, judge, he, gone]
    · simp [applyVerdict, live, he]
  | keep =>
    by_cases he : j = i
    · cases hf : live s i <;> simp [applyVerdict, judge, he, hf]
    · simp [applyVerdict, he]
  | reset hwm =>
    simp only [applyVerdict, resetHwm]
    split
    · rename_i hdif
      rw [live_modifyExtent]
      · by_cases hu : (fExtentMap s i).range.size ≠ 0
        · simp [live_of_used hu, judge, hdif]
        · simp [live_eq_none.mpr (not_not.mp hu)]
      · exact fun _ => rfl
    · rename_i heq
      by_cases he : j = i
      · by_cases hu : (fExtentMap s i).range.size ≠ 0
        · simp [he, live_of_used hu, judge, heq]
        · simp [he, live_eq_none.mpr (not_not.mp hu)]
      · simp [he]

section Rollback

variable {Scan Acc : Type} {rule : Scan → EMEntry → Scan × Verdict} {known : Acc → Scan}
  {map : Acc → Map} {body : Nat → Acc → Acc}

/-- A loop of verdicts judges every slot by the entry it held when the loop began. -/
lemma live_verdictLoop (loop : VerdictLoop rule known map body) (start : Acc) (n j : Nat) :
    live (map (forEach body n start)) j =
      if j < n then (live (map start) j).bind (judge (rule (scanAt rule
        (fExtentMap (map start)) (known start) j) (fExtentMap (map start) j)).2)
      else live (map start) j := by
  induction n with
  | zero => simp [forEach]
  | succ n ih =>
    obtain ⟨hsc, ahead⟩ := loop.ahead start n
    rw [forEach_succ, loop.applies, live_applyVerdict, hsc, ahead n le_rfl, ih,
      live_congr (ahead n le_rfl)]
    by_cases last : j = n
    · simp [last]
    · have : j < n + 1 ↔ j < n := by omega
      simp [last, this]

/-- What a loop of verdicts leaves was there before. -/
lemma verdictLoop_kept (loop : VerdictLoop rule known map body) (start : Acc) (n : Nat) {j : Nat}
    (left : live (map (forEach body n start)) j = some e') :
    ∃ e, live (map start) j = some e ∧ Moved e e' := by
  rw [live_verdictLoop loop] at left
  split at left
  · obtain ⟨e, hh, judged⟩ := Option.bind_eq_some_iff.mp left
    exact ⟨e, hh, judge_moved judged⟩
  · exact ⟨e', left, rfl⟩

end Rollback

section Creation

variable {s t : Map} {size : Nat} {entry : Map → InlineLBIDRange → EMEntry} {lbid : Int}
  {e : EMEntry}

lemma live_makeRoom (hv : Valid s) (i : Nat) : live (makeRoom s) i = live s i := by
  unfold makeRoom
  split
  · by_cases hi : i < emEntries s
    · exact live_congr (by simp [hi])
    have hun : live s i = none := by
      by_contra hu
      obtain ⟨e, hh⟩ := Option.ne_none_iff_exists'.mp hu
      exact hi (bound_of_live hv hh)
    rw [hun, live_eq_none]
    simp [hi, zeroEntry, zeroRange]
  · rfl

/-- The map a new entry is computed from: room has been made and the LBIDs are taken. -/
structure ReadyFor (s m : Map) : Prop where
  extents : ∀ i, fExtentMap m i = fExtentMap (makeRoom s) i
  entries : emEntries m = emEntries (makeRoom s)
  lives : ∀ i, live m i = live s i
  bound : ∀ i e, live m i = some e → i < emEntries m

lemma ReadyFor.lastExtent_eq {m : Map} (ready : ReadyFor s m) (wanted : EMEntry → Bool) :
    lastExtent m wanted = lastExtent (makeRoom s) wanted := by
  simp only [lastExtent, ready.entries, show fExtentMap m = fExtentMap (makeRoom s) from
    funext ready.extents]

lemma ReadyFor.emptyEMEntry_eq {m : Map} (ready : ReadyFor s m) :
    emptyEMEntry m = emptyEMEntry (makeRoom s) := by
  simp [emptyEMEntry, ready.entries, ready.extents]

/-- A successful creation fills an unused slot with the entry computed from the table. -/
lemma allocateExtent_ok (hv : Valid s) (hp : size ≠ 0) (hsm : size < 2 ^ 22)
    (range : ∀ s r, (entry s r).range = r)
    (hok : allocateExtent size entry s = (.ok (lbid, e), t)) :
    ∃ m i, ReadyFor s m ∧ emptyEMEntry m = some i ∧ live s i = none ∧
      e = entry m ⟨lbid, size⟩ ∧ ∀ j, live t j = if j = i then some e else live s j := by
  unfold allocateExtent at hok
  split at hok
  · simp at hok
  rename_i start m hreq
  obtain ⟨k, taken, rfl⟩ := getLBIDsFromFreeList_taken hsm hreq
  have roomy : ∀ j, live m j = live s j := fun j =>
    (live_congr (taken.extents j)).trans (live_makeRoom hv j)
  have lenE : emEntries m = emEntries (makeRoom s) := by simp [emEntries, taken.em]
  have ready : ReadyFor s m := by
    refine ⟨taken.extents, lenE, roomy, fun j e hh => ?_⟩
    rw [live_congr (taken.extents j)] at hh
    rw [lenE]
    exact bound_of_live (makeRoom_valid hv) hh
  split at hok
  · simp at hok
  rename_i i hf
  simp only [Prod.mk.injEq, Except.ok.injEq] at hok
  obtain ⟨⟨rfl, rfl⟩, rfl⟩ := hok
  have hun : live m i = none := live_eq_none.mpr (by simpa using (firstIndex_eq_some hf).1)
  refine ⟨m, i, ready, hf, (roomy i).symm.trans hun, rfl, fun j => ?_⟩
  by_cases he : j = i
  · subst he
    rw [if_pos rfl, live_eq_some]
    exact ⟨by simp, by rw [range]; exact hp⟩
  · rw [if_neg he, ← roomy j]
    exact live_congr (by simp [he])

/-- A creation that fails leaves every live extent as it was. -/
lemma allocateExtent_error {err : BrmExcept} (hv : Valid s)
    (failure : allocateExtent size entry s = (.error err, t)) (j : Nat) :
    live t j = live s j := by
  unfold allocateExtent at failure
  split at failure
  · rename_i m hreq
    obtain ⟨-, rfl⟩ := Prod.mk.inj failure
    rw [← getLBIDsFromFreeList_error hreq]
    exact live_makeRoom hv j
  rename_i start m hreq
  split at failure
  · obtain ⟨-, rfl⟩ := Prod.mk.inj failure
    have extents : fExtentMap m j = fExtentMap (makeRoom s) j := by
      unfold getLBIDsFromFreeList at hreq
      split at hreq
      · simp at hreq
      · simp only at hreq
        split at hreq <;>
        · obtain ⟨-, rfl⟩ := Prod.mk.inj hreq
          simp
    exact (live_congr extents).trans (live_makeRoom hv j)
  · simp at failure

end Creation

section Searches

variable {s : Map} {wanted : EMEntry → Bool} {e : EMEntry}

lemma lastExtentStep_latest {em : Nat → EMEntry} {best : Option Nat × Nat}
    (hlat : Latest (fun i => (em i).range.size ≠ 0 ∧ wanted (em i) = true)
      (fun i => (em i).blockOffset) i best.1)
    (high : best.2 = best.1.elim 0 (fun i => (em i).blockOffset)) :
    Latest (fun i => (em i).range.size ≠ 0 ∧ wanted (em i) = true)
        (fun i => (em i).blockOffset) (i + 1) (lastExtentStep em wanted i best).1 ∧
      (lastExtentStep em wanted i best).2 =
        (lastExtentStep em wanted i best).1.elim 0 (fun i => (em i).blockOffset) := by
  unfold lastExtentStep
  split
  · rename_i hbt
    refine ⟨hlat.take ⟨hbt.1, hbt.2.1⟩ fun k hk => ?_, rfl⟩
    have := hbt.2.2
    simpa [high, hk] using this
  rename_i worse
  refine ⟨hlat.pass fun hpa => ?_, high⟩
  cases hk : best.1 with
  | none => exact absurd ⟨hpa.1, hpa.2, by simp [high, hk]⟩ worse
  | some k =>
    refine ⟨k, rfl, ?_⟩
    by_contra above
    exact worse ⟨hpa.1, hpa.2, by simpa [high, hk] using (not_le.mp above).le⟩

lemma lastExtent_latest (s : Map) (wanted : EMEntry → Bool) :
    ∃ best, lastExtent s wanted = best.map (fExtentMap s) ∧
      Latest (fun i => (fExtentMap s i).range.size ≠ 0 ∧ wanted (fExtentMap s i) = true)
        (fun i => (fExtentMap s i).blockOffset) (emEntries s) best :=
  ⟨_, rfl, (forEach_invariant (fun n (best : Option Nat × Nat) =>
      Latest (fun i => (fExtentMap s i).range.size ≠ 0 ∧ wanted (fExtentMap s i) = true)
        (fun i => (fExtentMap s i).blockOffset) n best.1 ∧
      best.2 = best.1.elim 0 (fun i => (fExtentMap s i).blockOffset))
    ⟨Latest.start, rfl⟩ (fun _ _ _ held => lastExtentStep_latest held.1 held.2)).1⟩

lemma lastExtent_eq_none (bound : ∀ i e, live s i = some e → i < emEntries s)
    (missing : lastExtent s wanted = none) : ∀ i e, live s i = some e → wanted e = false := by
  obtain ⟨best, he, hlat⟩ := lastExtent_latest s wanted
  have none : best = none := by simpa [he] using missing
  intro i e hh
  have hi := bound i e hh
  obtain ⟨rfl, hu⟩ := live_eq_some.mp hh
  have := hlat.absent none i hi
  simpa [hu] using this

lemma lastExtent_eq_some (bound : ∀ i e, live s i = some e → i < emEntries s)
    (hf : lastExtent s wanted = some e) : ∃ i, live s i = some e ∧ wanted e = true ∧
      ∀ j e', live s j = some e' → wanted e' = true → e'.blockOffset ≤ e.blockOffset := by
  obtain ⟨best, he, hlat⟩ := lastExtent_latest s wanted
  rw [he] at hf
  obtain ⟨i, hk, rfl⟩ := Option.map_eq_some_iff.mp hf
  obtain ⟨_, hu, hpa⟩ := hlat.found i hk
  refine ⟨i, live_of_used hu, hpa, fun j e' hh wanted' => ?_⟩
  have hi := bound j e' hh
  obtain ⟨rfl, hu'⟩ := live_eq_some.mp hh
  exact hlat.largest i hk j hi ⟨hu', wanted'⟩

end Searches

section HighWaterMark

variable {oid : Int} {partitionNum segmentNum newHWM : Nat} {s t : Map}

/-- An extent of one segment file. -/
def InFile (oid : Int) (partitionNum segmentNum : Nat) (e : EMEntry) : Prop :=
  e.fileID = oid ∧ e.partitionNum = partitionNum ∧ e.segmentNum = segmentNum

instance (oid : Int) (partitionNum segmentNum : Nat) :
    DecidablePred (InFile oid partitionNum segmentNum) := fun e =>
  inferInstanceAs (Decidable (e.fileID = oid ∧ e.partitionNum = partitionNum ∧
    e.segmentNum = segmentNum))

/-- What the scan for the high water mark of a file has found: the last extent and the last
slot that holds a mark. -/
structure HwmFound (em : Nat → EMEntry) (oid : Int) (partitionNum segmentNum n : Nat)
    (found : HwmExtents) : Prop where
  last : Latest (fun i => (em i).range.size ≠ 0 ∧ InFile oid partitionNum segmentNum (em i))
    (fun i => (em i).blockOffset) n found.lastExtentIndex
  high : found.highestOffset = found.lastExtentIndex.elim 0 (fun i => (em i).blockOffset)
  old : Latest (fun i => (em i).range.size ≠ 0 ∧ InFile oid partitionNum segmentNum (em i) ∧
    (em i).hwm ≠ 0) id n found.oldHWMExtentIndex

lemma hwmExtentStep_found {em : Nat → EMEntry} {found : HwmExtents}
    (hk : HwmFound em oid partitionNum segmentNum i found) :
    HwmFound em oid partitionNum segmentNum (i + 1)
      (hwmExtentStep em oid partitionNum segmentNum i found) := by
  obtain ⟨last, high, old⟩ := hk
  unfold hwmExtentStep
  by_cases hh : (em i).range.size ≠ 0 ∧ InFile oid partitionNum segmentNum (em i)
  · -- The two parts of the step change different fields, so each is settled on its own.
    have old' : ∀ best, best = (if (em i).hwm ≠ 0 then some i else found.oldHWMExtentIndex) →
        Latest (fun i => (em i).range.size ≠ 0 ∧ InFile oid partitionNum segmentNum (em i) ∧
          (em i).hwm ≠ 0) id (i + 1) best := by
      rintro _ rfl
      split
      · rename_i marked
        exact old.take ⟨hh.1, hh.2, marked⟩ fun k hk => (old.found k hk).1.le
      · rename_i unmarked
        exact old.pass fun hpa => absurd hpa.2.2 unmarked
    have inFile : (em i).range.size ≠ 0 ∧ (em i).fileID = oid ∧
        (em i).partitionNum = partitionNum ∧ (em i).segmentNum = segmentNum := hh
    by_cases hbt : found.highestOffset ≤ (em i).blockOffset
    · have last' := last.take hh fun k hk => by simpa [high, hk] using hbt
      simp only [if_pos inFile, if_pos hbt]
      split
      · exact ⟨last', rfl, old' _ (if_pos ‹_›).symm⟩
      · exact ⟨last', rfl, old' _ (if_neg ‹_›).symm⟩
    · have last' := last.pass fun _ => by
        cases hk : found.lastExtentIndex with
        | none => simp [high, hk] at hbt
        | some k => exact ⟨k, rfl, by simpa [high, hk] using (not_le.mp hbt).le⟩
      simp only [if_pos inFile, if_neg hbt]
      split
      · exact ⟨last', high, old' _ (if_pos ‹_›).symm⟩
      · exact ⟨last', high, old' _ (if_neg ‹_›).symm⟩
  · have out : ¬ ((em i).range.size ≠ 0 ∧ (em i).fileID = oid ∧
        (em i).partitionNum = partitionNum ∧ (em i).segmentNum = segmentNum) := hh
    dsimp only
    rw [if_neg out]
    exact ⟨last.pass fun hpa => absurd hpa hh, high, old.pass fun hpa => absurd ⟨hpa.1, hpa.2.1⟩ hh⟩

/-- The mark goes to the last extent of the file, and the last other slot that holds a mark
loses it. -/
lemma setLocalHWM_ok (hv : Valid s)
    (hok : setLocalHWM oid partitionNum segmentNum newHWM s = (.ok (), t)) :
    ∃ l e old, live s l = some e ∧ InFile oid partitionNum segmentNum e ∧
      (∀ j e', live s j = some e' → InFile oid partitionNum segmentNum e' →
        e'.blockOffset ≤ e.blockOffset) ∧
      newHWM < u32 (e.blockOffset + u32 (e.range.size * 1024)) ∧
      Latest (fun i => (fExtentMap s i).range.size ≠ 0 ∧
        InFile oid partitionNum segmentNum (fExtentMap s i) ∧ (fExtentMap s i).hwm ≠ 0) id
        (emEntries s) old ∧
      ∀ j, live t j = if j = l then some { e with hwm := newHWM, status := .available }
        else if old = some j then (live s j).map (fun e => { e with hwm := 0 })
        else live s j := by
  have hf : HwmFound (fExtentMap s) oid partitionNum segmentNum (emEntries s)
      (forEach (hwmExtentStep (fExtentMap s) oid partitionNum segmentNum) (emEntries s)
        ⟨0, none, none⟩) :=
    forEach_invariant (HwmFound (fExtentMap s) oid partitionNum segmentNum)
      ⟨Latest.start, rfl, Latest.start⟩ (fun _ _ _ hk => hwmExtentStep_found hk)
  unfold setLocalHWM at hok
  generalize forEach (hwmExtentStep (fExtentMap s) oid partitionNum segmentNum) (emEntries s)
    ⟨0, none, none⟩ = scan at hok hf
  obtain ⟨high, last, old⟩ := scan
  cases last with
  | none => simp at hok
  | some l =>
    obtain ⟨_, hu, inFile⟩ := hf.last.found l rfl
    by_cases past : u32 ((fExtentMap s l).blockOffset +
        u32 ((fExtentMap s l).range.size * 1024)) ≤ newHWM
    · simp [past] at hok
    have raised : ∀ j, live (modifyExtent l
        (fun e => { e with hwm := newHWM, status := .available }) s) j =
        if j = l then some { fExtentMap s l with hwm := newHWM, status := .available }
        else live s j := fun j => by
      rw [live_modifyExtent, live_of_used hu]
      · rfl
      · exact fun _ => rfl
    refine ⟨l, _, old, live_of_used hu, inFile, fun j e' hh hw => ?_, not_le.mp past,
      hf.old, fun j => ?_⟩
    · have bound := bound_of_live hv hh
      obtain ⟨rfl, hu'⟩ := live_eq_some.mp hh
      exact hf.last.largest l rfl j bound ⟨hu', hw⟩
    simp only [past, if_false] at hok
    cases old with
    | none =>
      cases hok
      simpa using raised j
    | some k =>
      by_cases ho : k ≠ l
      · simp only [if_pos ho] at hok
        cases hok
        rw [live_modifyExtent, raised j, raised k, if_neg ho]
        · by_cases hh : j = k
          · simp [hh, ho]
          · simp [hh, Ne.symm hh]
        · exact fun _ => rfl
      · simp only [if_neg ho] at hok
        cases hok
        rw [raised j, not_not.mp ho]
        by_cases he : j = l
        · simp [he]
        · simp [he, Ne.symm he]

lemma setLocalHWM_valid (hv : Valid s)
    (hok : setLocalHWM oid partitionNum segmentNum newHWM s = (.ok (), t)) : Valid t := by
  have := modifies_valid (setLocalHWM_modifies oid partitionNum segmentNum newHWM s) hv
  rwa [hok] at this

/-- Seen from one slot: an extent that changes is in the file, and it held a mark or is the
last of the file. -/
lemma setLocalHWM_moves (hv : Valid s)
    (hok : setLocalHWM oid partitionNum segmentNum newHWM s = (.ok (), t)) (i : Nat) :
    (live s i = none → live t i = none) ∧
      ∀ e, live s i = some e → ∃ e', live t i = some e' ∧ Moved e e' ∧
        (e'.status = e.status ∨ e'.status = .available) ∧
        (e' = e ∨ InFile oid partitionNum segmentNum e ∧ (e.hwm ≠ 0 ∨
          ∀ j e'', live s j = some e'' → InFile oid partitionNum segmentNum e'' →
            e''.blockOffset ≤ e.blockOffset)) := by
  obtain ⟨l, last, old, hh, inFile, hmax, -, hd, changed⟩ := setLocalHWM_ok hv hok
  rw [changed i]
  by_cases later : i = l
  · subst later
    rw [if_pos rfl, hh]
    refine ⟨by simp, ?_⟩
    rintro e ⟨⟩
    exact ⟨_, rfl, rfl, Or.inr rfl, Or.inr ⟨inFile, Or.inr hmax⟩⟩
  rw [if_neg later]
  split_ifs with isOld
  · obtain ⟨-, -, inFile', held⟩ := hd.found i isOld
    refine ⟨by simp +contextual, fun e ht => ?_⟩
    obtain ⟨rfl, hu⟩ := live_eq_some.mp ht
    exact ⟨{ fExtentMap s i with hwm := 0 }, by rw [ht]; rfl, rfl, Or.inl rfl,
      Or.inr ⟨inFile', Or.inl held⟩⟩
  · exact ⟨id, fun e ht => ⟨e, ht, rfl, Or.inl rfl, Or.inl rfl⟩⟩

lemma setLocalHWM_back (hv : Valid s)
    (hok : setLocalHWM oid partitionNum segmentNum newHWM s = (.ok (), t)) {i : Nat} {e' : EMEntry}
    (ha : live t i = some e') : ∃ e, live s i = some e ∧ Moved e e' ∧
      (e'.status = e.status ∨ e'.status = .available) := by
  obtain ⟨hab, moves⟩ := setLocalHWM_moves hv hok i
  cases hb : live s i with
  | none => simp [hab hb] at ha
  | some e =>
    obtain ⟨e'', ha', hmo, state, -⟩ := moves e hb
    cases ha.symm.trans ha'
    exact ⟨e, rfl, hmo, state⟩

end HighWaterMark

end LiveExtents
