import EryDb.VssTable

/-!
# What a lookup in the version substitution structure answers

`lookup` walks one hash chain once, with a running minimum, a running maximum and an
early exit. The chain holds the entries of the block in the order their insertions and
removals left, together with those of other blocks. The answer depends on none of this:
it is the eligible version a reader at that commit number has to see.
-/

namespace VssLookup

open SlotTable Vss

variable {hasher : Int → Nat} {s : VSS} {lbid txnID : Int} {verInfo : QueryContext} {vbOnly : Bool}

/-- The entries of a block, wherever they lie in the table. -/
def entriesOf (s : VSS) (lbid : Int) : Set VSSEntry :=
  {e | e.lbid = lbid ∧ ∃ i, i < field s .capacity ∧ usedSlot s i ∧ storage s i = e}

def Eligible (verInfo : QueryContext) (txnID : Int) (vbOnly : Bool) (e : VSSEntry) : Prop :=
  (vbOnly = true → e.data.vbFlag = true) ∧ (e.verID = txnID ∨ e.verID ∉ verInfo.txns)

instance (verInfo : QueryContext) (txnID : Int) (vbOnly : Bool) :
    DecidablePred (Eligible verInfo txnID vbOnly) := fun e =>
  inferInstanceAs (Decidable ((vbOnly = true → e.data.vbFlag = true) ∧
    (e.verID = txnID ∨ e.verID ∉ verInfo.txns)))

/-- Versions are unique per block and not negative. -/
structure Versioned (s : VSS) : Prop where
  unique : ∀ i j, i < field s .capacity → j < field s .capacity → usedSlot s i → usedSlot s j →
    (storage s i).lbid = (storage s j).lbid → (storage s i).verID = (storage s j).verID → i = j
  nonneg : ∀ i, i < field s .capacity → usedSlot s i → 0 ≤ (storage s i).verID

/-- The eligible entry of greatest version not above the commit number. -/
structure IsVisible (among : Set VSSEntry) (scn : Int) (e : VSSEntry) : Prop where
  mem : e ∈ among
  old : e.verID ≤ scn
  greatest : ∀ e' ∈ among, e'.verID ≤ scn → e'.verID ≤ e.verID

/-- What the loop knows of the eligible entries it has passed. -/
structure Scanned (passed : Set VSSEntry) (scn minVersion maxVersion : Int)
    (maxEntry : Option VSSEntry) : Prop where
  inexact : ∀ e ∈ passed, e.verID ≠ scn
  least : (minVersion = -1 ∧ ∀ e, e ∉ passed) ∨
    ((∃ e ∈ passed, e.verID = minVersion) ∧ ∀ e ∈ passed, minVersion ≤ e.verID)
  none_below : maxEntry = none → maxVersion = -1 ∧ ∀ e ∈ passed, scn < e.verID
  some_below : ∀ m, maxEntry = some m → m.verID = maxVersion ∧ IsVisible passed scn m

lemma scanned_empty (scn : Int) : Scanned ∅ scn (-1) (-1) none where
  inexact := by simp
  least := by simp
  none_below := by simp
  some_below := by simp

variable {passed : Set VSSEntry} {minVersion maxVersion : Int} {maxEntry : Option VSSEntry}
  {e : VSSEntry}

/-- Another eligible entry keeps both running extremes. -/
lemma scanned_insert {scn : Int} (hsc : Scanned passed scn minVersion maxVersion maxEntry)
    (hnn : ∀ e' ∈ insert e passed, 0 ≤ e'.verID) (inexact : e.verID ≠ scn) :
    Scanned (insert e passed) scn
      (if e.verID < minVersion ∨ minVersion = -1 then e.verID else minVersion)
      (if e.verID < scn ∧ maxVersion < e.verID then e.verID else maxVersion)
      (if e.verID < scn ∧ maxVersion < e.verID then some e else maxEntry) where
  inexact := by
    rintro e' (rfl | old)
    · exact inexact
    · exact hsc.inexact e' old
  least := by
    have hp := hnn e (Set.mem_insert e passed)
    refine Or.inr ?_
    rcases hsc.least with ⟨start, hem⟩ | ⟨⟨low, hm, hver⟩, least⟩
    · rw [if_pos (Or.inr start)]
      refine ⟨⟨e, Set.mem_insert e passed, rfl⟩, ?_⟩
      rintro e' (rfl | old)
      · exact le_rfl
      · exact absurd old (hem e')
    have hsta : minVersion ≠ -1 := by
      have := hnn low (Set.mem_insert_of_mem e hm)
      omega
    split
    case isTrue smaller =>
      refine ⟨⟨e, Set.mem_insert e passed, rfl⟩, ?_⟩
      rintro e' (rfl | old)
      · exact le_rfl
      · have := least e' old
        omega
    case isFalse larger =>
      refine ⟨⟨low, Set.mem_insert_of_mem e hm, hver⟩, ?_⟩
      rintro e' (rfl | old)
      · omega
      · exact least e' old
  none_below := by
    have hp := hnn e (Set.mem_insert e passed)
    split
    · simp
    case isFalse stays =>
      intro missing
      obtain ⟨start, above⟩ := hsc.none_below missing
      refine ⟨start, ?_⟩
      rintro e' (rfl | old)
      · omega
      · exact above e' old
  some_below := by
    intro m merged
    split at merged
    case isTrue larger =>
      cases merged
      refine ⟨(if_pos larger).symm, Set.mem_insert e passed, by omega, ?_⟩
      rintro e' (rfl | old) hl
      · exact le_rfl
      cases hk : maxEntry with
      | none =>
        have := (hsc.none_below hk).2 e' old
        omega
      | some m =>
        obtain ⟨hver, hvis⟩ := hsc.some_below m hk
        have := hvis.greatest e' old hl
        omega
    case isFalse stays =>
      obtain ⟨hver, hvis⟩ := hsc.some_below m merged
      refine ⟨by rw [if_neg stays]; exact hver, Set.mem_insert_of_mem e hvis.mem,
        hvis.old, ?_⟩
      rintro e' (rfl | old) hl
      · have := hvis.old
        omega
      · exact hvis.greatest e' old hl

/-- The declarative answer: the version to see, or why there is none. -/
structure Answers (among : Set VSSEntry) (scn : Int) (answer : LookupAnswer) : Prop where
  visible : (∃ e ∈ among, e.verID ≤ scn) →
    ∃ e, IsVisible among scn e ∧ answer = ⟨.found, e.verID, e.data.vbFlag⟩
  tooOld : (∃ e, e ∈ among) → (∀ e ∈ among, scn < e.verID) → answer = ⟨.errSnapshotTooOld, 0, false⟩
  absent : (∀ e, e ∉ among) → answer = ⟨.notFound, 0, false⟩

lemma scanned_answers (hcu : 0 ≤ verInfo.currentScn)
    (hsc : Scanned passed verInfo.currentScn minVersion maxVersion maxEntry) :
    Answers passed verInfo.currentScn
      (lookupLoop lbid verInfo txnID vbOnly [] minVersion maxVersion maxEntry) := by
  simp only [lookupLoop]
  cases hk : maxEntry with
  | some m =>
    obtain ⟨hver, hvis⟩ := hsc.some_below m hk
    refine ⟨fun _ => ⟨m, hvis, by rw [hver]⟩, fun _ above => ?_, fun hem => ?_⟩
    · have := above m hvis.mem
      have := hvis.old
      omega
    · exact absurd hvis.mem (hem m)
  | none =>
    obtain ⟨-, above⟩ := hsc.none_below hk
    refine ⟨?_, ?_, fun hem => ?_⟩
    · rintro ⟨e, hm, old⟩
      have := above e hm
      omega
    · rintro ⟨e, hm⟩ -
      rcases hsc.least with ⟨-, hem⟩ | ⟨⟨low, hi, hver⟩, -⟩
      · exact absurd hm (hem e)
      · have := above low hi
        exact if_pos (by omega)
    · rcases hsc.least with ⟨start, -⟩ | ⟨⟨low, hi, -⟩, -⟩
      · exact if_neg (by omega)
      · exact absurd hi (hem low)

/-- The eligible entries of a block in a chain. -/
def eligibleIn (verInfo : QueryContext) (txnID : Int) (vbOnly : Bool) (lbid : Int)
    (l : List VSSEntry) : Set VSSEntry :=
  {e | e ∈ l ∧ e.lbid = lbid ∧ Eligible verInfo txnID vbOnly e}

lemma eligibleIn_cons_skip {l : List VSSEntry}
    (hsk : ¬ (e.lbid = lbid ∧ Eligible verInfo txnID vbOnly e)) :
    eligibleIn verInfo txnID vbOnly lbid (e :: l) = eligibleIn verInfo txnID vbOnly lbid l := by
  ext e'
  simp only [eligibleIn, Set.mem_ofPred_eq, List.mem_cons]
  constructor
  · rintro ⟨rfl | hm, fits⟩
    · exact absurd fits hsk
    · exact ⟨hm, fits⟩
  · rintro ⟨hm, fits⟩
    exact ⟨Or.inr hm, fits⟩

lemma eligibleIn_cons_take {l : List VSSEntry}
    (taken : e.lbid = lbid ∧ Eligible verInfo txnID vbOnly e) :
    eligibleIn verInfo txnID vbOnly lbid (e :: l) =
      insert e (eligibleIn verInfo txnID vbOnly lbid l) := by
  ext e'
  simp only [eligibleIn, Set.mem_ofPred_eq, List.mem_cons, Set.mem_insert_iff]
  constructor
  · rintro ⟨rfl | hm, fits⟩
    · exact Or.inl rfl
    · exact Or.inr ⟨hm, fits⟩
  · rintro (rfl | ⟨hm, fits⟩)
    · exact ⟨Or.inl rfl, taken⟩
    · exact ⟨Or.inr hm, fits⟩

lemma lookupLoop_skip {rest : List VSSEntry}
    (hsk : ¬ (e.lbid = lbid ∧ Eligible verInfo txnID vbOnly e)) :
    lookupLoop lbid verInfo txnID vbOnly (e :: rest) minVersion maxVersion maxEntry =
      lookupLoop lbid verInfo txnID vbOnly rest minVersion maxVersion maxEntry := by
  rw [lookupLoop]
  by_cases hn : e.lbid = lbid
  · rw [if_pos hn]
    by_cases hfl : vbOnly = true ∧ e.data.vbFlag = false
    · rw [if_pos hfl]
    have busy : txnID ≠ e.verID ∧ e.verID ∈ verInfo.txns := by
      by_contra free
      refine hsk ⟨hn, fun only => ?_, ?_⟩
      · simpa [only] using hfl
      · rcases not_and_or.mp free with own | hout
        · exact Or.inl (not_not.mp own).symm
        · exact Or.inr hout
    rw [if_neg hfl, if_pos busy]
  · rw [if_neg hn]

lemma lookupLoop_take {rest : List VSSEntry} (hn : e.lbid = lbid)
    (eligible : Eligible verInfo txnID vbOnly e) :
    lookupLoop lbid verInfo txnID vbOnly (e :: rest) minVersion maxVersion maxEntry =
      if verInfo.currentScn = e.verID then ⟨.found, e.verID, e.data.vbFlag⟩
      else lookupLoop lbid verInfo txnID vbOnly rest
        (if e.verID < minVersion ∨ minVersion = -1 then e.verID else minVersion)
        (if e.verID < verInfo.currentScn ∧ maxVersion < e.verID then e.verID else maxVersion)
        (if e.verID < verInfo.currentScn ∧ maxVersion < e.verID then some e else maxEntry) := by
  have hfl : ¬ (vbOnly = true ∧ e.data.vbFlag = false) := by
    rintro ⟨only, hunf⟩
    simp [eligible.1 only] at hunf
  have free : ¬ (txnID ≠ e.verID ∧ e.verID ∈ verInfo.txns) := by
    rintro ⟨ho, busy⟩
    rcases eligible.2 with own | hout
    · exact ho own.symm
    · exact hout busy
  rw [lookupLoop, if_pos hn, if_neg hfl, if_neg free]
  congr 1
  split_ifs <;> rfl

/-- The loop answers for what it has passed and what is ahead of it. -/
lemma lookupLoop_answers (hcu : 0 ≤ verInfo.currentScn) (rest : List VSSEntry)
    (hsc : Scanned passed verInfo.currentScn minVersion maxVersion maxEntry)
    (hnn : ∀ e ∈ eligibleIn verInfo txnID vbOnly lbid rest ∪ passed, 0 ≤ e.verID) :
    Answers (eligibleIn verInfo txnID vbOnly lbid rest ∪ passed) verInfo.currentScn
      (lookupLoop lbid verInfo txnID vbOnly rest minVersion maxVersion maxEntry) := by
  induction rest generalizing passed minVersion maxVersion maxEntry with
  | nil =>
    have nothing : eligibleIn verInfo txnID vbOnly lbid [] ∪ passed = passed := by
      simp [eligibleIn]
    rw [nothing]
    exact scanned_answers hcu hsc
  | cons e rest ih =>
    by_cases taken : e.lbid = lbid ∧ Eligible verInfo txnID vbOnly e
    · have hmo : eligibleIn verInfo txnID vbOnly lbid (e :: rest) ∪ passed =
          eligibleIn verInfo txnID vbOnly lbid rest ∪ insert e passed := by
        rw [eligibleIn_cons_take taken, Set.insert_union, Set.union_insert]
      rw [lookupLoop_take taken.1 taken.2]
      rw [hmo] at hnn ⊢
      have hh : e ∈ eligibleIn verInfo txnID vbOnly lbid rest ∪ insert e passed :=
        Or.inr (Set.mem_insert e passed)
      split
      case isTrue exactVersion =>
        refine ⟨fun _ => ⟨e, ⟨hh, by omega, fun e' _ old => by omega⟩, rfl⟩,
          fun _ above => ?_, fun hem => absurd hh (hem e)⟩
        have := above e hh
        omega
      case isFalse inexact =>
        refine ih (scanned_insert hsc (fun e' hm => ?_) (Ne.symm inexact)) hnn
        exact hnn e' (Or.inr hm)
    · rw [lookupLoop_skip taken]
      rw [eligibleIn_cons_skip taken] at hnn ⊢
      exact ih hsc hnn

lemma mem_chainEntries (hc : Chained (vssLayout hasher) s) :
    e ∈ chainEntries hasher s lbid ∧ e.lbid = lbid ↔ e ∈ entriesOf s lbid := by
  have home := bucketOf_lt hc lbid 0
  simp only [chainEntries, List.mem_map, entriesOf, Set.mem_ofPred_eq]
  constructor
  · rintro ⟨⟨i, hm, rfl⟩, hn⟩
    obtain ⟨bound, hu, -⟩ := (hc.chains.mem _ home i).mp hm
    exact ⟨hn, i, bound, hu, rfl⟩
  · rintro ⟨hn, i, bound, hu, rfl⟩
    refine ⟨⟨i, (hc.chains.mem _ home i).mpr ⟨bound, hu, ?_⟩, rfl⟩, hn⟩
    rw [← hn]
    rfl

lemma chain_answers (hcu : 0 ≤ verInfo.currentScn)
    (hnn : ∀ e ∈ eligibleIn verInfo txnID vbOnly lbid (chainEntries hasher s lbid),
      0 ≤ e.verID) :
    Answers (eligibleIn verInfo txnID vbOnly lbid (chainEntries hasher s lbid)) verInfo.currentScn
      (lookup hasher s lbid verInfo txnID vbOnly) := by
  rw [← Set.union_empty (eligibleIn verInfo txnID vbOnly lbid _)] at hnn ⊢
  exact lookupLoop_answers hcu _ (scanned_empty _) hnn

/-- In every table whose chains are whole, whatever their order. -/
theorem lookup_answers (chained : Chained (vssLayout hasher) s) (versioned : Versioned s)
    (current : 0 ≤ verInfo.currentScn) :
    ((∃ e ∈ entriesOf s lbid, Eligible verInfo txnID vbOnly e ∧ e.verID ≤ verInfo.currentScn) →
      ∃ e, IsVisible {e ∈ entriesOf s lbid | Eligible verInfo txnID vbOnly e}
        verInfo.currentScn e) ∧
    (∀ e, IsVisible {e ∈ entriesOf s lbid | Eligible verInfo txnID vbOnly e} verInfo.currentScn e →
      lookup hasher s lbid verInfo txnID vbOnly = ⟨.found, e.verID, e.data.vbFlag⟩) ∧
    ((∃ e ∈ entriesOf s lbid, Eligible verInfo txnID vbOnly e) →
      (∀ e ∈ entriesOf s lbid, Eligible verInfo txnID vbOnly e → verInfo.currentScn < e.verID) →
      lookup hasher s lbid verInfo txnID vbOnly = ⟨.errSnapshotTooOld, 0, false⟩) ∧
    ((∀ e ∈ entriesOf s lbid, ¬ Eligible verInfo txnID vbOnly e) →
      lookup hasher s lbid verInfo txnID vbOnly = ⟨.notFound, 0, false⟩) := by
  have chain : eligibleIn verInfo txnID vbOnly lbid (chainEntries hasher s lbid) =
      {e ∈ entriesOf s lbid | Eligible verInfo txnID vbOnly e} := by
    ext e
    simp only [eligibleIn, Set.mem_ofPred_eq, ← and_assoc, mem_chainEntries chained]
  have nonneg : ∀ e ∈ eligibleIn verInfo txnID vbOnly lbid (chainEntries hasher s lbid),
      0 ≤ e.verID := by
    rw [chain]
    rintro e ⟨⟨-, i, bound, used, rfl⟩, -⟩
    exact versioned.nonneg i bound used
  have answers := chain_answers current nonneg
  rw [chain] at answers
  refine ⟨?_, fun e visible => ?_, ?_, ?_⟩
  · rintro ⟨e, member, eligible, old⟩
    obtain ⟨best, visible, -⟩ := answers.visible ⟨e, ⟨member, eligible⟩, old⟩
    exact ⟨best, visible⟩
  · obtain ⟨best, greatest, answer⟩ := answers.visible ⟨e, visible.mem, visible.old⟩
    have version : best.verID = e.verID :=
      le_antisymm (visible.greatest best greatest.mem greatest.old)
        (greatest.greatest e visible.mem visible.old)
    obtain ⟨⟨named, i, bound, used, rfl⟩, -⟩ := visible.mem
    obtain ⟨⟨other, j, inside, taken, rfl⟩, -⟩ := greatest.mem
    obtain rfl := versioned.unique i j bound inside used taken (named.trans other.symm) version.symm
    exact answer
  · rintro ⟨e, member, eligible⟩ above
    exact answers.tooOld ⟨e, member, eligible⟩ fun e' inside => above e' inside.1 inside.2
  · intro nobody
    exact answers.absent fun e inside => nobody e inside.1 inside.2

/-- A fresh table after block 7 got version 3 in the version buffer. -/
def oneVersion : VSS := Vss.insert (fun _ => 0) 7 3 true false false initShmseg

lemma oneVersion_sound : Sound (vssLayout fun _ => 0) oneVersion :=
  (insert_spec 3 true false false initShmseg_sound (by decide)).1

lemma contents_oneVersion : contents oneVersion = {⟨7, 3, ⟨true, false⟩⟩} := by
  rw [oneVersion, (insert_spec 3 true false false initShmseg_sound (by decide)).2.1,
    contents_initShmseg]
  rfl

/-- The table after two later versions, the last of them locked. -/
def threeVersions : VSS :=
  Vss.insert (fun _ => 0) 7 8 false true false
    (Vss.insert (fun _ => 0) 7 4 true false false oneVersion)

lemma threeVersions_spec : Sound (vssLayout fun _ => 0) threeVersions ∧ contents threeVersions =
    {⟨7, 8, ⟨false, true⟩⟩, ⟨7, 4, ⟨true, false⟩⟩, ⟨7, 3, ⟨true, false⟩⟩} := by
  obtain ⟨sound, held, -⟩ :=
    insert_spec 4 true false false oneVersion_sound (show (7 : Int) ≠ -1 by decide)
  obtain ⟨sound', held', -⟩ := insert_spec 8 false true false sound (show (7 : Int) ≠ -1 by decide)
  exact ⟨sound', by rw [threeVersions, held', held, contents_oneVersion]; rfl⟩

lemma versioned_of_contents (unlike : ((contents s).map fun e => (e.lbid, e.verID)).Nodup)
    (nonneg : ∀ e ∈ contents s, 0 ≤ e.verID) : Versioned s where
  unique i j inside within used taken block version := by
    rw [contents, contentsBelow, Multiset.map_map] at unlike
    exact Multiset.inj_on_of_nodup_map unlike i (by simp [inside, used]) j (by simp [within, taken])
      (Prod.ext block version)
  nonneg i inside used := nonneg _ (mem_contents.mpr ⟨i, inside, used, rfl⟩)

/-- Transaction 9 reads block 7: at commit number 5 the version 4, at commit number 2 none. -/
theorem lookup_answers_threeVersions :
    lookup (fun _ => 0) threeVersions 7 ⟨5, ∅⟩ 9 false = ⟨.found, 4, true⟩ ∧
      lookup (fun _ => 0) threeVersions 7 ⟨2, ∅⟩ 9 false = ⟨.errSnapshotTooOld, 0, false⟩ := by
  obtain ⟨sound, held⟩ := threeVersions_spec
  have versioned : Versioned threeVersions :=
    versioned_of_contents (by rw [held]; decide) (by rw [held]; decide)
  have only : ∀ {j}, j < field threeVersions .capacity → usedSlot threeVersions j →
      (storage threeVersions j).verID = 8 ∨ (storage threeVersions j).verID = 4 ∨
        (storage threeVersions j).verID = 3 := fun {j} inside used => by
    have member := mem_contents.mpr ⟨j, inside, used, rfl⟩
    rw [held] at member
    simp only [Multiset.insert_eq_cons, Multiset.mem_cons, Multiset.mem_singleton] at member
    exact member.imp (congrArg Entry.verID) (.imp (congrArg Entry.verID) (congrArg Entry.verID))
  have member : (⟨7, 4, ⟨true, false⟩⟩ : Entry VssData) ∈ contents threeVersions := by simp [held]
  obtain ⟨i, bound, used, entry⟩ := mem_contents.mp member
  have named : (storage threeVersions i).lbid = 7 := congrArg Entry.lbid entry
  have version : (storage threeVersions i).verID = 4 := congrArg Entry.verID entry
  have data : (storage threeVersions i).data = ⟨true, false⟩ := congrArg Entry.data entry
  constructor
  · have visible : IsVisible {e ∈ entriesOf threeVersions 7 | Eligible ⟨5, ∅⟩ 9 false e} 5
        (storage threeVersions i) := by
      refine ⟨⟨⟨named, i, bound, used, rfl⟩, by simp [Eligible]⟩, by omega, ?_⟩
      rintro e ⟨⟨-, j, inside, taken, rfl⟩, -⟩ old
      have := only inside taken
      omega
    rw [(lookup_answers sound.toChained versioned (by decide)).2.1 _ visible, version, data]
  · refine (lookup_answers sound.toChained versioned (by decide)).2.2.1
      ⟨_, ⟨named, i, bound, used, rfl⟩, by simp [Eligible]⟩ ?_
    rintro e ⟨-, j, inside, taken, rfl⟩ -
    have := only inside taken
    simp only
    omega

end VssLookup
