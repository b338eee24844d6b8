import EryDb.AgingOut

/-!
# What a request ages out

A request for blocks of a version buffer file ages out the chunks of the one or two ranges
it is served from. If it is answered, no copy is left in them, and of the versions of a
block it leaves those without such a copy, or nothing once none of these is needed.
-/

namespace SlaveNode

open Multiset (map_le_map mem_of_le nodup_of_le)
open List SlotScan SlotTable Vss Vbbm

variable {cfg : NodeConfig} {a b : Aging} {v w : View} {n t : SlaveDBRMNode}

/-- A copy in the chunks that some ranges of a file age out. -/
def InRanges (repSize dbr fileSize : Nat) (ranges : List VBRange) (d : VbbmData) : Prop :=
  ∃ r ∈ ranges, ∃ firstFBO lastFBO, agedBlocks fileSize r = some (firstFBO, lastFBO) ∧
    InBlocks repSize dbr firstFBO lastFBO d

lemma AgeStepIn.mono {P Q : VbbmData → Prop} (weaker : ∀ d, P d → Q d) (step : AgeStepIn P v w) :
    AgeStepIn Q v w := by
  obtain ⟨x, hi, aged, rest⟩ := step
  exact ⟨x, hi, weaker x.data aged, rest⟩

lemma aged_mono {P Q : VbbmData → Prop} (weaker : ∀ d, P d → Q d)
    (path : Relation.ReflTransGen (AgeStepIn P) v w) :
    Relation.ReflTransGen (AgeStepIn Q) v w :=
  Relation.ReflTransGen.mono (fun _ _ step => AgeStepIn.mono weaker step) _ _ path

section Ranges

variable (repSize dbr fileSize : Nat)

/-- Copies of a kind are aged out, all of them unless the pass stops. -/
structure AgedAll (cfg : NodeConfig) (P : VbbmData → Prop) (a b : Aging) : Prop where
  sound : AgingSound cfg b
  room : SameRoom a.vbbm b.vbbm
  path : Relation.ReflTransGen (AgeStepIn P) (Aging.view a) (Aging.view b)
  clear : b.overflow = false → ∀ x ∈ contents b.vbbm, ¬ P x.data

lemma ageRange_agedAll (hs : AgingSound cfg a) (hrun : a.overflow = false)
    (huq : OneEach a.vbbm) (r : VBRange) :
    AgedAll cfg (InRanges repSize dbr fileSize [r]) a
      (ageRange cfg.vbbmHasher cfg.vssHasher repSize dbr fileSize a r) := by
  cases blocks : agedBlocks fileSize r with
  | none =>
    rw [ageRange, blocks]
    refine ⟨hs, .refl _, .refl, fun _ x _ => ?_⟩
    rintro ⟨r', hm, firstFBO, lastFBO, hf, -⟩
    rw [mem_singleton.mp hm, blocks] at hf
    cases hf
  | some place =>
    have passed := ageRange_passed hs hrun huq repSize dbr fileSize blocks
    refine ⟨passed.sound, passed.room, aged_mono (fun d hw => ?_) passed.path, fun still x hi => ?_⟩
    · exact ⟨r, mem_singleton_self r, _, _, blocks, hw⟩
    · rintro ⟨r', hm, firstFBO, lastFBO, hf, hw⟩
      rw [mem_singleton.mp hm, blocks] at hf
      cases hf
      exact passed.clear still x hi hw

lemma ageRange_overflowed (hov : a.overflow = true) (r : VBRange) :
    ageRange cfg.vbbmHasher cfg.vssHasher repSize dbr fileSize a r = a := by
  rw [ageRange]
  split
  · rfl
  · exact forEach_fixed fun i _ => by rw [ageSlot, if_pos hov]

lemma ageRanges_overflowed (hov : a.overflow = true) (ranges : List VBRange) :
    ranges.foldl (ageRange cfg.vbbmHasher cfg.vssHasher repSize dbr fileSize) a = a := by
  induction ranges with
  | nil => rfl
  | cons r ranges ih => rw [foldl_cons, ageRange_overflowed repSize dbr fileSize hov, ih]

/-- The ranges one after the other: each leaves its chunks clear for the later ones. -/
lemma ageRanges_agedAll (hs : AgingSound cfg a) (hrun : a.overflow = false)
    (huq : OneEach a.vbbm) (ranges : List VBRange) :
    AgedAll cfg (InRanges repSize dbr fileSize ranges) a
      (ranges.foldl (ageRange cfg.vbbmHasher cfg.vssHasher repSize dbr fileSize) a) := by
  induction ranges generalizing a with
  | nil =>
    refine ⟨hs, .refl _, .refl, fun _ x _ => ?_⟩
    rintro ⟨r, hm, -⟩
    cases hm
  | cons r ranges ih =>
    have first := ageRange_agedAll repSize dbr fileSize hs hrun huq r
    have hh : ∀ d, InRanges repSize dbr fileSize [r] d →
        InRanges repSize dbr fileSize (r :: ranges) d := by
      rintro d ⟨r', hm, rest⟩
      exact ⟨r', mem_cons.mpr (Or.inl (mem_singleton.mp hm)), rest⟩
    rw [foldl_cons]
    set m := ageRange cfg.vbbmHasher cfg.vssHasher repSize dbr fileSize a r
    by_cases hov : m.overflow = true
    · rw [ageRanges_overflowed repSize dbr fileSize hov]
      refine ⟨first.sound, first.room, aged_mono hh first.path, fun still => ?_⟩
      rw [hov] at still
      cases still
    have still : m.overflow = false := by simpa using hov
    have one : OneEach m.vbbm := nodup_of_le (map_le_map (aged_copies_le first.path)) huq
    have rest := ih first.sound still one
    refine ⟨rest.sound, first.room.trans rest.room, (aged_mono hh first.path).trans
      (aged_mono (fun d => ?_) rest.path), fun done x hi => ?_⟩
    · rintro ⟨r', hm, hw⟩
      exact ⟨r', mem_cons_of_mem r hm, hw⟩
    rintro ⟨r', hm, hw⟩
    rcases mem_cons.mp hm with rfl | afterwards
    · have hb : x ∈ contents m.vbbm := mem_of_le (aged_copies_le rest.path) hi
      exact first.clear still x hb ⟨r', mem_singleton_self r', hw⟩
    · exact rest.clear done x hi ⟨r', afterwards, hw⟩

end Ranges

section Blocks

variable {P : VbbmData → Prop} {l : Int} {b : Block}

open Classical in
/-- The versions of a block without a copy of the kind. -/
noncomputable def uncopied (P : VbbmData → Prop) (b : Block) : Versions :=
  b.versions.filter fun e => ¬ ∃ x ∈ b.copies, x.verID = e.verID ∧ P x.data

lemma mem_uncopied {e : Entry VssData} : e ∈ uncopied P b ↔
    e ∈ b.versions ∧ ∀ x ∈ b.copies, x.verID = e.verID → ¬ P x.data := by
  simp [uncopied]

lemma uncopied_le : uncopied P b ≤ b.versions := by
  classical
  exact Multiset.filter_le _ _

lemma uncopied_eq (none : ∀ x ∈ b.copies, ¬ P x.data) : uncopied P b = b.versions := by
  classical
  refine Multiset.filter_eq_self.mpr fun e _ => ?_
  rintro ⟨x, hi, -, aged⟩
  exact none x hi aged

/-- A version that has a copy of the kind does not count. -/
lemma uncopied_cons {e : Entry VssData} {c : Versions} {d : Copies} {x : Entry VbbmData}
    (hcp : x ∈ d) (hver : x.verID = e.verID) (aged : P x.data) (hos : ∀ u ∈ c, u.verID ≠ e.verID) :
    uncopied P ⟨e ::ₘ c, d⟩ = uncopied P ⟨c, withoutVersion d e.verID⟩ := by
  classical
  refine (Multiset.filter_cons_of_neg (p := fun u : Entry VssData =>
    ¬ ∃ y ∈ d, y.verID = u.verID ∧ P y.data) c (not_not.mpr ⟨x, hcp, hver, aged⟩)).trans ?_
  refine Multiset.filter_congr fun u hi => not_congr ?_
  constructor
  · rintro ⟨y, ht, he, kind⟩
    exact ⟨y, mem_withoutVersion.mpr ⟨ht, by rw [he]; exact hos u hi⟩, he, kind⟩
  · rintro ⟨y, ht, he, kind⟩
    exact ⟨y, (mem_withoutVersion.mp ht).1, he, kind⟩

lemma settled_eq_zero {c c' : Versions} (idle : ¬ Needed c) (hfe : c' ≤ c) : settled c' = 0 := by
  refine if_neg ?_
  rintro ⟨e, hi, hnd⟩
  exact idle ⟨e, mem_of_le hfe hi, hnd⟩

lemma Block.Orderly.settled (hor : b.Orderly) : settled b.versions = b.versions := by
  rcases hor with rfl | ⟨top, older, shape, hst⟩
  · exact settled_eq_zero (c := 0) (by simp [Needed]) le_rfl
  · obtain ⟨e, hun⟩ := hst.fallback
    exact settled_of_flagged (by rw [shape]; exact Multiset.mem_cons_of_mem hun)
      (hst.flagged e hun)

/-- The versions without a copy of the kind stay while the others go one by one. -/
lemma AgeStepIn.uncopied_left (hor : ∀ l, (v.block l).Orderly) (step : AgeStepIn P v w) :
    SlaveNode.settled (uncopied P (w.block l)) = SlaveNode.settled (uncopied P (v.block l)) := by
  obtain ⟨x, held, aged, -, hrem, hdr⟩ := step
  by_cases ho : l = x.lbid
  swap
  · rw [block_eq (hrem.frame ho) (hdr.frame ho)]
  subst ho
  have hm : x ∈ copiesOf v.copies x.lbid := mem_copiesOf.mpr ⟨held, rfl⟩
  obtain ⟨top, e, rest, shape, hst, hver, ha⟩ := aged_block (hor _) held hrem hdr
  have hos := hst.others
  have copies : copiesOf w.copies x.lbid = withoutVersion (copiesOf v.copies x.lbid) e.verID :=
    congrArg Block.copies ha
  have versions : versionsOf w.versions x.lbid = SlaveNode.settled (top ::ₘ rest) :=
    congrArg Block.versions ha
  rw [Multiset.cons_swap] at shape
  have hb : uncopied P (v.block x.lbid) = uncopied P ⟨top ::ₘ rest, copiesOf w.copies x.lbid⟩ := by
    rw [View.block, shape, uncopied_cons hm hver.symm aged hos, copies]
  rw [hb, View.block, versions]
  by_cases hnd : Needed (top ::ₘ rest)
  · have hwh : SlaveNode.settled (top ::ₘ rest) = top ::ₘ rest := if_pos hnd
    rw [hwh]
  · have none : SlaveNode.settled (top ::ₘ rest) = 0 := if_neg hnd
    have hem : uncopied P ⟨0, copiesOf w.copies x.lbid⟩ ≤ top ::ₘ rest :=
      uncopied_le.trans (Multiset.zero_le _)
    rw [none, settled_eq_zero hnd hem, settled_eq_zero hnd uncopied_le]

lemma AgeStep.orderly (step : AgeStep v w) (hor : ∀ l, (v.block l).Orderly) (l : Int) :
    (w.block l).Orderly := by
  rcases step.block_step hor l with he | step
  · rw [he]
    exact hor l
  · exact step.orderly (hor l)

/-- What aging out leaves of a block. -/
lemma aged_versions (hor : ∀ l, (v.block l).Orderly)
    (path : Relation.ReflTransGen (AgeStepIn P) v w) (clear : ∀ x ∈ w.copies, ¬ P x.data)
    (l : Int) : (w.block l).versions = settled (uncopied P (v.block l)) := by
  have kept : (∀ l, (w.block l).Orderly) ∧
      settled (uncopied P (w.block l)) = settled (uncopied P (v.block l)) := by
    clear clear
    induction path with
    | refl => exact ⟨hor, rfl⟩
    | tail _ step ih =>
      obtain ⟨hord, he⟩ := ih
      refine ⟨?_, (step.uncopied_left hord).trans he⟩
      obtain ⟨x, held, -, rest⟩ := step
      exact AgeStep.orderly ⟨x, held, rest⟩ hord
  rw [← kept.2, uncopied_eq fun x hi => clear x (mem_copiesOf.mp hi).1]
  exact (kept.1 l).settled.symm

end Blocks

/-- The number of blocks a request asks for. -/
def requested (ranges : List LBIDRange) : Nat := BrmTypes.u32 (ranges.map LBIDRange.size).sum

/-- The copies a request for `num` blocks of the file `dbr` ages out. -/
def AgedOut (cfg : NodeConfig) (s : VBBM) (dbr num : Nat) : VbbmData → Prop :=
  InRanges cfg.repSize dbr (fileOf cfg.fileBlocks s dbr).fileSize
    (ringRanges (fileOf cfg.fileBlocks s dbr) num)

/-- The copies a request starts from: all of them, unless the map has to grow for it. -/
def Survivors (s : VBBM) (dbr num : Nat) (d : Copies) : Prop := d ≤ contents s ∧
    (dbr ≤ field s .ownCount → field s .currentSize + num ≤ field s .capacity → d = contents s)

/-- What an answered request does. -/
structure Served (cfg : NodeConfig) (n : SlaveDBRMNode) (dbr num : Nat) (freeList : List VBRange)
    (t : SlaveDBRMNode) : Prop where
  root : 0 < dbr
  request : num ≤ (fileOf cfg.fileBlocks n.vbbm dbr).fileSize
  ranges : freeList = ringRanges (fileOf cfg.fileBlocks n.vbbm dbr) num
  sound : NodeSound cfg t
  aged : ∃ d, Survivors n.vbbm dbr num d ∧ Relation.ReflTransGen
    (AgeStepIn (AgedOut cfg n.vbbm dbr num)) ⟨contents n.vss, d⟩ (view t)
  clear : ∀ x ∈ contents t.vbbm, ¬ AgedOut cfg n.vbbm dbr num x.data

lemma handOut_agedAll {s : VBBM} {vss : VSS} (hs : AgingSound cfg ⟨false, vss, s⟩)
    (huq : OneEach s) {num dbr : Nat} {f : VBFileMetadata} (file : files s (dbr - 1) = f)
    (hreq : num ≤ f.fileSize) (hi : InFile f) :
    (handOut cfg.vbbmHasher cfg.vssHasher cfg.repSize num dbr f.fileSize vss s).1 =
        ringRanges f num ∧
      ∃ d ≤ contents s, (field s .currentSize + num ≤ field s .capacity → d = contents s) ∧
        ∃ a, Aging.view a = ⟨contents vss, d⟩ ∧
          AgedAll cfg (InRanges cfg.repSize dbr f.fileSize (ringRanges f num)) a
            (handOut cfg.vbbmHasher cfg.vssHasher cfg.repSize num dbr f.fileSize vss s).2 := by
  have hwi := growFor_widened hs.vbbm num (field s .currentSize + num)
  have he := growFor_sameFiles hs.vbbm num (field s .currentSize + num)
  have roomy : field s .currentSize + num ≤ field s .capacity →
      growFor cfg.vbbmHasher num (field s .currentSize + num) s = s := fun room =>
        growFor_roomy room _
  simp only [handOut]
  set wide := growFor cfg.vbbmHasher num (field s .currentSize + num) s
  have record : files wide (dbr - 1) = f := by rw [he.files, file]
  have taken : (gather (dbr - 1) num num wide).1 = ringRanges f num := by
    rw [← record] at hreq hi ⊢
    exact (gather_ring hreq hi).1
  obtain ⟨chains, fields, slots, -⟩ := gather_spec (dbr - 1) num num wide
  have copies : contents (gather (dbr - 1) num num wide).2 = contents wide :=
    contents_congr (fields _) slots
  have one : OneEach (gather (dbr - 1) num num wide).2 := by
    rw [OneEach, copies]
    exact nodup_of_le (map_le_map hwi.shrunk.contents) huq
  refine ⟨taken, contents wide, hwi.shrunk.contents, fun room => by rw [roomy room],
    ⟨false, vss, (gather (dbr - 1) num num wide).2⟩, by rw [Aging.view, copies], ?_⟩
  rw [← taken]
  have start : AgingSound cfg ⟨false, vss, (gather (dbr - 1) num num wide).2⟩ :=
    ⟨hs.vss, chains.sound (fields _) hwi.shrunk.sound⟩
  exact ageRanges_agedAll cfg.repSize dbr f.fileSize start rfl one _

lemma getBlocks_served (hs : NodeSound cfg n) (filed : Filed n.vbbm) (huq : OneEach n.vbbm)
    {num dbr : Nat} {freeList : List VBRange} {vss : VSS} {s : VBBM}
    (ran : getBlocks cfg.vbbmHasher cfg.vssHasher cfg.repSize cfg.fileBlocks num dbr n.vss n.vbbm =
      some (.ok freeList, vss, s)) : Served cfg n dbr num freeList ⟨vss, s⟩ := by
  have root : 0 < dbr := by
    by_contra zero
    simp [getBlocks, show dbr = 0 by omega] at ran
  obtain ⟨hn, hi⟩ := fileOf_filed filed cfg.fileBlocks root
  have added := files_added hs.vbbm cfg.fileBlocks root
  have shape := (addVBFileIfNotExists_spec hs.vbbm cfg.fileBlocks dbr).1
  simp only [getBlocks, added, hn] at ran
  rw [if_neg (by omega)] at ran
  split at ran
  · cases (Prod.mk.inj (Option.some.inj ran)).1
  have hreq : num ≤ (fileOf cfg.fileBlocks n.vbbm dbr).fileSize := by omega
  have start : AgingSound cfg ⟨false, n.vss,
      addVBFileIfNotExists cfg.vbbmHasher cfg.fileBlocks dbr n.vbbm⟩ := ⟨hs.vss, shape.sound⟩
  obtain ⟨taken, d, hfe, hwh, a, seen, aged⟩ := handOut_agedAll start
    (nodup_of_le (map_le_map shape.contents) huq) added hreq hi
  set done := handOut cfg.vbbmHasher cfg.vssHasher cfg.repSize num dbr
    (fileOf cfg.fileBlocks n.vbbm dbr).fileSize n.vss
    (addVBFileIfNotExists cfg.vbbmHasher cfg.fileBlocks dbr n.vbbm)
  obtain ⟨answer, tables⟩ := Prod.mk.inj (Option.some.inj ran)
  cases tables
  split at answer
  · rename_i hov
    cases answer
  rename_i hov
  have hcar : Survivors n.vbbm dbr num d := by
    refine ⟨hfe.trans shape.contents, fun hk room => ?_⟩
    have nothing : addVBFileIfNotExists cfg.vbbmHasher cfg.fileBlocks dbr n.vbbm = n.vbbm := by
      simp only [addVBFileIfNotExists, if_neg (show ¬ field n.vbbm .ownCount < dbr by omega)]
    rw [nothing] at hwh
    exact hwh room
  have path := aged.path
  rw [seen] at path
  exact ⟨root, hreq, by rw [← Except.ok.inj answer, taken],
    ⟨aged.sound.vss, aged.sound.vbbm⟩, ⟨d, hcar, path⟩, aged.clear (by simpa using hov)⟩

/-- The node after a `beginVBCopy` that hands out blocks. -/
lemma begin_served (hs : NodeSound cfg n) (filed : Filed n.vbbm) (huq : OneEach n.vbbm)
    {transID : Int} {vbOID : BrmTypes.DBRootsStruct} {dbrIndex : Fin 4} {ranges : List LBIDRange}
    {r : Reply} (ran : beginVBCopy cfg transID vbOID dbrIndex ranges n = some (r, t))
    (ok : r.code = .ok) :
    Served cfg n (vbOID.get dbrIndex) (requested ranges) r.freeList t := by
  rw [beginVBCopy] at ran
  split at ran
  · cases ran
    cases ok
  split at ran
  · cases ran
  · cases ran
    cases ok
  · rename_i got
    cases ran
    exact getBlocks_served hs filed huq got

end SlaveNode
