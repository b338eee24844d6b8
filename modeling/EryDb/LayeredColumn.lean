import EryDb.ColumnPlacement

/-!
# Layered columns

The extents of a column on one DBRoot set, as a partial map from slots: a creation
appends an extent behind the last one, stripe by stripe over the segment files of the
last partition, and the high water mark of a segment file sits in its last extent.
The layout is built extent by extent, each filled before the next one comes, and then
loaded further without that order; cutting a loaded column back to the place where the
load began gives the column that was built.
-/

namespace LayeredColumn

open BrmTypes ExtentMap ExtentUpdates LiveExtents ColumnPlacement

variable {e e' : EMEntry}

lemma position_lt_iff : position e < position e' ↔ e.partitionNum < e'.partitionNum ∨
      (e.partitionNum = e'.partitionNum ∧ e.blockOffset < e'.blockOffset) ∨
      (e.partitionNum = e'.partitionNum ∧ e.blockOffset = e'.blockOffset ∧
        e.segmentNum < e'.segmentNum) := by
  simp only [position, Prod.Lex.toLex_lt_toLex]
  tauto

lemma position_eq_iff : position e = position e' ↔
    e.partitionNum = e'.partitionNum ∧ e.blockOffset = e'.blockOffset ∧
      e.segmentNum = e'.segmentNum := by
  simp [position]

/-- Two entries of one segment file of the column. -/
def Beside (e e' : EMEntry) : Prop :=
  e.partitionNum = e'.partitionNum ∧ e.segmentNum = e'.segmentNum

variable {blocks : Nat} {owns owns' : Nat → Option EMEntry} {i l : Nat} {last new : EMEntry}

structure IsLast (owns : Nat → Option EMEntry) (l : Nat) (last : EMEntry) : Prop where
  here : owns l = some last
  largest : ∀ j e, owns j = some e → position e ≤ position last

def HasFile (owns : Nat → Option EMEntry) (part seg : Nat) : Prop :=
  ∃ i e, owns i = some e ∧ e.partitionNum = part ∧ e.segmentNum = seg

def HasExtent (owns : Nat → Option EMEntry) (part seg offset : Nat) : Prop :=
  ∃ i e, owns i = some e ∧ e.partitionNum = part ∧ e.segmentNum = seg ∧ e.blockOffset = offset

variable {j : Nat}

/-- Nothing of the file of the last extent lies behind it. -/
lemma IsLast.offset_le (isLast : IsLast owns l last) (ht : owns j = some e)
    (hpt : e.partitionNum = last.partitionNum) : e.blockOffset ≤ last.blockOffset := by
  have := position_le_iff.mp (isLast.largest j e ht)
  omega

/-- Offsets that differ are at least one extent apart. -/
lemma add_blocks_le {a b : Nat} (hal : blocks ∣ a) (hal' : blocks ∣ b) (hl : a < b) :
    a + blocks ≤ b := by
  have := Nat.le_of_dvd (Nat.sub_pos_of_lt hl) (Nat.dvd_sub hal' hal)
  omega

variable {part seg offset : Nat}

/-- In the partition of the last extent, the stripes below it are complete and its own stripe
reaches up to its segment file. -/
structure Layered (blocks : Nat) (owns : Nat → Option EMEntry) : Prop where
  aligned : ∀ i e, owns i = some e → blocks ∣ e.blockOffset
  distinct : ∀ i j e e', owns i = some e → owns j = some e' → position e = position e' → i = j
  lower : ∀ l last, IsLast owns l last → ∀ seg, HasFile owns last.partitionNum seg →
    ∀ offset, blocks ∣ offset → offset < last.blockOffset →
      HasExtent owns last.partitionNum seg offset
  current : ∀ l last, IsLast owns l last → ∀ seg, HasFile owns last.partitionNum seg →
    seg ≤ last.segmentNum → HasExtent owns last.partitionNum seg last.blockOffset

lemma Layered.empty (none : ∀ i, owns i = none) : Layered blocks owns := by
  constructor
  case lower | current =>
    intro l last isLast
    exact absurd isLast.here (by simp [none])
  all_goals simp [none]

/-- Where an extent may be appended. -/
inductive Appends (blocks : Nat) (owns : Nat → Option EMEntry) (new : EMEntry) : Prop where
  | first (empty : ∀ i, owns i = none) (zero : new.blockOffset = 0)
  | partition {l : Nat} {last : EMEntry} (isLast : IsLast owns l last)
      (later : last.partitionNum < new.partitionNum) (zero : new.blockOffset = 0)
  | file {l : Nat} {last : EMEntry} (isLast : IsLast owns l last)
      (inPart : new.partitionNum = last.partitionNum)
      (known : HasFile owns last.partitionNum new.segmentNum)
      (after : last.segmentNum < new.segmentNum)
      (nearest : ∀ seg, HasFile owns last.partitionNum seg → last.segmentNum < seg →
        new.segmentNum ≤ seg)
      (same : new.blockOffset = last.blockOffset)
  | stripe {l : Nat} {last : EMEntry} (isLast : IsLast owns l last)
      (inPart : new.partitionNum = last.partitionNum)
      (known : HasFile owns last.partitionNum new.segmentNum)
      (full : ∀ seg, HasFile owns last.partitionNum seg → seg ≤ last.segmentNum)
      (lowest : ∀ seg, HasFile owns last.partitionNum seg → new.segmentNum ≤ seg)
      (next : new.blockOffset = last.blockOffset + blocks)
  | newFile {l : Nat} {last : EMEntry} (isLast : IsLast owns l last)
      (inPart : new.partitionNum = last.partitionNum)
      (after : ∀ seg, HasFile owns last.partitionNum seg → seg < new.segmentNum)
      (flat : ∀ i e, owns i = some e → e.partitionNum = last.partitionNum → e.blockOffset = 0)
      (zero : new.blockOffset = 0)

/-- An appended extent comes behind all others. -/
lemma Appends.after (happ : Appends blocks owns new) (hp : 0 < blocks)
    (ht : owns j = some e) : position e < position new := by
  cases happ with
  | first hem => simp [hem] at ht
  | partition isLast hlat =>
    refine (isLast.largest j e ht).trans_lt (position_lt_iff.mpr (Or.inl hlat))
  | file isLast hpt hk ha nearest he =>
    exact (isLast.largest j e ht).trans_lt
      (position_lt_iff.mpr (Or.inr (Or.inr ⟨hpt.symm, he.symm, ha⟩)))
  | stripe isLast hpt hk full lowest next =>
    exact (isLast.largest j e ht).trans_lt
      (position_lt_iff.mpr (Or.inr (Or.inl ⟨hpt.symm, by omega⟩)))
  | @newFile l last isLast hpt ha flat zero =>
    refine (isLast.largest j e ht).trans_lt
      (position_lt_iff.mpr (Or.inr (Or.inr ⟨hpt.symm, ?_, ?_⟩)))
    · rw [flat l last isLast.here rfl, zero]
    · exact ha _ ⟨l, last, isLast.here, rfl, rfl⟩

lemma Appends.aligned (happ : Appends blocks owns new)
    (hal : ∀ i e, owns i = some e → blocks ∣ e.blockOffset) : blocks ∣ new.blockOffset := by
  cases happ with
  | first _ zero | partition _ _ zero | newFile _ _ _ _ zero => simp [zero]
  | @file l last isLast hpt hk ha nearest he =>
    rw [he]
    exact hal l last isLast.here
  | @stripe l last isLast hpt hk full lowest next =>
    rw [next]
    exact (Nat.dvd_add_self_right).mpr (hal l last isLast.here)

/-- The column with one slot filled. -/
structure Adds (owns : Nat → Option EMEntry) (i : Nat) (new : EMEntry)
    (owns' : Nat → Option EMEntry) : Prop where
  unused : owns i = none
  added : ∀ j, owns' j = if j = i then some new else owns j

lemma Adds.here (adds : Adds owns i new owns') : owns' i = some new := by
  simp [adds.added]

lemma Adds.old (adds : Adds owns i new owns') (ht : owns j = some e) : owns' j = some e := by
  rw [adds.added, if_neg]
  · exact ht
  · rintro rfl
    simp [adds.unused] at ht

lemma Adds.split (adds : Adds owns i new owns') (ht : owns' j = some e) :
    (j = i ∧ e = new) ∨ owns j = some e :=
  SlotScan.some_of_added adds.added ht

lemma Adds.holds (adds : Adds owns i new owns') (hd : HasExtent owns part seg offset) :
    HasExtent owns' part seg offset := by
  obtain ⟨j, e, ht, rest⟩ := hd
  exact ⟨j, e, adds.old ht, rest⟩

lemma Adds.isLast (adds : Adds owns i new owns') (happ : Appends blocks owns new)
    (hp : 0 < blocks) (isLast : IsLast owns' l last) : l = i ∧ last = new := by
  rcases adds.split isLast.here with he | ht
  · exact he
  · exact absurd (isLast.largest i new adds.here) (not_le.mpr (happ.after hp ht))

/-- Files of the partition are those known before, or the one of the new extent. -/
lemma Adds.hasFile (adds : Adds owns i new owns') (file : HasFile owns' part seg) :
    HasFile owns part seg ∨ new.partitionNum = part ∧ seg = new.segmentNum := by
  obtain ⟨j, e, ht, hpt, isSeg⟩ := file
  rcases adds.split ht with ⟨-, rfl⟩ | hb
  · exact Or.inr ⟨hpt, isSeg.symm⟩
  · exact Or.inl ⟨j, e, hb, hpt, isSeg⟩

/-- A partition behind the last one is empty. -/
lemma IsLast.no_file (isLast : IsLast owns l last) (hlat : last.partitionNum < part) :
    ¬ HasFile owns part seg := by
  rintro ⟨j, e, ht, rfl, -⟩
  have := position_le_iff.mp (isLast.largest j e ht)
  omega

section Append

variable (layered : Layered blocks owns) (appends : Appends blocks owns new)
  (adds : Adds owns i new owns')
include layered appends adds

/-- Below the offset of an appended extent every file of its partition is full. -/
lemma append_lower (file : HasFile owns' new.partitionNum seg) (aligned : blocks ∣ offset)
    (below : offset < new.blockOffset) : HasExtent owns' new.partitionNum seg offset := by
  cases appends with
  | first _ zero | partition _ _ zero | newFile _ _ _ _ zero => omega
  | @file l last isLast inPart known after nearest same =>
    rw [inPart] at file ⊢
    have file : HasFile owns last.partitionNum seg := by
      rcases adds.hasFile file with old | ⟨-, rfl⟩
      · exact old
      · exact known
    exact adds.holds (layered.lower l last isLast seg file offset aligned (same ▸ below))
  | @stripe l last isLast inPart known full lowest next =>
    rw [inPart] at file ⊢
    have file : HasFile owns last.partitionNum seg := by
      rcases adds.hasFile file with old | ⟨-, rfl⟩
      · exact old
      · exact known
    rcases Nat.lt_or_ge offset last.blockOffset with hlo | hhi
    · exact adds.holds (layered.lower l last isLast seg file offset aligned hlo)
    -- The stripe of the last extent has just been completed.
    have hwh : offset = last.blockOffset := by
      by_contra hdif
      have := add_blocks_le (layered.aligned l last isLast.here) aligned
        (lt_of_le_of_ne hhi (Ne.symm hdif))
      omega
    rw [hwh]
    exact adds.holds (layered.current l last isLast seg file (full seg file))

/-- The stripe of an appended extent reaches up to its file. -/
lemma append_current (file : HasFile owns' new.partitionNum seg) (upTo : seg ≤ new.segmentNum) :
    HasExtent owns' new.partitionNum seg new.blockOffset := by
  have self : HasExtent owns' new.partitionNum new.segmentNum new.blockOffset :=
    ⟨i, new, adds.here, rfl, rfl, rfl⟩
  rcases adds.hasFile file with old | ⟨-, rfl⟩
  · cases appends with
    | first hem =>
      obtain ⟨j, e, there, -⟩ := old
      simp [hem] at there
    | partition isLast later => exact absurd old (isLast.no_file later)
    | @file l last isLast inPart known after nearest same =>
      rw [inPart] at old
      rcases Nat.lt_or_ge last.segmentNum seg with behind | upToLast
      · have : seg = new.segmentNum := le_antisymm upTo (nearest seg old behind)
        rwa [this]
      · rw [inPart, same]
        exact adds.holds (layered.current l last isLast seg old upToLast)
    | stripe isLast inPart known full lowest next =>
      have : seg = new.segmentNum := le_antisymm upTo (lowest seg (inPart ▸ old))
      rwa [this]
    | newFile isLast inPart after flat zero =>
      obtain ⟨j, e, there, inPart', isSeg⟩ := old
      exact adds.holds ⟨j, e, there, inPart', isSeg,
        (flat j e there (inPart'.trans inPart)).trans zero.symm⟩
  · exact self

lemma Layered.append (hp : 0 < blocks) : Layered blocks owns' := by
  refine ⟨SlotScan.forall_added adds.added (appends.aligned layered.aligned) layered.aligned,
    fun j k e e' left right he => ?_, fun l last isLast seg file offset => ?_,
    fun l last isLast seg file => ?_⟩
  · rcases adds.split left with ⟨rfl, rfl⟩ | hb <;>
      rcases adds.split right with ⟨rfl, rfl⟩ | hb'
    · rfl
    · exact absurd he.symm (appends.after hp hb').ne
    · exact absurd he (appends.after hp hb).ne
    · exact layered.distinct j k e e' hb hb' he
  · obtain ⟨rfl, rfl⟩ := adds.isLast appends hp isLast
    exact append_lower layered appends adds file
  · obtain ⟨rfl, rfl⟩ := adds.isLast appends hp isLast
    exact append_current layered appends adds file

end Append

section Marks

/-- A later extent of the file has taken over the high water mark. -/
def Covered (owns : Nat → Option EMEntry) (e : EMEntry) : Prop :=
  ∃ j e', owns j = some e' ∧ Beside e' e ∧ e.blockOffset < e'.blockOffset ∧ e'.status = .available

/-- The last extent of each file has its mark at its last block and the others have none; only
the mark of the last extent of all is free, and missing until it is set. -/
structure Marked (blocks : Nat) (owns : Nat → Option EMEntry) : Prop where
  others : ∀ l last, IsLast owns l last → ∀ i e, owns i = some e → i ≠ l →
    e.status = .available ∧ (Covered owns e → e.hwm = 0) ∧
      (¬ Covered owns e → e.hwm + 1 = e.blockOffset + blocks)
  last : ∀ l last, IsLast owns l last → (last.status = .available ∧ last.blockOffset ≤ last.hwm ∧
      last.hwm < last.blockOffset + blocks) ∨ (last.status = .unavailable ∧ last.hwm = 0)

lemma Marked.empty (none : ∀ i, owns i = none) : Marked blocks owns :=
  ⟨fun l _ isLast => absurd isLast.here (by simp [none l]),
    fun l _ isLast => absurd isLast.here (by simp [none l])⟩

/-- Every extent is filled up to its last block. -/
def Filled (blocks : Nat) (owns : Nat → Option EMEntry) : Prop :=
  ∀ l last, IsLast owns l last → last.status = .available ∧ last.hwm + 1 = last.blockOffset + blocks

lemma IsLast.not_covered (isLast : IsLast owns l last) : ¬ Covered owns last := by
  rintro ⟨j, e, ht, hbs, hbe, -⟩
  exact absurd (isLast.offset_le ht hbs.1) (not_le.mpr hbe)

lemma Appends.isLast (happ : Appends blocks owns new) (ht : owns j = some e) :
    ∃ l last, IsLast owns l last := by
  cases happ with
  | first hem => simp [hem] at ht
  | partition isLast | file isLast | stripe isLast | newFile isLast => exact ⟨_, _, isLast⟩

lemma Marked.append (marked : Marked blocks owns) (hfil : Filled blocks owns)
    (happ : Appends blocks owns new) (adds : Adds owns i new owns') (hp : 0 < blocks)
    (status : new.status = .unavailable) (hwm : new.hwm = 0) : Marked blocks owns' := by
  refine ⟨fun l last isLast j e ht ho => ?_, fun l last isLast => ?_⟩
  · obtain ⟨rfl, rfl⟩ := adds.isLast happ hp isLast
    have hb : owns j = some e := by
      rcases adds.split ht with ⟨he, -⟩ | hb
      · exact absurd he ho
      · exact hb
    -- The new extent has no mark yet, so it covers nothing.
    have he : Covered owns' e ↔ Covered owns e := by
      constructor
      · rintro ⟨k, e', hh, hbs, hbe, available⟩
        rcases adds.split hh with ⟨-, rfl⟩ | earlier
        · simp [status] at available
        · exact ⟨k, e', earlier, hbs, hbe, available⟩
      · rintro ⟨k, e', hh, rest⟩
        exact ⟨k, e', adds.old hh, rest⟩
    rw [he]
    obtain ⟨l', last', wasLast⟩ := happ.isLast hb
    by_cases isOld : j = l'
    · subst isOld
      cases hb.symm.trans wasLast.here
      obtain ⟨available, full⟩ := hfil j e wasLast
      exact ⟨available, fun hcov => absurd hcov wasLast.not_covered, fun _ => full⟩
    · exact marked.others l' last' wasLast j e hb isOld
  · obtain ⟨rfl, rfl⟩ := adds.isLast happ hp isLast
    exact Or.inr ⟨status, hwm⟩

/-- Only marks and states change. -/
structure Shifts (owns owns' : Nat → Option EMEntry) : Prop where
  forth : ∀ j e, owns j = some e → ∃ e', owns' j = some e' ∧ Moved e e'
  back : ∀ j e', owns' j = some e' → ∃ e, owns j = some e ∧ Moved e e'

lemma position_moved (hmo : Moved e e') : position e' = position e := by
  rw [hmo]
  rfl

lemma Shifts.isLast (shifts : Shifts owns owns') (isLast : IsLast owns' l last) :
    ∃ last₀, IsLast owns l last₀ ∧ Moved last₀ last := by
  obtain ⟨last₀, hh, hmo⟩ := shifts.back l last isLast.here
  refine ⟨last₀, ⟨hh, fun j e ht => ?_⟩, hmo⟩
  obtain ⟨e', ht', hmo'⟩ := shifts.forth j e ht
  rw [← position_moved hmo, ← position_moved hmo']
  exact isLast.largest j e' ht'

lemma Shifts.holds (shifts : Shifts owns owns') (hd : HasExtent owns part seg offset) :
    HasExtent owns' part seg offset := by
  obtain ⟨j, e, ht, hpt, isSeg, isOffset⟩ := hd
  obtain ⟨e', ht', hmo⟩ := shifts.forth j e ht
  refine ⟨j, e', ht', ?_⟩
  rw [hmo]
  exact ⟨hpt, isSeg, isOffset⟩

lemma Shifts.hasFile (shifts : Shifts owns owns') (file : HasFile owns' part seg) :
    HasFile owns part seg := by
  obtain ⟨j, e', ht, hpt, isSeg⟩ := file
  obtain ⟨e, hb, hmo⟩ := shifts.back j e' ht
  rw [hmo] at hpt isSeg
  exact ⟨j, e, hb, hpt, isSeg⟩

lemma Layered.shift (hlay : Layered blocks owns) (shifts : Shifts owns owns') :
    Layered blocks owns' := by
  refine ⟨fun j e ht => ?_, fun j k e e' left right he => ?_,
    fun l last isLast seg file offset hal => ?_, fun l last isLast seg file => ?_⟩
  · obtain ⟨e₀, hb, hmo⟩ := shifts.back j e ht
    rw [hmo]
    exact hlay.aligned j e₀ hb
  · obtain ⟨e₀, hb, hmo⟩ := shifts.back j e left
    obtain ⟨e₀', hb', hmo'⟩ := shifts.back k e' right
    rw [position_moved hmo, position_moved hmo'] at he
    exact hlay.distinct j k e₀ e₀' hb hb' he
  · obtain ⟨last₀, isLast₀, hmo⟩ := shifts.isLast isLast
    rw [hmo] at file ⊢
    exact fun hl =>
      shifts.holds (hlay.lower l last₀ isLast₀ seg (shifts.hasFile file) offset hal hl)
  · obtain ⟨last₀, isLast₀, hmo⟩ := shifts.isLast isLast
    rw [hmo] at file ⊢
    exact fun upTo => shifts.holds (hlay.current l last₀ isLast₀ seg (shifts.hasFile file) upTo)

/-- How a mark is set in the file of the extent at slot `l`, its last one: that extent takes the
mark, and some slot of the file that held one loses it, if there is any. -/
structure Sets (owns : Nat → Option EMEntry) (l : Nat) (last : EMEntry) (hwm : Nat)
    (owns' : Nat → Option EMEntry) : Prop where
  here : owns l = some last
  largest : ∀ j e, owns j = some e → Beside e last → e.blockOffset ≤ last.blockOffset
  changed : ∃ old : Option Nat,
    (∀ k, old = some k → ∃ e, owns k = some e ∧ Beside e last ∧ e.hwm ≠ 0) ∧
    (old = none → ∀ k e, owns k = some e → Beside e last → e.hwm = 0) ∧
    ∀ j, owns' j = if j = l then some { last with hwm := hwm, status := .available }
      else if old = some j then (owns j).map (fun e => { e with hwm := 0 }) else owns j

variable {hwm : Nat}

lemma Sets.status (sets : Sets owns l last hwm owns') (ht : owns j = some e) :
    ∃ e', owns' j = some e' ∧ Moved e e' ∧ (e'.status = e.status ∨ e'.status = .available) := by
  obtain ⟨hh, -, old, -, -, changed⟩ := sets
  rw [changed]
  split
  · rename_i he
    subst he
    cases hh.symm.trans ht
    exact ⟨_, rfl, rfl, Or.inr rfl⟩
  · split
    · exact ⟨{ e with hwm := 0 }, by rw [ht]; rfl, rfl, Or.inl rfl⟩
    · exact ⟨e, ht, rfl, Or.inl rfl⟩

lemma Sets.shifts (sets : Sets owns l last hwm owns') : Shifts owns owns' := by
  refine ⟨fun j e ht => ?_, fun j e' ht => ?_⟩
  · obtain ⟨e', ht', hmo, -⟩ := sets.status ht
    exact ⟨e', ht', hmo⟩
  · obtain ⟨hh, -, old, -, -, changed⟩ := sets
    rw [changed] at ht
    split at ht
    · rename_i he
      cases ht
      exact ⟨last, he ▸ hh, rfl⟩
    · split at ht
      · obtain ⟨e, hb, rfl⟩ := Option.map_eq_some_iff.mp ht
        exact ⟨e, hb, rfl⟩
      · exact ⟨e', ht, rfl⟩

lemma Beside.symm (hbs : Beside e e') : Beside e' e := ⟨hbs.1.symm, hbs.2.symm⟩

lemma Beside.trans {e'' : EMEntry} (left : Beside e e') (right : Beside e' e'') : Beside e e'' :=
  ⟨left.1.trans right.1, left.2.trans right.2⟩

/-- Two extents of one file at different slots have different offsets. -/
lemma Layered.offset_ne (hlay : Layered blocks owns) {k : Nat} (left : owns j = some e)
    (right : owns k = some e') (ho : j ≠ k) (hbs : Beside e e') :
    e.blockOffset ≠ e'.blockOffset := fun he =>
  ho (hlay.distinct j k e e' left right (position_eq_iff.mpr ⟨hbs.1, he, hbs.2⟩))

/-- In the file of the last extent, no other slot keeps a mark when it is set. -/
lemma Sets.unmarked (sets : Sets owns l last hwm owns') (hlay : Layered blocks owns)
    (marked : Marked blocks owns) (isLast : IsLast owns l last) (ht : owns' j = some e)
    (ho : j ≠ l) (hbs : Beside e last) : e.hwm = 0 := by
  obtain ⟨-, -, old, hd, none, changed⟩ := sets
  rw [changed, if_neg ho] at ht
  split_ifs at ht with isOld
  · obtain ⟨e₀, -, rfl⟩ := Option.map_eq_some_iff.mp ht
    rfl
  obtain ⟨available, hcov, -⟩ := marked.others l last isLast j e ht ho
  cases hk : old with
  | none => exact none hk j e ht hbs
  | some k =>
    obtain ⟨e', ht', hbs', mark⟩ := hd k hk
    refine hcov ?_
    by_cases he : k = l
    · -- The last extent holds the mark, so it has been set before and covers the others.
      subst he
      obtain rfl := Option.some.inj (ht'.symm.trans isLast.here)
      refine ⟨k, e', ht', hbs.symm, lt_of_le_of_ne (isLast.offset_le ht hbs.1)
        (hlay.offset_ne ht ht' ho hbs), ?_⟩
      rcases marked.last k e' isLast with ⟨set, -⟩ | ⟨-, zero⟩
      · exact set
      · exact absurd zero mark
    · obtain ⟨available', hcov', -⟩ := marked.others l last isLast k e' ht' he
      have hdif : j ≠ k := fun he => isOld (he ▸ hk)
      have hbs'' := hbs.trans hbs'.symm
      rcases lt_or_gt_of_ne (hlay.offset_ne ht ht' hdif hbs'') with hlo | hhi
      · exact ⟨k, e', ht', hbs''.symm, hlo, available'⟩
      · exact absurd (hcov' ⟨j, e, ht, hbs'', hhi, available⟩) mark

/-- Other files are left alone. -/
lemma Sets.elsewhere (sets : Sets owns l last hwm owns') (hap : ¬ Beside e last) :
    owns' j = some e ↔ owns j = some e := by
  obtain ⟨hh, -, old, hd, -, changed⟩ := sets
  rw [changed]
  by_cases isLast : j = l
  · subst isLast
    rw [if_pos rfl, hh]
    constructor <;>
    · rintro ⟨⟩
      exact absurd ⟨rfl, rfl⟩ hap
  rw [if_neg isLast]
  by_cases isOld : old = some j
  · obtain ⟨e', ht, hbs, -⟩ := hd j isOld
    rw [if_pos isOld, ht]
    constructor <;>
    · rintro ⟨⟩
      exact absurd hbs hap
  · rw [if_neg isOld]

lemma Marked.set (marked : Marked blocks owns) (hlay : Layered blocks owns)
    (isLast : IsLast owns l last) (sets : Sets owns l last hwm owns')
    (hi : last.blockOffset ≤ hwm ∧ hwm < last.blockOffset + blocks) :
    Marked blocks owns' := by
  have hh : owns' l = some { last with hwm := hwm, status := .available } := by
    obtain ⟨-, -, old, -, -, changed⟩ := sets
    rw [changed, if_pos rfl]
  have he : ∀ l' last', IsLast owns' l' last' → l' = l := fun l' last' isLast' => by
    obtain ⟨last₀, isLast₀, -⟩ := sets.shifts.isLast isLast'
    exact hlay.distinct _ _ _ _ isLast₀.here isLast.here
      (le_antisymm (isLast.largest _ _ isLast₀.here) (isLast₀.largest _ _ isLast.here))
  refine ⟨fun l' last' isLast' j e ht ho => ?_, fun l' last' isLast' => ?_⟩
  · obtain rfl := he l' last' isLast'
    obtain ⟨e₀, hb, hmo⟩ := sets.shifts.back j e ht
    by_cases hbs : Beside e last
    · have hbs₀ : Beside e₀ last := by rwa [hmo] at hbs
      have hbe : e₀.blockOffset < last.blockOffset :=
        lt_of_le_of_ne (isLast.offset_le hb hbs₀.1) (hlay.offset_ne hb isLast.here ho hbs₀)
      have hcov : Covered owns' e := ⟨l', _, hh, hbs.symm, by rw [hmo]; exact hbe, rfl⟩
      refine ⟨?_, fun _ => sets.unmarked hlay marked isLast ht ho hbs, fun not => absurd hcov not⟩
      obtain ⟨-, -, old, -, -, changed⟩ := sets
      have available := (marked.others l' last isLast j e₀ hb ho).1
      rw [changed, if_neg ho, hb] at ht
      split at ht <;>
      · cases ht
        exact available
    · have hb := (sets.elsewhere hbs).mp ht
      have iff : Covered owns' e ↔ Covered owns e := by
        have hap : ∀ e', Beside e' e → ¬ Beside e' last := fun e' near far =>
          hbs (near.symm.trans far)
        constructor <;>
        · rintro ⟨k, e', ht', near, rest⟩
          refine ⟨k, e', ?_, near, rest⟩
          simpa only [sets.elsewhere (hap e' near)] using ht'
      rw [iff]
      exact marked.others l' last isLast j e hb ho
  · obtain rfl := he l' last' isLast'
    cases hh.symm.trans isLast'.here
    exact Or.inl ⟨rfl, hi⟩

end Marks

variable {f hwm : Nat} {top : EMEntry}

section Load

variable {owns₀ : Nat → Option EMEntry}

/-- Extents that a load behind `last` cannot reach: those of earlier partitions, and those with
a later extent in their file. -/
def Settled (blocks : Nat) (last e : EMEntry) : Prop := e.partitionNum < last.partitionNum ∨
    (e.partitionNum = last.partitionNum ∧ e.blockOffset < last.blockOffset ∧
      (e.segmentNum ≤ last.segmentNum ∨ e.blockOffset + blocks < last.blockOffset))

/-- What a load makes of the column `owns₀` that ends with `last`. -/
structure Loaded (blocks : Nat) (owns₀ : Nat → Option EMEntry) (last : EMEntry)
    (owns : Nat → Option EMEntry) : Prop where
  aligned : ∀ i e, owns i = some e → blocks ∣ e.blockOffset
  kept : ∀ i e, owns₀ i = some e → ∃ e', owns i = some e' ∧ Moved e e' ∧
    e'.status = .available ∧ (Settled blocks last e → e' = e)
  added : ∀ i e, owns i = some e → owns₀ i = none →
    position last < position e ∧ e.status ≠ .outOfService

/-- The column a load starts from: built, and with its last mark set. -/
structure Complete (blocks : Nat) (owns₀ : Nat → Option EMEntry) (l : Nat) (last : EMEntry) :
    Prop where
  layered : Layered blocks owns₀
  marked : Marked blocks owns₀
  isLast : IsLast owns₀ l last
  set : last.status = .available

lemma Complete.available (hcm : Complete blocks owns₀ l last) (ht : owns₀ j = some e) :
    e.status = .available := by
  by_cases he : j = l
  · subst he
    cases ht.symm.trans hcm.isLast.here
    exact hcm.set
  · exact (hcm.marked.others l last hcm.isLast j e ht he).1

lemma Complete.inside (hcm : Complete blocks owns₀ l last) :
    last.blockOffset ≤ last.hwm ∧ last.hwm < last.blockOffset + blocks := by
  rcases hcm.marked.last l last hcm.isLast with ⟨-, hi⟩ | ⟨unset, -⟩
  · exact hi
  · simp [hcm.set] at unset

lemma Complete.loaded (hcm : Complete blocks owns₀ l last) : Loaded blocks owns₀ last owns₀ :=
  ⟨hcm.layered.aligned, fun _ e ht => ⟨e, ht, rfl, hcm.available ht, fun _ => rfl⟩,
    fun i e ht none => by simp [none] at ht⟩

/-- In the last partition, a settled extent has a later one in its file. -/
lemma Complete.covered (hcm : Complete blocks owns₀ l last) (hp : 0 < blocks)
    (ht : owns₀ j = some e) (hpt : e.partitionNum = last.partitionNum)
    (hl : e.blockOffset < last.blockOffset)
    (hset : e.segmentNum ≤ last.segmentNum ∨ e.blockOffset + blocks < last.blockOffset) :
    Covered owns₀ e := by
  have file : HasFile owns₀ last.partitionNum e.segmentNum := ⟨j, e, ht, hpt, rfl⟩
  obtain ⟨offset, hbe, k, e', ht', hpt', isSeg, isOffset⟩ :
      ∃ offset, e.blockOffset < offset ∧ HasExtent owns₀ last.partitionNum e.segmentNum offset := by
    rcases hset with upTo | hlo
    · exact ⟨_, hl, hcm.layered.current l last hcm.isLast _ file upTo⟩
    · exact ⟨e.blockOffset + blocks, by omega, hcm.layered.lower l last hcm.isLast _ file
        _ ((Nat.dvd_add_self_right).mpr (hcm.layered.aligned j e ht)) hlo⟩
  exact ⟨k, e', ht', ⟨hpt'.trans hpt.symm, isSeg⟩, isOffset ▸ hbe, hcm.available ht'⟩

lemma Loaded.append (loaded : Loaded blocks owns₀ last owns) (hh : owns₀ l = some last)
    (happ : Appends blocks owns new) (adds : Adds owns i new owns') (hp : 0 < blocks)
    (status : new.status ≠ .outOfService) : Loaded blocks owns₀ last owns' := by
  refine ⟨SlotScan.forall_added adds.added (happ.aligned loaded.aligned) loaded.aligned,
    fun j e ht => ?_, fun j e ht hab => ?_⟩
  · obtain ⟨e', ht', rest⟩ := loaded.kept j e ht
    exact ⟨e', adds.old ht', rest⟩
  rcases adds.split ht with ⟨-, rfl⟩ | hb
  · obtain ⟨last', ht', hmo, -⟩ := loaded.kept l last hh
    have ha := happ.after hp ht'
    rw [position_moved hmo] at ha
    exact ⟨ha, status⟩
  · exact loaded.added j e hb hab

/-- A mark that moves forward passes by the settled extents. -/
lemma Sets.settled (sets : Sets owns f top hwm owns') (hcm : Complete blocks owns₀ l last)
    (loaded : Loaded blocks owns₀ last owns) (hp : 0 < blocks)
    (forward : ∀ j e, owns j = some e → Beside e top → e.hwm ≤ hwm)
    (room : hwm < top.blockOffset + blocks) (ht : owns₀ i = some e)
    (hset : Settled blocks last e) : owns' i = some e := by
  have hb : owns i = some e := by
    obtain ⟨e', ht', -, -, he⟩ := loaded.kept i e ht
    rwa [he hset] at ht'
  have notLast : i ≠ l := by
    rintro rfl
    cases ht.symm.trans hcm.isLast.here
    rcases hset with earlier | ⟨-, hl, -⟩ <;> omega
  obtain ⟨available, zero, full⟩ := hcm.marked.others l last hcm.isLast i e ht notLast
  -- What covers an extent stays in its file and keeps its offset.
  have notTop : Beside e top → Covered owns₀ e → e.blockOffset < top.blockOffset := by
    rintro hbs ⟨k, e₁, ht₁, hbs₁, hbe, -⟩
    obtain ⟨e₂, ht₂, hmo, -⟩ := loaded.kept k e₁ ht₁
    have hl := sets.largest k e₂ ht₂
    rw [hmo] at hl
    exact hbe.trans_le (hl (hbs₁.trans hbs))
  obtain ⟨hh, hmax, old, hd, -, changed⟩ := sets
  rw [changed]
  by_cases isTop : i = f
  · subst isTop
    cases hb.symm.trans hh
    have uncovered : ¬ Covered owns₀ e := fun hcov =>
      lt_irrefl _ (notTop ⟨rfl, rfl⟩ hcov)
    have mark := full uncovered
    have raised := forward i e hh ⟨rfl, rfl⟩
    have he : hwm = e.hwm := by omega
    rw [if_pos rfl, he, ← available]
  · rw [if_neg isTop]
    by_cases isOld : old = some i
    · -- A slot that loses a mark held one, so nothing covered it.
      obtain ⟨e', ht', hbs, held⟩ := hd i isOld
      cases hb.symm.trans ht'
      refine absurd (zero ?_) held
      rcases hset with earlier | ⟨hpt, hl, rest⟩
      · cases hor : owns₀ f with
        | none =>
          have ha := position_lt_iff.mp (loaded.added f top hh hor).1
          have := hbs.1
          omega
        | some top₀ =>
          obtain ⟨top', ht'', hmo, -, he⟩ := loaded.kept f top₀ hor
          cases hh.symm.trans ht''
          have hbs₀ : Beside e top₀ := by rwa [hmo] at hbs
          have hl : e.blockOffset ≤ top₀.blockOffset := by
            have := hmax i e hb hbs
            rwa [hmo] at this
          exact ⟨f, top₀, hor, hbs₀.symm, lt_of_le_of_ne hl
            (hcm.layered.offset_ne ht hor isTop hbs₀),
            hcm.available hor⟩
      · exact hcm.covered hp ht hpt hl rest
    · rw [if_neg isOld]
      exact hb

lemma Loaded.set (loaded : Loaded blocks owns₀ last owns) (hcm : Complete blocks owns₀ l last)
    (sets : Sets owns f top hwm owns') (hp : 0 < blocks)
    (forward : ∀ j e, owns j = some e → Beside e top → e.hwm ≤ hwm)
    (room : hwm < top.blockOffset + blocks) : Loaded blocks owns₀ last owns' := by
  refine ⟨fun j e ht => ?_, fun j e ht => ?_, fun j e ht hab => ?_⟩
  · obtain ⟨e₀, hb, hmo⟩ := sets.shifts.back j e ht
    rw [hmo]
    exact loaded.aligned j e₀ hb
  · obtain ⟨e', hb, hmo, available, -⟩ := loaded.kept j e ht
    obtain ⟨e'', ha, hmo', status⟩ := sets.status hb
    refine ⟨e'', ha, hmo.trans hmo', ?_, fun hset => ?_⟩
    · rcases status with he | set
      · exact he.trans available
      · exact set
    · exact Option.some.inj (ha.symm.trans (sets.settled hcm loaded hp forward room ht hset))
  · obtain ⟨e₀, hb, hmo⟩ := sets.shifts.back j e ht
    obtain ⟨hbe, hser⟩ := loaded.added j e₀ hb hab
    obtain ⟨e', ha, -, status⟩ := sets.status hb
    cases ht.symm.trans ha
    refine ⟨(position_moved hmo).symm ▸ hbe, ?_⟩
    rcases status with he | set
    · rwa [he]
    · simp [set]

end Load

section Cut

variable {owns₀ : Nat → Option EMEntry}

/-- The stripe of the last extent. -/
def stripeAt (blocks : Nat) (last : EMEntry) : Stripe :=
  ⟨last.blockOffset, last.blockOffset + blocks - 1,
    if 0 < last.blockOffset then last.blockOffset - blocks else 0⟩

lemma columnVerdict_behind (hp : 0 < blocks) (hbe : position last < position e)
    (hal : blocks ∣ last.blockOffset) (hal' : blocks ∣ e.blockOffset) :
    columnVerdict (stripeAt blocks last) last.partitionNum last.segmentNum last.hwm e =
      .delete := by
  have low : (stripeAt blocks last).fboLo = last.blockOffset := rfl
  have high : (stripeAt blocks last).fboHi = last.blockOffset + blocks - 1 := rfl
  unfold columnVerdict
  rcases position_lt_iff.mp hbe with isLast | ⟨hpt, above⟩ | ⟨hpt, level, ha⟩
  · rw [if_pos isLast]
  · have next := add_blocks_le hal hal' above
    rw [if_neg (by omega), if_pos hpt.symm, if_pos (by omega)]
  · rw [if_neg (by omega), if_pos hpt.symm, if_neg (by omega), if_neg (by omega), if_pos ha]

lemma Complete.judge_kept (hcm : Complete blocks owns₀ l last) (hp : 0 < blocks)
    (ht : owns₀ i = some e) (hmo : Moved e e') (available : e'.status = .available)
    (hset : Settled blocks last e → e' = e) :
    judge (columnVerdict (stripeAt blocks last) last.partitionNum last.segmentNum last.hwm e') e' =
      some e := by
  have reset : ∀ hwm, hwm = e.hwm → judge (.reset hwm) e' = some e := by
    rintro _ rfl
    exact judge_reset hmo (hcm.available ht) available
  have hal := hcm.layered.aligned
  have upTo := position_le_iff.mp (hcm.isLast.largest i e ht)
  -- An extent of the last partition that is not settled is the last of its file.
  have top : i ≠ l → (∀ k e₁, owns₀ k = some e₁ → Beside e₁ e → e₁.blockOffset ≤ e.blockOffset) →
      e.hwm + 1 = e.blockOffset + blocks := by
    intro ho none
    refine (hcm.marked.others l last hcm.isLast i e ht ho).2.2 ?_
    rintro ⟨k, e₁, ht₁, hbs, hbe, -⟩
    exact absurd (none k e₁ ht₁ hbs) (not_le.mpr hbe)
  have samePart : e'.partitionNum = e.partitionNum := by rw [hmo]
  have sameOffset : e'.blockOffset = e.blockOffset := by rw [hmo]
  have sameSeg : e'.segmentNum = e.segmentNum := by rw [hmo]
  have low : (stripeAt blocks last).fboLo = last.blockOffset := rfl
  have high : (stripeAt blocks last).fboHi = last.blockOffset + blocks - 1 := rfl
  have previous : (stripeAt blocks last).fboLoPreviousStripe =
    if 0 < last.blockOffset then last.blockOffset - blocks else 0 := rfl
  unfold columnVerdict
  rw [samePart, sameOffset, sameSeg, if_neg (by omega)]
  split
  · rename_i hpt
    rw [if_neg (by omega)]
    by_cases hl : e.blockOffset < last.blockOffset
    · rw [if_pos (low ▸ hl)]
      have next := add_blocks_le (hal i e ht) (hal l last hcm.isLast.here) hl
      by_cases open' : last.segmentNum < e.segmentNum ∧ last.blockOffset ≤ e.blockOffset + blocks
      · -- The stripe of the last extent has not reached this file.
        have zero : 0 < last.blockOffset := by omega
        rw [if_pos ⟨by rw [previous, if_pos zero]; omega, open'.1⟩]
        refine reset _ ?_
        have full := top ?_ fun k e₁ ht₁ hbs => ?_
        · omega
        · rintro rfl
          cases ht.symm.trans hcm.isLast.here
          omega
        have upTo₁ := position_le_iff.mp (hcm.isLast.largest k e₁ ht₁)
        have hlo : e₁.blockOffset < last.blockOffset := by
          have := hbs.1
          have := hbs.2
          omega
        have := add_blocks_le (hal k e₁ ht₁) (hal l last hcm.isLast.here) hlo
        omega
      · have kept := hset (Or.inr ⟨hpt, hl, by omega⟩)
        rw [if_neg (by rw [previous]; split <;> omega), kept]
        rfl
    · have level : e.blockOffset = last.blockOffset := by omega
      rw [if_neg (low ▸ hl), if_neg (by omega)]
      split_ifs
      · refine reset _ ?_
        have full := top ?_ fun k e₁ ht₁ hbs => ?_
        · omega
        · rintro rfl
          cases ht.symm.trans hcm.isLast.here
          omega
        · rw [level]
          exact hcm.isLast.offset_le ht₁ (hbs.1.trans hpt)
      · refine reset _ ?_
        have he : i = l := hcm.layered.distinct i l e last ht hcm.isLast.here
          (position_eq_iff.mpr ⟨hpt, level, by omega⟩)
        subst he
        rw [Option.some.inj (ht.symm.trans hcm.isLast.here)]
  · rename_i hpt
    rw [hset (Or.inl (by omega))]
    rfl

/-- Cutting a loaded column behind the last extent it had gives back the column. -/
lemma Loaded.cut (load : Loaded blocks owns₀ last owns)
    (hcm : Complete blocks owns₀ l last) (hp : 0 < blocks) (i : Nat) :
    (owns i).bind (fun e => judge (columnVerdict (stripeAt blocks last) last.partitionNum
      last.segmentNum last.hwm e) e) = owns₀ i := by
  cases hor : owns₀ i with
  | none =>
    cases ht : owns i with
    | none => rfl
    | some e =>
      have verdict := columnVerdict_behind hp (load.added i e ht hor).1
        (hcm.layered.aligned l last hcm.isLast.here) (load.aligned i e ht)
      simp [verdict, judge]
  | some e =>
    obtain ⟨e', ht, hmo, available, hset⟩ := load.kept i e hor
    rw [ht, Option.bind_some]
    exact hcm.judge_kept hp hor hmo available hset

end Cut

end LayeredColumn
