import EryDb.ConcreteRuns

/-!
# One block at a time

A command works on one block after the other. The part of the view that belongs to a block
is what the rest of the development speaks of: each relation between views leaves the parts
of all other blocks as they are, and two views with the same parts are the same.
-/

namespace SlaveNode

open Multiset SlotTable Vss Vbbm

variable {c c' : Versions} {d d' : Copies} {lbid verID l : Int}

def versionsOf (c : Versions) (l : Int) : Versions := c.filter fun e => e.lbid = l

def copiesOf (d : Copies) (l : Int) : Copies := d.filter fun x => x.lbid = l

variable {e : Entry VssData}

lemma mem_versionsOf : e ∈ versionsOf c l ↔ e ∈ c ∧ e.lbid = l := mem_filter

variable {x : Entry VbbmData}

lemma mem_copiesOf : x ∈ copiesOf d l ↔ x ∈ d ∧ x.lbid = l := mem_filter

lemma versionsOf_cons_ne (ho : e.lbid ≠ l) : versionsOf (e ::ₘ c) l = versionsOf c l :=
  filter_cons_of_neg _ ho

lemma versionsOf_cons_eq (he : e.lbid = l) : versionsOf (e ::ₘ c) l = e ::ₘ versionsOf c l :=
  filter_cons_of_pos _ he

lemma copiesOf_cons_ne (ho : x.lbid ≠ l) : copiesOf (x ::ₘ d) l = copiesOf d l :=
  filter_cons_of_neg _ ho

lemma copiesOf_cons_eq (he : x.lbid = l) : copiesOf (x ::ₘ d) l = x ::ₘ copiesOf d l :=
  filter_cons_of_pos _ he

/-- A multiset of entries is the sum of its blocks. -/
lemma eq_of_blocks {Data : Type} {c c' : Multiset (Entry Data)}
    (blocks : ∀ l, c'.filter (fun e => e.lbid = l) = c.filter fun e => e.lbid = l) : c' = c := by
  classical
  refine Multiset.ext.mpr fun e => ?_
  have count := congrArg (Multiset.count e) (blocks e.lbid)
  simpa [count_filter] using count

lemma highestInVB_congr {c c' : Versions} {l max v : Int}
    (he : versionsOf c' l = versionsOf c l) (hhi : HighestInVB c l max v) :
    HighestInVB c' l max v := by
  have hm : ∀ e : Entry VssData, e.lbid = l → (e ∈ c' ↔ e ∈ c) := by
    intro e hn
    have := congrArg (e ∈ ·) he
    simpa [mem_versionsOf, hn] using this
  obtain ⟨e, hi, hn, hfl, hver⟩ := hhi.inside
  exact ⟨⟨e, (hm e hn).mpr hi, hn, hfl, hver⟩, hhi.bounds,
    fun e' hi' hn' => hhi.highest e' ((hm e' hn').mp hi') hn'⟩

lemma view_initial : view initial = ⟨0, 0⟩ := by
  rw [view, initial, Vss.contents_initShmseg, Vbbm.contents_initShmseg]

/-- The transaction holds a version of the block that it has not committed. -/
def LockedBy (n : SlaveDBRMNode) (transID l : Int) : Prop :=
  ∃ e ∈ contents n.vss, e.lbid = l ∧ e.verID = transID ∧ e.data.locked = true

variable {v w : View} {transID : Int}

lemma collected_le (lbid : Int) (c : Versions) : collected lbid c ≤ c := by
  rw [collected]
  split
  · exact le_rfl
  · exact filter_le _ _

lemma versionsOf_collected (ho : l ≠ lbid) : versionsOf (collected lbid c) l = versionsOf c l := by
  rw [collected]
  split
  · rfl
  · rw [versionsOf, versionsOf, filter_filter]
    refine filter_congr fun e _ => ⟨fun both => both.1, fun hn => ⟨hn, ?_⟩⟩
    rw [hn]
    exact ho

lemma Removes.frame (hrem : Removes lbid verID c c') (ho : l ≠ lbid) :
    versionsOf c' l = versionsOf c l := by
  rcases hrem with ⟨rfl, -⟩ | ⟨e, rest, ⟨hn, -⟩, rfl, rfl⟩
  · rfl
  · rw [versionsOf_collected ho, versionsOf_cons_ne (by rw [hn]; exact Ne.symm ho)]

lemma Drops.frame (hdr : Drops lbid verID d d') (ho : l ≠ lbid) :
    copiesOf d' l = copiesOf d l := by
  rcases hdr with ⟨rfl, -⟩ | ⟨x, ⟨hn, -⟩, rfl⟩
  · rfl
  · rw [copiesOf_cons_ne (by rw [hn]; exact Ne.symm ho)]

lemma Flags.frame {vbFlag : Bool} (flags : Flags lbid verID vbFlag c c') (ho : l ≠ lbid) :
    versionsOf c' l = versionsOf c l := by
  obtain ⟨e, rest, ⟨hn, -⟩, rfl, rfl⟩ := flags
  have hdif : e.lbid ≠ l := by
    rw [hn]
    exact Ne.symm ho
  rw [versionsOf_cons_ne (Ne.symm ho), versionsOf_cons_ne hdif]

lemma RolledBack.frame (hrol : RolledBack transID lbid v w) (ho : l ≠ lbid) :
    versionsOf w.versions l = versionsOf v.versions l ∧
      copiesOf w.copies l = copiesOf v.copies l := by
  cases hrol with
  | unflagged _ hdr flags hrem =>
    exact ⟨(hrem.frame ho).trans (flags.frame ho), hdr.frame ho⟩
  | untouched _ copies hrem => exact ⟨hrem.frame ho, by rw [copies]⟩

lemma Removes.le (hrem : Removes lbid verID c c') : c' ≤ c := by
  rcases hrem with ⟨rfl, -⟩ | ⟨e, rest, -, rfl, rfl⟩
  · exact le_rfl
  · exact (collected_le lbid rest).trans (le_cons_self rest e)

lemma Drops.le (hdr : Drops lbid verID d d') : d' ≤ d := by
  rcases hdr with ⟨rfl, -⟩ | ⟨x, -, rfl⟩
  · exact le_rfl
  · exact le_cons_self d' x

lemma Flags.present {vbFlag : Bool} {verID' : Int} (flags : Flags lbid verID vbFlag c c')
    (present : ∃ e ∈ c, e.lbid = l ∧ e.verID = verID') :
    ∃ e ∈ c', e.lbid = l ∧ e.verID = verID' := by
  obtain ⟨e, rest, ⟨hn, hver⟩, rfl, rfl⟩ := flags
  obtain ⟨e', hm, hk, number⟩ := present
  rcases mem_cons.mp hm with rfl | later
  · exact ⟨_, mem_cons_self _ _, hn.symm.trans hk, hver.symm.trans number⟩
  · exact ⟨e', mem_cons_of_mem later, hk, number⟩

lemma Current.of_absent {v : Int} (hab : ∀ e ∈ c, e.lbid ≠ lbid) (hcu : Current c lbid v) :
    v = 0 := by
  rcases hcu with ⟨e, hi, hn, -⟩ | ⟨zero, -⟩
  · exact absurd hn (hab e hi)
  · exact zero

end SlaveNode
