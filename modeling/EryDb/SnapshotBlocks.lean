import EryDb.RingAging

/-!
# The block images a query context reads

A version of a block stands for an image of it, which lies in the main file if the version
is the current one and in the version buffer otherwise. Stated over the versions of one
block: which image was committed last, which version a query context reads, and what the
steps of a block do to both.
-/

namespace SlaveNode

open Function Multiset SlotTable Vss Vbbm

variable {Image : Type} {K main : Image} {buffered : Int → Image} {c c' older : Versions}
  {top : Entry VssData} {d : Copies} {l transID : Int}

/-- The image last committed is that of the version under a locked one, and else the one in the
main file. -/
structure LastCommitted (K main : Image) (buffered : Int → Image) (c : Versions) : Prop where
  free : (∀ e ∈ c, e.data.locked = false) → main = K
  older : ∀ e ∈ c, e.data.vbFlag = true → e.data.locked = false
  held : (∃ e ∈ c, e.data.locked = true) → ∀ e ∈ c, e.data.vbFlag = true →
    (∀ e' ∈ c, e'.data.vbFlag = true → e'.verID ≤ e.verID) → buffered e.verID = K

lemma LastCommitted.of_free (he : main = K) (free : ∀ e ∈ c, e.data.locked = false) :
    LastCommitted K main buffered c := by
  refine ⟨fun _ => he, fun e hi _ => free e hi, ?_⟩
  rintro ⟨e, hi, hlo⟩
  rw [free e hi] at hlo
  cases hlo

lemma LastCommitted.empty (he : main = K) : LastCommitted K main buffered 0 :=
  .of_free he fun _ none => absurd none (notMem_zero _)

/-- A transaction that holds the block may store any image. -/
lemma LastCommitted.stored (last : LastCommitted K main buffered c)
    (held : ∃ e ∈ c, e.data.locked = true) (image : Image) :
    LastCommitted K image buffered c := by
  refine ⟨fun free => ?_, last.older, last.held⟩
  obtain ⟨e, hi, hlo⟩ := held
  rw [free e hi] at hlo
  cases hlo

lemma LastCommitted.older_free (last : LastCommitted K main buffered (top ::ₘ older))
    (hst : Stacked top older d) : ∀ e ∈ older, e.data.locked = false := fun e hun =>
  last.older e (mem_cons_of_mem hun) (hst.flagged e hun)

/-- The first write of a block copies its image out as version 0. -/
lemma LastCommitted.started (last : LastCommitted K main buffered 0) :
    LastCommitted K main (Function.update buffered 0 main)
      (⟨l, transID, ⟨false, true⟩⟩ ::ₘ {⟨l, 0, ⟨true, false⟩⟩}) := by
  have he : main = K := last.free (by simp)
  refine ⟨fun free => ?_, by simp, fun _ e hi hfl _ => ?_⟩
  · have := free ⟨l, transID, ⟨false, true⟩⟩ (by simp)
    cases this
  · rcases mem_cons.mp hi with rfl | hun
    · cases hfl
    · rw [mem_singleton.mp hun, update_self, he]

/-- A write over a committed version copies its image out. -/
lemma LastCommitted.pushed (hst : Stacked top older d)
    (last : LastCommitted K main buffered (top ::ₘ older)) (free : top.data.locked = false) :
    LastCommitted K main (Function.update buffered top.verID main)
      (⟨l, transID, ⟨false, true⟩⟩ ::ₘ ⟨l, top.verID, ⟨true, top.data.locked⟩⟩ ::ₘ older) := by
  have hunh := last.older_free hst
  have he := last.free (forall_mem_cons.mpr ⟨free, hunh⟩)
  refine ⟨fun none => ?_, ?_, fun _ e hi hfl hhi => ?_⟩
  · have := none ⟨l, transID, ⟨false, true⟩⟩ (by simp)
    cases this
  · intro e hi hfl
    rcases mem_cons.mp hi with rfl | hi
    · cases hfl
    rcases mem_cons.mp hi with rfl | hun
    · exact free
    · exact hunh e hun
  · have above : top.verID ≤ e.verID := hhi ⟨l, top.verID, ⟨true, top.data.locked⟩⟩ (by simp) rfl
    rcases mem_cons.mp hi with rfl | hi
    · cases hfl
    rcases mem_cons.mp hi with rfl | hun
    · rw [update_self, he]
    · have := hst.below e hun
      omega

/-- A commit of the transaction that holds the block. -/
lemma LastCommitted.committed (hst : Stacked top older d)
    (last : LastCommitted K main buffered (top ::ₘ older))
    (held : ∃ e ∈ top ::ₘ older, e.verID = transID ∧ e.data.locked = true) :
    LastCommitted main main buffered ((top ::ₘ older).map (unlocked transID)) := by
  refine .of_free rfl fun e hi => ?_
  obtain ⟨e', hb, rfl⟩ := mem_map.mp hi
  obtain ⟨own, ht, hver, hlo⟩ := held
  rcases mem_cons.mp hb with rfl | under
  · -- an older version is not locked, so it is the current one that is held
    rcases mem_cons.mp ht with rfl | beneath
    · rw [unlocked, if_pos hver]
    · rw [last.older_free hst own beneath] at hlo
      cases hlo
  · exact unlocked_free transID (last.older_free hst e' under)

/-- A commit of another transaction changes nothing. -/
lemma unlocked_others (free : ¬ ∃ e ∈ c, e.verID = transID ∧ e.data.locked = true) :
    c.map (unlocked transID) = c := by
  conv_rhs => rw [← map_id c]
  refine map_congr rfl fun e hi => ?_
  rw [unlocked]
  split
  · rename_i own
    have hunh : e.data.locked = false := by
      by_contra hlo
      exact free ⟨e, hi, own, by simpa using hlo⟩
    obtain ⟨lbid, verID, vbFlag, hlo⟩ := e
    obtain rfl : hlo = false := hunh
    rfl
  · rfl

variable {e : Entry VssData}

lemma mem_settled (hi : e ∈ settled c) : e ∈ c := by
  rw [settled] at hi
  split at hi
  · exact hi
  · exact absurd hi (notMem_zero e)

/-- A rollback puts the image under the current version back. -/
lemma LastCommitted.rolledBack {rest : Versions} (hst : Stacked top (e ::ₘ rest) d)
    (hhi : ∀ e' ∈ rest, e'.verID < e.verID)
    (last : LastCommitted K main buffered (top ::ₘ e ::ₘ rest)) (hlo : top.data.locked = true) :
    LastCommitted K (buffered e.verID) buffered
      (settled (⟨l, e.verID, ⟨false, e.data.locked⟩⟩ ::ₘ rest)) := by
  have he : buffered e.verID = K := by
    refine last.held ⟨top, mem_cons_self _ _, hlo⟩ e (by simp) (hst.flagged e (by simp)) ?_
    intro e' hi old
    rcases mem_cons.mp (hst.under hi old) with rfl | hun
    · exact le_rfl
    · exact (hhi e' hun).le
  refine .of_free he fun e' hi => ?_
  rcases mem_cons.mp (mem_settled hi) with rfl | hun
  · exact last.older_free hst e (mem_cons_self _ _)
  · exact last.older_free hst e' (mem_cons_of_mem hun)

lemma LastCommitted.mono (last : LastCommitted K main buffered c) (hfe : c' ≤ c)
    (free : (∀ e ∈ c', e.data.locked = false) → ∀ e ∈ c, e.data.locked = false)
    (hhi : (∃ e ∈ c, e.data.locked = true) → ∀ e ∈ c, e.data.vbFlag = true →
      ∃ e' ∈ c', e'.data.vbFlag = true ∧ e.verID ≤ e'.verID) :
    LastCommitted K main buffered c' := by
  have sub : ∀ e ∈ c', e ∈ c := fun e hi => mem_of_le hfe hi
  refine ⟨fun hunh => last.free (free hunh), fun e hi => last.older e (sub e hi), ?_⟩
  rintro ⟨u, ht, hlo⟩ e hi hfl hmax
  refine last.held ⟨u, sub u ht, hlo⟩ e (sub e hi) hfl fun e' hb old => ?_
  obtain ⟨e₁, ha, old₁, above⟩ := hhi ⟨u, sub u ht, hlo⟩ e' hb old
  exact above.trans (hmax e₁ ha old₁)

/-- Aging out leaves the version under a locked one, and else what is in the main file. -/
lemma LastCommitted.aged {rest : Versions} (hst : Stacked top (e ::ₘ rest) d)
    (last : LastCommitted K main buffered (top ::ₘ e ::ₘ rest))
    (hung : ¬ FallsBackTo (top ::ₘ e ::ₘ rest) e) :
    LastCommitted K main buffered (settled (top ::ₘ rest)) := by
  have hunh := last.older_free hst
  by_cases hlo : top.data.locked = true
  · -- another older version is above the one that goes
    have another : ∃ u ∈ rest, e.verID < u.verID := by
      by_contra none
      refine hung ⟨⟨top, mem_cons_self _ _, hlo⟩, hunh e (by simp), ?_⟩
      intro u hi free
      rcases mem_cons.mp hi with rfl | hi
      · rw [hlo] at free
        cases free
      rcases mem_cons.mp hi with rfl | hun
      · exact le_rfl
      · exact not_lt.mp fun above => none ⟨u, hun, above⟩
    obtain ⟨u, hun, above⟩ := another
    have old : u.data.vbFlag = true := hst.flagged u (mem_cons_of_mem hun)
    rw [settled_of_flagged (mem_cons_of_mem hun) old]
    refine last.mono ?_ ?_ ?_
    · rw [cons_swap]
      exact le_cons_self _ _
    · intro none
      rw [none top (mem_cons_self _ _)] at hlo
      cases hlo
    intro _ e' hi hfl
    rcases mem_cons.mp (hst.under hi hfl) with rfl | later
    · exact ⟨u, mem_cons_of_mem hun, old, above.le⟩
    · exact ⟨e', mem_cons_of_mem later, hfl, le_rfl⟩
  · have free : top.data.locked = false := by simpa using hlo
    have all : ∀ u ∈ top ::ₘ e ::ₘ rest, u.data.locked = false :=
      forall_mem_cons.mpr ⟨free, hunh⟩
    refine .of_free (last.free all) fun u hi => all u ?_
    rcases mem_cons.mp (mem_settled hi) with rfl | hun
    · exact mem_cons_self _ _
    · simp [hun]

section Contexts

/-- A reader with the context looks at the version. -/
def Visible (ctx : QueryContext) (v : Int) : Prop := v ∉ ctx.txns ∧ v ≤ ctx.currentScn

/-- The version of a block that a context reads. -/
structure Reads (ctx : QueryContext) (c : Versions) (e : Entry VssData) : Prop where
  mem : e ∈ c
  visible : Visible ctx e.verID
  highest : ∀ e' ∈ c, Visible ctx e'.verID → e'.verID ≤ e.verID

/-- What a context finds of a block: its image, or versions that tell it came too late. -/
structure Serves (ctx : QueryContext) (K main : Image) (buffered : Int → Image) (c : Versions) :
    Prop where
  reads : ∀ e, Reads ctx c e → (if e.data.vbFlag then buffered e.verID else main) = K
  known : c ≠ 0 → ∃ e ∈ c, e.verID ∉ ctx.txns
  bare : c = 0 → main = K

/-- What an aging or a rollback has to leave of a block for a context. The version that must
survive is the one the context reads, the highest that is visible to it; or else no visible
version may be left but one written after the context, and the lookup reports the snapshot as
too old. -/
def StaysReadable (ctx : QueryContext) (c c' : Versions) : Prop :=
  c' = c ∨ (∃ e, Reads ctx c e ∧ ∃ e' ∈ c', e'.verID = e.verID) ∨
    ((∀ e ∈ settled c', ¬ Visible ctx e.verID) ∧ ∃ e ∈ settled c', e.verID ∉ ctx.txns)

variable {ctx : QueryContext}

/-- A new context finds the image committed last, provided that the versions of its active
transactions are the locked ones. -/
lemma LastCommitted.serves (last : LastCommitted K main buffered c)
    (hor : c = 0 ∨ ∃ top older, c = top ::ₘ older ∧ Stacked top older d)
    (number : ∀ e ∈ c, e.verID ≤ ctx.currentScn)
    (hact : ∀ e ∈ c, e.verID ∈ ctx.txns ↔ e.data.locked = true) :
    Serves ctx K main buffered c := by
  have hvis : ∀ e ∈ c, Visible ctx e.verID ↔ e.data.locked = false := by
    intro e hi
    rw [Visible, hact e hi, Bool.not_eq_true, and_iff_left (number e hi)]
  rcases hor with rfl | ⟨top, older, rfl, hst⟩
  · refine ⟨fun e reads => absurd reads.mem (notMem_zero e), fun some => absurd rfl some,
      fun _ => last.free (by simp)⟩
  have hunh := last.older_free hst
  obtain ⟨low, hun⟩ := hst.fallback
  refine ⟨fun e reads => ?_, fun _ => ⟨low, mem_cons_of_mem hun, ?_⟩,
    fun none => absurd none (cons_ne_zero)⟩
  · have free := (hvis e reads.mem).mp reads.visible
    rcases mem_cons.mp reads.mem with rfl | beneath
    · rw [hst.current, if_neg (by simp)]
      exact last.free (forall_mem_cons.mpr ⟨free, hunh⟩)
    have hlo : top.data.locked = true := by
      by_contra open_
      have above := reads.highest top (mem_cons_self _ _)
        ((hvis top (mem_cons_self _ _)).mpr (by simpa using open_))
      have := hst.below e beneath
      omega
    rw [if_pos (hst.flagged e beneath)]
    refine last.held ⟨top, mem_cons_self _ _, hlo⟩ e reads.mem
      (hst.flagged e beneath) fun u hi old => ?_
    exact reads.highest u hi ((hvis u hi).mpr (last.older u hi old))
  · rw [hact low (mem_cons_of_mem hun), hunh low hun]
    decide

lemma Serves.stored (hst : Stacked top older d)
    (hser : Serves ctx K main buffered (top ::ₘ older)) (hidden : ¬ Visible ctx top.verID)
    (image : Image) : Serves ctx K image buffered (top ::ₘ older) := by
  refine ⟨fun e reads => ?_, hser.known, fun none => absurd none cons_ne_zero⟩
  have he := hser.reads e reads
  rcases mem_cons.mp reads.mem with rfl | hun
  · exact absurd reads.visible hidden
  · rw [if_pos (hst.flagged e hun)] at he ⊢
    exact he

lemma Serves.started (hser : Serves ctx K main buffered 0) (hidden : ¬ Visible ctx transID)
    (zero : 0 ∉ ctx.txns) :
    Serves ctx K main (Function.update buffered 0 main)
      (⟨l, transID, ⟨false, true⟩⟩ ::ₘ {⟨l, 0, ⟨true, false⟩⟩}) := by
  refine ⟨fun e reads => ?_, fun _ => ⟨⟨l, 0, ⟨true, false⟩⟩, by simp, zero⟩,
    fun none => absurd none cons_ne_zero⟩
  rcases mem_cons.mp reads.mem with rfl | hun
  · exact absurd reads.visible hidden
  · rw [mem_singleton.mp hun, if_pos rfl, update_self]
    exact hser.bare rfl

lemma Serves.pushed (hst : Stacked top older d)
    (hser : Serves ctx K main buffered (top ::ₘ older)) (hidden : ¬ Visible ctx transID) :
    Serves ctx K main (Function.update buffered top.verID main)
      (⟨l, transID, ⟨false, true⟩⟩ ::ₘ ⟨l, top.verID, ⟨true, top.data.locked⟩⟩ ::ₘ older) := by
  have old : ∀ e ∈ top ::ₘ older,
    ∃ e' ∈ (⟨l, top.verID, ⟨true, top.data.locked⟩⟩ ::ₘ older : Versions),
      e'.verID = e.verID := by
    intro e hi
    rcases mem_cons.mp hi with rfl | hun
    · exact ⟨_, mem_cons_self _ _, rfl⟩
    · exact ⟨e, mem_cons_of_mem hun, rfl⟩
  refine ⟨fun e reads => ?_, fun _ => ?_, fun none => absurd none cons_ne_zero⟩
  · have hhi : ∀ u ∈ top ::ₘ older, Visible ctx u.verID → u.verID ≤ e.verID := by
      intro u hi hvis
      obtain ⟨u', ht, he⟩ := old u hi
      rw [← he] at hvis ⊢
      exact reads.highest u' (mem_cons_of_mem ht) hvis
    have hvis := reads.visible
    rcases mem_cons.mp reads.mem with rfl | hi
    · exact absurd hvis hidden
    rcases mem_cons.mp hi with rfl | hun
    · have he := hser.reads top ⟨mem_cons_self _ _, hvis, hhi⟩
      rw [hst.current, if_neg (by simp)] at he
      rw [if_pos rfl, update_self, he]
    · have he := hser.reads e ⟨mem_cons_of_mem hun, hvis, hhi⟩
      have hap : e.verID ≠ top.verID := ne_of_lt (hst.below e hun)
      rw [if_pos (hst.flagged e hun)] at he ⊢
      rw [update_of_ne hap, he]
  · obtain ⟨e, hi, hout⟩ := hser.known cons_ne_zero
    obtain ⟨e', ht, he⟩ := old e hi
    exact ⟨e', mem_cons_of_mem ht, by rw [he]; exact hout⟩

lemma Serves.committed (hser : Serves ctx K main buffered c) (transID : Int) :
    Serves ctx K main buffered (c.map (unlocked transID)) := by
  refine ⟨fun e reads => ?_, fun some => ?_, fun none => hser.bare (map_eq_zero.mp none)⟩
  · obtain ⟨e', hi, rfl⟩ := mem_map.mp reads.mem
    have hvis := reads.visible
    rw [unlocked_verID] at hvis ⊢
    rw [unlocked_vbFlag]
    refine hser.reads e' ⟨hi, hvis, fun u ht seen => ?_⟩
    have := reads.highest _ (mem_map_of_mem _ ht) (by rwa [unlocked_verID])
    rwa [unlocked_verID, unlocked_verID] at this
  · obtain ⟨e, hi, hout⟩ := hser.known fun none => some (by rw [none, map_zero])
    exact ⟨_, mem_map_of_mem _ hi, by rwa [unlocked_verID]⟩

/-- Versions go, with their images, and the block is settled. -/
lemma Serves.cut {main' : Image} (hser : Serves ctx K main buffered c)
    (hwh : settled c = c) (huq : ∀ e ∈ c, ∀ u ∈ c, e.verID = u.verID → e = u)
    (images : ∀ e' ∈ c', ∃ e ∈ c, e.verID = e'.verID ∧
      (if e.data.vbFlag then buffered e.verID else main) =
        if e'.data.vbFlag then buffered e'.verID else main')
    (blank : c = 0 → main' = main) (stays : StaysReadable ctx c c') :
    Serves ctx K main' buffered (settled c') := by
  rcases stays with rfl | ⟨e, reads, e', hi, hver⟩ | ⟨hidden, later⟩
  · rw [hwh]
    refine ⟨fun e reads => ?_, hser.known, fun none => (blank none).trans (hser.bare none)⟩
    obtain ⟨u, ht, hver, he⟩ := images e reads.mem
    obtain rfl := huq u ht e reads.mem hver
    rw [← he]
    exact hser.reads u reads
  · -- what a version of the same number stands for is what the context read
    have image : ∀ u ∈ c', u.verID = e.verID →
        (if u.data.vbFlag then buffered u.verID else main') = K := by
      intro u ht number
      obtain ⟨u', hb, hver', he⟩ := images u ht
      obtain rfl := huq u' hb e reads.mem (hver'.trans number)
      rw [← he]
      exact hser.reads u' reads
    rw [settled]
    split_ifs with hnd
    · refine ⟨fun u hf => image u hf.mem ?_, fun _ => ⟨e', hi, ?_⟩, fun none => ?_⟩
      · obtain ⟨u', hb, hver', -⟩ := images u hf.mem
        have above := hf.highest e' hi (by rw [hver]; exact reads.visible)
        have hl := reads.highest u' hb (by rw [hver']; exact hf.visible)
        omega
      · rw [hver]
        exact reads.visible.1
      · rw [none] at hi
        exact absurd hi (notMem_zero e')
    · refine ⟨fun u hf => absurd hf.mem (notMem_zero u), fun some => absurd rfl some, fun _ => ?_⟩
      have hcu : e'.data.vbFlag = false := by
        by_contra hfl
        exact hnd ⟨e', hi, Or.inl (by simpa using hfl)⟩
      have he := image e' hi hver
      rwa [hcu, if_neg (by simp)] at he
  · refine ⟨fun e reads => absurd reads.visible (hidden e reads.mem), fun _ => later,
      fun none => ?_⟩
    obtain ⟨e, hi, -⟩ := later
    rw [none] at hi
    exact absurd hi (notMem_zero e)

lemma Block.Orderly.unique {b : Block} (hor : b.Orderly) :
    ∀ e ∈ b.versions, ∀ u ∈ b.versions, e.verID = u.verID → e = u := by
  rcases hor with rfl | ⟨top, older, shape, hst⟩
  · intro e hi
    exact absurd hi (notMem_zero e)
  have hdi : ((top ::ₘ older).map Entry.verID).Nodup := by
    rw [map_cons, nodup_cons]
    refine ⟨fun hi => ?_, hst.distinct⟩
    obtain ⟨e, hun, he⟩ := mem_map.mp hi
    exact absurd he (ne_of_lt (hst.below e hun))
  rw [shape]
  exact fun e hi u ht he => inj_on_of_nodup_map hdi e hi u ht he

lemma Block.Orderly.natural {b : Block} (hor : b.Orderly) : ∀ e ∈ b.versions, 0 ≤ e.verID := by
  rcases hor with rfl | ⟨top, older, shape, hst⟩
  · intro e hi
    exact absurd hi (notMem_zero e)
  rw [shape]
  obtain ⟨low, beneath⟩ := hst.fallback
  exact forall_mem_cons.mpr
    ⟨(hst.natural low beneath).trans (hst.below low beneath).le, hst.natural⟩

/-- The image an answer of a lookup designates; without a version it is the main file. -/
def designated (main : Image) (buffered : Int → Image) (answer : LookupAnswer) : Image :=
  if answer.code = .found ∧ answer.vbFlag = true then buffered answer.outVer else main

/-- A lookup by a reader that holds none of the versions its context ignores. -/
lemma Serves.lookup {hasher : Int → Nat} {s : VSS} (hc : Chained (vssLayout hasher) s)
    (hna : ∀ e ∈ versionsOf (contents s) l, 0 ≤ e.verID) (hcu : 0 ≤ ctx.currentScn)
    {txnID : Int} (reader : ∀ e ∈ versionsOf (contents s) l, e.verID = txnID → txnID ∉ ctx.txns)
    (hser : Serves ctx K main buffered (versionsOf (contents s) l)) :
    (Vss.lookup hasher s l ctx txnID false).code = .errSnapshotTooOld ∨
      designated main buffered (Vss.lookup hasher s l ctx txnID false) = K := by
  have hk : ∀ x ∈ chainEntries hasher s l, x.lbid = l →
      x.entry ∈ versionsOf (contents s) l := fun x hm hn =>
    mem_versionsOf.mpr ((mem_chainEntries_iff hc).mp ⟨x, hm, hn, rfl⟩)
  have eligible : ∀ x ∈ VssLookup.eligibleIn ctx txnID false l (chainEntries hasher s l),
      x.entry ∈ versionsOf (contents s) l ∧ x.verID ∉ ctx.txns := by
    rintro x ⟨hm, hn, -, own | hout⟩
    · have hi := hk x hm hn
      exact ⟨hi, by rw [own]; exact reader x.entry hi own⟩
    · exact ⟨hk x hm hn, hout⟩
  have listed : ∀ e ∈ versionsOf (contents s) l, e.verID ∉ ctx.txns →
      ∃ x ∈ VssLookup.eligibleIn ctx txnID false l (chainEntries hasher s l), x.entry = e := by
    intro e hi hout
    obtain ⟨x, hm, hn, rfl⟩ := (mem_chainEntries_iff hc).mpr (mem_versionsOf.mp hi)
    exact ⟨x, ⟨hm, hn, ⟨fun only => absurd only (by decide), Or.inr hout⟩⟩, rfl⟩
  have answers := VssLookup.chain_answers hcu fun x hi =>
    hna x.entry (eligible x hi).1
  by_cases some : ∃ x ∈ VssLookup.eligibleIn ctx txnID false l (chainEntries hasher s l),
      x.verID ≤ ctx.currentScn
  · obtain ⟨x, hvis, answer⟩ := answers.visible some
    obtain ⟨hi, hout⟩ := eligible x hvis.mem
    have he := hser.reads x.entry ⟨hi, ⟨hout, hvis.old⟩, fun e ht seen => by
      obtain ⟨y, hm, rfl⟩ := listed e ht seen.1
      exact hvis.greatest y hm seen.2⟩
    right
    rw [answer, designated, ← he]
    simp only [true_and]
    rfl
  · by_cases any : ∃ x, x ∈ VssLookup.eligibleIn ctx txnID false l (chainEntries hasher s l)
    · left
      rw [answers.tooOld any fun x hi => by
        by_contra old
        exact some ⟨x, hi, by omega⟩]
    right
    rw [answers.absent fun x hi => any ⟨x, hi⟩]
    refine hser.bare ?_
    by_contra hwr
    obtain ⟨e, hi, hout⟩ := hser.known hwr
    obtain ⟨x, hm, -⟩ := listed e hi hout
    exact any ⟨x, hm⟩

end Contexts

end SlaveNode
