import EryDb.FilterStrings

/-!
# Scanning a dictionary block

`p_TokenByScan` compares every signature of a block with the arguments of a request and returns
the ordinals of those that pass. With more than two arguments each comparison should be the one
of `COP1`; for UTF-8 strings the loop takes `COP2`.
-/

namespace DictionaryScan

open List FilterStrings LittleEndian

/-- Up to the shorter length, or up to a zero byte. -/
def strncmp : List Byte → List Byte → Int
  | a :: s, b :: t => if a ≠ b then (a.toNat : Int) - b.toNat else if a = 0 then 0 else strncmp s t
  | _, _ => 0

def compare (cmp : Int) (COP : Byte) (len1 len2 : Nat) : Bool :=
  match CompareOp.ofByte COP with
  | some .lt => cmp < 0 || (cmp = 0 && len1 < len2)
  | some .eq => cmp = 0 && len1 = len2
  | some .le => cmp < 0 || (cmp = 0 && len1 ≤ len2)
  | some .gt => cmp > 0 || (cmp = 0 && len1 > len2)
  | some .ne => cmp ≠ 0 || len1 ≠ len2
  | some .ge => cmp > 0 || (cmp = 0 && len1 ≥ len2)
  | some .like => cmp ≠ 0
  | _ => false

/-- What a pattern matches and how strings are collated is the business of the libraries. -/
structure Library where
  isLike : List Byte → List Byte → Bool
  strcoll : List Byte → List Byte → Int

structure Request where
  utf8 : Bool
  COP1 : Byte
  COP2 : Byte
  BOP : Bop
  args : List (List Byte)

section Code

variable (lib : Library) (h : Request) (sig : List Byte)

def isLike (COP : Byte) : Bool := COP &&& 0x10 ≠ 0

/-- The operator for collated strings is another one in the loop over the arguments. -/
def compareArg (COP collCOP : Byte) (arg : List Byte) : Bool :=
  if isLike COP then
    if COP &&& 0x08 ≠ 0 then !lib.isLike sig arg else lib.isLike sig arg
  else if h.utf8 then compare (lib.strcoll sig arg) collCOP sig.length arg.length
  else compare (strncmp sig arg) COP sig.length arg.length

def argLoop : Bool → List (List Byte) → Bool
  | cmpResult, [] => cmpResult
  | _, arg :: args =>
    let cmpResult := compareArg lib h sig h.COP1 h.COP2 arg
    if !cmpResult && h.BOP = .and then false
    else if cmpResult && h.BOP = .or then true
    else argLoop cmpResult args

def store : Bool :=
  match h.args with
  | [arg] => compareArg lib h sig h.COP1 h.COP1 arg
  | [arg₁, arg₂] =>
    let cmpResult := compareArg lib h sig h.COP1 h.COP1 arg₁
    if !cmpResult && h.BOP = .and then false
    else if cmpResult && h.BOP = .or then true
    else compareArg lib h sig h.COP2 h.COP2 arg₂
  | args => argLoop lib h sig true args

end Code

/-- The offsets in front of the end mark, and the bytes of the block. -/
structure Block where
  offsets : List UInt16
  bytes : Nat → Byte

/-- A signature begins at its offset and ends at the one before it. -/
def signatures (bytes : Nat → Byte) : List UInt16 → List (List Byte)
  | before :: offset :: offsets =>
    (range (before - offset).toNat).map (fun i => bytes (offset.toNat + i)) ::
      signatures bytes (offset :: offsets)
  | _ => []

def Block.signatures (b : Block) : List (List Byte) := DictionaryScan.signatures b.bytes b.offsets

def scanFrom (store : List Byte → Bool) : Nat → List (List Byte) → List Nat
  | _, [] => []
  | offsetIndex, sig :: sigs =>
    if store sig then offsetIndex :: scanFrom store (offsetIndex + 1) sigs
    else scanFrom store (offsetIndex + 1) sigs

/-- The ordinals of the tokens; the patterns compile and the output buffer is large enough. -/
def tokenByScan (lib : Library) (h : Request) (b : Block) : List Nat :=
  scanFrom (store lib h) 1 b.signatures

/-- The ordinals of the signatures with a property, in block order. -/
def ordinals (p : List Byte → Bool) (b : Block) : List Nat :=
  ((b.signatures.zipIdx 1).filter fun x => p x.1).map Prod.snd

/-- All or some arguments compare as asked. -/
def Request.combine (h : Request) (test : List Byte → Bool) : Bool :=
  if h.BOP = .and then h.args.all test else h.args.any test

section Scan

variable {p q : List Byte → Bool}

lemma scanFrom_eq (k : Nat) (sigs : List (List Byte)) :
    scanFrom p k sigs = ((sigs.zipIdx k).filter fun x => p x.1).map Prod.snd := by
  induction sigs generalizing k with
  | nil => rfl
  | cons sig sigs ih => cases hp : p sig <;> simp [scanFrom, zipIdx_cons, hp, ih]

lemma le_of_mem_scanFrom {k i : Nat} {sigs : List (List Byte)}
    (hi : i ∈ scanFrom p k sigs) : k ≤ i := by
  rw [scanFrom_eq] at hi
  obtain ⟨x, hm, rfl⟩ := mem_map.mp hi
  exact (mem_zipIdx (mem_filter.mp hm).1).1

lemma scanFrom_inj {k : Nat} {sigs : List (List Byte)} :
    scanFrom p k sigs = scanFrom q k sigs ↔ ∀ sig ∈ sigs, p sig = q sig := by
  induction sigs generalizing k with
  | nil => simp [scanFrom]
  | cons sig sigs ih =>
    have fresh : ∀ r, k ∉ scanFrom r (k + 1) sigs := fun r hi =>
      absurd (le_of_mem_scanFrom hi) (Nat.not_succ_le_self k)
    rw [scanFrom, scanFrom, forall_mem_cons, ← ih (k := k + 1)]
    cases hp : p sig <;> cases hq : q sig <;> simp
    · exact fun he => fresh p (he.symm ▸ mem_cons_self)
    · exact fun he => fresh q (he ▸ mem_cons_self)

end Scan

variable {lib : Library} {h : Request}

/-- The loop stops early, but not with another answer. -/
lemma argLoop_eq {sig : List Byte} {args : List (List Byte)} {r : Bool}
    (bop : h.BOP = .and ∨ h.BOP = .or) (start : args = [] → r = decide (h.BOP = .and)) :
    argLoop lib h sig r args = { h with args }.combine (compareArg lib h sig h.COP1 h.COP2) := by
  induction args generalizing r with
  | nil => rcases bop with bop | bop <;> simp [argLoop, Request.combine, bop, start rfl]
  | cons arg args ih =>
    rcases bop with bop | bop <;> cases hc : compareArg lib h sig h.COP1 h.COP2 arg <;>
      simp_all [argLoop, Request.combine]

/-- The tokens are those asked for exactly if the strings are not compared by `COP2`, or `COP2`
gives the same answer for every signature. -/
theorem tokenByScan_iff (b : Block) (several : 3 ≤ h.args.length)
    (bop : h.BOP = .and ∨ h.BOP = .or) :
    tokenByScan lib h b = ordinals (fun sig => h.combine (compareArg lib h sig h.COP1 h.COP1)) b ↔
      isLike h.COP1 = true ∨ h.utf8 = false ∨ ∀ sig ∈ b.signatures,
        h.combine (fun arg => compare (lib.strcoll sig arg) h.COP2 sig.length arg.length) =
          h.combine fun arg => compare (lib.strcoll sig arg) h.COP1 sig.length arg.length := by
  have stored : ∀ sig, store lib h sig = h.combine (compareArg lib h sig h.COP1 h.COP2) := by
    intro sig
    rw [store]
    split
    · simp_all
    · simp_all
    · exact argLoop_eq bop fun none => by simp [none] at several
  rw [tokenByScan, show ordinals _ b = _ from (scanFrom_eq 1 _).symm, scanFrom_inj]
  simp only [stored]
  delta compareArg
  cases like : isLike h.COP1 <;> cases utf8 : h.utf8 <;> simp

def bytewise : Library := ⟨fun _ _ => false, strncmp⟩

/-- `COP1` is `=`, `COP2` is not set. -/
def equalToAny (utf8 : Bool) : Request := ⟨utf8, 0x02, 0x00, .or, [[65], [66], [67]]⟩

def oneSignature : Block := ⟨[11, 10], fun _ => 65⟩

theorem tokenByScan_equalToAny : tokenByScan bytewise (equalToAny false) oneSignature =
    ordinals (fun sig => (equalToAny false).combine
      (compareArg bytewise (equalToAny false) sig 0x02 0x02)) oneSignature :=
  (tokenByScan_iff _ (by decide) (by decide)).mpr (by decide)

theorem utf8_token_missed : tokenByScan bytewise (equalToAny true) oneSignature = [] ∧
    ordinals (fun sig => (equalToAny true).combine
      (compareArg bytewise (equalToAny true) sig 0x02 0x02)) oneSignature = [1] := by
  decide

end DictionaryScan
