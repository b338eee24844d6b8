import EryDb.BrmTypes
import EryDb.FileBytes
import EryDb.LittleEndian
import Mathlib.Algebra.BigOperators.Group.List.Basic
import Mathlib.Data.List.Induction

/-!
# The server that hands out object numbers

The next object number is kept in memory and in a file of four bytes. A request takes the
numbers from the next one on and stores the new one. A server that starts reads the number
back, but only its two lower bytes, so that a restart beyond 65535 begins again at a number
that has been handed out.
-/

namespace OidServer

open List LittleEndian
open BrmTypes (wrap32)
open LittleEndian (Byte)

def maxDbRoot : Int := 10240

def userObjectId : Int := maxDbRoot + 2000

/-- The four bytes of an `int`. -/
def intBytes (n : Int) : List Byte := LittleEndian.write 4 (n % 2 ^ 32).toNat

/-- The number that a new file begins with, from the entry in the configuration. -/
def firstOID (configured : Option Int) : Int :=
  let ltmp := configured.getD userObjectId
  if 2 ^ 31 - 1 < ltmp ∨ ltmp < userObjectId then userObjectId else ltmp

def initializeBitmap (configured : Option Int) : List Byte :=
  FileBytes.writeAt 0 [] 0 (intBytes (firstOID configured))

structure OIDServer where
  currentOID : Int
  bitmapFile : List Byte
  deriving DecidableEq

/-- A server starts on the file that is there, or on a new one. The source reads two bytes
into a number that was 0. -/
def OIDServer.start (configured : Option Int) (bitmapFile : Option (List Byte)) : OIDServer :=
  let file := bitmapFile.getD (initializeBitmap configured)
  ⟨read (FileBytes.readAt file 0 2), file⟩

def allocOIDs (num : Int) (server : OIDServer) : Int × OIDServer :=
  let next := wrap32 (server.currentOID + num)
  (server.currentOID, ⟨next, FileBytes.writeAt 0 server.bitmapFile 0 (intBytes next)⟩)

inductive Event where
  | alloc (num : Int)
  | restart
  deriving DecidableEq

/-- A server, and the numbers handed out so far as first number and count, the latest first. -/
structure Run where
  server : OIDServer
  handed : List (Int × Int)
  deriving DecidableEq

def step (configured : Option Int) (r : Run) : Event → Run
  | .alloc num => ⟨(allocOIDs num r.server).2, ((allocOIDs num r.server).1, num) :: r.handed⟩
  | .restart => ⟨.start configured (some r.server.bitmapFile), r.handed⟩

def run (configured : Option Int) (events : List Event) : Run :=
  events.foldl (step configured) ⟨.start configured none, []⟩

def Holds (range : Int × Int) (oid : Int) : Prop := range.1 ≤ oid ∧ oid < range.1 + range.2

def Apart (a b : Int × Int) : Prop := ∀ oid, ¬ (Holds a oid ∧ Holds b oid)

/-- The sizes that are asked for. -/
def requests (events : List Event) : List Int := events.filterMap fun
    | .alloc num => some num
    | .restart => none

/-- A restart does no harm while nothing was handed out, or while the number in the file fits
into the two bytes that are read back. -/
def SafeRestart (r : Run) : Prop := r.handed = [] ∨ LittleEndian.read r.server.bitmapFile < 2 ^ 16

/-! ## The file and the counter -/

lemma length_intBytes (n : Int) : (intBytes n).length = 4 := LittleEndian.length_write _ _

lemma read_intBytes {n : Int} (natural : 0 ≤ n) (fits : n < 2 ^ 31) :
    (read (intBytes n) : Int) = n := by
  have small : n % 2 ^ 32 = n := Int.emod_eq_of_lt natural (by omega)
  rw [intBytes, small, read_write (by omega)]
  exact Int.toNat_of_nonneg natural

/-- Writing a number over a number of the same size. -/
lemma writeAt_intBytes (n : Int) {file : List Byte} (length : file.length = 4) :
    FileBytes.writeAt 0 file 0 (intBytes n) = intBytes n := by
  simp [FileBytes.writeAt, length_intBytes, drop_eq_nil_of_le, length]

/-- The two bytes that are read back are the number modulo 65536. -/
lemma read_two {file : List Byte} (length : file.length = 4) :
    read (FileBytes.readAt file 0 2) = read file % 2 ^ 16 := by
  have split : read file = read (file.take 2) +
      256 ^ (file.take 2).length * read (file.drop 2) := by
    rw [← read_append, take_append_drop]
  have two : (file.take 2).length = 2 := by simp [length]
  have low := read_lt (file.take 2)
  rw [two] at split low
  rw [FileBytes.readAt, drop_zero, split]
  omega

/-- What every run keeps, for a first number and the sum of the requests: the file holds the
counter once numbers were handed out, and all of them lie below the counter. -/
structure Inv (first total : Int) (r : Run) : Prop where
  natural : 0 ≤ r.server.currentOID
  bounded : r.server.currentOID ≤ first + total
  length : r.server.bitmapFile.length = 4
  stored : (r.handed = [] ∧ (read r.server.bitmapFile : Int) = first) ∨
    (r.handed ≠ [] ∧ (read r.server.bitmapFile : Int) = r.server.currentOID)
  below : ∀ range ∈ r.handed, range.1 + range.2 ≤ r.server.currentOID
  apart : r.handed.Pairwise Apart

lemma firstOID_natural (configured : Option Int) : 0 ≤ firstOID configured := by
  rw [firstOID]
  split_ifs with outside
  · decide
  · have : userObjectId ≤ configured.getD userObjectId := not_lt.mp (not_or.mp outside).2
    exact le_trans (by decide) this

variable {configured : Option Int}

lemma inv_start (small : firstOID configured < 2 ^ 30) :
    Inv (firstOID configured) 0 ⟨.start configured none, []⟩ := by
  have natural := firstOID_natural configured
  have file : initializeBitmap configured = intBytes (firstOID configured) := by
    simp [initializeBitmap, FileBytes.writeAt]
  have number := read_intBytes natural (by omega)
  have low := read_two (length_intBytes (firstOID configured))
  constructor
  · exact Int.natCast_nonneg _
  · simp only [OIDServer.start, Option.getD_none, file]
    omega
  · simp [OIDServer.start, file, length_intBytes]
  · exact Or.inl ⟨rfl, by simpa [OIDServer.start, file] using number⟩
  · simp
  · exact .nil

lemma inv_alloc {first total num : Int} {r : Run} (inv : Inv first total r) (positive : 0 < num)
    (small : first + total + num < 2 ^ 31) :
    Inv first (total + num) (step configured r (.alloc num)) := by
  have natural := inv.natural
  have bounded := inv.bounded
  have next : wrap32 (r.server.currentOID + num) = r.server.currentOID + num := by
    rw [wrap32, Int.bmod_def]
    split <;> omega
  have written := writeAt_intBytes (r.server.currentOID + num) inv.length
  constructor
  · simp only [step, allocOIDs, next]
    omega
  · simp only [step, allocOIDs, next]
    omega
  · simp [step, allocOIDs, next, written, length_intBytes]
  · refine Or.inr ⟨by simp [step], ?_⟩
    simp only [step, allocOIDs, next, written]
    exact read_intBytes (by omega) (by omega)
  · simp only [step, allocOIDs, next, mem_cons, forall_eq_or_imp]
    refine ⟨le_rfl, fun range mem => ?_⟩
    have := inv.below range mem
    omega
  simp only [step, allocOIDs, pairwise_cons]
  refine ⟨fun range mem oid both => ?_, inv.apart⟩
  have := inv.below range mem
  have := both.1.1
  have := both.2.2
  omega

lemma inv_restart {first total : Int} {r : Run} (inv : Inv first total r) (grown : 0 ≤ total)
    (safe : SafeRestart r) : Inv first total (step configured r .restart) := by
  have low := read_two inv.length
  have bounded := inv.bounded
  have file : (step configured r .restart).server.bitmapFile = r.server.bitmapFile := rfl
  have counter : (step configured r .restart).server.currentOID =
      (read r.server.bitmapFile % 2 ^ 16 : Nat) := by
    rw [← low]
    rfl
  have same : (step configured r .restart).handed = r.handed := rfl
  refine ⟨by omega, ?_, inv.length, ?_, ?_, inv.apart⟩
  · rcases inv.stored with ⟨-, stored⟩ | ⟨-, stored⟩ <;> omega
  · refine inv.stored.imp id fun ⟨nonempty, stored⟩ => ⟨nonempty, ?_⟩
    rw [file, counter]
    have := safe.resolve_left nonempty
    omega
  intro range mem
  rw [same] at mem
  have nonempty := ne_nil_of_mem mem
  have below := inv.below range mem
  have small := safe.resolve_left nonempty
  obtain ⟨none, -⟩ | ⟨-, stored⟩ := inv.stored
  · exact absurd none nonempty
  · omega

/-! ## Runs -/

lemma run_snoc (configured : Option Int) (events : List Event) (e : Event) :
    run configured (events ++ [e]) = step configured (run configured events) e := by
  simp [run]

lemma requests_snoc (events : List Event) (e : Event) :
    (requests (events ++ [e])).sum = (requests events).sum + (requests [e]).sum := by
  simp [requests]

lemma inv_run (small : firstOID configured < 2 ^ 30) (events : List Event)
    (positive : ∀ num, .alloc num ∈ events → 0 < num) (total : (requests events).sum < 2 ^ 30)
    (safe : ∀ before after, events = before ++ .restart :: after →
      SafeRestart (run configured before)) : 0 ≤ (requests events).sum ∧
      Inv (firstOID configured) (requests events).sum (run configured events) := by
  induction events using List.reverseRecOn with
  | nil => exact ⟨le_rfl, inv_start small⟩
  | append_singleton events e ih =>
    rw [requests_snoc] at total ⊢
    have positive_before : ∀ num, .alloc num ∈ events → 0 < num := fun num mem =>
      positive num (mem_append_left _ mem)
    have safe_before : ∀ before after, events = before ++ .restart :: after →
        SafeRestart (run configured before) := fun before after split =>
      safe before (after ++ [e]) (by simp [split])
    rw [run_snoc]
    cases e with
    | alloc num =>
      have positive_num := positive num (by simp)
      simp only [requests, filterMap_cons, filterMap_nil, sum_singleton] at total ⊢
      obtain ⟨grown, inv⟩ := ih positive_before (by simp only [requests]; omega) safe_before
      simp only [requests] at grown inv
      exact ⟨by omega, inv_alloc inv positive_num (by omega)⟩
    | restart =>
      simp only [requests, filterMap_cons, filterMap_nil, sum_nil, add_zero] at total ⊢
      obtain ⟨grown, inv⟩ := ih positive_before total safe_before
      exact ⟨grown, inv_restart inv grown (safe events [] rfl)⟩

/-- The numbers handed out in a run are pairwise different as long as every restart finds a
number below 65536 in the file, or comes before the first request. -/
theorem handed_apart {configured : Option Int} (small : firstOID configured < 2 ^ 30)
    (events : List Event) (positive : ∀ num, .alloc num ∈ events → 0 < num)
    (total : (requests events).sum < 2 ^ 30)
    (safe : ∀ before after, events = before ++ .restart :: after →
      SafeRestart (run configured before)) :
    (run configured events).handed.Pairwise Apart :=
  (inv_run small events positive total safe).2.apart

theorem two_requests_apart :
    (run none [.alloc 53295, .restart, .alloc 100]).handed = [(65535, 100), (12240, 53295)] ∧
      (run none [.alloc 53295, .restart, .alloc 100]).handed.Pairwise Apart := by
  refine ⟨by decide, handed_apart (by decide) _ (by simp) (by decide) ?_⟩
  intro before after split
  rcases before with _ | ⟨e, _ | ⟨e', before⟩⟩
  · simp at split
  · obtain ⟨rfl, -⟩ := List.cons.inj split
    right
    decide
  · rcases before with _ | ⟨_, before⟩ <;> simp at split

/-- Past 65535 a restart goes back to number 0, and a number is handed out twice. -/
theorem restart_repeats :
    (run none [.alloc 53296, .restart, .alloc 12241]).handed = [(0, 12241), (12240, 53296)] ∧
      ¬ (run none [.alloc 53296, .restart, .alloc 12241]).handed.Pairwise Apart := by
  have handed : (run none [.alloc 53296, .restart, .alloc 12241]).handed =
      [(0, 12241), (12240, 53296)] := by decide
  refine ⟨handed, fun apart => ?_⟩
  rw [handed, pairwise_pair] at apart
  exact apart 12240 (by simp [Holds])

end OidServer
