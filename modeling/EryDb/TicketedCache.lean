import Mathlib.Logic.Relation
import Mathlib.Logic.Function.Basic

/-!
# A cached summary that readers may publish

A summary of some data is kept beside them, with a clock and whether the summary is known,
unknown or the data are being changed. A writer marks the summary before it changes the data
and releases it afterwards; both advance the clock. A reader takes the clock as its ticket,
looks at the data some time later and may publish a summary of what it saw only if the clock
still shows its ticket and the summary is unknown. Then a known summary is sound for the data
in every interleaving, and no reader has to be waited for.
-/

namespace TicketedCache

inductive Validity where
  | unknown
  | changing
  | known

structure Reader (Data : Type*) where
  ticket : Nat
  seen : Option Data

structure State (Summary Data Name : Type*) where
  clock : Nat
  validity : Validity
  summary : Summary
  data : Data
  readers : Name → Option (Reader Data)

variable {Summary Data Name : Type*} [DecidableEq Name] (sound : Summary → Data → Prop)

inductive Step : State Summary Data Name → State Summary Data Name → Prop
  | mark (s : State Summary Data Name) (summary : Summary) :
      Step s { s with clock := s.clock + 1, validity := .changing, summary := summary }
  | change (s : State Summary Data Name) (data : Data) (marked : s.validity = .changing) :
      Step s { s with data := data }
  | release (s : State Summary Data Name) (summary : Summary) :
      Step s { s with clock := s.clock + 1, validity := .unknown, summary := summary }
  | enter (s : State Summary Data Name) (name : Name) :
      Step s { s with readers := Function.update s.readers name (some ⟨s.clock, none⟩) }
  | look (s : State Summary Data Name) {name : Name} {r : Reader Data}
      (reads : s.readers name = some r) :
      Step s { s with
        readers := Function.update s.readers name (some ⟨r.ticket, some s.data⟩) }
  | publish (s : State Summary Data Name) {name : Name} {d : Data} (summary : Summary)
      (reads : s.readers name = some ⟨s.clock, some d⟩) (open_ : s.validity = .unknown)
      (summarises : sound summary d) :
      Step s { s with clock := s.clock + 1, validity := .known, summary := summary }

/-- What every interleaving keeps: a ticket that is still current while the summary is unknown
belongs to a reader that saw the present data. -/
structure Inv (s : State Summary Data Name) : Prop where
  known : s.validity = .known → sound s.summary s.data
  tickets : ∀ name r, s.readers name = some r → r.ticket ≤ s.clock
  current : ∀ name r d, s.readers name = some r → r.ticket = s.clock → s.validity = .unknown →
    r.seen = some d → d = s.data

variable {sound} {s t : State Summary Data Name}

lemma Inv.readers (inv : Inv sound s) {name : Name} {r : Reader Data} (ticket : r.ticket ≤ s.clock)
    (seen : ∀ d, r.seen = some d → r.ticket = s.clock → s.validity = .unknown → d = s.data) :
    Inv sound { s with readers := Function.update s.readers name (some r) } := by
  refine ⟨inv.known, ?_, ?_⟩
  · intro ho q reads
    by_cases he : ho = name
    · subst he
      obtain rfl : r = q := by simpa using reads
      exact ticket
    · simp only [Function.update_of_ne he] at reads
      exact inv.tickets ho q reads
  · intro ho q d reads now unknown saw
    by_cases he : ho = name
    · subst he
      obtain rfl : r = q := by simpa using reads
      exact seen d saw now unknown
    · simp only [Function.update_of_ne he] at reads
      exact inv.current ho q d reads now unknown saw

omit [DecidableEq Name] in
/-- Once the clock has advanced no ticket is current. -/
lemma Inv.advance (inv : Inv sound s) {validity : Validity} {summary : Summary}
    (hk : validity = .known → sound summary s.data) :
    Inv sound { s with clock := s.clock + 1, validity := validity, summary := summary } := by
  refine ⟨hk, fun name r reads => Nat.le_succ_of_le (inv.tickets name r reads), ?_⟩
  intro name r d reads now
  have old := inv.tickets name r reads
  exact absurd now (Nat.ne_of_lt (Nat.lt_succ_of_le old))

lemma Step.inv (step : Step sound s t) (inv : Inv sound s) : Inv sound t := by
  cases step with
  | mark summary => exact inv.advance nofun
  | change data marked =>
    refine ⟨fun hk => ?_, inv.tickets, fun name r d reads now unknown => ?_⟩
    · rw [marked] at hk
      cases hk
    · rw [marked] at unknown
      cases unknown
  | release summary => exact inv.advance nofun
  | enter name => exact inv.readers (Nat.le_refl _) (fun d none => nomatch none)
  | look reads =>
    have ticket := inv.tickets _ _ reads
    exact inv.readers ticket (fun d saw _ _ => (Option.some.inj saw).symm)
  | publish summary reads open_ summarises =>
    refine inv.advance (fun _ => ?_)
    rw [← inv.current _ _ _ reads rfl open_ rfl]
    exact summarises

end TicketedCache
