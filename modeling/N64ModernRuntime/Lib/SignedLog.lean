import Mathlib.Algebra.BigOperators.Group.List.Basic
import Mathlib.Algebra.Ring.Int.Defs
import Mathlib.Tactic.Common

/-!
# Logs of events that raise or lower a count

Each event has a key and raises or lowers the count of that key by one.  A log
keeps a key within zero and one when every prefix of it does.
-/

set_option autoImplicit false

namespace SignedLog

variable {ε κ ι : Type} [DecidableEq κ] (key : ε → κ) (up : ε → Bool)

def eventsOf (k : κ) (log : List ε) : List ε := log.filter fun e => decide (key e = k)

def net (k : κ) (log : List ε) : Int := ((eventsOf key k log).map fun e => if up e then 1 else -1).sum

def Within (k : κ) (log : List ε) : Prop :=
  ∀ p, p <+: log → net key up k p = 0 ∨ net key up k p = 1

theorem eventsOf_append (k : κ) (log more : List ε) :
    eventsOf key k (log ++ more) = eventsOf key k log ++ eventsOf key k more := List.filter_append ..

theorem net_append (k : κ) (log more : List ε) :
    net key up k (log ++ more) = net key up k log + net key up k more := by
  simp only [net, eventsOf_append, List.map_append, List.sum_append]

variable {key up} {k : κ} {log more : List ε}

theorem net_of_no_event (none_at : eventsOf key k log = []) : net key up k log = 0 := by
  simp only [net, none_at, List.map_nil, List.sum_nil]

theorem net_of_one_event {e : ε} (one : eventsOf key k log = [e]) :
    net key up k log = if up e then 1 else -1 := by
  simp only [net, one, List.map_cons, List.map_nil, List.sum_singleton]

theorem within_nil : Within key up k [] := by
  intro p inside
  rw [List.prefix_nil.mp inside]
  exact .inl rfl

theorem Within.net_self (within : Within key up k log) : net key up k log = 0 ∨ net key up k log = 1 :=
  within log (List.prefix_refl log)

theorem eventsOf_prefix {p : List ε} (inside : p <+: log) : eventsOf key k p <+: eventsOf key k log := by
  obtain ⟨rest, rfl⟩ := inside
  exact ⟨eventsOf key k rest, (eventsOf_append key k p rest).symm⟩

/-- With at most one event of the key, a prefix has all of them or none. -/
theorem net_prefix_of_single (few : (eventsOf key k log).length ≤ 1) {p : List ε} (inside : p <+: log) :
    net key up k p = 0 ∨ net key up k p = net key up k log := by
  have at_inside : eventsOf key k p <+: eventsOf key k log := eventsOf_prefix inside
  by_cases none_at : eventsOf key k p = []
  · exact .inl (net_of_no_event none_at)
  · have some_at : 0 < (eventsOf key k p).length := List.length_pos_iff.mpr none_at
    have same : eventsOf key k p = eventsOf key k log := at_inside.eq_of_length_le (by omega)
    exact .inr (by rw [net, same, net])

theorem Within.append (within : Within key up k log) (few : (eventsOf key k more).length ≤ 1)
    (ends : net key up k (log ++ more) = 0 ∨ net key up k (log ++ more) = 1) :
    Within key up k (log ++ more) := by
  rintro p ⟨rest, split⟩
  rcases List.append_eq_append_iff.mp split with ⟨between, rfl, -⟩ | ⟨later, rfl, rfl⟩
  · exact within p (List.prefix_append p between)
  · rw [net_append] at ends ⊢
    rcases net_prefix_of_single few (List.prefix_append later rest) with zero | all
    · rw [zero, add_zero]
      exact within.net_self
    · rw [all]
      exact ends

/-! ## Events gathered over a list without repetitions -/

theorem eventsOf_flatMap_nil {xs : List ι} {f : ι → List ε} (others : ∀ x ∈ xs, eventsOf key k (f x) = []) :
    eventsOf key k (xs.flatMap f) = [] := by
  induction xs with
  | nil => rfl
  | cons x rest ih =>
      rw [List.flatMap_cons, eventsOf_append, others x List.mem_cons_self,
        ih fun y hy => others y (List.mem_cons_of_mem x hy), List.append_nil]

theorem eventsOf_flatMap_single {xs : List ι} (distinct : xs.Nodup) {f : ι → List ε} {x : ι}
    (listed : x ∈ xs) (others : ∀ y ∈ xs, y ≠ x → eventsOf key k (f y) = []) :
    eventsOf key k (xs.flatMap f) = eventsOf key k (f x) := by
  obtain ⟨before, after, rfl⟩ := List.append_of_mem listed
  rw [List.nodup_append, List.nodup_cons] at distinct
  obtain ⟨-, ⟨not_after, -⟩, apart⟩ := distinct
  have none_before : eventsOf key k (before.flatMap f) = [] := eventsOf_flatMap_nil fun y hy =>
    others y (List.mem_append_left _ hy) (apart y hy x List.mem_cons_self)
  have none_after : eventsOf key k (after.flatMap f) = [] := eventsOf_flatMap_nil fun y hy =>
    others y (List.mem_append_right _ (List.mem_cons_of_mem x hy)) fun same => not_after (same ▸ hy)
  rw [List.flatMap_append, List.flatMap_cons, eventsOf_append, eventsOf_append, none_before, none_after,
    List.nil_append, List.append_nil]

end SignedLog
