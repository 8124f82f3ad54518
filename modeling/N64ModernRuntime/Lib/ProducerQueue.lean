import Mathlib.Data.List.Perm.Basic
import Mathlib.Tactic.Common

/-!
# Concurrent queues that are first-in first-out per producer

A consumer may take any element that no earlier element of the same producer
stands in front of; elements of different producers are not ordered.
-/

set_option autoImplicit false

namespace ProducerQueue

variable {π α : Type}

structure Element (π α : Type) where
  producer : π
  item : α

abbrev Queue (π α : Type) := List (Element π α)

def Queue.enqueue (queue : Queue π α) (p : π) (x : α) : Queue π α := queue ++ [⟨p, x⟩]

def Queue.items (queue : Queue π α) : List α := queue.map Element.item

theorem items_enqueue (queue : Queue π α) (p : π) (x : α) :
    (queue.enqueue p x).items = queue.items ++ [x] := by
  simp [Queue.items, Queue.enqueue]

variable [DecidableEq π]

/-- Takes the element at position `i`, where the order of its producer allows it. -/
def Queue.dequeue (queue : Queue π α) (i : Nat) : Option (Element π α × Queue π α) :=
  match queue[i]? with
  | none => none
  | some e =>
      if (queue.take i).all fun earlier => decide (earlier.producer ≠ e.producer) then
        some (e, queue.eraseIdx i)
      else none

def Queue.ofProducer (queue : Queue π α) (p : π) : List α :=
  (queue.filter fun e => decide (e.producer = p)).map Element.item

section Dequeue
variable {queue rest : Queue π α} {e : Element π α} {i : Nat}

theorem dequeue_split (taken : queue.dequeue i = some (e, rest)) :
    ∃ before after, queue = before ++ e :: after ∧ rest = before ++ after ∧
      ∀ earlier ∈ before, earlier.producer ≠ e.producer := by
  unfold Queue.dequeue at taken
  split at taken
  · contradiction
  · rename_i found at_i
    split at taken
    · rename_i free
      obtain ⟨rfl, rfl⟩ := Prod.mk.inj (Option.some.inj taken)
      obtain ⟨below, rfl⟩ := List.getElem?_eq_some_iff.mp at_i
      refine ⟨queue.take i, queue.drop (i + 1), ?_, List.eraseIdx_eq_take_drop_succ queue i, ?_⟩
      · rw [← List.drop_eq_getElem_cons below]
        exact (List.take_append_drop i queue).symm
      · intro earlier member
        simpa using List.all_eq_true.mp free earlier member
    · contradiction

theorem dequeue_perm (taken : queue.dequeue i = some (e, rest)) :
    queue.items.Perm (e.item :: rest.items) := by
  obtain ⟨before, after, rfl, rfl, _⟩ := dequeue_split taken
  simp only [Queue.items, List.map_append, List.map_cons]
  exact List.perm_middle

theorem dequeue_ofProducer_self (taken : queue.dequeue i = some (e, rest)) :
    queue.ofProducer e.producer = e.item :: rest.ofProducer e.producer := by
  obtain ⟨before, after, rfl, rfl, others⟩ := dequeue_split taken
  have skipped : before.filter (fun x => decide (x.producer = e.producer)) = [] :=
    List.filter_eq_nil_iff.mpr fun x member => by simpa using others x member
  simp [Queue.ofProducer, List.filter_append, skipped]

theorem dequeue_ofProducer_other (taken : queue.dequeue i = some (e, rest)) {p : π}
    (other : e.producer ≠ p) : rest.ofProducer p = queue.ofProducer p := by
  obtain ⟨before, after, rfl, rfl, _⟩ := dequeue_split taken
  simp [Queue.ofProducer, List.filter_append, other]

/-- Whoever was served, the rest of a producer's elements stays a suffix. -/
theorem dequeue_suffix (taken : queue.dequeue i = some (e, rest)) (p : π) :
    rest.ofProducer p <:+ queue.ofProducer p := by
  by_cases mine : e.producer = p
  · rw [← mine, dequeue_ofProducer_self taken]
    exact List.suffix_cons _ _
  · have same := dequeue_ofProducer_other taken mine
    exact same ▸ List.suffix_refl _

end Dequeue

section Enqueue
variable (queue : Queue π α) (x : α) {p q : π}

theorem ofProducer_enqueue_self : (queue.enqueue p x).ofProducer p = queue.ofProducer p ++ [x] := by
  simp [Queue.ofProducer, Queue.enqueue, List.filter_append]

theorem ofProducer_enqueue_other (other : p ≠ q) :
    (queue.enqueue p x).ofProducer q = queue.ofProducer q := by
  simp [Queue.ofProducer, Queue.enqueue, List.filter_append, other]

theorem mem_ofProducer {y : α} :
    y ∈ queue.ofProducer p ↔ ∃ e ∈ queue, e.producer = p ∧ e.item = y := by
  simp [Queue.ofProducer, and_assoc]

end Enqueue

section Transfer
variable {β : Type}

/-- Of what `f` accepts, the consumer has taken from each producer the oldest
submissions, in their order, and the others are in the queue. -/
def Transfers (f : α → Option β) (queue : Queue π α) (taken submitted : Queue π β) : Prop :=
  ∀ p, taken.ofProducer p ++ (queue.ofProducer p).filterMap f = submitted.ofProducer p

variable {f : α → Option β} {queue rest : Queue π α} {taken submitted : Queue π β}

theorem Transfers.enqueue (transfers : Transfers f queue taken submitted) (p : π) {x : α} {y : β}
    (accepted : f x = some y) :
    Transfers f (queue.enqueue p x) taken (submitted.enqueue p y) := by
  intro q
  have before := transfers q
  by_cases mine : p = q
  · subst mine
    rw [ofProducer_enqueue_self, ofProducer_enqueue_self, ← before]
    simp [List.filterMap_append, accepted]
  · rw [ofProducer_enqueue_other _ _ mine, ofProducer_enqueue_other _ _ mine]
    exact before

theorem Transfers.enqueue_other (transfers : Transfers f queue taken submitted) (p : π) {x : α}
    (ignored : f x = none) : Transfers f (queue.enqueue p x) taken submitted := by
  intro q
  have before := transfers q
  by_cases mine : p = q
  · subst mine
    rw [ofProducer_enqueue_self, ← before]
    simp [List.filterMap_append, ignored]
  · rw [ofProducer_enqueue_other _ _ mine]
    exact before

theorem Transfers.dequeue (transfers : Transfers f queue taken submitted) {i : Nat}
    {e : Element π α} (served : queue.dequeue i = some (e, rest)) {y : β}
    (accepted : f e.item = some y) :
    Transfers f rest (taken.enqueue e.producer y) submitted := by
  intro q
  have before := transfers q
  by_cases mine : e.producer = q
  · subst mine
    rw [dequeue_ofProducer_self served] at before
    rw [ofProducer_enqueue_self, ← before]
    simp [accepted]
  · rw [ofProducer_enqueue_other _ _ mine, dequeue_ofProducer_other served mine]
    exact before

theorem Transfers.dequeue_other (transfers : Transfers f queue taken submitted) {i : Nat}
    {e : Element π α} (served : queue.dequeue i = some (e, rest)) (ignored : f e.item = none) :
    Transfers f rest taken submitted := by
  intro q
  have before := transfers q
  by_cases mine : e.producer = q
  · subst mine
    rw [dequeue_ofProducer_self served, List.filterMap_cons_none ignored] at before
    exact before
  · rw [dequeue_ofProducer_other served mine]
    exact before

theorem mem_items {y : α} : y ∈ queue.items ↔ ∃ p, y ∈ queue.ofProducer p := by
  simp [Queue.items, mem_ofProducer]

theorem Transfers.mem (transfers : Transfers f queue taken submitted) {y : β}
    (member : y ∈ taken.items) : y ∈ submitted.items := by
  obtain ⟨p, mine⟩ := mem_items.mp member
  refine mem_items.mpr ⟨p, ?_⟩
  rw [← transfers p]
  exact List.mem_append.mpr (.inl mine)

end Transfer

end ProducerQueue
