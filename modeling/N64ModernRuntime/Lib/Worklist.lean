import Mathlib.Data.Finset.Card
import Mathlib.Logic.Relation

/-!
# Marking what a graph reaches with a worklist

A vertex is marked before it is pushed, so it is pushed at most once.  Vertices
that were marked earlier are not looked at again: the result is right only if
all their successors were marked as well.  `found` keeps the edge over which
each vertex was marked.
-/

set_option autoImplicit false

namespace Worklist

variable {ι : Type} [DecidableEq ι]

structure State (ι : Type) where
  marked : Finset ι
  pending : List ι
  found : List (ι × ι)

def State.mark (parent : ι) (s : State ι) (x : ι) : State ι :=
  if x ∈ s.marked then s
  else
    { marked := insert x s.marked
      pending := x :: s.pending
      found := s.found ++ [(parent, x)] }

def State.visit (next : ι → List ι) (s : State ι) : State ι :=
  match s.pending with
  | [] => s
  | x :: rest => (next x).foldl (State.mark x) { s with pending := rest }

def run (next : ι → List ι) : Nat → State ι → State ι
  | 0, s => s
  | n + 1, s => run next n (s.visit next)

def Edge (next : ι → List ι) (x y : ι) : Prop := y ∈ next x

/-! ## Marking the successors of one vertex -/

section Marks

variable (parent : ι) (xs : List ι) (s : State ι)

theorem mem_marked_mark (x y : ι) :
    y ∈ (s.mark parent x).marked ↔ y ∈ s.marked ∨ y = x := by
  unfold State.mark
  by_cases old : x ∈ s.marked
  · rw [if_pos old]
    constructor
    · exact .inl
    · rintro (marked | rfl)
      · exact marked
      · exact old
  · rw [if_neg old, Finset.mem_insert, or_comm]

theorem mem_marked_marks (y : ι) :
    y ∈ (xs.foldl (State.mark parent) s).marked ↔ y ∈ s.marked ∨ y ∈ xs := by
  induction xs generalizing s with
  | nil => simp
  | cons x rest ih =>
      rw [List.foldl_cons, ih, mem_marked_mark, List.mem_cons, or_assoc]

theorem mem_pending_mark (x y : ι) :
    y ∈ (s.mark parent x).pending ↔ y ∈ s.pending ∨ y = x ∧ x ∉ s.marked := by
  unfold State.mark
  by_cases old : x ∈ s.marked
  · simp [old]
  · simp [old, or_comm]

theorem mem_pending_marks (y : ι) :
    y ∈ (xs.foldl (State.mark parent) s).pending
      ↔ y ∈ s.pending ∨ y ∈ xs ∧ y ∉ s.marked := by
  induction xs generalizing s with
  | nil => simp
  | cons x rest ih =>
      rw [List.foldl_cons, ih, mem_pending_mark, mem_marked_mark, List.mem_cons]
      by_cases same : y = x
      · subst same
        by_cases old : y ∈ s.marked <;> simp [old]
      · simp [same]

/-- What is still to be done: an unmarked vertex may be pushed and popped. -/
def State.size (all : Finset ι) (s : State ι) : Nat :=
  2 * (all \ s.marked).card + s.pending.length

theorem size_mark {all : Finset ι} {x : ι} (inside : x ∈ all) :
    (s.mark parent x).size all ≤ s.size all := by
  unfold State.mark
  by_cases old : x ∈ s.marked
  · rw [if_pos old]
  · rw [if_neg old]
    have smaller : (all \ insert x s.marked).card + 1 ≤ (all \ s.marked).card := by
      refine Finset.card_lt_card (Finset.ssubset_iff_of_subset ?_ |>.mpr ⟨x, ?_, ?_⟩)
      · exact Finset.sdiff_subset_sdiff (Finset.Subset.refl _) (Finset.subset_insert x s.marked)
      · exact Finset.mem_sdiff.mpr ⟨inside, old⟩
      · simp
    simp only [State.size, List.length_cons]
    omega

theorem size_marks {all : Finset ι} (inside : ∀ x ∈ xs, x ∈ all) :
    (xs.foldl (State.mark parent) s).size all ≤ s.size all := by
  induction xs generalizing s with
  | nil => exact Nat.le_refl _
  | cons x rest ih =>
      rw [List.foldl_cons]
      have first := size_mark parent s (inside x List.mem_cons_self)
      have others := ih (s.mark parent x) fun y hy => inside y (List.mem_cons_of_mem x hy)
      exact Nat.le_trans others first

end Marks

/-! ## The loop ends -/

section Runs

variable {next : ι → List ι}

theorem visit_of_pending {s : State ι} {x : ι} {rest : List ι} (pending : s.pending = x :: rest) :
    s.visit next = (next x).foldl (State.mark x) { s with pending := rest } := by
  simp only [State.visit, pending]

theorem visit_done {s : State ι} (done : s.pending = []) : s.visit next = s := by
  simp only [State.visit, done]

theorem run_done {s : State ι} (done : s.pending = []) (n : Nat) : run next n s = s := by
  induction n with
  | zero => rfl
  | succ n ih => rw [run, visit_done done, ih]

theorem size_visit {all : Finset ι} (inside : ∀ x, ∀ y ∈ next x, y ∈ all)
    {s : State ι} (more : s.pending ≠ []) :
    (s.visit next).size all < s.size all := by
  obtain ⟨x, rest, pending⟩ := List.exists_cons_of_ne_nil more
  rw [visit_of_pending pending]
  have marks := size_marks x (next x) { s with pending := rest } (inside x)
  simp only [State.size, pending, List.length_cons] at marks ⊢
  omega

/-- With fuel for every vertex that is not marked the worklist is empty at the end. -/
theorem run_ends {all : Finset ι} (inside : ∀ x, ∀ y ∈ next x, y ∈ all)
    (n : Nat) (s : State ι) (enough : s.size all ≤ n) : (run next n s).pending = [] := by
  induction n generalizing s with
  | zero =>
      simp only [State.size] at enough
      have none_waits : s.pending.length = 0 := by omega
      exact List.length_eq_zero_iff.mp none_waits
  | succ n ih =>
      by_cases done : s.pending = []
      · rw [run_done done, done]
      · have less := size_visit inside done
        exact ih _ (by omega)

/-! ## What is marked at the end -/

def State.Explored (next : ι → List ι) (s : State ι) (x : ι) : Prop :=
  x ∈ s.pending ∨ ∀ y ∈ next x, y ∈ s.marked

theorem marked_visit {s : State ι} {x : ι} (marked : x ∈ s.marked) :
    x ∈ (s.visit next).marked := by
  cases pending : s.pending with
  | nil => rwa [visit_done pending]
  | cons head rest =>
      rw [visit_of_pending pending]
      exact (mem_marked_marks head _ _ x).mpr (.inl marked)

theorem explored_visit {s : State ι} {x : ι} (explored : s.Explored next x) :
    (s.visit next).Explored next x := by
  cases pending : s.pending with
  | nil => rwa [visit_done pending]
  | cons head rest =>
      rcases explored with waits | closed
      · rw [pending] at waits
        rw [visit_of_pending pending]
        rcases List.mem_cons.mp waits with rfl | waits
        · exact .inr fun y hy => (mem_marked_marks x _ _ y).mpr (.inr hy)
        · exact .inl ((mem_pending_marks head _ _ x).mpr (.inl waits))
      · exact .inr fun y hy => marked_visit (closed y hy)

theorem new_explored_visit {s : State ι} {x : ι} (marked : x ∈ (s.visit next).marked)
    (new : x ∉ s.marked) : (s.visit next).Explored next x := by
  cases pending : s.pending with
  | nil => exact absurd ((visit_done pending) ▸ marked) new
  | cons head rest =>
      rw [visit_of_pending pending] at marked ⊢
      have successor := ((mem_marked_marks head _ _ x).mp marked).resolve_left new
      exact .inl ((mem_pending_marks head _ _ x).mpr (.inr ⟨successor, new⟩))

theorem marked_run {s : State ι} {x : ι} (marked : x ∈ s.marked) (n : Nat) :
    x ∈ (run next n s).marked := by
  induction n generalizing s with
  | zero => exact marked
  | succ n ih => exact ih (marked_visit marked)

theorem explored_run {s : State ι} {x : ι} (explored : s.Explored next x) (n : Nat) :
    (run next n s).Explored next x := by
  induction n generalizing s with
  | zero => exact explored
  | succ n ih => exact ih (explored_visit explored)

theorem new_explored_run {s : State ι} {x : ι} (n : Nat) (marked : x ∈ (run next n s).marked)
    (new : x ∉ s.marked) : (run next n s).Explored next x := by
  induction n generalizing s with
  | zero => exact absurd marked new
  | succ n ih =>
      by_cases first : x ∈ (s.visit next).marked
      · exact explored_run (new_explored_visit first new) n
      · exact ih marked first

structure State.Sound (next : ι → List ι) (old : Finset ι) (roots : List ι) (s : State ι) :
    Prop where
  marked : ∀ x ∈ s.marked, x ∈ old ∨ ∃ p ∈ roots, Relation.TransGen (Edge next) p x
  pending : ∀ x ∈ s.pending, x ∈ roots ∨ ∃ p ∈ roots, Relation.TransGen (Edge next) p x

omit [DecidableEq ι] in
theorem State.sound_start (s : State ι) : s.Sound next s.marked s.pending :=
  ⟨fun _ => .inl, fun _ => .inl⟩

theorem sound_visit {old : Finset ι} {roots : List ι} {s : State ι}
    (sound : s.Sound next old roots) : (s.visit next).Sound next old roots := by
  cases pending : s.pending with
  | nil => rwa [visit_done pending]
  | cons head rest =>
      rw [visit_of_pending pending]
      have below : ∀ y ∈ next head, ∃ p ∈ roots, Relation.TransGen (Edge next) p y := by
        intro y edge
        rcases sound.pending head (pending ▸ List.mem_cons_self) with root | ⟨p, root, path⟩
        · exact ⟨head, root, .single edge⟩
        · exact ⟨p, root, path.tail edge⟩
      constructor
      · intro x marked
        rcases (mem_marked_marks head _ _ x).mp marked with before | successor
        · exact sound.marked x before
        · exact .inr (below x successor)
      · intro x waits
        rcases (mem_pending_marks head _ _ x).mp waits with before | ⟨successor, -⟩
        · exact sound.pending x (pending ▸ List.mem_cons_of_mem head before)
        · exact .inr (below x successor)

theorem sound_run {old : Finset ι} {roots : List ι} {s : State ι}
    (sound : s.Sound next old roots) (n : Nat) : (run next n s).Sound next old roots := by
  induction n generalizing s with
  | zero => exact sound
  | succ n ih => exact ih (sound_visit sound)

/-- Where everything marked before was explored, a finished run marks exactly
what the waiting vertices reach. -/
theorem mem_marked_run {s : State ι} {n : Nat} (explored : ∀ x ∈ s.marked, s.Explored next x)
    (ends : (run next n s).pending = []) (x : ι) :
    x ∈ (run next n s).marked
      ↔ x ∈ s.marked ∨ ∃ p ∈ s.pending, Relation.TransGen (Edge next) p x := by
  constructor
  · exact (sound_run s.sound_start n).marked x
  · have closed : ∀ y, (run next n s).Explored next y →
        ∀ z ∈ next y, z ∈ (run next n s).marked := by
      intro y done
      rcases done with waits | closed
      · rw [ends] at waits
        contradiction
      · exact closed
    rintro (old | ⟨p, waits, path⟩)
    · exact marked_run old n
    · induction path with
      | single edge => exact closed p (explored_run (.inl waits) n) _ edge
      | @tail y z _ edge marked =>
          refine closed y ?_ z edge
          by_cases old : y ∈ s.marked
          · exact explored_run (explored y old) n
          · exact new_explored_run n marked old

/-! ## The edges over which the vertices were marked -/

/-- `new` lists the edges over which the vertices in `t` but not in `s` were marked. -/
structure Marks (next : ι → List ι) (s t : Finset ι) (new : List (ι × ι)) : Prop where
  fresh : ∀ e ∈ new, e.2 ∉ s
  marked : ∀ x, x ∈ t ↔ x ∈ s ∨ x ∈ new.map Prod.snd
  edge : ∀ e ∈ new, Edge next e.1 e.2

omit [DecidableEq ι] in
theorem Marks.trans {s t u : Finset ι} {new more : List (ι × ι)} (first : Marks next s t new)
    (second : Marks next t u more) : Marks next s u (new ++ more) := by
  refine ⟨?_, ?_, ?_⟩
  · intro e he
    rcases List.mem_append.mp he with here | later
    · exact first.fresh e here
    · exact fun old => second.fresh e later ((first.marked e.2).mpr (.inl old))
  · intro x
    rw [second.marked, first.marked, List.map_append, List.mem_append, or_assoc]
  · intro e he
    rcases List.mem_append.mp he with here | later
    · exact first.edge e here
    · exact second.edge e later

omit [DecidableEq ι] in
theorem Marks.nil (s : Finset ι) : Marks next s s [] := by
  constructor <;> simp

theorem found_mark {parent x : ι} (edge : Edge next parent x) (s : State ι) :
    ∃ new, (s.mark parent x).found = s.found ++ new ∧
      Marks next s.marked (s.mark parent x).marked new ∧ ∀ e ∈ new, e.1 = parent := by
  unfold State.mark
  by_cases old : x ∈ s.marked
  · rw [if_pos old]
    exact ⟨[], (List.append_nil _).symm, .nil _, by simp⟩
  · rw [if_neg old]
    refine ⟨[(parent, x)], rfl, ⟨?_, ?_, ?_⟩, by simp⟩
    · simpa using old
    · intro y
      simp [or_comm]
    · simpa using edge

theorem found_marks {parent : ι} {xs : List ι} (edges : ∀ x ∈ xs, Edge next parent x)
    (s : State ι) :
    ∃ new, (xs.foldl (State.mark parent) s).found = s.found ++ new ∧
      Marks next s.marked (xs.foldl (State.mark parent) s).marked new ∧
      ∀ e ∈ new, e.1 = parent := by
  induction xs generalizing s with
  | nil => exact ⟨[], (List.append_nil _).symm, .nil _, by simp⟩
  | cons x rest ih =>
      obtain ⟨first, found, marks, from₁⟩ := found_mark (edges x List.mem_cons_self) s
      obtain ⟨others, found', marks', from₂⟩ :=
        ih (fun y hy => edges y (List.mem_cons_of_mem x hy)) (s.mark parent x)
      refine ⟨first ++ others, ?_, marks.trans marks', ?_⟩
      · rw [List.foldl_cons, found', found, List.append_assoc]
      · intro e he
        exact (List.mem_append.mp he).elim (from₁ e) (from₂ e)

theorem found_run (n : Nat) (s : State ι) :
    ∃ new, (run next n s).found = s.found ++ new ∧
      Marks next s.marked (run next n s).marked new ∧
      ∀ e ∈ new, e.1 ∈ s.pending ∨ e.1 ∈ new.map Prod.snd := by
  induction n generalizing s with
  | zero => exact ⟨[], (List.append_nil _).symm, .nil _, by simp⟩
  | succ n ih =>
      obtain ⟨later, found', marks', from₂⟩ := ih (s.visit next)
      cases pending : s.pending with
      | nil =>
          rw [visit_done pending] at found' marks' from₂
          rw [run, visit_done pending]
          rw [pending] at from₂
          exact ⟨later, found', marks', from₂⟩
      | cons head rest =>
          obtain ⟨first, found, marks, from₁⟩ :=
            found_marks (fun _ => id) { s with pending := rest }
          rw [visit_of_pending pending] at found' marks' from₂
          rw [run, visit_of_pending pending]
          refine ⟨first ++ later, by rw [found', found, List.append_assoc], marks.trans marks', ?_⟩
          intro e he
          rw [List.map_append]
          rcases List.mem_append.mp he with here | there
          · exact .inl (from₁ e here ▸ List.mem_cons_self)
          · rcases from₂ e there with waits | child
            · rw [mem_pending_marks] at waits
              rcases waits with waits | ⟨successor, new⟩
              · exact .inl (List.mem_cons_of_mem head waits)
              · refine .inr (List.mem_append_left _ ?_)
                have marked := (mem_marked_marks head (next head) { s with pending := rest } e.1).mpr
                  (.inr successor)
                exact ((marks.marked e.1).mp marked).resolve_left new
            · exact .inr (List.mem_append_right _ child)

end Runs

end Worklist
