import Mathlib.Data.List.Basic
import Mathlib.Data.List.Perm.Basic
import Mathlib.Order.Basic
import Mathlib.Order.Lattice
import Mathlib.Tactic.Common

/-!
# An unsorted list of events, drained earliest first

`best` is one pass over the list for the earliest event that is due.  `drain`
removes the earliest due event again and again and stops at one that is
blocked, whatever stands behind it.
-/

set_option autoImplicit false

namespace DueQueue

variable {ε κ : Type}

/-- The scan from position `i` on, with the best event so far and its position. -/
def bestFrom (due : ε → Bool) (earlier : ε → ε → Bool) : Nat → Option (ε × Nat) → List ε →
    Option (ε × Nat)
  | _, found, [] => found
  | i, found, e :: rest =>
      if due e then
        match found with
        | none => bestFrom due earlier (i + 1) (some (e, i)) rest
        | some (b, place) =>
            bestFrom due earlier (i + 1) (if earlier e b then some (e, i) else some (b, place)) rest
      else bestFrom due earlier (i + 1) found rest

def best (due : ε → Bool) (earlier : ε → ε → Bool) (l : List ε) : Option (ε × Nat) :=
  bestFrom due earlier 0 none l

/-- What is taken out, in that order, and what is left. -/
def drain (due blocked : ε → Bool) (earlier : ε → ε → Bool) : Nat → List ε → List ε × List ε
  | 0, l => ([], l)
  | fuel + 1, l =>
      match best due earlier l with
      | none => ([], l)
      | some (e, i) =>
          if blocked e then ([], l)
          else
            let behind := drain due blocked earlier fuel (l.eraseIdx i)
            (e :: behind.1, behind.2)

/-- The event at the split is due and no due event of the list comes before it;
of several earliest ones it is the first. -/
structure Picked [LT κ] [LE κ] (due : ε → Bool) (key : ε → κ) (pre : List ε) (e : ε)
    (post : List ε) : Prop where
  isDue : due e = true
  first : ∀ x ∈ pre, due x = true → key e < key x
  least : ∀ x ∈ post, due x = true → key e ≤ key x

section Best
variable [LinearOrder κ] {due : ε → Bool} {earlier : ε → ε → Bool} {key : ε → κ}

theorem bestFrom_none : ∀ (l : List ε) (i : Nat),
    bestFrom due earlier i none l = none → ∀ x ∈ l, due x = false := by
  intro l
  induction l with
  | nil => intro i _ x member; simp at member
  | cons e rest ih =>
      intro i found x member
      cases isDue : due e with
      | true =>
          simp only [bestFrom, isDue, if_true] at found
          -- a scan that has found something keeps something
          have keeps : ∀ (l : List ε) (i : Nat) (b : ε × Nat),
              bestFrom due earlier i (some b) l ≠ none := by
            intro l
            induction l with
            | nil => intro i b; simp [bestFrom]
            | cons e rest ih =>
                intro i b
                simp only [bestFrom]
                split
                · split
                  · exact ih _ _
                  · exact ih _ _
                · exact ih _ _
          exact absurd found (keeps rest _ _)
      | false =>
          simp only [bestFrom, isDue, Bool.false_eq_true, if_false] at found
          rcases List.mem_cons.mp member with rfl | member
          · exact isDue
          · exact ih _ found x member

/-- The scan with something found: the found event, or one behind it that is earlier. -/
theorem bestFrom_some (compares : ∀ a b, earlier a b = true ↔ key a < key b) :
    ∀ (post pre mid : List ε) (b : ε), due b = true →
      (∀ x ∈ pre, due x = true → key b < key x) → (∀ x ∈ mid, due x = true → key b ≤ key x) →
      ∃ pre' e post', pre ++ b :: mid ++ post = pre' ++ e :: post' ∧
        bestFrom due earlier (pre ++ b :: mid).length (some (b, pre.length)) post =
          some (e, pre'.length) ∧ Picked due key pre' e post' := by
  intro post
  induction post with
  | nil =>
      intro pre mid b isDue first least
      exact ⟨pre, b, mid, by simp, rfl, isDue, first, least⟩
  | cons e rest ih =>
      intro pre mid b isDue first least
      have step : (pre ++ b :: mid).length + 1 = (pre ++ b :: (mid ++ [e])).length := by
        simp only [List.length_append, List.length_cons, List.length_nil]
        omega
      have shift : pre ++ b :: mid ++ e :: rest = pre ++ b :: (mid ++ [e]) ++ rest := by simp
      cases eDue : due e with
      | false =>
          have least' : ∀ x ∈ mid ++ [e], due x = true → key b ≤ key x := by
            intro x member xDue
            rcases List.mem_append.mp member with member | member
            · exact least x member xDue
            · rw [List.mem_singleton.mp member, eDue] at xDue
              contradiction
          obtain ⟨pre', c, post', split, found, picked⟩ := ih pre (mid ++ [e]) b isDue first least'
          refine ⟨pre', c, post', shift.trans split, ?_, picked⟩
          simp only [bestFrom, eDue, Bool.false_eq_true, if_false]
          rw [step]
          exact found
      | true =>
          simp only [bestFrom, eDue, if_true]
          cases sooner : earlier e b with
          | true =>
              have less := (compares e b).mp sooner
              have first' : ∀ x ∈ pre ++ b :: mid, due x = true → key e < key x := by
                intro x member xDue
                rcases List.mem_append.mp member with member | member
                · exact lt_trans less (first x member xDue)
                · rcases List.mem_cons.mp member with rfl | member
                  · exact less
                  · exact lt_of_lt_of_le less (least x member xDue)
              obtain ⟨pre', c, post', split, found, picked⟩ :=
                ih (pre ++ b :: mid) [] e eDue first' (by simp)
              refine ⟨pre', c, post', ?_, ?_, picked⟩
              · rw [← split]
                simp
              · have length : (pre ++ b :: mid).length + 1 = (pre ++ b :: mid ++ [e]).length := by
                  simp only [List.length_append, List.length_cons, List.length_nil]
                rw [if_pos rfl, length]
                exact found
          | false =>
              have notLess : key b ≤ key e := by
                by_contra less
                rw [(compares e b).mpr (lt_of_not_ge less)] at sooner
                contradiction
              have least' : ∀ x ∈ mid ++ [e], due x = true → key b ≤ key x := by
                intro x member xDue
                rcases List.mem_append.mp member with member | member
                · exact least x member xDue
                · rw [List.mem_singleton.mp member]
                  exact notLess
              obtain ⟨pre', c, post', split, found, picked⟩ :=
                ih pre (mid ++ [e]) b isDue first least'
              refine ⟨pre', c, post', shift.trans split, ?_, picked⟩
              rw [step]
              exact found

theorem bestFrom_found (compares : ∀ a b, earlier a b = true ↔ key a < key b) :
    ∀ (post pre : List ε), (∀ x ∈ pre, due x = false) → ∀ e i,
      bestFrom due earlier pre.length none post = some (e, i) →
        ∃ pre' post', pre ++ post = pre' ++ e :: post' ∧ i = pre'.length ∧
          Picked due key pre' e post' := by
  intro post
  induction post with
  | nil => intro pre _ e i found; simp [bestFrom] at found
  | cons b rest ih =>
      intro pre none_due e i found
      cases bDue : due b with
      | false =>
          simp only [bestFrom, bDue, Bool.false_eq_true, if_false] at found
          have next : pre.length + 1 = (pre ++ [b]).length := by simp
          rw [next] at found
          have none_due' : ∀ x ∈ pre ++ [b], due x = false := by
            intro x member
            rcases List.mem_append.mp member with member | member
            · exact none_due x member
            · rw [List.mem_singleton.mp member]
              exact bDue
          obtain ⟨pre', post', split, place, picked⟩ := ih (pre ++ [b]) none_due' e i found
          exact ⟨pre', post', by rw [← split]; simp, place, picked⟩
      | true =>
          simp only [bestFrom, bDue, if_true] at found
          have first : ∀ x ∈ pre, due x = true → key b < key x := by
            intro x member xDue
            rw [none_due x member] at xDue
            contradiction
          obtain ⟨pre', c, post', split, ended, picked⟩ :=
            bestFrom_some compares rest pre [] b bDue first (by simp)
          have same : bestFrom due earlier (pre.length + 1) (some (b, pre.length)) rest =
              some (c, pre'.length) := by
            rw [← ended]
            simp
          rw [same] at found
          cases Option.some.inj found
          exact ⟨pre', post', by rw [← split]; simp, rfl, picked⟩

theorem best_some (compares : ∀ a b, earlier a b = true ↔ key a < key b) {l : List ε} {e : ε}
    {i : Nat} (found : best due earlier l = some (e, i)) :
    ∃ pre post, l = pre ++ e :: post ∧ i = pre.length ∧ Picked due key pre e post := by
  obtain ⟨pre, post, split, place, picked⟩ :=
    bestFrom_found compares l [] (by simp) e i found
  exact ⟨pre, post, by simpa using split, place, picked⟩

theorem best_none {l : List ε} (found : best due earlier l = none) : ∀ x ∈ l, due x = false :=
  bestFrom_none l 0 found

theorem Picked.unique {pre pre' post post' : List ε} {e e' : ε} (picked : Picked due key pre e post)
    (picked' : Picked due key pre' e' post') (same : pre ++ e :: post = pre' ++ e' :: post') :
    pre = pre' ∧ e = e' ∧ post = post' := by
  rcases List.append_eq_append_iff.mp same with ⟨mid, longer, rest⟩ | ⟨mid, longer, rest⟩
  · cases mid with
    | nil =>
        obtain ⟨head, tail⟩ := List.cons.inj rest
        exact ⟨by simpa using longer.symm, head, tail⟩
    | cons x mid =>
        obtain ⟨head, tail⟩ := List.cons.inj rest
        have before := picked'.first e (by rw [longer, head]; simp) picked.isDue
        have behind := picked.least e' (by rw [tail]; simp) picked'.isDue
        exact absurd before (not_lt_of_ge behind)
  · cases mid with
    | nil =>
        obtain ⟨head, tail⟩ := List.cons.inj rest
        exact ⟨by simpa using longer, head.symm, tail.symm⟩
    | cons x mid =>
        obtain ⟨head, tail⟩ := List.cons.inj rest
        have before := picked.first e' (by rw [longer, head]; simp) picked'.isDue
        have behind := picked'.least e (by rw [tail]; simp) picked.isDue
        exact absurd before (not_lt_of_ge behind)

end Best

section Drain
variable [LinearOrder κ] {due blocked : ε → Bool} {earlier : ε → ε → Bool} {key : ε → κ}

/-- No event is lost or doubled. -/
theorem drain_perm (compares : ∀ a b, earlier a b = true ↔ key a < key b) :
    ∀ (fuel : Nat) (l : List ε), ((drain due blocked earlier fuel l).1 ++
      (drain due blocked earlier fuel l).2).Perm l := by
  intro fuel
  induction fuel with
  | zero => intro l; exact List.Perm.refl _
  | succ fuel ih =>
      intro l
      simp only [drain]
      split
      · exact List.Perm.refl _
      · rename_i e i found
        split
        · exact List.Perm.refl _
        · obtain ⟨pre, post, rfl, rfl, -⟩ := best_some compares found
          have rest := ih ((pre ++ e :: post).eraseIdx pre.length)
          rw [List.eraseIdx_append_of_length_le (Nat.le_refl _), Nat.sub_self, List.eraseIdx_cons_zero]
            at rest ⊢
          exact (rest.cons e).trans List.perm_middle.symm

/-- Only due events that are not blocked come out. -/
theorem drain_ready (compares : ∀ a b, earlier a b = true ↔ key a < key b) :
    ∀ (fuel : Nat) (l : List ε), ∀ x ∈ (drain due blocked earlier fuel l).1,
      x ∈ l ∧ due x = true ∧ blocked x = false := by
  intro fuel
  induction fuel with
  | zero => intro l x member; simp [drain] at member
  | succ fuel ih =>
      intro l x member
      simp only [drain] at member
      split at member
      · simp at member
      · rename_i e i found
        split at member
        · simp at member
        · rename_i free
          obtain ⟨pre, post, rfl, rfl, picked⟩ := best_some compares found
          rcases List.mem_cons.mp member with rfl | member
          · exact ⟨by simp, picked.isDue, by simpa using free⟩
          · obtain ⟨inRest, ready⟩ := ih _ x member
            exact ⟨List.mem_of_mem_eraseIdx inRest, ready⟩

/-- The events come out in the order of their keys. -/
theorem drain_sorted (compares : ∀ a b, earlier a b = true ↔ key a < key b) :
    ∀ (fuel : Nat) (l : List ε),
      (drain due blocked earlier fuel l).1.Pairwise fun a b => key a ≤ key b := by
  intro fuel
  induction fuel with
  | zero => intro l; exact List.Pairwise.nil
  | succ fuel ih =>
      intro l
      simp only [drain]
      split
      · exact List.Pairwise.nil
      · rename_i e i found
        split
        · exact List.Pairwise.nil
        · refine List.pairwise_cons.mpr ⟨?_, ih _⟩
          intro x member
          obtain ⟨pre, post, rfl, rfl, picked⟩ := best_some compares found
          obtain ⟨inRest, xDue, -⟩ := drain_ready compares fuel _ x member
          rcases List.mem_append.mp (List.mem_of_mem_eraseIdx inRest) with inPre | inPost
          · exact le_of_lt (picked.first x inPre xDue)
          · rcases List.mem_cons.mp inPost with rfl | inPost
            · exact le_refl _
            · exact picked.least x inPost xDue

/-- Nothing comes out exactly when the scan finds nothing or a blocked event. -/
theorem drain_nil_iff (fuel : Nat) (l : List ε) :
    (drain due blocked earlier (fuel + 1) l).1 = [] ↔
      ∀ e i, best due earlier l = some (e, i) → blocked e = true := by
  simp only [drain]
  cases found : best due earlier l with
  | none => simp
  | some picked =>
      obtain ⟨e, i⟩ := picked
      cases stuck : blocked e <;> simp [stuck]

end Drain

end DueQueue
