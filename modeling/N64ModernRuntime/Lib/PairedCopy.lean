import Mathlib.Logic.Function.Basic

/-!
# Copies along a list of places

Values are copied one after the other, each from the first place of a pair to the
second.  Where no second place occurs twice, the copy back restores the source.
-/

set_option autoImplicit false

namespace PairedCopy

variable {ι κ α : Type} [DecidableEq κ]

/-- `dst[k] = src[i]` for each pair `(i, k)`. -/
def copy (pairs : List (ι × κ)) (src : ι → α) (dst : κ → α) : κ → α :=
  pairs.foldl (fun dst p => Function.update dst p.2 (src p.1)) dst

theorem copy_cons (p : ι × κ) (pairs : List (ι × κ)) (src : ι → α) (dst : κ → α) :
    copy (p :: pairs) src dst = copy pairs src (Function.update dst p.2 (src p.1)) := rfl

theorem copy_of_notMem {pairs : List (ι × κ)} (src : ι → α) (dst : κ → α) {k : κ}
    (away : k ∉ pairs.map Prod.snd) : copy pairs src dst k = dst k := by
  induction pairs generalizing dst with
  | nil => rfl
  | cons p pairs ih =>
      rw [List.map_cons, List.mem_cons, not_or] at away
      rw [copy_cons, ih _ away.2, Function.update_of_ne away.1]

theorem copy_of_mem {pairs : List (ι × κ)} (distinct : (pairs.map Prod.snd).Nodup) (src : ι → α)
    (dst : κ → α) {p : ι × κ} (mem : p ∈ pairs) : copy pairs src dst p.2 = src p.1 := by
  induction pairs generalizing dst with
  | nil => cases mem
  | cons q pairs ih =>
      rw [List.map_cons, List.nodup_cons] at distinct
      rw [copy_cons]
      rcases List.mem_cons.mp mem with rfl | later
      · rw [copy_of_notMem src _ distinct.1, Function.update_self]
      · exact ih distinct.2 _ later

theorem copy_same {pairs : List (ι × κ)} {src : ι → α} {dst : κ → α}
    (same : ∀ p ∈ pairs, src p.1 = dst p.2) : copy pairs src dst = dst := by
  induction pairs with
  | nil => rfl
  | cons p pairs ih =>
      rw [copy_cons, same p List.mem_cons_self, Function.update_eq_self]
      exact ih fun q mem => same q (List.mem_cons_of_mem p mem)

theorem copy_back [DecidableEq ι] {pairs : List (ι × κ)} (distinct : (pairs.map Prod.snd).Nodup) (src : ι → α)
    (dst : κ → α) : copy (pairs.map Prod.swap) (copy pairs src dst) src = src := by
  apply copy_same
  intro q mem
  obtain ⟨p, copied, rfl⟩ := List.mem_map.mp mem
  exact copy_of_mem distinct src dst copied

end PairedCopy
