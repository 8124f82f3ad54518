import Mathlib.Logic.Function.Basic

/-!
# Logs of writes

A store after a log of writes, the oldest first.  A place holds what was last
written there; where all writes to it agree, their order does not matter.
-/

set_option autoImplicit false

namespace WriteLog

variable {κ β : Type} [DecidableEq κ]

def writeAll (store : κ → β) (log : List (κ × β)) : κ → β :=
  log.foldl (fun store write => Function.update store write.1 write.2) store

section Rules
variable {store : κ → β} {log : List (κ × β)} {place : κ} {value : β}

@[simp] theorem writeAll_nil : writeAll store [] = store := rfl

theorem writeAll_cons (write : κ × β) (rest : List (κ × β)) :
    writeAll store (write :: rest) =
      writeAll (Function.update store write.1 write.2) rest := rfl

theorem writeAll_append (older newer : List (κ × β)) :
    writeAll store (older ++ newer) = writeAll (writeAll store older) newer :=
  List.foldl_append

theorem writeAll_unwritten (unwritten : ∀ write ∈ log, write.1 ≠ place) :
    writeAll store log place = store place := by
  induction log generalizing store with
  | nil => rfl
  | cons write rest ih =>
      rw [writeAll_cons, ih fun other mem => unwritten other (List.mem_cons_of_mem write mem)]
      exact Function.update_of_ne (unwritten write List.mem_cons_self).symm _ _

/-- What a place holds was there before or is in the log. -/
theorem writeAll_cases (store : κ → β) (log : List (κ × β)) (place : κ) :
    (∀ write ∈ log, write.1 ≠ place) ∧ writeAll store log place = store place ∨
      (place, writeAll store log place) ∈ log := by
  induction log generalizing store with
  | nil => exact .inl ⟨fun _ mem => absurd mem List.not_mem_nil, rfl⟩
  | cons write rest ih =>
      rw [writeAll_cons]
      rcases ih (Function.update store write.1 write.2) with ⟨unwritten, old⟩ | new
      · by_cases here : write.1 = place
        · right
          rw [old, ← here, Function.update_self]
          exact List.mem_cons_self
        · left
          rw [old, Function.update_of_ne (Ne.symm here)]
          refine ⟨?_, rfl⟩
          rintro other mem
          rcases List.mem_cons.mp mem with rfl | mem
          · exact here
          · exact unwritten other mem
      · exact .inr (List.mem_cons_of_mem write new)

theorem writeAll_agree (written : ∃ write ∈ log, write.1 = place)
    (agree : ∀ write ∈ log, write.1 = place → write.2 = value) :
    writeAll store log place = value := by
  rcases writeAll_cases store log place with
    ⟨unwritten, -⟩ | here
  · obtain ⟨write, mem, same⟩ := written
    exact absurd same (unwritten write mem)
  · exact agree _ here rfl

end Rules

/-- What every round of a counted loop carries on holds after the last one. -/
theorem counted_loop {σ : Type} {n : Nat} (body : σ → Fin n → σ) (invariant : Nat → σ → Prop)
    {s : σ} (start : invariant 0 s)
    (round : ∀ (i : Fin n) (s : σ), invariant i s → invariant (i + 1) (body s i)) :
    invariant n ((List.finRange n).foldl body s) := by
  induction n with
  | zero => exact start
  | succ n ih =>
      rw [List.finRange_succ_last, List.foldl_append, List.foldl_map]
      exact round (Fin.last n) _ (ih _ fun i s => round i.castSucc s)

end WriteLog
