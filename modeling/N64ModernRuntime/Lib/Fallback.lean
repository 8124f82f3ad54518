import Mathlib.Data.List.Basic

/-!
# Tiers that are tried in order

A call tries its tiers one after the other.  A tier ends the call or leaves a
state to the next tier, and it logs what it acts on.  `v` is what the log is
expected to show: it is read off the state at which a tier begins.
-/

set_option autoImplicit false

namespace Fallback

variable {σ ρ β : Type}

inductive Outcome (σ : Type) where
  | ended (s : σ)
  | next (s : σ)
  /-- The tier has not come back. -/
  | lost

structure Turn (σ ρ : Type) where
  log : List ρ
  outcome : Outcome σ

abbrev Tier (σ ρ : Type) := σ → Turn σ ρ

/-- The tiers in order, each from the state that the one before it leaves. -/
def inOrder : List (Tier σ ρ) → Tier σ ρ
  | [], s => ⟨[], .next s⟩
  | tier :: rest, s =>
    match (tier s).outcome with
    | .next s' => ⟨(tier s).log ++ (inOrder rest s').log, (inOrder rest s').outcome⟩
    | .ended s' => ⟨(tier s).log, .ended s'⟩
    | .lost => ⟨(tier s).log, .lost⟩

theorem inOrder_next {tier : Tier σ ρ} {rest : List (Tier σ ρ)} {s s'' : σ} :
    (inOrder (tier :: rest) s).outcome = .next s''
      ↔ ∃ s', (tier s).outcome = .next s' ∧ (inOrder rest s').outcome = .next s'' := by
  simp only [inOrder]
  cases (tier s).outcome with
  | next s' => simp
  | ended s' => simp
  | lost => simp

section Reads

variable (read : ρ → Option β) (v : σ → β)

def reads (tier : Tier σ ρ) (s : σ) : List β := (tier s).log.filterMap read

/-- The tier reads nothing but the value of the state at which it begins. -/
def Faithful (tier : Tier σ ρ) (s : σ) : Prop := ∀ b ∈ reads read tier s, b = v s

/-- The first thing that the tier reads is the value of the state at which it
begins; a tier that reads nothing leaves the value alone. -/
structure Opens (tier : Tier σ ρ) : Prop where
  first : ∀ s b, (reads read tier s).head? = some b → b = v s
  silent : ∀ s s', reads read tier s = [] → (tier s).outcome = .next s' → v s' = v s

/-- Each tier is faithful, and leaves the value alone where a later tier reads
it. -/
def Steady : List (Tier σ ρ) → σ → Prop
  | [], _ => True
  | tier :: rest, s =>
    Faithful read v tier s ∧
      ∀ s', (tier s).outcome = .next s' →
        (reads read (inOrder rest) s' ≠ [] → v s' = v s) ∧ Steady rest s'

variable {read v} {tier : Tier σ ρ} {rest : List (Tier σ ρ)} {s s' : σ}

theorem next_or_stopped (tier : Tier σ ρ) (s : σ) :
    (∃ s', (tier s).outcome = .next s') ∨ ∀ s', (tier s).outcome ≠ .next s' := by
  by_cases stopped : ∀ s', (tier s).outcome ≠ .next s'
  · exact .inr stopped
  · push Not at stopped
    exact .inl stopped

theorem reads_next (next : (tier s).outcome = .next s') :
    reads read (inOrder (tier :: rest)) s
      = reads read tier s ++ reads read (inOrder rest) s' := by
  simp only [reads, inOrder, next, List.filterMap_append]

theorem reads_stopped (stopped : ∀ s', (tier s).outcome ≠ .next s') :
    reads read (inOrder (tier :: rest)) s = reads read tier s := by
  simp only [reads, inOrder]
  cases out : (tier s).outcome with
  | next s' => exact absurd out (stopped s')
  | ended s' => rfl
  | lost => rfl

theorem reads_cons_ne_nil (own : reads read tier s ≠ []) :
    reads read (inOrder (tier :: rest)) s ≠ [] := by
  rcases next_or_stopped tier s with ⟨s', next⟩ | stopped
  · rw [reads_next next]
    exact List.append_ne_nil_of_left_ne_nil own _
  · rwa [reads_stopped stopped]

theorem reads_singleton : reads read (inOrder [tier]) s = reads read tier s := by
  rcases next_or_stopped tier s with ⟨s', next⟩ | stopped
  · rw [reads_next next]
    exact List.append_nil _
  · exact reads_stopped stopped

theorem opens_inOrder {tiers : List (Tier σ ρ)}
    (opens : ∀ tier ∈ tiers, Opens read v tier) :
    ∀ s b, (reads read (inOrder tiers) s).head? = some b → b = v s := by
  induction tiers with
  | nil => intro s b head; simp [reads, inOrder] at head
  | cons tier rest ih =>
      intro s b head
      have own := opens tier List.mem_cons_self
      have below := ih fun tier among => opens tier (List.mem_cons_of_mem _ among)
      rcases next_or_stopped tier s with ⟨s', next⟩ | stopped
      · rw [reads_next next] at head
        cases mine : reads read tier s with
        | nil =>
            rw [mine, List.nil_append] at head
            rw [below s' b head, own.silent s s' mine next]
        | cons c cs =>
            rw [mine, List.cons_append, List.head?_cons] at head
            exact own.first s b (by rw [mine, List.head?_cons, head])
      · rw [reads_stopped stopped] at head
        exact own.first s b head

/-- The tiers are faithful to the state at which the call begins exactly when
each is to its own, and no tier changes the value that a later one reads. -/
theorem faithful_iff_steady {tiers : List (Tier σ ρ)}
    (opens : ∀ tier ∈ tiers, Opens read v tier) (s : σ) :
    Faithful read v (inOrder tiers) s ↔ Steady read v tiers s := by
  induction tiers generalizing s with
  | nil => simp [Faithful, Steady, reads, inOrder]
  | cons tier rest ih =>
      have below : ∀ tier ∈ rest, Opens read v tier :=
        fun tier among => opens tier (List.mem_cons_of_mem _ among)
      constructor
      · intro faithful
        rcases next_or_stopped tier s with ⟨s', next⟩ | stopped
        · have all : ∀ b ∈ reads read tier s ++ reads read (inOrder rest) s', b = v s := by
            rw [← reads_next next]
            exact faithful
          have same : reads read (inOrder rest) s' ≠ [] → v s' = v s := by
            intro some
            obtain ⟨b, bs, cons⟩ := List.exists_cons_of_ne_nil some
            rw [← opens_inOrder below s' b (by rw [cons, List.head?_cons])]
            exact all b (by simp [cons])
          refine ⟨fun b among => all b (List.mem_append_left _ among), ?_⟩
          intro s'' next'
          obtain rfl : s' = s'' := Outcome.next.inj (next.symm.trans next')
          refine ⟨same, (ih below s').mp fun b among => ?_⟩
          rw [same (List.ne_nil_of_mem among)]
          exact all b (List.mem_append_right _ among)
        · refine ⟨fun b among => faithful b ?_, fun s' next => absurd next (stopped s')⟩
          rw [reads_stopped stopped]
          exact among
      · rintro ⟨own, onward⟩ b among
        rcases next_or_stopped tier s with ⟨s', next⟩ | stopped
        · obtain ⟨same, steady⟩ := onward s' next
          rw [reads_next next] at among
          rcases List.mem_append.mp among with mine | later
          · exact own b mine
          · rw [(ih below s').mpr steady b later, same (List.ne_nil_of_mem later)]
        · rw [reads_stopped stopped] at among
          exact own b among

theorem steady_cons_of_same (faithful : Faithful read v tier s)
    (same : ∀ s', (tier s).outcome = .next s' → s' = s) :
    Steady read v (tier :: rest) s ↔ ((tier s).outcome = .next s → Steady read v rest s) := by
  constructor
  · rintro ⟨_, onward⟩ next
    exact (onward s next).2
  · refine fun onward => ⟨faithful, fun s' next => ?_⟩
    obtain rfl := same s' next
    exact ⟨fun _ => rfl, onward next⟩

end Reads

end Fallback
