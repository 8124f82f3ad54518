import Mathlib.Data.List.Nodup
import Mathlib.Logic.Function.Basic
import Mathlib.Tactic.Common

/-!
# Intrusive singly linked lists sharing one pool of nodes

Nodes of type `α` carry their own `next` pointer; every list is named by a
`β` and starts at its head word.  A `Cell` is a place that holds a link: a
head word or a node's `next`.  `Heap.Represents` says which nodes each list
holds, in order, and the rules below give the effect of splicing a node in
and of unlinking one on all the lists at once.
-/

set_option autoImplicit false

namespace IntrusiveList

variable {α β : Type}

/-- Following `next` from `p` meets exactly the nodes of the list, then `nil`. -/
def Links (next : α → α) (nil : α) : α → List α → Prop
  | p, [] => p = nil
  | p, x :: rest => p = x ∧ x ≠ nil ∧ Links next nil (next x) rest

section Links
variable {next next' : α → α} {nil : α}

theorem links_unique : ∀ {l l' : List α} {p : α},
    Links next nil p l → Links next nil p l' → l = l' := by
  intro l
  induction l with
  | nil =>
      intro l' p first second
      cases l' with
      | nil => rfl
      | cons y rest => exact absurd (second.1.symm.trans first) second.2.1
  | cons x rest ih =>
      intro l' p first second
      cases l' with
      | nil => exact absurd (first.1.symm.trans second) first.2.1
      | cons y rest' =>
          obtain rfl : x = y := first.1.symm.trans second.1
          rw [ih first.2.2 second.2.2]

theorem links_eq_nil_iff {l : List α} {p : α} (linked : Links next nil p l) :
    p = nil ↔ l = [] := by
  cases l with
  | nil => simpa [Links] using linked
  | cons x rest =>
      have apart : p ≠ nil := linked.1 ▸ linked.2.1
      simp [apart]

theorem links_suffix : ∀ (pre : List α) {post : List α} {p x : α},
    Links next nil p (pre ++ x :: post) → Links next nil x (x :: post) := by
  intro pre
  induction pre with
  | nil =>
      intro post p x linked
      obtain ⟨rfl, rest⟩ := linked
      exact ⟨rfl, rest⟩
  | cons y pre ih =>
      intro post p x linked
      exact ih linked.2.2

/-- A chain that ends in `nil` meets no node twice, since `next` is a function. -/
theorem links_nodup : ∀ {l : List α} {p : α}, Links next nil p l → l.Nodup := by
  intro l
  induction l with
  | nil => intro p _; exact List.nodup_nil
  | cons x rest ih =>
      intro p linked
      refine List.nodup_cons.mpr ⟨?_, ih linked.2.2⟩
      intro member
      obtain ⟨pre, post, split⟩ := List.append_of_mem member
      have whole : Links next nil x (x :: rest) := ⟨rfl, linked.2⟩
      have inner : Links next nil x (x :: post) := links_suffix pre (split ▸ linked.2.2)
      have same : rest = post := (List.cons.inj (links_unique whole inner)).2
      have lengths := congrArg List.length (split.trans (congrArg (pre ++ x :: ·) same.symm))
      simp only [List.length_append, List.length_cons] at lengths
      omega

/-- A chain that ends does not come back to where it starts. -/
theorem links_ne_start {l : List α} {p x : α} (linked : Links next nil p l) (member : x ∈ l) :
    next x ≠ p := by
  intro back
  obtain ⟨pre, post, split⟩ := List.append_of_mem member
  have behind : Links next nil (next x) post := (links_suffix pre (split ▸ linked)).2.2
  rw [back] at behind
  have lengths := congrArg List.length (links_unique linked behind)
  rw [split] at lengths
  simp only [List.length_append, List.length_cons] at lengths
  omega

theorem links_congr : ∀ {l : List α} {p : α}, (∀ x ∈ l, next' x = next x) →
    Links next nil p l → Links next' nil p l := by
  intro l
  induction l with
  | nil => intro p _ linked; exact linked
  | cons x rest ih =>
      intro p same linked
      refine ⟨linked.1, linked.2.1, ?_⟩
      rw [same x (List.mem_cons_self ..)]
      exact ih (fun y member => same y (List.mem_cons_of_mem _ member)) linked.2.2

theorem links_ne_nil : ∀ {l : List α} {p : α}, Links next nil p l → ∀ x ∈ l, x ≠ nil := by
  intro l
  induction l with
  | nil => intro p _ x member; simp at member
  | cons y rest ih =>
      intro p linked x member
      rcases List.mem_cons.mp member with rfl | member
      · exact linked.2.1
      · exact ih linked.2.2 x member

/-- Changing the pointer of one node reroutes the chain behind it. -/
theorem links_reroute {nil' z : α} {post post' : List α} : ∀ (pre : List α) {p : α},
    (∀ x ∈ pre, next' x = next x) → Links next nil p (pre ++ z :: post) →
      Links next' nil' (next' z) post' → (∀ x ∈ pre ++ [z], x ≠ nil') →
        Links next' nil' p (pre ++ z :: post') := by
  intro pre
  induction pre with
  | nil => intro p _ linked tail other; exact ⟨linked.1, other z (by simp), tail⟩
  | cons x pre ih =>
      intro p same linked tail other
      refine ⟨linked.1, other x (by simp), ?_⟩
      rw [same x (List.mem_cons_self ..)]
      exact ih (fun y member => same y (List.mem_cons_of_mem _ member)) linked.2.2 tail
        fun y member => other y (List.mem_cons_of_mem _ member)

end Links

/-- Following `next` from `p` meets these nodes and then arrives at `e`. -/
def Follows (next : α → α) : α → List α → α → Prop
  | p, [], e => p = e
  | p, x :: rest, e => p = x ∧ Follows next (next x) rest e

section Follows
variable {next next' : α → α} {e e' : α}

theorem links_iff_follows : ∀ {l : List α} {p : α},
    Links next e p l ↔ Follows next p l e ∧ e ∉ l := by
  intro l
  induction l with
  | nil => intro p; simp [Links, Follows]
  | cons x rest ih =>
      intro p
      simp only [Links, Follows, ih, List.mem_cons, not_or]
      constructor
      · rintro ⟨here, other, tail, out⟩
        exact ⟨⟨here, tail⟩, Ne.symm other, out⟩
      · rintro ⟨⟨here, tail⟩, other, out⟩
        exact ⟨here, Ne.symm other, tail, out⟩

theorem follows_append : ∀ {l l' : List α} {p : α},
    Follows next p (l ++ l') e ↔ ∃ q, Follows next p l q ∧ Follows next q l' e := by
  intro l
  induction l with
  | nil => intro l' p; simp [Follows]
  | cons x rest ih =>
      intro l' p
      simp only [List.cons_append, Follows, ih]
      constructor
      · rintro ⟨here, q, first, second⟩
        exact ⟨q, ⟨here, first⟩, second⟩
      · rintro ⟨q, ⟨here, first⟩, second⟩
        exact ⟨here, q, first, second⟩

/-- The shorter of two walks from one pointer is the beginning of the longer. -/
theorem follows_extends : ∀ {l l' : List α} {p : α}, Follows next p l e →
    Follows next p l' e' → l.length ≤ l'.length → ∃ rest, l' = l ++ rest ∧ Follows next e rest e' := by
  intro l
  induction l with
  | nil =>
      intro l' p first second _
      obtain rfl : p = e := first
      exact ⟨l', rfl, second⟩
  | cons x rest ih =>
      intro l' p first second shorter
      cases l' with
      | nil => simp at shorter
      | cons y rest' =>
          obtain rfl : x = y := first.1.symm.trans second.1
          obtain ⟨more, split, behind⟩ := ih first.2 second.2 (by simpa using shorter)
          exact ⟨more, by rw [split, List.cons_append], behind⟩

/-- Two walks from one pointer: the longer one meets the end of the shorter. -/
theorem follows_mem_of_shorter {l l' : List α} {p : α} (first : Follows next p l e)
    (second : Follows next p l' e') (shorter : l.length < l'.length) : e ∈ l' := by
  obtain ⟨rest, rfl, behind⟩ := follows_extends first second (Nat.le_of_lt shorter)
  cases rest with
  | nil => simp at shorter
  | cons x rest =>
      obtain ⟨rfl, -⟩ := behind
      simp

/-- A walk that meets a node twice never leaves the nodes it has met. -/
theorem follows_end_mem : ∀ {l : List α} {p : α},
    Follows next p l e → ¬ l.Nodup → e ∈ l := by
  intro l
  induction l with
  | nil => intro p _ twice; exact absurd List.nodup_nil twice
  | cons x rest ih =>
      intro p walked twice
      by_cases again : x ∈ rest
      · obtain ⟨first, second, split⟩ := List.append_of_mem again
        have tail := walked.2
        rw [split] at tail
        obtain ⟨q, -, fromSecond⟩ := follows_append.mp tail
        have shorter : second.length < rest.length := by
          rw [split]
          simp only [List.length_append, List.length_cons]
          omega
        exact List.mem_cons_of_mem _ (follows_mem_of_shorter fromSecond.2 walked.2 shorter)
      · have twice : ¬ rest.Nodup := fun once => twice (List.nodup_cons.mpr ⟨again, once⟩)
        exact List.mem_cons_of_mem _ (ih walked.2 twice)

/-- A walk stays in a set that `next` does not leave from the nodes it meets. -/
theorem follows_closed {S : α → Prop} : ∀ {l : List α} {p : α},
    (∀ x ∈ l, S x → S (next x)) → S p → Follows next p l e → S e := by
  intro l
  induction l with
  | nil =>
      intro p _ inside walked
      obtain rfl : p = e := walked
      exact inside
  | cons x rest ih =>
      intro p closed inside walked
      obtain ⟨rfl, tail⟩ := walked
      obtain ⟨here, closed⟩ := List.forall_mem_cons.mp closed
      exact ih closed (here inside) tail

theorem follows_next_mem {x : α} : ∀ {l : List α} {p : α},
    Follows next p l e → x ∈ l → next x ∈ l ∨ next x = e := by
  intro l
  induction l with
  | nil => intro p _ member; simp at member
  | cons y rest ih =>
      intro p walked member
      rcases List.mem_cons.mp member with rfl | member
      · cases rest with
        | nil => exact Or.inr walked.2
        | cons z rest => exact Or.inl (by rw [walked.2.1]; simp)
      · exact (ih walked.2 member).imp_left (List.mem_cons_of_mem _)

theorem follows_congr : ∀ {l : List α} {p : α}, (∀ x ∈ l, next' x = next x) →
    Follows next p l e → Follows next' p l e := by
  intro l
  induction l with
  | nil => intro p _ walked; exact walked
  | cons x rest ih =>
      intro p same walked
      refine ⟨walked.1, ?_⟩
      rw [same x (List.mem_cons_self ..)]
      exact ih (fun y member => same y (List.mem_cons_of_mem _ member)) walked.2

end Follows

inductive Cell (β α : Type) where
  | head (list : β)
  | next (node : α)

def Cell.after : Cell β α → List α → Cell β α
  | c, [] => c
  | _, x :: rest => Cell.after (.next x) rest

theorem Cell.after_concat : ∀ (pre : List α) (c : Cell β α) (z : α),
    c.after (pre ++ [z]) = .next z := by
  intro pre
  induction pre with
  | nil => intro c z; rfl
  | cons x pre ih => intro c z; exact ih (.next x) z

structure Heap (β α : Type) where
  head : β → α
  next : α → α

def Heap.load (h : Heap β α) : Cell β α → α
  | .head list => h.head list
  | .next node => h.next node

/-- Advance from link to link while `go` accepts the node the link names. -/
def Heap.walk (h : Heap β α) (go : α → Bool) : Nat → Cell β α → Cell β α
  | 0, c => c
  | budget + 1, c => if go (h.load c) then h.walk go budget (.next (h.load c)) else c

/-- With budget for the nodes it passes, the walk stops behind exactly the
accepted prefix of the chain. -/
theorem Heap.walk_after (h : Heap β α) (nil : α) (go : α → Bool) (stops : go nil = false) :
    ∀ (l : List α) (budget : Nat) (c : Cell β α), Links h.next nil (h.load c) l →
      (l.takeWhile go).length ≤ budget → h.walk go budget c = c.after (l.takeWhile go) := by
  intro l
  induction l with
  | nil =>
      intro budget c linked _
      cases budget with
      | zero => rfl
      | succ budget =>
          have atEnd : h.load c = nil := linked
          simp [Heap.walk, atEnd, stops, Cell.after]
  | cons x rest ih =>
      intro budget c linked enough
      obtain ⟨here, _, tail⟩ := linked
      by_cases accepted : go x
      · simp only [List.takeWhile_cons, accepted, if_true, List.length_cons] at enough ⊢
        cases budget with
        | zero => omega
        | succ budget =>
            simp only [Heap.walk, here, accepted, if_true, Cell.after]
            exact ih budget (.next x) tail (by omega)
      · have rejected : go x = false := by simpa using accepted
        cases budget with
        | zero => simp [Heap.walk, rejected, Cell.after]
        | succ budget => simp [Heap.walk, here, rejected, Cell.after]

/-- Which nodes each list holds, in order; no node is in two lists. -/
structure Heap.Represents (h : Heap β α) (nil : α) (lists : β → List α) : Prop where
  links : ∀ q, Links h.next nil (h.head q) (lists q)
  disjoint : ∀ q q' x, x ∈ lists q → x ∈ lists q' → q = q'

theorem Heap.Represents.head_nil_iff {h : Heap β α} {nil : α} {lists : β → List α}
    (rep : h.Represents nil lists) (q : β) :
    h.head q = nil ↔ lists q = [] := links_eq_nil_iff (rep.links q)

theorem Heap.Represents.head_cons {h : Heap β α} {nil : α} {lists : β → List α}
    (rep : h.Represents nil lists) {q : β} {t : α} {rest : List α}
    (split : lists q = t :: rest) : h.head q = t := by
  have linked := rep.links q
  rw [split] at linked
  exact linked.1

theorem Heap.Represents.nodup {h : Heap β α} {nil : α} {lists : β → List α}
    (rep : h.Represents nil lists) (q : β) : (lists q).Nodup :=
  links_nodup (rep.links q)

theorem Heap.links_after (h : Heap β α) {nil : α} (q : β) {pre post : List α}
    (linked : Links h.next nil (h.head q) (pre ++ post)) :
    Links h.next nil (h.load ((Cell.head q).after pre)) post := by
  rcases List.eq_nil_or_concat' pre with rfl | ⟨pre, z, rfl⟩
  · exact linked
  · rw [Cell.after_concat]
    rw [List.append_assoc, List.singleton_append] at linked
    exact (links_suffix pre linked).2.2

section Stores
variable [DecidableEq α] [DecidableEq β]

def Heap.store (h : Heap β α) (c : Cell β α) (p : α) : Heap β α :=
  match c with
  | .head list => { h with head := Function.update h.head list p }
  | .next node => { h with next := Function.update h.next node p }

theorem Heap.store_store (h : Heap β α) (c d : Cell β α) (p x y : α) :
    ((h.store c p).store d x).store c y = (h.store d x).store c y := by
  cases c with
  | head q =>
      cases d with
      | head q' =>
          simp only [Heap.store, Heap.mk.injEq, and_true]
          funext r
          by_cases here : r = q
          · rw [here, Function.update_self, Function.update_self]
          · simp only [Function.update_of_ne here, Function.update_apply]
      | next t => simp only [Heap.store, Function.update_idem]
  | next z =>
      cases d with
      | head q' => simp only [Heap.store, Function.update_idem]
      | next t =>
          simp only [Heap.store, Heap.mk.injEq, true_and]
          funext r
          by_cases here : r = z
          · rw [here, Function.update_self, Function.update_self]
          · simp only [Function.update_of_ne here, Function.update_apply]

theorem Heap.load_store_self (h : Heap β α) (c : Cell β α) (p : α) : (h.store c p).load c = p := by
  cases c <;> simp [Heap.store, Heap.load]

variable {h : Heap β α} {nil : α} {lists : β → List α}

theorem Heap.load_store_other {c d : Cell β α} {p : α} (apart : d ≠ c) :
    (h.store c p).load d = h.load d := by
  cases c with
  | head q =>
      cases d with
      | head q' => exact Function.update_of_ne (fun same => apart (congrArg Cell.head same)) _ _
      | next t => rfl
  | next z =>
      cases d with
      | head q' => rfl
      | next t => exact Function.update_of_ne (fun same => apart (congrArg Cell.next same)) _ _

/-- Redirecting the link behind a prefix of one list replaces the rest of that
list.  `next'` may already differ from the old pointers outside the prefix, and
the new chain may end in another word than the old one. -/
theorem Heap.links_redirect (h : Heap β α) (q : β) (next' : α → α) {nil' : α} {pre post post' : List α} {p : α}
    (linked : Links h.next nil (h.head q) (pre ++ post)) (same : ∀ x ∈ pre, next' x = h.next x)
    (tail : Links next' nil' p post') (apart : ∀ x ∈ post', x ∉ pre) (ends : nil' ∉ pre) :
    Links (Heap.store ⟨h.head, next'⟩ ((Cell.head q).after pre) p).next nil'
      ((Heap.store ⟨h.head, next'⟩ ((Cell.head q).after pre) p).head q) (pre ++ post') := by
  rcases List.eq_nil_or_concat' pre with rfl | ⟨pre, z, rfl⟩
  · -- the head word itself is overwritten
    simpa [Heap.store, Cell.after] using tail
  · -- the pointer of the last node of the prefix is overwritten
    rw [Cell.after_concat]
    simp only [Heap.store]
    rw [List.append_assoc, List.singleton_append] at linked ⊢
    have distinct := links_nodup linked
    have other : ∀ x ∈ pre, x ≠ z := by
      rintro x member rfl
      exact (List.nodup_append.mp distinct).2.2 x member x (List.mem_cons_self ..) rfl
    refine links_reroute pre ?_ linked ?_ ?_
    · intro x member
      rw [Function.update_of_ne (other x member)]
      exact same x (List.mem_append_left _ member)
    · rw [Function.update_self]
      refine links_congr (fun x member => ?_) tail
      have behind : x ≠ z := by
        rintro rfl
        exact apart x member (by simp)
      rw [Function.update_of_ne behind]
    · rintro x member rfl
      exact ends member

/-- Redirecting the link behind a prefix of one list leaves every other list as
it was.  `next'` may already differ from the old pointers on nodes outside all
the lists. -/
theorem Heap.Represents.redirect (rep : h.Represents nil lists) (q : β) (next' : α → α)
    {pre post post' : List α} {p : α} (split : lists q = pre ++ post)
    (same : ∀ q' x, x ∈ lists q' → next' x = h.next x)
    (tail : Links next' nil p post') (fresh : ∀ x ∈ post', x ∈ lists q ∨ ∀ q', x ∉ lists q')
    (apart : ∀ x ∈ post', x ∉ pre) :
    (Heap.store ⟨h.head, next'⟩ ((Cell.head q).after pre) p).Represents nil
      (Function.update lists q (pre ++ post')) := by
  have member_old : ∀ q' x, x ∈ Function.update lists q (pre ++ post') q' →
      x ∈ lists q' ∨ (q' = q ∧ ∀ q'', x ∉ lists q'') := by
    intro q' x member
    by_cases here : q' = q
    · subst here
      rw [Function.update_self, List.mem_append] at member
      rcases member with member | member
      · exact Or.inl (split ▸ List.mem_append_left _ member)
      · exact (fresh x member).imp id fun out => ⟨rfl, out⟩
    · rw [Function.update_of_ne here] at member
      exact Or.inl member
  constructor
  · intro q'
    by_cases here : q' = q
    · subst here
      have linked := rep.links q'
      rw [split] at linked
      rw [Function.update_self]
      refine h.links_redirect q' next' linked (fun x member => ?_) tail apart ?_
      · exact same q' x (by rw [split]; exact List.mem_append_left _ member)
      · exact fun member => links_ne_nil linked _ (List.mem_append_left _ member) rfl
    · rw [Function.update_of_ne here]
      rcases List.eq_nil_or_concat' pre with rfl | ⟨pre, z, rfl⟩
      · simp only [Heap.store, Cell.after, Function.update_of_ne here]
        exact links_congr (fun x member => same q' x member) (rep.links q')
      · rw [Cell.after_concat]
        simp only [Heap.store]
        refine links_congr (fun x member => ?_) (rep.links q')
        have other : x ≠ z := by
          rintro rfl
          exact here (rep.disjoint q' q x member (by rw [split]; simp))
        rw [Function.update_of_ne other]
        exact same q' x member
  · intro q₁ q₂ x first second
    rcases member_old q₁ x first with first | ⟨rfl, out⟩
    · rcases member_old q₂ x second with second | ⟨_, out⟩
      · exact rep.disjoint q₁ q₂ x first second
      · exact absurd first (out q₁)
    · rcases member_old q₂ x second with second | ⟨rfl, _⟩
      · exact absurd second (out q₂)
      · rfl

theorem Heap.Represents.splice (rep : h.Represents nil lists) (q : β) {pre post : List α} {t : α}
    (split : lists q = pre ++ post) (here : t ≠ nil) (out : ∀ q', t ∉ lists q') :
    (((h.store (.next t) (h.load ((Cell.head q).after pre))).store
      ((Cell.head q).after pre) t)).Represents nil
        (Function.update lists q (pre ++ t :: post)) := by
  have loaded : Links h.next nil (h.load ((Cell.head q).after pre)) post :=
    h.links_after q (split ▸ rep.links q)
  have inList : ∀ x ∈ post, x ∈ lists q := fun x member => split ▸ List.mem_append_right _ member
  have ne_of_mem : ∀ q' x, x ∈ lists q' → x ≠ t := by
    rintro q' x member rfl
    exact out q' member
  refine rep.redirect q _ split (fun q' x member => ?_) ?_ ?_ ?_
  · exact Function.update_of_ne (ne_of_mem q' x member) _ _
  · refine ⟨rfl, here, ?_⟩
    rw [Function.update_self]
    exact links_congr (fun x member =>
      Function.update_of_ne (ne_of_mem q x (inList x member)) _ _) loaded
  · intro x member
    rcases List.mem_cons.mp member with rfl | member
    · exact Or.inr out
    · exact Or.inl (inList x member)
  · intro x member inPre
    rcases List.mem_cons.mp member with rfl | member
    · exact out q (split ▸ List.mem_append_left _ inPre)
    · have distinct := links_nodup (rep.links q)
      rw [split] at distinct
      exact (List.nodup_append.mp distinct).2.2 x inPre x member rfl

theorem Heap.Represents.unlink (rep : h.Represents nil lists) (q : β) {pre post : List α} {t : α}
    (split : lists q = pre ++ t :: post) :
    (h.store ((Cell.head q).after pre) (h.next t)).Represents nil
      (Function.update lists q (pre ++ post)) := by
  have linked := rep.links q
  rw [split] at linked
  have distinct := links_nodup linked
  refine rep.redirect q h.next split (fun _ _ _ => rfl) (links_suffix pre linked).2.2 ?_ ?_
  · intro x member
    exact Or.inl (split ▸ List.mem_append_right _ (List.mem_cons_of_mem _ member))
  · intro x member inPre
    exact (List.nodup_append.mp distinct).2.2 x inPre x (List.mem_cons_of_mem _ member) rfl

end Stores

end IntrusiveList
