import N64ModernRuntime.Ultramodern.External

/-!
# The order of external messages

A consumer takes the oldest post of a host thread, but what it puts back stands
behind everything that is in the queue by then.
-/

set_option autoImplicit false

namespace N64ModernRuntime.Ultramodern

open Transition ProducerQueue

variable {layout : ThreadLayout}

def DrainsOnly (x : External) (l : ExternalLabel layout) : Prop :=
  SoundPost x l ∧
    match l with
    | .idle _ _ | .tick _ _ _ => False
    | _ => True

instance (x : External) : ∀ l : ExternalLabel layout, Decidable (DrainsOnly x l)
  | .post _ _ | .guest _ | .drain _ _ => inferInstanceAs (Decidable (_ ∧ True))
  | .idle _ _ | .tick _ _ _ => inferInstanceAs (Decidable (_ ∧ False))

section Order
variable {x x' : External} {l : ExternalLabel layout} {a b : Posted}

theorem still_queued (accounted : x.Accounted) (member : b ∈ x.posted)
    (same : a.thread = b.thread) (first : a.id < b.id)
    (queued : a ∈ x.externalMessages.ofProducer (.host a.thread)) :
    b ∈ x.externalMessages.ofProducer (.host a.thread) := by
  obtain ⟨before, whole⟩ := accounted.fifo a.thread
  have increasing : (x.posted.filter fun post => decide (post.thread = a.thread)).Pairwise
      fun p q => p.id < q.id := by
    have ids : (x.posted.map Posted.id).Pairwise (· < ·) := by
      rw [accounted.numbered]
      exact List.pairwise_lt_range
    exact (List.pairwise_map.mp ids).filter _
  have mine : b ∈ before ++ x.externalMessages.ofProducer (.host a.thread) := by
    rw [whole]
    exact List.mem_filter.mpr ⟨member, by simpa using same.symm⟩
  rw [← whole] at increasing
  rcases List.mem_append.mp mine with older | newer
  · have wrong := (List.pairwise_append.mp increasing).2.2 b older a queued
    omega
  · exact newer

/-- A reliable post that a later one of the same thread has overtaken was put back. -/
theorem overtaken_put_back (accounted : x.Accounted) (guarded : x.Guarded)
    (coalescible : x.DropsCoalescible) (member : a ∈ x.posted) (same : a.thread = b.thread)
    (first : a.id < b.id) (reliable : a.msg.coalescible = false) (arrived : b ∈ x.delivered)
    (late : a ∉ x.delivered) : (a, true) ∈ x.requeued := by
  have posted : b ∈ x.posted := (mem_posted_iff accounted b).mpr (.inr (.inl arrived))
  rcases (mem_posted_iff accounted a).mp member with queued | delivered | dropped
  · obtain ⟨e, here, rfl⟩ := List.mem_map.mp queued
    cases producer : e.producer with
    | host thread =>
        have mine : e.item ∈ x.externalMessages.ofProducer (.host thread) :=
          (mem_ofProducer _).mpr ⟨e, here, producer, rfl⟩
        have poster : e.item.thread = thread := by
          simpa using (List.mem_filter.mp ((accounted.fifo thread).subset mine)).2
        rw [← poster] at mine
        -- the later post is still in the queue, yet it has entered its target
        obtain ⟨other, there, _, named⟩ :=
          (mem_ofProducer _).mp (still_queued accounted posted same first mine)
        have twice : 0 < x.externalMessages.items.count b :=
          List.count_pos_iff.mpr (List.mem_map.mpr ⟨other, there, named⟩)
        have entered : 0 < x.delivered.count b := List.count_pos_iff.mpr arrived
        have kept := accounted.kept b
        rw [posted_count accounted posted] at kept
        omega
    | game c =>
        obtain ⟨entry, logged, named⟩ := List.mem_map.mp
          (accounted.putBack c _ ((mem_ofProducer _).mpr ⟨e, here, producer, rfl⟩))
        have full := guarded.requeued entry logged
        rw [← named, ← full]
        exact logged
  · contradiction
  · obtain ⟨entry, logged, rfl⟩ := List.mem_map.mp dropped
    rw [(coalescible entry logged).1] at reliable
    contradiction

theorem drainsOnly_keepsReliable (x : External) (l : ExternalLabel layout)
    (side : DrainsOnly x l) : KeepsReliable x l := by
  obtain ⟨sound, drains⟩ := side
  cases l with
  | post thread msg => exact ⟨sound, trivial⟩
  | guest kl => exact ⟨sound, trivial⟩
  | drain c i => exact ⟨sound, trivial⟩
  | idle c i => exact absurd drains id
  | tick c i skip => exact absurd drains id

/-- Of two posts of one thread the earlier, if reliable, enters its target
first, or its target was full and it was put back. -/
def External.InOrder (x : External) : Prop :=
  ∀ a ∈ x.posted, ∀ b ∈ x.delivered, a.thread = b.thread → a.id < b.id →
    a.msg.coalescible = false → [a, b].Sublist x.delivered ∨ (a, true) ∈ x.requeued

theorem booking_logs (booking : Booking x l x') :
    (∀ post ∈ x'.posted, post ∈ x.posted ∨ post.id = x.posted.length) ∧
      (x'.delivered = x.delivered ∨ ∃ post, x'.delivered = x.delivered ++ [post]) ∧
      ∀ entry ∈ x.requeued, entry ∈ x'.requeued := by
  cases booking with
  | keeps k => exact ⟨fun _ => .inl, .inl rfl, fun _ => id⟩
  | posts thread msg =>
      refine ⟨fun post member => ?_, .inl rfl, fun _ => id⟩
      rcases List.mem_append.mp member with old | new
      · exact .inl old
      · rw [List.mem_singleton.mp new]
        exact .inr rfl
  | delivers k i e rest taken sent rings => exact ⟨fun _ => .inl, .inr ⟨e.item, rfl⟩, fun _ => id⟩
  | drops k i e rest taken refused lossy => exact ⟨fun _ => .inl, .inl rfl, fun _ => id⟩
  | putsBack k c i e rest taken refused =>
      exact ⟨fun _ => .inl, .inl rfl, fun _ logged => List.mem_append.mpr (.inl logged)⟩

theorem posted_id_lt (accounted : x.Accounted) {post : Posted} (member : post ∈ x.posted) :
    post.id < x.posted.length := by
  rw [← List.mem_range, ← accounted.numbered]
  exact List.mem_map_of_mem member

theorem External.InOrder.step (ordered : x.InOrder) (accounted : x.Accounted)
    (accounted' : x'.Accounted) (guarded' : x'.Guarded) (coalescible' : x'.DropsCoalescible)
    (booking : Booking x l x') : x'.InOrder := by
  obtain ⟨posted, delivered, requeued⟩ := booking_logs booking
  intro a member b arrived same first reliable
  have before : b ∈ x.delivered →
      [a, b].Sublist x.delivered ∨ (a, true) ∈ x'.requeued := fun earlier => by
    have bound := posted_id_lt accounted ((mem_posted_iff accounted b).mpr (.inr (.inl earlier)))
    rcases posted a member with old | new
    · exact (ordered a old b earlier same first reliable).imp id (requeued _)
    · omega
  rcases delivered with unchanged | ⟨post, grown⟩
  · rw [unchanged] at arrived ⊢
    exact before arrived
  rw [grown] at arrived
  rcases List.mem_append.mp arrived with earlier | now
  · rw [grown]
    exact (before earlier).imp (fun sub => sub.trans (List.sublist_append_left ..)) id
  · obtain rfl := List.mem_singleton.mp now
    by_cases ahead : a ∈ x.delivered
    · rw [grown]
      exact .inl ((List.singleton_sublist.mpr ahead).append (List.Sublist.refl [b]))
    · -- the message just delivered has overtaken the earlier post
      refine .inr (overtaken_put_back accounted' guarded' coalescible' member same first reliable
        (by simp [grown]) ?_)
      rw [grown]
      intro entered
      rcases List.mem_append.mp entered with old | new
      · exact ahead old
      · rw [List.mem_singleton.mp new] at first
        omega

/-- Messages enter their targets in the order of the posts of each thread,
unless the earlier one has found its target full and was put back. -/
theorem external_messages_in_order (reached : Reach (@externalStep layout) DrainsOnly
    ExternalBooted x) : x.InOrder := by
  refine reached.invariant_of (J := Reach externalStep DrainsOnly ExternalBooted)
    (fun _ => id) ?_ ?_
  · rintro s ⟨rings, rfl⟩ a member
    contradiction
  · intro s l t before ordered side ran
    have after : Reach externalStep DrainsOnly ExternalBooted t := .next l before side ran
    obtain ⟨accounted, _⟩ := reach_accounted (fun _ _ met => met.1) before
    obtain ⟨accounted', guarded'⟩ := reach_accounted (fun _ _ met => met.1) after
    exact ordered.step accounted accounted' guarded'
      (reach_dropsCoalescible drainsOnly_keepsReliable after) (externalStep_booking ran).2

/-- Two completions in a row, the receiver taking the first in between. -/
theorem external_messages_in_order_small : ∃ x, Reach (@externalStep threeThreads) DrainsOnly
    ExternalBooted x ∧ x.requeued = [] ∧
      [⟨0, 0, completion 8⟩, ⟨1, 0, completion 9⟩].Sublist x.delivered := by
  obtain ⟨x, ran, posted, delivered, requeued⟩ : ∃ x,
      run externalStep DrainsOnly (External.boot smallRings)
        [.guest (.outsideCreate threadA 5), .guest (.outsideStart threadA), .guest (.wake 0),
          .post 0 (completion 8), .guest (.call 0 (.mesg (.recv smallQueue) false)),
          .drain 0 0, .guest (.drained 0), .post 0 (completion 9),
          .guest (.call 0 (.mesg (.recv smallQueue) false)), .drain 0 0,
          .guest (.drained 0)] = some x ∧
      x.posted = [⟨0, 0, completion 8⟩, ⟨1, 0, completion 9⟩] ∧
      x.delivered = [⟨0, 0, completion 8⟩, ⟨1, 0, completion 9⟩] ∧ x.requeued = [] :=
    ⟨_, rfl, rfl, rfl, rfl⟩
  have reached : Reach (@externalStep threeThreads) DrainsOnly ExternalBooted x :=
    reach_of_run _ ⟨smallRings, rfl⟩ ran
  refine ⟨x, reached, requeued, ?_⟩
  rcases external_messages_in_order reached ⟨0, 0, completion 8⟩ (by simp [posted])
    ⟨1, 0, completion 9⟩ (by simp [delivered]) rfl (by decide) rfl with sub | put
  · exact sub
  · rw [requeued] at put
    contradiction

/-- The first of two completions finds the queue full and goes behind the second. -/
theorem put_back_overtaken : ¬ ∀ x, Reach (@externalStep threeThreads) DrainsOnly ExternalBooted x →
    ∀ a ∈ x.posted, ∀ b ∈ x.delivered, a.thread = b.thread → a.msg.mq = b.msg.mq →
      a.id < b.id → a.msg.coalescible = false → b.msg.coalescible = false →
      [a, b].Sublist x.delivered := by
  intro always
  obtain ⟨x, ran, posted, delivered⟩ : ∃ x, run externalStep DrainsOnly (External.boot smallRings)
      (fillQueue ++ [.post 0 (completion 8), .post 0 (completion 9),
        .guest (.call 0 (.mesg (.recv smallQueue) false)), .drain 0 0,
        .guest (.call 0 (.mesg (.recv smallQueue) false)), .drain 0 0, .drain 0 0,
        .guest (.call 0 (.mesg (.recv smallQueue) false)), .drain 0 0]) = some x ∧
      x.posted = [⟨0, 0, completion 8⟩, ⟨1, 0, completion 9⟩] ∧
      x.delivered = [⟨1, 0, completion 9⟩, ⟨0, 0, completion 8⟩] := ⟨_, rfl, rfl, rfl⟩
  have reached : Reach (@externalStep threeThreads) DrainsOnly ExternalBooted x :=
    reach_of_run _ ⟨smallRings, rfl⟩ ran
  have ordered := always x reached ⟨0, 0, completion 8⟩ (by simp [posted])
    ⟨1, 0, completion 9⟩ (by simp [delivered]) rfl rfl (by decide) rfl rfl
  rw [delivered] at ordered
  exact absurd ordered (by decide)

end Order

end N64ModernRuntime.Ultramodern
