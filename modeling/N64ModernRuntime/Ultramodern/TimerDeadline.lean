import N64ModernRuntime.Ultramodern.Timer

/-!
# How far away a timer may be

The sum in `osSetTimer` and the product in `ticks_to_duration` are taken
modulo 2^64.  Both are exact as long as the deadline times 1000 fits.
-/

set_option autoImplicit false

namespace N64ModernRuntime.Ultramodern

/-- The ticks that a call of `osSetTimer` asks for. -/
def requestedTicks (countdown interval : OSTime) : OSTime :=
  if countdown = 0 then interval else countdown

/-- What `osSetTimer` writes into `timestamp` when the counter stands at `now`. -/
def setTimestamp (now countdown interval : OSTime) : OSTime :=
  requestedTicks countdown interval + now

/-- The tick count without wrap-around. -/
def dueTicks (now countdown interval : OSTime) : Nat :=
  now.toNat + (requestedTicks countdown interval).toNat

theorem osSetTimer_timestamp (s : Timers) (c : ContextId) (t : Ptr) (countdown interval : OSTime)
    (mq : Ptr) (msg : OSMesg) :
    ((osSetTimer s c t countdown interval mq msg).timer t).timestamp =
      setTimestamp s.timeNow countdown interval := by
  simp [osSetTimer, Timers.modifyTimer, Timers.firstDeadline, setTimestamp, requestedTicks]

/-- A periodic timer is armed again as by a call with no countdown. -/
theorem fire_timestamp (s : Timers) (next : Ptr) (periodic : (s.timer next).interval ≠ 0) :
    ((s.fire next).timer next).timestamp =
      setTimestamp s.timeNow 0 (s.timer next).interval := by
  simp [Timers.fire, periodic, Timers.insertPending, Timers.modifyTimer, setTimestamp,
    requestedTicks]

/-- The wait ends no earlier than the due tick, up to a microsecond; a tick
takes 1000000 / 46875 nanoseconds. -/
def NotEarly (now countdown interval : OSTime) : Prop :=
  (dueTicks now countdown interval : Int) * 1000000 ≤
    (ticksToTimepoint (setTimestamp now countdown interval) + 1000) * 46875

instance (now countdown interval : OSTime) : Decidable (NotEarly now countdown interval) :=
  inferInstanceAs (Decidable ((_ : Int) ≤ _))

def MonotoneUpTo (bound : OSTime) : Prop :=
  ∀ a b : OSTime, a ≤ b → b ≤ bound → ticksToDuration a ≤ ticksToDuration b

theorem ticksToDuration_toNat (ticks : OSTime) :
    (ticksToDuration ticks).toNat = ticks.toNat * 1000 % 2 ^ 64 / 46875 := by
  rw [ticksToDuration, UInt64.toNat_div, UInt64.toNat_mul]
  rfl

theorem setTimestamp_toNat (now countdown interval : OSTime) :
    (setTimestamp now countdown interval).toNat = dueTicks now countdown interval % 2 ^ 64 := by
  rw [setTimestamp, dueTicks, UInt64.toNat_add, Nat.add_comm]

/-- Both wrap-arounds together are one. -/
theorem setTimestamp_duration (now countdown interval : OSTime) :
    (ticksToDuration (setTimestamp now countdown interval)).toNat =
      dueTicks now countdown interval * 1000 % 2 ^ 64 / 46875 := by
  rw [ticksToDuration_toNat, setTimestamp_toNat, Nat.mod_mul_mod]

theorem notEarly_iff (now countdown interval : OSTime) :
    NotEarly now countdown interval ↔ dueTicks now countdown interval * 1000 < 2 ^ 64 := by
  have duration := setTimestamp_duration now countdown interval
  unfold NotEarly ticksToTimepoint
  rw [duration]
  generalize dueTicks now countdown interval = due
  constructor
  · intro notEarly
    by_contra large
    omega
  · intro small
    rw [Nat.mod_eq_of_lt small]
    omega

theorem monotoneUpTo_iff (bound : OSTime) : MonotoneUpTo bound ↔ bound.toNat * 1000 < 2 ^ 64 := by
  constructor
  · intro monotone
    by_contra large
    -- the first product that wraps, and the last that does not
    have wraps := monotone 18446744073709551 18446744073709552 (by decide)
      (UInt64.le_iff_toNat_le.mpr (by
        have first : (18446744073709552 : UInt64).toNat = 18446744073709552 := rfl
        omega))
    exact absurd wraps (by decide)
  · intro small a b less within
    have less := UInt64.le_iff_toNat_le.mp less
    have within := UInt64.le_iff_toNat_le.mp within
    apply UInt64.le_iff_toNat_le.mpr
    have fitsB : b.toNat * 1000 < 2 ^ 64 :=
      lt_of_le_of_lt (Nat.mul_le_mul_right 1000 within) small
    have fitsA : a.toNat * 1000 < 2 ^ 64 :=
      lt_of_le_of_lt (Nat.mul_le_mul_right 1000 less) fitsB
    rw [ticksToDuration_toNat, ticksToDuration_toNat, Nat.mod_eq_of_lt fitsA,
      Nat.mod_eq_of_lt fitsB]
    exact Nat.div_le_div_right (Nat.mul_le_mul_right 1000 less)

/-- No timer is early, and the conversion keeps the order, exactly below the
tick count whose product with 1000 wraps. -/
theorem no_early_timer_iff (now countdown interval bound : OSTime) :
    (NotEarly now countdown interval ↔ dueTicks now countdown interval * 1000 < 2 ^ 64) ∧
      (MonotoneUpTo bound ↔ bound.toNat * 1000 < 2 ^ 64) :=
  ⟨notEarly_iff now countdown interval, monotoneUpTo_iff bound⟩

/-- A second after the start, a timer set to the largest countdown is due at once. -/
theorem infinite_timer_early :
    ¬ ((∀ now countdown interval : OSTime, NotEarly now countdown interval) ∧
      ∀ a b : OSTime, a ≤ b → ticksToDuration a ≤ ticksToDuration b) := by
  rintro ⟨notEarly, -⟩
  have due := notEarly 46875000 0xFFFFFFFFFFFFFFFF 0
  exact absurd due (by decide)

end N64ModernRuntime.Ultramodern
