import N64ModernRuntime.Lib.Transition
import N64ModernRuntime.Librecomp.MipsInterp
import N64ModernRuntime.Librecomp.NativeExports

/-!
# mod_hooks.cpp, mod_events.cpp: the contexts of hooks and events

`run_hook` keeps the context that it is called with on a stack,
`recomp_trigger_event` in a local.  What a hook or a listener does is left open:
it may change its context and guest memory, call the accessors, and reach other
hooked functions and events.
-/

set_option autoImplicit false

namespace N64ModernRuntime.Librecomp

open Transition

/-! ## A byte as a float -/

/-- `(float)` of an integer below 256. -/
def floatOfByte (n : BitVec 8) : BitVec 32 :=
  if n = 0 then 0
  else
    BitVec.ofNat 32 ((127 + n.toNat.log2) * 2 ^ 23 + (n.toNat * 2 ^ (23 - n.toNat.log2) - 2 ^ 23))

/-- `(uint8_t)` of a float; `none` where the truncated value is out of range, which the
language leaves undefined. -/
def byteOfFloat? (bits : BitVec 32) : Option (BitVec 8) :=
  let exponent := (bits.extractLsb' 23 8).toNat
  let significand := 2 ^ 23 + (bits.extractLsb' 0 23).toNat
  if exponent < 127 then some 0
  else if bits.msb = false ∧ exponent < 135 then
    some (BitVec.ofNat 8 (significand / 2 ^ (150 - exponent)))
  else none

theorem byteOfFloat?_floatOfByte (n : BitVec 8) : byteOfFloat? (floatOfByte n) = some n := by
  have all : ∀ k : Fin 256, byteOfFloat? (floatOfByte (BitVec.ofFin k)) = some (BitVec.ofFin k) := by
    decide +kernel
  exact all n.toFin

/-! ## The accessors -/

/-- The fields of a `recomp_context`; the ones that nothing here names are the `rest`. -/
structure HookContext (ε : Type) extends RecompContext where
  rest : ε

namespace HookContext

variable {ε : Type}

def setR (ctx : HookContext ε) (i : BitVec 5) (v : Gpr) : HookContext ε :=
  { ctx with r := Function.update ctx.r i v }

def fl (ctx : HookContext ε) (i : BitVec 5) : BitVec 32 := low (ctx.f i)

def setFl (ctx : HookContext ε) (i : BitVec 5) (v : BitVec 32) : HookContext ε :=
  { ctx with f := Function.update ctx.f i ((ctx.f i).extractLsb' 32 32 ++ v) }

end HookContext

section Accessors

variable {ε : Type} (saved ctx : HookContext ε)

/-- `HOOK_RETURN_R2`; the cast is to the type and then to `gpr`. -/
def hookReturnR2 (cast : Gpr → Gpr) : HookContext ε := ctx.setR 2 (cast (saved.r 2))

def castInt32 (v : Gpr) : Gpr := (v.setWidth 32).signExtend 64
def castInt16 (v : Gpr) : Gpr := (v.setWidth 16).signExtend 64
def castUInt16 (v : Gpr) : Gpr := (v.setWidth 16).setWidth 64
def castInt8 (v : Gpr) : Gpr := (v.setWidth 8).signExtend 64
def castUInt8 (v : Gpr) : Gpr := (v.setWidth 8).setWidth 64

def recomphookGetReturnS32 : HookContext ε := hookReturnR2 saved ctx castInt32
def recomphookGetReturnU32 : HookContext ε := hookReturnR2 saved ctx castInt32
def recomphookGetReturnPtr : HookContext ε := hookReturnR2 saved ctx castInt32
def recomphookGetReturnS16 : HookContext ε := hookReturnR2 saved ctx castInt16
def recomphookGetReturnU16 : HookContext ε := hookReturnR2 saved ctx castUInt16
def recomphookGetReturnS8 : HookContext ε := hookReturnR2 saved ctx castInt8
def recomphookGetReturnU8 : HookContext ε := hookReturnR2 saved ctx castUInt8

def recomphookGetReturnS64 : HookContext ε :=
  (ctx.setR 2 (castInt32 (saved.r 2))).setR 3 (castInt32 (saved.r 3))

def recomphookGetReturnU64 : HookContext ε := recomphookGetReturnS64 saved ctx

def recomphookGetReturnFloat : HookContext ε := ctx.setFl 0 (saved.fl 0)

/-- Both words pass through a byte. -/
def recomphookGetReturnDouble (undefinedByte : BitVec 32 → BitVec 8) : HookContext ε :=
  let narrow (bits : BitVec 32) : BitVec 32 :=
    floatOfByte ((byteOfFloat? bits).getD (undefinedByte bits))
  (ctx.setFl 0 (narrow (saved.fl 0))).setFl 1 (narrow (saved.fl 1))

end Accessors

inductive ReturnAccessor where
  | s32 | u32 | ptr | s16 | u16 | s8 | u8 | s64 | u64 | float | double
  deriving DecidableEq, Repr

def ReturnAccessor.get {ε : Type} (undefinedByte : BitVec 32 → BitVec 8) (accessor : ReturnAccessor)
    (saved ctx : HookContext ε) : HookContext ε :=
  match accessor with
  | .s32 => recomphookGetReturnS32 saved ctx
  | .u32 => recomphookGetReturnU32 saved ctx
  | .ptr => recomphookGetReturnPtr saved ctx
  | .s16 => recomphookGetReturnS16 saved ctx
  | .u16 => recomphookGetReturnU16 saved ctx
  | .s8 => recomphookGetReturnS8 saved ctx
  | .u8 => recomphookGetReturnU8 saved ctx
  | .s64 => recomphookGetReturnS64 saved ctx
  | .u64 => recomphookGetReturnU64 saved ctx
  | .float => recomphookGetReturnFloat saved ctx
  | .double => recomphookGetReturnDouble saved ctx undefinedByte

/-- The result registers of `ctx` have the result of `saved`, as a value of the type; a
register holds a 32-bit value with its sign extended. -/
def ReturnAccessor.Yields {ε : Type} (accessor : ReturnAccessor) (saved ctx : HookContext ε) : Prop :=
  match accessor with
  | .s32 | .u32 | .ptr => (ctx.r 2).toInt = ((saved.r 2).setWidth 32).toInt
  | .s16 => (ctx.r 2).toInt = ((saved.r 2).setWidth 16).toInt
  | .u16 => (ctx.r 2).toNat = ((saved.r 2).setWidth 16).toNat
  | .s8 => (ctx.r 2).toInt = ((saved.r 2).setWidth 8).toInt
  | .u8 => (ctx.r 2).toNat = ((saved.r 2).setWidth 8).toNat
  | .s64 | .u64 =>
    (ctx.r 2).toInt = ((saved.r 2).setWidth 32).toInt ∧ (ctx.r 3).toInt = ((saved.r 3).setWidth 32).toInt
  | .float => ctx.fl 0 = saved.fl 0
  | .double => ctx.f 0 = saved.f 0

section Yields

variable {ε : Type} (saved ctx : HookContext ε)

theorem low_setFl (i : BitVec 5) (v : BitVec 32) : (ctx.setFl i v).fl i = v := by
  rw [HookContext.fl, HookContext.setFl]
  dsimp only
  rw [Function.update_self]
  exact BitVec.setWidth_append_eq_right

/-- All accessors but one yield the result. -/
theorem get_yields (undefinedByte : BitVec 32 → BitVec 8) {accessor : ReturnAccessor}
    (other : accessor ≠ .double) : accessor.Yields saved (accessor.get undefinedByte saved ctx) := by
  have int32 (v : Gpr) : (castInt32 v).toInt = (v.setWidth 32).toInt :=
    BitVec.toInt_signExtend_of_le (by decide)
  have uint (w : Nat) (narrow : w ≤ 64) (v : Gpr) :
      ((v.setWidth w).setWidth 64).toNat = (v.setWidth w).toNat :=
    BitVec.toNat_setWidth_of_le narrow
  cases accessor with
  | s32 => exact int32 _
  | u32 => exact int32 _
  | ptr => exact int32 _
  | s16 => exact BitVec.toInt_signExtend_of_le (by decide)
  | u16 => exact uint 16 (by decide) _
  | s8 => exact BitVec.toInt_signExtend_of_le (by decide)
  | u8 => exact uint 8 (by decide) _
  | s64 => exact ⟨int32 _, int32 _⟩
  | u64 => exact ⟨int32 _, int32 _⟩
  | float => exact low_setFl ctx 0 _
  | double => exact absurd rfl other

theorem append_eq_iff (high lower : BitVec 32) (v : BitVec 64) :
    high ++ lower = v ↔ high = v.extractLsb' 32 32 ∧ lower = low v := by
  constructor
  · rintro rfl
    exact ⟨BitVec.extractLsb'_append_eq_left.symm, BitVec.setWidth_append_eq_right.symm⟩
  · rintro ⟨rfl, rfl⟩
    rw [low, BitVec.setWidth_eq_extractLsb' (by decide)]
    exact BitVec.extractLsb'_append_extractLsb'

/-- The double accessor yields the result where its low word is the float of a byte, and
its upper word is the one in `ctx`. -/
theorem double_yields_iff (undefinedByte : BitVec 32 → BitVec 8) :
    ReturnAccessor.double.Yields saved (recomphookGetReturnDouble saved ctx undefinedByte) ↔
      (∃ n, saved.fl 0 = floatOfByte n) ∧
        (ctx.f 0).extractLsb' 32 32 = (saved.f 0).extractLsb' 32 32 := by
  have result : (recomphookGetReturnDouble saved ctx undefinedByte).f 0
      = (ctx.f 0).extractLsb' 32 32 ++
        floatOfByte ((byteOfFloat? (saved.fl 0)).getD (undefinedByte (saved.fl 0))) := by
    rw [recomphookGetReturnDouble, HookContext.setFl, HookContext.setFl]
    dsimp only
    rw [Function.update_of_ne (by decide), Function.update_self]
  change (recomphookGetReturnDouble saved ctx undefinedByte).f 0 = saved.f 0 ↔ _
  rw [result, append_eq_iff, and_comm]
  refine and_congr_left fun _ => ⟨fun same => ⟨_, same.symm⟩, ?_⟩
  rintro ⟨n, is_float⟩
  change floatOfByte _ = saved.fl 0
  rw [is_float, byteOfFloat?_floatOfByte, Option.getD_some]

end Yields

/-! ## run_hook and recomp_trigger_event -/

inductive Origin where
  | hook (slot : Nat)
  | event (index : Nat)
  deriving DecidableEq, Repr

def Origin.isHook : Origin → Bool
  | .hook _ => true
  | .event _ => false

/-- The hooks and listeners after loading, and what a cast that the language leaves
undefined gives. -/
structure HookEnv where
  slots : List HookSlot
  listeners : List (List EventListener)
  undefinedByte : BitVec 32 → BitVec 8

/-- `none` where the index is out of bounds. -/
def HookEnv.functions (env : HookEnv) : Origin → Option (List RegisteredHook)
  | .hook slot => (env.slots[slot]?).map HookSlot.hooks
  | .event index => env.listeners[index]?

/-- A call of `run_hook` or `recomp_trigger_event` that has not returned.  Of a hook,
`fired` is not in the source: `run_hook` has it on the stack alone.  `savedBefore` and
`started` are not in the source. -/
structure Firing (ε : Type) where
  origin : Origin
  todo : List RegisteredHook
  fired : HookContext ε
  savedBefore : List (HookContext ε)
  started : List RegisteredHook

def Firing.isHook {ε : Type} (f : Firing ε) : Bool := f.origin.isHook

/-- One thread, with the innermost call and the last saved context first.  Guest code
runs (of a hook, a listener or the game) unless a loop is at its head. -/
structure HookState (μ ε : Type) where
  ctx : HookContext ε
  rdram : μ
  /-- the first element of the stack, and the others -/
  resting : HookContext ε
  saved : List (HookContext ε)
  firings : List (Firing ε)
  inLoop : Bool

inductive HookLabel (μ ε : Type) where
  /-- whatever guest code does by itself -/
  | guest (ctx : HookContext ε) (rdram : μ)
  | getReturn (accessor : ReturnAccessor)
  | runHook (slot : Nat)
  | triggerEvent (index : UInt32)
  /-- the loop calls its next function -/
  | start
  /-- the loop is over -/
  | leave
  /-- the hook or the listener returns -/
  | ret

namespace HookState

variable {μ ε : Type}

def back (s : HookState μ ε) : HookContext ε := s.saved.headD s.resting

def fire (s : HookState μ ε) (origin : Origin) (functions : List RegisteredHook) : HookState μ ε :=
  { s with
    saved := if origin.isHook then s.ctx :: s.saved else s.saved
    firings := ⟨origin, functions, s.ctx, s.saved, []⟩ :: s.firings
    inLoop := true }

def startNext (s : HookState μ ε) : Option (HookState μ ε) :=
  match s.firings with
  | [] => none
  | f :: outer =>
    match f.todo with
    | [] => none
    | next :: todo =>
      some { s with
        firings := { f with todo := todo, started := f.started ++ [next] } :: outer
        inLoop := false }

def leaveLoop (s : HookState μ ε) : Option (HookState μ ε) :=
  match s.firings with
  | [] => none
  | f :: outer =>
    match f.todo with
    | [] =>
      some { s with
        saved := if f.isHook then s.saved.tail else s.saved
        firings := outer
        inLoop := false }
    | _ :: _ => none

/-- The context is taken from the stack, or from `fired_context`. -/
def restore (s : HookState μ ε) : Option (HookState μ ε) :=
  match s.firings with
  | [] => none
  | f :: _ =>
    some { s with
      ctx := if f.isHook then s.back else f.fired
      inLoop := true }

def step (env : HookEnv) (s : HookState μ ε) : HookLabel μ ε → Option (HookState μ ε)
  | .guest ctx rdram => if s.inLoop then none else some { s with ctx := ctx, rdram := rdram }
  | .getReturn accessor =>
    if s.inLoop then none else some { s with ctx := accessor.get env.undefinedByte s.back s.ctx }
  | .runHook slot =>
    if s.inLoop then none else (env.functions (.hook slot)).map (s.fire (.hook slot))
  | .triggerEvent index =>
    if s.inLoop then none else (env.functions (.event index.toNat)).map (s.fire (.event index.toNat))
  | .start => if s.inLoop then s.startNext else none
  | .leave => if s.inLoop then s.leaveLoop else none
  | .ret => if s.inLoop then none else s.restore

def idle (ctx resting : HookContext ε) (rdram : μ) : HookState μ ε :=
  ⟨ctx, rdram, resting, [], [], false⟩

def innermostHook (s : HookState μ ε) : Option (HookContext ε) :=
  (s.firings.find? Firing.isHook).map Firing.fired

end HookState

/-! ## What the hooks see -/

def CodeMods.registered (code : CodeMods) : Origin → Option (Bool × List RegisteredHook)
  | .hook slot => (code.gHookSlots[slot]?).map fun hookSlot => (hookSlot.isReturnHook, hookSlot.hooks)
  | .event index => (code.gEventListeners[index]?).map fun listeners => (false, listeners)

def CodeMods.InModOrder (code : CodeMods) (reverse : Bool) (hooks : List RegisteredHook) : Prop :=
  hooks.Pairwise fun a b =>
    if reverse then code.modOrderIndex b.modIndex ≤ code.modOrderIndex a.modIndex
    else code.modOrderIndex a.modIndex ≤ code.modOrderIndex b.modIndex

def HookEnv.ofSetup (loadEnv : LoadEnv) (code : CodeMods) (undefinedByte : BitVec 32 → BitVec 8) :
    HookEnv :=
  ⟨(CodeMods.finishSetup loadEnv code).1.gHookSlots,
    (CodeMods.finishSetup loadEnv code).1.gEventListeners, undefinedByte⟩

namespace HookState

variable {μ ε : Type}

/-- A hook or a listener starts from the context that was fired with, and those started so
far are in mod order; at the end all have run, the context is that one and the stack is as
before; an accessor yields the result of the innermost saved context. -/
def Observes (code : CodeMods) (s : HookState μ ε) (l : HookLabel μ ε) (t : HookState μ ε) : Prop :=
  match l with
  | .start => ∃ f outer reverse hooks, t.firings = f :: outer ∧ t.ctx = f.fired ∧
      code.registered f.origin = some (reverse, hooks) ∧ code.InModOrder reverse f.started
  | .leave => ∃ f reverse hooks, s.firings = f :: t.firings ∧ t.ctx = f.fired ∧
      t.saved = f.savedBefore ∧ code.registered f.origin = some (reverse, hooks) ∧
      f.started.Perm hooks ∧ code.InModOrder reverse f.started
  | .getReturn accessor => ∀ saved, s.innermostHook = some saved → accessor.Yields saved t.ctx
  | _ => True

/-- Where the double accessor is called in a hook, the low word of the saved result is the
float of an integer below 256, and the upper word is still in the context. -/
def DoubleRight (s : HookState μ ε) (l : HookLabel μ ε) (_ : HookState μ ε) : Prop :=
  match l with
  | .getReturn .double => ∀ saved, s.innermostHook = some saved →
      (∃ n, saved.fl 0 = floatOfByte n) ∧
        (s.ctx.f 0).extractLsb' 32 32 = (saved.f 0).extractLsb' 32 32
  | _ => True

end HookState

/-! ## The order of the hooks -/

section Order

variable (loadEnv : LoadEnv) (code : CodeMods) (undefinedByte : BitVec 32 → BitVec 8)

/-- The comparators of `finish_event_setup` and `finish_hook_setup`. -/
def CodeMods.runsBefore (code : CodeMods) (a b : RegisteredHook) : Bool :=
  decide (code.modOrderIndex a.modIndex < code.modOrderIndex b.modIndex)

theorem runsBefore_sorted (reverse : Bool) (hooks : List RegisteredHook) :
    code.InModOrder reverse (loadEnv.sortRegistered.sort
      (if reverse then fun a b => code.runsBefore b a else code.runsBefore) hooks) := by
  have forward : StdSort.StrictWeak code.runsBefore :=
    .of_key fun a b => (rfl : code.runsBefore a b
      = decide (code.modOrderIndex a.modIndex < code.modOrderIndex b.modIndex))
  cases reverse with
  | false =>
      refine (loadEnv.sortRegistered.sorted code.runsBefore hooks forward).imp fun in_order => ?_
      exact Nat.le_of_not_lt (of_decide_eq_false in_order)
  | true =>
      have backward : StdSort.StrictWeak fun a b => code.runsBefore b a :=
        ⟨fun a b => forward.asymm b a, fun a b c first second => forward.negTrans c b a second first⟩
      refine (loadEnv.sortRegistered.sorted _ hooks backward).imp fun in_order => ?_
      exact Nat.le_of_not_lt (of_decide_eq_false in_order)

theorem ofSetup_functions {origin : Origin} {functions : List RegisteredHook}
    (found : (HookEnv.ofSetup loadEnv code undefinedByte).functions origin = some functions) :
    ∃ reverse hooks, code.registered origin = some (reverse, hooks) ∧ functions.Perm hooks ∧
      code.InModOrder reverse functions := by
  cases origin with
  | hook slot =>
      change (((code.gHookSlots.map _)[slot]?).map HookSlot.hooks) = some functions at found
      rw [List.getElem?_map, Option.map_map] at found
      obtain ⟨hookSlot, here, rfl⟩ := Option.map_eq_some_iff.mp found
      refine ⟨hookSlot.isReturnHook, hookSlot.hooks, ?_, loadEnv.sortRegistered.perm _ _,
        runsBefore_sorted loadEnv code hookSlot.isReturnHook hookSlot.hooks⟩
      rw [CodeMods.registered, here, Option.map_some]
  | event index =>
      change (code.gEventListeners.map _)[index]? = some functions at found
      rw [List.getElem?_map] at found
      obtain ⟨listeners, here, rfl⟩ := Option.map_eq_some_iff.mp found
      refine ⟨false, listeners, ?_, loadEnv.sortRegistered.perm _ _,
        runsBefore_sorted loadEnv code false listeners⟩
      rw [CodeMods.registered, here, Option.map_some]

end Order

/-! ## What stays true -/

def Firing.savedContext {ε : Type} (f : Firing ε) : Option (HookContext ε) :=
  if f.isHook then some f.fired else none

theorem Firing.savedContext_hook {ε : Type} {f : Firing ε} (hook : f.isHook = true) :
    f.savedContext = some f.fired := if_pos hook

theorem Firing.savedContext_event {ε : Type} {f : Firing ε} (event : ¬f.isHook = true) :
    f.savedContext = none := if_neg event

/-- Each call has started a front part of its functions, and remembers the contexts of the
hooks around it. -/
def FiringsRight {ε : Type} (env : HookEnv) : List (Firing ε) → Prop
  | [] => True
  | f :: outer => env.functions f.origin = some (f.started ++ f.todo) ∧
      f.savedBefore = outer.filterMap Firing.savedContext ∧ FiringsRight env outer

namespace HookState

variable {μ ε : Type} {env : HookEnv} {s t : HookState μ ε} {l : HookLabel μ ε}

/-- The stack has the contexts of the hooks, and a loop at its head has the context of
its call. -/
structure Kept (env : HookEnv) (s : HookState μ ε) : Prop where
  saved : s.saved = s.firings.filterMap Firing.savedContext
  firings : FiringsRight env s.firings
  atHead : s.inLoop = true → ∃ f outer, s.firings = f :: outer ∧ s.ctx = f.fired

theorem back_eq (kept : Kept env s) {saved : HookContext ε} (inner : s.innermostHook = some saved) :
    s.back = saved := by
  rw [back, kept.saved]
  rw [innermostHook] at inner
  generalize s.firings = firings at inner
  induction firings with
  | nil => cases inner
  | cons f outer ih =>
      by_cases hook : f.isHook = true
      · rw [List.find?_cons_of_pos hook, Option.map_some, Option.some.injEq] at inner
        rw [List.filterMap_cons_some (Firing.savedContext_hook hook)]
        exact inner
      · rw [List.find?_cons_of_neg hook] at inner
        rw [List.filterMap_cons_none (Firing.savedContext_event hook)]
        exact ih inner

theorem fire_kept (kept : Kept env s) {origin : Origin} {functions : List RegisteredHook}
    (found : env.functions origin = some functions) : Kept env (s.fire origin functions) := by
  refine ⟨?_, ⟨?_, kept.saved, kept.firings⟩, fun _ => ⟨_, _, rfl, rfl⟩⟩
  · change (if origin.isHook then s.ctx :: s.saved else s.saved) = List.filterMap _ (_ :: _)
    rw [kept.saved]
    by_cases hook : origin.isHook = true
    · rw [if_pos hook, List.filterMap_cons_some
        (Firing.savedContext_hook (f := ⟨origin, functions, s.ctx, _, []⟩) hook)]
    · rw [if_neg hook, List.filterMap_cons_none
        (Firing.savedContext_event (f := ⟨origin, functions, s.ctx, _, []⟩) hook)]
  · exact found

theorem startNext_cases (taken : s.startNext = some t) :
    ∃ f outer next todo, s.firings = f :: outer ∧ f.todo = next :: todo ∧
      t = { s with
        firings := { f with todo := todo, started := f.started ++ [next] } :: outer
        inLoop := false } := by
  unfold startNext at taken
  cases firings : s.firings with
  | nil =>
      rw [firings] at taken
      cases taken
  | cons f outer =>
      rw [firings] at taken
      dsimp only at taken
      cases todo : f.todo with
      | nil =>
          rw [todo] at taken
          cases taken
      | cons next rest =>
          rw [todo] at taken
          cases taken
          exact ⟨f, outer, next, rest, rfl, todo, rfl⟩

theorem leaveLoop_cases (taken : s.leaveLoop = some t) :
    ∃ f outer, s.firings = f :: outer ∧ f.todo = [] ∧
      t = { s with
        saved := if f.isHook then s.saved.tail else s.saved
        firings := outer
        inLoop := false } := by
  unfold leaveLoop at taken
  cases firings : s.firings with
  | nil =>
      rw [firings] at taken
      cases taken
  | cons f outer =>
      rw [firings] at taken
      dsimp only at taken
      cases todo : f.todo with
      | nil =>
          rw [todo] at taken
          cases taken
          exact ⟨f, outer, rfl, todo, rfl⟩
      | cons next rest =>
          rw [todo] at taken
          cases taken

theorem restore_cases (taken : s.restore = some t) :
    ∃ f outer, s.firings = f :: outer ∧
      t = { s with ctx := if f.isHook then s.back else f.fired, inLoop := true } := by
  unfold restore at taken
  cases firings : s.firings with
  | nil =>
      rw [firings] at taken
      cases taken
  | cons f outer =>
      rw [firings] at taken
      cases taken
      exact ⟨f, outer, rfl, rfl⟩

theorem startNext_kept (kept : Kept env s) (taken : s.startNext = some t) : Kept env t := by
  obtain ⟨f, outer, next, todo, firings, is_todo, rfl⟩ := startNext_cases taken
  have right := kept.firings
  have saved := kept.saved
  rw [firings] at right saved
  obtain ⟨functions, before, outer_right⟩ := right
  refine ⟨saved, ⟨?_, before, outer_right⟩, fun absurd => by cases absurd⟩
  change env.functions f.origin = some (f.started ++ [next] ++ todo)
  rw [functions, is_todo, List.append_assoc, List.singleton_append]

theorem leave_saved (kept : Kept env s) {f : Firing ε} {outer : List (Firing ε)}
    (firings : s.firings = f :: outer) :
    (if f.isHook then s.saved.tail else s.saved) = outer.filterMap Firing.savedContext := by
  rw [kept.saved, firings]
  by_cases hook : f.isHook = true
  · rw [if_pos hook, List.filterMap_cons_some (Firing.savedContext_hook hook), List.tail_cons]
  · rw [if_neg hook, List.filterMap_cons_none (Firing.savedContext_event hook)]

theorem leaveLoop_kept (kept : Kept env s) (taken : s.leaveLoop = some t) : Kept env t := by
  obtain ⟨f, outer, firings, -, rfl⟩ := leaveLoop_cases taken
  have right := kept.firings
  rw [firings] at right
  exact ⟨leave_saved kept firings, right.2.2, fun absurd => by cases absurd⟩

theorem restore_kept (kept : Kept env s) (taken : s.restore = some t) : Kept env t := by
  obtain ⟨f, outer, firings, rfl⟩ := restore_cases taken
  refine ⟨kept.saved, kept.firings, fun _ => ⟨f, outer, firings, ?_⟩⟩
  by_cases hook : f.isHook = true
  · have inner : s.innermostHook = some f.fired := by
      rw [innermostHook, firings, List.find?_cons_of_pos hook, Option.map_some]
    change (if f.isHook then s.back else f.fired) = f.fired
    rw [if_pos hook, back_eq kept inner]
  · exact if_neg hook

theorem running_kept (kept : Kept env s) (ctx : HookContext ε) (rdram : μ) :
    Kept env { s with ctx := ctx, rdram := rdram, inLoop := false } :=
  ⟨kept.saved, kept.firings, fun absurd => by cases absurd⟩

theorem step_kept (kept : Kept env s) (taken : step env s l = some t) : Kept env t := by
  unfold step at taken
  cases mode : s.inLoop with
  | true =>
      cases l with
      | start =>
          rw [mode] at taken
          exact startNext_kept kept taken
      | leave =>
          rw [mode] at taken
          exact leaveLoop_kept kept taken
      | _ =>
          rw [mode] at taken
          cases taken
  | false =>
      cases l with
      | guest ctx rdram =>
          rw [mode] at taken
          cases taken
          exact running_kept kept ctx rdram
      | getReturn accessor =>
          rw [mode] at taken
          cases taken
          exact running_kept kept _ s.rdram
      | runHook slot =>
          rw [mode] at taken
          obtain ⟨functions, found, rfl⟩ := Option.map_eq_some_iff.mp taken
          exact fire_kept kept found
      | triggerEvent index =>
          rw [mode] at taken
          obtain ⟨functions, found, rfl⟩ := Option.map_eq_some_iff.mp taken
          exact fire_kept kept found
      | ret =>
          rw [mode] at taken
          exact restore_kept kept taken
      | _ =>
          rw [mode] at taken
          cases taken

/-! ## One step -/

section Steps

variable {loadEnv : LoadEnv} {code : CodeMods} {undefinedByte : BitVec 32 → BitVec 8}

theorem start_observes (kept : Kept (.ofSetup loadEnv code undefinedByte) s)
    (head : s.inLoop = true) (taken : s.startNext = some t) : Observes code s .start t := by
  have kept' := startNext_kept kept taken
  obtain ⟨f, outer, next, todo, firings, is_todo, rfl⟩ := startNext_cases taken
  obtain ⟨functions, -, -⟩ := kept'.firings
  obtain ⟨reverse, hooks, registered, -, in_order⟩ := ofSetup_functions _ _ _ functions
  obtain ⟨f', outer', firings', fired⟩ := kept.atHead head
  cases firings.symm.trans firings'
  exact ⟨_, outer, reverse, hooks, rfl, fired, registered,
    in_order.sublist (List.sublist_append_left _ _)⟩

theorem leave_observes (kept : Kept (.ofSetup loadEnv code undefinedByte) s)
    (head : s.inLoop = true) (taken : s.leaveLoop = some t) : Observes code s .leave t := by
  obtain ⟨f, outer, firings, ended, rfl⟩ := leaveLoop_cases taken
  have right := kept.firings
  rw [firings] at right
  obtain ⟨functions, before, -⟩ := right
  rw [ended, List.append_nil] at functions
  obtain ⟨reverse, hooks, registered, perm, in_order⟩ := ofSetup_functions _ _ _ functions
  obtain ⟨f', outer', firings', fired⟩ := kept.atHead head
  cases firings.symm.trans firings'
  exact ⟨f, reverse, hooks, firings, fired, (leave_saved kept firings).trans before.symm, registered,
    perm, in_order⟩

/-- A step shows what it should, but for a double whose words are no bytes. -/
theorem observes_iff (kept : Kept (.ofSetup loadEnv code undefinedByte) s)
    (taken : step (.ofSetup loadEnv code undefinedByte) s l = some t) :
    Observes code s l t ↔ DoubleRight s l t := by
  unfold step at taken
  cases l with
  | start =>
      cases mode : s.inLoop with
      | false =>
          rw [mode] at taken
          cases taken
      | true =>
          rw [mode] at taken
          exact iff_of_true (start_observes kept mode taken) trivial
  | leave =>
      cases mode : s.inLoop with
      | false =>
          rw [mode] at taken
          cases taken
      | true =>
          rw [mode] at taken
          exact iff_of_true (leave_observes kept mode taken) trivial
  | getReturn accessor =>
      cases mode : s.inLoop with
      | true =>
          rw [mode] at taken
          cases taken
      | false =>
          rw [mode] at taken
          cases taken
          by_cases double : accessor = .double
          · subst double
            refine forall_congr' fun saved => forall_congr' fun inner => ?_
            change ReturnAccessor.double.Yields saved
              (recomphookGetReturnDouble s.back s.ctx undefinedByte) ↔ _
            rw [back_eq kept inner]
            exact double_yields_iff saved s.ctx undefinedByte
          · refine iff_of_true (fun saved inner => ?_) ?_
            · change accessor.Yields saved (accessor.get undefinedByte s.back s.ctx)
              rw [back_eq kept inner]
              exact get_yields saved s.ctx undefinedByte double
            · cases accessor with
              | double => exact absurd rfl double
              | _ => trivial
  | guest ctx rdram => exact Iff.rfl
  | runHook slot => exact Iff.rfl
  | triggerEvent index => exact Iff.rfl
  | ret => exact Iff.rfl

end Steps

theorem idle_kept (env : HookEnv) (ctx resting : HookContext ε) (rdram : μ) :
    Kept env (idle ctx resting rdram) :=
  ⟨rfl, trivial, fun absurd => by cases absurd⟩

/-- In every run, whatever hooks and listeners do, every step shows what it should, if and
only if the double accessor is only called where its words are right. -/
theorem hooks_see_fired_context_iff (loadEnv : LoadEnv) (code : CodeMods)
    (undefinedByte : BitVec 32 → BitVec 8) (ctx resting : HookContext ε) (rdram : μ)
    (labels : List (HookLabel μ ε)) :
    EachStep (step (.ofSetup loadEnv code undefinedByte)) (Observes code)
        (idle ctx resting rdram) labels
      ↔ EachStep (step (.ofSetup loadEnv code undefinedByte)) DoubleRight
          (idle ctx resting rdram) labels :=
  eachStep_iff (I := Kept (.ofSetup loadEnv code undefinedByte))
    (fun _ _ _ kept taken => step_kept kept taken)
    (fun _ _ _ kept taken => observes_iff kept taken)
    (idle_kept _ ctx resting rdram) labels

/-! ## A function that returns 1.1 -/

def returned : HookContext Unit where
  r _ := 0
  f i := if i = 0 then 0x3FF199999999999A#64 else 0
  hi := 0
  lo := 0
  cop0Regs _ := 0
  mips3FloatMode := false
  dispatchEntryTarget := 0
  dispatchEntryRejected := false
  dispatchEntryRejectedTarget := 0
  rest := ()

def oneReturnHook : CodeMods :=
  { CodeMods.nothingLoaded with gHookSlots := [⟨[⟨0, .code 0 0⟩], true⟩] }

def hookedReturn : HookEnv := .ofSetup (CodeMods.libraryEnv []) oneReturnHook fun _ => 0

/-- The hook reads another double than the function has returned. -/
theorem double_result_lost :
    (run (step hookedReturn) Always (idle returned returned ())
        [.runHook 0, .start, .getReturn .double]).map (fun t => t.ctx.f 0)
      = some 0x3FF1999900000000#64 ∧
    ¬ EachStep (step hookedReturn) (Observes oneReturnHook) (idle returned returned ())
      [.runHook 0, .start, .getReturn .double] := by
  refine ⟨by decide, fun all => ?_⟩
  obtain ⟨-, all⟩ := all _ rfl
  obtain ⟨-, all⟩ := all _ rfl
  obtain ⟨yields, -⟩ := all _ rfl
  have same : _ = 0x3FF199999999999A#64 := yields returned rfl
  exact absurd same (by decide)

end HookState

end N64ModernRuntime.Librecomp
