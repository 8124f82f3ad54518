import N64ModernRuntime.Librecomp.RspBuilds
import N64ModernRuntime.Librecomp.RspMemory
import N64ModernRuntime.Librecomp.RspUnit

/-!
# rsp_vu.hpp: a microcode in both builds

A recompiled microcode is not part of the sources.  Here it is any choice of the next
instruction by what the machine holds, with any effect of the scalar instructions.
-/

set_option autoImplicit false

namespace N64ModernRuntime.Librecomp

open Sse

/-! ## The machine -/

/-- `Accuracy::RSP::SISD` and `Accuracy::RSP::SIMD` -/
inductive Build where
  | sisd
  | simd
  deriving DecidableEq, Repr

/-- What the scalar instructions work on: registers, data memory and the rest of a context. -/
structure RspScalar (σ : Type) where
  r : Fin 32 → BitVec 32
  dmem : Dmem
  rest : σ

structure Rsp (σ : Type) where
  vu : Vu
  scalar : RspScalar σ

inductive VectorInstruction where
  | compute (op : VectorOp) (e : Fin 16) (vd vs vt : Fin 32)
  | cfc2 (rt : Fin 32) (rd : BitVec 8)
  | ctc2 (rt : Fin 32) (rd : BitVec 8)
  | mfc2 (e : Fin 16) (rt vs : Fin 32)
  | mtc2 (e : Fin 16) (rt vs : Fin 32)
  | vmacq (vd : Fin 32)
  | vmulq (e : Fin 16) (vd vs vt : Fin 32)
  | vrnd (d : Bool) (e : Fin 16) (vd : Fin 32) (vs : BitVec 8) (vt : Fin 32)
  | vmov (e : Fin 16) (vd : Fin 32) (de : Fin 8) (vt : Fin 32)
  | vsar (e : Fin 16) (vd : Fin 32)
  | vnop
  | vrcp (l : Bool) (e : Fin 16) (vd : Fin 32) (de : Fin 8) (vt : Fin 32)
  | vrsq (l : Bool) (e : Fin 16) (vd : Fin 32) (de : Fin 8) (vt : Fin 32)
  | vrcph (e : Fin 16) (vd : Fin 32) (de : Fin 8) (vt : Fin 32)
  | vrsqh (e : Fin 16) (vd : Fin 32) (de : Fin 8) (vt : Fin 32)
  | load (op : LoadOp) (e : Fin 16) (vt rs : Fin 32) (imm : BitVec 8)
  | ltv (e : Fin 16) (vt rs : Fin 32) (imm : BitVec 8)
  | store (op : StoreOp) (e : Fin 16) (vt rs : Fin 32) (imm : BitVec 8)
  | stv (e : Fin 16) (vt rs : Fin 32) (imm : BitVec 8)

/-- `v(index)` -/
def R128.call (build : Build) (v : R128) (index : Fin 16) : R128 :=
  match build with
  | .sisd => v.broadcast index
  | .simd => v.shuffle index

def Vu.compute (build : Build) (op : VectorOp) (e : Fin 16) (vd vs vt : Fin 32) (s : Vu) : Vu :=
  match build with
  | .sisd => s.sisd op e vd vs vt
  | .simd => s.simd op e vd vs vt

namespace Rsp

variable {σ : Type} (s : Rsp σ)

def setVu (vu : Vu) : Rsp σ := { s with vu := vu }

def setR (rt : Fin 32) (value : BitVec 32) : Rsp σ :=
  { s with scalar := { s.scalar with r := Function.update s.scalar.r rt value } }

def setDmem (dmem : Dmem) : Rsp σ := { s with scalar := { s.scalar with dmem := dmem } }

def execute (build : Build) (i : VectorInstruction) : Rsp σ :=
  let vu := s.vu
  let r := s.scalar.r
  let dmem := s.scalar.dmem
  let vte (e : Fin 16) (vt : Fin 32) : R128 := (vu.r vt).call build e
  match i with
  | .compute op e vd vs vt => s.setVu (vu.compute build op e vd vs vt)
  | .cfc2 rt rd =>
      s.setR rt (match build with
        | .sisd => vu.cfc2 rd
        | .simd => vu.cfc2Simd rd)
  | .ctc2 rt rd =>
      s.setVu (match build with
        | .sisd => vu.ctc2 (r rt) rd
        | .simd => vu.ctc2Simd (r rt) rd)
  | .mfc2 e rt vs => s.setR rt (vu.mfc2 e vs)
  | .mtc2 e rt vs => s.setVu (vu.mtc2 e (r rt) vs)
  | .vmacq vd => s.setVu (vu.vmacq vd)
  | .vmulq e vd vs vt => s.setVu (vu.vmulq vd vs (vte e vt))
  | .vrnd d e vd vs vt => s.setVu (vu.vrnd d vd vs (vte e vt))
  | .vmov e vd de vt => s.setVu (vu.vmov vd de (vte e vt))
  | .vsar e vd => s.setVu (vu.vsar e vd)
  | .vnop => s
  | .vrcp l e vd de vt => s.setVu (vu.vrcp l e vd de vt (vte e vt))
  | .vrsq l e vd de vt => s.setVu (vu.vrsq l e vd de vt (vte e vt))
  | .vrcph e vd de vt => s.setVu (vu.vrcph e vd de vt (vte e vt))
  | .vrsqh e vd de vt => s.setVu (vu.vrsqh e vd de vt (vte e vt))
  | .load op e vt rs imm => s.setVu (vu.setR vt (op.body e dmem (r rs) imm (vu.r vt)))
  | .ltv e vt rs imm => s.setVu { vu with r := ltv e dmem (r rs) imm vt vu.r }
  | .store op e vt rs imm => s.setDmem (op.body e (vu.r vt) (r rs) imm dmem)
  | .stv e vt rs imm => s.setDmem (stv e vt vu.r (r rs) imm dmem)

end Rsp

/-- The next instruction, or nothing once the microcode has returned. -/
abbrev Microcode (σ : Type) :=
  Rsp σ → Option (VectorInstruction ⊕ (RspScalar σ → RspScalar σ))

namespace Rsp

variable {σ : Type}

def step (build : Build) (microcode : Microcode σ) (s : Rsp σ) : Rsp σ :=
  match microcode s with
  | none => s
  | some (.inl i) => s.execute build i
  | some (.inr f) => { s with scalar := f s.scalar }

def run (build : Build) (microcode : Microcode σ) : Nat → Rsp σ → Rsp σ
  | 0, s => s
  | n + 1, s => run build microcode n (s.step build microcode)

/-! ## Flags stay masks -/

def Masked (s : Rsp σ) : Prop := s.vu.Masked

end Rsp

theorem Vu.Masked.eachLane {s : Vu} (masked : s.Masked) {body : Lane → Lane}
    (keeps : ∀ l : Lane, l.Masked → (body l).Masked) (vd vs : Fin 32) (vte : R128) :
    (s.eachLane body vd vs vte).Masked := by
  intro n
  have kept := keeps _ (masked.load vd vs vte n)
  rw [eachLane_eq]
  constructor
  · simpa [Vu.load, Vu.store, Operands.ofElements, Operands.element, Operands.map] using kept.vcoh
  · simpa [Vu.load, Vu.store, Operands.ofElements, Operands.element, Operands.map] using kept.vcol
  · simpa [Vu.load, Vu.store, Operands.ofElements, Operands.element, Operands.map] using kept.vcch
  · simpa [Vu.load, Vu.store, Operands.ofElements, Operands.element, Operands.map] using kept.vccl
  · simpa [Vu.load, Vu.store, Operands.ofElements, Operands.element, Operands.map] using kept.vce

theorem Vu.Masked.setFlagPair {s : Vu} (masked : s.Masked) (rd : BitVec 8) {pair : R128 × R128}
    (high : ∀ n, IsMask (pair.1.element n)) (low : ∀ n, IsMask (pair.2.element n)) :
    (s.setFlagPair rd pair).Masked := by
  intro n
  have flags := masked n
  rw [Vu.setFlagPair]
  split
  · exact ⟨high n, low n, flags.vcch, flags.vccl, flags.vce⟩
  · exact ⟨flags.vcoh, flags.vcol, high n, low n, flags.vce⟩
  · exact ⟨flags.vcoh, flags.vcol, flags.vcch, flags.vccl, low n⟩

theorem Vu.Masked.ctc2 {s : Vu} (masked : s.Masked) (rt : BitVec 32) (rd : BitVec 8) :
    (s.ctc2 rt rd).Masked := by
  have set := element_setEach
    (fun n => setFlag (decide (rt &&& (1 : BitVec 32) <<< (8 + n.val) ≠ 0)))
    (fun n => setFlag (decide (rt &&& (1 : BitVec 32) <<< (0 + n.val) ≠ 0))) (s.flagPair rd)
  refine masked.setFlagPair rd (fun n => ?_) fun n => ?_
  · rw [(set n).1, setFlag_eq_mask]
    exact isMask_mask _
  · rw [(set n).2, setFlag_eq_mask]
    exact isMask_mask _

theorem Lane.Masked.vmacq {l : Lane} (masked : l.Masked) : l.vmacq.Masked :=
  ⟨masked.vcoh, masked.vcol, masked.vcch, masked.vccl, masked.vce⟩

theorem Lane.Masked.vmulq {l : Lane} (masked : l.Masked) : l.vmulq.Masked :=
  ⟨masked.vcoh, masked.vcol, masked.vcch, masked.vccl, masked.vce⟩

theorem Lane.Masked.vrnd {l : Lane} (masked : l.Masked) (d shifted : Bool) :
    (l.vrnd d shifted).Masked :=
  ⟨masked.vcoh, masked.vcol, masked.vcch, masked.vccl, masked.vce⟩

theorem Vu.Masked.of_flags {s t : Vu} (masked : s.Masked) (vcoh : t.vcoh = s.vcoh)
    (vcol : t.vcol = s.vcol) (vcch : t.vcch = s.vcch) (vccl : t.vccl = s.vccl)
    (vce : t.vce = s.vce) : t.Masked := by
  intro n
  have flags := masked n
  simp only [Vu.load, Operands.element, Operands.map] at flags ⊢
  rw [vcoh, vcol, vcch, vccl, vce]
  exact ⟨flags.vcoh, flags.vcol, flags.vcch, flags.vccl, flags.vce⟩

/-- Only the instructions with two bodies write flags, and these write masks. -/
theorem Rsp.Masked.execute {σ : Type} {s : Rsp σ} (masked : s.Masked) (i : VectorInstruction) :
    (s.execute .simd i).Masked := by
  cases i with
  | compute op e vd vs vt => exact Vu.Masked.simd masked op e vd vs vt
  | ctc2 rt rd =>
      have set := Vu.Masked.ctc2 masked (s.scalar.r rt) rd
      rwa [Vu.ctc2_eq_ctc2Simd] at set
  | vmacq vd => exact Vu.Masked.eachLane masked (fun _ flags => flags.vmacq) vd vd 0
  | vmulq e vd vs vt => exact Vu.Masked.eachLane masked (fun _ flags => flags.vmulq) vd vs _
  | vrnd d e vd vs vt => exact Vu.Masked.eachLane masked (fun _ flags => flags.vrnd d _) vd vd _
  | _ => exact Vu.Masked.of_flags masked rfl rfl rfl rfl rfl

namespace Rsp

variable {σ : Type}

/-- One instruction does the same in both builds. -/
theorem execute_agrees {s : Rsp σ} (masked : s.Masked) (i : VectorInstruction) :
    s.execute .sisd i = s.execute .simd i := by
  have call (v : R128) (e : Fin 16) : v.call .sisd e = v.call .simd e := broadcast_eq_shuffle v e
  cases i with
  | compute op e vd vs vt => exact congrArg s.setVu (Vu.sisd_eq_simd masked op e vd vs vt)
  | cfc2 rt rd => exact congrArg (s.setR rt) (Vu.cfc2_eq_cfc2Simd masked rd)
  | ctc2 rt rd => exact congrArg s.setVu (s.vu.ctc2_eq_ctc2Simd (s.scalar.r rt) rd)
  | _ => simp only [execute, call]

theorem step_agrees {s : Rsp σ} (masked : s.Masked) (microcode : Microcode σ) :
    s.step .sisd microcode = s.step .simd microcode ∧ (s.step .simd microcode).Masked := by
  rw [step, step]
  cases microcode s with
  | none => exact ⟨rfl, masked⟩
  | some next =>
      cases next with
      | inl i => exact ⟨execute_agrees masked i, masked.execute i⟩
      | inr f => exact ⟨rfl, masked⟩

/-- Every microcode takes both builds through the same states. -/
theorem run_agrees (microcode : Microcode σ) (n : Nat) {s : Rsp σ} (masked : s.Masked) :
    s.run .sisd microcode n = s.run .simd microcode n ∧ (s.run .simd microcode n).Masked := by
  induction n generalizing s with
  | zero => exact ⟨rfl, masked⟩
  | succ n ih =>
      have first := step_agrees masked microcode
      rw [run, run, first.1]
      exact ih first.2

theorem run_agrees_clip :
    let s : Rsp Unit := ⟨.ofRegisters fun k => R128.ofElements fun n => BitVec.ofNat 16 (k + n),
      ⟨0, fun _ => 0, ()⟩⟩
    let microcode : Microcode Unit := fun _ => some (.inl (.compute .vch 8 1 2 3))
    s.run .sisd microcode 2 = s.run .simd microcode 2 ∧ (s.run .simd microcode 2).Masked :=
  run_agrees _ 2 (Vu.masked_ofRegisters _)

end Rsp

end N64ModernRuntime.Librecomp
