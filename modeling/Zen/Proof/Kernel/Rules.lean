import Zen.Kernel.System
import Zen.Proof.Switchboard.Effects

/-!
# Preconditions of kernel operations

How the kernel's ways to run something on the bus, behind the seam, on its registry or in a `try`
are taken apart.
-/

namespace Zen.Kernel
open Lib Sb KernelM

variable {ν ς α : Type}

@[simp] theorem wp_onBus {x : BusM (Shard ν) (Foreign ς) α} {k : Kernel ν ς}
    {Q : Except Exn α → Kernel ν ς → Prop} :
    wp (onBus x) k Q ↔ wp x k.world fun r world => Q r { k with world } := by
  simp only [wp, onBus, EStateM.run]
  cases x k.world <;> rfl

@[simp] theorem wp_onSeam {x : SeamM ς α} {k : Kernel ν ς} {Q : Except Exn α → Kernel ν ς → Prop} :
    wp (onSeam x) k Q ↔ wp x k.world.env fun r env => Q r { k with world := { k.world with env } } := by
  rw [onSeam, wp_onBus, wp_callback]

@[simp] theorem wp_onRegistry {x : EStateM Exn Registry α} {k : Kernel ν ς}
    {Q : Except Exn α → Kernel ν ς → Prop} :
    wp (onRegistry x) k Q ↔ wp x k.registry fun r registry => Q r { k with registry } := by
  simp only [wp, onRegistry, EStateM.run]
  cases x k.registry <;> rfl

@[simp] theorem wp_attempt {x : KernelM ν ς α} {k : Kernel ν ς}
    {Q : Except Exn (Except Exn α) → Kernel ν ς → Prop} :
    wp (attempt x) k Q ↔ wp x k fun r k' => Q (.ok r) k' := by
  simp only [wp, attempt, EStateM.run]
  cases x k <;> rfl

@[simp] theorem wp_perform {f : ς → α × ς} {call : α → Call} {w : Foreign ς}
    {Q : Except Exn α → Foreign ς → Prop} :
    wp (perform f call) w Q ↔
      Q (.ok (f w.memory).1) ⟨(f w.memory).2, w.calls ++ [call (f w.memory).1]⟩ := Iff.rfl

@[simp] theorem wp_onMemory {x : EStateM Exn ς α} {w : Foreign ς} {Q : Except Exn α → Foreign ς → Prop} :
    wp (onMemory x) w Q ↔ wp x w.memory fun r memory => Q r { w with memory } := by
  simp only [wp, onMemory, EStateM.run]
  cases x w.memory <;> rfl

theorem wp_admitBytes {bytes : ByteString} {door : Schema} {what : ByteString} {w : Foreign ς}
    {Q : Except Exn Value → Foreign ς → Prop} : wp (admitBytes bytes door what) w Q ↔
      match admitUnverified (parse bytes) door .firstError with
      | .accept v => Q (.ok v) w
      | .reject errors => Q (.error (.dllBoundary (ascii "library " ++ what ++
          ascii " refused by the gate: " ++ (Admission.reject errors).firstError.message))) w := by
  unfold admitBytes
  cases admitUnverified (parse bytes) door .firstError <;> rfl

theorem wp_fetchAbi {seam : Seam ς} {lib : Pointer} {w : Foreign ς}
    {Q : Except Exn (Except ByteString Pointer) → Foreign ς → Prop} {found : Option (Option Pointer)}
    {memory : ς} (asked : seam.shardAbi lib w.memory = (found, memory))
    (refused : (∀ abi, found = some (some abi) → seam.abiVersion abi memory ≠ zenAbiVersion) →
      ∀ error, Q (.ok (.error error)) ⟨memory, w.calls ++ [.shardAbi lib]⟩)
    (fetched : ∀ abi, found = some (some abi) → seam.abiVersion abi memory = zenAbiVersion →
      Q (.ok (.ok abi)) ⟨memory, w.calls ++ [.shardAbi lib]⟩) : wp (fetchAbi seam lib) w Q := by
  unfold fetchAbi
  rw [wp_bind, wp_perform, asked, andThen_ok]
  match found with
  | none => exact refused (by simp) _
  | some none => exact refused (by simp) _
  | some (some abi) =>
      simp only [wp_bind, wp_get, andThen_ok]
      split
      · rename_i unsupported
        exact refused (by simpa using unsupported) _
      · rename_i supported
        exact fetched abi rfl (Decidable.not_not.mp supported)

end Zen.Kernel
