import Mathlib.Data.List.Basic
import Mathlib.Tactic.Common
import TieredVM.Assembler.Steps
/-!
Code with holes. What a builder holds is settled by its steps except for the operands of the jumps
to labels, which are zeros at first and are overwritten one after another. Main statement: patching
reaches exactly these operands, and if it reaches all of them, the code is that of the instructions.
-/
set_option autoImplicit false

namespace TieredVM

theorem JumpKind.encodedLength_opcode (kind : JumpKind) : kind.opcode.encodedLength = 9 := by
  rcases kind with _ | (_ | _ | _) <;> rfl

theorem JumpKind.encode_instruction (kind : JumpKind) (target : Int64) :
    (kind.instruction target).encode = kind.opcode.toByte :: Word.toBytes target := by
  have hoperands : (kind.instruction target).operands = [target] := by cases kind <;> rfl
  rw [Instruction.encode, opcode_instruction, hoperands, List.flatMap_singleton]

namespace Body

namespace Step

def length : Step → Nat
  | emit instr => instr.encodedLength
  | jump kind _ => kind.opcode.encodedLength
  | _ => 0

def binding? : Step → Option Nat
  | bind label => some label
  | _ => none

def target? : Step → Option Nat
  | jump _ label => some label
  | _ => none

def instruction? (place : Nat → Nat) : Step → Option Instruction
  | emit instr => some instr
  | jump kind label => some (kind.instruction (Word.ofIndex (place label)))
  | _ => none

end Step

def length : List Step → Nat
  | [] => 0
  | step :: rest => step.length + length rest

def bindings (steps : List Step) : List Nat := steps.filterMap Step.binding?

def targets (steps : List Step) : List Nat := steps.filterMap Step.target?

def instructions (place : Nat → Nat) (steps : List Step) : List Instruction :=
  steps.filterMap (Step.instruction? place)

def holesFrom : Nat → List Step → List Hole
  | _, [] => []
  | offset, step :: rest =>
    (step.target?.map fun label => { offset := offset + 1, label }).toList ++
      holesFrom (offset + step.length) rest

/-- The step adds these bytes, up to what stands in the operand of a jump to a label. -/
inductive Step.Writes : Step → List UInt8 → Prop where
  | newLabel : Writes .newLabel []
  | bind (label : Nat) : Writes (.bind label) []
  | emit (instr : Instruction) : Writes (.emit instr) instr.encode
  | jump (kind : JumpKind) (label : Nat) {operand : List UInt8} (h : operand.length = 8) :
      Writes (.jump kind label) (kind.opcode.toByte :: operand)
  | finish : Writes .finish []

inductive Fills : List Step → List UInt8 → Prop where
  | nil : Fills [] []
  | cons {step : Step} {steps : List Step} {bytes code : List UInt8} :
      step.Writes bytes → Fills steps code → Fills (step :: steps) (bytes ++ code)

variable {step : Step} {steps : List Step} {bytes code : List UInt8}

@[simp] theorem length_nil : length [] = 0 := rfl

@[simp] theorem length_cons (step : Step) (steps : List Step) :
    length (step :: steps) = step.length + length steps := rfl

@[simp] theorem length_append (steps more : List Step) :
    length (steps ++ more) = length steps + length more := by
  induction steps with
  | nil => simp
  | cons step steps ih => simp [ih, Nat.add_assoc]

theorem Step.Writes.length_eq (h : step.Writes bytes) : bytes.length = step.length := by
  cases h with
  | emit instr => exact instr.length_encode
  | jump kind label h => simp [Step.length, h, kind.encodedLength_opcode]
  | _ => rfl

theorem Fills.length_eq (h : Fills steps code) : code.length = length steps := by
  induction h with
  | nil => rfl
  | cons hwrites _ ih => simp [hwrites.length_eq, ih]

theorem Fills.concat (h : Fills steps code) (hwrites : step.Writes bytes) :
    Fills (steps ++ [step]) (code ++ bytes) := by
  induction h with
  | nil => simpa using Fills.cons hwrites .nil
  | cons hfirst _ ih => simpa using Fills.cons hfirst ih

@[simp] theorem targets_cons (step : Step) (steps : List Step) :
    targets (step :: steps) = step.target?.toList ++ targets steps := by
  cases h : step.target? <;> simp [targets, h]

@[simp] theorem instructions_cons (place : Nat → Nat) (step : Step) (steps : List Step) :
    instructions place (step :: steps) =
      (step.instruction? place).toList ++ instructions place steps := by
  cases h : step.instruction? place <;> simp [instructions, h]

theorem holesFrom_append (offset : Nat) (steps more : List Step) :
    holesFrom offset (steps ++ more) =
      holesFrom offset steps ++ holesFrom (offset + length steps) more := by
  induction steps generalizing offset with
  | nil => rfl
  | cons step steps ih => simp [holesFrom, ih, Nat.add_assoc]

theorem map_label_holesFrom (offset : Nat) (steps : List Step) :
    (holesFrom offset steps).map (·.label) = targets steps := by
  induction steps generalizing offset with
  | nil => rfl
  | cons step steps ih => cases h : step.target? <;> simp [holesFrom, h, ih]

theorem Step.length_instruction? (place : Nat → Nat) (step : Step) :
    ((step.instruction? place).toList.flatMap Instruction.encode).length = step.length := by
  cases step with
  | emit instr => simp [instruction?, length, instr.length_encode]
  | jump kind label =>
    simp [instruction?, length, kind.encode_instruction, kind.encodedLength_opcode]
  | _ => rfl

theorem length_flatMap_instructions (place : Nat → Nat) (steps : List Step) :
    ((instructions place steps).flatMap Instruction.encode).length = length steps := by
  induction steps with
  | nil => rfl
  | cons step steps ih =>
    rw [instructions_cons, List.flatMap_append, List.length_append, ih,
      step.length_instruction? place, length_cons]

theorem toList_overwrite {code : Array UInt8} {front old back new : List UInt8}
    (hcode : code.toList = front ++ old ++ back) (hlength : old.length = new.length) :
    (overwrite code front.length new).toList = front ++ new ++ back := by
  induction new generalizing code front old with
  | nil =>
    obtain rfl := List.length_eq_zero_iff.1 hlength
    exact hcode
  | cons byte new ih =>
    cases old with
    | nil => cases hlength
    | cons first old =>
      have hset : (code.setIfInBounds front.length byte).toList =
          (front ++ [byte]) ++ old ++ back := by
        simp [hcode]
      have hrest := ih hset (by simpa using hlength)
      simpa [overwrite] using hrest

theorem toList_overwrite_operand {whole : Array UInt8} {front operand : List UInt8}
    {kind : JumpKind} (target : Int64) (hoperand : operand.length = 8)
    (hwhole : whole.toList = front ++ (kind.opcode.toByte :: operand ++ code)) :
    (overwrite whole (front.length + 1) (Word.toBytes target)).toList =
      front ++ kind.opcode.toByte :: Word.toBytes target ++ code := by
  have hsplit : whole.toList = front ++ [kind.opcode.toByte] ++ operand ++ code := by
    simpa using hwhole
  have hover := toList_overwrite hsplit (hoperand.trans (Word.length_toBytes target).symm)
  simpa using hover

theorem fst_patch (place? : Nat → Option Nat) (code : Array UInt8) (holes : List Hole) :
    (patch place? code holes).1 =
      (holes.map (·.label)).find? fun label => (place? label).isNone := by
  induction holes generalizing code with
  | nil => rfl
  | cons hole holes ih => cases h : place? hole.label <;> simp [patch, h, ih]

theorem Step.Writes.eq_instruction? (h : step.Writes bytes) (htarget : step.target? = none)
    (place : Nat → Nat) : bytes = (step.instruction? place).toList.flatMap Instruction.encode := by
  cases h with
  | emit instr => simp [instruction?]
  | jump kind label h => cases htarget
  | _ => rfl

/-- Behind the bytes in front, the result of patching still fills the steps, and it is the code of
their instructions if no label was without a place. -/
def Patched (place? : Nat → Option Nat) (front : List UInt8) (steps : List Step)
    (result : Option Nat × Array UInt8) : Prop :=
  ∃ code, Fills steps code ∧ result.2.toList = front ++ code ∧
    (result.1 = none →
      code = (instructions (fun label => (place? label).getD 0) steps).flatMap Instruction.encode)

theorem Patched.cons {place? : Nat → Option Nat} {front : List UInt8}
    {result : Option Nat × Array UInt8} (h : Patched place? (front ++ bytes) steps result)
    (hwrites : step.Writes bytes)
    (hbytes : bytes = (step.instruction? fun label => (place? label).getD 0).toList.flatMap
      Instruction.encode) : Patched place? front (step :: steps) result := by
  obtain ⟨code, hfills, hcode, hdone⟩ := h
  refine ⟨bytes ++ code, hfills.cons hwrites, ?_, fun hnone => ?_⟩
  · rw [hcode, List.append_assoc]
  · rw [instructions_cons, List.flatMap_append, ← hbytes, hdone hnone]

theorem patched_patch (place? : Nat → Option Nat) {whole : Array UInt8} {front : List UInt8}
    (hfills : Fills steps code) (hwhole : whole.toList = front ++ code) :
    Patched place? front steps (patch place? whole (holesFrom front.length steps)) := by
  induction hfills generalizing whole front with
  | nil => exact ⟨[], .nil, hwhole, fun _ => rfl⟩
  | @cons step steps bytes code hwrites hrest ih =>
    have hlength : ∀ {bytes}, step.Writes bytes →
        (front ++ bytes).length = front.length + step.length :=
      fun h => by rw [List.length_append, h.length_eq]
    rw [holesFrom]
    cases htarget : step.target? with
    | none =>
      have hbehind := ih (hwhole.trans (List.append_assoc _ _ _).symm)
      rw [hlength hwrites] at hbehind
      exact hbehind.cons hwrites (hwrites.eq_instruction? htarget _)
    | some label =>
      cases hwrites with
      | @jump kind label operand hoperand =>
        obtain rfl := Option.some.inj htarget
        simp only [Option.map_some, Option.toList_some, List.singleton_append, patch]
        cases hplace : place? label with
        | none =>
          refine ⟨_, .cons (.jump kind label hoperand) hrest, hwhole, fun hnone => ?_⟩
          cases hnone
        | some place =>
          have hwrites : Step.Writes (.jump kind label)
              (kind.opcode.toByte :: Word.toBytes (Word.ofIndex place)) :=
            .jump kind label (Word.length_toBytes _)
          have hbehind := ih (toList_overwrite_operand (Word.ofIndex place) hoperand hwhole)
          rw [hlength hwrites] at hbehind
          refine hbehind.cons hwrites ?_
          simp [Step.instruction?, hplace, kind.encode_instruction]
      | _ => cases htarget

end Body
end TieredVM
