import Mathlib.Tactic.Common
import TieredVM.Program.Dump
import TieredVM.Proofs.Image.Codec
import TieredVM.Proofs.Instruction.Stream
import TieredVM.Proofs.Verify.Flow
set_option autoImplicit false

namespace TieredVM

section Splitting

variable {α : Type} [BEq α] [LawfulBEq α] {a : α}

theorem not_mem_of_mem_splitOn {list part : List α} (h : part ∈ list.splitOn a) : a ∉ part := by
  induction list generalizing part with
  | nil =>
    obtain rfl : part = [] := by simpa using h
    exact List.not_mem_nil
  | cons first list ih =>
    rw [List.splitOn_cons_eq_if_modifyHead] at h
    split at h
    · rcases List.mem_cons.1 h with rfl | h
      · exact List.not_mem_nil
      · exact ih h
    · rename_i hfirst
      cases hparts : list.splitOn a with
      | nil => exact absurd hparts (List.splitOn_ne_nil _ _)
      | cons next parts =>
        rw [hparts, List.modifyHead_cons] at h
        rcases List.mem_cons.1 h with rfl | h
        · have hnext : a ∉ next := ih (hparts ▸ List.mem_cons_self)
          simpa [hnext] using fun hsame : a = first => hfirst (beq_iff_eq.2 hsame.symm)
        · exact ih (hparts ▸ List.mem_cons_of_mem _ h)

theorem splitOn_flatMap_concat {parts : List (List α)} (h : ∀ part ∈ parts, a ∉ part) :
    (parts.flatMap (· ++ [a])).splitOn a = parts ++ [[]] := by
  induction parts with
  | nil => simp
  | cons part parts ih =>
    rw [List.flatMap_cons, List.append_assoc, List.singleton_append,
      List.splitOn_append_cons_self_of_not_mem (h part List.mem_cons_self),
      ih fun other hother => h other (List.mem_cons_of_mem _ hother), List.cons_append]

end Splitting

theorem Program.splitOn_joinLines_iff {lines : List String} :
    (joinLines lines).toList.splitOn '\n' = lines.map String.toList ++ [[]] ↔
      ∀ line ∈ lines, '\n' ∉ line.toList := by
  have hjoin : (joinLines lines).toList = (lines.map String.toList).flatMap (· ++ ['\n']) := by
    simp [joinLines, String.toList_join, List.flatMap_map]
  constructor
  · intro h line hline
    exact not_mem_of_mem_splitOn (h ▸ List.mem_append_left _ (List.mem_map_of_mem hline))
  · intro h
    rw [hjoin]
    refine splitOn_flatMap_concat fun part hpart => ?_
    obtain ⟨line, hline, rfl⟩ := List.mem_map.1 hpart
    exact h line hline

namespace Text

theorem toString_string (text : String) : toString text = text := rfl

theorem not_mem_nat {char : Char} (h : char.isDigit = false) (n : Nat) :
    char ∉ (toString n).toList := by
  intro hmem
  rw [Nat.toString_eq_repr, Nat.toList_repr] at hmem
  exact absurd (Nat.isDigit_of_mem_toDigits (by decide) (by decide) hmem) (by simp [h])

theorem not_mem_word {char : Char} (hdigit : char.isDigit = false) (hsign : char ≠ '-')
    (word : Int64) : char ∉ (toString word).toList := by
  change char ∉ (toString word.toInt).toList
  cases word.toInt with
  | ofNat n => exact not_mem_nat hdigit n
  | negSucc n =>
    change char ∉ ("-" ++ toString (n + 1)).toList
    rw [String.toList_append, List.mem_append, not_or]
    exact ⟨mt List.mem_singleton.1 hsign, not_mem_nat hdigit (n + 1)⟩

theorem newline_not_mem_nat (n : Nat) : '\n' ∉ (toString n).toList :=
  not_mem_nat (by decide) n

theorem newline_not_mem_word (word : Int64) : '\n' ∉ (toString word).toList :=
  not_mem_word (by decide) (by decide) word

theorem newline_not_mem_showBytes (bytes : List UInt8) : '\n' ∉ (showBytes bytes).toList := by
  simp only [showBytes, String.toList_ofList, List.mem_flatMap, not_exists, not_and]
  intro char _
  unfold showChar
  split
  · decide
  · rename_i hchar
    simpa using fun h : '\n' = char => hchar h.symm

end Text

theorem Opcode.newline_not_mem_mnemonic (op : Opcode) : '\n' ∉ op.mnemonic.toList := by
  cases op <;> decide

namespace Program

def headLine (program : Program) : String := s!"Dumping Program: {program.name}"

def itemLine (program : Program) (item : Nat × Instruction) : String :=
  s!"\t{item.1}\t{item.2.opcode.mnemonic}{program.showOperands item.2}"

end Program

def Function.headLine (function : Function) : String :=
  s!"Function: {function.name} opcodeCount {function.code.size}"

namespace Program

/-- One line for the program, and for each function one and one for each of its instructions. -/
def lines (program : Program) : List String :=
  program.headLine :: program.functions.toList.flatMap fun function =>
    function.headLine :: (Listing.ofCode function.code).items.map program.itemLine

/-- No name has a line end in it. -/
structure Unbroken (program : Program) : Prop where
  name : '\n' ∉ program.name.toList
  functionNames : ∀ function ∈ program.functions, '\n' ∉ function.name.toList

variable {program : Program}

theorem listingLines_of_error? {listing : Listing} (h : listing.error? = none) :
    program.listingLines listing = listing.items.map program.itemLine := by
  induction listing with
  | done => rfl
  | bad error => cases h
  | item offset instr rest ih => rw [listingLines, ih h, Listing.items, List.map_cons, itemLine]

theorem newline_not_mem_showOperands (h : program.Unbroken) (instr : Instruction) :
    '\n' ∉ (program.showOperands instr).toList := by
  have hwords : '\n' ∉ (String.join (instr.operands.map fun word => s!" {word}")).toList := by
    simp [String.toList_join, Text.toString_string, Text.newline_not_mem_word]
  cases instr with
  | call callee args =>
    have hname : '\n' ∉ ((((Word.toIndex? callee).bind program.function?).map
        (·.name)).getD "?").toList := by
      cases hfound : (Word.toIndex? callee).bind program.function? with
      | none => decide
      | some function =>
        obtain ⟨id, -, hid⟩ := Option.bind_eq_some_iff.1 hfound
        exact h.functionNames function (Array.mem_of_getElem? hid)
    simp only [showOperands, Text.toString_string, String.toList_append, List.mem_append, not_or]
    exact ⟨⟨⟨⟨⟨by decide, hname⟩, by decide⟩, Text.newline_not_mem_word callee⟩, by decide⟩,
      Text.newline_not_mem_word args⟩
  | printString id =>
    have htext : '\n' ∉ ((((Word.toIndex? id).bind program.string?).map
        Text.showBytes).getD "").toList := by
      cases (Word.toIndex? id).bind program.string? with
      | none => decide
      | some bytes => exact Text.newline_not_mem_showBytes bytes
    simp only [showOperands, Text.toString_string, String.toList_append, List.mem_append, not_or]
    exact ⟨⟨by decide, htext⟩, by decide⟩
  | _ => exact hwords

theorem newline_not_mem_itemLine (h : program.Unbroken) (item : Nat × Instruction) :
    '\n' ∉ (program.itemLine item).toList := by
  have hoffset := Text.newline_not_mem_nat item.1
  simp only [itemLine, Text.toString_string, String.toList_append, List.mem_append, not_or]
  exact ⟨⟨⟨⟨by decide, hoffset⟩, by decide⟩, item.2.opcode.newline_not_mem_mnemonic⟩,
    newline_not_mem_showOperands h item.2⟩

theorem newline_mem_headLine : '\n' ∈ program.headLine.toList ↔ '\n' ∈ program.name.toList := by
  have hlabel : '\n' ∉ (toString "Dumping Program: ").toList := by decide
  unfold headLine
  rw [String.toList_append, List.mem_append, or_iff_right hlabel, Text.toString_string]

end Program

theorem Function.newline_mem_headLine {function : Function} :
    '\n' ∈ function.headLine.toList ↔ '\n' ∈ function.name.toList := by
  have hlabel : '\n' ∉ "Function: ".toList := by decide
  have hcount : '\n' ∉ " opcodeCount ".toList := by decide
  have hsize := Text.newline_not_mem_nat function.code.size
  unfold headLine
  simp only [Text.toString_string, String.toList_append, List.mem_append, hlabel, hcount, hsize,
    false_or, or_false]

namespace Program

variable {program : Program}

theorem unbroken_iff : program.Unbroken ↔ ∀ line ∈ program.lines, '\n' ∉ line.toList := by
  constructor
  · intro h line hline
    rcases List.mem_cons.1 hline with rfl | hline
    · exact fun hmem => h.name (newline_mem_headLine.1 hmem)
    · obtain ⟨function, hfunction, hline⟩ := List.mem_flatMap.1 hline
      rcases List.mem_cons.1 hline with rfl | hline
      · exact fun hmem => h.functionNames function (Array.mem_toList_iff.1 hfunction)
          (Function.newline_mem_headLine.1 hmem)
      · obtain ⟨item, -, rfl⟩ := List.mem_map.1 hline
        exact newline_not_mem_itemLine h item
  · intro h
    refine ⟨fun hmem => ?_, fun function hfunction hmem => ?_⟩
    · exact h program.headLine List.mem_cons_self (newline_mem_headLine.2 hmem)
    · have hline : function.headLine ∈ program.lines := List.mem_cons_of_mem _
        (List.mem_flatMap.2 ⟨function, Array.mem_toList_iff.2 hfunction, List.mem_cons_self⟩)
      exact h function.headLine hline (Function.newline_mem_headLine.2 hmem)

theorem dump_eq_joinLines
    (h : ∀ function ∈ program.functions.toList, (Listing.ofCode function.code).error? = none) :
    program.dump = joinLines program.lines := by
  have hfunctions : program.functions.toList.flatMap program.functionLines =
      program.functions.toList.flatMap fun function =>
        function.headLine :: (Listing.ofCode function.code).items.map program.itemLine := by
    rw [List.flatMap_def, List.flatMap_def]
    refine congrArg List.flatten (List.map_congr_left fun function hfunction => ?_)
    unfold functionLines Function.headLine
    rw [listingLines_of_error? (h function hfunction)]
  unfold dump lines headLine
  rw [hfunctions]

theorem Accepted.exists_row (h : program.Accepted) {function : Function}
    (hfunction : function ∈ program.functions) :
    ∃ instrs : List Instruction, function.code.toList = instrs.flatMap Instruction.encode ∧
      Listing.ofCode function.code = Listing.ofInstructions 0 instrs := by
  obtain ⟨id, hid⟩ := Array.mem_iff_getElem?.1 hfunction
  obtain ⟨-, summary, hchecked⟩ := h.checked hid
  obtain ⟨instrs, -, hwellFormed, -, -, hlisting⟩ := hchecked.exists_typing
  exact ⟨instrs, hwellFormed.encoded, hlisting⟩

theorem Accepted.dump_eq (h : program.Accepted) : program.dump = joinLines program.lines := by
  refine dump_eq_joinLines fun function hfunction => ?_
  obtain ⟨instrs, -, hlisting⟩ := h.exists_row (Array.mem_toList_iff.1 hfunction)
  rw [hlisting, Listing.error?_ofInstructions]

/-- The text for an accepted program consists of its lines, each of them ended: one for the program,
and for each function in the order of the ids one and one for each instruction, in the order of the
code. Split at the line ends, it gives exactly these lines if and only if no name has a line end in
it. -/
theorem Accepted.dump_lines (h : program.Accepted) :
    program.Dense ∧
    (∀ function ∈ program.functions, ∃ instrs : List Instruction,
      function.code.toList = instrs.flatMap Instruction.encode ∧
      (Listing.ofCode function.code).items = Listing.withOffsets instrs) ∧
    program.dump = joinLines program.lines ∧
    (program.dump.toList.splitOn '\n' = program.lines.map String.toList ++ [[]] ↔
      program.Unbroken) := by
  refine ⟨fun id function hlisted => (h.checked hlisted).1, fun function hfunction => ?_, h.dump_eq,
    ?_⟩
  · obtain ⟨instrs, hcode, hlisting⟩ := h.exists_row hfunction
    exact ⟨instrs, hcode, by rw [hlisting, ← Listing.placed, Listing.placed_eq_withOffsets]⟩
  · rw [h.dump_eq, unbroken_iff]
    exact splitOn_joinLines_iff

def greeting : Program where
  name := "greeting"
  functions := #[
    { name := "main", id := 0, argCount := 0, localCount := 0, maxStackDepth := 1
      code := (List.flatMap Instruction.encode [.printString 0, .pushConstant (-3), .call 1 1,
        .ret]).toArray },
    { name := "same", id := 1, argCount := 1, localCount := 0, maxStackDepth := 1
      code := (List.flatMap Instruction.encode [.pushArg 0, .ret]).toArray }]
  strings := #[Text.bytes "hi\nthere"]

theorem greeting_accepted : greeting.Accepted :=
  Program.Verifies.accepted (by decide +kernel) (by decide +kernel)

theorem dump_lines_greeting :
    greeting.dump.toList.splitOn '\n' = greeting.lines.map String.toList ++ [[]] :=
  greeting_accepted.dump_lines.2.2.2.2 ⟨by decide +kernel, by decide +kernel⟩

/-- The name of the second function has a line end in it. -/
def broken : Program where
  name := "broken"
  functions := #[
    { name := "main", id := 0, argCount := 0, localCount := 0, maxStackDepth := 1
      code := (List.flatMap Instruction.encode [.call 1 0, .ret]).toArray },
    { name := "o\ne", id := 1, argCount := 0, localCount := 0, maxStackDepth := 1
      code := (List.flatMap Instruction.encode [.pushConstant 1, .ret]).toArray }]
  strings := #[]

theorem load_broken : load broken.toImage.encode = .ok broken :=
  Verifies.load_encode (by decide +kernel) (by decide +kernel)

/-- The file of the program is accepted, but its text falls into more lines than the program has:
the name breaks the line of the call and the line of the function. -/
theorem dump_broken : load broken.toImage.encode = .ok broken ∧ broken.lines.length = 7 ∧
    (broken.dump.toList.splitOn '\n').length = 9 + 1 :=
  ⟨load_broken, by decide +kernel, by decide +kernel⟩

end Program
end TieredVM
