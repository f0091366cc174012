import TieredVM.Proofs.Program.Lines
set_option autoImplicit false

namespace TieredVM

section Marks

variable {α : Type} [BEq α] [LawfulBEq α] {mark : α}

theorem append_cons_inj_of_first {a b s t : List α} (ha : mark ∉ a) (hb : mark ∉ b)
    (h : a ++ mark :: s = b ++ mark :: t) : a = b ∧ s = t := by
  have hsplit := congrArg (List.splitOn mark) h
  rw [List.splitOn_append_cons_self_of_not_mem ha,
    List.splitOn_append_cons_self_of_not_mem hb] at hsplit
  obtain ⟨rfl, -⟩ := List.cons.inj hsplit
  exact ⟨rfl, (List.cons.inj (List.append_cancel_left h)).2⟩

theorem append_cons_inj_of_last {a b s t : List α} (hs : mark ∉ s) (ht : mark ∉ t)
    (h : a ++ mark :: s = b ++ mark :: t) : a = b ∧ s = t := by
  have hreverse := congrArg List.reverse h
  simp only [List.reverse_append, List.reverse_cons, List.append_assoc,
    List.singleton_append] at hreverse
  obtain ⟨hafter, hbefore⟩ := append_cons_inj_of_first (mt List.mem_reverse.1 hs)
    (mt List.mem_reverse.1 ht) hreverse
  exact ⟨List.reverse_injective hbefore, List.reverse_injective hafter⟩

theorem flatMap_cons_inj {first second : List (List α)} (hfirst : ∀ part ∈ first, mark ∉ part)
    (hsecond : ∀ part ∈ second, mark ∉ part)
    (h : first.flatMap (mark :: ·) = second.flatMap (mark :: ·)) : first = second := by
  have hturned : ∀ parts : List (List α),
      parts.flatMap (mark :: ·) ++ [mark] = mark :: parts.flatMap (· ++ [mark]) := by
    intro parts
    induction parts with
    | nil => rfl
    | cons part parts ih => simp [ih]
  have hended := congrArg (· ++ [mark]) h
  simp only [hturned] at hended
  have hsplit := congrArg (List.splitOn mark) (List.cons.inj hended).2
  rw [splitOn_flatMap_concat hfirst, splitOn_flatMap_concat hsecond] at hsplit
  exact List.append_cancel_right hsplit

end Marks

section Blocks

variable {α : Type} {p : α → Bool}

def Headed (p : α → Bool) (block : α × List α) : Prop :=
  p block.1 = true ∧ ∀ a ∈ block.2, p a = false

theorem takeWhile_append_blocks {body : List α} {blocks : List (α × List α)}
    (hbody : ∀ a ∈ body, p a = false) (hblocks : ∀ block ∈ blocks, Headed p block) :
    (body ++ blocks.flatMap fun block => block.1 :: block.2).takeWhile (fun a => !p a) = body := by
  have hnone : (blocks.flatMap fun block => block.1 :: block.2).takeWhile (fun a => !p a) = [] := by
    cases blocks with
    | nil => rfl
    | cons block blocks => simp [(hblocks block List.mem_cons_self).1]
  rw [List.takeWhile_append_of_pos (by simpa using hbody), hnone, List.append_nil]

theorem flatMap_blocks_inj {first second : List (α × List α)}
    (hfirst : ∀ block ∈ first, Headed p block) (hsecond : ∀ block ∈ second, Headed p block)
    (h : (first.flatMap fun block => block.1 :: block.2) =
      second.flatMap fun block => block.1 :: block.2) : first = second := by
  induction first generalizing second with
  | nil =>
    cases second with
    | nil => rfl
    | cons other second => simp at h
  | cons block first ih =>
    cases second with
    | nil => simp at h
    | cons other second =>
      rw [List.forall_mem_cons] at hfirst hsecond
      simp only [List.flatMap_cons, List.cons_append, List.cons.injEq] at h
      obtain ⟨hhead, hrest⟩ := h
      -- both bodies reach up to the next head, or to the end
      have hbody := congrArg (List.takeWhile fun a => !p a) hrest
      rw [takeWhile_append_blocks hfirst.1.2 hfirst.2,
        takeWhile_append_blocks hsecond.1.2 hsecond.2] at hbody
      rw [hbody] at hrest
      rw [ih hfirst.2 hsecond.2 (List.append_cancel_left hrest), Prod.ext hhead hbody]

end Blocks

theorem map_eq_map_of_map_eq_map {α β γ δ : Type} {f : α → γ} {g : β → γ} {f' : α → δ} {g' : β → δ}
    {first : List α} {second : List β} (h : first.map f = second.map g)
    (himages : ∀ a ∈ first, ∀ b ∈ second, f a = g b → f' a = g' b) :
    first.map f' = second.map g' := by
  induction first generalizing second with
  | nil =>
    cases second with
    | nil => rfl
    | cons b second => simp at h
  | cons a first ih =>
    cases second with
    | nil => simp at h
    | cons b second =>
      obtain ⟨hhead, hrest⟩ := List.cons.inj h
      rw [List.map_cons, List.map_cons, himages a List.mem_cons_self b List.mem_cons_self hhead,
        ih hrest fun x hx y hy =>
          himages x (List.mem_cons_of_mem _ hx) y (List.mem_cons_of_mem _ hy)]

namespace Text

theorem toString_nat_injective {m n : Nat} (h : toString m = toString n) : m = n := by
  rw [← String.toList_inj, Nat.toString_eq_repr, Nat.toString_eq_repr, Nat.toList_repr,
    Nat.toList_repr] at h
  have hread := congrArg (Nat.ofDigitChars 10 · 0) h
  simpa only [Nat.ofDigitChars_ten_toDigits] using hread

theorem toString_nat_ne_sign (m n : Nat) : toString m ≠ "-" ++ toString (n + 1) := by
  intro h
  have hsign : '-' ∉ (toString m).toList := not_mem_nat (by decide) m
  simp [h] at hsign

theorem toString_int_injective {i j : Int} (h : toString i = toString j) : i = j := by
  cases i with
  | ofNat m =>
    cases j with
    | ofNat n => exact congrArg Int.ofNat (toString_nat_injective h)
    | negSucc n => exact absurd h (toString_nat_ne_sign m n)
  | negSucc m =>
    cases j with
    | ofNat n => exact absurd h.symm (toString_nat_ne_sign n m)
    | negSucc n =>
      have hdigits : toString (m + 1) = toString (n + 1) := (String.append_right_inj _).1 h
      exact congrArg Int.negSucc (Nat.succ.inj (toString_nat_injective hdigits))

theorem toString_word_injective {a b : Int64} (h : toString a = toString b) : a = b :=
  Int64.toInt_inj.1 (toString_int_injective h)

theorem toList_words (words : List Int64) :
    (String.join (words.map fun word => s!" {word}")).toList =
      (words.map fun word => (toString word).toList).flatMap (' ' :: ·) := by
  simp only [String.toList_join, List.flatMap_map, String.toList_append]
  rfl

theorem words_inj {a b : List Int64} (h : String.join (a.map fun word => s!" {word}") =
    String.join (b.map fun word => s!" {word}")) : a = b := by
  have hblank : ∀ words : List Int64, ∀ part ∈ words.map fun word => (toString word).toList,
      ' ' ∉ part :=
    fun words => List.forall_mem_map.2 fun word _ => not_mem_word (by decide) (by decide) word
  rw [← String.toList_inj, toList_words, toList_words] at h
  exact List.map_injective_iff.2
    (fun _ _ hword => toString_word_injective (String.toList_injective hword))
    (flatMap_cons_inj (hblank a) (hblank b) h)

end Text

theorem Opcode.mnemonic_injective {a b : Opcode} (h : a.mnemonic = b.mnemonic) : a = b := by
  have hread := ofMnemonic?_mnemonic a
  rw [h, ofMnemonic?_mnemonic] at hread
  exact (Option.some.inj hread).symm

theorem Opcode.blank_not_mem_mnemonic (op : Opcode) : ' ' ∉ op.mnemonic.toList := by
  cases op <;> decide

namespace Instruction

/-- An instruction is told by its opcode and its operands, since these are all that its encoding
holds. -/
theorem eq_of_operands {first second : Instruction} (hop : first.opcode = second.opcode)
    (hoperands : first.operands = second.operands) : first = second := by
  have hencode : first.encode = second.encode := by rw [encode, encode, hop, hoperands]
  have hfirst : decode first.encode.toArray 0 = .ok first := decode_eq_ok_iff.2 List.prefix_rfl
  have hsecond : decode second.encode.toArray 0 = .ok second := decode_eq_ok_iff.2 List.prefix_rfl
  rw [hencode, hsecond] at hfirst
  exact (Except.ok.inj hfirst).symm

theorem exists_call_of_opcode {instr : Instruction} (h : instr.opcode = .call) :
    ∃ callee args, instr = .call callee args := by
  have hlength : instr.operands.length = 2 := by rw [length_operands, h, Opcode.operandCount]
  obtain ⟨callee, args, hoperands⟩ := List.length_eq_two.1 hlength
  exact ⟨callee, args, eq_of_operands h hoperands⟩

theorem exists_printString_of_opcode {instr : Instruction} (h : instr.opcode = .printString) :
    ∃ id, instr = .printString id := by
  have hlength : instr.operands.length = 1 := by rw [length_operands, h, Opcode.operandCount]
  obtain ⟨id, hoperands⟩ := List.length_eq_one_iff.1 hlength
  exact ⟨id, eq_of_operands h hoperands⟩

end Instruction

namespace Program

variable {program : Program} {instr : Instruction}

/-- If the instruction prints a string, the program has it. -/
def HasString (program : Program) (instr : Instruction) : Prop :=
  ∀ id, instr = .printString id → ∃ bytes, (Word.toIndex? id).bind program.string? = some bytes

/-- No two strings are shown alike. -/
def ShownApart (program : Program) : Prop :=
  (program.strings.toList.map Text.showBytes).Nodup

instance : Decidable program.ShownApart :=
  inferInstanceAs (Decidable (program.strings.toList.map Text.showBytes).Nodup)

theorem exists_showOperands_call (program : Program) (callee args : Int64) : ∃ name : List Char,
    (program.showOperands (.call callee args)).toList = ' ' :: (name ++ '(' ::
      ((toString callee).toList ++ ')' :: ' ' :: (toString args).toList)) :=
  ⟨((((Word.toIndex? callee).bind program.function?).map (·.name)).getD "?").toList,
    by simp [showOperands, Text.toString_string]⟩

theorem showOperands_printString {id : Int64} {bytes : List UInt8}
    (h : (Word.toIndex? id).bind program.string? = some bytes) :
    (program.showOperands (.printString id)).toList =
      ' ' :: '"' :: ((Text.showBytes bytes).toList ++ ['"']) := by
  simp [showOperands, Text.toString_string, h]

theorem showOperands_of_words (hcall : instr.opcode ≠ .call)
    (hprint : instr.opcode ≠ .printString) : program.showOperands instr =
      String.join (instr.operands.map fun word => s!" {word}") := by
  cases instr with
  | call callee args => exact absurd rfl hcall
  | printString id => exact absurd rfl hprint
  | _ => rfl

theorem string?_congr {a b : Program} (h : a.strings = b.strings) : a.string? = b.string? := by
  funext id
  rw [string?, string?, h]

theorem ShownApart.place_inj (h : program.ShownApart) {n n' : Nat} {bytes bytes' : List UInt8}
    (hfirst : program.string? n = some bytes) (hsecond : program.string? n' = some bytes')
    (hshown : Text.showBytes bytes = Text.showBytes bytes') : n = n' := by
  have hget : ∀ {k : Nat} {text : List UInt8}, program.string? k = some text →
      (program.strings.toList.map Text.showBytes)[k]? = some (Text.showBytes text) := by
    intro k text hk
    rw [List.getElem?_map, Array.getElem?_toList, ← string?, hk, Option.map_some]
  have hlt := (List.getElem?_eq_some_iff.1 (hget hfirst)).1
  exact (List.getElem?_inj hlt h).1 (by rw [hget hfirst, hget hsecond, hshown])

theorem exists_blank_showOperands (h : program.HasString instr) :
    ∃ rest, (program.showOperands instr).toList ++ [' '] = ' ' :: rest := by
  by_cases hcall : instr.opcode = .call
  · obtain ⟨callee, args, rfl⟩ := Instruction.exists_call_of_opcode hcall
    obtain ⟨name, hname⟩ := exists_showOperands_call program callee args
    exact ⟨_, by rw [hname, List.cons_append]⟩
  by_cases hprint : instr.opcode = .printString
  · obtain ⟨id, rfl⟩ := Instruction.exists_printString_of_opcode hprint
    obtain ⟨bytes, hbytes⟩ := h id rfl
    exact ⟨_, by rw [showOperands_printString hbytes, List.cons_append]⟩
  · rw [showOperands_of_words hcall hprint, Text.toList_words]
    cases instr.operands with
    | nil => exact ⟨[], rfl⟩
    | cons word words => exact ⟨_, rfl⟩

section Pair

variable {a b : Program} {first second : Instruction}

/-- The numbers of a call stand behind the last opening parenthesis, whatever the name holds. -/
theorem call_inj {callee args callee' args' : Int64}
    (h : a.showOperands (.call callee args) = b.showOperands (.call callee' args')) :
    callee = callee' ∧ args = args' := by
  obtain ⟨name, hname⟩ := exists_showOperands_call a callee args
  obtain ⟨name', hname'⟩ := exists_showOperands_call b callee' args'
  have hclose : ∀ word : Int64, ')' ∉ (toString word).toList :=
    Text.not_mem_word (by decide) (by decide)
  have hopen : ∀ word word' : Int64,
      '(' ∉ (toString word).toList ++ ')' :: ' ' :: (toString word').toList := by
    intro word word'
    have hnumber : ∀ word : Int64, '(' ∉ (toString word).toList :=
      Text.not_mem_word (by decide) (by decide)
    simp [hnumber]
  rw [← String.toList_inj, hname, hname'] at h
  -- read from the end, since the name may hold parentheses and digits too
  obtain ⟨-, hnumbers⟩ := append_cons_inj_of_last (hopen _ _) (hopen _ _) (List.cons.inj h).2
  obtain ⟨hcallee, hargs⟩ := append_cons_inj_of_first (hclose _) (hclose _) hnumbers
  exact ⟨Text.toString_word_injective (String.toList_injective hcallee),
    Text.toString_word_injective (String.toList_injective (List.cons.inj hargs).2)⟩

theorem printString_inj (hstrings : a.strings = b.strings) (hapart : a.ShownApart) {id id' : Int64}
    (hfirst : a.HasString (.printString id)) (hsecond : b.HasString (.printString id'))
    (h : a.showOperands (.printString id) = b.showOperands (.printString id')) : id = id' := by
  obtain ⟨bytes, hbytes⟩ := hfirst id rfl
  obtain ⟨bytes', hbytes'⟩ := hsecond id' rfl
  rw [← String.toList_inj, showOperands_printString hbytes, showOperands_printString hbytes'] at h
  have htext := List.append_cancel_right (List.cons.inj (List.cons.inj h).2).2
  obtain ⟨n, hn, hlisted⟩ := Option.bind_eq_some_iff.1 hbytes
  obtain ⟨n', hn', hlisted'⟩ := Option.bind_eq_some_iff.1 hbytes'
  rw [← string?_congr hstrings] at hlisted'
  have hplace := hapart.place_inj hlisted hlisted' (String.toList_injective htext)
  rw [← Word.ofIndex_of_toIndex? hn, ← Word.ofIndex_of_toIndex? hn', hplace]

theorem showOperands_inj (hstrings : a.strings = b.strings) (hapart : a.ShownApart)
    (hfirst : a.HasString first) (hsecond : b.HasString second)
    (hop : first.opcode = second.opcode)
    (h : a.showOperands first = b.showOperands second) : first = second := by
  by_cases hcall : first.opcode = .call
  · obtain ⟨callee, args, rfl⟩ := Instruction.exists_call_of_opcode hcall
    obtain ⟨callee', args', rfl⟩ := Instruction.exists_call_of_opcode (hop ▸ hcall)
    obtain ⟨rfl, rfl⟩ := call_inj h
    rfl
  by_cases hprint : first.opcode = .printString
  · obtain ⟨id, rfl⟩ := Instruction.exists_printString_of_opcode hprint
    obtain ⟨id', rfl⟩ := Instruction.exists_printString_of_opcode (hop ▸ hprint)
    rw [printString_inj hstrings hapart hfirst hsecond h]
  · rw [showOperands_of_words hcall hprint,
      showOperands_of_words (hop ▸ hcall) (hop ▸ hprint)] at h
    exact Instruction.eq_of_operands hop (Text.words_inj h)

theorem toList_itemLine (item : Nat × Instruction) : (program.itemLine item).toList =
    '\t' :: ((toString item.1).toList ++ '\t' ::
      (item.2.opcode.mnemonic.toList ++ (program.showOperands item.2).toList)) := by
  simp [itemLine, Text.toString_string]

theorem itemLine_inj (hstrings : a.strings = b.strings) (hapart : a.ShownApart)
    {item item' : Nat × Instruction} (hfirst : a.HasString item.2) (hsecond : b.HasString item'.2)
    (h : a.itemLine item = b.itemLine item') : item = item' := by
  have htab : ∀ n : Nat, '\t' ∉ (toString n).toList := Text.not_mem_nat (by decide)
  rw [← String.toList_inj, toList_itemLine, toList_itemLine] at h
  obtain ⟨hoffset, hinstr⟩ := append_cons_inj_of_first (htab _) (htab _) (List.cons.inj h).2
  -- the mnemonic reaches up to the first blank, which may be the end of the line
  obtain ⟨rest, hrest⟩ := exists_blank_showOperands hfirst
  obtain ⟨rest', hrest'⟩ := exists_blank_showOperands hsecond
  have hended := congrArg (· ++ [' ']) hinstr
  simp only [List.append_assoc, hrest, hrest'] at hended
  obtain ⟨hmnemonic, -⟩ := append_cons_inj_of_first (Opcode.blank_not_mem_mnemonic _)
    (Opcode.blank_not_mem_mnemonic _) hended
  rw [hmnemonic] at hinstr
  have hop := Opcode.mnemonic_injective (String.toList_injective hmnemonic)
  have hoperands := String.toList_injective (List.append_cancel_left hinstr)
  exact Prod.ext (Text.toString_nat_injective (String.toList_injective hoffset))
    (showOperands_inj hstrings hapart hfirst hsecond hop hoperands)

end Pair

end Program

theorem Function.name_of_headLine {first second : Function} (h : first.headLine = second.headLine) :
    first.name = second.name := by
  have hlist : ∀ function : Function, function.headLine.toList =
      ("Function: ".toList ++ function.name.toList ++ " opcodeCount".toList) ++
        ' ' :: (toString function.code.size).toList := by
    intro function
    simp [headLine, Text.toString_string]
  have hblank : ∀ n : Nat, ' ' ∉ (toString n).toList := Text.not_mem_nat (by decide)
  rw [← String.toList_inj, hlist, hlist] at h
  obtain ⟨hname, -⟩ := append_cons_inj_of_last (hblank _) (hblank _) h
  exact String.toList_injective (List.append_cancel_left (List.append_cancel_right hname))

namespace Program

variable {program a b : Program}

theorem name_of_headLine (h : a.headLine = b.headLine) : a.name = b.name :=
  (String.append_right_inj _).1 h

theorem joinLines_inj {first second : List String} (hfirst : ∀ line ∈ first, '\n' ∉ line.toList)
    (hsecond : ∀ line ∈ second, '\n' ∉ line.toList) (h : joinLines first = joinLines second) :
    first = second := by
  have hsplit := splitOn_joinLines_iff.2 hfirst
  rw [h, splitOn_joinLines_iff.2 hsecond] at hsplit
  exact List.map_injective_iff.2 (fun _ _ => String.toList_injective)
    (List.append_cancel_right hsplit).symm

def isHead (line : String) : Bool := line.toList.head? != some '\t'

def block (program : Program) (function : Function) : String × List String :=
  (function.headLine, (Listing.ofCode function.code).items.map program.itemLine)

theorem headed_block {lines : String × List String}
    (h : lines ∈ program.functions.toList.map program.block) : Headed isHead lines := by
  obtain ⟨function, -, rfl⟩ := List.mem_map.1 h
  constructor
  · simp [isHead, block, Function.headLine, Text.toString_string]
  · intro line hline
    obtain ⟨item, -, rfl⟩ := List.mem_map.1 hline
    simp [isHead, toList_itemLine]

theorem lines_eq_blocks : program.lines = program.headLine ::
    (program.functions.toList.map program.block).flatMap fun block => block.1 :: block.2 := by
  rw [List.flatMap_map]
  rfl

theorem lines_inj (h : a.lines = b.lines) :
    a.name = b.name ∧ a.functions.toList.map a.block = b.functions.toList.map b.block := by
  rw [lines_eq_blocks, lines_eq_blocks] at h
  obtain ⟨hhead, hrest⟩ := List.cons.inj h
  exact ⟨name_of_headLine hhead,
    flatMap_blocks_inj (fun _ => headed_block) (fun _ => headed_block) hrest⟩

theorem Accepted.code_eq (h : program.Accepted) {function : Function}
    (hfunction : function ∈ program.functions) : function.code.toList =
      ((Listing.ofCode function.code).items.map (·.2)).flatMap Instruction.encode := by
  obtain ⟨instrs, hcode, hlisting⟩ := h.exists_row hfunction
  rw [hlisting, Listing.map_snd_items_ofInstructions, hcode]

theorem Accepted.hasString (h : program.Accepted) {function : Function}
    (hfunction : function ∈ program.functions) {item : Nat × Instruction}
    (hitem : item ∈ (Listing.ofCode function.code).items) : program.HasString item.2 := by
  obtain ⟨id, hid⟩ := Array.mem_iff_getElem?.1 hfunction
  obtain ⟨-, summary, hchecked⟩ := h.checked hid
  intro string hprint
  exact hchecked.strings item.1 string (hprint ▸ hitem)

theorem block_inj (ha : a.Accepted) (hb : b.Accepted) (hstrings : a.strings = b.strings)
    (hapart : a.ShownApart) {first second : Function} (hfirst : first ∈ a.functions)
    (hsecond : second ∈ b.functions) (h : a.block first = b.block second) :
    first.name = second.name ∧ first.code = second.code := by
  obtain ⟨hhead, hbody⟩ := Prod.mk.inj h
  have hitems : (Listing.ofCode first.code).items.map id =
      (Listing.ofCode second.code).items.map id :=
    map_eq_map_of_map_eq_map hbody fun _ hitem _ hitem' =>
      itemLine_inj hstrings hapart (ha.hasString hfirst hitem) (hb.hasString hsecond hitem')
  rw [List.map_id, List.map_id] at hitems
  refine ⟨Function.name_of_headLine hhead, Array.toList_inj.1 ?_⟩
  rw [ha.code_eq hfirst, hb.code_eq hsecond, hitems]

theorem showOperands_congr (hnames : a.functions.map (·.name) = b.functions.map (·.name))
    (hstrings : a.strings = b.strings) : a.showOperands = b.showOperands := by
  have hname : ∀ id, (a.function? id).map (·.name) = (b.function? id).map (·.name) := by
    intro id
    rw [function?, function?, ← Array.getElem?_map, hnames, Array.getElem?_map]
  funext instr
  cases instr with
  | call callee args =>
    simp only [showOperands, Option.map_bind, Function.comp_def, hname]
  | printString id => simp only [showOperands, string?_congr hstrings]
  | _ => rfl

theorem listingLines_congr (h : a.showOperands = b.showOperands) (listing : Listing) :
    a.listingLines listing = b.listingLines listing := by
  induction listing with
  | done => rfl
  | bad error => rfl
  | item offset instr rest ih => rw [listingLines, listingLines, ih, h]

theorem dump_congr (hname : a.name = b.name)
    (hnames : a.functions.map (·.name) = b.functions.map (·.name))
    (hcodes : a.functions.map (·.code) = b.functions.map (·.code))
    (hstrings : a.strings = b.strings) : a.dump = b.dump := by
  have hpairs : a.functions.toList.map (fun function => (function.name, function.code)) =
      b.functions.toList.map fun function => (function.name, function.code) := by
    rw [← List.zip_map', ← List.zip_map', ← Array.toList_map, ← Array.toList_map, hnames, hcodes,
      Array.toList_map, Array.toList_map]
  have hlines : a.functions.toList.map a.functionLines =
      b.functions.toList.map b.functionLines := by
    refine map_eq_map_of_map_eq_map hpairs fun first _ second _ hpair => ?_
    obtain ⟨hsame, hcode⟩ := Prod.mk.inj hpair
    rw [functionLines, functionLines, hsame, hcode,
      listingLines_congr (showOperands_congr hnames hstrings)]
  rw [dump, dump, hname, List.flatMap_def, List.flatMap_def, hlines]

/-- The texts of two accepted programs with the same strings, no two of which are shown alike, and
with no line end in any name, are the same if and only if the programs have the same name, and their
functions the same names and, byte for byte, the same code. -/
theorem Accepted.dump_eq_iff (ha : a.Accepted) (hb : b.Accepted) (hunbroken : a.Unbroken)
    (hunbroken' : b.Unbroken) (hstrings : a.strings = b.strings) (hapart : a.ShownApart) :
    a.dump = b.dump ↔ a.name = b.name ∧
      a.functions.map (·.name) = b.functions.map (·.name) ∧
      a.functions.map (·.code) = b.functions.map (·.code) := by
  constructor
  · intro h
    rw [ha.dump_eq, hb.dump_eq] at h
    have hlines := joinLines_inj (unbroken_iff.1 hunbroken) (unbroken_iff.1 hunbroken') h
    obtain ⟨hname, hblocks⟩ := lines_inj hlines
    have hblock : ∀ first ∈ a.functions.toList, ∀ second ∈ b.functions.toList,
        a.block first = b.block second → first.name = second.name ∧ first.code = second.code :=
      fun first hfirst second hsecond => block_inj ha hb hstrings hapart
        (Array.mem_toList_iff.1 hfirst) (Array.mem_toList_iff.1 hsecond)
    simp only [← Array.toList_inj, Array.toList_map]
    refine ⟨hname, map_eq_map_of_map_eq_map hblocks fun first hfirst second hsecond hsame => ?_,
      map_eq_map_of_map_eq_map hblocks fun first hfirst second hsecond hsame => ?_⟩
    · exact (hblock first hfirst second hsecond hsame).1
    · exact (hblock first hfirst second hsecond hsame).2
  · rintro ⟨hname, hnames, hcodes⟩
    exact dump_congr hname hnames hcodes hstrings

/-- A function with a name that looks like the numbers of a call, and strings with quotation marks;
the first function takes as many arguments as one likes, for nothing calls it. -/
def puzzling (argCount : Nat) : Program where
  name := "puzzling"
  functions := #[
    { name := "main", id := 0, argCount, localCount := 0, maxStackDepth := 1
      code := (List.flatMap Instruction.encode [.printString 1, .pushConstant (-3), .call 1 1,
        .ret]).toArray },
    { name := "f(0) 2", id := 1, argCount := 1, localCount := 0, maxStackDepth := 1
      code := (List.flatMap Instruction.encode [.pushArg 0, .ret]).toArray }]
  strings := #[Text.bytes "hi\"", Text.bytes "\"hi\n"]

theorem puzzling_accepted {argCount : Nat} (h : argCount = 0 ∨ argCount = 2) :
    (puzzling argCount).Accepted := by
  rcases h with rfl | rfl <;>
    exact Verifies.accepted (by decide +kernel) (by decide +kernel)

theorem unbroken_puzzling {argCount : Nat} : (puzzling argCount).Unbroken :=
  ⟨by simp [puzzling], by simp [puzzling]⟩

theorem dump_eq_iff_puzzling : (puzzling 0).dump = (puzzling 2).dump ∧
    (puzzling 0).functions.map (·.code) = (puzzling 2).functions.map (·.code) := by
  have hdump : (puzzling 0).dump = (puzzling 2).dump := by decide +kernel
  have hiff := (puzzling_accepted (.inl rfl)).dump_eq_iff (puzzling_accepted (.inr rfl))
    unbroken_puzzling unbroken_puzzling rfl (by decide +kernel)
  exact ⟨hdump, (hiff.1 hdump).2.2⟩

end Program
end TieredVM
