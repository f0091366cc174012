import TieredVM.Proofs.Image.Numbering
import TieredVM.Proofs.Verify.Acceptance
import TieredVM.Verify.Load
set_option autoImplicit false

namespace TieredVM

/-- Programs from files, and from images whose ids number their tables. -/
inductive Program.Accepted : Program → Prop
  | loaded {file : List UInt8} {program : Program} :
    Program.load file = .ok program → Accepted program
  | verified {image : Image} {program : Program} :
    image.Numbered → image.verify = .ok program → Accepted program

theorem Program.load_eq_ok_iff {file : List UInt8} {program : Program} :
    load file = .ok program ↔
      ∃ image, Image.decode file = .ok image ∧ image.verify = .ok program := by
  unfold load
  cases Image.decode file with
  | error error => simp
  | ok image => cases hverify : image.verify <;> simp [hverify]

theorem Program.Accepted.exists_image {program : Program} (h : program.Accepted) :
    ∃ image : Image, image.Numbered ∧ image.verify = .ok program := by
  cases h with
  | loaded h =>
    obtain ⟨image, hdecode, hverify⟩ := Program.load_eq_ok_iff.1 h
    exact ⟨image, Image.numbered_of_decode hdecode, hverify⟩
  | @verified image _ hnumbered h => exact ⟨image, hnumbered, h⟩

structure Function.Checked (program : Program) (function : Function) (summary : StackSummary) :
    Prop where
  simulated : simulate function.code = .ok summary
  maxStackDepth : summary.maxStackDepth = function.maxStackDepth
  localCount : summary.localCount = function.localCount
  calls : ∀ offset callee args,
    (offset, .call callee args) ∈ (Listing.ofCode function.code).items →
    ∃ found, (Word.toIndex? callee).bind program.function? = some found ∧
      (0 ≤ args.toInt → Word.toIndex? args = some found.argCount)
  strings : ∀ offset id, (offset, .printString id) ∈ (Listing.ofCode function.code).items →
    ∃ text, (Word.toIndex? id).bind program.string? = some text
  args : ∀ offset arg n, (offset, .pushArg arg) ∈ (Listing.ofCode function.code).items →
    Word.toIndex? arg = some n → n < function.argCount

theorem FunctionEntry.check_eq_ok_iff {entry : FunctionEntry} {function : Function} :
    entry.check = .ok function ↔ ∃ summary, simulate entry.code = .ok summary ∧
      function = ⟨entry.name, entry.id, entry.argCount, summary.localCount, summary.maxStackDepth,
        entry.code⟩ := by
  unfold check
  cases simulate entry.code with
  | error defect => simp
  | ok summary => simp [eq_comm]

namespace Image

variable {image : Image} {program : Program}

theorem verify_eq_ok_iff : image.verify = .ok program ↔
    image.stackErrors = [] ∧ image.linkErrors = [] ∧ program = {
      name := image.name
      functions := ((image.functions.filterMap fun entry => entry.check.toOption).mergeSort
        (·.id ≤ ·.id)).toArray
      strings := ((image.strings.mergeSort (·.id ≤ ·.id)).map (·.bytes)).toArray } := by
  unfold verify
  simp only [List.isEmpty_iff, List.append_eq_nil_iff]
  split
  · rename_i h
    simp [h.1, h.2, eq_comm]
  · rename_i h
    simp only [reduceCtorEq, false_iff]
    exact fun h' => h ⟨h'.1, h'.2.1⟩

theorem exists_check (h : image.stackErrors = []) {entry : FunctionEntry}
    (hentry : entry ∈ image.functions) : ∃ function, entry.check = .ok function := by
  cases hcheck : entry.check with
  | ok function => exact ⟨function, rfl⟩
  | error error =>
    have hnone := List.filterMap_eq_nil_iff.1 h entry hentry
    simp [hcheck] at hnone

theorem linkDefect?_eq_none (h : image.linkErrors = []) {entry : FunctionEntry}
    (hentry : entry ∈ image.functions) {offset : Nat} {instr : Instruction}
    (hitem : (offset, instr) ∈ (Listing.ofCode entry.code).items) :
    image.linkDefect? entry offset instr = none := by
  have hentries := List.flatMap_eq_nil_iff.1 h entry hentry
  have hdefects : image.linkDefects entry = [] := List.map_eq_nil_iff.1 hentries
  exact List.filterMap_eq_nil_iff.1 hdefects (offset, instr) hitem

theorem linkDefect?_call_eq_none_iff {entry : FunctionEntry} {offset : Nat}
    {callee args : Int64} :
    image.linkDefect? entry offset (.call callee args) = none ↔
      ∃ id found, Word.toIndex? callee = some id ∧ image.function? id = some found ∧
        args = Word.ofIndex found.argCount := by
  unfold linkDefect?
  cases hid : Word.toIndex? callee with
  | none => simp [hid]
  | some id => cases hfound : image.function? id <;> simp [hid, hfound]

theorem linkDefect?_printString_eq_none_iff {entry : FunctionEntry} {offset : Nat}
    {string : Int64} :
    image.linkDefect? entry offset (.printString string) = none ↔
      ∃ id, Word.toIndex? string = some id ∧ id < image.strings.length := by
  unfold linkDefect?
  cases hid : Word.toIndex? string with
  | none => simp [hid]
  | some id => by_cases hlt : id < image.strings.length <;> simp [hid, Option.filter, hlt]

theorem linkDefect?_pushArg_eq_none_iff {entry : FunctionEntry} {offset : Nat} {arg : Int64} :
    image.linkDefect? entry offset (.pushArg arg) = none ↔
      ∀ n, Word.toIndex? arg = some n → n < entry.argCount := by
  unfold linkDefect?
  cases hn : Word.toIndex? arg with
  | none => simp [hn]
  | some n =>
    by_cases hle : entry.argCount ≤ n
    · simp [hn, Option.filter, hle]
    · simp [hn, Option.filter, hle, Nat.lt_of_not_le hle]

theorem map_toEntry_checked (h : image.stackErrors = []) :
    (image.functions.filterMap fun entry => entry.check.toOption).map Function.toEntry =
      image.functions := by
  have hmap : ∀ entries : List FunctionEntry, (∀ entry ∈ entries, entry ∈ image.functions) →
      (entries.filterMap fun entry => entry.check.toOption).map Function.toEntry = entries := by
    intro entries hsub
    induction entries with
    | nil => rfl
    | cons entry entries ih =>
      obtain ⟨found, hfound⟩ := exists_check h (hsub entry List.mem_cons_self)
      have hrest := ih fun other hother => hsub other (List.mem_cons_of_mem _ hother)
      have hoption : entry.check.toOption = some found := toOption_eq_some_iff.2 hfound
      simp only [List.filterMap_cons, hoption, List.map_cons, hrest]
      obtain ⟨summary, -, rfl⟩ := FunctionEntry.check_eq_ok_iff.1 hfound
      rfl
  exact hmap image.functions fun _ hentry => hentry

theorem map_id_checked (h : image.stackErrors = []) :
    (image.functions.filterMap fun entry => entry.check.toOption).map (·.id) =
      image.functions.map (·.id) := by
  have hmap := congrArg (List.map (·.id)) (map_toEntry_checked h)
  rwa [List.map_map] at hmap

theorem size_functions_of_verify (h : image.verify = .ok program) :
    program.functions.size = image.functions.length := by
  obtain ⟨hstack, -, rfl⟩ := verify_eq_ok_iff.1 h
  have hlength := congrArg List.length (map_id_checked hstack)
  simpa using hlength

theorem function?_of_verify
    (hids : (image.functions.map (·.id)).Perm (List.range image.functions.length))
    (h : image.verify = .ok program) {id : Nat} {function : Function} :
    program.function? id = some function ↔
      (∃ entry ∈ image.functions, entry.check = .ok function) ∧ function.id = id := by
  obtain ⟨hstack, -, rfl⟩ := verify_eq_ok_iff.1 h
  have hmap := map_id_checked hstack
  rw [← hmap, ← List.length_map (·.id), ← hmap, List.length_map] at hids
  simp only [Program.function?, List.getElem?_toArray]
  rw [getElem?_mergeSort_iff hids, List.mem_filterMap]
  simp only [toOption_eq_some_iff]

end Image

theorem Program.map_strings_toImage (program : Program) :
    (program.toImage.strings.mergeSort (·.id ≤ ·.id)).map (·.bytes) = program.strings.toList := by
  have hsorted : program.toImage.strings.Pairwise (fun a b => decide (a.id ≤ b.id) = true) := by
    rw [List.pairwise_iff_getElem]
    intro i j hi hj hlt
    simpa [toImage] using Nat.le_of_lt hlt
  rw [List.mergeSort_of_pairwise hsorted]
  refine List.ext_getElem (by simp [toImage]) fun i _ _ => ?_
  simp [toImage]

/-- The functions of a program pass all checks, hold what these find out, and are in order. -/
def Program.Verifies (program : Program) : Prop :=
  program.toImage.stackErrors = [] ∧ program.toImage.linkErrors = [] ∧
    program.toImage.functions.filterMap (fun entry => entry.check.toOption) =
      program.functions.toList ∧
    program.functions.toList.Pairwise (·.id ≤ ·.id)

instance (program : Program) : Decidable program.Verifies :=
  inferInstanceAs (Decidable (_ ∧ _ ∧ _ ∧ _))

theorem Program.Verifies.verify_toImage {program : Program} (h : program.Verifies) :
    program.toImage.verify = .ok program := by
  obtain ⟨hstack, hlinks, hchecked, hsorted⟩ := h
  have hfunctions : program.functions.toList.mergeSort (·.id ≤ ·.id) = program.functions.toList :=
    List.mergeSort_of_pairwise (hsorted.imp decide_eq_true)
  refine Image.verify_eq_ok_iff.2 ⟨hstack, hlinks, ?_⟩
  rw [hchecked, hfunctions, program.map_strings_toImage]
  rfl

theorem Program.Verifies.accepted {program : Program} (h : program.Verifies)
    (hnumbered : program.toImage.Numbered) : program.Accepted :=
  .verified hnumbered h.verify_toImage

theorem Program.Verifies.load_encode {program : Program} (h : program.Verifies)
    (hwellformed : program.toImage.WellFormed) :
    Program.load program.toImage.encode = .ok program :=
  Program.load_eq_ok_iff.2 ⟨_, Image.decode_encode hwellformed, h.verify_toImage⟩

theorem Program.Accepted.checked {program : Program} (h : program.Accepted) {id : Nat}
    {function : Function} (hfunction : program.function? id = some function) :
    function.id = id ∧ ∃ summary, function.Checked program summary := by
  obtain ⟨image, hnumbered, hverify⟩ := h.exists_image
  obtain ⟨⟨entry, hentry, hcheck⟩, hid⟩ :=
    (Image.function?_of_verify hnumbered.functions hverify).1 hfunction
  obtain ⟨hstack, hlinks, hprogram⟩ := Image.verify_eq_ok_iff.1 hverify
  obtain ⟨summary, hsimulate, rfl⟩ := FunctionEntry.check_eq_ok_iff.1 hcheck
  refine ⟨hid, summary, hsimulate, rfl, rfl, ?_, ?_, ?_⟩
  · intro offset callee args hitem
    obtain ⟨id, found, hcallee, hfound, rfl⟩ :=
      Image.linkDefect?_call_eq_none_iff.1 (Image.linkDefect?_eq_none hlinks hentry hitem)
    have hmem := List.mem_of_find?_eq_some hfound
    have hid : found.id = id := by simpa using List.find?_some hfound
    obtain ⟨target, htarget⟩ := Image.exists_check hstack hmem
    obtain ⟨_, -, rfl⟩ := FunctionEntry.check_eq_ok_iff.1 htarget
    have hlisted := (Image.function?_of_verify hnumbered.functions hverify).2
      ⟨⟨found, hmem, htarget⟩, hid⟩
    rw [hcallee, Option.bind_some]
    exact ⟨_, hlisted, Word.toIndex?_of_nonneg_ofIndex (hnumbered.argCount_lt found hmem)⟩
  · intro offset string hitem
    obtain ⟨id, hstring, hlt⟩ :=
      Image.linkDefect?_printString_eq_none_iff.1 (Image.linkDefect?_eq_none hlinks hentry hitem)
    rw [hstring, Option.bind_some, hprogram]
    exact ⟨_, Array.getElem?_eq_getElem (by simpa using hlt)⟩
  · intro offset arg n hitem
    exact Image.linkDefect?_pushArg_eq_none_iff.1 (Image.linkDefect?_eq_none hlinks hentry hitem) n

end TieredVM
