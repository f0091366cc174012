import TieredVM.Proofs.Assembler.Build
/-!
What can be relied on when a program is put together in any order of steps. The answers to the steps
announce the image: an id that was given to a function or to a string stays its id, and an image
that is built holds exactly what ids were given for, each function with its last body.
-/
set_option autoImplicit false

namespace TieredVM.Tables

/-- The function was declared, and the answer was the id. -/
def Allotted (steps : List Step) (answers : List Answer) (id : Nat) (declaration : Declaration) :
    Prop :=
  ∃ i : Nat, steps[i]? = some (.declare declaration) ∧ answers[i]? = some (.id id)

/-- The image holds what ids were given for, and nothing else. -/
structure Shows (name : String) (steps : List Step) (answers : List Answer) (image : Image) :
    Prop where
  name : image.name = name
  functions : ∀ (id : Nat) (entry : FunctionEntry), image.functions[id]? = some entry ↔
    ∃ declaration code, Allotted steps answers id declaration ∧ LastBody steps id code ∧
      entry = ⟨declaration.name, id, declaration.argCount, code⟩
  strings : ∀ (id : Nat) (entry : StringEntry), image.strings[id]? = some entry ↔
    ∃ (i : Nat) (bytes : List UInt8), steps[i]? = some (.intern bytes) ∧
      answers[i]? = some (.id id) ∧ entry = ⟨id, bytes⟩

/-- The answers that the steps should get, each by what went before it. -/
structure Faithful (name : String) (steps : List Step) (answers : List Answer) : Prop where
  length : answers.length = steps.length
  declare : ∀ (i : Nat) (declaration : Declaration), steps[i]? = some (.declare declaration) →
    answers[i]? = some (.id (declared (steps.take i)).length)
  define : ∀ (i id : Nat) (code : Array UInt8), steps[i]? = some (.define id code) →
    ∃ result, answers[i]? = some (.defined result) ∧
      (result = .ok () ↔ ∃ declaration, Allotted (steps.take i) (answers.take i) id declaration)
  intern : ∀ (i : Nat) (bytes : List UInt8), steps[i]? = some (.intern bytes) →
    ∃ id, answers[i]? = some (.id id)
  /-- Whenever they are asked for, two strings have one id exactly if they are equal. -/
  equal : ∀ (i j : Nat) (first second : List UInt8) (id id' : Nat),
    steps[i]? = some (.intern first) → steps[j]? = some (.intern second) →
    answers[i]? = some (.id id) → answers[j]? = some (.id id') → (id = id' ↔ first = second)
  /-- The id of a new string is the number of different strings before it. -/
  fresh : ∀ (i : Nat) (bytes : List UInt8), steps[i]? = some (.intern bytes) →
    bytes ∉ interned (steps.take i) →
    answers[i]? = some (.id (interned (steps.take i)).eraseDups.length)
  build : ∀ i : Nat, steps[i]? = some .build → ∃ result, answers[i]? = some (.built result) ∧
    ((∃ image, result = .ok image) ↔ Complete name (steps.take i)) ∧
    ∀ image, result = .ok image → Shows name (steps.take i) (answers.take i) image

variable {name : String} {steps : List Step} {i : Nat} {id : Nat} {bytes : List UInt8}
  {declaration : Declaration}

theorem length_answers (tables : Tables) (steps : List Step) :
    (tables.answers steps).length = steps.length := by
  induction steps generalizing tables with
  | nil => rfl
  | cons step rest ih => exact congrArg (· + 1) (ih _)

theorem answers_take (tables : Tables) (steps : List Step) (i : Nat) :
    tables.answers (steps.take i) = (tables.answers steps).take i := by
  induction steps generalizing tables i with
  | nil => simp [answers]
  | cons step rest ih =>
    cases i with
    | zero => rfl
    | succ i => exact congrArg (List.cons _) (ih _ i)

theorem answer_declare (h : steps[i]? = some (.declare declaration)) :
    ((named name).answers steps)[i]? = some (.id (declared (steps.take i)).length) := by
  rw [getElem?_answers, h, ← (records_after name (steps.take i)).functions.size]
  rfl

theorem allotted_iff : Allotted steps ((named name).answers steps) id declaration ↔
    (declared steps)[id]? = some declaration := by
  unfold declared
  rw [getElem?_filterMap_eq_some_iff]
  constructor
  · rintro ⟨i, hstep, hanswer⟩
    rw [answer_declare hstep] at hanswer
    cases hanswer
    exact ⟨i, _, hstep, rfl, rfl⟩
  · rintro ⟨i, step, hstep, hdeclares, rfl⟩
    cases step with
    | declare declaration =>
      cases hdeclares
      exact ⟨i, hstep, answer_declare hstep⟩
    | define id code => cases hdeclares
    | intern bytes => cases hdeclares
    | build => cases hdeclares

theorem answer_define {code : Array UInt8} (h : steps[i]? = some (.define id code)) :
    ∃ result, ((named name).answers steps)[i]? = some (.defined result) ∧
      (result = .ok () ↔ ∃ declaration,
        Allotted (steps.take i) (((named name).answers steps).take i) id declaration) := by
  simp only [← answers_take, allotted_iff]
  rw [getElem?_answers, h, Option.map_some, perform_define]
  refine ⟨_, rfl, ?_⟩
  rw [(records_after name (steps.take i)).functions.size]
  split
  · rename_i hid
    exact iff_of_true rfl ⟨_, List.getElem?_eq_getElem hid⟩
  · rename_i hid
    exact iff_of_false nofun fun ⟨_, hfound⟩ => hid (List.getElem?_eq_some_iff.1 hfound).1

theorem answer_intern_first (h : steps[i]? = some (.intern bytes)) :
    ((named name).answers steps)[i]? =
      some (.id ((interned (steps.take i ++ [.intern bytes])).eraseDups.idxOf bytes)) := by
  rw [getElem?_answers, h, ← ((records_after name (steps.take i)).intern bytes).1]
  rfl

theorem answer_intern (h : steps[i]? = some (.intern bytes)) :
    ((named name).answers steps)[i]? = some (.id ((interned steps).eraseDups.idxOf bytes)) := by
  have hsplit : steps.take i ++ [.intern bytes] ++ steps.drop (i + 1) = steps := by
    rw [← Option.toList_some, ← h, ← List.take_add_one, List.take_append_drop]
  have hinterned : interned steps =
      interned (steps.take i ++ [.intern bytes]) ++ interned (steps.drop (i + 1)) := by
    conv_lhs => rw [← hsplit]
    exact List.filterMap_append
  have hmem : bytes ∈ (interned (steps.take i ++ [.intern bytes])).eraseDups := by
    rw [List.mem_eraseDups, interned_concat]
    exact List.mem_append_right _ List.mem_cons_self
  -- later strings are only appended to those that are listed after step `i`
  rw [answer_intern_first h, hinterned, List.eraseDups_append, List.idxOf_append_of_mem hmem]

theorem answer_intern_new (h : steps[i]? = some (.intern bytes))
    (hnew : bytes ∉ interned (steps.take i)) :
    ((named name).answers steps)[i]? =
      some (.id (interned (steps.take i)).eraseDups.length) := by
  have hconcat : interned (steps.take i ++ [.intern bytes]) = interned (steps.take i) ++ [bytes] :=
    interned_concat _ _
  rw [answer_intern_first h, hconcat, eraseDups_concat, if_neg hnew,
    List.idxOf_append_of_notMem (mt List.mem_eraseDups.1 hnew), List.idxOf_cons_self, Nat.add_zero]

theorem mem_interned_iff :
    bytes ∈ interned steps ↔ ∃ i : Nat, steps[i]? = some (.intern bytes) := by
  unfold interned
  rw [List.mem_filterMap]
  constructor
  · rintro ⟨step, hmem, hbytes⟩
    cases step with
    | intern other =>
      cases hbytes
      exact List.mem_iff_getElem?.1 hmem
    | declare declaration => cases hbytes
    | define id code => cases hbytes
    | build => cases hbytes
  · rintro ⟨i, hstep⟩
    exact ⟨_, List.mem_of_getElem? hstep, rfl⟩

theorem answer_intern_inj {j id' : Nat} {first second : List UInt8}
    (hfirst : steps[i]? = some (.intern first)) (hsecond : steps[j]? = some (.intern second))
    (hid : ((named name).answers steps)[i]? = some (.id id))
    (hid' : ((named name).answers steps)[j]? = some (.id id')) : id = id' ↔ first = second := by
  rw [answer_intern hfirst] at hid
  rw [answer_intern hsecond] at hid'
  cases hid
  cases hid'
  exact List.idxOf_inj (List.mem_eraseDups.2 (mem_interned_iff.2 ⟨i, hfirst⟩))

theorem getElem?_eraseDups_interned (name : String) : (interned steps).eraseDups[id]? = some bytes ↔
    ∃ i : Nat, steps[i]? = some (.intern bytes) ∧
      ((named name).answers steps)[i]? = some (.id id) := by
  constructor
  · intro h
    obtain ⟨hlt, hget⟩ := List.getElem?_eq_some_iff.1 h
    have hplace : (interned steps).eraseDups.idxOf bytes = id := by
      rw [← hget]
      exact (nodup_eraseDups _).idxOf_getElem id hlt
    obtain ⟨i, hstep⟩ := mem_interned_iff.1 (List.mem_eraseDups.1 (List.mem_of_getElem? h))
    exact ⟨i, hstep, hplace ▸ answer_intern hstep⟩
  · rintro ⟨i, hstep, hanswer⟩
    rw [answer_intern hstep] at hanswer
    cases hanswer
    exact List.getElem?_idxOf (List.mem_eraseDups.2 (mem_interned_iff.2 ⟨i, hstep⟩))

theorem shows_of_build {image : Image} (h : ((named name).after steps).build = .ok image) :
    Shows name steps ((named name).answers steps) image := by
  -- the tables are known by the steps, and the answers by the places in them
  have hrecords := records_after name steps
  refine ⟨?_, fun id entry => ?_, fun id entry => ?_⟩
  · rw [(build_eq_ok_iff.1 h).2.2.2.1, hrecords.name]
  · rw [hrecords.getElem?_functions h]
    simp only [allotted_iff]
  · rw [hrecords.getElem?_strings h, exists_comm]
    simp only [getElem?_eraseDups_interned name, ← and_assoc, exists_and_right]

theorem answer_build (h : steps[i]? = some .build) :
    ∃ result, ((named name).answers steps)[i]? = some (.built result) ∧
      ((∃ image, result = .ok image) ↔ Complete name (steps.take i)) ∧
      ∀ image, result = .ok image →
        Shows name (steps.take i) (((named name).answers steps).take i) image := by
  refine ⟨((named name).after (steps.take i)).build, ?_, ?_, fun image hbuild => ?_⟩
  · rw [getElem?_answers, h]
    rfl
  · exact (records_after name (steps.take i)).exists_build_iff
  · rw [← answers_take]
    exact shows_of_build hbuild

/-- The answers to any steps are the right ones; a definition changes one body only, and building
changes nothing. -/
theorem answers_faithful (name : String) (steps : List Step) :
    Faithful name steps ((named name).answers steps) ∧
      (∀ id code, (named name).after (steps ++ [.define id code]) =
        { (named name).after steps with
          functions := ((named name).after steps).functions.modify id
            ({ · with body := some code }) }) ∧
      (named name).after (steps ++ [.build]) = (named name).after steps := by
  refine ⟨?_, fun id code => ?_, after_concat _ _ _⟩
  · exact {
      length := length_answers _ _
      declare := fun _ _ => answer_declare
      define := fun _ _ _ => answer_define
      intern := fun _ _ hstep => ⟨_, answer_intern hstep⟩
      equal := fun _ _ _ _ _ _ => answer_intern_inj
      fresh := fun _ _ => answer_intern_new
      build := fun _ => answer_build }
  · rw [after_concat, perform_define]

example : (named "p").answers
    [.declare ⟨"f", 2, none⟩, .define 1 #[17], .build, .define 0 #[17], .define 0 #[14], .build] =
    [.id 0, .defined (.error (.undeclaredFunction 1)), .built (.error (.undefinedFunction "f")),
      .defined (.ok ()), .defined (.ok ()), .built (.ok ⟨"p", [⟨"f", 0, 2, #[14]⟩], []⟩)] := by rfl

end TieredVM.Tables
