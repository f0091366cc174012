import TieredVM.Proofs.Assembler.History
import TieredVM.Proofs.Except
set_option autoImplicit false

namespace TieredVM

theorem BuildError.checkName_eq_ok_iff {name : String} :
    checkName name = .ok () ↔ (Text.bytes name).length ≤ Image.maxNameLength := by
  simp only [checkName]
  split
  · rename_i h
    exact iff_of_true rfl h
  · rename_i h
    exact iff_of_false nofun h

theorem Declaration.toEntry_eq_ok_iff {declaration : Declaration} {id : Nat}
    {entry : FunctionEntry} :
    declaration.toEntry id = .ok entry ↔
      (Text.bytes declaration.name).length ≤ Image.maxNameLength ∧ ∃ code,
        declaration.body = some code ∧
          entry = ⟨declaration.name, id, declaration.argCount, code⟩ := by
  unfold toEntry
  rw [bind_eq_ok_iff, ← BuildError.checkName_eq_ok_iff]
  cases declaration.body with
  | none => simp
  | some code =>
    simp only [pure_eq_ok, Except.ok.injEq, Option.some_inj, exists_eq_left']
    constructor
    · rintro ⟨⟨⟩, hname, rfl⟩
      exact ⟨hname, rfl⟩
    · rintro ⟨hname, rfl⟩
      exact ⟨(), hname, rfl⟩

structure Declaration.Ready (declaration : Declaration) : Prop where
  name : (Text.bytes declaration.name).length ≤ Image.maxNameLength
  body : ∃ code, declaration.body = some code

theorem Declaration.exists_toEntry_iff {declaration : Declaration} {id : Nat} :
    (∃ entry, declaration.toEntry id = .ok entry) ↔ declaration.Ready := by
  simp only [toEntry_eq_ok_iff]
  constructor
  · rintro ⟨_, hname, code, hcode, -⟩
    exact ⟨hname, code, hcode⟩
  · rintro ⟨hname, code, hcode⟩
    exact ⟨_, hname, code, hcode, rfl⟩

namespace Tables

variable {name : String} {steps : List Step} {tables : Tables} {image : Image} {id : Nat}

theorem build_eq_ok_iff : tables.build = .ok image ↔
    tables.functions.size ≤ Image.maxFunctions ∧
      (Text.bytes tables.name).length ≤ Image.maxNameLength ∧
      (tables.functions.toList.zipIdx.mapM fun (declaration, id) => declaration.toEntry id) =
        .ok image.functions ∧
      image.name = tables.name ∧
      image.strings = tables.strings.toList.mapIdx fun id bytes => ⟨id, bytes⟩ := by
  unfold build
  by_cases hsize : tables.functions.size ≤ Image.maxFunctions
  · rw [if_neg (Nat.not_lt.2 hsize), and_iff_right hsize, ← BuildError.checkName_eq_ok_iff]
    simp only [bind_eq_ok_iff, pure_eq_ok, Except.ok.injEq]
    constructor
    · rintro ⟨⟨⟩, hname, functions, hfunctions, rfl⟩
      exact ⟨hname, hfunctions, rfl, rfl⟩
    · rintro ⟨hname, hfunctions, himage, hstrings⟩
      refine ⟨(), hname, _, hfunctions, ?_⟩
      rw [← himage, ← hstrings]
  · rw [if_pos (Nat.lt_of_not_le hsize)]
    exact iff_of_false nofun fun h => hsize h.1

theorem exists_build_eq_ok_iff : (∃ image, tables.build = .ok image) ↔
    tables.functions.size ≤ Image.maxFunctions ∧
      (Text.bytes tables.name).length ≤ Image.maxNameLength ∧
      ∀ (id : Nat) (now : Declaration), tables.functions[id]? = some now → now.Ready := by
  have hentries : (∃ functions, (tables.functions.toList.zipIdx.mapM fun (declaration, id) =>
        declaration.toEntry id) = .ok functions) ↔
      ∀ (id : Nat) (now : Declaration), tables.functions[id]? = some now → now.Ready := by
    rw [exists_mapM_eq_ok_iff, Prod.forall, forall_comm]
    simp only [List.mem_zipIdx_iff_getElem?, Array.getElem?_toList,
      Declaration.exists_toEntry_iff]
  rw [← hentries]
  simp only [build_eq_ok_iff]
  constructor
  · rintro ⟨image, hsize, hname, hfunctions, -⟩
    exact ⟨hsize, hname, _, hfunctions⟩
  · rintro ⟨hsize, hname, functions, hfunctions⟩
    exact ⟨⟨tables.name, functions, _⟩, hsize, hname, hfunctions, rfl, rfl⟩

theorem getElem?_functions_of_build (h : tables.build = .ok image) {entry : FunctionEntry} :
    image.functions[id]? = some entry ↔
      ∃ now, tables.functions[id]? = some now ∧ now.toEntry id = .ok entry := by
  obtain ⟨-, -, hfunctions, -⟩ := build_eq_ok_iff.1 h
  rw [getElem?_mapM_eq_some_iff hfunctions]
  constructor
  · rintro ⟨⟨now, number⟩, hpair, hentry⟩
    rw [List.getElem?_zipIdx, Nat.zero_add, Array.getElem?_toList] at hpair
    obtain ⟨_, hnow, heq⟩ := Option.map_eq_some_iff.1 hpair
    cases heq
    exact ⟨now, hnow, hentry⟩
  · rintro ⟨now, hnow, hentry⟩
    refine ⟨(now, id), ?_, hentry⟩
    rw [List.getElem?_zipIdx, Nat.zero_add, Array.getElem?_toList, hnow, Option.map_some]

theorem getElem?_strings_of_build (h : tables.build = .ok image) {entry : StringEntry} :
    image.strings[id]? = some entry ↔
      ∃ bytes, tables.strings.toList[id]? = some bytes ∧ entry = ⟨id, bytes⟩ := by
  obtain ⟨-, -, -, -, hstrings⟩ := build_eq_ok_iff.1 h
  rw [hstrings, List.getElem?_mapIdx, Option.map_eq_some_iff]
  simp only [eq_comm]

/-- The program fits into a container and every function has a body. -/
structure Complete (name : String) (steps : List Step) : Prop where
  count : (declared steps).length ≤ Image.maxFunctions
  name : (Text.bytes name).length ≤ Image.maxNameLength
  names : ∀ declaration ∈ declared steps,
    (Text.bytes declaration.name).length ≤ Image.maxNameLength
  bodies : ∀ id < (declared steps).length, ∃ code, LastBody steps id code

theorem Lists.exists_current {functions : Array Declaration} {first : Declaration}
    (h : Lists steps functions) (hfirst : (declared steps)[id]? = some first) :
    ∃ now, functions[id]? = some now ∧ now.name = first.name ∧ now.argCount = first.argCount ∧
      ∀ code, now.body = some code ↔ LastBody steps id code := by
  have hlt : id < functions.size := h.size ▸ (List.getElem?_eq_some_iff.1 hfirst).1
  have hnow : functions[id]? = some functions[id] := Array.getElem?_eq_getElem hlt
  obtain ⟨⟨other, hother, hname, hargs⟩, hbody⟩ := h.current id _ hnow
  cases hother.symm.trans hfirst
  exact ⟨_, hnow, hname, hargs, hbody⟩

namespace Records

theorem exists_build_iff (h : Records name steps tables) :
    (∃ image, tables.build = .ok image) ↔ Complete name steps := by
  rw [exists_build_eq_ok_iff, h.name, h.functions.size]
  constructor
  · rintro ⟨hcount, hname, hfunctions⟩
    refine ⟨hcount, hname, fun first hmem => ?_, fun id hid => ?_⟩
    · obtain ⟨id, hfirst⟩ := List.mem_iff_getElem?.1 hmem
      obtain ⟨now, hnow, hsame, -, -⟩ := h.functions.exists_current hfirst
      exact hsame ▸ (hfunctions id now hnow).name
    · have hfirst := List.getElem?_eq_getElem hid
      obtain ⟨now, hnow, -, -, hbody⟩ := h.functions.exists_current hfirst
      obtain ⟨code, hcode⟩ := (hfunctions id now hnow).body
      exact ⟨code, (hbody code).1 hcode⟩
  · rintro ⟨hcount, hname, hnames, hbodies⟩
    refine ⟨hcount, hname, fun id now hnow => ?_⟩
    obtain ⟨⟨first, hfirst, hsame, -⟩, hbody⟩ := h.functions.current id now hnow
    obtain ⟨code, hcode⟩ := hbodies id (List.getElem?_eq_some_iff.1 hfirst).1
    exact ⟨hsame ▸ hnames first (List.mem_of_getElem? hfirst), code, (hbody code).2 hcode⟩

theorem getElem?_functions (h : Records name steps tables) (hbuild : tables.build = .ok image)
    {entry : FunctionEntry} :
    image.functions[id]? = some entry ↔ ∃ first code, (declared steps)[id]? = some first ∧
      LastBody steps id code ∧ entry = ⟨first.name, id, first.argCount, code⟩ := by
  rw [getElem?_functions_of_build hbuild]
  constructor
  · rintro ⟨now, hnow, hentry⟩
    obtain ⟨-, code, hcode, rfl⟩ := Declaration.toEntry_eq_ok_iff.1 hentry
    obtain ⟨⟨first, hfirst, hname, hargs⟩, hbody⟩ := h.functions.current id now hnow
    exact ⟨first, code, hfirst, (hbody code).1 hcode, hname ▸ hargs ▸ rfl⟩
  · rintro ⟨first, code, hfirst, hlast, rfl⟩
    obtain ⟨now, hnow, hname, hargs, hbody⟩ := h.functions.exists_current hfirst
    have hready := (exists_build_eq_ok_iff.1 ⟨image, hbuild⟩).2.2 id now hnow
    refine ⟨now, hnow,
      Declaration.toEntry_eq_ok_iff.2 ⟨hready.name, code, (hbody code).2 hlast, ?_⟩⟩
    rw [hname, hargs]

theorem getElem?_strings (h : Records name steps tables) (hbuild : tables.build = .ok image)
    {entry : StringEntry} :
    image.strings[id]? = some entry ↔
      ∃ bytes, (interned steps).eraseDups[id]? = some bytes ∧ entry = ⟨id, bytes⟩ := by
  rw [getElem?_strings_of_build hbuild, h.strings]

end Records
end Tables
end TieredVM
