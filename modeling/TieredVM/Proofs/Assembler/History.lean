import TieredVM.Assembler.Steps
import TieredVM.Proofs.List
set_option autoImplicit false

namespace TieredVM.Tables

def Step.declaration? : Step → Option Declaration
  | declare declaration => some declaration
  | _ => none

def Step.bytes? : Step → Option (List UInt8)
  | intern bytes => some bytes
  | _ => none

def declared (steps : List Step) : List Declaration := steps.filterMap Step.declaration?

def interned (steps : List Step) : List (List UInt8) := steps.filterMap Step.bytes?

/-- The step gives a function its body; so many functions were declared before. -/
def Step.Gives (count id : Nat) (code : Array UInt8) : Step → Prop
  | declare declaration => count = id ∧ declaration.body = some code
  | define defined body => defined = id ∧ id < count ∧ body = code
  | _ => False

def LastBody (steps : List Step) (id : Nat) (code : Array UInt8) : Prop :=
  ∃ before step later, steps = before ++ step :: later ∧
    step.Gives (declared before).length id code ∧ ∀ body, .define id body ∉ later

variable {name : String} {steps : List Step} {step : Step} {tables : Tables} {id : Nat}
  {code : Array UInt8} {declaration : Declaration}

theorem declared_concat (steps : List Step) (step : Step) :
    declared (steps ++ [step]) = declared steps ++ step.declaration?.toList := by
  cases h : step.declaration? <;> simp [declared, h]

theorem interned_concat (steps : List Step) (step : Step) :
    interned (steps ++ [step]) = interned steps ++ step.bytes?.toList := by
  cases h : step.bytes? <;> simp [interned, h]

theorem after_append (tables : Tables) (first second : List Step) :
    tables.after (first ++ second) = (tables.after first).after second :=
  List.foldl_append

theorem after_concat (tables : Tables) (steps : List Step) (step : Step) :
    tables.after (steps ++ [step]) = ((tables.after steps).perform step).2 :=
  after_append tables steps [step]

theorem getElem?_answers (tables : Tables) (steps : List Step) (i : Nat) :
    (tables.answers steps)[i]? =
      steps[i]?.map fun step => ((tables.after (steps.take i)).perform step).1 := by
  induction steps generalizing tables i with
  | nil => rfl
  | cons step rest ih =>
    cases i with
    | zero => rfl
    | succ i => exact ih (tables.perform step).2 i

theorem lastBody_concat : LastBody (steps ++ [step]) id code ↔
    step.Gives (declared steps).length id code ∨
      LastBody steps id code ∧ ∀ body, step ≠ .define id body := by
  constructor
  · rintro ⟨before, given, later, hsplit, hgives, hlast⟩
    rcases concat_eq_append_cons hsplit with ⟨rfl, rfl⟩ | ⟨rest, rfl⟩
    · exact .inl hgives
    · obtain rfl : later = rest ++ [step] := by simpa using hsplit.symm
      refine .inr ⟨⟨before, given, rest, rfl, hgives, fun body hmem => ?_⟩, fun body heq => ?_⟩
      · exact hlast body (List.mem_append_left _ hmem)
      · exact hlast body (heq ▸ List.mem_append_right _ List.mem_cons_self)
  · rintro (hgives | ⟨⟨before, given, later, rfl, hgives, hlast⟩, hstep⟩)
    · exact ⟨steps, step, [], rfl, hgives, fun body => List.not_mem_nil⟩
    · refine ⟨before, given, later ++ [step], by simp, hgives, fun body hmem => ?_⟩
      rcases List.mem_append.1 hmem with hmem | hmem
      · exact hlast body hmem
      · exact hstep body (List.mem_singleton.1 hmem).symm

theorem LastBody.lt (h : LastBody steps id code) : id < (declared steps).length := by
  obtain ⟨before, given, later, rfl, hgives, -⟩ := h
  have hsplit : declared (before ++ given :: later) =
      declared (before ++ [given]) ++ declared later := by
    rw [List.append_cons]
    exact List.filterMap_append
  have hcount : (declared before).length + given.declaration?.toList.length ≤
      (declared (before ++ given :: later)).length := by
    rw [hsplit, declared_concat, List.length_append, List.length_append]
    exact Nat.le_add_right _ _
  cases given with
  | declare declaration =>
    obtain ⟨rfl, -⟩ := hgives
    exact hcount
  | define defined body => exact Nat.lt_of_lt_of_le hgives.2.1 hcount
  | intern bytes => exact hgives.elim
  | build => exact hgives.elim

/-- The function is listed with the name and the argument count that it was declared with, and with
the body that it was given last. -/
structure Current (steps : List Step) (id : Nat) (declaration : Declaration) : Prop where
  declared : ∃ first, (declared steps)[id]? = some first ∧ declaration.name = first.name ∧
    declaration.argCount = first.argCount
  body : ∀ code, declaration.body = some code ↔ LastBody steps id code

structure Lists (steps : List Step) (functions : Array Declaration) : Prop where
  size : functions.size = (declared steps).length
  current : ∀ id declaration, functions[id]? = some declaration → Current steps id declaration

theorem Current.concat (h : Current steps id declaration)
    (hgives : ∀ code, ¬ step.Gives (Tables.declared steps).length id code)
    (hstep : ∀ body, step ≠ .define id body) : Current (steps ++ [step]) id declaration := by
  obtain ⟨⟨first, hfirst, hname, hargs⟩, hbody⟩ := h
  refine ⟨⟨first, ?_, hname, hargs⟩, fun code => ?_⟩
  · rw [declared_concat, List.getElem?_append_left (List.getElem?_eq_some_iff.1 hfirst).1, hfirst]
  · rw [hbody, lastBody_concat, or_iff_right (hgives code), and_iff_left hstep]

namespace Lists

variable {functions : Array Declaration}

theorem declare (h : Lists steps functions) (declaration : Declaration) :
    Lists (steps ++ [.declare declaration]) (functions.push declaration) where
  size := by
    rw [declared_concat, List.length_append, ← h.size]
    exact Array.size_push _
  current id now hnow := by
    rw [Array.getElem?_push] at hnow
    split at hnow
    · rename_i hid
      cases hnow
      rw [h.size] at hid
      refine ⟨⟨declaration, ?_, rfl, rfl⟩, fun code => ?_⟩
      · rw [declared_concat, hid, List.getElem?_append_right (Nat.le_refl _), Nat.sub_self]
        rfl
      · -- nothing can have defined the function before it was declared
        have hnone : ¬ LastBody steps id code := fun hlast => Nat.lt_irrefl _ (hid ▸ hlast.lt)
        rw [lastBody_concat, or_iff_left fun hlast => hnone hlast.1]
        exact ⟨fun hbody => ⟨hid.symm, hbody⟩, fun hgives => hgives.2⟩
    · rename_i hid
      refine (h.current id now hnow).concat (fun code hgives => hid ?_) nofun
      rw [h.size]
      exact hgives.1.symm

theorem define (h : Lists steps functions) (id : Nat) (code : Array UInt8) :
    Lists (steps ++ [.define id code]) (functions.modify id ({ · with body := some code })) where
  size := by
    rw [declared_concat, List.length_append, ← h.size]
    exact Array.size_modify
  current other now hnow := by
    rw [Array.getElem?_modify] at hnow
    split at hnow
    · rename_i hid
      subst hid
      obtain ⟨old, hold, rfl⟩ := Option.map_eq_some_iff.1 hnow
      obtain ⟨⟨first, hfirst, hname, hargs⟩, -⟩ := h.current id old hold
      obtain ⟨hlt, -⟩ := List.getElem?_eq_some_iff.1 hfirst
      refine ⟨⟨first, ?_, hname, hargs⟩, fun body => ?_⟩
      · rw [declared_concat, List.getElem?_append_left hlt, hfirst]
      · rw [lastBody_concat, or_iff_left fun hlast => hlast.2 code rfl, Option.some_inj]
        exact ⟨fun heq => ⟨rfl, hlt, heq⟩, fun hgives => hgives.2.2⟩
    · rename_i hid
      refine (h.current other now hnow).concat (fun body hgives => hid hgives.1) fun body heq => ?_
      cases heq
      exact hid rfl

theorem keep (h : Lists steps functions) (hdeclares : step.declaration? = none)
    (hdefines : ∀ id body, step ≠ .define id body) : Lists (steps ++ [step]) functions where
  size := by
    rw [declared_concat, hdeclares, h.size]
    exact congrArg List.length (List.append_nil _).symm
  current id now hnow := by
    refine (h.current id now hnow).concat (fun code hgives => ?_) (hdefines id)
    cases step with
    | declare declaration => cases hdeclares
    | define other body => exact hdefines other body rfl
    | intern bytes => exact hgives
    | build => exact hgives

end Lists

theorem perform_define (tables : Tables) (id : Nat) (code : Array UInt8) :
    tables.perform (.define id code) =
      (.defined (if id < tables.functions.size then .ok () else .error (.undeclaredFunction id)),
        { tables with
          functions := tables.functions.modify id ({ · with body := some code }) }) := by
  by_cases hid : id < tables.functions.size
  · have hget : tables.functions[id]? = some tables.functions[id] := Array.getElem?_eq_getElem hid
    have hset : tables.functions.setIfInBounds id { tables.functions[id] with body := some code } =
        tables.functions.modify id ({ · with body := some code }) := by
      apply Array.ext_getElem?
      intro other
      rw [Array.getElem?_setIfInBounds, Array.getElem?_modify]
      split
      · rename_i heq
        subst heq
        rw [hget]
        rfl
      · rfl
    simp only [perform, Tables.define, hget, if_pos hid, hset]
  · have hget : tables.functions[id]? = none :=
      Array.getElem?_eq_none_iff.2 (Nat.le_of_not_lt hid)
    have hsame : tables.functions.modify id ({ · with body := some code }) = tables.functions := by
      apply Array.ext_getElem?
      intro other
      rw [Array.getElem?_modify]
      split
      · rename_i heq
        rw [← heq, hget, Option.map_none]
      · rfl
    simp only [perform, Tables.define, hget, if_neg hid, hsame]

structure Records (name : String) (steps : List Step) (tables : Tables) : Prop where
  name : tables.name = name
  functions : Lists steps tables.functions
  strings : tables.strings.toList = (interned steps).eraseDups

theorem records_named (name : String) : Records name [] (named name) where
  name := rfl
  functions := ⟨rfl, fun id now hnow => by simp [named] at hnow⟩
  strings := rfl

theorem Records.intern (h : Records name steps tables) (bytes : List UInt8) :
    (tables.intern bytes).1 = (interned (steps ++ [.intern bytes])).eraseDups.idxOf bytes ∧
      Records name (steps ++ [.intern bytes]) (tables.intern bytes).2 := by
  have hconcat : interned (steps ++ [.intern bytes]) = interned steps ++ [bytes] :=
    interned_concat steps _
  have hfunctions : Lists (steps ++ [.intern bytes]) tables.functions :=
    h.functions.keep rfl nofun
  have hstrings : (interned (steps ++ [.intern bytes])).eraseDups =
      if bytes ∈ interned steps then (interned steps).eraseDups
      else (interned steps).eraseDups ++ [bytes] := by
    rw [hconcat, eraseDups_concat]
  have hfind : tables.strings.idxOf? bytes = (interned steps).eraseDups.idxOf? bytes := by
    rw [← h.strings]
    exact List.idxOf?_toArray bytes tables.strings.toList
  unfold Tables.intern
  rw [hfind]
  cases hid : (interned steps).eraseDups.idxOf? bytes with
  | some id =>
    have hplace : (interned steps).eraseDups.idxOf bytes = id := by
      rw [List.idxOf_eq_getD_idxOf?, hid, Option.getD_some]
    have hknown : bytes ∈ interned steps := by
      obtain ⟨hlt, hget, -⟩ := List.idxOf?_eq_some_iff.1 hid
      exact List.mem_eraseDups.1 (hget ▸ List.getElem_mem hlt)
    rw [if_pos hknown] at hstrings
    rw [hstrings]
    exact ⟨hplace.symm, h.name, hfunctions, h.strings.trans hstrings.symm⟩
  | none =>
    have hnew : bytes ∉ (interned steps).eraseDups := List.idxOf?_eq_none_iff.1 hid
    rw [if_neg fun hmem => hnew (List.mem_eraseDups.2 hmem)] at hstrings
    refine ⟨?_, h.name, hfunctions, ?_⟩
    · rw [hstrings, List.idxOf_append_of_notMem hnew, List.idxOf_cons_self, ← h.strings]
      rfl
    · rw [hstrings, ← h.strings]
      exact Array.toList_push

theorem Records.perform (h : Records name steps tables) (step : Step) :
    Records name (steps ++ [step]) (tables.perform step).2 := by
  have hstrings : step.bytes? = none →
      tables.strings.toList = (interned (steps ++ [step])).eraseDups := by
    intro hnone
    rw [interned_concat, hnone, Option.toList_none, List.append_nil, h.strings]
  cases step with
  | declare declaration => exact ⟨h.name, h.functions.declare declaration, hstrings rfl⟩
  | define id code =>
    rw [perform_define]
    exact ⟨h.name, h.functions.define id code, hstrings rfl⟩
  | intern bytes => exact (h.intern bytes).2
  | build => exact ⟨h.name, h.functions.keep rfl nofun, hstrings rfl⟩

theorem records_after (name : String) (steps : List Step) :
    Records name steps ((named name).after steps) := by
  -- by the last step, since the history is told from its end
  induction steps using List.reverseRecOn with
  | nil => exact records_named name
  | append_singleton steps step ih =>
    rw [after_concat]
    exact ih.perform step

end TieredVM.Tables
