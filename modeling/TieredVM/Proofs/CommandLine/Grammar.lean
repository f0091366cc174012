import Mathlib.Data.List.Induction
import Mathlib.Data.List.Perm.Basic
import Mathlib.Tactic.Common
import TieredVM.CommandLine.Invocation
/-!
The grammar of the command line. Main statement: every list of arguments is read in exactly one way,
and what comes of it depends on the items read alone: on the first fault or request for help among
them, and without these on which items there are and on the order of the interpreter options.
-/
set_option autoImplicit false

namespace TieredVM.Options

inductive Item where
  | dump
  | loadOnly
  | trace
  | verbose
  | help
  | interpreter (value : String)
  | file (path : String)
  | unknown (text : String)
  | valueless
  deriving DecidableEq, Repr

def plainOptions : List String := ["-o", "-l", "-t", "-v", "-h", "--help"]

inductive Item.Spells : Item → List String → Prop
  | dump : Spells dump ["-o"]
  | loadOnly : Spells loadOnly ["-l"]
  | trace : Spells trace ["-t"]
  | verbose : Spells verbose ["-v"]
  | shortHelp : Spells help ["-h"]
  | longHelp : Spells help ["--help"]
  /-- Any argument can follow, even one that looks like an option. -/
  | apart (value : String) : Spells (interpreter value) ["-it", value]
  | joined {value : String} : value ≠ "" → Spells (interpreter value) ["-it" ++ value]
  | file {path : String} : path.toList.head? ≠ some '-' → Spells (file path) [path]
  | unknown {text : String} : text.toList.head? = some '-' →
    text ∉ plainOptions → ¬ "-it".toList <+: text.toList →
    Spells (unknown text) [text]

inductive Reading : List String → List Item → Prop
  | done : Reading [] []
  | valueless : Reading ["-it"] [.valueless]
  | item {item : Item} {spelling args : List String} {items : List Item} : item.Spells spelling →
    Reading args items → Reading (spelling ++ args) (item :: items)

def Item.kind : Item → ArgKind
  | dump => .dump
  | loadOnly => .loadOnly
  | trace => .trace
  | verbose => .verbose
  | help => .help
  | interpreter value => .interpreter value
  | file path => .file path
  | unknown text => .invalid text
  | valueless => .interpreterNext

theorem Item.kind_inj {item item' : Item} (h : item.kind = item'.kind) : item = item' := by
  cases item <;> cases item' <;> simp [kind] at h ⊢ <;> exact h

theorem dropStart?_eq_some_iff {start text rest : List Char} :
    dropStart? start text = some rest ↔ text = start ++ rest := by
  induction start generalizing text with
  | nil => simp [dropStart?, eq_comm]
  | cons c start ih =>
    cases text with
    | nil => simp [dropStart?]
    | cons d text =>
      simp only [dropStart?, List.cons_append, List.cons.injEq]
      split
      · rename_i hsame
        simp [ih, hsame]
      · rename_i hdiffer
        simp [eq_comm, hdiffer]

theorem ArgKind.ofArg_of_not_plain {arg : String} (h : arg ∉ plainOptions) (hvalue : arg ≠ "-it") :
    ofArg arg =
      match dropStart? "-it".toList arg.toList with
      | some value => interpreter (String.ofList value)
      | none => if arg.toList.head? = some '-' then invalid arg else file arg := by
  simp only [plainOptions, List.mem_cons, List.not_mem_nil, or_false, not_or] at h
  obtain ⟨ho, hl, ht, hv, hh, hhelp⟩ := h
  simp only [ofArg, ho, hl, ht, hv, hh, hhelp, hvalue, or_self, if_false]
  rfl

theorem head?_of_mem_plain {arg : String} (h : arg ∈ plainOptions) :
    arg.toList.head? = some '-' ∧ ¬ "-it".toList <+: arg.toList := by
  revert arg
  decide

theorem Item.Spells.cases_length {item : Item} {spelling : List String}
    (h : item.Spells spelling) :
    (∃ arg, spelling = [arg] ∧ ArgKind.ofArg arg = item.kind) ∨
      ∃ value, spelling = ["-it", value] ∧ item = .interpreter value := by
  cases h with
  | dump | loadOnly | trace | verbose | shortHelp | longHelp => exact .inl ⟨_, rfl, by decide⟩
  | apart value => exact .inr ⟨value, rfl, rfl⟩
  | @joined value hvalue =>
    have hstart : "-it".toList <+: ("-it" ++ value).toList := by simp
    refine .inl ⟨_, rfl, ?_⟩
    rw [ArgKind.ofArg_of_not_plain (fun hplain => (head?_of_mem_plain hplain).2 hstart)
      (by simpa using hvalue), dropStart?_eq_some_iff.2 String.toList_append]
    simp [Item.kind]
  | @file path hpath =>
    have hstart : dropStart? "-it".toList path.toList = none := by
      rw [Option.eq_none_iff_forall_ne_some]
      intro rest hrest
      exact hpath (by rw [dropStart?_eq_some_iff.1 hrest]; rfl)
    refine .inl ⟨_, rfl, ?_⟩
    rw [ArgKind.ofArg_of_not_plain (fun hplain => hpath (head?_of_mem_plain hplain).1)
      (by rintro rfl; exact hpath rfl), hstart]
    simp only [if_neg hpath]
    rfl
  | @unknown text hdash hother hstart =>
    have hnone : dropStart? "-it".toList text.toList = none := by
      rw [Option.eq_none_iff_forall_ne_some]
      intro rest hrest
      exact hstart ⟨rest, (dropStart?_eq_some_iff.1 hrest).symm⟩
    refine .inl ⟨_, rfl, ?_⟩
    rw [ArgKind.ofArg_of_not_plain hother (by rintro rfl; exact hstart (List.prefix_refl _)), hnone]
    simp only [if_pos hdash]
    rfl

theorem exists_spells {arg : String} (h : arg ≠ "-it") : ∃ item : Item, item.Spells [arg] := by
  by_cases hplain : arg ∈ plainOptions
  · simp only [plainOptions, List.mem_cons, List.not_mem_nil, or_false] at hplain
    rcases hplain with rfl | rfl | rfl | rfl | rfl | rfl
    · exact ⟨_, .dump⟩
    · exact ⟨_, .loadOnly⟩
    · exact ⟨_, .trace⟩
    · exact ⟨_, .verbose⟩
    · exact ⟨_, .shortHelp⟩
    · exact ⟨_, .longHelp⟩
  · by_cases hstart : "-it".toList <+: arg.toList
    · obtain ⟨rest, hrest⟩ := hstart
      obtain rfl : "-it" ++ String.ofList rest = arg := by
        rw [← String.toList_inj]
        simpa using hrest
      exact ⟨_, .joined fun hempty => h (by rw [hempty]; rfl)⟩
    · by_cases hdash : arg.toList.head? = some '-'
      · exact ⟨_, .unknown hdash hplain hstart⟩
      · exact ⟨_, .file hdash⟩

theorem exists_reading : ∀ args : List String, ∃ items, Reading args items
  | [] => ⟨[], .done⟩
  | arg :: args => by
    by_cases hvalue : arg = "-it"
    · subst hvalue
      cases args with
      | nil => exact ⟨_, .valueless⟩
      | cons value args =>
        obtain ⟨items, hitems⟩ := exists_reading args
        exact ⟨_, .item (.apart value) hitems⟩
    · obtain ⟨item, hspells⟩ := exists_spells hvalue
      obtain ⟨items, hitems⟩ := exists_reading args
      exact ⟨_, .item hspells hitems⟩

theorem Item.Spells.ne_valueless {item : Item} {spelling : List String}
    (h : item.Spells spelling) : item ≠ .valueless := by
  rintro rfl
  cases h

theorem Item.Spells.unique {item item' : Item} {spelling spelling' args args' : List String}
    (h : item.Spells spelling) (h' : item'.Spells spelling')
    (hsame : spelling ++ args = spelling' ++ args') : item = item' ∧ args = args' := by
  have hvalue : ∀ {item : Item} {spelling : List String}, item.Spells spelling →
      ArgKind.ofArg "-it" ≠ item.kind := fun hspells hkind =>
    hspells.ne_valueless (kind_inj (show _ = valueless.kind from hkind.symm))
  rcases h.cases_length with ⟨arg, rfl, hkind⟩ | ⟨value, rfl, rfl⟩ <;>
    rcases h'.cases_length with ⟨arg', rfl, hkind'⟩ | ⟨value', rfl, rfl⟩ <;>
    simp only [List.cons_append, List.nil_append, List.cons.injEq] at hsame
  · obtain ⟨rfl, rfl⟩ := hsame
    exact ⟨kind_inj (hkind.symm.trans hkind'), rfl⟩
  · obtain ⟨rfl, -⟩ := hsame
    exact absurd hkind (hvalue h)
  · obtain ⟨rfl, -⟩ := hsame
    exact absurd hkind' (hvalue h')
  · obtain ⟨-, rfl, rfl⟩ := hsame
    exact ⟨rfl, rfl⟩

theorem Item.Spells.ne_nil {item : Item} {spelling args : List String}
    (h : item.Spells spelling) : spelling ++ args ≠ [] := by
  rcases h.cases_length with ⟨arg, rfl, -⟩ | ⟨value, rfl, -⟩ <;> exact List.cons_ne_nil _ _

theorem Item.Spells.ne_value {item : Item} {spelling args : List String}
    (h : item.Spells spelling) : spelling ++ args ≠ ["-it"] := by
  intro hsame
  rcases h.cases_length with ⟨arg, rfl, hkind⟩ | ⟨value, rfl, rfl⟩
  · obtain ⟨rfl, -⟩ := List.cons.inj hsame
    exact h.ne_valueless (kind_inj hkind.symm)
  · cases hsame

theorem Reading.unique {args : List String} {items items' : List Item} (h : Reading args items)
    (h' : Reading args items') : items = items' := by
  induction h generalizing items' with
  | done =>
    generalize hargs : ([] : List String) = args at h'
    cases h' with
    | done => rfl
    | valueless => cases hargs
    | item hspells hrest => exact absurd hargs.symm hspells.ne_nil
  | valueless =>
    generalize hargs : ["-it"] = args at h'
    cases h' with
    | done => cases hargs
    | valueless => rfl
    | item hspells hrest => exact absurd hargs.symm hspells.ne_value
  | @item item spelling args items hspells hrest ih =>
    generalize hargs : spelling ++ args = all at h'
    cases h' with
    | done => exact absurd hargs hspells.ne_nil
    | valueless => exact absurd hargs hspells.ne_value
    | item hspells' hrest' =>
      obtain ⟨rfl, rfl⟩ := hspells.unique hspells' hargs
      rw [ih hrest']

theorem Reading.of_cons {args : List String} {item : Item} {items : List Item}
    (h : Reading args (item :: items)) :
    args = ["-it"] ∧ item = .valueless ∨
      ∃ spelling later, args = spelling ++ later ∧ item.Spells spelling ∧ Reading later items := by
  cases h with
  | valueless => exact .inl ⟨rfl, rfl⟩
  | item hspells hrest => exact .inr ⟨_, _, rfl, hspells, hrest⟩

namespace Item

def interpreter? : Item → Option String
  | interpreter value => some value
  | _ => none

def path? : Item → Option String
  | file path => some path
  | _ => none

def interpretersOf (items : List Item) : List String := items.filterMap interpreter?

def filesOf (items : List Item) : List String := items.filterMap path?

theorem filesOf_append (first second : List Item) :
    filesOf (first ++ second) = filesOf first ++ filesOf second := by
  simp [filesOf]

@[simp] theorem filesOf_concat (items : List Item) (item : Item) :
    filesOf (items ++ [item]) = filesOf items ++ item.path?.toList := by
  cases item <;> simp [filesOf, path?]

@[simp] theorem interpretersOf_concat (items : List Item) (item : Item) :
    interpretersOf (items ++ [item]) = interpretersOf items ++ item.interpreter?.toList := by
  cases item <;> simp [interpretersOf, interpreter?]

end Item

open Item (filesOf interpretersOf)

/-- The flags that occur among the items, and the last interpreter. -/
def collected (items : List Item) : Options where
  interpreter := (interpretersOf items).getLast?
  dump := items.contains .dump
  loadOnly := items.contains .loadOnly
  trace := items.contains .trace
  verbose := items.contains .verbose

/-- No item is at fault: all are known, all have their values, and there is at most one file. -/
structure Faultless (items : List Item) : Prop where
  known : ∀ text, .unknown text ∉ items
  valued : .valueless ∉ items
  files : (filesOf items).length ≤ 1

/-- Help is asked for after the given items, none of which asked for it or is at fault. -/
structure AsksHelp (items before : List Item) : Prop where
  next : ∃ after, items = before ++ .help :: after
  first : .help ∉ before
  faultless : Faultless before

theorem faultless_nil : Faultless [] := ⟨by simp, by simp, by simp [filesOf]⟩

theorem Faultless.of_append {first second : List Item} (h : Faultless (first ++ second)) :
    Faultless first where
  known text hmem := h.known text (List.mem_append_left _ hmem)
  valued hmem := h.valued (List.mem_append_left _ hmem)
  files := by
    have hfiles := h.files
    rw [Item.filesOf_append, List.length_append] at hfiles
    omega

theorem Faultless.concat {items : List Item} {item : Item} (h : Faultless items)
    (hknown : ∀ text, item ≠ .unknown text) (hvalued : item ≠ .valueless)
    (hfile : ∀ path, item = .file path → filesOf items = []) : Faultless (items ++ [item]) where
  known text := by simpa [h.known text] using (hknown text).symm
  valued := by simpa [h.valued] using hvalued.symm
  files := by
    have hfiles := h.files
    cases item with
    | file path => simp [hfile path rfl, Item.path?]
    | _ => simpa [Item.path?] using hfiles

theorem Faultless.perm {items items' : List Item} (h : Faultless items)
    (hperm : items.Perm items') : Faultless items' where
  known text := by simpa [hperm.mem_iff] using h.known text
  valued := by simpa [hperm.mem_iff] using h.valued
  files := (hperm.filterMap Item.path?).length_eq ▸ h.files

theorem parseRest_spells {item : Item} {spelling : List String} (h : item.Spells spelling)
    {seen : List Item} (hfaultless : Faultless (seen ++ [item])) (hhelp : item ≠ .help)
    (args : List String) :
    parseRest (collected seen) (filesOf seen).head? (spelling ++ args) =
      parseRest (collected (seen ++ [item])) (filesOf (seen ++ [item])).head? args := by
  rcases h.cases_length with ⟨arg, rfl, hkind⟩ | ⟨value, rfl, rfl⟩
  · rw [List.singleton_append, parseRest.eq_def]
    simp only [hkind]
    cases item with
    | dump | loadOnly | trace | verbose | interpreter value =>
      simp [Item.kind, collected, Item.interpreter?, Item.path?]
    | help => exact absurd rfl hhelp
    | file path =>
      have hnone : filesOf seen = [] := by
        have hfiles := hfaultless.files
        simp only [Item.filesOf_concat, Item.path?, Option.toList_some, List.length_append,
          List.length_singleton] at hfiles
        exact List.length_eq_zero_iff.1 (by omega)
      simp [Item.kind, collected, Item.interpreter?, Item.path?, hnone]
    | unknown text => exact absurd (by simp) (hfaultless.known text)
    | valueless => exact absurd (by simp) hfaultless.valued
  · have hkind : ArgKind.ofArg "-it" = .interpreterNext := by decide
    simp [parseRest, hkind, collected, Item.interpreter?, Item.path?]

theorem Reading.parseRest_append {args : List String} {seen before rest : List Item}
    (h : Reading args (before ++ rest)) (hfaultless : Faultless (seen ++ before))
    (hhelp : .help ∉ before) :
    ∃ later, Reading later rest ∧
      parseRest (collected seen) (filesOf seen).head? args =
        parseRest (collected (seen ++ before)) (filesOf (seen ++ before)).head? later := by
  induction before generalizing args seen with
  | nil => exact ⟨args, h, by rw [List.append_nil]⟩
  | cons item before ih =>
    rw [List.append_cons] at hfaultless ⊢
    rcases Reading.of_cons h with ⟨-, rfl⟩ | ⟨spelling, args, rfl, hspells, hrest⟩
    · exact absurd (by simp) hfaultless.valued
    · obtain ⟨later, hlater, hsame⟩ := ih hrest hfaultless fun hmem =>
        hhelp (List.mem_cons_of_mem _ hmem)
      refine ⟨later, hlater, ?_⟩
      rw [parseRest_spells hspells hfaultless.of_append (fun hitem => hhelp (by simp [hitem])),
        hsame]

theorem Reading.parse_append {args : List String} {before rest : List Item}
    (h : Reading args (before ++ rest)) (hfaultless : Faultless before) (hhelp : .help ∉ before) :
    ∃ later, Reading later rest ∧
      parse args = parseRest (collected before) (filesOf before).head? later :=
  h.parseRest_append (show Faultless ([] ++ before) from hfaultless) hhelp

theorem Reading.parse_of_fault {args : List String} {before after : List Item} {item : Item}
    (h : Reading args (before ++ item :: after)) (hfaultless : Faultless before)
    (hhelp : .help ∉ before) (hitem : item ≠ .help) (hfault : ¬ Faultless (before ++ [item])) :
    ∃ error, parse args = .error error := by
  obtain ⟨later, hlater, hparse⟩ := h.parse_append hfaultless hhelp
  rw [hparse]
  rcases hlater.of_cons with ⟨rfl, -⟩ | ⟨spelling, args, rfl, hspells, -⟩
  · exact ⟨.missingValue, rfl⟩
  · rcases hspells.cases_length with ⟨arg, rfl, hkind⟩ | ⟨value, rfl, rfl⟩
    · rw [List.singleton_append, parseRest.eq_def]
      simp only [hkind]
      cases item with
      | unknown text => exact ⟨.invalidOption text, rfl⟩
      | valueless => exact absurd rfl hspells.ne_valueless
      | file path =>
        cases hfiles : filesOf before with
        | nil => exact absurd (hfaultless.concat (by simp) (by simp) fun _ _ => hfiles) hfault
        | cons first files => exact ⟨.manyFiles, by simp [Item.kind]⟩
      | help => exact absurd rfl hitem
      | _ => exact absurd (hfaultless.concat (by simp) (by simp) (by simp)) hfault
    · exact absurd (hfaultless.concat (by simp) (by simp) (by simp)) hfault

theorem Reading.parse_of_help {args : List String} {items before : List Item}
    (h : Reading args items) (hasks : AsksHelp items before) :
    parse args = .ok { collected before with help := true } := by
  obtain ⟨⟨after, rfl⟩, hfirst, hfaultless⟩ := hasks
  obtain ⟨later, hlater, hparse⟩ := h.parse_append hfaultless hfirst
  rw [hparse]
  rcases hlater.of_cons with ⟨-, hitem⟩ | ⟨spelling, args, rfl, hspells, -⟩
  · cases hitem
  · rcases hspells.cases_length with ⟨arg, rfl, hkind⟩ | ⟨value, -, hvalue⟩
    · rw [List.singleton_append, parseRest.eq_def]
      simp only [hkind, Item.kind]
    · cases hvalue

theorem Reading.parse_of_faultless {args : List String} {items : List Item}
    (h : Reading args items) (hfaultless : Faultless items) (hhelp : .help ∉ items) :
    parse args = (collected items).close (filesOf items).head? := by
  rw [← List.append_nil items] at h
  obtain ⟨later, hlater, hparse⟩ := h.parse_append hfaultless hhelp
  rw [hparse]
  generalize hrest : ([] : List Item) = rest at hlater
  cases hlater with
  | done => rfl
  | valueless | item => cases hrest

theorem faultless_or_exists (items : List Item) :
    Faultless items ∧ .help ∉ items ∨
      ∃ before item after, items = before ++ item :: after ∧ Faultless before ∧ .help ∉ before ∧
        (item = .help ∨ ¬ Faultless (before ++ [item])) := by
  induction items using List.reverseRecOn with
  | nil => exact .inl ⟨faultless_nil, List.not_mem_nil⟩
  | append_singleton items last ih =>
    rcases ih with ⟨hfaultless, hhelp⟩ | ⟨before, item, after, rfl, h⟩
    · by_cases hlast : last = .help ∨ ¬ Faultless (items ++ [last])
      · exact .inr ⟨items, last, [], rfl, hfaultless, hhelp, hlast⟩
      · rw [not_or, not_not] at hlast
        exact .inl ⟨hlast.2, by simpa [hhelp] using Ne.symm hlast.1⟩
    · exact .inr ⟨before, item, after ++ [last], by simp, h⟩

/-- What comes of items that ask for no help: the options that they set, with their one file. -/
structure Accepts (items : List Item) (options : Options) : Prop where
  faultless : Faultless items
  runs : ¬ (.trace ∈ items ∧ .loadOnly ∈ items)
  file : ∃ path, filesOf items = [path] ∧ options = { collected items with programFile := path }

theorem close_eq_ok_iff {items : List Item} {options : Options} (hfaultless : Faultless items) :
    (collected items).close (filesOf items).head? = .ok options ↔ Accepts items options := by
  have hfiles := hfaultless.files
  unfold close
  by_cases hboth : .trace ∈ items ∧ .loadOnly ∈ items
  · simp only [collected, List.contains_eq_mem, hboth.1, hboth.2, decide_true, Bool.and_self,
      if_true]
    exact ⟨fun h => by (cases h), fun h => absurd hboth h.runs⟩
  · have hruns : ((collected items).trace && (collected items).loadOnly) = false := by
      simpa [collected] using hboth
    rw [hruns]
    match hpaths : filesOf items with
    | [] =>
      refine ⟨fun h => by (cases h), fun h => ?_⟩
      obtain ⟨path, hpath, -⟩ := h.file
      cases hpaths.symm.trans hpath
    | [path] =>
      constructor
      · intro h
        cases h
        exact ⟨hfaultless, hboth, path, hpaths, rfl⟩
      · rintro ⟨-, -, path', hpath, rfl⟩
        cases hpaths.symm.trans hpath
        rfl
    | first :: second :: paths =>
      rw [hpaths, List.length_cons, List.length_cons] at hfiles
      omega

theorem Reading.parse_eq_ok_iff {args : List String} {items : List Item} (h : Reading args items)
    (hasks : ∀ before, ¬ AsksHelp items before) {options : Options} :
    parse args = .ok options ↔ Accepts items options := by
  rcases faultless_or_exists items with ⟨hfaultless, hhelp⟩ |
    ⟨before, item, after, rfl, hfaultless, hhelp, hends⟩
  · rw [h.parse_of_faultless hfaultless hhelp]
    exact close_eq_ok_iff hfaultless
  · by_cases hitem : item = .help
    · subst hitem
      exact absurd ⟨⟨after, rfl⟩, hhelp, hfaultless⟩ (hasks before)
    · have hfault := hends.resolve_left hitem
      obtain ⟨error, herror⟩ := h.parse_of_fault hfaultless hhelp hitem hfault
      rw [herror]
      refine ⟨fun h => by (cases h), fun h => absurd ?_ hfault⟩
      have hall := h.faultless
      rw [List.append_cons] at hall
      exact hall.of_append

theorem Accepts.perm {items items' : List Item} {options : Options} (h : Accepts items options)
    (hperm : items.Perm items') (hinterpreters : interpretersOf items = interpretersOf items') :
    Accepts items' options := by
  obtain ⟨hfaultless, hruns, path, hpath, rfl⟩ := h
  have hcollected : collected items = collected items' := by
    simp [collected, hinterpreters, hperm.mem_iff]
  refine ⟨hfaultless.perm hperm, by simpa [hperm.mem_iff] using hruns, path, ?_, by rw [hcollected]⟩
  have hpaths : (filesOf items).Perm (filesOf items') := hperm.filterMap Item.path?
  rw [hpath] at hpaths
  exact (List.singleton_perm.1 hpaths).symm

/-- What comes of a command line is told by the one way to read it: by the first fault or request
for help, or without these by the flags, the last interpreter and the file. -/
theorem parse_reading (args : List String) :
    ∃ items, Reading args items ∧ (∀ other, Reading args other → other = items) ∧
      (∀ before, AsksHelp items before →
        parse args = .ok { collected before with help := true }) ∧
      ((∀ before, ¬ AsksHelp items before) →
        ∀ options, parse args = .ok options ↔ Accepts items options) ∧
      (∀ error, parse args = .error error →
        ∃ ending, CommandLine.readOptions args = .error ending ∧ ending.exitCode = -1) ∧
      (.help ∉ items → ∀ options args' items', parse args = .ok options → Reading args' items' →
        items.Perm items' → interpretersOf items = interpretersOf items' →
        parse args' = .ok options) := by
  have hunasked : ∀ items : List Item, .help ∉ items → ∀ before, ¬ AsksHelp items before := by
    rintro items hhelp before ⟨⟨after, rfl⟩, -, -⟩
    exact hhelp (by simp)
  obtain ⟨items, hitems⟩ := exists_reading args
  refine ⟨items, hitems, fun other hother => hother.unique hitems,
    fun before hasks => hitems.parse_of_help hasks,
    fun hasks options => hitems.parse_eq_ok_iff hasks, fun error herror => ?_,
    fun hhelp options args' items' hparse hitems' hperm hinterpreters => ?_⟩
  · exact ⟨_, by simp only [CommandLine.readOptions, herror]; rfl, rfl⟩
  · have hhelp' : .help ∉ items' := by rwa [← hperm.mem_iff]
    have haccepts := (hitems.parse_eq_ok_iff (hunasked items hhelp)).1 hparse
    exact (hitems'.parse_eq_ok_iff (hunasked items' hhelp')).2 (haccepts.perm hperm hinterpreters)

example : parse ["-it", "--help", "-o", "p", "-it1"] =
    .ok { programFile := "p", interpreter := some "1", dump := true } := by
  decide

end TieredVM.Options
