import TieredVM.Proofs.Assembler.Build
import TieredVM.Proofs.Image.Codec
/-!
Which images that are built come back from a container file. Building checks the names and the
number of functions, so that these fit behind their one-byte lengths, and numbers both tables from
zero on. It does not check argument counts, and a large one is written as a negative word, which no
reader accepts.
-/
set_option autoImplicit false

namespace TieredVM

/-- The codes, the strings and the string table are short enough for their lengths to be indices. -/
structure Image.Addressable (image : Image) : Prop where
  code : ∀ entry ∈ image.functions, entry.code.size < 2 ^ 63
  strings : image.strings.length < 2 ^ 63
  bytes : ∀ entry ∈ image.strings, entry.bytes.length < 2 ^ 63

theorem Image.WellFormed.addressable {image : Image} (h : image.WellFormed) :
    image.Addressable where
  code entry hentry := (h.functions entry hentry).codeSize
  strings := h.stringCount
  bytes := h.strings

namespace Tables

variable {name : String} {steps : List Step} {tables : Tables} {image : Image}

namespace Records

theorem exists_of_mem_functions (h : Records name steps tables) (hbuild : tables.build = .ok image)
    {entry : FunctionEntry} (hentry : entry ∈ image.functions) :
    ∃ first ∈ declared steps, entry.name = first.name ∧ entry.argCount = first.argCount := by
  obtain ⟨id, hid⟩ := List.mem_iff_getElem?.1 hentry
  obtain ⟨first, code, hfirst, -, rfl⟩ := (h.getElem?_functions hbuild).1 hid
  exact ⟨first, List.mem_of_getElem? hfirst, rfl, rfl⟩

theorem exists_of_mem_declared (h : Records name steps tables) (hbuild : tables.build = .ok image)
    {first : Declaration} (hfirst : first ∈ declared steps) :
    ∃ entry ∈ image.functions, entry.argCount = first.argCount := by
  obtain ⟨id, hid⟩ := List.mem_iff_getElem?.1 hfirst
  obtain ⟨code, hcode⟩ :=
    (h.exists_build_iff.1 ⟨image, hbuild⟩).bodies id (List.getElem?_eq_some_iff.1 hid).1
  exact ⟨_, List.mem_of_getElem? ((h.getElem?_functions hbuild).2 ⟨first, code, hid, hcode, rfl⟩),
    rfl⟩

theorem length_functions_le (h : Records name steps tables) (hbuild : tables.build = .ok image) :
    image.functions.length ≤ (declared steps).length := by
  by_contra hlt
  have hget := List.getElem?_eq_getElem (Nat.lt_of_not_le hlt)
  obtain ⟨first, -, hfirst, -⟩ := (h.getElem?_functions hbuild).1 hget
  exact Nat.lt_irrefl _ (List.getElem?_eq_some_iff.1 hfirst).1

theorem wellFormed_iff (h : Records name steps tables) (hbuild : tables.build = .ok image) :
    image.WellFormed ↔ image.Addressable ∧
      ∀ declaration ∈ declared steps, declaration.argCount < 2 ^ 63 := by
  constructor
  · intro hw
    refine ⟨hw.addressable, fun first hfirst => ?_⟩
    obtain ⟨entry, hentry, hargs⟩ := h.exists_of_mem_declared hbuild hfirst
    exact hargs ▸ (hw.functions entry hentry).argCount
  · rintro ⟨haddressable, hargs⟩
    -- names and the number of functions were checked, and the ids are the places in the tables
    have hcomplete := h.exists_build_iff.1 ⟨image, hbuild⟩
    have hname : image.name = name := (build_eq_ok_iff.1 hbuild).2.2.2.1.trans h.name
    refine ⟨hname ▸ hcomplete.name, (h.length_functions_le hbuild).trans hcomplete.count, ?_,
      fun entry hentry => ?_, haddressable.strings, ?_, haddressable.bytes⟩
    · refine List.Perm.of_eq (map_eq_range fun id entry hentry => ?_)
      obtain ⟨first, code, -, -, rfl⟩ := (h.getElem?_functions hbuild).1 hentry
      rfl
    · obtain ⟨first, hfirst, hsame, hcount⟩ := h.exists_of_mem_functions hbuild hentry
      exact ⟨hsame ▸ hcomplete.names first hfirst, hcount ▸ hargs first hfirst,
        haddressable.code entry hentry⟩
    · refine List.Perm.of_eq (map_eq_range fun id entry hentry => ?_)
      obtain ⟨bytes, -, rfl⟩ := (h.getElem?_strings hbuild).1 hentry
      rfl

end Records

/-- An image that is built comes back from its file exactly if all argument counts that were
declared, and the sizes of what it holds, are at most the largest word. -/
theorem decode_encode_iff_of_build (h : ((named name).after steps).build = .ok image) :
    Image.decode image.encode = .ok image ↔ image.Addressable ∧
      ∀ declaration ∈ declared steps, declaration.argCount < 2 ^ 63 := by
  rw [← (records_after name steps).wellFormed_iff h]
  exact ⟨Image.wellFormed_of_decode, Image.decode_encode⟩

def twoFunctions : List Step :=
  [.declare ⟨"main", 0, none⟩, .intern [104, 105], .declare ⟨"f", 3, some #[0x11]⟩,
    .define 0 #[0x15]]

def twoFunctionsImage : Image :=
  ⟨"p", [⟨"main", 0, 0, #[0x15]⟩, ⟨"f", 1, 3, #[0x11]⟩], [⟨0, [104, 105]⟩]⟩

theorem decode_encode_of_build_twoFunctions :
    ((named "p").after twoFunctions).build = .ok twoFunctionsImage ∧
      Image.decode twoFunctionsImage.encode = .ok twoFunctionsImage := by
  have hafter : (named "p").after twoFunctions =
      ⟨"p", #[⟨"main", 0, some #[0x15]⟩, ⟨"f", 3, some #[0x11]⟩], #[[104, 105]]⟩ := by
    simp [after, named, perform, twoFunctions, Tables.intern, Tables.declare, Tables.define]
  have hbuild : ((named "p").after twoFunctions).build = .ok twoFunctionsImage := by
    rw [hafter]
    rfl
  have haddressable : twoFunctionsImage.Addressable := ⟨by decide, by decide, by decide⟩
  exact ⟨hbuild, (decode_encode_iff_of_build hbuild).2 ⟨haddressable, by decide⟩⟩

/-- A function of so many arguments that their number is written as a negative word. -/
def hugeArity : List Step := [.declare ⟨"f", 2 ^ 63, some #[0x15]⟩]

def hugeArityImage : Image := ⟨"p", [⟨"f", 0, 2 ^ 63, #[0x15]⟩], []⟩

theorem hugeArity_refused :
    (∀ declaration ∈ declared hugeArity, declaration.argCount < UInt64.size) ∧
      ((named "p").after hugeArity).build = .ok hugeArityImage ∧
      Image.decode hugeArityImage.encode =
        .error (.negativeField 17 .argCount (-9223372036854775808)) := by
  refine ⟨by decide, ?_, ?_⟩
  · rfl
  · rfl

end Tables
end TieredVM
