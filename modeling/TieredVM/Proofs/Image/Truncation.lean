import TieredVM.Proofs.Image.Codec
/-!
Files that are cut off, and files that go on. A reader takes a file byte by byte, so what it makes
of a file is settled by the bytes up to where it stops. Main statement: every proper beginning of
an accepted file lacks bytes of one field, and says how many; what goes on after an accepted file
is counted as trailing; and any other error stays whatever follows.
-/
set_option autoImplicit false

namespace TieredVM

/-- Bytes that have been read are wrong, whatever follows them. -/
def LoadError.IsFault : LoadError → Prop
  | truncated _ _ | trailingBytes _ => False
  | _ => True

namespace Cursor

def extend (cursor : Cursor) (more : List UInt8) : Cursor :=
  { cursor with rest := cursor.rest ++ more }

def fileLength (cursor : Cursor) : Nat := cursor.offset + cursor.rest.length

theorem Spans.fileLength_eq {first last : Cursor} {bytes : List UInt8}
    (h : first.Spans bytes last) : last.fileLength = first.fileLength := by
  simp only [fileLength, h.rest, h.offset, List.length_append]
  omega

end Cursor

namespace Reader

variable {α β : Type}

/-- What is read from a file, and what from the file with more bytes behind it. -/
inductive Continues (more : List UInt8) :
    Except LoadError (α × Cursor) → Except LoadError (α × Cursor) → Prop where
  | done (a : α) (last : Cursor) : Continues more (.ok (a, last)) (.ok (a, last.extend more))
  | fault {error : LoadError} :
      error.IsFault → Continues more (.error error) (.error error)
  | short {offset needed : Nat} (h : more.length < needed) :
      Continues more (.error (.truncated offset needed))
        (.error (.truncated offset (needed - more.length)))
  | reached {offset needed : Nat} {result : Except LoadError (α × Cursor)}
      (h : needed ≤ more.length) : Continues more (.error (.truncated offset needed)) result

/-- The reader takes the file byte by byte, and if it comes to the end, it lacks some bytes of a
field that starts within the file. -/
structure Sequential (reader : Reader α) : Prop where
  continues : ∀ cursor more, Continues more (reader cursor) (reader (cursor.extend more))
  within : ∀ cursor a last, reader cursor = .ok (a, last) → last.fileLength = cursor.fileLength
  lacks : ∀ cursor offset needed, reader cursor = .error (.truncated offset needed) →
    offset ≤ cursor.fileLength ∧ 1 ≤ needed

theorem bind_of_ok {x : Reader α} {f : α → Reader β} {cursor next : Cursor} {a : α}
    (h : x cursor = .ok (a, next)) : (x >>= f) cursor = f a next := by
  change (x cursor >>= fun found => f found.1 found.2) = f a next
  rw [h, ok_bind]

theorem bind_of_error {x : Reader α} {f : α → Reader β} {cursor : Cursor} {error : LoadError}
    (h : x cursor = .error error) : (x >>= f) cursor = .error error := by
  change (x cursor >>= fun found => f found.1 found.2) = .error error
  rw [h, error_bind]

theorem sequential_pure (a : α) : Sequential (pure a : Reader α) where
  continues cursor _ := .done a cursor
  within _ _ _ h := by rw [(pure_eq_ok_iff.1 h).2]
  lacks _ _ _ h := by cases h

theorem sequential_fail {error : LoadError} (h : error.IsFault) :
    Sequential (fail error : Reader α) where
  continues _ _ := .fault h
  within _ _ _ hok := absurd hok not_fail_eq_ok
  lacks _ _ _ herror := by
    cases herror
    cases h

theorem sequential_offset : Sequential offset where
  continues cursor _ := .done cursor.offset cursor
  within _ _ _ h := by rw [(offset_eq_ok_iff.1 h).2]
  lacks _ _ _ h := by cases h

theorem take_of_le {n : Nat} {cursor : Cursor} (h : n ≤ cursor.rest.length) :
    take n cursor = .ok (cursor.rest.take n, ⟨cursor.offset + n, cursor.rest.drop n⟩) := by
  simp [take, List.splitAt_eq, h]

theorem take_of_lt {n : Nat} {cursor : Cursor} (h : cursor.rest.length < n) :
    take n cursor = .error (.truncated cursor.offset (n - cursor.rest.length)) := by
  simp [take, List.splitAt_eq, Nat.min_eq_right h.le, h.ne]

theorem sequential_take (n : Nat) : Sequential (take n) where
  continues cursor more := by
    have hlength : (cursor.extend more).rest.length = cursor.rest.length + more.length :=
      List.length_append
    by_cases hle : n ≤ cursor.rest.length
    · rw [take_of_le hle, take_of_le (by omega), Cursor.extend, List.take_append_of_le_length hle,
        List.drop_append_of_le_length hle]
      exact .done _ _
    · rw [take_of_lt (by omega)]
      by_cases hmore : more.length < n - cursor.rest.length
      · rw [take_of_lt (by omega), hlength, Nat.sub_add_eq]
        exact .short hmore
      · exact .reached (by omega)
  within _ _ _ h := (take_eq_ok_iff.1 h).2.fileLength_eq
  lacks cursor offset needed h := by
    by_cases hle : n ≤ cursor.rest.length
    · rw [take_of_le hle] at h
      cases h
    · rw [take_of_lt (by omega)] at h
      cases h
      exact ⟨Nat.le_add_right _ _, by omega⟩

theorem byte_eq_take (cursor : Cursor) :
    byte cursor = (do return (← take 1).headD 0 : Reader UInt8) cursor := by
  obtain ⟨start, rest⟩ := cursor
  cases rest with
  | nil => rfl
  | cons first rest => rw [bind_of_ok (take_of_le (Nat.le_add_left 1 _))]; rfl

theorem Sequential.bind {x : Reader α} {f : α → Reader β} (hx : Sequential x)
    (hf : ∀ a, Sequential (f a)) : Sequential (x >>= f) where
  continues cursor more := by
    have hcontinues := hx.continues cursor more
    generalize hextended : x (cursor.extend more) = extended at hcontinues
    cases hread : x cursor with
    | ok found =>
      obtain ⟨a, next⟩ := found
      rw [hread] at hcontinues
      cases hcontinues
      rw [bind_of_ok hread, bind_of_ok hextended]
      exact (hf a).continues next more
    | error error =>
      rw [hread] at hcontinues
      rw [bind_of_error hread]
      cases hcontinues with
      | fault h =>
        rw [bind_of_error hextended]
        exact .fault h
      | short h =>
        rw [bind_of_error hextended]
        exact .short h
      | reached h => exact .reached h
  within cursor b last h := by
    obtain ⟨a, next, hread, hrest⟩ := bind_eq_ok_iff.1 h
    rw [(hf a).within _ _ _ hrest, hx.within _ _ _ hread]
  lacks cursor offset needed h := by
    cases hread : x cursor with
    | ok found =>
      obtain ⟨a, next⟩ := found
      rw [bind_of_ok hread] at h
      rw [← hx.within _ _ _ hread]
      exact (hf a).lacks _ _ _ h
    | error error =>
      rw [bind_of_error hread] at h
      cases h
      exact hx.lacks _ _ _ hread

theorem sequential_byte : Sequential byte := by
  rw [funext byte_eq_take]
  exact (sequential_take 1).bind fun bytes => sequential_pure (bytes.headD 0)

theorem sequential_word : Sequential word :=
  (sequential_take 8).bind fun _ => sequential_pure _

theorem sequential_size (field : SizeField) : Sequential (size field) := by
  refine sequential_offset.bind fun start => sequential_word.bind fun value => ?_
  cases Word.toIndex? value with
  | none => exact sequential_fail trivial
  | some n => exact sequential_pure n

theorem sequential_name : Sequential name := by
  refine sequential_offset.bind fun start => sequential_byte.bind fun length => ?_
  split
  · exact sequential_fail trivial
  · refine (sequential_take _).bind fun bytes => ?_
    cases String.fromUTF8? ⟨bytes.toArray⟩ with
    | none => exact sequential_fail trivial
    | some text => exact sequential_pure text

theorem sequential_eyecatcher : Sequential eyecatcher := by
  refine sequential_offset.bind fun start => (sequential_take _).bind fun bytes => ?_
  split
  · exact sequential_pure ()
  · exact sequential_fail trivial

theorem sequential_freshId {count : Nat} {taken : List Nat}
    {outOfRange : Nat → Int64 → Nat → LoadError} {duplicate : Nat → Nat → LoadError}
    (hrange : ∀ start value count, (outOfRange start value count).IsFault)
    (hduplicate : ∀ start id, (duplicate start id).IsFault) :
    Sequential (freshId count taken outOfRange duplicate) := by
  refine sequential_offset.bind fun start => sequential_word.bind fun value => ?_
  cases (Word.toIndex? value).filter (· < count) with
  | none => exact sequential_fail (hrange start value count)
  | some id =>
    simp only
    split
    · exact sequential_fail (hduplicate start id)
    · exact sequential_pure id

theorem sequential_entries {entry : List Nat → Reader α} {id : α → Nat}
    (hentry : ∀ taken, Sequential (entry taken)) (remaining : Nat) (taken : List Nat) :
    Sequential (entries entry id remaining taken) := by
  induction remaining generalizing taken with
  | zero => exact sequential_pure []
  | succ remaining ih =>
    refine (hentry taken).bind fun first => (ih (id first :: taken)).bind fun rest => ?_
    exact sequential_pure (first :: rest)

end Reader

open Reader

theorem FunctionEntry.sequential_read (count : Nat) (taken : List Nat) :
    Sequential (read count taken) := by
  refine sequential_name.bind fun _ => Sequential.bind ?_ fun _ => ?_
  · exact sequential_freshId (fun _ _ _ => trivial) fun _ _ => trivial
  · refine (sequential_size _).bind fun _ => (sequential_size _).bind fun codeSize => ?_
    exact (sequential_take codeSize).bind fun _ => sequential_pure _

theorem StringEntry.sequential_read (count : Nat) (taken : List Nat) :
    Sequential (read count taken) := by
  refine Sequential.bind ?_ fun _ => ?_
  · exact sequential_freshId (fun _ _ _ => trivial) fun _ _ => trivial
  · exact (sequential_size _).bind fun length =>
      (sequential_take length).bind fun _ => sequential_pure _

namespace Image

theorem sequential_read : Sequential read := by
  refine sequential_eyecatcher.bind fun _ => sequential_name.bind fun _ => ?_
  refine sequential_byte.bind fun functionCount => ?_
  split
  · exact sequential_fail trivial
  · refine (sequential_entries (FunctionEntry.sequential_read _) _ _).bind fun _ => ?_
    refine (sequential_size _).bind fun _ => ?_
    refine (sequential_entries (StringEntry.sequential_read _) _ _).bind fun _ => ?_
    exact sequential_eyecatcher.bind fun _ => sequential_pure _

variable {file more : List UInt8} {image : Image}

theorem decode_of_read_error {error : LoadError} (h : read ⟨0, file⟩ = .error error) :
    decode file = .error error := by
  have hrun : read.run ⟨0, file⟩ = .error error := h
  rw [decode, hrun, error_bind]

theorem decode_of_read_ok {offset : Nat} {rest : List UInt8} (hrest : rest ≠ [])
    (h : read ⟨0, file⟩ = .ok (image, ⟨offset, rest⟩)) :
    decode file = .error (.trailingBytes rest.length) := by
  have hrun : read.run ⟨0, file⟩ = .ok (image, ⟨offset, rest⟩) := h
  rw [decode, hrun, ok_bind]
  simp only [List.isEmpty_iff, if_neg hrest]
  rfl

theorem decode_append_of_ok (h : decode file = .ok image) (hmore : more ≠ []) :
    decode (file ++ more) = .error (.trailingBytes more.length) := by
  obtain ⟨offset, hread⟩ := decode_eq_ok_iff_read.1 h
  have hcontinues := sequential_read.continues ⟨0, file⟩ more
  generalize hextended : read (Cursor.extend ⟨0, file⟩ more) = extended at hcontinues
  rw [hread] at hcontinues
  cases hcontinues
  exact decode_of_read_ok hmore hextended

theorem decode_append_of_fault {error : LoadError} (h : decode file = .error error)
    (hfault : error.IsFault) : decode (file ++ more) = .error error := by
  cases hread : read ⟨0, file⟩ with
  | ok found =>
    obtain ⟨image, offset, rest⟩ := found
    by_cases hrest : rest = []
    · subst hrest
      rw [decode_eq_ok_iff_read.2 ⟨offset, hread⟩] at h
      cases h
    · rw [decode_of_read_ok hrest hread] at h
      cases h
      cases hfault
  | error found =>
    obtain rfl := Except.error.inj ((decode_of_read_error hread).symm.trans h)
    have hcontinues := sequential_read.continues ⟨0, file⟩ more
    generalize hextended : read (Cursor.extend ⟨0, file⟩ more) = extended at hcontinues
    rw [hread] at hcontinues
    cases hcontinues with
    | fault _ => exact decode_of_read_error hextended
    | short _ => cases hfault
    | reached _ => cases hfault

theorem read_beginning (h : decode (file ++ more) = .ok image) (hmore : more ≠ []) :
    ∃ offset needed, read ⟨0, file⟩ = .error (.truncated offset needed) ∧
      needed ≤ more.length := by
  obtain ⟨place, hwhole⟩ := decode_eq_ok_iff_read.1 h
  have hcontinues := sequential_read.continues ⟨0, file⟩ more
  rw [Cursor.extend, hwhole] at hcontinues
  generalize hread : read ⟨0, file⟩ = result at hcontinues
  generalize hend : (⟨place, []⟩ : Cursor) = last at hcontinues
  cases hcontinues with
  | done image last =>
    have hrest : last.rest ++ more = [] := (congrArg Cursor.rest hend).symm
    exact absurd (List.append_eq_nil_iff.1 hrest).2 hmore
  | reached hle => exact ⟨_, _, rfl, hle⟩

theorem decode_append_of_truncated {offset needed : Nat}
    (h : read ⟨0, file⟩ = .error (.truncated offset needed)) (hmore : more.length < needed) :
    decode (file ++ more) = .error (.truncated offset (needed - more.length)) := by
  have hcontinues := sequential_read.continues ⟨0, file⟩ more
  generalize hextended : read (Cursor.extend ⟨0, file⟩ more) = extended at hcontinues
  rw [h] at hcontinues
  cases hcontinues with
  | fault hfault => cases hfault
  | short _ => exact decode_of_read_error hextended
  | reached hle => omega

/-- A file that is cut off says how many bytes its last field lacks, one that goes on how many bytes
are too many, and any other error is the same for all files that begin alike. -/
theorem decode_cut_or_extended (file : List UInt8) :
    (∀ image, decode file = .ok image →
      (∀ k < file.length, ∃ offset needed, offset ≤ k ∧ 1 ≤ needed ∧ k + needed ≤ file.length ∧
        ∀ j < needed, decode (file.take (k + j)) = .error (.truncated offset (needed - j))) ∧
      ∀ more ≠ [], decode (file ++ more) = .error (.trailingBytes more.length)) ∧
    ∀ error, decode file = .error error → error.IsFault →
      ∀ more, decode (file ++ more) = .error error := by
  refine ⟨fun image h => ⟨fun k hk => ?_, fun more => decode_append_of_ok h⟩,
    fun error h hfault more => decode_append_of_fault h hfault⟩
  have hmore : file.drop k ≠ [] := by simpa using hk
  have hlength : (file.take k).length = k := List.length_take_of_le hk.le
  obtain ⟨offset, needed, hread, hle⟩ :=
    read_beginning ((List.take_append_drop k file).symm ▸ h) hmore
  obtain ⟨hoffset, hneeded⟩ := sequential_read.lacks _ _ _ hread
  rw [List.length_drop] at hle
  refine ⟨offset, needed, ?_, hneeded, by omega, fun j hj => ?_⟩
  · simpa [Cursor.fileLength, hlength] using hoffset
  · have hpiece : ((file.drop k).take j).length = j := by simp; omega
    have hcut : decode (file.take k ++ (file.drop k).take j) = _ :=
      decode_append_of_truncated hread (by omega)
    rwa [hpiece, ← List.take_add] at hcut

def bare : Image where
  name := "b"
  functions := [{ name := "main", id := 0, argCount := 2, code := #[] }]
  strings := []

theorem wellFormed_bare : bare.WellFormed := by decide +kernel

theorem decode_cut_or_extended_bare :
    decode bare.encode = .ok bare ∧ decode (bare.encode.take 23) = .error (.truncated 20 5) ∧
      decode (bare.encode.take 27) = .error (.truncated 20 1) ∧
      decode (bare.encode ++ [0]) = .error (.trailingBytes 1) ∧
      decode [0x45, 0x4c, 0x4c, 0x46] = .error (.badEyecatcher 0) ∧
      decode ([0x45, 0x4c, 0x4c, 0x46] ++ bare.encode) = .error (.badEyecatcher 0) := by
  have hok := decode_encode wellFormed_bare
  have hfault : decode [0x45, 0x4c, 0x4c, 0x46] = .error (.badEyecatcher 0) := by decide +kernel
  have hcut : decode (bare.encode.take 23) = .error (.truncated 20 5) := by decide +kernel
  obtain ⟨hcuts, hextended⟩ := (decode_cut_or_extended bare.encode).1 bare hok
  obtain ⟨offset, needed, -, hneeded, -, hlacks⟩ := hcuts 23 (by decide +kernel)
  obtain ⟨rfl, rfl⟩ : offset = 20 ∧ needed = 5 := by simpa [hcut, eq_comm] using hlacks 0 hneeded
  refine ⟨hok, hcut, hlacks 4 (by decide), hextended [0] (by decide), hfault, ?_⟩
  exact (decode_cut_or_extended _).2 _ hfault trivial bare.encode

end Image
end TieredVM
