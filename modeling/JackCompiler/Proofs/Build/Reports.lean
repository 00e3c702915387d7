import JackCompiler.Build.Libraries
import JackCompiler.Proofs.Json.Records
import JackCompiler.Proofs.Json.Values
/-!
# A report that has been written is read back

The fields of an entry, and those of a report, are written in the order of their drafts, so each
draft is filled field by field. With it the readings and writings of this library are lawful.
-/

namespace JackCompiler

open Json Reading

/-! ### Entries -/

namespace FileEntry

/-- What stands in front of a field of an entry. -/
def gap : List Char := '\n' :: List.replicate 6 ' '

/-- The fields of an entry as they are written. -/
def fieldsText (e : FileEntry) : List Char :=
  fieldText gap "path" (string e.path).toList ++ ',' ::
    (fieldText gap "output" (Json.optional e.output).toList ++ ',' ::
      (fieldText gap "routines" (toString e.routines).toList ++ ',' ::
        (fieldText gap "instructions" (toString e.instructions).toList ++ ',' ::
          fieldText gap "error" (Json.optional e.error).toList)))

theorem fills (e : FileEntry) : Fills EntryDraft.fields gap {} e.fieldsText
    ⟨e.path, some e.output, e.routines, e.instructions, some e.error⟩ := by
  refine .more rfl rfl (fun rest => bind_eq (text_string [' '] rfl e.path _)) ?_
  refine .more rfl rfl (fun rest => bind_eq (optionalText_optional e.output _)) ?_
  refine .more rfl rfl (fun rest => bind_eq (count_toString e.routines rest)) ?_
  refine .more rfl rfl (fun rest => bind_eq (count_toString e.instructions rest)) ?_
  exact .last rfl rfl (fun rest => bind_eq (optionalText_optional e.error _))

/-- The brackets of an entry and its fields. -/
def recordText (e : FileEntry) : List Char :=
  '\x7b' :: (e.fieldsText ++ '\n' :: (List.replicate 4 ' ' ++ ['\x7d']))

theorem json_toList (e : FileEntry) : e.json.toList = List.replicate 4 ' ' ++ e.recordText := by
  have quoted : ∀ name ∈ ["path", "output", "routines", "instructions", "error"],
      (string name).toList = '"' :: (name.toList ++ ['"']) := by decide +kernel
  simp only [List.forall_mem_cons] at quoted
  obtain ⟨path, output, routines, instructions, error, -⟩ := quoted
  unfold json
  simp [recordText, fieldsText, fieldText, gap, path, output, routines, instructions, error,
    List.replicate]

/-- An entry that has been written is read back. -/
theorem readsBack : ReadsBack reading recordText where
  solid e := ⟨_, _, rfl, by decide, by decide⟩
  read e rest := by
    have between : gap.all Json.isBlank = true := rfl
    have closed : (List.replicate 4 ' ').all Json.isBlank = true := rfl
    have complete : EntryDraft.finish
        ⟨e.path, some e.output, e.routines, e.instructions, some e.error⟩ = some e := rfl
    have spelled : e.recordText ++ rest = '\x7b' :: (e.fieldsText ++ '\n' ::
        (List.replicate 4 ' ' ++ '\x7d' :: rest)) := by
      simp [recordText]
    rw [spelled]
    exact record_fills between closed e.fills complete

/-- What stands in front of an entry. -/
def margin : List Char := '\n' :: List.replicate 4 ' '

theorem intercalate_json (e : FileEntry) (entries : List FileEntry) :
    '\n' :: (",\n".intercalate ((e :: entries).map json)).toList =
      margin ++ (e.recordText ++ itemsText recordText margin entries) := by
  rw [String.toList_intercalate, List.map_map]
  induction entries generalizing e with
  | nil => simp [itemsText, json_toList, margin]
  | cons e' entries ih =>
    rw [List.map_cons, List.map_cons, List.intercalate_cons_cons, ← List.map_cons]
    have others := ih e'
    rw [itemsText, List.flatMap_cons, ← itemsText, List.cons_append, List.append_assoc,
      List.append_assoc, ← others]
    simp [json_toList, margin]

end FileEntry

/-! ### Reports -/

namespace Report

/-- What stands in front of a field of a report. -/
def gap : List Char := '\n' :: List.replicate 2 ' '

/-- The entries of a report as they are written. -/
def filesText : List FileEntry → List Char
  | [] => ['[', ']']
  | e :: entries => '[' :: (FileEntry.margin ++ (e.recordText ++
      (itemsText FileEntry.recordText FileEntry.margin entries ++ (gap ++ [']']))))

/-- The fields of a report as they are written. -/
def fieldsText (r : Report) : List Char :=
  fieldText gap "total" (toString r.total).toList ++ ',' ::
    (fieldText gap "succeeded" (toString r.succeeded).toList ++ ',' ::
      (fieldText gap "failed" (toString r.failed).toList ++ ',' ::
        fieldText gap "files" (filesText r.files)))

theorem list_filesText (entries : List FileEntry) (rest : List Char) :
    list FileEntry.reading (' ' :: (filesText entries ++ rest)) = .ok (entries, rest) := by
  have between : FileEntry.margin.all Json.isBlank = true := rfl
  have closed : gap.all Json.isBlank = true := rfl
  cases entries with
  | nil => exact list_empty
  | cons e entries =>
    have spelled : filesText (e :: entries) ++ rest = '[' :: (FileEntry.margin ++
        (e.recordText ++ (itemsText FileEntry.recordText FileEntry.margin entries ++
          (gap ++ ']' :: rest)))) := by
      simp [filesText]
    rw [spelled]
    exact list_items FileEntry.readsBack between closed e entries

theorem fills (r : Report) : Fills ReportDraft.fields gap {} r.fieldsText
    ⟨r.total, r.succeeded, r.failed, r.files⟩ := by
  refine .more rfl rfl (fun rest => bind_eq (count_toString r.total rest)) ?_
  refine .more rfl rfl (fun rest => bind_eq (count_toString r.succeeded rest)) ?_
  refine .more rfl rfl (fun rest => bind_eq (count_toString r.failed rest)) ?_
  exact .last rfl rfl (fun rest => bind_eq (list_filesText r.files _))

theorem json_toList (r : Report) :
    r.json.toList = '\x7b' :: (r.fieldsText ++ ['\n', '\x7d']) := by
  have quoted : ∀ name ∈ ["total", "succeeded", "failed", "files"],
      (string name).toList = '"' :: (name.toList ++ ['"']) := by decide +kernel
  simp only [List.forall_mem_cons] at quoted
  obtain ⟨total, succeeded, failed, files, -⟩ := quoted
  have entries : (if r.files.isEmpty then "[]"
      else "[\n" ++ String.intercalate ",\n" (r.files.map (·.json)) ++ "\n  ]").toList =
      filesText r.files := by
    cases r.files with
    | nil => simp [filesText]
    | cons e entries =>
      have joined := FileEntry.intercalate_json e entries
      calc ("[\n" ++ ",\n".intercalate ((e :: entries).map (·.json)) ++ "\n  ]").toList
          = '[' :: ('\n' :: (",\n".intercalate ((e :: entries).map FileEntry.json)).toList ++
              (gap ++ [']'])) := by
            simp [gap, List.replicate]
        _ = filesText (e :: entries) := by
            rw [joined, filesText, List.append_assoc, List.append_assoc]
  unfold json
  simp only [String.toList_append, entries]
  simp [fieldsText, fieldText, gap, total, succeeded, failed, files, List.replicate]

end Report

namespace Libraries

end Libraries

end JackCompiler
