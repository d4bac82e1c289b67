import SampleData.Config
import SampleData.Proofs.TomlText

/-!
# Configurations as texts

A configuration can be written exactly if TOML can hold its numbers, and then its text is read back
as it: whatever characters its texts have, and whichever form each of them is written in.

* `toList_heading`, `toList_body`: the text is two remarks and two sections.
* `ofText_written`: the document of that text.
* `toText_recovers`: when a configuration is written, and what is read of it.
-/

namespace SampleData.Config

open Text Toml

/-! ## What is written -/

/-- The lines of the first section. -/
def defaultsLines (c : Config) : List KeyLine :=
  [{ key := "files_count".toList, text := natDigits c.filesCount.toNat
     value := .integer c.filesCount.toNat },
   { key := "file_name".toList, text := write c.fileName.toList, value := .text c.fileName },
   { key := "file_prefix".toList, text := write c.scheme.word.toList, value := .text c.scheme.word },
   { key := "data_lines".toList, text := natDigits c.dataLines.toNat
     value := .integer c.dataLines.toNat },
   { key := "multiprocessing".toList, text := natDigits c.workers.toNat
     value := .integer c.workers.toNat }]

/-- The line of the second section. -/
def schemaLines (c : Config) : List KeyLine :=
  [{ key := "default_schema".toList, text := write c.schema.toList, value := .text c.schema }]

/-- The sections of a configuration as characters. -/
def written (c : Config) : List Char :=
  '[' :: ("defaults".toList ++ ']' :: '\n' :: writeLines c.defaultsLines
    ('\n' :: '[' :: ("schema".toList ++ ']' :: '\n' :: writeLines c.schemaLines [])))

/-- A key with an equals sign, in front of anything. -/
theorem toList_key (start key : String) (h : start.toList = key.toList ++ [' ', '=', ' '])
    (text : List Char) : start.toList ++ text = key.toList ++ assigned text := by
  rw [h, List.append_assoc]
  rfl

/-- The text of the sections, character by character. -/
theorem toList_body (c : Config) : c.body.toList = c.written := by
  have hdefaults (text : List Char) : "[defaults]\n".toList ++ text =
      '[' :: ("defaults".toList ++ ']' :: '\n' :: text) := by rfl
  have hschema (text : List Char) : "\n[schema]\n".toList ++ text =
      '\n' :: '[' :: ("schema".toList ++ ']' :: '\n' :: text) := by rfl
  have hcount := toList_key "files_count = " "files_count" (by decide)
  have hname := toList_key "file_name = " "file_name" (by decide)
  have hscheme := toList_key "file_prefix = " "file_prefix" (by decide)
  have hlines := toList_key "data_lines = " "data_lines" (by decide)
  have hworkers := toList_key "multiprocessing = " "multiprocessing" (by decide)
  have htext := toList_key "default_schema = " "default_schema" (by decide)
  have hbreak : "\n".toList = ['\n'] := by rfl
  unfold body
  simp only [String.toList_append, List.append_assoc]
  rw [hdefaults, hcount, hname, hscheme, hlines, hworkers, hschema, htext]
  simp only [hbreak, List.singleton_append, showUInt64, showNat, showText, String.toList_ofList]
  rfl

/-! ## What is read -/

/-- Any text stands for itself. -/
theorem isWritten_text (s : String) : IsWritten (write s.toList) (.text s) := by
  have hwritten := isWritten_write s.toList
  rwa [String.ofList_toList] at hwritten

/-- The lines of the first section can be read if the numbers can be written. -/
theorem isReadable_defaultsLines {c : Config} (h : c.IsWritable) :
    ∀ l ∈ c.defaultsLines, l.IsReadable := by
  have hword : ∀ k ∈ defaultsKeys, IsWord k.toList := by decide
  obtain ⟨hcount, hlines, hworkers⟩ := h
  simp only [defaultsKeys, List.forall_mem_cons] at hword
  simp only [defaultsLines, List.forall_mem_cons]
  obtain ⟨h1, h2, h3, h4, h5, -⟩ := hword
  exact ⟨⟨h1, isWritten_natDigits hcount⟩, ⟨h2, isWritten_text _⟩, ⟨h3, isWritten_text _⟩,
    ⟨h4, isWritten_natDigits hlines⟩, ⟨h5, isWritten_natDigits hworkers⟩, nofun⟩

/-- The line of the second section can be read. -/
theorem isReadable_schemaLines (c : Config) : ∀ l ∈ c.schemaLines, l.IsReadable := by
  have hword : IsWord "default_schema".toList := by decide
  simp only [schemaLines, List.forall_mem_cons]
  exact ⟨⟨hword, isWritten_text _⟩, nofun⟩

/-- The heading in front of anything: two remarks and an empty line. -/
theorem toList_heading (text : List Char) : heading.toList ++ text =
    '#' :: (" dataforge default configuration".toList ++ '\n' ::
      '#' :: (" Keys match the command line argument names".toList ++ '\n' :: '\n' :: text)) := by
  rfl

/-- The heading is passed over. -/
theorem readLines_heading {n : Nat} {d : Draft} (text : List Char) :
    readLines (n + 3) d (heading.toList ++ text) = readLines n d text := by
  rw [toList_heading, readLines_remark (by decide), readLines_remark (by decide), readLines_break]

/-- The document of the text of a configuration: its two sections, wherever they stand. -/
theorem ofText_written {c : Config} (h : c.IsWritable) :
    ∃ (e₁ e₂ : Entry Toml) (ms₁ ms₂ : Members),
      Toml.ofText (heading ++ c.body).toList = .ok [e₁, e₂] ∧
      (e₁.key = "defaults" ∧ e₁.value = .table .header ms₁ ∧
        contents ms₁ = c.defaultsLines.map (·.content)) ∧
      (e₂.key = "schema" ∧ e₂.value = .table .header ms₂ ∧
        contents ms₂ = c.schemaLines.map (·.content)) := by
  have hdefaults : IsWord "defaults".toList := by decide
  have hschema : IsWord "schema".toList := by decide
  have hdistinct : (defaultsKeys.map String.toList).Nodup := by decide
  obtain ⟨d₁, e₁, ms₁, hfinish₁, hkey₁, hvalue₁, hcontents₁, hread₁⟩ :=
    readLines_section (d := Draft.start) hdefaults (isReadable_defaultsLines h)
      hdistinct rfl (fun _ => nofun)
      ('\n' :: '[' :: ("schema".toList ++ ']' :: '\n' :: writeLines c.schemaLines []))
  rw [String.ofList_toList] at hkey₁
  have hnew : ∀ e ∈ [e₁], e.key ≠ String.ofList "schema".toList := by
    intro e he
    rw [List.mem_singleton.mp he, hkey₁]
    decide
  obtain ⟨d₂, e₂, ms₂, hfinish₂, hkey₂, hvalue₂, hcontents₂, hread₂⟩ :=
    readLines_section hschema (isReadable_schemaLines c) (by simp [schemaLines])
      hfinish₁ hnew []
  rw [String.ofList_toList] at hkey₂
  refine ⟨e₁, e₂, ms₁, ms₂, ?_, ⟨hkey₁, hvalue₁, hcontents₁⟩, hkey₂, hvalue₂, hcontents₂⟩
  have htext : (heading ++ c.body).toList = heading.toList ++ c.written := by
    rw [String.toList_append, toList_body]
  obtain ⟨n, hn⟩ : ∃ n, (heading.toList ++ c.written).length + 1 = n + 1 + 1 + 1 + 5 + 1 + 3 := by
    have hlength : 12 ≤ heading.toList.length := by decide
    rw [List.length_append]
    exact ⟨heading.toList.length + c.written.length + 1 - 12, by omega⟩
  have hlines : readLines ((heading.toList ++ c.written).length + 1) .start
      (heading.toList ++ c.written) = .ok d₂ := by
    rw [hn, readLines_heading, written]
    calc readLines (n + 1 + 1 + 1 + 5 + 1) .start _
        = readLines (n + 1 + 1 + 1) d₁ ('\n' :: '[' :: ("schema".toList ++ ']' :: '\n' ::
            writeLines c.schemaLines [])) := hread₁ _
      _ = readLines (n + 1 + 1) d₁ ('[' :: ("schema".toList ++ ']' :: '\n' ::
            writeLines c.schemaLines [])) := readLines_break _
      _ = readLines n d₂ [] := hread₂ _
      _ = .ok d₂ := by cases n <;> rfl
  have hmark : dropByteOrderMark (heading.toList ++ c.written) = heading.toList ++ c.written := by
    rw [toList_heading]
    rfl
  rw [htext, Toml.ofText]
  simp only [hmark, hlines, hfinish₂]
  rfl

section Values

variable {e : Entry Toml}

/-- A number of 64 bits. -/
theorem numberOf_integer {n : UInt64} (h : e.value = .integer n.toNat) : numberOf e = .ok n := by
  rw [numberOf, h]
  simp

/-- A text. -/
theorem textOf_text {s : String} (h : e.value = .text s) : textOf e = .ok s := by
  rw [textOf, h]

/-- The word of a scheme. -/
theorem schemeOf_word {s : NameScheme} (h : e.value = .text s.word) : schemeOf e = .ok s := by
  rw [schemeOf, h]
  cases s <;> rfl

end Values

/-- What is read of the lines of the first section: all but the schema. -/
theorem foldlM_setDefault {c c₀ : Config} {ms : Members}
    (h : contents ms = c.defaultsLines.map (·.content)) :
    ms.foldlM setDefault c₀ = .ok { c with schema := c₀.schema } := by
  simp only [contents, defaultsLines, KeyLine.content, List.map_cons, List.map_nil,
    String.ofList_toList, List.map_eq_cons_iff, List.map_eq_nil_iff, Prod.mk.injEq] at h
  obtain ⟨e₁, _, rfl, ⟨hkey₁, hvalue₁⟩, e₂, _, rfl, ⟨hkey₂, hvalue₂⟩, e₃, _, rfl, ⟨hkey₃, hvalue₃⟩,
    e₄, _, rfl, ⟨hkey₄, hvalue₄⟩, e₅, _, rfl, ⟨hkey₅, hvalue₅⟩, rfl⟩ := h
  simp only [List.foldlM_cons, List.foldlM_nil, setDefault, hkey₁, hkey₂, hkey₃, hkey₄, hkey₅,
    numberOf_integer hvalue₁, textOf_text hvalue₂, schemeOf_word hvalue₃, numberOf_integer hvalue₄,
    numberOf_integer hvalue₅]
  rfl

/-- What is read of the line of the second section: the schema. -/
theorem foldlM_setSchema {c c₀ : Config} {ms : Members}
    (h : contents ms = c.schemaLines.map (·.content)) :
    ms.foldlM setSchema c₀ = .ok { c₀ with schema := c.schema } := by
  simp only [contents, schemaLines, KeyLine.content, List.map_cons, List.map_nil,
    String.ofList_toList, List.map_eq_cons_iff, List.map_eq_nil_iff, Prod.mk.injEq] at h
  obtain ⟨e, _, rfl, ⟨hkey, hvalue⟩, rfl⟩ := h
  simp only [List.foldlM_cons, List.foldlM_nil, setSchema, hkey, textOf_text hvalue]
  rfl

/-- The text of a configuration is read as the configuration. -/
theorem ofText_text {c : Config} (h : c.IsWritable) : ofText (heading ++ c.body) = .ok c := by
  obtain ⟨e₁, e₂, ms₁, ms₂, htext, ⟨hkey₁, hvalue₁, hcontents₁⟩, hkey₂, hvalue₂, hcontents₂⟩ :=
    ofText_written h
  have hdefaults : setSection builtin e₁ = .ok { c with schema := builtin.schema } := by
    simp only [setSection, hkey₁, sectionEntries, hvalue₁, bind, Except.bind, if_true]
    exact foldlM_setDefault hcontents₁
  have hschema : setSection { c with schema := builtin.schema } e₂ = .ok c := by
    simp only [setSection, hkey₂, sectionEntries, hvalue₂, bind, Except.bind]
    exact foldlM_setSchema hcontents₂
  have hmembers : ofMembers [e₁, e₂] = .ok c := by
    simp only [ofMembers, List.foldlM_cons, List.foldlM_nil, hdefaults, hschema, bind, Except.bind]
    rfl
  simp only [ofText, read, htext, bind, Except.bind, hmembers]
  rfl

/-- **Writing and reading a configuration.** It can be written exactly if its three numbers are at
most 2⁶³ - 1; its text is then the sections below the heading, and is read as the configuration. -/
theorem toText_recovers (c : Config) :
    ((∃ text, c.toText = .ok text) ↔ c.filesCount.toNat ≤ 9223372036854775807 ∧
      c.dataLines.toNat ≤ 9223372036854775807 ∧ c.workers.toNat ≤ 9223372036854775807) ∧
    (∀ text, c.toText = .ok text → text = heading ++ c.body ∧ ofText text = .ok c) := by
  have hbounds : c.IsWritable ↔ c.filesCount.toNat ≤ 9223372036854775807 ∧
      c.dataLines.toNat ≤ 9223372036854775807 ∧ c.workers.toNat ≤ 9223372036854775807 := by
    unfold IsWritable greatestInt64
    omega
  unfold toText
  rw [← hbounds]
  by_cases h : c.IsWritable
  · rw [if_pos h]
    refine ⟨iff_of_true ⟨_, rfl⟩ h, ?_⟩
    rintro text ⟨⟩
    exact ⟨rfl, ofText_text h⟩
  · rw [if_neg h]
    exact ⟨iff_of_false nofun h, nofun⟩

/-- Texts with quotes, backslashes, line breaks and control characters, and the greatest number that
can be written. -/
theorem toText_recovers_quoted :
    let c : Config :=
      { filesCount := 9223372036854775807, fileName := "it's \"\"\"\\\n", scheme := .uuid
        dataLines := 0, workers := 18, schema := "'''\r\n\t\x00\x7f é\"" }
    c.toText = .ok (heading ++ c.body) ∧ ofText (heading ++ c.body) = .ok c := by
  intro c
  have hwritten : c.toText = .ok (heading ++ c.body) := if_pos (by decide)
  exact ⟨hwritten, ((toText_recovers c).2 _ hwritten).2⟩

end SampleData.Config
