import Planimeter.Proofs.Config.Texts
import Planimeter.Proofs.Yaml.Missed
import Planimeter.Proofs.Yaml.Sections
/-!
# Loading a printed configuration

A configuration is printed as a document of two sections. Loading the document gives the
configuration back exactly if its two texts are read back, which almost all are.
-/
namespace Planimeter

namespace Yaml

/-- A text whose scalar can be read: it has no character that no document may contain, and those
that end a line are held or stand between quotes. -/
structure Readable (cs : List Char) : Prop where
  held : Write.isBare cs → Write.Held cs
  characters : cs.any Write.isNoncharacter = false

theorem held_of_isPrintable {cs : List Char} (h : ∀ c ∈ cs, IsPrintable c) :
    Write.isBare cs → Write.Held cs :=
  fun hbare => Write.held_of_separator hbare fun c hc => (h c hc).isInline.separator

theorem readable_of_isPrintable {cs : List Char} (h : ∀ c ∈ cs, IsPrintable c) : Readable cs where
  held := held_of_isPrintable h
  characters := by
    simpa using fun c hc => Write.isNoncharacter_eq_false (h c hc)

/-- Of the printable characters only the space is blank. -/
theorem IsPrintable.eq_space {c : Char} (h : IsPrintable c) (hblank : Text.isBlank c) :
    c = ' ' := by
  obtain ⟨hlow, hhigh⟩ := h
  simp only [Text.isBlank, Bool.or_eq_true, Bool.and_eq_true, decide_eq_true_eq, beq_iff_eq]
    at hblank
  exact Char.toNat_inj.1 (show c.toNat = 0x20 by omega)

theorem kept_of_isPrintable {cs : List Char} (h : ∀ c ∈ cs, IsPrintable c)
    (hlast : cs.getLast? ≠ some ' ') : Write.Kept cs :=
  Write.kept_of_blanks (fun _ => hlast) (fun _ _ c hc => (h c hc).eq_space) (held_of_isPrintable h)

/-- The entry of a text. -/
theorem exists_field (name : Name) {cs : List Char} (h : Readable cs) :
    ∃ f : Field, f.name = name ∧ f.written = Write.scalar cs ∧
      (f.entry.value = .text (String.ofList cs) ↔ Write.Kept cs) ∧
      ∀ c ∈ f.written, IsWritable c := by
  obtain ⟨text, style, hread, hvalue⟩ := readsAs_scalar cs h.held
  refine ⟨⟨name, Write.scalar cs, text, style, hread⟩, rfl, rfl, hvalue, fun c hc => ?_⟩
  obtain ⟨hlaid, rfl | hprintable | hmem⟩ := (Write.form cs).mem hc
  · exact isWritable_lineFeed
  · exact hprintable.isWritable
  · have hcharacters := h.characters
    rw [List.any_eq_false] at hcharacters
    exact hlaid.isWritable (by simpa using hcharacters c hmem)

@[simp] theorem Field.value_ne_table (f : Field) (entries : List (String × Value)) :
    f.entry.value ≠ .table entries := by
  rcases untagged_cases f.text f.style with hv | ⟨-, -, hv⟩
  · simp [Field.entry, hv]
  · exact hv entries

@[simp] theorem Field.text?_value (f : Field) (t : String) :
    f.entry.value.text? = some t ↔ f.entry.value = .text t := by
  have hchar (c : Char) : f.entry.value ≠ .char c := by
    rcases untagged_cases f.text f.style with hv | ⟨-, hv, -⟩
    · simp [Field.entry, hv]
    · exact hv c
  generalize f.entry.value = v at hchar
  cases v with
  | char c => exact absurd rfl (hchar c)
  | _ => simp [Value.text?]

end Yaml

namespace Config

open Yaml (Name Field Section)

namespace Printed

def serverName : Name :=
  ⟨"server".toList, by decide, by decide, List.all_eq_true.1 (by decide), by decide⟩

def listenName : Name :=
  ⟨"listen_addr".toList, by decide, by decide, List.all_eq_true.1 (by decide), by decide⟩

def loggingName : Name :=
  ⟨"logging".toList, by decide, by decide, List.all_eq_true.1 (by decide), by decide⟩

def levelName : Name :=
  ⟨"level".toList, by decide, by decide, List.all_eq_true.1 (by decide), by decide⟩

def formatName : Name :=
  ⟨"format".toList, by decide, by decide, List.all_eq_true.1 (by decide), by decide⟩

def sections (listen level format : Field) : List Section :=
  [⟨serverName, listen, []⟩, ⟨loggingName, level, [format]⟩]

theorem toList_server : "server:\n  listen_addr: ".toList = serverName.chars ++ ':' :: '\n' ::
    (List.replicate 2 ' ' ++ (listenName.chars ++ [':', ' '])) := by
  decide

theorem toList_logging : "logging:\n  level: ".toList = loggingName.chars ++ ':' :: '\n' ::
    (List.replicate 2 ' ' ++ (levelName.chars ++ [':', ' '])) := by
  decide

theorem toList_format :
    "  format: ".toList = List.replicate 2 ' ' ++ (formatName.chars ++ [':', ' ']) := by
  decide

theorem isPrintable_name (f : LogFormat) : ∀ d ∈ f.name.toList, Yaml.IsPrintable d :=
  Yaml.isPrintable_of_all (by cases f <;> decide)

variable {listen level format : Field}

theorem lines_sections (hlisten : listen.name = listenName) (hlevel : level.name = levelName)
    (hformat : format.name = formatName) :
    "server:\n  listen_addr: ".toList ++ listen.written ++ "logging:\n  level: ".toList ++
        level.written ++ "  format: ".toList ++ format.written =
      (sections listen level format).flatMap Section.lines := by
  simp [sections, Section.lines, Section.fields, Yaml.indented, Field.line, toList_server,
    toList_logging, toList_format, hlisten, hlevel, hformat]

theorem table_sections (hlisten : listen.name = listenName) (hlevel : level.name = levelName)
    (hformat : format.name = formatName) :
    Yaml.Entry.table ((sections listen level format).map Section.entry) =
      [("server", .table [("listen_addr", listen.entry.value)]),
        ("logging", .table [("level", level.entry.value), ("format", format.entry.value)])] := by
  have hlistenText : String.ofList listen.entry.name.chars = "listen_addr" :=
    congrArg (String.ofList ·.chars) hlisten
  have hlevelText : String.ofList level.entry.name.chars = "level" :=
    congrArg (String.ofList ·.chars) hlevel
  have hformatText : String.ofList format.entry.name.chars = "format" :=
    congrArg (String.ofList ·.chars) hformat
  have hserverText : String.ofList serverName.chars = "server" := rfl
  have hloggingText : String.ofList loggingName.chars = "logging" := rfl
  simp [sections, Section.entry, Section.fields, Yaml.Entry.table, Yaml.Entry.mapping, setEntry,
    hlistenText, hlevelText, hformatText, hserverText, hloggingText]

end Printed

open Printed

/-- The document is read as the table of two scalars and the format. -/
theorem read_yaml (c : Config) (hlisten : Yaml.Readable c.listenAddr.toList)
    (hlevel : Yaml.Readable c.level.toList) :
    ∃ listen level : Field,
      (listen.entry.value = .text c.listenAddr ↔ Yaml.Write.Kept c.listenAddr.toList) ∧
      (level.entry.value = .text c.level ↔ Yaml.Write.Kept c.level.toList) ∧
      Yaml.read c.yaml = .ok [("server", .table [("listen_addr", listen.entry.value)]),
        ("logging", .table [("level", level.entry.value), ("format", .text c.format.name)])] := by
  have hprintable := isPrintable_name c.format
  have hlast : c.format.name.toList.getLast? ≠ some ' ' := by cases c.format <;> decide
  have hformat := Yaml.readable_of_isPrintable hprintable
  have hkept := Yaml.kept_of_isPrintable hprintable hlast
  obtain ⟨listen, hlistenName, hlistenWritten, hlistenValue, hlistenChars⟩ :=
    Yaml.exists_field listenName hlisten
  obtain ⟨level, hlevelName, hlevelWritten, hlevelValue, hlevelChars⟩ :=
    Yaml.exists_field levelName hlevel
  obtain ⟨format, hformatName, hformatWritten, hformatValue, hformatChars⟩ :=
    Yaml.exists_field formatName hformat
  have hyaml : c.yaml = String.ofList ((sections listen level format).flatMap Section.lines) := by
    have hlines := lines_sections hlistenName hlevelName hformatName
    simp only [hlistenWritten, hlevelWritten, hformatWritten] at hlines
    exact congrArg String.ofList hlines
  have hread := Yaml.read_sections ⟨serverName, listen, []⟩ [⟨loggingName, level, [format]⟩] (by
    simpa [Section.fields] using ⟨hlistenChars, hlevelChars, hformatChars⟩)
  refine ⟨listen, level, ?_, ?_, ?_⟩
  · rwa [String.ofList_toList] at hlistenValue
  · rwa [String.ofList_toList] at hlevelValue
  · rw [hyaml]
    refine hread.trans (congrArg Except.ok ?_)
    rw [String.ofList_toList] at hformatValue
    rw [← hformatValue.2 hkept]
    exact table_sections hlistenName hlevelName hformatName

/-- Loading the document gives the configuration back if both texts are kept, and else it does
not. -/
theorem load_yaml_eq_iff (c : Config) (name : String)
    (hlisten : Yaml.Readable c.listenAddr.toList) (hlevel : Yaml.Readable c.level.toList) :
    load (some ⟨name, some c.yaml.toUTF8⟩) [] = .ok (.ok c) ↔
      Yaml.Write.Kept c.listenAddr.toList ∧ Yaml.Write.Kept c.level.toList := by
  obtain ⟨listen, level, hlistenKept, hlevelKept, hread⟩ := read_yaml c hlisten hlevel
  have hfile : fileSource (some ⟨name, some c.yaml.toUTF8⟩) =
      .ok [.ofTable name [("server", .table [("listen_addr", listen.entry.value)]),
        ("logging", .table [("level", level.entry.value), ("format", .text c.format.name)])]] := by
    simp only [fileSource, fileSettings, Yaml.readFile_toUTF8, hread]
    rfl
  have hassigned : Environment.assignments [] = .ok [] := rfl
  obtain ⟨format', level', listen', hformatWins, hlevelWins, hlistenWins, hload⟩ :=
    load_winners hfile hassigned (by
      simp [Sourced.Fits, Sourced.paths, Sourced.ofTable, Value.Fits])
  obtain rfl : ⟨.file name, .text c.format.name⟩ = format' := Option.some.inj hformatWins
  obtain rfl : ⟨.file name, level.entry.value⟩ = level' := Option.some.inj hlevelWins
  obtain rfl : ⟨.file name, listen.entry.value⟩ = listen' := Option.some.inj hlistenWins
  rw [← hlistenKept, ← hlevelKept, ← Yaml.Field.text?_value, ← Yaml.Field.text?_value, hload]
  simp only [Setting.toFormat_name, Setting.toText_value]
  obtain ⟨listenAddr, levelText, format⟩ := c
  cases level.entry.value.text? with
  | none => simp [Except.mapError, bind, Except.bind]
  | some l =>
    cases listen.entry.value.text? with
    | none => simp [Except.mapError, bind, Except.bind]
    | some a => simp [Except.mapError, bind, Except.bind, pure, Except.pure]

/-- Texts of printable characters are loaded back whatever they are, be it a number, a word with a
meaning, indicators or quotes, unless they end with a space. -/
theorem load_yaml_printable (c : Config) (name : String)
    (hprintable : ∀ t ∈ [c.listenAddr, c.level], ∀ d ∈ t.toList, Yaml.IsPrintable d)
    (hlast : ∀ t ∈ [c.listenAddr, c.level], t.toList.getLast? ≠ some ' ') :
    load (some ⟨name, some c.yaml.toUTF8⟩) [] = .ok (.ok c) := by
  simp only [List.forall_mem_cons] at hprintable hlast
  obtain ⟨hlisten, hlevel, -⟩ := hprintable
  obtain ⟨hlistenLast, hlevelLast, -⟩ := hlast
  exact (load_yaml_eq_iff c name (Yaml.readable_of_isPrintable hlisten)
    (Yaml.readable_of_isPrintable hlevel)).2
      ⟨Yaml.kept_of_isPrintable hlisten hlistenLast, Yaml.kept_of_isPrintable hlevel hlevelLast⟩

/-- Indicators and quotes with a number between them, and a long list of keywords. -/
theorem load_yaml_printable_indicators :
    load (some ⟨"a.yaml", some (yaml ⟨"- 0x1F: [null, 'no'] # \\\"",
        String.intercalate " " (List.replicate 21 "true"), .json⟩).toUTF8⟩) [] =
      .ok (.ok ⟨"- 0x1F: [null, 'no'] # \\\"",
        String.intercalate " " (List.replicate 21 "true"), .json⟩) := by
  refine load_yaml_printable _ "a.yaml" ?_ (by decide)
  simp only [List.forall_mem_cons]
  exact ⟨Yaml.isPrintable_of_all (by decide), Yaml.isPrintable_of_all (by decide),
    List.forall_mem_nil _⟩

/-- What is loaded from a document that cannot be read is no configuration. -/
theorem exists_read_of_load {c : Config} {name text : String}
    (h : load (some ⟨name, some text.toUTF8⟩) [] = .ok (.ok c)) :
    ∃ table, Yaml.read text = .ok table := by
  cases hread : Yaml.read text with
  | ok table => exact ⟨table, rfl⟩
  | error e =>
    have hfile : fileLayers (some ⟨name, some text.toUTF8⟩) = .error (.unreadable name e) := by
      simp only [fileLayers, fileSettings, Yaml.readFile_toUTF8, hread]
      rfl
    have hload : load (some ⟨name, some text.toUTF8⟩) [] = .ok (.error (.unreadable name e)) := by
      simp only [load, hfile]
      rfl
    rw [hload] at h
    exact absurd (Except.ok.inj h) (by simp)

/-- The document cannot be read if a text holds one of the two last places of the basic plane. -/
theorem characters_of_load {c c' : Config} {name : String}
    (h : load (some ⟨name, some c.yaml.toUTF8⟩) [] = .ok (.ok c')) :
    ∀ t ∈ [c.listenAddr, c.level], t.toList.any Yaml.Write.isNoncharacter = false := by
  obtain ⟨table, hread⟩ := exists_read_of_load h
  have hforbidden := (Yaml.firstForbidden?_eq_none_iff 0).1 (Yaml.read_eq_ok_iff.1 hread).1
  intro t ht
  rw [Bool.eq_false_iff]
  intro hany
  obtain ⟨d, hd, hlast⟩ := List.any_eq_true.1 hany
  have hwritten : d ∈ Yaml.Write.scalar t.toList :=
    (Yaml.Write.form t.toList).mem_of_isNoncharacter hd hlast
  have hmem : d ∈ c.yaml.toList := by
    refine String.toList_ofList.symm ▸ List.mem_append_left _ (List.mem_append_left _ ?_)
    simp only [List.mem_cons, List.not_mem_nil, or_false] at ht
    rcases ht with rfl | rfl
    · exact List.mem_append_left _ (List.mem_append_left _ (List.mem_append_right _ hwritten))
    · exact List.mem_append_right _ hwritten
  have hd := hforbidden d hmem
  simp only [Yaml.Write.isNoncharacter, Bool.or_eq_true, beq_iff_eq] at hlast
  rcases hlast with rfl | rfl <;> exact absurd hd (by decide)

namespace Printed

def serverOpening : Yaml.Opening := ⟨serverName, listenName, by decide +kernel, by decide +kernel⟩

def loggingOpening : Yaml.Opening := ⟨loggingName, levelName, by decide +kernel, by decide +kernel⟩

/-- The line of the format, without its indentation. -/
def formatLine (f : LogFormat) : List Char :=
  formatName.chars ++ ':' :: ' ' :: Yaml.Write.scalar f.name.toList

theorem scalar_name (f : LogFormat) :
    Yaml.Write.scalar f.name.toList = f.name.toList ++ ['\n'] := by
  have hlone : Yaml.Write.isLoneMark f.name.toList = false := by cases f <;> decide
  have hplain : Yaml.Write.isPlain f.name.toList := by cases f <;> decide
  have hshort : ¬Yaml.Write.foldLength < (String.ofList f.name.toList).utf8ByteSize := by
    cases f <;> decide
  have hfeed : f.name.toList.contains '\n' = false := by cases f <;> decide
  simp only [Yaml.Write.scalar, hlone, hplain, hshort, hfeed, Bool.not_true, Bool.false_eq_true,
    if_false]

theorem weight_formatLine (f : LogFormat) : Yaml.total Yaml.charWeight (formatLine f) = 0 := by
  rw [formatLine, scalar_name]
  cases f <;> decide +kernel

theorem separator_formatLine (f : LogFormat) :
    ∀ d ∈ formatLine f, Yaml.isSeparator d = false := by
  intro d hd
  rw [formatLine, scalar_name] at hd
  simp only [List.mem_append, List.mem_cons, List.not_mem_nil, or_false] at hd
  rcases hd with hd | rfl | rfl | hd | rfl
  · exact (formatName.isInline hd).separator
  · rfl
  · rfl
  · exact (isPrintable_name f d hd).isInline.separator
  · rfl

theorem toList_yaml (c : Config) : c.yaml.toList =
    serverOpening.lines c.listenAddr.toList
      (loggingOpening.lines c.level.toList (List.replicate 2 ' ' ++ formatLine c.format)) := by
  refine String.toList_ofList.trans ?_
  simp only [toList_server, toList_logging, toList_format, Yaml.Opening.lines, Yaml.Name.heading,
    formatLine, List.append_assoc, List.cons_append, List.nil_append]
  rfl

end Printed

/-- What is loaded of a document has no texts but those of scalars among its tokens, and the
defaults, which weigh nothing. -/
theorem texts_of_load {c : Config} {name text : String}
    (h : load (some ⟨name, some text.toUTF8⟩) [] = .ok (.ok c)) :
    c.Texts fun t => t.toList ∈ Yaml.texts (Yaml.tokens (.ofText text.toList)).1 ∨
      Yaml.total Yaml.charWeight t.toList = 0 := by
  obtain ⟨table, hread⟩ := exists_read_of_load h
  have hfile : fileSource (some ⟨name, some text.toUTF8⟩) = .ok [.ofTable name table] := by
    simp only [fileSource, fileSettings, Yaml.readFile_toUTF8, hread]
    rfl
  have hempty : Yaml.total Yaml.charWeight "".toList = 0 := by simp
  have hsource {t : String} (h : ∃ s ∈ [Sourced.builtin, .ofTable name table], s.value.Has t) :
      t.toList ∈ Yaml.texts (Yaml.tokens (.ofText text.toList)).1 ∨
        Yaml.total Yaml.charWeight t.toList = 0 := by
    obtain ⟨s, hs, ht⟩ := h
    simp only [List.mem_cons, List.not_mem_nil, or_false] at hs
    rcases hs with rfl | rfl
    · refine .inr ?_
      rcases has_settings.1 ht with (rfl | rfl) | rfl <;> decide +kernel
    · refine Yaml.forall_has_of_read (P := fun t => t.toList ∈ Yaml.texts _ ∨
        Yaml.total Yaml.charWeight t.toList = 0) (.inr hempty) hread (fun x hx => ?_) t ht
      rw [String.toList_ofList]
      exact .inl hx
  have htexts := exists_source_of_load hfile rfl h
  exact ⟨hsource htexts.listenAddr, hsource htexts.level⟩

/-- The separators of lines in a text are held, or they stand between quotes, if the document is
loaded back. -/
theorem held_of_load {c : Config} {name : String}
    (h : load (some ⟨name, some c.yaml.toUTF8⟩) [] = .ok (.ok c)) :
    ∀ t ∈ [c.listenAddr, c.level], Yaml.Write.isBare t.toList → Yaml.Write.Held t.toList := by
  have hall : ¬(Yaml.Write.Unheld c.listenAddr.toList ∨ Yaml.Write.Unheld c.level.toList) := by
    intro hunheld
    obtain ⟨x, hx, hweight, hmissing⟩ := Yaml.exists_missing serverOpening loggingOpening
      (formatName.goesOn_append _) (weight_formatLine c.format) (separator_formatLine c.format)
      hunheld
    have htexts := texts_of_load h
    rw [toList_yaml] at htexts
    simp only [List.mem_cons, List.not_mem_nil, or_false] at hx
    rcases hx with rfl | rfl
    · exact htexts.listenAddr.elim hmissing (by omega)
    · exact htexts.level.elim hmissing (by omega)
  simp only [not_or] at hall
  simp only [List.forall_mem_cons]
  exact ⟨Yaml.Write.held_of_not_unheld hall.1, Yaml.Write.held_of_not_unheld hall.2,
    List.forall_mem_nil _⟩

/-- Loading the document gives the configuration back exactly if both texts are kept and hold no
character that no document may contain. -/
theorem load_yaml_iff (c : Config) (name : String) :
    load (some ⟨name, some c.yaml.toUTF8⟩) [] = .ok (.ok c) ↔
      ∀ t ∈ [c.listenAddr, c.level], Yaml.Write.Kept t.toList ∧
        t.toList.any Yaml.Write.isNoncharacter = false := by
  constructor
  · intro hload
    have hheld := held_of_load hload
    have hcharacters := characters_of_load hload
    simp only [List.forall_mem_cons] at hheld hcharacters ⊢
    obtain ⟨hlistenHeld, hlevelHeld, -⟩ := hheld
    obtain ⟨hlistenChars, hlevelChars, -⟩ := hcharacters
    obtain ⟨hlistenKept, hlevelKept⟩ := (load_yaml_eq_iff c name ⟨hlistenHeld, hlistenChars⟩
      ⟨hlevelHeld, hlevelChars⟩).1 hload
    exact ⟨⟨hlistenKept, hlistenChars⟩, ⟨hlevelKept, hlevelChars⟩, List.forall_mem_nil _⟩
  · intro h
    simp only [List.forall_mem_cons] at h
    obtain ⟨⟨hlisten, hlistenChars⟩, ⟨hlevel, hlevelChars⟩, -⟩ := h
    exact (load_yaml_eq_iff c name ⟨hlisten.held, hlistenChars⟩ ⟨hlevel.held, hlevelChars⟩).2
      ⟨hlisten, hlevel⟩

/-- A space at the end of a short text is not quoted, and it is not read back. -/
theorem load_yaml_trailing_space :
    load (some ⟨"a.yaml", some (yaml { level := "warn " }).toUTF8⟩) [] ≠
      .ok (.ok { level := "warn " }) := by
  intro hload
  have hplain : Yaml.Write.isPlain "warn ".toList := by decide
  have hshort : (String.ofList "warn ".toList).utf8ByteSize ≤ Yaml.Write.foldLength := by decide
  have hlisten : ∀ d ∈ "127.0.0.1:50051".toList, Yaml.IsPrintable d :=
    Yaml.isPrintable_of_all (by decide)
  have hlevel : ∀ d ∈ "warn ".toList, Yaml.IsPrintable d := Yaml.isPrintable_of_all (by decide)
  have hkept := (load_yaml_eq_iff _ "a.yaml" (Yaml.readable_of_isPrintable hlisten)
    (Yaml.readable_of_isPrintable hlevel)).1 hload
  exact hkept.2.short hplain hshort (by decide)

end Config

end Planimeter
