import Mathlib
import Planimeter.Proofs.Config.Tables
/-!
# Which settings are in force

Loading lays the sources over each other and reads three settings. For each of them the last source
that holds anything at its path wins, and the configuration is made of the three winners alone: what
they hide, and what lies beside the three paths, has no influence. If a winner has not its type,
loading fails at the first such, and the error names the source of the winner.
-/
namespace Planimeter

/-- A value and the source that it comes from. -/
structure Sourced where
  origin : Origin
  value : Value

namespace Sourced

def setting (s : Sourced) : Setting := .ofValue s.origin s.value

/-- The defaults. -/
def builtin : Sourced := ⟨.builtin, .table ({} : Config).settings⟩

/-- The table of a file. -/
def ofTable (name : String) (entries : List (String × Value)) : Sourced :=
  ⟨.file name, .table entries⟩

/-- A variable that sets the value that a path leads to. -/
def ofAssignment (a : List String × Value) : Sourced := ⟨.environment, a.2.under a.1⟩

/-- What the last of some sources that holds anything at a path holds there. -/
def winner? (path : List String) (sources : List Sourced) : Option Sourced :=
  sources.reverse.findSome? fun s => (s.value.at? path).map (Sourced.mk s.origin)

end Sourced

/-- The table of a file, if there is one. -/
def Config.fileSource : Option ConfigFile → Except LoadError (List Sourced)
  | none => .ok []
  | some file => (fileSettings file).map fun entries => [.ofTable file.name entries]

/-- The variables for the service in their order: the path that the name of each leads to, and the
value of its text. -/
def Environment.assignments : List (String × String) → Except Fault (List (List String × Value))
  | [] => .ok []
  | (name, text) :: rest =>
    match path? name with
    | none => assignments rest
    | some path => do
      let v ← valueOf text
      return (path, v) :: (← assignments rest)

theorem Environment.settings_eq (environment : List (String × String)) :
    settings environment = (assignments environment).map fun assignments =>
      (assignments.map fun a => (Sourced.ofAssignment a).setting).foldl Setting.overlay
        (.table .environment []) := by
  rw [settings]
  generalize Setting.table .environment [] = below
  induction environment generalizing below with
  | nil => rfl
  | cons e rest ih =>
    obtain ⟨name, text⟩ := e
    rw [List.foldlM_cons, assignments]
    cases hpath : path? name with
    | none =>
      simp only [hpath, pure_bind]
      exact ih below
    | some path =>
      cases hv : valueOf text with
      | error fault =>
        simp only [hpath, hv]
        rfl
      | ok v =>
        simp only [hpath, hv]
        change List.foldlM _ (below.overlay (Setting.atPath .environment v path)) rest = _
        rw [ih, Setting.atPath_eq_ofValue]
        cases assignments rest <;> rfl

/-- The text that a value is, or the character as a text. -/
def Value.text? : Value → Option String
  | text t => some t
  | char c => some c.toString
  | _ => none

/-- What is wrong with a value that names no format. -/
def Sourced.formatProblem (s : Sourced) : SettingProblem :=
  match s.value with
  | .text name => .unknownFormat name
  | v => .wrongType (.value s.origin v) .format

namespace Setting

@[simp] theorem toText_value (path : List String) (o : Origin) (v : Value) :
    toText path (value o v) =
    match v.text? with
    | some t => .ok t
    | none => .error ⟨.wrongType (value o v) .text, o, path⟩ := by
  cases v <;> rfl

@[simp] theorem ofName?_name (f : LogFormat) : LogFormat.ofName? f.name = some f := by
  cases f <;> decide

theorem name_of_ofName? {name : String} {f : LogFormat} (h : LogFormat.ofName? name = some f) :
    name = f.name := by
  simpa [eq_comm] using List.find?_some h

@[simp] theorem toFormat_name (path : List String) (o : Origin) (f : LogFormat) :
    toFormat path (value o (.text f.name)) = .ok f := by
  simp [toFormat, formatOfName]

theorem toFormat_other (path : List String) {s : Sourced}
    (h : ∀ f : LogFormat, s.value ≠ .text f.name) :
    toFormat path (value s.origin s.value) = .error ⟨s.formatProblem, s.origin, path⟩ := by
  obtain ⟨o, v⟩ := s
  cases v with
  | text name =>
    have hname : LogFormat.ofName? name = none := by
      cases hf : LogFormat.ofName? name with
      | none => rfl
      | some f => exact absurd (congrArg Value.text (name_of_ofName? hf)) (h f)
    rw [toFormat, formatOfName, hname]
    rfl
  | _ => rfl

end Setting

namespace Setting

theorem at?_two {entries : List (String × Setting)} {o : Origin} {first second : String}
    {s : Setting} (h : (table o entries).at? [first, second] = some s) :
    ∃ o' fields, entries.lookup first = some (table o' fields) ∧ fields.lookup second = some s := by
  obtain ⟨t, ht, hs⟩ := Option.bind_eq_some_iff.1 h
  cases t with
  | value o' v => contradiction
  | table o' fields =>
    obtain ⟨s', hs', heq⟩ := Option.bind_eq_some_iff.1 hs
    obtain rfl := Option.some.inj heq
    exact ⟨o', fields, ht, hs'⟩

end Setting

namespace Config

variable {entries fields : List (String × Setting)} {o : Origin} {c : Config}

theorem readSection_table {name : String} {wanted : Wanted}
    {read : Setting.Section → Config → Except SettingError Config}
    (h : entries.lookup name = some (.table o fields)) :
    readSection name wanted read entries c = read (.table fields) c := by
  rw [readSection, h]
  rfl

theorem readLogging_table {format level : Setting} (hformat : fields.lookup "format" = some format)
    (hlevel : fields.lookup "level" = some level) :
    readLogging (.table fields) c = do
      let format ← format.toFormat ["logging", "format"]
      let level ← level.toText ["logging", "level"]
      return { c with format, level } := by
  simp only [readLogging, Setting.Section.field, hformat, hlevel, Option.map_some,
    Setting.readField]
  rfl

theorem readServer_table {listen : Setting} (hlisten : fields.lookup "listen_addr" = some listen) :
    readServer (.table fields) c = do
      let listenAddr ← listen.toText ["server", "listen_addr"]
      return { c with listenAddr } := by
  simp only [readServer, Setting.Section.field, hlisten, Option.map_some, Setting.readField]
  rfl

/-- With a setting at each of the three paths the rest does not count. -/
theorem ofEntries_eq {format level listen : Setting}
    (hformat : (Setting.table o entries).at? ["logging", "format"] = some format)
    (hlevel : (Setting.table o entries).at? ["logging", "level"] = some level)
    (hlisten : (Setting.table o entries).at? ["server", "listen_addr"] = some listen) :
    ofEntries entries = do
      let format ← format.toFormat ["logging", "format"]
      let level ← level.toText ["logging", "level"]
      let listenAddr ← listen.toText ["server", "listen_addr"]
      return { listenAddr, level, format } := by
  obtain ⟨o₁, logging, hlogging, hformat⟩ := Setting.at?_two hformat
  obtain ⟨o₂, logging', hlogging', hlevel⟩ := Setting.at?_two hlevel
  obtain ⟨o₃, server, hserver, hlisten⟩ := Setting.at?_two hlisten
  obtain ⟨rfl, rfl⟩ := Setting.table.inj (Option.some.inj (hlogging.symm.trans hlogging'))
  simp only [ofEntries, readSection_table hlogging, readSection_table hserver,
    readLogging_table hformat hlevel, readServer_table hlisten]
  cases format.toFormat ["logging", "format"] with
  | error e => rfl
  | ok f => cases level.toText ["logging", "level"] <;> rfl

end Config

namespace Value

/-- A path that leads anywhere in a value that it fits leads to no table. -/
theorem Fits.ne_table {path : List String} {v u : Value} (h : v.Fits path)
    (hat : v.at? path = some u) (entries : List (String × Value)) : u ≠ .table entries := by
  induction path generalizing v with
  | nil =>
    obtain rfl := Option.some.inj hat
    exact h entries
  | cons name path ih =>
    cases v with
    | table es =>
      obtain ⟨t, ht, hu⟩ := Option.bind_eq_some_iff.1 hat
      exact ih (h t ht) hu
    | _ => exact h.elim

end Value

namespace Sourced

/-- The paths of the three settings. -/
def paths : List (List String) :=
  [["logging", "format"], ["logging", "level"], ["server", "listen_addr"]]

/-- The source has tables where the paths lead through and none where they end. -/
def Fits (s : Sourced) : Prop := ∀ path ∈ paths, s.value.Fits path

variable {sources : List Sourced} {path : List String}

@[simp] theorem winner?_append (lower upper : List Sourced) :
    winner? path (lower ++ upper) = (winner? path upper).or (winner? path lower) := by
  rw [winner?, List.reverse_append, List.findSome?_append]
  rfl

theorem winner?_cons (lowest : Sourced) (upper : List Sourced) :
    winner? path (lowest :: upper) = (winner? path upper).or (winner? path [lowest]) :=
  winner?_append [lowest] upper

theorem at?_map_setting (sources : List Sourced) (path : List String) :
    (sources.map setting).reverse.findSome? (Setting.at? path) =
      (winner? path sources).map setting := by
  rw [← List.map_reverse, List.findSome?_map, winner?, List.map_findSome?]
  refine congrArg (List.findSome? · sources.reverse) (funext fun s => ?_)
  simp [setting, Function.comp_def]

theorem mem_of_winner? {w : Sourced} (h : winner? path sources = some w) :
    ∃ s ∈ sources, s.value.at? path = some w.value := by
  obtain ⟨s, hs, hw⟩ := List.exists_of_findSome?_eq_some h
  obtain ⟨v, hv, rfl⟩ := Option.map_eq_some_iff.1 hw
  exact ⟨s, List.mem_reverse.1 hs, hv⟩

/-- The defaults hold a value at each of the paths. -/
theorem builtin_at? (hpath : path ∈ paths) :
    ∃ t, builtin.value.at? path = some (.text t) := by
  simp only [paths, List.mem_cons, List.not_mem_nil, or_false] at hpath
  rcases hpath with rfl | rfl | rfl <;> exact ⟨_, rfl⟩

theorem builtin_fits : builtin.Fits := by
  intro path hpath
  simp only [paths, List.mem_cons, List.not_mem_nil, or_false] at hpath
  rcases hpath with rfl | rfl | rfl <;>
    simp [builtin, Config.settings, Value.Fits]

/-- With the defaults below them some source wins, with a value that is no table. -/
theorem exists_winner (hsources : ∀ s ∈ sources, s.Fits) (hpath : path ∈ paths) :
    ∃ w, winner? path (builtin :: sources) = some w ∧ w.setting = .value w.origin w.value := by
  obtain ⟨t, ht⟩ := builtin_at? hpath
  have hsome : (winner? path (builtin :: sources)).isSome := by
    rw [winner?_cons]
    simp [winner?, ht]
  obtain ⟨w, hw⟩ := Option.isSome_iff_exists.1 hsome
  obtain ⟨s, hs, hat⟩ := mem_of_winner? hw
  have hfits : s.Fits := (List.forall_mem_cons.2 ⟨builtin_fits, hsources⟩) s hs
  exact ⟨w, hw, Setting.ofValue_of_ne_table ((hfits path hpath).ne_table hat) w.origin⟩

end Sourced

namespace Config

open Sourced (winner? paths)

variable {file : Option ConfigFile} {environment : List (String × String)} {below : List Sourced}
  {assigned : List (List String × Value)}

/-- A file is read if it is there and holds a table. -/
theorem fileSettings_eq_ok {file : ConfigFile} {entries : List (String × Value)}
    (h : fileSettings file = .ok entries) :
    ∃ bytes, file.content = some bytes ∧ Yaml.readFile bytes = .ok entries := by
  unfold fileSettings at h
  cases hcontent : file.content with
  | none => simp [hcontent] at h
  | some bytes =>
    simp only [hcontent] at h
    cases hread : Yaml.readFile bytes with
    | error e => simp [hread, Except.mapError] at h
    | ok entries' =>
      rw [hread] at h
      exact ⟨bytes, rfl, hread.trans (congrArg Except.ok (Except.ok.inj h))⟩

theorem fileSource_eq_ok (h : fileSource file = .ok below) :
    file = none ∧ below = [] ∨
      ∃ f entries, file = some f ∧ fileSettings f = .ok entries ∧
        below = [.ofTable f.name entries] := by
  cases file with
  | none => exact .inl ⟨rfl, (Except.ok.inj h).symm⟩
  | some f =>
    cases hentries : fileSettings f with
    | error e => simp [fileSource, hentries, Except.map] at h
    | ok entries =>
      rw [fileSource, hentries] at h
      exact .inr ⟨f, entries, rfl, hentries, (Except.ok.inj h).symm⟩

theorem distinct_fileSource (h : fileSource file = .ok below) : ∀ s ∈ below, s.value.Distinct := by
  rcases fileSource_eq_ok h with ⟨-, rfl⟩ | ⟨f, entries, -, hentries, rfl⟩
  · simp
  · obtain ⟨bytes, -, hread⟩ := fileSettings_eq_ok hentries
    simpa [Sourced.ofTable] using Yaml.distinct_readFile hread

theorem distinct_assignments (h : Environment.assignments environment = .ok assigned) :
    ∀ a ∈ assigned, a.2.Distinct := by
  induction environment generalizing assigned with
  | nil =>
    obtain rfl := Except.ok.inj h
    simp
  | cons e rest ih =>
    rw [Environment.assignments] at h
    split at h
    · exact ih h
    · next path _ =>
      cases hv : Environment.valueOf e.2 with
      | error fault => simp [hv, bind, Except.bind] at h
      | ok v =>
        cases hrest : Environment.assignments rest with
        | error fault => simp [hv, hrest, bind, Except.bind] at h
        | ok assigned' =>
          rw [hv, hrest] at h
          obtain rfl := Except.ok.inj h
          exact List.forall_mem_cons.2 ⟨Environment.distinct_valueOf hv, ih hrest⟩

theorem fileLayers_eq (h : fileSource file = .ok below) :
    fileLayers file =
      .ok ((below.map Sourced.setting).foldl Setting.overlay Sourced.builtin.setting) := by
  rcases fileSource_eq_ok h with ⟨rfl, rfl⟩ | ⟨f, entries, rfl, hentries, rfl⟩
  · rfl
  · simp only [fileLayers, hentries]
    rfl

/-- The settings that loading reads: those of the environment over the others. -/
def pile (below : List Sourced) (assigned : List (List String × Value)) : Setting :=
  ((below.map Sourced.setting).foldl Setting.overlay Sourced.builtin.setting).overlay
    ((assigned.map fun a => (Sourced.ofAssignment a).setting).foldl Setting.overlay
      (.table .environment []))

theorem load_eq (hfile : fileSource file = .ok below)
    (hassigned : Environment.assignments environment = .ok assigned) :
    load file environment = .ok (match pile below assigned with
      | .table _ entries => (ofEntries entries).mapError .badSetting
      | .value _ _ => .ok {}) := by
  simp only [load, fileLayers_eq hfile, Environment.settings_eq, hassigned]
  rfl

theorem load_eq_error_iff (hfile : fileSource file = .ok below) (fault : Fault) :
    load file environment = .error fault ↔
      Environment.assignments environment = .error fault := by
  cases hassigned : Environment.assignments environment with
  | error fault' =>
    have hload : load file environment = .error fault' := by
      simp only [load, fileLayers_eq hfile, Environment.settings_eq, hassigned]
      rfl
    simp [hload]
  | ok assigned => simp [load_eq hfile hassigned]

/-- The pile holds at each path what the winner does. -/
theorem at?_pile (hbelow : ∀ s ∈ below, s.Fits ∧ s.value.Distinct)
    (hassigned : ∀ a ∈ assigned, (Sourced.ofAssignment a).Fits ∧ a.2.Distinct)
    {path : List String} (hpath : path ∈ paths) :
    (pile below assigned).at? path =
      (winner? path (.builtin :: below ++ assigned.map .ofAssignment)).map Sourced.setting := by
  have hempty : (Setting.table .environment []).Fits path ∧
      (Setting.table .environment []).at? path = none := by
    simp only [paths, List.mem_cons, List.not_mem_nil, or_false] at hpath
    rcases hpath with rfl | rfl | rfl <;> simp [Setting.Fits, Setting.at?]
  have hlayers : ∀ s ∈ below.map Sourced.setting, s.Fits path ∧ s.Distinct := by
    simp only [List.forall_mem_map]
    exact fun s hs => ⟨.ofValue ((hbelow s hs).1 path hpath) _, .ofValue (hbelow s hs).2 _⟩
  have hvariables : ∀ s ∈ assigned.map fun a => (Sourced.ofAssignment a).setting,
      s.Fits path ∧ s.Distinct := by
    simp only [List.forall_mem_map]
    exact fun a ha => ⟨.ofValue ((hassigned a ha).1 path hpath) _,
      .ofValue (Value.distinct_under (hassigned a ha).2 a.1) _⟩
  have hdefaults : Sourced.builtin.setting.Fits path :=
    .ofValue (Sourced.builtin_fits path hpath) .builtin
  obtain ⟨hlower, hlowerFits⟩ := Setting.at?_foldl_overlay hdefaults _ hlayers
  obtain ⟨hupper, hupperFits⟩ := Setting.at?_foldl_overlay hempty.1 _ hvariables
  have hupperDistinct := Setting.Distinct.foldl_overlay (.table .environment [] (by simp) (by simp))
    _ fun s hs => (hvariables s hs).2
  have hbuiltin : Sourced.builtin.setting.at? path =
      (winner? path [.builtin]).map Sourced.setting := by
    rw [← Sourced.at?_map_setting]
    simp
  rw [pile, (Setting.at?_overlay hlowerFits hupperFits hupperDistinct).1, hupper, hlower,
    hempty.2, Option.or_none]
  rw [show (assigned.map fun a => (Sourced.ofAssignment a).setting) =
    (assigned.map Sourced.ofAssignment).map Sourced.setting by simp, Sourced.at?_map_setting,
    Sourced.at?_map_setting, hbuiltin, Sourced.winner?_append, Sourced.winner?_cons .builtin below,
    Option.map_or, Option.map_or]

/-- What loading comes to if three values win: the configuration that they make up, with what a
command line changes in it, or the error of the first that has not its type. -/
structure Settles (loaded : Except Fault (Except LoadError Config)) (o : Overrides)
    (format level listen : Sourced) : Prop where
  config : ∀ f l a, format.value = .text (LogFormat.name f) → level.value.text? = some l →
    listen.value.text? = some a →
      ∃ c, loaded = .ok (.ok c) ∧ c.override o =
        { listenAddr := o.listen.getD a
          level := match o.verbose with
            | 0 => l
            | 1 => "info"
            | 2 => "debug"
            | _ => "trace"
          format := f }
  badFormat : (∀ f : LogFormat, format.value ≠ .text f.name) →
    loaded = .ok (.error (.badSetting
      ⟨format.formatProblem, format.origin, ["logging", "format"]⟩))
  badLevel : (∃ f : LogFormat, format.value = .text f.name) → level.value.text? = none →
    loaded = .ok (.error (.badSetting
      ⟨.wrongType (.value level.origin level.value) .text, level.origin, ["logging", "level"]⟩))
  badListen : (∃ f : LogFormat, format.value = .text f.name) → level.value.text?.isSome →
    listen.value.text? = none →
      loaded = .ok (.error (.badSetting ⟨.wrongType (.value listen.origin listen.value) .text,
        listen.origin, ["server", "listen_addr"]⟩))

/-- Loading reads the three winners, in this order. -/
theorem load_winners (hfile : fileSource file = .ok below)
    (hassigned : Environment.assignments environment = .ok assigned)
    (hfits : ∀ s ∈ below ++ assigned.map .ofAssignment, s.Fits) :
    ∃ format level listen : Sourced,
      winner? ["logging", "format"] (.builtin :: below ++ assigned.map .ofAssignment) =
        some format ∧
      winner? ["logging", "level"] (.builtin :: below ++ assigned.map .ofAssignment) =
        some level ∧
      winner? ["server", "listen_addr"] (.builtin :: below ++ assigned.map .ofAssignment) =
        some listen ∧
      load file environment = .ok (Except.mapError .badSetting do
        let format ← (Setting.value format.origin format.value).toFormat ["logging", "format"]
        let level ← (Setting.value level.origin level.value).toText ["logging", "level"]
        let listenAddr ← (Setting.value listen.origin listen.value).toText ["server", "listen_addr"]
        return { listenAddr, level, format }) := by
  have hbelow : ∀ s ∈ below, s.Fits ∧ s.value.Distinct := fun s hs =>
    ⟨hfits s (List.mem_append_left _ hs), distinct_fileSource hfile s hs⟩
  have hvariables : ∀ a ∈ assigned, (Sourced.ofAssignment a).Fits ∧ a.2.Distinct := fun a ha =>
    ⟨hfits _ (List.mem_append_right _ (List.mem_map_of_mem ha)),
      distinct_assignments hassigned a ha⟩
  have hwinner (path : List String) (hpath : path ∈ paths) :
      ∃ w, winner? path (.builtin :: below ++ assigned.map .ofAssignment) = some w ∧
        (pile below assigned).at? path = some (.value w.origin w.value) := by
    obtain ⟨w, hw, hsetting⟩ := Sourced.exists_winner hfits hpath
    rw [← List.cons_append] at hw
    exact ⟨w, hw, by rw [at?_pile hbelow hvariables hpath, hw, Option.map_some, hsetting]⟩
  obtain ⟨format, hformat, hformatAt⟩ := hwinner ["logging", "format"] (by decide)
  obtain ⟨level, hlevel, hlevelAt⟩ := hwinner ["logging", "level"] (by decide)
  obtain ⟨listen, hlisten, hlistenAt⟩ := hwinner ["server", "listen_addr"] (by decide)
  refine ⟨format, level, listen, hformat, hlevel, hlisten, ?_⟩
  have hload := load_eq hfile hassigned
  cases hpile : pile below assigned with
  | value origin v => simp [hpile, Setting.at?] at hformatAt
  | table origin entries =>
    rw [hpile] at hformatAt hlevelAt hlistenAt hload
    simpa only [ofEntries_eq hformatAt hlevelAt hlistenAt] using hload

/-- Loading depends on the winners alone, as long as no source has a value where a path leads
through or a table where one ends. There is a fault exactly if the value of a variable for the
service has one. -/
theorem load_settles (hfile : fileSource file = .ok below) (o : Overrides) :
    (∀ fault, load file environment = .error fault ↔
      Environment.assignments environment = .error fault) ∧
    ∀ assigned, Environment.assignments environment = .ok assigned →
      (∀ s ∈ below ++ assigned.map .ofAssignment, s.Fits) →
        ∃ format level listen,
          winner? ["logging", "format"] (.builtin :: below ++ assigned.map .ofAssignment) =
            some format ∧
          winner? ["logging", "level"] (.builtin :: below ++ assigned.map .ofAssignment) =
            some level ∧
          winner? ["server", "listen_addr"] (.builtin :: below ++ assigned.map .ofAssignment) =
            some listen ∧
          Settles (load file environment) o format level listen := by
  refine ⟨load_eq_error_iff hfile, fun assigned hassigned hfits => ?_⟩
  obtain ⟨format, level, listen, hformat, hlevel, hlisten, hload⟩ :=
    load_winners hfile hassigned hfits
  simp only [Setting.toText_value] at hload
  refine ⟨format, level, listen, hformat, hlevel, hlisten, ?_⟩
  refine ⟨fun f l a hf hl ha => ?_, fun hf => ?_, fun ⟨f, hf⟩ hl => ?_, fun ⟨f, hf⟩ hl ha => ?_⟩
  · rw [hf, Setting.toFormat_name, hl, ha] at hload
    refine ⟨_, hload, ?_⟩
    obtain ⟨given, verbose⟩ := o
    match verbose with
    | 0 | 1 | 2 | _ + 3 => rfl
  · rw [Setting.toFormat_other _ hf] at hload
    exact hload
  · rw [hf, Setting.toFormat_name, hl] at hload
    exact hload
  · obtain ⟨l, hl⟩ := Option.isSome_iff_exists.1 hl
    rw [hf, Setting.toFormat_name, hl, ha] at hload
    exact hload

/-- Of two levels the last one counts, the first of which has not the right type, and a format in
the file is hidden as well; the address is the first winner that has not its type. -/
theorem load_settles_listen :
    load (some ⟨"a.yaml", some "logging: {format: 7}\n".toUTF8⟩)
        [("AREA_CALCULATOR__LOGGING__LEVEL", "5"), ("AREA_CALCULATOR__LOGGING__FORMAT", "json"),
          ("AREA_CALCULATOR__LOGGING__LEVEL", "warn"),
          ("AREA_CALCULATOR__SERVER__LISTEN_ADDR", "8")] =
      .ok (.error (.badSetting ⟨.wrongType (.value .environment (.unsigned .w64 8)) .text,
        .environment, ["server", "listen_addr"]⟩)) := by
  have hread : Yaml.read "logging: {format: 7}\n" =
      .ok [("logging", .table [("format", .unsigned .w64 7)])] := by cbv
  have hfile : fileSource (some ⟨"a.yaml", some "logging: {format: 7}\n".toUTF8⟩) =
      .ok [.ofTable "a.yaml" [("logging", .table [("format", .unsigned .w64 7)])]] := by
    simp only [fileSource, fileSettings, Yaml.readFile_toUTF8, hread]
    rfl
  have hlevel : Environment.path? "AREA_CALCULATOR__LOGGING__LEVEL" =
      some ["logging", "level"] := by cbv
  have hformat : Environment.path? "AREA_CALCULATOR__LOGGING__FORMAT" =
      some ["logging", "format"] := by cbv
  have hlisten : Environment.path? "AREA_CALCULATOR__SERVER__LISTEN_ADDR" =
      some ["server", "listen_addr"] := by cbv
  have hfive : Environment.valueOf "5" = .ok (.unsigned .w64 5) := by cbv
  have hjson : Environment.valueOf "json" = .ok (.text "json") := by cbv
  have hwarn : Environment.valueOf "warn" = .ok (.text "warn") := by cbv
  have height : Environment.valueOf "8" = .ok (.unsigned .w64 8) := by cbv
  have hassigned : Environment.assignments [("AREA_CALCULATOR__LOGGING__LEVEL", "5"),
      ("AREA_CALCULATOR__LOGGING__FORMAT", "json"), ("AREA_CALCULATOR__LOGGING__LEVEL", "warn"),
      ("AREA_CALCULATOR__SERVER__LISTEN_ADDR", "8")] =
        .ok [(["logging", "level"], .unsigned .w64 5), (["logging", "format"], .text "json"),
          (["logging", "level"], .text "warn"), (["server", "listen_addr"], .unsigned .w64 8)] := by
    simp only [Environment.assignments, hlevel, hformat, hlisten, hfive, hjson, hwarn, height]
    rfl
  obtain ⟨format, level, listen, hformatWins, hlevelWins, hlistenWins, hsettles⟩ :=
    (load_settles hfile {}).2 _ hassigned (by
      simp [Sourced.Fits, paths, Sourced.ofTable, Sourced.ofAssignment, Value.under, Value.Fits])
  obtain rfl : ⟨.environment, .text "json"⟩ = format := Option.some.inj hformatWins
  obtain rfl : ⟨.environment, .text "warn"⟩ = level := Option.some.inj hlevelWins
  obtain rfl : ⟨.environment, .unsigned .w64 8⟩ = listen := Option.some.inj hlistenWins
  exact hsettles.badListen ⟨.json, rfl⟩ rfl rfl

/-- A variable that leads to none of the three settings stops loading nevertheless if its value has
a fault. -/
theorem load_fault_beside_paths :
    Environment.path? "AREA_CALCULATOR__FOO" = some ["foo"] ∧
      load none [("AREA_CALCULATOR__FOO", "\"é\\n\"")] =
        .error (.splitCharacter .stop 1 'é' 0) := by
  have hpath : Environment.path? "AREA_CALCULATOR__FOO" = some ["foo"] := by cbv
  have hvalue : Environment.valueOf "\"é\\n\"" = .error (.splitCharacter .stop 1 'é' 0) := by cbv
  have hfile : fileSource none = .ok [] := rfl
  refine ⟨hpath, (load_eq_error_iff hfile _).2 ?_⟩
  simp only [Environment.assignments, hpath, hvalue]
  rfl

end Config

end Planimeter
